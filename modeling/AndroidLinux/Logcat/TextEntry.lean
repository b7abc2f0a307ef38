import AndroidLinux.Lib.Memory

/-!
# Splitting a text entry

`android_log_processLogBuffer` of `logprint.c`.  The payload of the entry and what lies behind
it in memory are seen from `msg`, and a pointer is its offset from there.  `readLogLines` has
put a NUL behind the payload.
-/

namespace AndroidLinux
namespace Logcat

open Lib

/-- The fields of `logger_entry` in front of the payload. -/
structure EntryHeader where
  len : UInt16
  pid : UInt32
  tid : UInt32
  sec : UInt32
  nsec : UInt32

/-- `AndroidLogEntry`, with offsets from `msg`. -/
structure TextEntry where
  tvSec : UInt32
  tvNsec : UInt32
  priority : UInt8
  pid : UInt32
  tid : UInt32
  tag : UInt32
  messageLen : UInt32
  message : UInt32

/-- `android_log_processLogBuffer`: the result and the entry; `none` when `strlen` meets no
NUL in the whole memory. -/
def processLogBuffer (buf : EntryHeader) (msg : Mem) : Option (Int × TextEntry) :=
  let tag : UInt32 := 1
  (msg.findNul tag (2 ^ 32)).map fun len =>
    let tagLen := UInt32.ofNat len
    (0, { tvSec := buf.sec
          tvNsec := buf.nsec
          priority := msg 0
          pid := buf.pid
          tid := buf.tid
          tag := tag
          messageLen := buf.len.toUInt32 - tagLen - 3
          message := tag + tagLen + 1 })

/-- A NUL stands between an offset and `len`. -/
def EndsInside (msg : Mem) (len off : Nat) : Prop :=
  ∃ i, off ≤ i ∧ i ≤ len ∧ msg (UInt32.ofNat i) = 0

/-- The call fails, or tag and message are strings inside of the entry. -/
def SplitInside (buf : EntryHeader) (msg : Mem) : Prop :=
  ∃ r e, processLogBuffer buf msg = some (r, e) ∧ (r = -1 ∨
    EndsInside msg buf.len.toNat e.tag.toNat ∧ EndsInside msg buf.len.toNat e.message.toNat ∧
      e.message.toNat + e.messageLen.toNat ≤ buf.len.toNat)

/-- The tag ends at least two bytes before the payload does. -/
def TagEnds (buf : EntryHeader) (msg : Mem) : Prop :=
  ∃ i, 1 ≤ i ∧ i + 2 ≤ buf.len.toNat ∧ msg (UInt32.ofNat i) = 0

theorem findNul_tag {msg : Mem} {i : Nat} (hpos : 1 ≤ i) (hi : i < 2 ^ 16)
    (hnul : msg (UInt32.ofNat i) = 0) :
    ∃ k, k + 1 ≤ i ∧ msg.findNul 1 (2 ^ 32) = some k ∧ msg (UInt32.ofNat (k + 1)) = 0 := by
  have hat : ∀ k, (1 : UInt32) + UInt32.ofNat k = UInt32.ofNat (k + 1) := fun k => by
    rw [UInt32.add_comm, UInt32.ofNat_add]
    rfl
  have hstart : msg (1 + UInt32.ofNat (i - 1)) = 0 := by
    rw [hat, Nat.sub_add_cancel hpos]
    exact hnul
  obtain ⟨k, hk, hfound, hzero⟩ := Mem.findNul_of_nul (n := 2 ^ 32) (by omega) hstart
  exact ⟨k, by omega, hfound, hat k ▸ hzero⟩

/-- The fields that follow from the length of the tag. -/
theorem offsets (len : UInt16) {k : Nat} (hk : k + 1 ≤ len.toNat) :
    ((1 : UInt32) + UInt32.ofNat k + 1).toNat = k + 2 ∧
      (k + 3 ≤ len.toNat → (len.toUInt32 - UInt32.ofNat k - 3).toNat = len.toNat - k - 3) ∧
      (len.toNat < k + 3 → 2 ^ 16 < (len.toUInt32 - UInt32.ofNat k - 3).toNat) := by
  have hlen := len.toNat_lt
  have hsmall : k < 2 ^ 32 := by omega
  have hof : (UInt32.ofNat k).toNat = k := UInt32.toNat_ofNat_of_lt' hsmall
  have hone : (1 : UInt32).toNat = 1 := rfl
  have hthree : (3 : UInt32).toNat = 3 := rfl
  have hwide : len.toUInt32.toNat = len.toNat := rfl
  refine ⟨?_, fun h => ?_, fun h => ?_⟩
  · rw [UInt32.toNat_add, UInt32.toNat_add, hof, hone]
    omega
  · rw [UInt32.toNat_sub, UInt32.toNat_sub, hof, hthree, hwide]
    omega
  · rw [UInt32.toNat_sub, UInt32.toNat_sub, hof, hthree, hwide]
    omega

/-- The entry is split inside of its buffer exactly when its tag ends early enough: with a tag
that ends later the length of the message wraps, and the call never fails. -/
theorem processLogBuffer_inside_iff {buf : EntryHeader} {msg : Mem}
    (hnul : msg buf.len.toUInt32 = 0) : SplitInside buf msg ↔ TagEnds buf msg := by
  have hlen := buf.len.toNat_lt
  have hsmall : buf.len.toNat < 2 ^ 32 := by omega
  have hoff : UInt32.ofNat buf.len.toNat = buf.len.toUInt32 :=
    UInt32.toNat_inj.mp (UInt32.toNat_ofNat_of_lt' hsmall)
  have hend : msg (UInt32.ofNat buf.len.toNat) = 0 := hoff ▸ hnul
  constructor
  · rintro ⟨r, e, hcall, hinside⟩
    obtain ⟨k, hfound, he⟩ := Option.map_eq_some_iff.mp hcall
    obtain ⟨rfl, rfl⟩ := Prod.mk.inj he
    obtain hfail | ⟨⟨i, hlo, hhi, hi⟩, -, hfits⟩ := hinside
    · cases hfail
    · obtain ⟨k', hk', hfound', hzero⟩ := findNul_tag hlo (by omega) hi
      obtain rfl := Option.some.inj (hfound'.symm.trans hfound)
      obtain ⟨-, -, hlate⟩ := offsets buf.len (k := k') (by omega)
      refine ⟨k' + 1, by omega, ?_, hzero⟩
      by_contra hshort
      have hwrap := hlate (by omega)
      dsimp only at hfits
      omega
  · rintro ⟨i, hlo, hhi, hi⟩
    obtain ⟨k, hk, hfound, hzero⟩ := findNul_tag hlo (by omega) hi
    obtain ⟨hmessage, hsize, -⟩ := offsets buf.len (k := k) (by omega)
    refine ⟨0, _, by rw [processLogBuffer, hfound]; rfl, .inr ⟨?_, ?_, ?_⟩⟩
    · exact ⟨k + 1, by simp, by omega, hzero⟩
    · refine ⟨buf.len.toNat, ?_, le_rfl, hend⟩
      dsimp only
      rw [hmessage]
      omega
    · dsimp only
      rw [hmessage, hsize (by omega)]
      omega

/-- A tag of one byte and a message of one byte. -/
theorem processLogBuffer_inside_iff_short :
    SplitInside ⟨5, 0, 0, 0, 0⟩ (fun a => if a = 1 ∨ a = 3 then 65 else 0) :=
  (processLogBuffer_inside_iff (by decide)).mpr ⟨2, by decide, by decide, by decide⟩

/-- Of a payload that is a priority only, the tag lies behind the entry. -/
theorem processLogBuffer_only_priority :
    ¬ SplitInside ⟨1, 0, 0, 0, 0⟩ (fun a => if a = 0 then 4 else 0) := by
  intro h
  obtain ⟨i, hlo, hhi, -⟩ := (processLogBuffer_inside_iff (by decide)).mp h
  have hone : (1 : UInt16).toNat = 1 := rfl
  dsimp only at hhi
  omega

end Logcat
end AndroidLinux
