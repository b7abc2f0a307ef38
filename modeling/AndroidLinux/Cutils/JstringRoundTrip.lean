import AndroidLinux.Cutils.JstringDecode

/-!
# The round trip through modified UTF-8

Every unit is one sequence of at most three bytes, surrogates and zero included, and the decoder
takes it back; what `strlen8to16` counts is enough for every string.
-/

namespace AndroidLinux
namespace Cutils

open Lib Utils

/-! ## One unit -/

/-- The bytes of a unit, in numbers. -/
inductive UnitBytes (u : Nat) : List UInt8 → Prop
  | one {b : UInt8} (hpos : 0 < u) (hu : u < 0x80) (hb : b.toNat = u) : UnitBytes u [b]
  | two {b c : UInt8} (hu : u < 0x800) (hb : b.toNat = 192 + u / 64)
      (hc : c.toNat = 128 + u % 64) : UnitBytes u [b, c]
  | three {b c d : UInt8} (hu : u < 0x10000) (hb : b.toNat = 224 + u / 64 / 64)
      (hc : c.toNat = 128 + u / 64 % 64) (hd : d.toNat = 128 + u % 64) : UnitBytes u [b, c, d]

theorem extensionByte_toNat (x : UInt32) : ((x &&& 0x3f ||| 0x80).toUInt8).toNat =
    128 + x.toNat % 64 := by
  have hlow : (x &&& 0x3f).toNat = x.toNat % 64 := and_toNat x 6 _ rfl
  rw [firstByte_toNat (n := 64) (k := 128) _ (by omega) (by decide), hlow]

/-- The first unit is written in front of the others. -/
theorem strncpy16to8_cons (u : UInt16) (utf16Str : List UInt16) : ∃ bytes,
    strncpy16to8 (u :: utf16Str) = bytes ++ strncpy16to8 utf16Str ∧ UnitBytes u.toNat bytes ∧
      bytes.length = (unitLength u).toNat := by
  have hu := u.toNat_lt
  have huic : u.toUInt32.toNat = u.toNat := UInt16.toNat_toUInt32 u
  have h6 := shiftRight_toNat u.toUInt32
  have h12 : (u.toUInt32 >>> 12).toNat = u.toNat / 64 / 64 := by
    rw [UInt32.toNat_shiftRight, Nat.shiftRight_eq_div_pow, huic, Nat.div_div_eq_div_mul]
    rfl
  rw [huic] at h6
  have hwide : 0x07ff < u.toUInt32 ↔ 0x07ff < u.toNat := by
    rw [UInt32.lt_iff_toNat_lt, huic]
    rfl
  have hwide' : 0x07ff < u ↔ 0x07ff < u.toNat := UInt16.lt_iff_toNat_lt
  have hascii : 0x7f < u.toUInt32 ↔ 0x7f < u.toNat := by
    rw [UInt32.lt_iff_toNat_lt, huic]
    rfl
  have hascii' : 0x7f < u ↔ 0x7f < u.toNat := UInt16.lt_iff_toNat_lt
  have hzero : u.toUInt32 = 0 ↔ u.toNat = 0 := by
    rw [← UInt32.toNat_inj, huic]
    rfl
  have hzero' : u = 0 ↔ u.toNat = 0 := UInt16.toNat_inj.symm
  rw [strncpy16to8]
  simp only [unitLength, hwide, hwide', hascii, hascii', hzero, hzero']
  by_cases hthree : 0x07ff < u.toNat
  · rw [if_pos hthree, if_pos hthree]
    refine ⟨[_, _, _], rfl, .three hu ?_ ?_ ?_, rfl⟩
    · rw [firstByte_toNat (n := 16) (k := 224) _ (by omega) (by decide), h12]
    · rw [extensionByte_toNat, h6]
    · rw [extensionByte_toNat, huic]
  rw [if_neg hthree, if_neg hthree]
  by_cases htwo : 0x7f < u.toNat ∨ u.toNat = 0
  · rw [if_pos htwo, if_pos htwo]
    refine ⟨[_, _], rfl, .two (by omega) ?_ ?_, rfl⟩
    · rw [firstByte_toNat (n := 32) (k := 192) _ (by omega) (by decide), h6]
    · rw [extensionByte_toNat, huic]
  · rw [if_neg htwo, if_neg htwo, if_neg fun h => htwo (.inr h)]
    refine ⟨[_], rfl, .one (by omega) (by omega) ?_, rfl⟩
    rw [UInt32.toNat_toUInt8, huic]
    omega

theorem UnitBytes.not_mem {u : Nat} {bytes : List UInt8} (h : UnitBytes u bytes) :
    0 ∉ bytes := by
  have hne {b : UInt8} (hb : 0 < b.toNat) : 0 ≠ b := by
    rintro rfl
    exact absurd hb (Nat.lt_irrefl 0)
  cases h with
  | one hpos _ hb => exact List.not_mem_cons_of_ne_of_not_mem (hne (by omega)) List.not_mem_nil
  | two _ hb hc =>
      exact List.not_mem_cons_of_ne_of_not_mem (hne (by omega))
        (List.not_mem_cons_of_ne_of_not_mem (hne (by omega)) List.not_mem_nil)
  | three _ hb hc hd =>
      exact List.not_mem_cons_of_ne_of_not_mem (hne (by omega))
        (List.not_mem_cons_of_ne_of_not_mem (hne (by omega))
          (List.not_mem_cons_of_ne_of_not_mem (hne (by omega)) List.not_mem_nil))

/-- A first byte that announces `n` bytes and holds a value. -/
structure Leader (n x : Nat) (b : UInt8) : Prop where
  notExtension : isExtension b = false
  seqLength : utf8SeqLength b - 1 = n
  value : (b.toUInt32 &&& leaderMask (utf8SeqLength b)).toNat = x

instance (n x : Nat) (b : UInt8) : Decidable (Leader n x b) :=
  decidable_of_iff (isExtension b = false ∧ utf8SeqLength b - 1 = n ∧
    (b.toUInt32 &&& leaderMask (utf8SeqLength b)).toNat = x)
    ⟨fun h => ⟨h.1, h.2.1, h.2.2⟩, fun h => ⟨h.1, h.2, h.3⟩⟩

theorem leader_of_toNat (mark limit : Nat) {b : UInt8} {n x : Nat} (hb : b.toNat = mark + x)
    (hx : x < limit) (hall : ∀ y < limit, Leader n y (UInt8.ofNat (mark + y))) :
    Leader n x b := by
  have h := hall x hx
  rwa [← hb, UInt8.ofNat_toNat] at h

theorem extension_of_toNat {b : UInt8} {x : Nat} (hb : b.toNat = 128 + x) (hx : x < 64) :
    isExtension b = true := by
  have hall : ∀ y < 64, isExtension (UInt8.ofNat (128 + y)) = true := by decide +kernel
  have h := hall x hx
  rwa [← hb, UInt8.ofNat_toNat] at h

theorem Leader.getUtf32 {n x : Nat} {b : UInt8} (h : Leader n x b) (hne : b ≠ 0)
    (p : List UInt8) : getUtf32FromUtf8 (b :: p) =
      extensionLoop n (b.toUInt32 &&& leaderMask (utf8SeqLength b)) p := by
  rw [getUtf32FromUtf8, h.notExtension, if_neg Bool.false_ne_true]
  dsimp only
  rw [if_neg hne, h.seqLength]

theorem extensionLoop_cons {b : UInt8} {x : Nat} (hb : b.toNat = 128 + x) (hx : x < 64) (n : Nat)
    (ret : UInt32) (p : List UInt8) :
    extensionLoop (n + 1) ret (b :: p) = extensionLoop n (utf8ShiftAndMask ret b) p := by
  have hne : b ≠ 0 := by
    rintro rfl
    exact absurd hb (by rw [UInt8.toNat_zero]; omega)
  rw [extensionLoop, if_neg hne, extension_of_toNat hb hx]
  rfl

/-- The decoder takes back a unit. -/
theorem UnitBytes.getUtf32 {u : UInt16} {bytes : List UInt8} (h : UnitBytes u.toNat bytes)
    (rest : List UInt8) : getUtf32FromUtf8 (bytes ++ rest) = some (u.toUInt32, rest) := by
  have hnot := h.not_mem
  have huic : u.toUInt32.toNat = u.toNat := UInt16.toNat_toUInt32 u
  cases h with
  | @one b hpos hu hb =>
      have hlead : Leader 0 u.toNat b :=
        leader_of_toNat 0 128 (by omega) hu (by decide +kernel)
      rw [List.singleton_append, hlead.getUtf32 (fun hzero => hnot (hzero ▸ List.mem_cons_self))]
      refine congrArg (fun r => some (r, rest)) (UInt32.toNat_inj.mp ?_)
      rw [hlead.value, huic]
  | @two b c hu hb hc =>
      have hlead : Leader 1 (u.toNat / 64) b :=
        leader_of_toNat 192 32 hb (by omega) (by decide +kernel)
      have hval := hlead.value
      rw [List.cons_append, hlead.getUtf32 (fun hzero => hnot (hzero ▸ List.mem_cons_self)),
        List.singleton_append, extensionLoop_cons hc (Nat.mod_lt _ (by decide))]
      refine congrArg (fun r => some (r, rest)) (UInt32.toNat_inj.mp ?_)
      rw [utf8ShiftAndMask_toNat _ (by omega), hval, huic]
      omega
  | @three b c d hu hb hc hd =>
      have hlead : Leader 2 (u.toNat / 64 / 64) b :=
        leader_of_toNat 224 16 hb (by omega) (by decide +kernel)
      have hval := hlead.value
      have hnext := utf8ShiftAndMask_toNat _ (by omega : (b.toUInt32 &&&
        leaderMask (utf8SeqLength b)).toNat < 2 ^ 26) c
      rw [List.cons_append, hlead.getUtf32 (fun hzero => hnot (hzero ▸ List.mem_cons_self)),
        List.cons_append, extensionLoop_cons hc (Nat.mod_lt _ (by decide)),
        List.singleton_append, extensionLoop_cons hd (Nat.mod_lt _ (by decide))]
      refine congrArg (fun r => some (r, rest)) (UInt32.toNat_inj.mp ?_)
      rw [utf8ShiftAndMask_toNat _ (by omega), hnext, hval, huic]
      omega

theorem storedUnits_unit (u : UInt16) : storedUnits u.toUInt32 = [u] := by
  rw [storedUnits, if_pos]
  · rw [UInt16.toUInt16_toUInt32]
  · rw [UInt32.le_iff_toNat_le, UInt16.toNat_toUInt32]
    exact Nat.le_of_lt_succ u.toNat_lt

/-! ## A sequence of units -/

/-- What is written decodes to the units, with a NUL at the end and none in front of it. -/
theorem strncpy16to8_spec (u : List UInt16) : ∃ bytes, strncpy16to8 u = bytes ++ [0] ∧
    bytes.length = (u.map fun uic => (unitLength uic).toNat).sum ∧ 0 ∉ bytes ∧
    strcpy8to16 (u.length + 1) (strncpy16to8 u) = some u := by
  induction u with
  | nil => exact ⟨[], rfl, rfl, List.not_mem_nil, rfl⟩
  | cons uic u ih =>
      obtain ⟨bytes, hbytes, hlen, hnot, hcopy⟩ := ih
      obtain ⟨first, hfirst, hunit, hcount⟩ := strncpy16to8_cons uic u
      refine ⟨first ++ bytes, ?_, ?_, ?_, ?_⟩
      · rw [hfirst, hbytes, List.append_assoc]
      · rw [List.length_append, hcount, hlen, List.map_cons, List.sum_cons]
      · exact List.not_mem_append hunit.not_mem hnot
      · have hget := hunit.getUtf32 (strncpy16to8 u)
        have hnotFirst := hunit.not_mem
        rw [hfirst]
        obtain ⟨b, p, rfl⟩ := List.exists_cons_of_ne_nil (l := first) (by
          rintro rfl
          cases hunit)
        have hb : b ≠ 0 := fun hzero => hnotFirst (hzero ▸ List.mem_cons_self)
        rw [List.cons_append] at hget ⊢
        rw [strcpy8to16, if_neg hb, hget, Option.bind_some, List.length_cons, hcopy,
          storedUnits_unit]
        rfl

theorem unitLength_le (uic : UInt16) : (unitLength uic).toNat ≤ 3 := by
  unfold unitLength
  split
  · decide
  · split <;> decide

/-- The bytes of a sequence, counted exactly. -/
def byteCount (u : List UInt16) : Nat := (u.map fun uic => (unitLength uic).toNat).sum

theorem byteCount_le (u : List UInt16) : byteCount u ≤ 3 * u.length := by
  induction u with
  | nil => exact Nat.le_refl 0
  | cons uic u ih =>
      have hunit := unitLength_le uic
      unfold byteCount at ih ⊢
      rw [List.map_cons, List.sum_cons, List.length_cons]
      omega

theorem toNat_add_unitLength (utf8Len : UInt32) (uic : UInt16)
    (h : utf8Len.toNat + (unitLength uic).toNat < 2 ^ 32) :
    (utf8Len + unitLength uic).toNat = utf8Len.toNat + (unitLength uic).toNat := by
  rw [UInt32.toNat_add]
  exact Nat.mod_eq_of_lt h

theorem fastLength_toNat (utf8Len : UInt32) {u : List UInt16}
    (h : utf8Len.toNat + byteCount u < 2 ^ 32) :
    (u.foldl (fun utf8Len uic => utf8Len + unitLength uic) utf8Len).toNat =
      utf8Len.toNat + byteCount u := by
  induction u generalizing utf8Len with
  | nil => rfl
  | cons uic u ih =>
      unfold byteCount at h ih ⊢
      rw [List.map_cons, List.sum_cons] at h ⊢
      have hadd := toNat_add_unitLength utf8Len uic (by omega)
      rw [List.foldl_cons, ih _ (by omega), hadd, Nat.add_assoc]

theorem paranoidLength_toNat (utf8Len : UInt32) {u : List UInt16}
    (h : utf8Len.toNat + byteCount u < 2 ^ 32 - 1) :
    (paranoidLength utf8Len u).toNat = utf8Len.toNat + byteCount u := by
  induction u generalizing utf8Len with
  | nil =>
      rw [paranoidLength, if_neg]
      · rfl
      · rintro rfl
        exact absurd h (by decide)
  | cons uic u ih =>
      unfold byteCount at h ih ⊢
      rw [List.map_cons, List.sum_cons] at h ⊢
      have hadd := toNat_add_unitLength utf8Len uic (by omega)
      rw [paranoidLength]
      rw [if_neg (by rw [UInt32.lt_iff_toNat_lt]; omega), ih _ (by omega), hadd, Nat.add_assoc]

/-- Both loops count the bytes, where the sum does not overflow. -/
theorem strnlen16to8_toNat {u : List UInt16} (h : 3 * u.length < 2 ^ 32 - 2) :
    (strnlen16to8 u).toNat = byteCount u := by
  have hle := byteCount_le u
  unfold strnlen16to8
  split
  · exact (fastLength_toNat 0 (by rw [UInt32.toNat_zero]; omega)).trans
      (Nat.zero_add _)
  · exact (paranoidLength_toNat 0 (by rw [UInt32.toNat_zero]; omega)).trans
      (Nat.zero_add _)

/-- The promise for a sequence of units: as many bytes as are counted are written, none of them
zero, and a NUL, and the decoder takes the units back. -/
structure RoundTrips (u : List UInt16) : Prop where
  writes : ∃ bytes, strncpy16to8 u = bytes ++ [0] ∧ bytes.length = (strnlen16to8 u).toNat ∧
    0 ∉ bytes
  reads : ∃ passes, strcpy8to16 passes (strncpy16to8 u) = some u

/-- The promise for a string, valid or not: the units fit into what is counted, and into what
is allocated for them. -/
structure FitsCount (s : CString) : Prop where
  copy : ∃ passes units, strcpy8to16 passes (s.bytes ++ [0]) = some units ∧
    units.length ≤ strlen8to16 s
  duplicate : ∃ passes r, strdup8to16 passes s = some r ∧
    ∀ d, r = some d → 2 * d.units.length ≤ d.allocated

theorem fitsCount (s : CString) : FitsCount s := by
  obtain ⟨units, hcopy, -⟩ := loops_terminated s.noNul (Nat.lt_succ_self _) []
  have hle : units.length ≤ strlen8to16 s :=
    length_units_le s.noNul hcopy 0 (.inl (Int.le_refl 0))
  refine ⟨⟨s.bytes.length + 1, units, hcopy, hle⟩, s.bytes.length + 1, ?_⟩
  unfold strdup8to16
  dsimp only
  rw [hcopy]
  split
  · exact ⟨none, rfl, fun _ h => by cases h⟩
  · refine ⟨some ⟨2 * strlen8to16 s, units⟩, rfl, ?_⟩
    rintro d hd
    obtain rfl := Option.some.inj hd
    exact Nat.mul_le_mul_left 2 hle

/-- Units survive the round trip, and no string overflows its copy. -/
theorem modifiedUtf8_codec (u : List UInt16) (hu : 3 * u.length < 2 ^ 32 - 2) (s : CString) :
    RoundTrips u ∧ FitsCount s := by
  obtain ⟨bytes, hbytes, hlen, hnot, hcopy⟩ := strncpy16to8_spec u
  refine ⟨⟨⟨bytes, hbytes, ?_, hnot⟩, u.length + 1, hcopy⟩, fitsCount s⟩
  rw [hlen, strnlen16to8_toNat hu]
  rfl

/-- A zero, an unpaired surrogate and a letter, and a string that ends within a sequence. -/
theorem modifiedUtf8_codec_surrogate :
    RoundTrips [0, 0xd800, 0x41] ∧ FitsCount ⟨[0xf0, 0x9f, 0x80, 0x80], by decide⟩ :=
  modifiedUtf8_codec [0, 0xd800, 0x41] (by decide) _

end Cutils
end AndroidLinux
