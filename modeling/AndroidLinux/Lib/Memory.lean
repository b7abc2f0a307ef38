import Mathlib.Tactic

/-!
# Bytes at a pointer

`Mem` holds the bytes of a 32-bit address space as they are seen from one pointer:
offsets wrap, as pointer arithmetic does.  `load` and `store` are `memcpy` out of and
into it.  `leBytes` and `leNat` are the little-endian representation of numbers.

The lemmas say what is read back: a store reads as what was stored, and as the old bytes
elsewhere, for ranges that do not wrap.
-/

namespace AndroidLinux
namespace Lib

/-- The bytes at all offsets from a pointer. -/
abbrev Mem := UInt32 → UInt8

namespace Mem

/-- `memcpy` to an offset. -/
def store (m : Mem) (off : UInt32) (bs : List UInt8) : Mem :=
  fun a => (bs[(a - off).toNat]?).getD (m a)

/-- `memcpy` from an offset. -/
def load (m : Mem) (off : UInt32) (n : Nat) : List UInt8 :=
  (List.range n).map fun i => m (off + UInt32.ofNat i)

/-- A new block with the first `n` bytes of an old one. -/
def moveTo (m : Mem) (n : Nat) (block : Mem) : Mem :=
  fun a => if a.toNat < n then m a else block a

/-- `memchr(m + off, 0, n)`, as the distance from `off`. -/
def findNul (m : Mem) (off : UInt32) : Nat → Option Nat
  | 0 => none
  | n + 1 => if m off = 0 then some 0 else (findNul m (off + 1) n).map (· + 1)

theorem load_length (m : Mem) (off : UInt32) (n : Nat) : (m.load off n).length = n := by
  simp [load]

theorem load_one (m : Mem) (off : UInt32) : m.load off 1 = [m off] := by
  simp [load]

theorem getElem?_load {m : Mem} {off : UInt32} {n i : Nat} (h : i < n) :
    (m.load off n)[i]? = some (m (off + UInt32.ofNat i)) := by
  simp [load, h]

/-- Loads agree when the bytes do. -/
theorem load_congr {m m' : Mem} {off off' : UInt32} {n : Nat}
    (h : ∀ i < n, m (off + UInt32.ofNat i) = m' (off' + UInt32.ofNat i)) :
    m.load off n = m'.load off' n := by
  refine List.map_congr_left fun i hi => ?_
  exact h i (List.mem_range.mp hi)

theorem load_add (m : Mem) (off : UInt32) (a b : Nat) :
    m.load off (a + b) = m.load off a ++ m.load (off + UInt32.ofNat a) b := by
  unfold load
  rw [List.range_add, List.map_append, List.map_map]
  congr 1
  refine List.map_congr_left fun i _ => ?_
  simp only [Function.comp_apply, UInt32.ofNat_add, UInt32.add_assoc]

/-- What has been stored is read back. -/
theorem load_store {m : Mem} {off : UInt32} {bs : List UInt8} (h : bs.length ≤ 2 ^ 32) :
    (m.store off bs).load off bs.length = bs := by
  refine List.ext_getElem? fun i => ?_
  by_cases hi : i < bs.length
  · have hsub : (off + UInt32.ofNat i - off).toNat = i := by
      rw [UInt32.add_comm, UInt32.add_sub_cancel]
      exact UInt32.toNat_ofNat_of_lt' (lt_of_lt_of_le hi h)
    rw [getElem?_load hi]
    simp only [store, hsub, List.getElem?_eq_getElem hi, Option.getD_some]
  · have hlen := load_length (m.store off bs) off bs.length
    rw [List.getElem?_eq_none (by omega), List.getElem?_eq_none (by omega)]

/-- A byte outside of the stored range is not changed. -/
theorem store_apply_of_disjoint {m : Mem} {off a : UInt32} {bs : List UInt8}
    (hoff : off.toNat + bs.length ≤ 2 ^ 32)
    (h : a.toNat < off.toNat ∨ off.toNat + bs.length ≤ a.toNat) : m.store off bs a = m a := by
  have ha := a.toNat_lt
  have hsub : bs.length ≤ (a - off).toNat := by
    rw [UInt32.toNat_sub]
    omega
  simp only [store, List.getElem?_eq_none hsub, Option.getD_none]

theorem toNat_add_ofNat {off : UInt32} {i : Nat} (h : off.toNat + i < 2 ^ 32) :
    (off + UInt32.ofNat i).toNat = off.toNat + i := by
  have hi : (UInt32.ofNat i).toNat = i :=
    UInt32.toNat_ofNat_of_lt' (lt_of_le_of_lt (Nat.le_add_left i _) h)
  rw [UInt32.toNat_add, hi, Nat.mod_eq_of_lt h]

/-- A load from another range is not changed by a store. -/
theorem load_store_of_disjoint {m : Mem} {off a : UInt32} {bs : List UInt8} {n : Nat}
    (hoff : off.toNat + bs.length ≤ 2 ^ 32) (ha : a.toNat + n ≤ 2 ^ 32)
    (h : a.toNat + n ≤ off.toNat ∨ off.toNat + bs.length ≤ a.toNat) :
    (m.store off bs).load a n = m.load a n := by
  refine load_congr fun i hi => ?_
  have hai : (a + UInt32.ofNat i).toNat = a.toNat + i := toNat_add_ofNat (by omega)
  refine store_apply_of_disjoint hoff ?_
  rw [hai]
  omega

/-- The bytes that are moved to a new block. -/
theorem load_moveTo {m block : Mem} {a : UInt32} {n k : Nat} (ha : a.toNat + n ≤ 2 ^ 32)
    (hk : a.toNat + n ≤ k) : (m.moveTo k block).load a n = m.load a n := by
  refine load_congr fun i hi => ?_
  have hai : (a + UInt32.ofNat i).toNat = a.toNat + i := toNat_add_ofNat (by omega)
  exact if_pos (by rw [hai]; omega)

/-- Where there is a NUL, one is found that is not behind it. -/
theorem findNul_of_nul {m : Mem} {off : UInt32} {n k : Nat} (hk : k < n)
    (hnul : m (off + UInt32.ofNat k) = 0) :
    ∃ i ≤ k, m.findNul off n = some i ∧ m (off + UInt32.ofNat i) = 0 := by
  induction k generalizing off n with
  | zero =>
      obtain ⟨n, rfl⟩ := Nat.exists_eq_succ_of_ne_zero (Nat.ne_of_gt hk)
      have hhere : m off = 0 := by simpa using hnul
      exact ⟨0, le_rfl, by rw [findNul, if_pos hhere], hnul⟩
  | succ k ih =>
      obtain ⟨n, rfl⟩ := Nat.exists_eq_succ_of_ne_zero (Nat.ne_of_gt (Nat.zero_lt_of_lt hk))
      have hnext (i : Nat) : off + UInt32.ofNat (i + 1) = off + 1 + UInt32.ofNat i := by
        rw [UInt32.ofNat_add, UInt32.add_assoc, UInt32.add_comm (UInt32.ofNat i)]
        rfl
      by_cases hhere : m off = 0
      · exact ⟨0, Nat.zero_le _, by rw [findNul, if_pos hhere], by simpa using hhere⟩
      · rw [hnext] at hnul
        obtain ⟨i, hi, hfound, hzero⟩ := ih (Nat.lt_of_succ_lt_succ hk) hnul
        refine ⟨i + 1, Nat.succ_le_succ hi, ?_, by rw [hnext]; exact hzero⟩
        rw [findNul, if_neg hhere, hfound]
        rfl

/-- The first NUL of a string that is followed by one. -/
theorem findNul_eq {m : Mem} {off : UInt32} {bs : List UInt8} {n : Nat}
    (hload : m.load off (bs.length + 1) = bs ++ [0]) (hnul : (0 : UInt8) ∉ bs)
    (hn : bs.length < n) : m.findNul off n = some bs.length := by
  induction bs generalizing off n with
  | nil =>
      obtain ⟨n, rfl⟩ := Nat.exists_eq_succ_of_ne_zero (Nat.ne_of_gt hn)
      have hzero : m off = 0 := by simpa [load, List.range_succ] using hload
      simp [findNul, hzero]
  | cons b bs ih =>
      obtain ⟨n, rfl⟩ := Nat.exists_eq_succ_of_ne_zero (Nat.ne_of_gt (Nat.zero_lt_of_lt hn))
      have hlen : (b :: bs).length + 1 = 1 + (bs.length + 1) := by
        rw [List.length_cons]
        omega
      rw [hlen, load_add, load_one, List.singleton_append, List.cons_append] at hload
      obtain ⟨hb, hrest⟩ := List.cons.inj hload
      have hne : m off ≠ 0 := by
        intro hzero
        exact hnul (hzero ▸ hb ▸ List.mem_cons_self)
      have hfind := ih hrest (fun hmem => hnul (List.mem_cons_of_mem b hmem))
        (Nat.lt_of_succ_lt_succ hn)
      rw [findNul, if_neg hne, show off + 1 = off + UInt32.ofNat 1 from rfl, hfind]
      rfl

end Mem

/-! ## Little-endian numbers -/

/-- The `n` lowest bytes of a number, the lowest one first. -/
def leBytes : Nat → Nat → List UInt8
  | 0, _ => []
  | n + 1, x => UInt8.ofNat x :: leBytes n (x / 256)

/-- The number that bytes stand for. -/
def leNat : List UInt8 → Nat
  | [] => 0
  | b :: bs => b.toNat + 256 * leNat bs

theorem leBytes_length (n x : Nat) : (leBytes n x).length = n := by
  induction n generalizing x with
  | zero => rfl
  | succ n ih => simp [leBytes, ih]

/-- A number that fits is read back. -/
theorem leNat_leBytes {n x : Nat} (h : x < 256 ^ n) : leNat (leBytes n x) = x := by
  induction n generalizing x with
  | zero =>
      rw [pow_zero, Nat.lt_one_iff] at h
      exact h.symm
  | succ n ih =>
      have hdiv : x / 256 < 256 ^ n := by
        rw [pow_succ, Nat.mul_comm] at h
        exact Nat.div_lt_of_lt_mul h
      have hbyte : (UInt8.ofNat x).toNat = x % 256 := by simp
      rw [leBytes, leNat, ih hdiv, hbyte]
      exact Nat.mod_add_div x 256

/-- A word is read back. -/
theorem ofNat_leNat_word (x : UInt32) : UInt32.ofNat (leNat (leBytes 4 x.toNat)) = x := by
  rw [leNat_leBytes x.toNat_lt]
  exact UInt32.ofNat_toNat

/-- A double word is read back. -/
theorem ofNat_leNat_double (x : UInt64) : UInt64.ofNat (leNat (leBytes 8 x.toNat)) = x := by
  rw [leNat_leBytes x.toNat_lt]
  exact UInt64.ofNat_toNat

end Lib
end AndroidLinux
