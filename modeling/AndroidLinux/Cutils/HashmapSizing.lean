import Mathlib.Tactic

/-!
# The size of a new hash map

`hashmapCreate` with a `size_t` of 32 bits: the product in the minimum wraps, and the loop
doubles the number of buckets until it is greater.
-/

namespace AndroidLinux
namespace Cutils

/-- The loop of `hashmapCreate`, with a bound for its passes. -/
def sizingLoop (minimumBucketCount : UInt32) : Nat → UInt32 → Option UInt32
  | 0, _ => none
  | passes + 1, bucketCount =>
      if bucketCount ≤ minimumBucketCount then
        sizingLoop minimumBucketCount passes (bucketCount <<< 1)
      else some bucketCount

/-- `hashmapCreate`: the number of the buckets of the new map, or `NULL`.  The two parameters
say which requests for memory are granted; a pointer has four bytes. -/
def createdBuckets (malloc : Bool) (calloc : UInt32 → UInt32 → Bool) (passes : Nat)
    (initialCapacity : UInt32) : Option (Option UInt32) :=
  if malloc then
    let minimumBucketCount := initialCapacity * 4 / 3
    (sizingLoop minimumBucketCount passes 1).map fun bucketCount =>
      if calloc bucketCount 4 then some bucketCount else none
  else some none

/-- `calloc` fails where the number of bytes is no `size_t`. -/
def CallocConforms (calloc : UInt32 → UInt32 → Bool) : Prop :=
  ∀ count size, calloc count size = true → count.toNat * size.toNat < 2 ^ 32

/-- The call returns, and the buckets of the map are a power of two that is greater than four
thirds of the capacity. -/
def SizedFor (initialCapacity : UInt32) : Prop :=
  ∀ malloc calloc, CallocConforms calloc →
    ∃ passes r, createdBuckets malloc calloc passes initialCapacity = some r ∧
      ∀ bucketCount, r = some bucketCount →
        (∃ k, bucketCount.toNat = 2 ^ k) ∧ 4 * initialCapacity.toNat < 3 * bucketCount.toNat

/-- The power of two that the loop ends with is the least one above the minimum. -/
structure LeastAbove (m k : Nat) : Prop where
  le : k ≤ 31
  above : m < 2 ^ k
  least : k = 0 ∨ 2 ^ (k - 1) ≤ m

theorem toNat_two_pow {k : Nat} (hk : k ≤ 31) : (UInt32.ofNat (2 ^ k)).toNat = 2 ^ k := by
  have hlt : 2 ^ k ≤ 2 ^ 31 := Nat.pow_le_pow_right (by decide) hk
  exact UInt32.toNat_ofNat_of_lt' (Nat.lt_of_le_of_lt hlt (by decide))

theorem two_pow_shiftLeft {k : Nat} (hk : k < 31) :
    UInt32.ofNat (2 ^ k) <<< 1 = UInt32.ofNat (2 ^ (k + 1)) := by
  have hlt : 2 ^ (k + 1) ≤ 2 ^ 31 := Nat.pow_le_pow_right (by decide) hk
  apply UInt32.toNat_inj.mp
  rw [UInt32.toNat_shiftLeft, toNat_two_pow (by omega), toNat_two_pow (by omega)]
  change 2 ^ k <<< 1 % 2 ^ 32 = _
  rw [Nat.shiftLeft_eq, ← Nat.pow_succ]
  exact Nat.mod_eq_of_lt (by omega)

/-- The loop ends, since the minimum is less than `2 ^ 31`. -/
theorem sizingLoop_spec (minimum : UInt32) (hm : minimum.toNat < 2 ^ 31) (d : Nat) {k : Nat}
    (hk : k + d = 31) (hleast : k = 0 ∨ 2 ^ (k - 1) ≤ minimum.toNat) :
    ∃ k', sizingLoop minimum (d + 1) (UInt32.ofNat (2 ^ k)) = some (UInt32.ofNat (2 ^ k')) ∧
      LeastAbove minimum.toNat k' := by
  induction d generalizing k with
  | zero =>
      obtain rfl : k = 31 := hk
      have hgt : ¬ UInt32.ofNat (2 ^ 31) ≤ minimum := by
        rw [UInt32.le_iff_toNat_le, toNat_two_pow (Nat.le_refl 31)]
        omega
      exact ⟨31, by rw [sizingLoop, if_neg hgt], Nat.le_refl 31, hm, hleast⟩
  | succ d ih =>
      have hcount := toNat_two_pow (show k ≤ 31 by omega)
      rw [sizingLoop]
      by_cases hle : UInt32.ofNat (2 ^ k) ≤ minimum
      · rw [if_pos hle, two_pow_shiftLeft (by omega)]
        refine ih (by omega) (.inr ?_)
        rw [UInt32.le_iff_toNat_le, hcount] at hle
        exact hle
      · rw [if_neg hle]
        rw [UInt32.le_iff_toNat_le, hcount] at hle
        exact ⟨k, rfl, by omega, by omega, hleast⟩

/-- The result does not depend on the bound. -/
theorem sizingLoop_unique {minimum bucketCount a b : UInt32} {passes passes' : Nat}
    (ha : sizingLoop minimum passes bucketCount = some a)
    (hb : sizingLoop minimum passes' bucketCount = some b) : a = b := by
  induction passes generalizing passes' bucketCount with
  | zero => cases ha
  | succ passes ih =>
      cases passes' with
      | zero => cases hb
      | succ passes' =>
          rw [sizingLoop] at ha hb
          split at ha
          · rename_i hle
            rw [if_pos hle] at hb
            exact ih ha hb
          · rename_i hgt
            rw [if_neg hgt] at hb
            exact Option.some.inj (ha.symm.trans hb)

theorem toNat_minimum (c : UInt32) : (c * 4 / 3).toNat = c.toNat * 4 % 2 ^ 32 / 3 := by
  rw [UInt32.toNat_div, UInt32.toNat_mul]
  rfl

/-- The buckets that are asked for, whatever is granted. -/
theorem exists_leastAbove (c : UInt32) :
    ∃ k, sizingLoop (c * 4 / 3) 32 1 = some (UInt32.ofNat (2 ^ k)) ∧
      LeastAbove (c.toNat * 4 % 2 ^ 32 / 3) k := by
  have hm := toNat_minimum c
  obtain ⟨k, hloop, hleast⟩ := sizingLoop_spec (c * 4 / 3) (by omega) 31 (k := 0) rfl (.inl rfl)
  exact ⟨k, hloop, hm ▸ hleast⟩

/-- The size suits exactly when the product does not wrap, or wraps to a number so great that
the bytes of the buckets are no `size_t`. -/
theorem sizedFor_iff (initialCapacity : UInt32) :
    SizedFor initialCapacity ↔
      initialCapacity.toNat < 2 ^ 30 ∨ 3 * 2 ^ 27 ≤ initialCapacity.toNat % 2 ^ 30 := by
  obtain ⟨k, hloop, hle, habove, hleast⟩ := exists_leastAbove initialCapacity
  have hcount := toNat_two_pow hle
  have hlimit := initialCapacity.toNat_lt
  have hwrapped : initialCapacity.toNat * 4 % 2 ^ 32 = initialCapacity.toNat % 2 ^ 30 * 4 :=
    Nat.mul_mod_mul_right 4 initialCapacity.toNat (2 ^ 30)
  constructor
  · intro h
    by_contra hsmall
    -- all memory that can be granted is granted
    obtain ⟨passes, r, hr, hsized⟩ := h true
      (fun count size => decide (count.toNat * size.toNat < 2 ^ 32))
      (fun _ _ hgranted => of_decide_eq_true hgranted)
    have hk : 2 ^ k ≤ 2 ^ 29 := by
      refine Nat.pow_le_pow_right (by decide) ?_
      by_contra hlarge
      have hpow : 2 ^ 29 ≤ 2 ^ (k - 1) := Nat.pow_le_pow_right (by decide) (by omega)
      omega
    obtain ⟨bucketCount, hend, hcalloc⟩ := Option.map_eq_some_iff.mp hr
    have hsame := sizingLoop_unique hend hloop
    have hbytes : (UInt32.ofNat (2 ^ k)).toNat * (4 : UInt32).toNat < 2 ^ 32 := by
      rw [hcount]
      change 2 ^ k * 4 < 2 ^ 32
      omega
    rw [hsame, if_pos (decide_eq_true hbytes)] at hcalloc
    have hgreat := (hsized _ hcalloc.symm).2
    rw [hcount] at hgreat
    omega
  · intro hcond malloc calloc hconforms
    cases malloc with
    | false => exact ⟨0, none, rfl, fun _ hnone => absurd hnone (by simp)⟩
    | true =>
        refine ⟨32, _, congrArg (Option.map _) hloop, fun bucketCount hcalloc => ?_⟩
        dsimp only at hcalloc
        split at hcalloc
        · rename_i hgranted
          obtain rfl := Option.some.inj hcalloc
          have hbytes := hconforms _ _ hgranted
          rw [hcount] at hbytes ⊢
          change 2 ^ k * 4 < 2 ^ 32 at hbytes
          refine ⟨⟨k, rfl⟩, ?_⟩
          obtain hnowrap | hwrap := hcond
          · omega
          · -- the power of two is too great for `calloc`
            have hlarge : 30 ≤ k := by
              by_contra hlt
              have hpow : 2 ^ k ≤ 2 ^ 29 := Nat.pow_le_pow_right (by decide) (by omega)
              omega
            have hpow : 2 ^ 30 ≤ 2 ^ k := Nat.pow_le_pow_right (by decide) hlarge
            omega
        · cases hcalloc

/-- A capacity of `2 ^ 30` entries is given one bucket. -/
theorem one_bucket : ¬ SizedFor 1073741824 := by
  intro h
  obtain ⟨passes, r, hr, hsized⟩ := h true
    (fun count size => decide (count.toNat * size.toNat < 2 ^ 32))
    (fun _ _ hgranted => of_decide_eq_true hgranted)
  obtain ⟨bucketCount, hend, hcalloc⟩ := Option.map_eq_some_iff.mp hr
  have hone : sizingLoop (1073741824 * 4 / 3) 1 1 = some 1 := by decide
  have hsame := sizingLoop_unique hend hone
  rw [hsame, if_pos (by decide)] at hcalloc
  exact absurd (hsized 1 hcalloc.symm).2 (by decide)

end Cutils
end AndroidLinux
