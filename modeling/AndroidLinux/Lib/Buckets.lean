import Mathlib.Data.List.Perm.Basic
import Mathlib.Logic.Function.Basic
import Mathlib.Tactic

/-!
# Rows of buckets

`gather n buckets` lists what stands in the first `n` of a row of lists.  Its order is of
no interest: changing one bucket changes the whole by what that bucket has gained or lost
(`gather_update`).
-/

namespace AndroidLinux
namespace Lib

variable {α : Type*}

/-- The contents of the first `n` buckets. -/
def gather (buckets : Nat → List α) : Nat → List α
  | 0 => []
  | n + 1 => gather buckets n ++ buckets n

theorem mem_gather {buckets : Nat → List α} {n : Nat} {x : α} :
    x ∈ gather buckets n ↔ ∃ i < n, x ∈ buckets i := by
  induction n with
  | zero => simp [gather]
  | succ n ih =>
      simp only [gather, List.mem_append, ih, Nat.lt_succ_iff_lt_or_eq]
      constructor
      · rintro (⟨i, hi, hx⟩ | hx)
        · exact ⟨i, Or.inl hi, hx⟩
        · exact ⟨n, Or.inr rfl, hx⟩
      · rintro ⟨i, hi | rfl, hx⟩
        · exact Or.inl ⟨i, hi, hx⟩
        · exact Or.inr hx

theorem gather_empty (n : Nat) : gather (fun _ => ([] : List α)) n = [] := by
  induction n with
  | zero => rfl
  | succ n ih => rw [gather, ih, List.append_nil]

/-- A bucket outside the row does not count. -/
theorem gather_update_outside (buckets : Nat → List α) {n i : Nat} (hi : n ≤ i)
    (bucket : List α) : gather (Function.update buckets i bucket) n = gather buckets n := by
  induction n with
  | zero => rfl
  | succ n ih =>
      have hne : n ≠ i := by omega
      rw [gather, gather, ih (by omega), Function.update_of_ne hne]

/-- One bucket stands out from the others. -/
theorem gather_perm (buckets : Nat → List α) {n i : Nat} (hi : i < n) :
    (gather buckets n).Perm
      (buckets i ++ gather (Function.update buckets i []) n) := by
  induction n with
  | zero => omega
  | succ n ih =>
      rw [gather, gather]
      by_cases hlast : i = n
      · subst hlast
        rw [gather_update_outside buckets le_rfl, Function.update_self, List.append_nil]
        exact List.perm_append_comm
      · have hne : n ≠ i := fun h => hlast h.symm
        rw [Function.update_of_ne hne, ← List.append_assoc]
        exact (ih (by omega)).append_right _

/-- The whole after one bucket is replaced. -/
theorem gather_update (buckets : Nat → List α) {n i : Nat} (hi : i < n) (bucket : List α) :
    (gather (Function.update buckets i bucket) n).Perm
      (bucket ++ gather (Function.update buckets i []) n) := by
  have h := gather_perm (Function.update buckets i bucket) hi
  rwa [Function.update_self, Function.update_idem] at h

/-- An element comes in at the front of a bucket. -/
theorem gather_push (buckets : Nat → List α) {n i : Nat} (hi : i < n) (x : α) :
    (gather (Function.update buckets i (x :: buckets i)) n).Perm (x :: gather buckets n) :=
  (gather_update buckets hi _).trans ((gather_perm buckets hi).symm.cons x)

end Lib
end AndroidLinux
