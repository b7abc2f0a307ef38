import Mathlib.Data.Finset.Card
import Mathlib.Tactic

/-!
# Counting parties by their state

`Census f a F` says that the parties whose state is `a` are those of the finite set `F`.
There may be any number of parties; only those in the state `a` have to be finitely many.
When one party changes its state, the count changes by that party.
-/

namespace AndroidLinux
namespace Lib

variable {ι β : Type*}

/-- The parties in the state `a`. -/
def Census (f : ι → β) (a : β) (F : Finset ι) : Prop :=
  ∀ u, u ∈ F ↔ f u = a

theorem Census.empty {f : ι → β} {a : β} (h : ∀ u, f u ≠ a) : Census f a ∅ :=
  fun u => iff_of_false (Finset.notMem_empty u) (h u)

/-- A party that is in the state is counted. -/
theorem Census.card_pos {f : ι → β} {a : β} {F : Finset ι} (h : Census f a F) {t : ι}
    (ht : f t = a) : 0 < F.card :=
  Finset.card_pos.mpr ⟨t, (h t).mpr ht⟩

/-- One party changes its state. -/
theorem Census.update [DecidableEq ι] [DecidableEq β] {f : ι → β} {a : β} {F : Finset ι}
    (h : Census f a F) (t : ι) (b : β) :
    ∃ F', Census (Function.update f t b) a F' ∧
      F'.card + (if f t = a then 1 else 0) = F.card + (if b = a then 1 else 0) := by
  have hrest : ∀ u, u ∈ F.erase t ↔ u ≠ t ∧ f u = a := by
    intro u
    rw [Finset.mem_erase, h u]
  have hcard : (F.erase t).card + (if f t = a then 1 else 0) = F.card := by
    by_cases ht : f t = a
    · rw [if_pos ht]
      exact Finset.card_erase_add_one ((h t).mpr ht)
    · rw [if_neg ht, Finset.erase_eq_of_notMem (fun hmem => ht ((h t).mp hmem))]
      rfl
  by_cases hb : b = a
  · refine ⟨insert t (F.erase t), ?_, ?_⟩
    · intro u
      rw [Finset.mem_insert, hrest]
      by_cases hu : u = t
      · subst hu
        simp [hb]
      · simp [hu]
    · rw [Finset.card_insert_of_notMem (Finset.notMem_erase t F), if_pos hb]
      omega
  · refine ⟨F.erase t, ?_, ?_⟩
    · intro u
      rw [hrest]
      by_cases hu : u = t
      · subst hu
        simp [hb]
      · simp [hu]
    · rw [if_neg hb]
      exact hcard

end Lib
end AndroidLinux
