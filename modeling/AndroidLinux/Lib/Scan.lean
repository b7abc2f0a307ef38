import Mathlib.Data.List.Nodup
import Mathlib.Data.List.FinRange
import Mathlib.Tactic

/-!
# Collecting scans with a capacity

Many table queries of C code have the shape

    for (i = 0; i < n; i++) {
        if (wanted(tab[i])) out[num++] = value(tab[i]);
        if (num >= capacity) break;
    }

The capacity is tested *after* the element has been looked at.  `collect` is this
loop over an arbitrary list of elements.  With enough capacity it is a
`List.filterMap` (`collect_eq_filterMap`); with capacity zero it looks at the
first element only (`collect_zero`).
-/

namespace AndroidLinux
namespace Lib

variable {α β : Type*}

/-- The collecting loop; `out` is what has been collected so far. -/
def collect (cap : Nat) (f : α → Option β) : List α → List β → List β
  | [], out => out
  | x :: xs, out =>
      let out' := out ++ (f x).toList
      if cap ≤ out'.length then out' else collect cap f xs out'

theorem filterMap_cons_eq_toList_append (f : α → Option β) (x : α) (xs : List α) :
    (x :: xs).filterMap f = (f x).toList ++ xs.filterMap f := by
  cases hx : f x with
  | none => simp [hx]
  | some b => simp [hx]

/-- As long as the capacity is not exceeded nothing is lost: when it is reached,
no further element is wanted. -/
theorem collect_eq_append_filterMap (cap : Nat) (f : α → Option β) (xs : List α)
    (out : List β) (hcap : out.length + (xs.filterMap f).length ≤ cap) :
    collect cap f xs out = out ++ xs.filterMap f := by
  induction xs generalizing out with
  | nil => simp [collect]
  | cons x xs ih =>
      rw [filterMap_cons_eq_toList_append] at hcap ⊢
      simp only [List.length_append] at hcap
      simp only [collect]
      split
      · next hfull =>
          have hrest : (xs.filterMap f).length = 0 := by
            simp only [List.length_append] at hfull
            omega
          rw [List.length_eq_zero_iff.mp hrest, List.append_nil]
      · have hroom : (out ++ (f x).toList).length + (xs.filterMap f).length ≤ cap := by
          simp only [List.length_append]
          omega
        rw [ih _ hroom, List.append_assoc]

/-- With enough capacity the scan lists every wanted element, in order. -/
theorem collect_eq_filterMap (cap : Nat) (f : α → Option β) (xs : List α)
    (hcap : (xs.filterMap f).length ≤ cap) :
    collect cap f xs [] = xs.filterMap f := by
  simpa using collect_eq_append_filterMap cap f xs [] (by simpa using hcap)

/-- With capacity zero the scan stops after its first element. -/
theorem collect_zero (f : α → Option β) (x : α) (xs : List α) :
    collect 0 f (x :: xs) [] = (f x).toList := by
  simp [collect]

/-- A scan that maps different wanted elements to different values lists no value
twice. -/
theorem nodup_filterMap_finRange {n : Nat} (f : Fin n → Option β)
    (hinj : ∀ i j b, f i = some b → f j = some b → i = j) :
    ((List.finRange n).filterMap f).Nodup := by
  apply List.Nodup.filterMap
  · intro i j b hi hj
    exact hinj i j b hi hj
  · exact List.nodup_finRange n

end Lib
end AndroidLinux
