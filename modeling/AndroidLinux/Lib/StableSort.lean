import Mathlib.Data.List.Basic
import Mathlib.Tactic

/-!
# Stable sorting by insertion from the back

For a total preorder, a list is a stable sort of another one when it is an ordered
permutation of it in which the elements of each class of ties stand in the order they had.

Insertion from the back moves an element over those that are strictly greater and stops at
the first one that is not (`StableSort.insert`).  So it passes no element of its own class.
-/

namespace AndroidLinux
namespace Lib

variable {α : Type*} {le : α → α → Prop} [DecidableRel le] {l : List α}

/-- `l'` is a stable sort of `l`. -/
structure StableSort (le : α → α → Prop) [DecidableRel le] (l l' : List α) : Prop where
  perm : l'.Perm l
  sorted : l'.Pairwise le
  stable : ∀ a, l'.filter (fun b => le a b ∧ le b a) = l.filter (fun b => le a b ∧ le b a)

namespace StableSort

/-- An ordered list is left as it is. -/
theorem of_sorted (h : l.Pairwise le) : StableSort le l l := ⟨.refl l, h, fun _ => rfl⟩

omit [DecidableRel le] in
/-- What stands in front of an element that is not greater is not greater. -/
theorem le_of_last (htrans : ∀ a b c, le a b → le b c → le a c) {front : List α} {x : α}
    (hsorted : front.Pairwise le) (hlast : ∀ y, front.getLast? = some y → le y x) :
    ∀ a ∈ front, le a x := by
  intro a ha
  obtain ⟨init, y, rfl⟩ := List.eq_nil_or_concat' front |>.resolve_left (List.ne_nil_of_mem ha)
  have hy : le y x := hlast y List.getLast?_concat
  rcases List.mem_append.mp ha with hinit | hlast'
  · have hay : le a y := (List.pairwise_append.mp hsorted).2.2 a hinit y List.mem_cons_self
    exact htrans a y x hay hy
  · rw [List.mem_singleton.mp hlast']
    exact hy

/-- An element is inserted behind all that are not greater. -/
theorem insert (htotal : ∀ a b, le a b ∨ le b a) (htrans : ∀ a b c, le a b → le b c → le a c)
    {front back : List α} {x : α} (h : StableSort le l (front ++ back))
    (hfront : ∀ y, front.getLast? = some y → le y x) (hback : ∀ y ∈ back, ¬ le y x) :
    StableSort le (l ++ [x]) (front ++ x :: back) := by
  obtain ⟨hsorted, hsorted', hcross⟩ := List.pairwise_append.mp h.sorted
  have hle := le_of_last htrans hsorted hfront
  refine ⟨?_, ?_, fun a => ?_⟩
  · refine List.perm_middle.trans ?_
    exact (List.Perm.cons x h.perm).trans (List.perm_append_singleton x l).symm
  · refine List.pairwise_append.mpr ⟨hsorted, List.pairwise_cons.mpr ⟨fun y hy => ?_, hsorted'⟩,
      fun y hy z hz => ?_⟩
    · exact (htotal y x).resolve_left (hback y hy)
    · rcases List.mem_cons.mp hz with rfl | hz
      · exact hle y hy
      · exact hcross y hy z hz
  · have hstable := h.stable a
    rw [List.filter_append] at hstable
    rw [List.filter_append, List.filter_append, ← hstable, List.append_assoc]
    congr 1
    by_cases hx : le a x ∧ le x a
    · -- no element behind ties with the class of the new one
      have hnone : back.filter (fun b => le a b ∧ le b a) = [] :=
        List.filter_eq_nil_iff.mpr fun y hy htie =>
          hback y hy (htrans y a x (of_decide_eq_true htie).2 hx.1)
      rw [List.filter_cons_of_pos (by simpa using hx),
        List.filter_cons_of_pos (by simpa using hx), hnone]
      rfl
    · rw [List.filter_cons_of_neg (by simpa using hx),
        List.filter_cons_of_neg (by simpa using hx), List.filter_nil, List.append_nil]

end StableSort
end Lib
end AndroidLinux
