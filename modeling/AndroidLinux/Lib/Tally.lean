import Mathlib.Tactic

/-!
# Sums over a list and the counter that keeps them

A sum over the entries of a list changes by what one entry does.  A machine counter follows
such a sum as long as it does not overflow.
-/

namespace AndroidLinux
namespace Lib

variable {α : Type*}

/-- One entry is replaced. -/
theorem sum_map_set {xs : List α} {i : Nat} {old : α} (hold : xs[i]? = some old)
    (f : α → Nat) (new : α) :
    ((xs.set i new).map f).sum + f old = (xs.map f).sum + f new := by
  induction xs generalizing i with
  | nil => cases hold
  | cons x rest ih =>
      cases i with
      | zero =>
          simp only [List.getElem?_cons_zero, Option.some.injEq] at hold
          subst hold
          simp only [List.set_cons_zero, List.map_cons, List.sum_cons]
          omega
      | succ i =>
          simp only [List.getElem?_cons_succ] at hold
          have hrest := ih hold
          simp only [List.set_cons_succ, List.map_cons, List.sum_cons]
          omega

/-- One entry is added. -/
theorem sum_map_concat (xs : List α) (f : α → Nat) (new : α) :
    ((xs ++ [new]).map f).sum = (xs.map f).sum + f new := by
  rw [List.map_append, List.sum_append]
  rfl

theorem le_sum_map {xs : List α} {i : Nat} {x : α} (hx : xs[i]? = some x) (f : α → Nat) :
    f x ≤ (xs.map f).sum :=
  List.le_sum_of_mem (List.mem_map_of_mem (List.mem_of_getElem? hx))

/-- An entry that is there is modified. -/
theorem modify_of_getElem? {xs : List α} {i : Nat} {x : α} (hx : xs[i]? = some x)
    (f : α → α) : xs.modify i f = xs.set i (f x) := by
  have hinh : Inhabited α := ⟨x⟩
  rw [List.modify_eq_set, hx]
  rfl

theorem mem_modify_cases {xs : List α} {i : Nat} {f : α → α} {x : α}
    (hx : x ∈ xs.modify i f) : x ∈ xs ∨ ∃ y, xs[i]? = some y ∧ x = f y := by
  cases hi : xs[i]? with
  | none =>
      rw [List.modify_eq_self (List.getElem?_eq_none_iff.mp hi)] at hx
      exact .inl hx
  | some y =>
      rw [modify_of_getElem? hi] at hx
      rcases List.mem_or_eq_of_mem_set hx with hx | rfl
      · exact .inl hx
      · exact .inr ⟨y, rfl, rfl⟩

theorem toInt_add_one {x : Int32} (h : x.toInt + 1 < 2 ^ 31) : (x + 1).toInt = x.toInt + 1 := by
  have hle := x.le_toInt
  rw [Int32.toInt_add, Int32.toInt_one]
  exact Int.bmod_eq_of_le (by omega) (by omega)

theorem toInt_sub_one {x : Int32} (h : 0 < x.toInt) : (x - 1).toInt = x.toInt - 1 := by
  have hlt := x.toInt_lt
  rw [Int32.toInt_sub, Int32.toInt_one]
  exact Int.bmod_eq_of_le (by omega) (by omega)

theorem eq_one_iff {x : Int32} : x = 1 ↔ x.toInt = 1 := by
  rw [← Int32.toInt_inj, Int32.toInt_one]

end Lib
end AndroidLinux
