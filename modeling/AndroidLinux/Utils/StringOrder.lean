import Mathlib.Tactic

/-!
# The comparison of UTF-16 strings

`strzcmp16` and the operators of `String16` on it.  A string is the list of its units.  When
one string is in front of the other, its end is compared with the next unit of the other one,
as if a zero stood there; so a unit that is zero is taken for the end.
-/

namespace AndroidLinux
namespace Utils

/-- `strzcmp16`. -/
def strzcmp16 : List UInt16 → List UInt16 → Int
  | [], [] => 0
  | [], v :: _ => 0 - (v.toNat : Int)
  | u :: _, [] => (u.toNat : Int) - 0
  | u :: us, v :: vs =>
      let d := (u.toNat : Int) - v.toNat
      if d ≠ 0 then d else strzcmp16 us vs

namespace String16

def compare (a b : List UInt16) : Int := strzcmp16 a b

/-- `operator==`. -/
def beq (a b : List UInt16) : Bool := strzcmp16 a b = 0

/-- `operator<`. -/
def lt (a b : List UInt16) : Bool := strzcmp16 a b < 0

/-- `operator<=`. -/
def le (a b : List UInt16) : Bool := strzcmp16 a b ≤ 0

end String16

/-- `a` stands in front of `b`, and the next unit of `b` is zero. -/
def ZeroBehind (a b : List UInt16) : Prop := ∃ rest, b = a ++ 0 :: rest

theorem zeroBehind_nil {v : UInt16} {vs : List UInt16} : ZeroBehind [] (v :: vs) ↔ v = 0 := by
  constructor
  · rintro ⟨rest, h⟩
    exact (List.cons.inj h).1
  · rintro rfl
    exact ⟨vs, rfl⟩

theorem zeroBehind_cons {u : UInt16} {us vs : List UInt16} :
    ZeroBehind (u :: us) (u :: vs) ↔ ZeroBehind us vs := by
  constructor
  · rintro ⟨rest, h⟩
    exact ⟨rest, (List.cons.inj h).2⟩
  · rintro ⟨rest, rfl⟩
    exact ⟨rest, rfl⟩

theorem ZeroBehind.ne {a b : List UInt16} (h : ZeroBehind a b) : a ≠ b := by
  rintro rfl
  obtain ⟨rest, h⟩ := h
  have hlen := congrArg List.length h
  rw [List.length_append, List.length_cons] at hlen
  omega

theorem toNat_eq_zero {u : UInt16} : u.toNat = 0 ↔ u = 0 :=
  ⟨fun h => UInt16.toNat_inj.mp h, fun h => h ▸ rfl⟩

theorem strzcmp16_cons (u : UInt16) (us vs : List UInt16) :
    strzcmp16 (u :: us) (u :: vs) = strzcmp16 us vs := by
  rw [strzcmp16, sub_self]
  exact if_neg fun h => h rfl

theorem strzcmp16_cons_of_ne {u v : UInt16} (h : u ≠ v) (us vs : List UInt16) :
    strzcmp16 (u :: us) (v :: vs) = (u.toNat : Int) - v.toNat := by
  have hne : (u.toNat : Int) - v.toNat ≠ 0 := by
    intro hzero
    exact h (UInt16.toNat_inj.mp (by omega))
  rw [strzcmp16]
  exact if_pos hne

/-- Exchanging the strings changes the sign. -/
theorem strzcmp16_swap (a b : List UInt16) : strzcmp16 b a = -strzcmp16 a b := by
  induction a generalizing b with
  | nil =>
      cases b with
      | nil => rfl
      | cons v vs => simp [strzcmp16]
  | cons u us ih =>
      cases b with
      | nil => simp [strzcmp16]
      | cons v vs =>
          by_cases h : u = v
          · rw [h, strzcmp16_cons, strzcmp16_cons]
            exact ih vs
          · rw [strzcmp16_cons_of_ne h, strzcmp16_cons_of_ne (Ne.symm h)]
            ring

theorem strzcmp16_self (a : List UInt16) : strzcmp16 a a = 0 := by
  have hswap := strzcmp16_swap a a
  omega

/-- A zero behind a string is not seen. -/
theorem ZeroBehind.strzcmp16 {a b : List UInt16} (h : ZeroBehind a b) : strzcmp16 a b = 0 := by
  obtain ⟨rest, rfl⟩ := h
  induction a with
  | nil => rfl
  | cons u us ih =>
      rw [List.cons_append, strzcmp16_cons]
      exact ih

theorem eq_of_strzcmp16 {a b : List UInt16} (hab : ¬ ZeroBehind a b) (hba : ¬ ZeroBehind b a)
    (h : strzcmp16 a b = 0) : a = b := by
  induction a generalizing b with
  | nil =>
      cases b with
      | nil => rfl
      | cons v vs =>
          rw [Utils.strzcmp16] at h
          exact absurd (zeroBehind_nil.mpr (toNat_eq_zero.mp (by omega))) hab
  | cons u us ih =>
      cases b with
      | nil =>
          rw [Utils.strzcmp16] at h
          exact absurd (zeroBehind_nil.mpr (toNat_eq_zero.mp (by omega))) hba
      | cons v vs =>
          by_cases huv : u = v
          · subst huv
            rw [strzcmp16_cons] at h
            rw [zeroBehind_cons] at hab hba
            rw [ih hab hba h]
          · rw [strzcmp16_cons_of_ne huv] at h
            exact absurd (UInt16.toNat_inj.mp (by omega)) huv

/-- Behind an end that is taken for a zero, the comparison is not transitive; otherwise it
is. -/
theorem strzcmp16_trans {a b c : List UInt16} (hba : ¬ ZeroBehind b a) (hcb : ¬ ZeroBehind c b)
    (hab : strzcmp16 a b ≤ 0) (hbc : strzcmp16 b c ≤ 0) : strzcmp16 a c ≤ 0 := by
  induction a generalizing b c with
  | nil =>
      cases c with
      | nil => exact le_rfl
      | cons w ws =>
          rw [Utils.strzcmp16]
          omega
  | cons u us ih =>
      cases b with
      | nil =>
          rw [Utils.strzcmp16] at hab
          exact absurd (zeroBehind_nil.mpr (toNat_eq_zero.mp (by omega))) hba
      | cons v vs =>
          cases c with
          | nil =>
              rw [Utils.strzcmp16] at hbc
              exact absurd (zeroBehind_nil.mpr (toNat_eq_zero.mp (by omega))) hcb
          | cons w ws =>
              by_cases huv : u = v
              · subst huv
                rw [strzcmp16_cons] at hab
                rw [zeroBehind_cons] at hba
                by_cases huw : u = w
                · subst huw
                  rw [strzcmp16_cons] at hbc ⊢
                  rw [zeroBehind_cons] at hcb
                  exact ih hba hcb hab hbc
                · rw [strzcmp16_cons_of_ne huw] at hbc ⊢
                  exact hbc
              · rw [strzcmp16_cons_of_ne huv] at hab
                have hlt : u.toNat ≠ v.toNat := fun h => huv (UInt16.toNat_inj.mp h)
                by_cases hvw : v = w
                · subst hvw
                  rw [strzcmp16_cons_of_ne huv]
                  exact hab
                · rw [strzcmp16_cons_of_ne hvw] at hbc
                  have huw : u ≠ w := by
                    rintro rfl
                    omega
                  rw [strzcmp16_cons_of_ne huw]
                  omega

end Utils
end AndroidLinux
