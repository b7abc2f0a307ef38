import AndroidLinux.Binder.ParcelRead
import AndroidLinux.Utils.StringOrder

/-!
# The interface token

`enforceInterface` compares the token of a Parcel with the descriptor of an interface by
`operator==` of `String16`.  The strings on which the comparison is exact are those of which
none goes on with a zero behind another one.
-/

namespace AndroidLinux
namespace Binder

open Utils

/-- `Parcel::enforceInterface`: whether the token is accepted, and the new policy of the
thread, which is told apart from a one-way call by the flags of its last transaction. -/
def Parcel.enforceInterface (oneway : Bool) (interface : List UInt16) (p : Parcel) :
    Bool × Int32 × Parcel :=
  let strictPolicy := p.readInt32
  let policy := if oneway then 0 else strictPolicy.1
  let str := strictPolicy.2.readString16
  (String16.beq str.1 interface, policy, str.2)

/-- The string that stands behind the policy. -/
def Parcel.token (p : Parcel) : List UInt16 := p.readInt32.2.readString16.1

/-- The comparison orders the strings of a set by their contents, and a token is accepted for
itself only. -/
structure ComparedExactly (S : Set (List UInt16)) : Prop where
  antisymm : ∀ a ∈ S, ∀ b ∈ S,
    (String16.compare b a).sign = -(String16.compare a b).sign
  trans : ∀ a ∈ S, ∀ b ∈ S, ∀ c ∈ S,
    String16.le a b = true → String16.le b c = true → String16.le a c = true
  trans_lt : ∀ a ∈ S, ∀ b ∈ S, ∀ c ∈ S,
    String16.lt a b = true → String16.le b c = true → String16.lt a c = true
  beq_iff : ∀ a ∈ S, ∀ b ∈ S, String16.beq a b = true ↔ a = b
  accepted : ∀ (p : Parcel) (oneway : Bool), ∀ interface ∈ S, p.token ∈ S →
    ((p.enforceInterface oneway interface).1 = true ↔ p.token = interface)

/-- The comparison of the strings of a set is exact exactly when none of them is another one
with a zero behind it. -/
theorem comparedExactly_iff (S : Set (List UInt16)) :
    ComparedExactly S ↔ ∀ a ∈ S, ∀ b ∈ S, ¬ ZeroBehind a b := by
  constructor
  · intro h a ha b hb hzero
    have hequal : String16.beq a b = true := decide_eq_true hzero.strzcmp16
    exact hzero.ne ((h.beq_iff a ha b hb).mp hequal)
  · intro h
    have hbeq : ∀ a ∈ S, ∀ b ∈ S, String16.beq a b = true ↔ a = b := by
      intro a ha b hb
      rw [String16.beq, decide_eq_true_eq]
      constructor
      · exact eq_of_strzcmp16 (h a ha b hb) (h b hb a ha)
      · rintro rfl
        exact strzcmp16_self a
    have htrans : ∀ a ∈ S, ∀ b ∈ S, ∀ c ∈ S,
        strzcmp16 a b ≤ 0 → strzcmp16 b c ≤ 0 → strzcmp16 a c ≤ 0 := fun a ha b hb c hc =>
      strzcmp16_trans (h b hb a ha) (h c hc b hb)
    refine ⟨fun a _ b _ => ?_, fun a ha b hb c hc hab hbc => ?_,
      fun a ha b hb c hc hab hbc => ?_, hbeq, fun p oneway interface hin htoken => ?_⟩
    · exact (congrArg Int.sign (strzcmp16_swap a b)).trans (Int.sign_neg _)
    · rw [String16.le, decide_eq_true_eq] at hab hbc ⊢
      exact htrans a ha b hb c hc hab hbc
    · rw [String16.lt, decide_eq_true_eq] at hab ⊢
      rw [String16.le, decide_eq_true_eq] at hbc
      -- were `c` not behind `a`, then `b` would not be, either
      by_contra hnot
      have hca : strzcmp16 c a ≤ 0 := by
        rw [strzcmp16_swap]
        omega
      have hba := htrans b hb c hc a ha hbc hca
      rw [strzcmp16_swap] at hba
      omega
    · have hcall : (p.enforceInterface oneway interface).1 = String16.beq p.token interface := by
        unfold Parcel.enforceInterface Parcel.token
        rfl
      rw [hcall]
      exact hbeq p.token htoken interface hin

/-- The two strings of one unit, with a zero between them or not. -/
theorem not_comparedExactly_zero :
    ¬ ComparedExactly {[65], [65, 0, 66], [65, 0, 67]} := by
  rw [comparedExactly_iff]
  intro h
  exact h [65] (by simp) [65, 0, 66] (by simp) ⟨[66], rfl⟩

end Binder
end AndroidLinux
