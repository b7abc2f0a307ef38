import Mathlib.Data.List.Basic
import Mathlib.Tactic

/-!
# Framed streams

A `Framing` writes values one behind the other and recognises the first of them from the front:
a whole word is found whatever follows it, and a part of a word is not taken for one.
`Framing.head_of_stream` says what can be seen of a stream of which only the first part is
there.
-/

namespace AndroidLinux
namespace Lib

structure Framing (β α : Type*) where
  encode : α → List β
  head : List β → Option (α × List β)
  head_nil : head [] = none
  head_append : ∀ a s, head (encode a ++ s) = some (a, s)
  head_partial : ∀ a p q, encode a = p ++ q → q ≠ [] → head p = none

namespace Framing

variable {β α : Type*} (F : Framing β α)

/-- The words of a list of values, one behind the other. -/
def stream (values : List α) : List β := values.flatMap F.encode

theorem stream_cons (a : α) (values : List α) :
    F.stream (a :: values) = F.encode a ++ F.stream values := rfl

/-- The part of a stream that is there starts with a word, and then it is that of the first
value, or it ends within the first word. -/
theorem head_of_stream {there missing : List β} {values : List α}
    (h : there ++ missing = F.stream values) :
    (∃ a rest tail, values = a :: tail ∧ there = F.encode a ++ rest ∧
        rest ++ missing = F.stream tail ∧ F.head there = some (a, rest)) ∨
      (F.head there = none ∧ ((values = [] ∧ there = [] ∧ missing = []) ∨
        ∃ a tail lack, values = a :: tail ∧ F.encode a = there ++ lack ∧ lack ≠ [])) := by
  cases values with
  | nil =>
      obtain ⟨rfl, rfl⟩ := List.append_eq_nil_iff.mp h
      exact .inr ⟨F.head_nil, .inl ⟨rfl, rfl, rfl⟩⟩
  | cons a tail =>
      rw [stream_cons] at h
      rcases List.append_eq_append_iff.mp h with ⟨lack, hword, -⟩ | ⟨rest, hthere, hrest⟩
      · by_cases hlack : lack = []
        · rw [hlack, List.append_nil] at hword
          rw [← hword] at h
          refine .inl ⟨a, [], tail, rfl, by rw [hword, List.append_nil],
            List.append_cancel_left h, ?_⟩
          rw [← hword, ← List.append_nil (F.encode a), F.head_append]
        · exact .inr ⟨F.head_partial a there lack hword hlack,
            .inr ⟨a, tail, lack, rfl, hword, hlack⟩⟩
      · refine .inl ⟨a, rest, tail, rfl, hthere, hrest.symm, ?_⟩
        rw [hthere, F.head_append]

end Framing
end Lib
end AndroidLinux
