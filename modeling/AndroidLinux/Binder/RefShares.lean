import AndroidLinux.Binder.RefCount
import AndroidLinux.Lib.Tally

/-!
# What the counts of an object are made of

`amount` splits the references by kind, whether they lie in a heap or an operation works
with them; an operation that is on its way counts with what it has added already.
-/

namespace AndroidLinux
namespace Binder

open Lib

/-- The kinds of references and of pending work. -/
inductive Share
  | promoted
  | plain
  | weak
  | fixUp
  | dropInitial
  | releasing
  | deleting
  | freeing
  | unneeded
  | pointer
  deriving DecidableEq

def Share.one (k k' : Share) : Nat := if k = k' then 1 else 0

/-- What a reference is in its heap. -/
def Reference.stock (k : Share) : Reference → Nat
  | .pointer => 0
  | .promoted => Share.one .promoted k
  | .strong => Share.one .plain k
  | .weak => Share.one .weak k

/-- What it is for the operation that uses it. -/
def Reference.share (k : Share) (by' : Reference) : Nat :=
  by'.stock k + (if by' = .pointer then Share.one .pointer k else 0)

/-- What an operation adds to a kind.  A strong reference is a weak one as well; `weak`
counts the others. -/
def RefOp.share (k : Share) : RefOp → Nat
  | .finished => 0
  | .incWeak by' => by'.share k
  | .incStrongWeak by' => by'.share k
  | .incStrong by' => by'.share k + Share.one .weak k
  | .dropInitial by' => by'.share k + Share.one .dropInitial k
  | .decStrong true => Share.one .promoted k + Share.one .releasing k
  | .decStrong false => Share.one .plain k
  | .lastStrongRef => Share.one .weak k + Share.one .deleting k
  | .deleteThis => Share.one .weak k + Share.one .deleting k
  | .decWeak => Share.one .weak k
  | .lastWeakRef => Share.one .freeing k
  | .attempt => Share.one .weak k
  | .readStrong => 2 * Share.one .weak k
  | .exchange _ => 2 * Share.one .weak k
  | .readFirst => 2 * Share.one .weak k
  | .exchangeFirst _ => 2 * Share.one .weak k
  | .unneededRef => Share.one .weak k + Share.one .fixUp k + Share.one .unneeded k
  | .readFixUp => Share.one .weak k + Share.one .fixUp k
  | .fixUp _ => Share.one .weak k + Share.one .fixUp k
  | .giveUp => 2 * Share.one .weak k

namespace RefSystem

/-- The heaps. -/
def stock (s : RefSystem) : Share → Nat
  | .promoted => s.promoted
  | .plain => s.strong
  | .weak => s.weak
  | _ => 0

def amount (s : RefSystem) (k : Share) : Nat :=
  s.stock k + (s.ops.map (RefOp.share k)).sum

/-- The strong references, with those that operations are taking or releasing. -/
def strongRefs (s : RefSystem) : Nat :=
  s.amount .promoted + s.amount .plain + s.amount .fixUp + s.amount .dropInitial

/-- All references. -/
def refs (s : RefSystem) : Nat := s.strongRefs + s.amount .weak

/-- An operation goes on. -/
theorem amount_setOp {s : RefSystem} {i : Nat} {old : RefOp} (hold : s.ops[i]? = some old)
    (new : RefOp) (k : Share) :
    (s.setOp i new).amount k + old.share k = s.amount k + new.share k := by
  have hsum := sum_map_set hold (RefOp.share k) new
  show s.stock k + ((s.ops.set i new).map _).sum + _ = s.stock k + (s.ops.map _).sum + _
  omega

theorem share_le_amount {s : RefSystem} {i : Nat} {op : RefOp} (hop : s.ops[i]? = some op)
    (k : Share) : op.share k ≤ s.amount k := by
  have hsum := amount_setOp hop .finished k
  have hzero : RefOp.finished.share k = 0 := rfl
  omega

theorem amount_start (s : RefSystem) (op : RefOp) (k : Share) :
    (s.start op).amount k = s.amount k + op.share k := by
  show s.stock k + ((s.ops ++ [op]).map _).sum = s.stock k + (s.ops.map _).sum + _
  rw [List.map_append, List.sum_append]
  simp only [List.map_cons, List.map_nil, List.sum_cons, List.sum_nil]
  omega

theorem amount_take {s s' : RefSystem} {by' : Reference} (h : s.take by' = some s')
    (k : Share) : s'.amount k + by'.stock k = s.amount k := by
  have hstock : s'.stock k + by'.stock k = s.stock k ∧ s'.ops = s.ops := by
    cases by' with
    | pointer =>
        obtain ⟨-, ⟨⟩⟩ := Option.ite_none_right_eq_some.mp h
        exact ⟨rfl, rfl⟩
    | promoted =>
        obtain ⟨hpos, ⟨⟩⟩ := Option.ite_none_right_eq_some.mp h
        exact ⟨by cases k <;> first | rfl | exact Nat.sub_add_cancel hpos, rfl⟩
    | strong =>
        obtain ⟨hpos, ⟨⟩⟩ := Option.ite_none_right_eq_some.mp h
        exact ⟨by cases k <;> first | rfl | exact Nat.sub_add_cancel hpos, rfl⟩
    | weak =>
        obtain ⟨hpos, ⟨⟩⟩ := Option.ite_none_right_eq_some.mp h
        exact ⟨by cases k <;> first | rfl | exact Nat.sub_add_cancel hpos, rfl⟩
  rw [amount, amount, hstock.2]
  omega

theorem amount_giveBack (s : RefSystem) (creator : Creator) (by' : Reference) (k : Share) :
    (s.giveBack creator by').amount k = s.amount k + by'.stock k := by
  have hstock : (s.giveBack creator by').stock k = s.stock k + by'.stock k := by
    cases by' with
    | pointer => rfl
    | promoted => cases k <;> rfl
    | strong => cases k <;> rfl
    | weak => cases k <;> rfl
  have hops : (s.giveBack creator by').ops = s.ops := by cases by' <;> rfl
  rw [amount, amount, hops]
  omega

end RefSystem
end Binder
end AndroidLinux
