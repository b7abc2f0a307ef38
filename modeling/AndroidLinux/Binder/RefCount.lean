import AndroidLinux.Lib.Transition

/-!
# `RefBase` with `OBJECT_LIFETIME_STRONG`

One object with its `weakref_impl`.  Operations run in steps of one atomic operation each;
`ops` has the place of every operation that was started.  The references that no operation
works with are in three heaps: strong ones from `attemptIncStrong` (`promoted`), other
strong ones and weak ones.  An operation takes the reference that it needs and gives it
back when it returns.  The creator has a plain pointer until its first `incStrong`, which
is good as long as the last weak reference has not been released (`givenUp`).
-/

namespace AndroidLinux
namespace Binder

open Lib

/-- `INITIAL_STRONG_VALUE`. -/
def initialStrongValue : Int32 := 268435456

/-- What an operation uses to get at the object. -/
inductive Reference
  | pointer
  | promoted
  | strong
  | weak
  deriving DecidableEq

/-- The next atomic operation of an operation. -/
inductive RefOp
  | finished
  | incWeak (by' : Reference)
  | incStrongWeak (by' : Reference)
  | incStrong (by' : Reference)
  | dropInitial (by' : Reference)
  | decStrong (promoted : Bool)
  | lastStrongRef
  | deleteThis
  | decWeak
  | lastWeakRef
  | attempt
  | readStrong
  | exchange (curCount : Int32)
  | readFirst
  | exchangeFirst (curCount : Int32)
  | unneededRef
  | readFixUp
  | fixUp (curCount : Int32)
  | giveUp
  deriving DecidableEq

/-- What the creator does with its pointer. -/
inductive Creator
  | ready
  | busy
  | done
  deriving DecidableEq

structure RefSystem where
  mStrong : Int32
  mWeak : Int32
  deleted : Nat
  freed : Nat
  ops : List RefOp
  creator : Creator
  promoted : Nat
  strong : Nat
  weak : Nat
  ever : Bool
  givenUp : Bool
  deriving DecidableEq

namespace RefSystem

/-- The new object. -/
def initial : RefSystem where
  mStrong := initialStrongValue
  mWeak := 0
  deleted := 0
  freed := 0
  ops := []
  creator := .ready
  promoted := 0
  strong := 0
  weak := 0
  ever := false
  givenUp := false

def setOp (s : RefSystem) (i : Nat) (op : RefOp) : RefSystem :=
  { s with ops := s.ops.set i op }

/-- An operation takes the reference that it uses. -/
def take (s : RefSystem) : Reference → Option RefSystem
  | .pointer => if s.creator = .ready then some { s with creator := .busy } else none
  | .promoted => if 0 < s.promoted then some { s with promoted := s.promoted - 1 } else none
  | .strong => if 0 < s.strong then some { s with strong := s.strong - 1 } else none
  | .weak => if 0 < s.weak then some { s with weak := s.weak - 1 } else none

/-- It gives the reference back. -/
def giveBack (s : RefSystem) (creator : Creator) : Reference → RefSystem
  | .pointer => { s with creator := creator }
  | .promoted => { s with promoted := s.promoted + 1 }
  | .strong => { s with strong := s.strong + 1 }
  | .weak => { s with weak := s.weak + 1 }

/-- The pointer of the creator is no longer good. -/
def dangling (s : RefSystem) (by' : Reference) : Prop :=
  by' = .pointer ∧ s.givenUp = true

instance (s : RefSystem) (by' : Reference) : Decidable (s.dangling by') :=
  inferInstanceAs (Decidable (_ ∧ _))

def atomicIncWeak (s : RefSystem) : RefSystem := { s with mWeak := s.mWeak + 1 }

def atomicIncStrong (s : RefSystem) : RefSystem :=
  { s with mStrong := s.mStrong + 1, ever := true }

/-- `incStrong` returns. -/
def endIncStrong (s : RefSystem) (i : Nat) (by' : Reference) : RefSystem :=
  let s := s.giveBack .done by'
  { s with strong := s.strong + 1 }.setOp i .finished

/-- The decrement of `decWeak`; `weak` is what the operation gives back. -/
def atomicDecWeak (s : RefSystem) (i : Nat) (weak : Nat) : RefSystem :=
  if s.mWeak = 1 then { s with mWeak := s.mWeak - 1, givenUp := true }.setOp i .lastWeakRef
  else { s with mWeak := s.mWeak - 1, weak := s.weak + weak }.setOp i .finished

/-- `~RefBase`: the counts go with the object if there never was a strong reference. -/
def deleteObject (s : RefSystem) : RefSystem :=
  let freed := if s.mStrong = initialStrongValue then s.freed + 1 else s.freed
  { s with deleted := s.deleted + 1, freed := freed }

/-- The test of the first loop of `attemptIncStrong` and what follows it. -/
def afterRead (curCount : Int32) : RefOp :=
  if 0 < curCount ∧ curCount ≠ initialStrongValue then .exchange curCount
  else if curCount ≤ 0 then .giveUp
  else .exchangeFirst curCount

/-- `attemptIncStrong` returns true. -/
def endAttempt (s : RefSystem) (i : Nat) : RefSystem :=
  { s with promoted := s.promoted + 1, weak := s.weak + 1 }.setOp i .finished

/-- One atomic operation of the operation in place `i`. -/
def stepOp (s : RefSystem) (i : Nat) : RefOp → Option RefSystem
  | .finished => none
  | .incWeak by' =>
      let s := s.atomicIncWeak.giveBack .ready by'
      some ({ s with weak := s.weak + 1 }.setOp i .finished)
  | .incStrongWeak by' => some (s.atomicIncWeak.setOp i (.incStrong by'))
  | .incStrong by' =>
      if s.mStrong = initialStrongValue then some (s.atomicIncStrong.setOp i (.dropInitial by'))
      else some (s.atomicIncStrong.endIncStrong i by')
  | .dropInitial by' =>
      some ({ s with mStrong := s.mStrong - initialStrongValue }.endIncStrong i by')
  | .decStrong _ =>
      let next := if s.mStrong = 1 then RefOp.lastStrongRef else .decWeak
      some ({ s with mStrong := s.mStrong - 1 }.setOp i next)
  | .lastStrongRef => some (s.setOp i .deleteThis)
  | .deleteThis => some (s.deleteObject.setOp i .decWeak)
  | .decWeak => some (s.atomicDecWeak i 0)
  | .lastWeakRef =>
      let s := if s.mStrong = initialStrongValue then s.deleteObject
        else { s with freed := s.freed + 1 }
      some (s.setOp i .finished)
  | .attempt => some (s.atomicIncWeak.setOp i .readStrong)
  | .readStrong => some (s.setOp i (afterRead s.mStrong))
  | .exchange curCount =>
      if s.mStrong = curCount then some (s.atomicIncStrong.setOp i .readFixUp)
      else some (s.setOp i .readStrong)
  | .exchangeFirst curCount =>
      if s.mStrong = curCount then
        let next := if curCount < initialStrongValue then RefOp.unneededRef else .readFixUp
        some (s.atomicIncStrong.setOp i next)
      else some (s.setOp i .readFirst)
  | .readFirst =>
      some (s.setOp i (if 0 < s.mStrong then .exchangeFirst s.mStrong else .giveUp))
  | .unneededRef => some (s.setOp i .readFixUp)
  | .readFixUp =>
      if initialStrongValue ≤ s.mStrong then some (s.setOp i (.fixUp s.mStrong))
      else some (s.endAttempt i)
  | .fixUp curCount =>
      if s.mStrong = curCount then
        some ({ s with mStrong := s.mStrong - initialStrongValue }.endAttempt i)
      else some (s.setOp i .readFixUp)
  | .giveUp => some (s.atomicDecWeak i 1)

inductive Action
  | incWeak (by' : Reference)
  | incStrong (by' : Reference)
  | decStrong (promoted : Bool)
  | decWeak
  | attemptIncStrong
  | leave
  | proceed (i : Nat)

def start (s : RefSystem) (op : RefOp) : RefSystem :=
  { s with ops := s.ops ++ [op] }

/-- A strong reference from `attemptIncStrong` is not released before the creator is done:
it has made its first `incStrong`, or will never use its pointer again (`leave`). -/
def step (s : RefSystem) : Action → Option RefSystem
  | .incWeak by' => (s.take by').map (·.start (.incWeak by'))
  | .incStrong by' =>
      if by' = .weak then none else (s.take by').map (·.start (.incStrongWeak by'))
  | .decStrong promoted =>
      if promoted = true ∧ s.creator ≠ .done then none
      else
        (s.take (if promoted then .promoted else .strong)).map (·.start (.decStrong promoted))
  | .decWeak => (s.take .weak).map (·.start .decWeak)
  | .attemptIncStrong => (s.take .weak).map (·.start .attempt)
  | .leave => if s.creator = .ready then some { s with creator := .done } else none
  | .proceed i => (s.ops[i]?).bind (s.stepOp i)

/-- The answer of `attemptIncStrong` if it returns in this step. -/
def attemptReturns (s : RefSystem) (i : Nat) : Option Bool :=
  match s.ops[i]? with
  | some .readFixUp => if initialStrongValue ≤ s.mStrong then none else some true
  | some (.fixUp curCount) => if s.mStrong = curCount then some true else none
  | some .giveUp => some false
  | _ => none

def machine : Machine RefSystem Action where
  init s := s = initial
  step := step

end RefSystem
end Binder
end AndroidLinux
