import AndroidLinux.Binder.Parcel
import AndroidLinux.Lib.Transition

/-!
# Death notifications of one `BpBinder`

The sections of `mLock` are single steps, and so is the test of `mObitsSent` before the
section of `sendObituary`.  Allocations get their answers from the schedule.

`registration` numbers the calls of `linkToDeath`; the code compares it with nothing.  `held`
counts the references to the proxy that are held by anybody but the driver, and `linked`,
`removed` and `reported` are history.
-/

namespace AndroidLinux
namespace Binder

open Lib

def deadObject : Status := -32
def nameNotFound : Status := -2

/-- `recipient` is a weak pointer that is never NULL. -/
structure Obituary where
  registration : Nat
  recipient : Nat
  cookie : Nat
  flags : UInt32
  deriving DecidableEq

/-- `Vector<Obituary>`. -/
structure Obituaries where
  items : List Obituary
  capacity : Nat
  deriving DecidableEq

namespace Obituaries

def kMinVectorCapacity : Nat := 4

def empty : Obituaries := ⟨[], 0⟩

/-- `VectorImpl::add` over `_grow`. -/
def add (v : Obituaries) (ob : Obituary) (granted : Bool) : Option Obituaries :=
  let newSize := v.items.length + 1
  if v.capacity < newSize then
    if granted then some ⟨v.items ++ [ob], max kMinVectorCapacity ((newSize * 3 + 1) / 2)⟩
    else none
  else some { v with items := v.items ++ [ob] }

/-- `_shrink` moves the items to a smaller buffer. -/
def shrinks (v : Obituaries) : Prop :=
  (v.items.length - 1) * 3 < v.capacity

instance (v : Obituaries) : Decidable v.shrinks := inferInstanceAs (Decidable (_ < _))

/-- `VectorImpl::removeItemsAt` over `_shrink`, which gives up when there is no smaller
buffer to be had. -/
def removeAt (v : Obituaries) (i : Nat) (granted : Bool) : Obituaries :=
  if v.shrinks then
    if granted then
      ⟨v.items.eraseIdx i, max kMinVectorCapacity ((v.items.length - 1) * 2)⟩
    else v
  else { v with items := v.items.eraseIdx i }

end Obituaries

/-- The commands about death notifications of this proxy. -/
inductive DeathCommand
  | requestDeathNotification (handle : Int32)
  | clearDeathNotification (handle : Int32)
  deriving DecidableEq

structure BpBinder where
  mHandle : Int32
  mAlive : Bool
  mObitsSent : Bool
  mObituaries : Option Obituaries
  deriving DecidableEq

/-- Where a call of `sendObituary` is. -/
inductive ObituaryCall
  | notCalled
  | testing
  | locking
  | reporting (obits : List Obituary)
  | returned
  deriving DecidableEq

structure DeathSystem where
  proxy : BpBinder
  mWeak : Nat
  destroyed : Bool
  calls : Nat → ObituaryCall
  commands : List DeathCommand
  acknowledged : Nat
  held : Nat
  registrations : Nat
  linked : List Nat
  removed : List Nat
  reported : List Nat

namespace DeathSystem

/-- The proxy with one reference. -/
def initial (handle : Int32) : DeathSystem where
  proxy := ⟨handle, true, false, none⟩
  mWeak := 1
  destroyed := false
  calls _ := .notCalled
  commands := []
  acknowledged := 0
  held := 1
  registrations := 0
  linked := []
  removed := []
  reported := []

def requestDeathNotification (s : DeathSystem) : DeathSystem :=
  { s with commands := s.commands ++ [.requestDeathNotification s.proxy.mHandle] }

def clearDeathNotification (s : DeathSystem) : DeathSystem :=
  { s with commands := s.commands ++ [.clearDeathNotification s.proxy.mHandle] }

def setObituaries (s : DeathSystem) (v : Option Obituaries) : DeathSystem :=
  { s with proxy := { s.proxy with mObituaries := v } }

/-- The last part of `linkToDeath`. -/
def addObituary (s : DeathSystem) (v : Obituaries) (ob : Obituary) (granted : Bool) :
    Status × DeathSystem :=
  match v.add ob granted with
  | some w =>
      (noError, { s.setObituaries (some w) with linked := s.linked ++ [ob.registration] })
  | none => (noMemory, s)

/-- `linkToDeath`; the answers are those for the vector and for its items. -/
def linkToDeath (s : DeathSystem) (recipient cookie : Nat) (flags : UInt32)
    (vector items : Bool) : Status × DeathSystem :=
  let ob : Obituary := ⟨s.registrations, recipient, cookie, flags⟩
  if s.proxy.mObitsSent then (deadObject, s)
  else
    match s.proxy.mObituaries with
    | some v => s.addObituary v ob items
    | none =>
        if vector then
          let s := s.setObituaries (some .empty)
          let s := { s with mWeak := s.mWeak + 1 }
          s.requestDeathNotification.addObituary .empty ob items
        else (noMemory, s)

/-- The test in the loop of `unlinkToDeath`. -/
def designates (recipient : Option Nat) (cookie : Nat) (flags : UInt32) (obit : Obituary) :
    Bool :=
  (some obit.recipient = recipient ∨ recipient = none ∧ obit.cookie = cookie) ∧
    obit.flags = flags

/-- The vector with the obituary that `unlinkToDeath` is asked to remove. -/
def found (s : DeathSystem) (recipient : Option Nat) (cookie : Nat) (flags : UInt32) :
    Option (Obituaries × Nat) :=
  s.proxy.mObituaries.bind fun v =>
    (v.items.findIdx? (designates recipient cookie flags)).map (v, ·)

/-- `unlinkToDeath`, with the answer for a smaller buffer. -/
def unlinkToDeath (s : DeathSystem) (recipient : Option Nat) (cookie : Nat) (flags : UInt32)
    (granted : Bool) : Status × DeathSystem :=
  if s.proxy.mObitsSent then (deadObject, s)
  else
    match s.found recipient cookie flags with
    | none => (nameNotFound, s)
    | some (v, i) =>
        let gone := (v.items[i]?).toList.map Obituary.registration
        let w := v.removeAt i granted
        let s := { s.setObituaries (some w) with removed := s.removed ++ gone }
        if w.items = [] then (noError, s.clearDeathNotification.setObituaries none)
        else (noError, s)

def setCall (s : DeathSystem) (c : Nat) (pc : ObituaryCall) : DeathSystem :=
  { s with calls := Function.update s.calls c pc }

/-- The section of `mLock` in `sendObituary`. -/
def sendSection (s : DeathSystem) (c : Nat) : DeathSystem :=
  let obits := s.proxy.mObituaries
  let s := if obits = none then s else s.clearDeathNotification.setObituaries none
  let s := { s with proxy := { s.proxy with mObitsSent := true } }
  match obits with
  | some v => s.setCall c (.reporting v.items)
  | none => s.setCall c .returned

/-- One step of a call of `sendObituary`. -/
def stepCall (s : DeathSystem) (c : Nat) : Option DeathSystem :=
  match s.calls c with
  | .notCalled =>
      some ({ s with proxy := { s.proxy with mAlive := false } }.setCall c .testing)
  | .testing => some (s.setCall c (if s.proxy.mObitsSent then .returned else .locking))
  | .locking => some (s.sendSection c)
  | .reporting [] => some (s.setCall c .returned)
  | .reporting (obit :: rest) =>
      some ({ s with reported := s.reported ++ [obit.registration] }.setCall c
        (.reporting rest))
  | .returned => none

/-- `~BpBinder`; `ipc` is whether the thread still has its state. -/
def destroy (s : DeathSystem) (ipc : Bool) : DeathSystem :=
  let s :=
    if s.proxy.mObituaries = none ∨ ¬ ipc then s else s.clearDeathNotification
  { s.setObituaries none with destroyed := true }

inductive Action
  | incRef
  | decRef
  | destroy (ipc : Bool)
  | linkToDeath (recipient cookie : Nat) (flags : UInt32) (vector items : Bool)
  | unlinkToDeath (recipient : Option Nat) (cookie : Nat) (flags : UInt32) (granted : Bool)
  | sendObituary (c : Nat)
  | clearDeathNotificationDone

def isClear : DeathCommand → Bool
  | .requestDeathNotification _ => false
  | .clearDeathNotification _ => true

/-- The number of commands that clear a notification. -/
def cleared (s : DeathSystem) : Nat := s.commands.countP isClear

/-- The number of commands that request one. -/
def requested (s : DeathSystem) : Nat := s.commands.countP fun c => !isClear c

/-- References are taken and methods called by those who hold a reference.  The driver
acknowledges every clear once. -/
def step (s : DeathSystem) : Action → Option DeathSystem
  | .incRef => if 0 < s.held then some { s with mWeak := s.mWeak + 1, held := s.held + 1 } else none
  | .decRef => if 0 < s.held then some { s with mWeak := s.mWeak - 1, held := s.held - 1 } else none
  | .destroy ipc => if s.mWeak = 0 ∧ s.destroyed = false then some (s.destroy ipc) else none
  | .linkToDeath recipient cookie flags vector items =>
      if 0 < s.held then
        some { (s.linkToDeath recipient cookie flags vector items).2 with
          registrations := s.registrations + 1 }
      else none
  | .unlinkToDeath recipient cookie flags granted =>
      if 0 < s.held then some (s.unlinkToDeath recipient cookie flags granted).2 else none
  | .sendObituary c => s.stepCall c
  | .clearDeathNotificationDone =>
      if s.acknowledged < s.cleared then
        some { s with acknowledged := s.acknowledged + 1, mWeak := s.mWeak - 1 }
      else none

def machine : Machine DeathSystem Action where
  init s := ∃ handle, s = initial handle
  step := step

end DeathSystem
end Binder
end AndroidLinux
