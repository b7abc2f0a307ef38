import AndroidLinux.Lib.Transition

/-!
# The handle table of `ProcessState`

A proxy is designated by its address, which can be used again once the proxy is freed.
`lookup` is the section of `mLock` that runs; the operations on reference counts in it are
steps of their own, between which other threads count.  `held` counts the references to a
proxy, strong ones and weak ones, that are held by anybody but the running section.
-/

namespace AndroidLinux
namespace Binder

open Lib

structure HandleEntry where
  binder : Option Nat
  refs : Nat
  deriving DecidableEq

/-- How far a proxy is on its way from `new` to `delete`. -/
inductive Life
  | alive
  | dying
  | expunged
  deriving DecidableEq

structure Proxy where
  mHandle : Nat
  mWeak : Nat
  life : Life
  held : Nat
  deriving DecidableEq

/-- Where a lookup is; `b` and `refs` are taken from the entry. -/
inductive Stage
  | reading (b refs : Nat)
  | trying (b refs curCount : Nat)
  | attempted (b refs : Nat)
  | taken (b refs : Nat)
  | creating
  deriving DecidableEq

structure Lookup where
  handle : Nat
  strong : Bool
  stage : Stage
  deriving DecidableEq

structure HandleSystem where
  mHandleToObject : List HandleEntry
  proxies : Nat → Option Proxy
  lookup : Option Lookup

namespace HandleSystem

def initial : HandleSystem := ⟨[], fun _ => none, none⟩

def binderAt (s : HandleSystem) (handle : Nat) : Option Nat :=
  s.mHandleToObject[handle]?.bind HandleEntry.binder

/-- `lookupHandleLocked`: the table with an entry for the handle. -/
def lookupHandleLocked (table : List HandleEntry) (handle : Nat) (granted : Bool) :
    Option (List HandleEntry) :=
  if table.length ≤ handle then
    if granted then some (table ++ List.replicate (handle + 1 - table.length) ⟨none, 0⟩)
    else none
  else some table

def setProxy (s : HandleSystem) (b : Nat) (p : Option Proxy) : HandleSystem :=
  { s with proxies := Function.update s.proxies b p }

def setStage (s : HandleSystem) (l : Lookup) (stage : Stage) : HandleSystem :=
  { s with lookup := some { l with stage := stage } }

/-- `getStrongProxyForHandle` and `getWeakProxyForHandle` up to the test of the entry. -/
def beginLookup (s : HandleSystem) (handle : Nat) (strong granted : Bool) : HandleSystem :=
  match lookupHandleLocked s.mHandleToObject handle granted with
  | none => s
  | some table =>
      let stage := match table[handle]? with
        | some ⟨some b, refs⟩ => Stage.reading b refs
        | _ => Stage.creating
      { s with mHandleToObject := table, lookup := some ⟨handle, strong, stage⟩ }

/-- `attemptIncWeak` reads the count. -/
def readCount (s : HandleSystem) (l : Lookup) (b refs : Nat) : Option HandleSystem :=
  (s.proxies refs).map fun p =>
    if 0 < p.mWeak then s.setStage l (.trying b refs p.mWeak) else s.setStage l .creating

/-- The compare-and-exchange of `attemptIncWeak`. -/
def cmpxchg (s : HandleSystem) (l : Lookup) (b refs curCount : Nat) : Option HandleSystem :=
  (s.proxies refs).map fun p =>
    if p.mWeak = curCount then
      (s.setProxy refs (some { p with mWeak := p.mWeak + 1 })).setStage l (.attempted b refs)
    else s.setStage l (.reading b refs)

/-- The result takes its reference: `force_set`, or the assignment to a weak pointer. -/
def takeResult (s : HandleSystem) (l : Lookup) (b refs : Nat) : Option HandleSystem :=
  (s.proxies b).map fun p =>
    (s.setProxy b (some { p with mWeak := p.mWeak + 1 })).setStage l (.taken b refs)

/-- `decWeak` for the reference of the attempt, and the return. -/
def returnResult (s : HandleSystem) (refs : Nat) : Option HandleSystem :=
  (s.proxies refs).map fun p =>
    { s.setProxy refs (some { p with mWeak := p.mWeak - 1, held := p.held + 1 }) with
      lookup := none }

/-- The answers for a new proxy: the ping of the context manager, and the address if the
allocation is granted. -/
structure Creation where
  dead : Bool
  address : Option Nat
  deriving DecidableEq

/-- What the creating branch returns. -/
def created (l : Lookup) (c : Creation) : Option Nat :=
  if l.strong ∧ l.handle = 0 ∧ c.dead then none else c.address

/-- A new proxy in the entry, and the return. -/
def create (s : HandleSystem) (l : Lookup) (c : Creation) : Option HandleSystem :=
  if l.strong ∧ l.handle = 0 ∧ c.dead then some { s with lookup := none }
  else
    match c.address with
    | none =>
        let table := s.mHandleToObject.modify l.handle fun e => { e with binder := none }
        some { s with mHandleToObject := table, lookup := none }
    | some b =>
        if s.proxies b = none then
          let s := s.setProxy b (some ⟨l.handle, 1, .alive, 1⟩)
          let table := s.mHandleToObject.set l.handle ⟨some b, b⟩
          some { s with mHandleToObject := table, lookup := none }
        else none

/-- One step of the section that runs. -/
def stepLookup (s : HandleSystem) (l : Lookup) (c : Creation) : Option HandleSystem :=
  match l.stage with
  | .reading b refs => s.readCount l b refs
  | .trying b refs curCount => s.cmpxchg l b refs curCount
  | .attempted b refs => s.takeResult l b refs
  | .taken _ refs => s.returnResult refs
  | .creating => s.create l c

/-- `expungeHandle`. -/
def expungeHandle (s : HandleSystem) (handle binder : Nat) : HandleSystem :=
  { s with
    mHandleToObject := s.mHandleToObject.modify handle fun e =>
      if e.binder = some binder then { e with binder := none } else e }

inductive Action
  | getProxyForHandle (handle : Nat) (strong granted : Bool)
  | section (c : Creation)
  | incWeak (b : Nat)
  | decWeak (b : Nat)
  | expungeHandle (b : Nat)
  | free (b : Nat)

/-- References are taken and released by those who hold one.  The thread that releases the
last one runs the destructor: `expungeHandle` when the lock is free, then the memory goes. -/
def step (s : HandleSystem) : Action → Option HandleSystem
  | .getProxyForHandle handle strong granted =>
      if s.lookup = none then some (s.beginLookup handle strong granted) else none
  | .section c => s.lookup.bind (s.stepLookup · c)
  | .incWeak b =>
      (s.proxies b).bind fun p =>
        if 0 < p.held then
          some (s.setProxy b (some { p with mWeak := p.mWeak + 1, held := p.held + 1 }))
        else none
  | .decWeak b =>
      (s.proxies b).bind fun p =>
        if 0 < p.held then
          some (s.setProxy b (some { p with
            mWeak := p.mWeak - 1
            held := p.held - 1
            life := if p.mWeak = 1 then .dying else p.life }))
        else none
  | .expungeHandle b =>
      (s.proxies b).bind fun p =>
        if p.life = .dying ∧ s.lookup = none then
          some ((s.expungeHandle p.mHandle b).setProxy b (some { p with life := .expunged }))
        else none
  | .free b =>
      (s.proxies b).bind fun p =>
        if p.life = .expunged then some (s.setProxy b none) else none

/-- The handle and the answer of a lookup that returns in this step. -/
def returns (s : HandleSystem) : Action → Option (Nat × Option Nat)
  | .getProxyForHandle handle _ granted =>
      if s.lookup = none ∧ lookupHandleLocked s.mHandleToObject handle granted = none then
        some (handle, none)
      else none
  | .section c =>
      s.lookup.bind fun l =>
        match l.stage with
        | .taken b _ => some (l.handle, some b)
        | .creating => some (l.handle, created l c)
        | _ => none
  | _ => none

def machine : Machine HandleSystem Action where
  init s := s = initial
  step := step

end HandleSystem
end Binder
end AndroidLinux
