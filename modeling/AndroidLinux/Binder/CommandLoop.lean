import AndroidLinux.Lib.Transition

/-!
# One thread and the binder driver

The commands of the driver, and an `IPCThreadState` with its calls: `waitForResponse`,
`executeCommand` and `processPendingDerefs`, and the code that they call, which may make
transactions.  `nested` has the calls that are in progress, the innermost first; `base` is
what the thread does below them.  `mIn` and `mOut` are what has not been read and what the
driver has not consumed.
-/

namespace AndroidLinux
namespace Binder

open Lib

/-- `binder_driver_return_protocol`. -/
inductive Br
  | error
  | ok
  | transaction
  | reply
  | acquireResult
  | deadReply
  | transactionComplete
  | increfs
  | acquire
  | release
  | decrefs
  | attemptAcquire
  | noop
  | spawnLooper
  | finished
  | deadBinder
  | clearDeathNotificationDone
  | failedReply
  deriving DecidableEq

namespace Br

/-- The size of the argument in words. -/
def words : Br → Nat
  | .error => 1
  | .transaction => 10
  | .reply => 10
  | .acquireResult => 1
  | .increfs => 2
  | .acquire => 2
  | .release => 2
  | .decrefs => 2
  | .attemptAcquire => 3
  | .deadBinder => 1
  | .clearDeathNotificationDone => 1
  | _ => 0

def all : List Br :=
  [.error, .ok, .transaction, .reply, .acquireResult, .deadReply, .transactionComplete,
    .increfs, .acquire, .release, .decrefs, .attemptAcquire, .noop, .spawnLooper, .finished,
    .deadBinder, .clearDeathNotificationDone, .failedReply]

/-- `_IO` or `_IOR` of the command. -/
def code (c : Br) : UInt32 :=
  UInt32.ofNat ((if c.words = 0 then 0 else 2 ^ 31) + c.words * 4 * 2 ^ 16 + 0x7200 +
    all.idxOf c)

def ofCode (w : UInt32) : Option Br := all.find? fun c => c.code = w

end Br

/-- A whole command of the driver. -/
structure Return where
  cmd : Br
  args : List UInt32
  fits : args.length = cmd.words

def Return.toWords (r : Return) : List UInt32 := r.cmd.code :: r.args

/-- The commands that are written to `mOut`.  A reply names the transaction it answers. -/
inductive Bc
  | transaction
  | reply (n : Nat)
  | freeBuffer (data : UInt32)
  | acquireDone (refs obj : UInt32)
  | increfsDone (refs obj : UInt32)
  | acquireResult
  | deadBinderDone (proxy : UInt32)
  | other
  deriving DecidableEq

/-- The fields that a transaction sets for its handler. -/
structure Caller where
  mCallingPid : UInt32
  mCallingUid : UInt32
  mStrictModePolicy : UInt32
  mLastTransactionBinderFlags : UInt32
  deriving DecidableEq

/-- A transaction that is being executed: its number, its flags and its buffer, the locals
`orig…`, and the fields as they were when `executeCommand` started. -/
structure Handling where
  n : Nat
  oneWay : Bool
  buffer : UInt32
  orig : Caller
  started : Caller
  deriving DecidableEq

/-- A call in progress. -/
inductive Frame
  /-- `waitForResponse`, with or without a `reply`. -/
  | waiting (reply : Bool)
  /-- Code that `executeCommand` or `processPendingDerefs` has called, and what is written
  to `mOut` when it returns. -/
  | code (after : List Bc)
  /-- The handler of a transaction. -/
  | handler (h : Handling)
  /-- `executeCommand` behind `sendReply`. -/
  | replied (h : Handling)
  deriving DecidableEq

/-- What the thread does below the calls: it is between two calls of `joinThreadPool` or
`handlePolledCommands`, or in one of the loops of `processPendingDerefs`. -/
inductive Base
  | pool
  | weakDerefs (i numPending : Nat)
  | strongDerefs (i numPending : Nat)
  deriving DecidableEq

/-- A `BR_DECREFS` or a `BR_RELEASE`. -/
inductive Deref
  | weak (refs : UInt32)
  | strong (obj : UInt32)
  deriving DecidableEq

/-- `interpreted` has the words of each command that was read, `derefs` what has been asked
for and `performed` what was done of it. -/
structure IPCThread where
  mIn : List UInt32
  mOut : List Bc
  mPendingWeakDerefs : List UInt32
  mPendingStrongDerefs : List UInt32
  caller : Caller
  base : Base
  nested : List Frame
  received : List Return
  interpreted : List (List UInt32)
  written : List Bc
  consumed : List Bc
  transactions : List Bool
  derefs : List Deref
  performed : List Deref

namespace IPCThread

/-! ## Streams -/

def readInt32 (s : IPCThread) : UInt32 × IPCThread :=
  (s.mIn.headD 0, { s with mIn := s.mIn.tail })

def write (s : IPCThread) (cmds : List Bc) : IPCThread :=
  { s with mOut := s.mOut ++ cmds, written := s.written ++ cmds }

def push (s : IPCThread) (f : Frame) : IPCThread := { s with nested := f :: s.nested }

def pop (s : IPCThread) : IPCThread := { s with nested := s.nested.tail }

/-- The driver takes all of `mOut`. -/
def consume (s : IPCThread) : IPCThread :=
  { s with mOut := [], consumed := s.consumed ++ s.mOut }

/-! ## executeCommand -/

def acquireCommand (s : IPCThread) (after : UInt32 → UInt32 → List Bc) : IPCThread :=
  let refs := s.readInt32
  let obj := refs.2.readInt32
  obj.2.push (.code (after refs.1 obj.1))

def proxyCommand (s : IPCThread) (after : UInt32 → List Bc) : IPCThread :=
  let proxy := s.readInt32
  proxy.2.push (.code (after proxy.1))

def releaseCommand (s : IPCThread) : IPCThread :=
  let refs := s.readInt32
  let obj := refs.2.readInt32
  { obj.2 with
    mPendingStrongDerefs := obj.2.mPendingStrongDerefs ++ [obj.1]
    derefs := obj.2.derefs ++ [.strong obj.1] }

def decrefsCommand (s : IPCThread) : IPCThread :=
  let refs := s.readInt32
  let obj := refs.2.readInt32
  { obj.2 with
    mPendingWeakDerefs := obj.2.mPendingWeakDerefs ++ [refs.1]
    derefs := obj.2.derefs ++ [.weak refs.1] }

/-- `BR_TRANSACTION` up to the call of the handler; `tr` are the words of the
`binder_transaction_data`. -/
def transactionCommand (s : IPCThread) (tr : List UInt32) : IPCThread :=
  let oneWay := decide (tr.getD 3 0 &&& 1 = 1)
  let h : Handling := ⟨s.transactions.length, oneWay, tr.getD 8 0, s.caller, s.caller⟩
  { s with
    mIn := s.mIn.drop 10
    transactions := s.transactions ++ [oneWay]
    caller := { s.caller with
      mCallingPid := tr.getD 4 0
      mCallingUid := tr.getD 5 0
      mLastTransactionBinderFlags := tr.getD 3 0 } }.push (.handler h)

/-- `executeCommand`, with whether its result is an error. -/
def executeCommand (s : IPCThread) : Option Br → Bool × IPCThread
  | some .error => (s.readInt32.1 ≠ 0, s.readInt32.2)
  | some .ok => (false, s)
  | some .acquire => (false, s.acquireCommand fun refs obj => [.acquireDone refs obj])
  | some .release => (false, s.releaseCommand)
  | some .increfs => (false, s.acquireCommand fun refs obj => [.increfsDone refs obj])
  | some .decrefs => (false, s.decrefsCommand)
  | some .attemptAcquire => (false, s.acquireCommand fun _ _ => [.acquireResult])
  | some .transaction =>
      if s.mIn.length < 10 then (true, s) else (false, s.transactionCommand (s.mIn.take 10))
  | some .deadBinder => (false, s.proxyCommand fun proxy => [.deadBinderDone proxy])
  | some .clearDeathNotificationDone => (false, s.proxyCommand fun _ => [])
  | some .finished => (true, s)
  | some .noop => (false, s)
  | some .spawnLooper => (false, s)
  | _ => (true, s)

/-- The switch of `waitForResponse`, with whether it goes to `finish`. -/
def response (s : IPCThread) (reply : Bool) : Option Br → Bool × IPCThread
  | some .transactionComplete => (!reply, s)
  | some .deadReply => (true, s)
  | some .failedReply => (true, s)
  | some .acquireResult => (false, s.readInt32.2)
  | some .reply =>
      if s.mIn.length < 10 then (true, s)
      else
        let tr := s.mIn.take 10
        let t := { s with mIn := s.mIn.drop 10 }
        let freed := t.write [.freeBuffer (tr.getD 8 0)]
        if reply then (true, if tr.getD 3 0 &&& 8 = 0 then t else freed) else (false, freed)
  | cmd => s.executeCommand cmd

/-- The words that were read become a command. -/
def note (s s' : IPCThread) : IPCThread :=
  { s' with interpreted := s'.interpreted ++ [s.mIn.take (s.mIn.length - s'.mIn.length)] }

/-- A command is read by `getAndExecuteCommand`. -/
def readCommand (s : IPCThread) : IPCThread :=
  s.note (s.readInt32.2.executeCommand (Br.ofCode s.readInt32.1)).2

/-- A command is read by the innermost call, which is a `waitForResponse`. -/
def readResponse (s : IPCThread) (reply : Bool) : IPCThread :=
  let r := s.readInt32.2.response reply (Br.ofCode s.readInt32.1)
  s.note (if r.1 then r.2.pop else r.2)

/-! ## Steps -/

inductive Action
  /-- `talkWithDriver` with an empty `mIn`: what the driver returns, or it fails. -/
  | talk (answer : Option (List Return))
  /-- `flushCommands`. -/
  | flush
  | read
  | processPendingDerefs
  /-- The loop of `processPendingDerefs` goes on. -/
  | deref
  /-- Code of the application runs that no command has asked for. -/
  | call
  /-- The innermost call makes a transaction. -/
  | transact (oneWay : Bool)
  /-- It changes the fields of the caller: `clearCallingIdentity`, `restoreCallingIdentity`,
  `setStrictModePolicy` and the like. -/
  | setCaller (caller : Caller)
  /-- It writes another command. -/
  | writeOther
  | ret

/-- The answer of the driver in `talkWithDriver`. -/
def talked (s : IPCThread) (cmds : List Return) : IPCThread :=
  { s.consume with
    mIn := cmds.flatMap Return.toWords
    received := s.received ++ cmds }

/-- The end of `executeCommand` for a transaction; `buffer` is freed. -/
def restore (s : IPCThread) (h : Handling) : IPCThread :=
  { s with caller := h.orig }.write [.freeBuffer h.buffer]

/-- The innermost code returns. -/
def returned (s : IPCThread) : Frame → Option IPCThread
  | .code after => some (s.pop.write after)
  | .handler h =>
      if h.oneWay then some (s.pop.restore h)
      else some (((s.pop.write [.reply h.n]).push (.replied h)).push (.waiting false))
  | .replied h => some (s.pop.restore h)
  | .waiting _ => none

/-- One round of the loops of `processPendingDerefs`. -/
def derefStep (s : IPCThread) : Option IPCThread :=
  match s.base with
  | .pool => none
  | .weakDerefs i numPending =>
      if i < numPending then
        some ({ s with
          base := .weakDerefs (i + 1) numPending
          performed := s.performed ++ [Deref.weak (s.mPendingWeakDerefs.getD i 0)] }.push
            (.code []))
      else
        some { s with
          base := .strongDerefs 0 s.mPendingStrongDerefs.length
          mPendingWeakDerefs := [] }
  | .strongDerefs i numPending =>
      if i < numPending then
        some ({ s with
          base := .strongDerefs (i + 1) numPending
          performed := s.performed ++ [Deref.strong (s.mPendingStrongDerefs.getD i 0)] }.push
            (.code []))
      else
        some { s with base := .pool, mPendingStrongDerefs := [] }

/-- Whether the innermost call is code outside of `IPCThreadState`. -/
def inCode (s : IPCThread) : Bool :=
  match s.nested with
  | .code _ :: _ => true
  | .handler _ :: _ => true
  | _ => false

def step (s : IPCThread) : Action → Option IPCThread
  | .talk answer =>
      if s.mIn = [] then
        match s.nested, answer with
        | .waiting _ :: _, some cmds => some (s.talked cmds)
        | .waiting _ :: _, none => some s.pop
        | [], some cmds => if s.base = .pool then some (s.talked cmds) else none
        | [], none => if s.base = .pool then some s else none
        | _, _ => none
      else none
  | .flush => if s.inCode ∨ s.nested = [] ∧ s.base = .pool then some s.consume else none
  | .read =>
      if s.mIn ≠ [] then
        match s.nested with
        | .waiting reply :: _ => some (s.readResponse reply)
        | [] => if s.base = .pool then some s.readCommand else none
        | _ => none
      else none
  | .processPendingDerefs =>
      if s.nested = [] ∧ s.base = .pool ∧ s.mIn = [] then
        some { s with base := .weakDerefs 0 s.mPendingWeakDerefs.length }
      else none
  | .deref => if s.nested = [] then s.derefStep else none
  | .call => if s.nested = [] ∧ s.base = .pool then some (s.push (.code [])) else none
  | .transact oneWay =>
      if s.inCode then some ((s.write [.transaction]).push (.waiting (!oneWay))) else none
  | .setCaller caller => if s.inCode then some { s with caller := caller } else none
  | .writeOther => if s.inCode then some (s.write [.other]) else none
  | .ret => s.nested.head?.bind s.returned

/-- A thread before its first command. -/
def initial (caller : Caller) : IPCThread :=
  ⟨[], [], [], [], caller, .pool, [], [], [], [], [], [], [], []⟩

def machine : Machine IPCThread Action where
  init s := ∃ caller, s = initial caller
  step := step

end IPCThread
end Binder
end AndroidLinux
