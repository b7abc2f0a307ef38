import AndroidLinux.Lib.Transition
import AndroidLinux.Msg.Send

/-!
# Concurrent calls of the message system

Any number of threads call the message system at the same time.  A thread is at a
program point `Pc`, which says what section of its call comes next and what the
call remembers from the earlier ones.  A section between a lock and its unlock is
one step; so is each access to the list of task data, which has no lock, and
`getMsgID` together with the section before it.

Thread `0` is the dispatcher, which runs the loop of `MSG_PROC_RcvAndDispatch`.  The
other threads make calls.  The message handler that `VTOP_MSG_GetAndDispatch` runs
has no step of its own: what it calls is called by some other thread of the model.

The state also records the history the properties are about: `held` are the messages
that were received from each queue and not freed yet, `misused` says whether a queue
was used after it was destroyed, and `regLog` lists the registrations that returned
success with the times of their call and return.  A client frees only a message that
it holds; other calls of `VTOP_MSG_RecvFree` are outside the contract and have no
step.
-/

namespace AndroidLinux
namespace Msg

open Lib

/-- The two ways to send to one task. -/
inductive SendKind
  | async
  | sync
  deriving DecidableEq

/-- The program points, named after the section that comes next. -/
inductive Pc (r : Nat)
  | idle
  -- `VTOP_MSG_Register`; `start` is the time of the call
  | regCheck (taskName : CString) (start : Nat)
  | regAdd (taskName : CString) (start : Nat)
  | regData (taskName : CString) (start : Nat) (taskId : TaskId)
  | regUndo (taskName : CString) (start : Nat) (taskId : TaskId)
  -- `VTOP_MSG_UnRegister`
  | unregCheck (taskId : TaskId)
  | unregLookup (taskId : TaskId)
  | unregList (taskId : TaskId)
  | unregScan (taskId : TaskId)
  | unregNext (taskId : TaskId) (types : List MsgType)
  | unregRow (taskId : TaskId) (msgType : MsgType) (rest : List MsgType)
  | unregSlot (taskId : TaskId) (unitIndex : Fin r) (rest : List MsgType)
  | unregData (taskId : TaskId)
  -- `VTOP_MSG_Subscribe`
  | subCheck (taskId : TaskId) (msgType : MsgType)
  | subRow (taskId : TaskId) (msgType : MsgType)
  | subSlot (taskId : TaskId) (msgType : MsgType) (subExist : Option (Fin r))
  -- `VTOP_MSG_UnSubscribe`
  | unsubCheck (taskId : TaskId) (msgType : MsgType)
  | unsubRow (taskId : TaskId) (msgType : MsgType)
  | unsubSlot (taskId : TaskId) (unitIndex : Fin r)
  -- `VTOP_MSG_SetMerge`
  | mergeSet (taskId : TaskId) (msgtype : MsgType)
  -- `VTOP_MSG_AsynSend` and `VTOP_MSG_SynSend`, up to the queued message
  | sendCheck (kind : SendKind) (pMsg : MsgData)
  | sendHandle (kind : SendKind) (pMsg : MsgData)
  | sendPut (handle : QHandle) (pMsg : MsgData)
  -- `VTOP_MSG_Publish`
  | pubCheck (pMsg : MsgData)
  | pubPut (pMsg : MsgData)
  -- `VTOP_MSG_Recv` and, with `dispatch` set, `VTOP_MSG_GetAndDispatch`
  | recvData (taskId : TaskId)
  | recvHandle (taskId : TaskId) (dispatch : Bool)
  | recvMerge (taskId : TaskId) (handle : QHandle) (dispatch : Bool)
  | recvGet (handle : QHandle) (msgtype : MsgType) (dispatch : Bool)
  -- `VTOP_MSG_RecvFree`
  | freeHandle (taskId : TaskId) (pMsg : Nat)
  | freeMsg (handle : QHandle) (pMsg : Nat)
  -- the dispatcher
  | dispGet
  | dispRow (pMsg : Nat)
  | dispScan (pMsg : Nat) (unitIndex : Fin r)
  | dispHandle (pMsg : Nat) (taskList : List TaskId)
  | dispPut (pMsg : Nat) (handle : QHandle) (rest : List TaskId)

/-- The calls a thread can start. -/
inductive Call
  | register (taskName : CString)
  | unRegister (taskId : TaskId)
  | subscribe (taskId : TaskId) (msgType : MsgType)
  | unSubscribe (taskId : TaskId) (msgType : MsgType)
  | setMerge (taskId : TaskId) (msgtype : MsgType)
  | send (kind : SendKind) (pMsg : MsgData)
  | publish (pMsg : MsgData)
  | recv (taskId : TaskId)
  | getAndDispatch (taskId : TaskId)
  | recvFree (rcvTaskId : TaskId) (pMsg : Nat)

/-- What a step is told about the world outside: which allocations succeed, and
which response slot `MSG_RSPMNG_New` found. -/
structure Choice where
  queue : QueueMalloc
  dataHead : Bool
  dataNode : Bool
  list : Bool
  rspHandle : Option Int

/-- A registration that returned success, with the times of its call and return. -/
structure RegEntry where
  taskName : CString
  start : Nat
  finish : Nat
  deriving DecidableEq

/-- The shared state, the threads and the history. -/
structure Threads (n r : Nat) where
  sys : MsgSys n r
  pc : Nat → Pc r
  held : QHandle → List Nat
  misused : Bool
  clock : Nat
  regLog : List RegEntry

namespace Threads

variable {n r : Nat}

/-- Move a thread to another program point. -/
def goto (s : Threads n r) (c : Nat) (pc : Pc r) : Threads n r :=
  { s with pc := Function.update s.pc c pc }

/-- Replace the shared state. -/
def setSys (s : Threads n r) (sys : MsgSys n r) : Threads n r :=
  { s with sys := sys }

/-- Record the use of a destroyed queue. -/
def misuse (s : Threads n r) : Threads n r :=
  { s with misused := true }

/-- `MSG_QueuePut` on a handle. -/
def queuePut (s : Threads n r) (h : QHandle) (pMsg : MsgData) : Threads n r :=
  match s.sys.queues h with
  | none => s.misuse
  | some q => s.setSys (s.sys.setQueue h (q.msgQueuePut pMsg).2)

/-- `MSG_QueueGet`, or `MSG_QueueGetMerge` for a merge type, on a handle.  `none`
when an assertion fails. -/
def queueGet (s : Threads n r) (h : QHandle) (msgtype : MsgType) :
    Option (Option Nat × Threads n r) :=
  match s.sys.queues h with
  | none => some (none, s.misuse)
  | some q =>
      let res := if msgtype = vtopInvalidMsgType then some q.msgQueueGet
        else q.msgQueueGetMerge msgtype
      match res with
      | none => none
      | some none => some (none, s)
      | some (some (pMsg, q')) =>
          some (some pMsg,
            { s.setSys (s.sys.setQueue h q') with
              held := Function.update s.held h (pMsg :: s.held h) })

/-- `MSG_QueueFree` on a handle, for a message that is held. -/
def queueFree (s : Threads n r) (h : QHandle) (pMsg : Nat) : Option (Threads n r) :=
  match s.sys.queues h with
  | none => some s.misuse
  | some q =>
      if pMsg ∈ s.held h then
        match q.msgQueueFree pMsg with
        | none => none
        | some q' =>
            some { s.setSys (s.sys.setQueue h q') with
              held := Function.update s.held h ((s.held h).erase pMsg) }
      else
        none

/-- The message at `pMsg` in the pool of the server. -/
def svrMsg (s : Threads n r) (pMsg : Nat) : MsgData :=
  match s.sys.queues s.sys.svrQueue with
  | none => ⟨zeroInnerBlock, fun _ => 0⟩
  | some svr => svr.mem.read pMsg

/-- Address the message at `pMsg` in the pool of the server to a task. -/
def svrSetRcv (s : Threads n r) (pMsg : Nat) (k : TaskId) : Threads n r :=
  match s.sys.queues s.sys.svrQueue with
  | none => s
  | some svr => s.setSys (s.sys.setQueue s.sys.svrQueue (svr.setRcv pMsg k))

/-- The start of a call: the parameter checks that need no lock. -/
def enter (s : Threads n r) : Call → Pc r
  | .register taskName =>
      if vtopMsgMaxTaskNameLen ≤ taskName.strlen then .idle else .regCheck taskName s.clock
  | .unRegister taskId => if taskId = vtopInvalidTaskId then .idle else .unregCheck taskId
  | .subscribe taskId msgType =>
      if taskId = vtopInvalidTaskId ∨ msgType = vtopInvalidMsgType then .idle
      else .subCheck taskId msgType
  | .unSubscribe taskId msgType =>
      if taskId = vtopInvalidTaskId ∨ msgType = vtopInvalidMsgType then .idle
      else .unsubCheck taskId msgType
  | .setMerge taskId msgtype =>
      if taskId = vtopInvalidTaskId then .idle else .mergeSet taskId msgtype
  | .send kind pMsg =>
      if (checkMsgBody pMsg vtopMsgMaxMsgSize).isSome then .idle else .sendCheck kind pMsg
  | .publish pMsg => .pubCheck pMsg
  | .recv taskId => if taskId = vtopInvalidTaskId then .idle else .recvHandle taskId false
  | .getAndDispatch taskId => if taskId = vtopInvalidTaskId then .idle else .recvData taskId
  | .recvFree rcvTaskId pMsg =>
      if rcvTaskId = vtopInvalidTaskId then .idle else .freeHandle rcvTaskId pMsg

/-- The next section of a thread. -/
def advance [NeZero n] (s : Threads n r) (c : Nat) (o : Choice) : Option (Threads n r) :=
  match s.pc c with
  | .idle => if c = 0 then some (s.goto c .dispGet) else none
  | .regCheck taskName start =>
      if s.sys.taskMng.isTaskExist taskName then some (s.goto c .idle)
      else some (s.goto c (.regAdd taskName start))
  | .regAdd taskName start =>
      let res := s.sys.taskTabAdd2 taskName .task o.queue
      some ((s.setSys res.2).goto c
        (if res.1 = vtopInvalidTaskId then .idle else .regData taskName start res.1))
  | .regData taskName start taskId =>
      let res := s.sys.addTaskData taskId o.dataHead o.dataNode
      match res.1 with
      | .ok =>
          some { (s.setSys res.2).goto c .idle with
            regLog := ⟨taskName, start, s.clock⟩ :: s.regLog }
      | .err _ => some ((s.setSys res.2).goto c (.regUndo taskName start taskId))
  | .regUndo _ _ taskId => some ((s.setSys (s.sys.taskTabDel taskId).2).goto c .idle)
  | .unregCheck taskId =>
      if s.sys.taskMng.isTaskIdExist taskId then some (s.goto c (.unregLookup taskId))
      else some (s.goto c .idle)
  | .unregLookup taskId =>
      if s.sys.hasTaskData taskId && o.list then some (s.goto c (.unregList taskId))
      else some (s.goto c .idle)
  | .unregList taskId =>
      -- a failed `SUB_TAB_Task2Sub` leaves zeros in the list and its capacity as length
      if s.sys.taskMng.isTaskIdExist taskId then some (s.goto c (.unregScan taskId))
      else some (s.goto c (.unregNext taskId (List.replicate r 0)))
  | .unregScan taskId => some (s.goto c (.unregNext taskId (s.sys.subTab.task2SubLocked taskId r)))
  | .unregNext taskId [] =>
      let res := s.sys.taskTabDel taskId
      some ((s.setSys res.2).goto c (if res.1 = .ok then .unregData taskId else .idle))
  | .unregNext taskId (msgType :: rest) =>
      if s.sys.taskMng.isTaskIdExist taskId then some (s.goto c (.unregRow taskId msgType rest))
      else some (s.goto c .idle)
  | .unregRow taskId msgType rest =>
      match s.sys.subTab.isExist msgType with
      | none => some (s.goto c .idle)
      | some unitIndex => some (s.goto c (.unregSlot taskId unitIndex rest))
  | .unregSlot taskId unitIndex rest =>
      let res := s.sys.subTab.delLocked unitIndex taskId
      some ((s.setSys { s.sys with subTab := res.2 }).goto c
        (if res.1 = .ok then .unregNext taskId rest else .idle))
  | .unregData taskId => some ((s.setSys (s.sys.delTaskData taskId).2).goto c .idle)
  | .subCheck taskId msgType =>
      if s.sys.taskMng.isTaskIdExist taskId then some (s.goto c (.subRow taskId msgType))
      else some (s.goto c .idle)
  | .subRow taskId msgType =>
      some (s.goto c (.subSlot taskId msgType (s.sys.subTab.isExist msgType)))
  | .subSlot taskId msgType subExist =>
      let res := s.sys.subTab.addLocked subExist msgType taskId
      some ((s.setSys { s.sys with subTab := res.2 }).goto c .idle)
  | .unsubCheck taskId msgType =>
      if s.sys.taskMng.isTaskIdExist taskId then some (s.goto c (.unsubRow taskId msgType))
      else some (s.goto c .idle)
  | .unsubRow taskId msgType =>
      match s.sys.subTab.isExist msgType with
      | none => some (s.goto c .idle)
      | some unitIndex => some (s.goto c (.unsubSlot taskId unitIndex))
  | .unsubSlot taskId unitIndex =>
      let res := s.sys.subTab.delLocked unitIndex taskId
      some ((s.setSys { s.sys with subTab := res.2 }).goto c .idle)
  | .mergeSet taskId msgtype =>
      some ((s.setSys { s.sys with taskMng := (s.sys.taskMng.setMerge taskId msgtype).2 }).goto c
        .idle)
  | .sendCheck kind pMsg =>
      if s.sys.taskMng.isTaskIdExist pMsg.hdr.msg.rcvTaskId then
        some (s.goto c (.sendHandle kind pMsg))
      else some (s.goto c .idle)
  | .sendHandle kind pMsg =>
      match s.sys.taskMng.getHandle pMsg.hdr.msg.rcvTaskId with
      | none => some (s.goto c .idle)
      | some handle =>
          let res := s.sys.getMsgID
          match kind, o.rspHandle with
          | .async, _ =>
              some ((s.setSys res.2).goto c
                (.sendPut handle (asyncInner pMsg res.1 vtopMsgFlgP2P)))
          | .sync, some rspHandle =>
              some ((s.setSys res.2).goto c (.sendPut handle (syncInner pMsg res.1 rspHandle)))
          | .sync, none => some ((s.setSys res.2).goto c .idle)
  | .sendPut handle pMsg => some ((s.queuePut handle pMsg).goto c .idle)
  | .pubCheck pMsg =>
      match s.sys.subTab.isExist pMsg.hdr.msg.msgType with
      | none => some (s.goto c .idle)
      | some _ =>
          let res := s.sys.getMsgID
          some ((s.setSys res.2).goto c (.pubPut (asyncInner pMsg res.1 vtopMsgFlgSP)))
  | .pubPut pMsg => some ((s.queuePut s.sys.svrQueue pMsg).goto c .idle)
  | .recvData taskId =>
      if s.sys.hasTaskData taskId then some (s.goto c (.recvHandle taskId true))
      else some (s.goto c .idle)
  | .recvHandle taskId dispatch =>
      match s.sys.taskMng.getHandle taskId with
      | none => some (s.goto c .idle)
      | some handle => some (s.goto c (.recvMerge taskId handle dispatch))
  | .recvMerge taskId handle dispatch =>
      some (s.goto c (.recvGet handle (s.sys.taskMng.getMerge taskId) dispatch))
  | .recvGet handle msgtype dispatch =>
      match s.queueGet handle msgtype with
      | none => none
      | some (none, s') => some (s'.goto c .idle)
      | some (some pMsg, s') =>
          some (s'.goto c (if dispatch then .freeMsg handle pMsg else .idle))
  | .freeHandle taskId pMsg =>
      match s.sys.taskMng.getHandle taskId with
      | none => some (s.goto c .idle)
      | some handle => some (s.goto c (.freeMsg handle pMsg))
  | .freeMsg handle pMsg =>
      match s.queueFree handle pMsg with
      | none => none
      | some s' => some (s'.goto c .idle)
  | .dispGet =>
      match s.queueGet s.sys.svrQueue vtopInvalidMsgType with
      | none => none
      | some (none, s') => some (s'.goto c .idle)
      | some (some pMsg, s') =>
          if MsgSys.isPublished (s'.svrMsg pMsg).hdr then some (s'.goto c (.dispRow pMsg))
          else none
  | .dispRow pMsg =>
      match s.sys.subTab.isExist (s.svrMsg pMsg).hdr.msg.msgType with
      | none => some (s.goto c (.freeMsg s.sys.svrQueue pMsg))
      | some unitIndex => some (s.goto c (.dispScan pMsg unitIndex))
  | .dispScan pMsg unitIndex =>
      some (s.goto c (.dispHandle pMsg (s.sys.subTab.sub2TaskLocked unitIndex 0)))
  | .dispHandle pMsg [] => some (s.goto c (.freeMsg s.sys.svrQueue pMsg))
  | .dispHandle pMsg (taskId :: rest) =>
      let s' := s.svrSetRcv pMsg taskId
      match s'.sys.taskMng.getHandle taskId with
      | none => some (s'.goto c (.dispHandle pMsg rest))
      | some handle => some (s'.goto c (.dispPut pMsg handle rest))
  | .dispPut pMsg handle rest =>
      some ((s.queuePut handle (s.svrMsg pMsg)).goto c (.dispHandle pMsg rest))

/-- The actions of the scheduler: let a client thread start a call, or let a thread
run its next section. -/
inductive Act
  | call (c : Nat) (call : Call)
  | next (c : Nat) (o : Choice)

/-- One step, without the clock. -/
def act [NeZero n] (s : Threads n r) : Act → Option (Threads n r)
  | .call c call =>
      if c = 0 then none
      else
        match s.pc c with
        | .idle => some (s.goto c (s.enter call))
        | _ => none
  | .next c o => s.advance c o

/-- One step. -/
def step [NeZero n] (s : Threads n r) (a : Act) : Option (Threads n r) :=
  (s.act a).map fun s' => { s' with clock := s.clock + 1 }

/-- The state after `VTOP_MSG_Main`: every thread is idle. -/
def initial (sys : MsgSys n r) : Threads n r where
  sys := sys
  pc := fun _ => .idle
  held := fun _ => []
  misused := false
  clock := 0
  regLog := []

/-- The concurrent message system. -/
def machine (n r : Nat) [NeZero n] : Machine (Threads n r) Act where
  init := fun s => ∃ svr alloc pool,
    msgQueueInit msgDefaultQueueSize alloc pool = some svr ∧ s = initial (MsgSys.init n r svr)
  step := step

/-! ## What a step can do -/

end Threads

/-- The name a thread is registering. -/
def Pc.registering {r : Nat} : Pc r → Option CString
  | .regCheck taskName _ => some taskName
  | .regAdd taskName _ => some taskName
  | .regData taskName _ _ => some taskName
  | .regUndo taskName _ _ => some taskName
  | _ => none

/-- A thread that will use the queue `h`. -/
def Pc.Holds {r : Nat} : Pc r → QHandle → Prop
  | .sendPut handle _, h => handle = h
  | .recvMerge _ handle _, h => handle = h
  | .recvGet handle _ _, h => handle = h
  | .freeMsg handle _, h => handle = h
  | .dispPut _ handle _, h => handle = h
  | _, _ => False

/-- A thread that will put a message of its own choice in the queue `h`. -/
def Pc.Puts {r : Nat} : Pc r → QHandle → Prop
  | .sendPut handle _, h => handle = h
  | .dispPut _ handle _, h => handle = h
  | _, _ => False

/-- The program points of no registration, without a handle and without a message for
the server. -/
def Pc.plain {r : Nat} : Pc r → Bool
  | .regCheck _ _ | .regAdd _ _ | .regData _ _ _ | .regUndo _ _ _ => false
  | .sendPut _ _ | .recvMerge _ _ _ | .recvGet _ _ _ | .freeMsg _ _ | .dispPut _ _ _ => false
  | .pubPut _ => false
  | _ => true

/-- What one step can do to a queue and to the messages on loan from it: the messages
put satisfy `P`, messages are taken and freed only if `U`, and the message at `pMsg` is
readdressed to `k` only if `R pMsg k`. -/
inductive QueueStep (P : MsgData → Prop) (U : Prop) (R : Nat → TaskId → Prop) :
    MsgQueue → List Nat → MsgQueue → List Nat → Prop
  | same (q : MsgQueue) (held : List Nat) : QueueStep P U R q held q held
  | put (q : MsgQueue) (held : List Nat) {pMsg : MsgData} (hput : P pMsg) :
      QueueStep P U R q held (q.msgQueuePut pMsg).2 held
  | get {q q' : MsgQueue} (held : List Nat) {pMsg : Nat} (huse : U)
      (hget : q.msgQueueGet = some (pMsg, q')) : QueueStep P U R q held q' (pMsg :: held)
  | merge {q q' : MsgQueue} (held : List Nat) {pMsg : Nat} {msgtype : MsgType} (huse : U)
      (hget : q.msgQueueGetMerge msgtype = some (some (pMsg, q'))) :
      QueueStep P U R q held q' (pMsg :: held)
  | free {q q' : MsgQueue} {held : List Nat} {pMsg : Nat} (huse : U) (hheld : pMsg ∈ held)
      (hfree : q.msgQueueFree pMsg = some q') : QueueStep P U R q held q' (held.erase pMsg)
  | setRcv (q : MsgQueue) (held : List Nat) {pMsg : Nat} {k : TaskId} (hrcv : R pMsg k) :
      QueueStep P U R q held (q.setRcv pMsg k) held

namespace Threads

variable {n r : Nat}

/-- The tasks, their ids, names and handles are the same. -/
structure SameTasks (sys sys' : MsgSys n r) : Prop where
  rows : ∀ i, (sys'.taskMng.tab i).taskId = (sys.taskMng.tab i).taskId ∧
    (sys'.taskMng.tab i).taskName = (sys.taskMng.tab i).taskName ∧
    (sys'.taskMng.tab i).handle = (sys.taskMng.tab i).handle
  counter : sys'.taskMng.counterTaskId = sys.taskMng.counterTaskId
  nextQueue : sys'.nextQueue = sys.nextQueue
  svrQueue : sys'.svrQueue = sys.svrQueue

/-- Thread `c` puts `m` in the queue `h` next. -/
def Sends (s : Threads n r) (c : Nat) (h : QHandle) (m : MsgData) : Prop :=
  (s.pc c = .pubPut m ∧ h = s.sys.svrQueue) ∨ s.pc c = .sendPut h m ∨
    ∃ pMsg rest, s.pc c = .dispPut pMsg h rest ∧ m = s.svrMsg pMsg

/-- Thread `c` takes a message from the queue `h` or frees one next. -/
def Takes (s : Threads n r) (c : Nat) (h : QHandle) : Prop :=
  (∃ msgtype dispatch, s.pc c = .recvGet h msgtype dispatch) ∨
    (∃ pMsg, s.pc c = .freeMsg h pMsg) ∨ (s.pc c = .dispGet ∧ h = s.sys.svrQueue)

/-- Thread `c` addresses the message at `pMsg` in the queue `h` to `k` next. -/
def Readdresses (s : Threads n r) (c : Nat) (h : QHandle) (pMsg : Nat) (k : TaskId) : Prop :=
  h = s.sys.svrQueue ∧ ∃ rest, s.pc c = .dispHandle pMsg (k :: rest)

theorem Takes.uses {s : Threads n r} {c : Nat} {h : QHandle} (htakes : s.Takes c h) :
    (s.pc c).Holds h ∨ h = s.sys.svrQueue := by
  rcases htakes with ⟨msgtype, dispatch, hpc⟩ | ⟨pMsg, hpc⟩ | ⟨-, hsvr⟩
  · left
    rw [hpc]
    rfl
  · left
    rw [hpc]
    rfl
  · exact Or.inr hsvr

theorem Sends.uses {s : Threads n r} {c : Nat} {h : QHandle} {m : MsgData}
    (hsends : s.Sends c h m) : (s.pc c).Holds h ∨ h = s.sys.svrQueue := by
  rcases hsends with ⟨-, hsvr⟩ | hpc | ⟨pMsg, rest, hpc, -⟩
  · exact Or.inr hsvr
  · left
    rw [hpc]
    rfl
  · left
    rw [hpc]
    rfl

/-- What thread `c` can do to the shared state without adding or deleting a task: it
works on the queues it holds. -/
structure Work (s : Threads n r) (c : Nat) (s' : Threads n r) : Prop where
  pc : s'.pc = s.pc
  tasks : SameTasks s.sys s'.sys
  queues : ∀ h, (s.sys.queues h = none ∧ s'.sys.queues h = none ∧ s'.held h = s.held h) ∨
    ∃ q q', s.sys.queues h = some q ∧ s'.sys.queues h = some q' ∧
      QueueStep (s.Sends c h) (s.Takes c h) (s.Readdresses c h) q (s.held h) q' (s'.held h)
  regLog : s'.regLog = s.regLog
  misused : s'.misused = s.misused ∨ s.sys.queues s.sys.svrQueue = none ∨
    ∃ h, (s.pc c).Holds h ∧ s.sys.queues h = none

/-- A program point a thread may reach without registering a task: a handle it holds
there is one it held before, the one of the server, or one from the task table. -/
structure Reaches (s : Threads n r) (c : Nat) (pc : Pc r) : Prop where
  idle : pc.registering = none
  holds : ∀ h, pc.Holds h → (s.pc c).Holds h ∨ h = s.sys.svrQueue ∨
    ∃ i, (s.sys.taskMng.tab i).handle = some h
  puts : ∀ h, pc.Puts h → ∃ i, (s.sys.taskMng.tab i).handle = some h
  published : ∀ pMsg, pc = .pubPut pMsg → MsgSys.isPublished pMsg.hdr

/-- A step of thread `c` that belongs to no registration and deletes no task. -/
def Quiet (s : Threads n r) (c : Nat) (s' : Threads n r) : Prop :=
  ∃ s₁ pc, Work s c s₁ ∧ Reaches s c pc ∧ s' = s₁.goto c pc

theorem SameTasks.refl (sys : MsgSys n r) : SameTasks sys sys :=
  ⟨fun _ => ⟨rfl, rfl, rfl⟩, rfl, rfl, rfl⟩

theorem queueStep_same {s : Threads n r} {P : MsgData → Prop} {U : Prop}
    {R : Nat → TaskId → Prop} {sys' : MsgSys n r}
    {held' : QHandle → List Nat} (h : QHandle) (hqueue : sys'.queues h = s.sys.queues h)
    (hheld : held' h = s.held h) :
    (s.sys.queues h = none ∧ sys'.queues h = none ∧ held' h = s.held h) ∨
    ∃ q q', s.sys.queues h = some q ∧ sys'.queues h = some q' ∧
      QueueStep P U R q (s.held h) q' (held' h) := by
  cases hq : s.sys.queues h with
  | none => exact Or.inl ⟨rfl, hqueue.trans hq, hheld⟩
  | some q =>
      right
      refine ⟨q, q, rfl, hqueue.trans hq, ?_⟩
      rw [hheld]
      exact .same q (s.held h)

/-- A step that leaves the queues and the rows alone. -/
theorem work_setSys {s : Threads n r} {c : Nat} {sys' : MsgSys n r}
    (htasks : SameTasks s.sys sys') (hqueues : sys'.queues = s.sys.queues) :
    Work s c (s.setSys sys') where
  pc := rfl
  tasks := htasks
  queues := fun h => queueStep_same h (congrFun hqueues h) rfl
  regLog := rfl
  misused := Or.inl rfl

theorem work_refl (s : Threads n r) (c : Nat) : Work s c s :=
  work_setSys (SameTasks.refl s.sys) rfl

theorem work_setSubTab (s : Threads n r) (c : Nat) (tab : SubTab r n) :
    Work s c (s.setSys { s.sys with subTab := tab }) :=
  work_setSys ⟨fun _ => ⟨rfl, rfl, rfl⟩, rfl, rfl, rfl⟩ rfl

theorem work_setTaskData (s : Threads n r) (c : Nat) (entries : Option (List TaskId)) :
    Work s c (s.setSys { s.sys with gTaskData := entries }) :=
  work_setSys ⟨fun _ => ⟨rfl, rfl, rfl⟩, rfl, rfl, rfl⟩ rfl

/-- A step that changes one queue by one operation. -/
theorem work_setQueue {s : Threads n r} {c : Nat} {h : QHandle} {q q' : MsgQueue}
    {held' : List Nat} (hq : s.sys.queues h = some q)
    (hop : QueueStep (s.Sends c h) (s.Takes c h) (s.Readdresses c h) q (s.held h) q' held') :
    Work s c { s.setSys (s.sys.setQueue h q') with
      held := Function.update s.held h held' } where
  pc := rfl
  tasks := ⟨fun _ => ⟨rfl, rfl, rfl⟩, rfl, rfl, rfl⟩
  queues := by
    intro h'
    by_cases hh : h' = h
    · subst hh
      right
      refine ⟨q, q', hq, ?_, ?_⟩
      · simp [setSys, MsgSys.setQueue]
      · simpa using hop
    · refine queueStep_same h' ?_ ?_
      · simp [setSys, MsgSys.setQueue, hh]
      · simp [hh]
  regLog := rfl
  misused := Or.inl rfl

/-- The use of a destroyed queue. -/
theorem work_misuse {s : Threads n r} {c : Nat} {h : QHandle} (hq : s.sys.queues h = none)
    (huse : (s.pc c).Holds h ∨ h = s.sys.svrQueue) : Work s c s.misuse where
  pc := rfl
  tasks := SameTasks.refl s.sys
  queues := fun h' => queueStep_same h' rfl rfl
  regLog := rfl
  misused := by
    rcases huse with hholds | rfl
    · exact Or.inr (Or.inr ⟨h, hholds, hq⟩)
    · exact Or.inr (Or.inl hq)

theorem work_queuePut {s : Threads n r} {c : Nat} {h : QHandle} {pMsg : MsgData}
    (hput : s.Sends c h pMsg) : Work s c (s.queuePut h pMsg) := by
  unfold queuePut
  cases hq : s.sys.queues h with
  | none => exact work_misuse hq hput.uses
  | some q =>
      have hwork := work_setQueue hq (.put q (s.held h) hput)
      rwa [Function.update_eq_self] at hwork

theorem work_queueGet {s s' : Threads n r} {c : Nat} {h : QHandle} {msgtype : MsgType}
    {res : Option Nat} (huse : s.Takes c h)
    (hget : s.queueGet h msgtype = some (res, s')) : Work s c s' := by
  unfold queueGet at hget
  cases hq : s.sys.queues h with
  | none =>
      simp only [hq, Option.some.injEq, Prod.mk.injEq] at hget
      obtain ⟨-, rfl⟩ := hget
      exact work_misuse hq huse.uses
  | some q =>
      simp only [hq] at hget
      split at hget
      · cases hget
      · simp only [Option.some.injEq, Prod.mk.injEq] at hget
        obtain ⟨-, rfl⟩ := hget
        exact work_refl s c
      · rename_i pMsg q' hop
        simp only [Option.some.injEq, Prod.mk.injEq] at hget
        obtain ⟨-, rfl⟩ := hget
        split at hop
        · exact work_setQueue hq (.get (s.held h) huse (Option.some.inj hop))
        · exact work_setQueue hq (.merge (s.held h) huse hop)

theorem work_queueFree {s s' : Threads n r} {c : Nat} {h : QHandle} {pMsg : Nat}
    (huse : s.Takes c h) (hfree : s.queueFree h pMsg = some s') : Work s c s' := by
  unfold queueFree at hfree
  cases hq : s.sys.queues h with
  | none =>
      simp only [hq, Option.some.injEq] at hfree
      exact hfree ▸ work_misuse hq huse.uses
  | some q =>
      simp only [hq] at hfree
      split at hfree
      · rename_i hheld
        split at hfree
        · cases hfree
        · rename_i q' hop
          exact Option.some.inj hfree ▸ work_setQueue hq (.free huse hheld hop)
      · cases hfree

theorem work_svrSetRcv {s : Threads n r} {c : Nat} {pMsg : Nat} {k : TaskId}
    {rest : List TaskId} (hpc : s.pc c = .dispHandle pMsg (k :: rest)) :
    Work s c (s.svrSetRcv pMsg k) := by
  unfold svrSetRcv
  cases hq : s.sys.queues s.sys.svrQueue with
  | none => exact work_refl s c
  | some svr =>
      have hwork := work_setQueue (c := c) hq (.setRcv svr (s.held s.sys.svrQueue) ⟨rfl, rest, hpc⟩)
      rwa [Function.update_eq_self] at hwork

/-- A program point of no registration, without a handle and without a message for
the server. -/
theorem reaches_of_plain {s : Threads n r} {c : Nat} {pc : Pc r} (hplain : pc.plain = true) :
    Reaches s c pc := by
  cases pc <;> first
    | exact Bool.noConfusion hplain
    | exact ⟨rfl, fun _ h => h.elim, fun _ h => h.elim, fun _ h => by cases h⟩

/-- The steps of a registration, and the step that deletes a task. -/
inductive TaskStep (s : Threads n r) (c : Nat) (o : Choice) : Threads n r → Prop
  | exists {taskName : CString} {start : Nat} (hpc : s.pc c = .regCheck taskName start)
      (hexist : s.sys.taskMng.isTaskExist taskName = true) : TaskStep s c o (s.goto c .idle)
  | absent {taskName : CString} {start : Nat} (hpc : s.pc c = .regCheck taskName start)
      (hexist : s.sys.taskMng.isTaskExist taskName = false) :
      TaskStep s c o (s.goto c (.regAdd taskName start))
  | add {taskName : CString} {start : Nat} (hpc : s.pc c = .regAdd taskName start) :
      TaskStep s c o ((s.setSys (s.sys.taskTabAdd2 taskName .task o.queue).2).goto c
        (if (s.sys.taskTabAdd2 taskName .task o.queue).1 = vtopInvalidTaskId then .idle
          else .regData taskName start (s.sys.taskTabAdd2 taskName .task o.queue).1))
  | success {taskName : CString} {start : Nat} {taskId : TaskId}
      (hpc : s.pc c = .regData taskName start taskId) (entries : Option (List TaskId)) :
      TaskStep s c o { (s.setSys { s.sys with gTaskData := entries }).goto c .idle with
        regLog := ⟨taskName, start, s.clock⟩ :: s.regLog }
  | noData {taskName : CString} {start : Nat} {taskId : TaskId}
      (hpc : s.pc c = .regData taskName start taskId) (entries : Option (List TaskId)) :
      TaskStep s c o ((s.setSys { s.sys with gTaskData := entries }).goto c
        (.regUndo taskName start taskId))
  | undo {taskName : CString} {start : Nat} {taskId : TaskId}
      (hpc : s.pc c = .regUndo taskName start taskId) :
      TaskStep s c o ((s.setSys (s.sys.taskTabDel taskId).2).goto c .idle)
  | delete {taskId : TaskId} (hpc : s.pc c = .unregNext taskId [])
      {pc : Pc r} (hpc' : pc = .idle ∨ pc = .unregData taskId) :
      TaskStep s c o ((s.setSys (s.sys.taskTabDel taskId).2).goto c pc)

theorem getHandle_mem {mng : TaskMng n} {k : TaskId} {h : QHandle}
    (hget : mng.getHandle k = some h) : ∃ i, (mng.tab i).handle = some h := by
  unfold TaskMng.getHandle at hget
  cases hfind : mng.findId k with
  | none => simp [hfind] at hget
  | some i =>
      rw [hfind] at hget
      exact ⟨i, hget⟩

theorem sameTasks_setMerge (sys : MsgSys n r) (k : TaskId) (t : MsgType) :
    SameTasks sys { sys with taskMng := (sys.taskMng.setMerge k t).2 } := by
  refine ⟨?_, ?_, rfl, rfl⟩
  · intro i
    unfold TaskMng.setMerge
    split
    · rename_i index _
      by_cases hi : i = index
      · subst hi
        simp
      · simp [hi]
    · exact ⟨rfl, rfl, rfl⟩
  · unfold TaskMng.setMerge
    split <;> rfl

theorem isPublished_asyncInner (pMsg : MsgData) (msgID : MsgId) :
    MsgSys.isPublished (asyncInner pMsg msgID vtopMsgFlgSP).hdr := by
  show (0 ||| vtopMsgFlgAsync ||| vtopMsgFlgSP) &&& vtopMsgFlgAsync ≠ 0 ∧
    (0 ||| vtopMsgFlgAsync ||| vtopMsgFlgSP) &&& vtopMsgFlgSP ≠ 0
  decide

theorem Work.quiet {s s₁ : Threads n r} {c : Nat} {pc : Pc r} (hwork : Work s c s₁)
    (hpc : Reaches s c pc) : Quiet s c (s₁.goto c pc) :=
  ⟨s₁, pc, hwork, hpc, rfl⟩

/-- A step that only moves the thread. -/
theorem quiet_move {s : Threads n r} {c : Nat} {pc : Pc r} (hplain : pc.plain = true) :
    Quiet s c (s.goto c pc) :=
  (work_refl s c).quiet (reaches_of_plain hplain)

/-- A thread that picks up a handle from the task table. -/
theorem quiet_handle {s s₁ : Threads n r} {c : Nat} {pc : Pc r} {h : QHandle}
    (hwork : Work s c s₁) (hrow : ∃ i, (s.sys.taskMng.tab i).handle = some h)
    (hidle : pc.registering = none) (hholds : ∀ h', pc.Holds h' → h' = h)
    (hputs : ∀ h', pc.Puts h' → h' = h) (hpub : ∀ pMsg, pc ≠ .pubPut pMsg) :
    Quiet s c (s₁.goto c pc) := by
  refine hwork.quiet ⟨hidle, ?_, ?_, fun pMsg h => absurd h (hpub pMsg)⟩
  · intro h' hh
    rw [hholds h' hh]
    exact Or.inr (Or.inr hrow)
  · intro h' hh
    rw [hputs h' hh]
    exact hrow

/-- The dispatcher frees the message of the server. -/
theorem reaches_freeSvr (s : Threads n r) (c : Nat) (pMsg : Nat) :
    Reaches s c (.freeMsg s.sys.svrQueue pMsg) :=
  ⟨rfl, fun _ hh => Or.inr (Or.inl hh.symm), fun _ hh => hh.elim, fun _ hh => by cases hh⟩

/-- A call starts at a plain program point, or at the first section of a
registration. -/
theorem enter_cases (s : Threads n r) (call : Call) :
    (s.enter call).plain = true ∨ ∃ taskName, taskName.strlen < vtopMsgMaxTaskNameLen ∧
      s.enter call = .regCheck taskName s.clock := by
  cases call with
  | register taskName =>
      simp only [enter]
      split
      · exact Or.inl rfl
      · rename_i hlen
        exact Or.inr ⟨taskName, Nat.lt_of_not_le hlen, rfl⟩
  | publish pMsg => exact Or.inl rfl
  | _ =>
      left
      simp only [enter]
      split <;> rfl

/-- A call starts without a handle. -/
theorem not_holds_enter (s : Threads n r) (call : Call) (h : QHandle) :
    ¬ (s.enter call).Holds h := by
  rcases s.enter_cases call with hplain | ⟨taskName, -, heq⟩
  · cases hpc : s.enter call <;> rw [hpc] at hplain <;> first
      | exact fun hh => hh.elim
      | exact Bool.noConfusion hplain
  · rw [heq]
    exact fun hh => hh.elim

/-- Everything the next section of a thread can do. -/
theorem advance_cases [NeZero n] {s s' : Threads n r} {c : Nat} {o : Choice}
    (hstep : s.advance c o = some s') : Quiet s c s' ∨ TaskStep s c o s' := by
  -- one case for each program counter; only registering and the last section of unregistering
  -- touch the task table
  cases hpc : s.pc c with
  | idle =>
      simp only [advance, hpc] at hstep
      split at hstep
      · exact Or.inl (Option.some.inj hstep ▸ quiet_move rfl)
      · cases hstep
  | regCheck taskName start =>
      simp only [advance, hpc] at hstep
      right
      split at hstep
      · rename_i hexist
        exact Option.some.inj hstep ▸ .exists hpc hexist
      · rename_i hexist
        exact Option.some.inj hstep ▸ .absent hpc (by simpa using hexist)
  | regAdd taskName start =>
      simp only [advance, hpc] at hstep
      right
      exact Option.some.inj hstep ▸ .add hpc
  | regData taskName start taskId =>
      simp only [advance, hpc] at hstep
      right
      obtain ⟨entries, hdata⟩ := s.sys.addTaskData_frame taskId o.dataHead o.dataNode
      rw [hdata] at hstep
      split at hstep
      · exact Option.some.inj hstep ▸ .success hpc entries
      · exact Option.some.inj hstep ▸ .noData hpc entries
  | regUndo taskName start taskId =>
      simp only [advance, hpc] at hstep
      exact Or.inr (Option.some.inj hstep ▸ .undo hpc)
  | unregCheck taskId =>
      simp only [advance, hpc] at hstep
      left
      split at hstep <;> exact Option.some.inj hstep ▸ quiet_move rfl
  | unregLookup taskId =>
      simp only [advance, hpc] at hstep
      left
      split at hstep <;> exact Option.some.inj hstep ▸ quiet_move rfl
  | unregList taskId =>
      simp only [advance, hpc] at hstep
      left
      split at hstep <;> exact Option.some.inj hstep ▸ quiet_move rfl
  | unregScan taskId =>
      simp only [advance, hpc] at hstep
      exact Or.inl (Option.some.inj hstep ▸ quiet_move rfl)
  | unregNext taskId types =>
      cases types with
      | nil =>
          simp only [advance, hpc] at hstep
          right
          refine Option.some.inj hstep ▸ .delete hpc ?_
          split
          · exact Or.inr rfl
          · exact Or.inl rfl
      | cons msgType rest =>
          simp only [advance, hpc] at hstep
          left
          split at hstep <;> exact Option.some.inj hstep ▸ quiet_move rfl
  | unregRow taskId msgType rest =>
      simp only [advance, hpc] at hstep
      left
      split at hstep <;> exact Option.some.inj hstep ▸ quiet_move rfl
  | unregSlot taskId unitIndex rest =>
      simp only [advance, hpc] at hstep
      left
      refine Option.some.inj hstep ▸ (work_setSubTab s c _).quiet (reaches_of_plain ?_)
      split <;> rfl
  | unregData taskId =>
      simp only [advance, hpc] at hstep
      left
      obtain ⟨entries, hdata⟩ := s.sys.delTaskData_frame taskId
      rw [hdata] at hstep
      exact Option.some.inj hstep ▸
        (work_setTaskData s c entries).quiet (reaches_of_plain rfl)
  | subCheck taskId msgType =>
      simp only [advance, hpc] at hstep
      left
      split at hstep <;> exact Option.some.inj hstep ▸ quiet_move rfl
  | subRow taskId msgType =>
      simp only [advance, hpc] at hstep
      exact Or.inl (Option.some.inj hstep ▸ quiet_move rfl)
  | subSlot taskId msgType subExist =>
      simp only [advance, hpc] at hstep
      left
      exact Option.some.inj hstep ▸ (work_setSubTab s c _).quiet (reaches_of_plain rfl)
  | unsubCheck taskId msgType =>
      simp only [advance, hpc] at hstep
      left
      split at hstep <;> exact Option.some.inj hstep ▸ quiet_move rfl
  | unsubRow taskId msgType =>
      simp only [advance, hpc] at hstep
      left
      split at hstep <;> exact Option.some.inj hstep ▸ quiet_move rfl
  | unsubSlot taskId unitIndex =>
      simp only [advance, hpc] at hstep
      left
      exact Option.some.inj hstep ▸ (work_setSubTab s c _).quiet (reaches_of_plain rfl)
  | mergeSet taskId msgtype =>
      simp only [advance, hpc] at hstep
      left
      exact Option.some.inj hstep ▸
        (work_setSys (sameTasks_setMerge s.sys taskId msgtype) rfl).quiet (reaches_of_plain rfl)
  | sendCheck kind pMsg =>
      simp only [advance, hpc] at hstep
      left
      split at hstep <;> exact Option.some.inj hstep ▸ quiet_move rfl
  | sendHandle kind pMsg =>
      simp only [advance, hpc] at hstep
      left
      split at hstep
      · exact Option.some.inj hstep ▸ quiet_move rfl
      · rename_i handle hget
        have hwork : Work s c (s.setSys s.sys.getMsgID.2) :=
          work_setSys ⟨fun _ => ⟨rfl, rfl, rfl⟩, rfl, rfl, rfl⟩ rfl
        have hrow := getHandle_mem hget
        split at hstep
        · exact Option.some.inj hstep ▸ quiet_handle hwork hrow rfl (fun _ h => h.symm)
            (fun _ h => h.symm) (fun _ h => by cases h)
        · exact Option.some.inj hstep ▸ quiet_handle hwork hrow rfl (fun _ h => h.symm)
            (fun _ h => h.symm) (fun _ h => by cases h)
        · exact Option.some.inj hstep ▸ hwork.quiet (reaches_of_plain rfl)
  | sendPut handle pMsg =>
      simp only [advance, hpc] at hstep
      left
      exact Option.some.inj hstep ▸
        (work_queuePut (Or.inr (Or.inl hpc))).quiet (reaches_of_plain rfl)
  | pubCheck pMsg =>
      simp only [advance, hpc] at hstep
      left
      split at hstep
      · exact Option.some.inj hstep ▸ quiet_move rfl
      · have hwork : Work s c (s.setSys s.sys.getMsgID.2) :=
          work_setSys ⟨fun _ => ⟨rfl, rfl, rfl⟩, rfl, rfl, rfl⟩ rfl
        refine Option.some.inj hstep ▸ hwork.quiet ⟨rfl, fun _ h => h.elim, fun _ h => h.elim, ?_⟩
        rintro _ ⟨⟩
        exact isPublished_asyncInner pMsg _
  | pubPut pMsg =>
      simp only [advance, hpc] at hstep
      left
      exact Option.some.inj hstep ▸
        (work_queuePut (Or.inl ⟨hpc, rfl⟩)).quiet (reaches_of_plain rfl)
  | recvData taskId =>
      simp only [advance, hpc] at hstep
      left
      split at hstep <;> exact Option.some.inj hstep ▸ quiet_move rfl
  | recvHandle taskId dispatch =>
      simp only [advance, hpc] at hstep
      left
      split at hstep
      · exact Option.some.inj hstep ▸ quiet_move rfl
      · rename_i handle hget
        exact Option.some.inj hstep ▸ quiet_handle (work_refl s c) (getHandle_mem hget) rfl
          (fun _ h => h.symm) (fun _ h => h.elim) (fun _ h => by cases h)
  | recvMerge taskId handle dispatch =>
      simp only [advance, hpc] at hstep
      left
      refine Option.some.inj hstep ▸ (work_refl s c).quiet ⟨rfl, ?_, fun _ h => h.elim,
        fun _ h => by cases h⟩
      intro h hh
      left
      rw [hpc]
      exact hh
  | recvGet handle msgtype dispatch =>
      simp only [advance, hpc] at hstep
      left
      have htakes : s.Takes c handle := Or.inl ⟨msgtype, dispatch, hpc⟩
      split at hstep
      · cases hstep
      · rename_i s₁ hget
        exact Option.some.inj hstep ▸
          (work_queueGet htakes hget).quiet (reaches_of_plain rfl)
      · rename_i pMsg s₁ hget
        refine Option.some.inj hstep ▸ (work_queueGet htakes hget).quiet ?_
        cases dispatch with
        | false => exact reaches_of_plain rfl
        | true =>
            refine ⟨rfl, ?_, fun _ h => h.elim, fun _ h => by cases h⟩
            intro h hh
            left
            rw [hpc]
            exact hh
  | freeHandle taskId pMsg =>
      simp only [advance, hpc] at hstep
      left
      split at hstep
      · exact Option.some.inj hstep ▸ quiet_move rfl
      · rename_i handle hget
        exact Option.some.inj hstep ▸ quiet_handle (work_refl s c) (getHandle_mem hget) rfl
          (fun _ h => h.symm) (fun _ h => h.elim) (fun _ h => by cases h)
  | freeMsg handle pMsg =>
      simp only [advance, hpc] at hstep
      left
      split at hstep
      · cases hstep
      · rename_i s₁ hfree
        exact Option.some.inj hstep ▸
          (work_queueFree (Or.inr (Or.inl ⟨pMsg, hpc⟩)) hfree).quiet (reaches_of_plain rfl)
  | dispGet =>
      simp only [advance, hpc] at hstep
      left
      split at hstep
      · cases hstep
      · rename_i s₁ hget
        exact Option.some.inj hstep ▸
          (work_queueGet (Or.inr (Or.inr ⟨hpc, rfl⟩)) hget).quiet (reaches_of_plain rfl)
      · rename_i pMsg s₁ hget
        split at hstep
        · exact Option.some.inj hstep ▸
            (work_queueGet (Or.inr (Or.inr ⟨hpc, rfl⟩)) hget).quiet (reaches_of_plain rfl)
        · cases hstep
  | dispRow pMsg =>
      simp only [advance, hpc] at hstep
      left
      split at hstep
      · exact Option.some.inj hstep ▸ (work_refl s c).quiet (reaches_freeSvr s c pMsg)
      · exact Option.some.inj hstep ▸ quiet_move rfl
  | dispScan pMsg unitIndex =>
      simp only [advance, hpc] at hstep
      exact Or.inl (Option.some.inj hstep ▸ quiet_move rfl)
  | dispHandle pMsg taskList =>
      cases taskList with
      | nil =>
          simp only [advance, hpc] at hstep
          exact Or.inl (Option.some.inj hstep ▸
            (work_refl s c).quiet (reaches_freeSvr s c pMsg))
      | cons taskId rest =>
          simp only [advance, hpc] at hstep
          left
          have hwork : Work s c (s.svrSetRcv pMsg taskId) := work_svrSetRcv hpc
          split at hstep
          · exact Option.some.inj hstep ▸ hwork.quiet (reaches_of_plain rfl)
          · rename_i handle hget
            -- the handle is read from the table that `svrSetRcv` leaves as it is
            obtain ⟨i, hi⟩ := getHandle_mem hget
            have hrow : ∃ i, (s.sys.taskMng.tab i).handle = some handle :=
              ⟨i, (hwork.tasks.rows i).2.2.symm.trans hi⟩
            exact Option.some.inj hstep ▸ quiet_handle hwork hrow rfl (fun _ h => h.symm)
              (fun _ h => h.symm) (fun _ h => by cases h)
  | dispPut pMsg handle rest =>
      simp only [advance, hpc] at hstep
      left
      exact Option.some.inj hstep ▸
        (work_queuePut (Or.inr (Or.inr ⟨pMsg, rest, hpc, rfl⟩))).quiet (reaches_of_plain rfl)

end Threads
end Msg
end AndroidLinux
