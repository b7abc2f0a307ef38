import AndroidLinux.Msg.Queue
import AndroidLinux.Msg.SubTab

/-!
# The message system and its calls

The state shared by all callers of the message system, from the return of
`VTOP_MSG_Main` on: the two tables of the shared segment, the queue objects, the
list of task data and the counter of message ids.  `SHM_Init` gives every
subscription row as many slots as there are task rows, so one number bounds both.

The first part has the sections that touch more than one of these at once
(`TASK_TAB_Add2` creates a queue, `TASK_TAB_Del` destroys one) and the task data
functions of `msg_task.c`.  The second part has the calls of `msg_task.c` as they
run when nothing interleaves with them.  Outcomes of `malloc` are arguments.
-/

namespace AndroidLinux
namespace Msg

open Lib

-- The tables of the concrete schedules have one or two rows of tasks.

instance neZero_one : NeZero (1 : Nat) :=
  ⟨Nat.one_ne_zero⟩

instance neZero_two : NeZero (2 : Nat) :=
  ⟨Nat.succ_ne_zero 1⟩

/-- The shared state.  `queues` maps the handle of every queue object that has been
created and not been destroyed to its content, and `nextQueue` is the next handle
`malloc` returns. -/
structure MsgSys (maxTask maxSub : Nat) where
  taskMng : TaskMng maxTask
  subTab : SubTab maxSub maxTask
  queues : QHandle → Option MsgQueue
  nextQueue : QHandle
  gTaskData : Option (List TaskId)
  counterMsgId : MsgId
  svrQueue : QHandle

/-- The outcomes of the allocations of `MSG_QueueInit`. -/
structure QueueMalloc where
  queue : Bool
  pool : MbMalloc → Bool

/-- The outcomes of the allocations of `VTOP_MSG_RegisterX`. -/
structure RegisterMalloc where
  queue : QueueMalloc
  dataHead : Bool
  dataNode : Bool

namespace MsgSys

variable {n r : Nat}

/-- The state after `VTOP_MSG_Main`: empty tables and the queue of the server. -/
def init (n r : Nat) (svr : MsgQueue) : MsgSys n r where
  taskMng := taskTabInit n
  subTab := SubTab.init r n
  queues := Function.update (fun _ => none) 0 (some svr)
  nextQueue := 1
  gTaskData := none
  counterMsgId := 0
  svrQueue := 0

/-! ## Sections that touch several parts -/

/-- `TASK_TAB_Add2` with the queue it creates. -/
def taskTabAdd2 (s : MsgSys n r) (taskName : CString) (owner : TaskOwner)
    (alloc : QueueMalloc) : TaskId × MsgSys n r :=
  match s.taskMng.freeRow with
  | none => (vtopInvalidTaskId, s)
  | some _ =>
      match msgQueueInit msgDefaultQueueSize alloc.queue alloc.pool with
      | none =>
          let res := s.taskMng.add2 taskName owner none
          (res.1, { s with taskMng := res.2 })
      | some q =>
          let res := s.taskMng.add2 taskName owner (some s.nextQueue)
          (res.1,
            { s with
              taskMng := res.2
              queues := Function.update s.queues s.nextQueue (some q)
              nextQueue := s.nextQueue + 1 })

/-- Destroy a queue (`MSG_QueueDeinit`); the invalid handle is ignored. -/
def msgQueueDeinit (s : MsgSys n r) (handle : Option QHandle) : MsgSys n r :=
  match handle with
  | none => s
  | some h => { s with queues := Function.update s.queues h none }

/-- `TASK_TAB_Del` with the queue it destroys. -/
def taskTabDel (s : MsgSys n r) (taskId : TaskId) : Ret × MsgSys n r :=
  let res := s.taskMng.del taskId
  (res.1, { s.msgQueueDeinit res.2.1 with taskMng := res.2.2 })

/-- `addTaskData`.  The list head is allocated with the first entry, and stays
allocated when the entry itself cannot be. -/
def addTaskData (s : MsgSys n r) (taskId : TaskId) (mallocHead mallocNode : Bool) :
    Ret × MsgSys n r :=
  if s.gTaskData = none ∧ mallocHead = false then
    (.err .nomem, s)
  else
    let entries := s.gTaskData.getD []
    if taskId ∈ entries then
      (.err .general, { s with gTaskData := some entries })
    else if mallocNode = false then
      (.err .nomem, { s with gTaskData := some entries })
    else
      (.ok, { s with gTaskData := some (entries ++ [taskId]) })

/-- `getTaskData`, as far as its callers look at the result. -/
def hasTaskData (s : MsgSys n r) (taskId : TaskId) : Bool :=
  decide (taskId ∈ s.gTaskData.getD [])

/-- `delTaskData`.  The list head goes with the last entry. -/
def delTaskData (s : MsgSys n r) (taskId : TaskId) : Ret × MsgSys n r :=
  match s.gTaskData with
  | none => (.err .general, s)
  | some entries =>
      let rest := entries.erase taskId
      (if taskId ∈ entries then .ok else .err .general,
        { s with gTaskData := if rest = [] then none else some rest })

/-! ## The calls -/

/-- `VTOP_MSG_RegisterX`: the id stored in `*pTaskId`, or the error. -/
def vtopMsgRegisterX (s : MsgSys n r) (taskName : CString) (owner : TaskOwner)
    (alloc : RegisterMalloc) : Except MsgErr TaskId × MsgSys n r :=
  if vtopMsgMaxTaskNameLen ≤ taskName.strlen then
    (.error .invalidPara, s)
  else if s.taskMng.isTaskExist taskName then
    (.error .taskExist, s)
  else
    match s.taskTabAdd2 taskName owner alloc.queue with
    | (taskId, s₁) =>
        if taskId = vtopInvalidTaskId then
          (.error .taskFull, s₁)
        else
          match s₁.addTaskData taskId alloc.dataHead alloc.dataNode with
          | (.ok, s₂) => (.ok taskId, s₂)
          | (.err _, s₂) =>
              -- the row is given back before the call fails
              match s₂.taskTabDel taskId with
              | (.ok, s₃) => (.error .general, s₃)
              | (.err e, s₃) => (.error e, s₃)

/-- `VTOP_MSG_Register`. -/
def vtopMsgRegister (s : MsgSys n r) (taskName : CString) (alloc : RegisterMalloc) :
    Except MsgErr TaskId × MsgSys n r :=
  s.vtopMsgRegisterX taskName .task alloc

/-- The loop of `VTOP_MSG_UnRegister` that deletes the listed subscriptions. -/
def delSubs (s : MsgSys n r) (taskId : TaskId) : List MsgType → Ret × MsgSys n r
  | [] => (.ok, s)
  | msgType :: rest =>
      match s.subTab.del s.taskMng msgType taskId with
      | (.err e, tab) => (.err e, { s with subTab := tab })
      | (.ok, tab) => delSubs { s with subTab := tab } taskId rest

/-- What `VTOP_MSG_UnRegister` finds in `msgTypeList[0 .. maxSub]`.  The result of
`SUB_TAB_Task2Sub` is not tested: when it fails, the list is all zero and the
capacity still counts as its length. -/
def unRegisterList (s : MsgSys n r) (taskId : TaskId) : List MsgType :=
  match s.subTab.task2Sub s.taskMng taskId r with
  | .ok types => types
  | .error _ => List.replicate r 0

/-- `VTOP_MSG_UnRegister`. -/
def vtopMsgUnRegister (s : MsgSys n r) (taskId : TaskId) (mallocList : Bool) :
    Ret × MsgSys n r :=
  if taskId = vtopInvalidTaskId then
    (.err .invalidPara, s)
  else if s.taskMng.isTaskIdExist taskId = false then
    (.err .taskNotExist, s)
  else if s.hasTaskData taskId = false then
    (.err .dsNotExist, s)
  else if mallocList = false then
    (.err .nomem, s)
  else
    match s.delSubs taskId (s.unRegisterList taskId) with
    | (.err e, s₁) => (.err e, s₁)
    | (.ok, s₁) =>
        match s₁.taskTabDel taskId with
        | (.err _, s₂) => (.err .taskNotExist, s₂)
        | (.ok, s₂) =>
            match s₂.delTaskData taskId with
            | (.err _, s₃) => (.err .general, s₃)
            | (.ok, s₃) => (.ok, s₃)

/-- `VTOP_MSG_Subscribe`. -/
def vtopMsgSubscribe [NeZero n] (s : MsgSys n r) (taskId : TaskId) (msgType : MsgType) :
    Ret × MsgSys n r :=
  if taskId = vtopInvalidTaskId then
    (.err .invalidPara, s)
  else if msgType = vtopInvalidMsgType then
    (.err .invalidPara, s)
  else
    let res := s.subTab.add s.taskMng msgType taskId
    (res.1, { s with subTab := res.2 })

/-- `VTOP_MSG_UnSubscribe`. -/
def vtopMsgUnSubscribe (s : MsgSys n r) (taskId : TaskId) (msgType : MsgType) :
    Ret × MsgSys n r :=
  if taskId = vtopInvalidTaskId then
    (.err .invalidPara, s)
  else if msgType = vtopInvalidMsgType then
    (.err .invalidPara, s)
  else
    let res := s.subTab.del s.taskMng msgType taskId
    (res.1, { s with subTab := res.2 })

/-! ## What the sections do -/

/-- Everything `TASK_TAB_Add2` can do: there is no free row, or the row is filled
without a queue, or with one. -/
theorem taskTabAdd2_cases (s : MsgSys n r) (taskName : CString) (owner : TaskOwner)
    (alloc : QueueMalloc) :
    (s.taskMng.freeRow = none ∧
      s.taskTabAdd2 taskName owner alloc = (vtopInvalidTaskId, s)) ∨
    (∃ index newQueue, s.taskMng.freeRow = some index ∧
      (s.taskMng.tab index).taskId = vtopInvalidTaskId ∧
      (newQueue = none ∨
        newQueue = msgQueueInit msgDefaultQueueSize alloc.queue alloc.pool) ∧
      s.taskTabAdd2 taskName owner alloc =
        (if newQueue.isSome then s.taskMng.counterTaskId else vtopInvalidTaskId,
          { s with
            taskMng :=
              { tab := Function.update s.taskMng.tab index
                  (s.taskMng.newRow index taskName owner (newQueue.map fun _ => s.nextQueue))
                counterTaskId := nextTaskId s.taskMng.counterTaskId }
            queues := if newQueue.isSome then
                Function.update s.queues s.nextQueue newQueue else s.queues
            nextQueue := if newQueue.isSome then s.nextQueue + 1 else s.nextQueue })) := by
  cases hrow : s.taskMng.freeRow with
  | none =>
      left
      exact ⟨rfl, by simp only [taskTabAdd2, hrow]⟩
  | some index =>
      right
      have hfree : (s.taskMng.tab index).taskId = vtopInvalidTaskId :=
        TaskMng.findId_eq_some hrow
      cases hq : msgQueueInit msgDefaultQueueSize alloc.queue alloc.pool with
      | none =>
          refine ⟨index, none, rfl, hfree, Or.inl rfl, ?_⟩
          simp [taskTabAdd2, hrow, hq, TaskMng.add2]
      | some q =>
          refine ⟨index, some q, rfl, hfree, Or.inr rfl, ?_⟩
          simp [taskTabAdd2, hrow, hq, TaskMng.add2]

/-- Everything `TASK_TAB_Del` can do. -/
theorem taskTabDel_cases (s : MsgSys n r) (k : TaskId) :
    (∃ index, s.taskMng.findId k = some index ∧ (s.taskMng.tab index).taskId = k ∧
      s.taskTabDel k = (.ok,
        { s.msgQueueDeinit (s.taskMng.tab index).handle with
          taskMng := { s.taskMng with
            tab := Function.update s.taskMng.tab index taskTabInitUnit } })) ∨
    (s.taskMng.findId k = none ∧ s.taskTabDel k = (.err .taskNotExist, s)) := by
  rcases s.taskMng.del_cases k with ⟨index, hfind, hid, hdel⟩ | ⟨hfind, hdel⟩
  · left
    exact ⟨index, hfind, hid, by simp only [taskTabDel, hdel]⟩
  · right
    refine ⟨hfind, ?_⟩
    simp only [taskTabDel, hdel]
    rfl

@[simp] theorem msgQueueDeinit_taskMng (s : MsgSys n r) (handle : Option QHandle) :
    (s.msgQueueDeinit handle).taskMng = s.taskMng := by
  cases handle <;> rfl

@[simp] theorem msgQueueDeinit_subTab (s : MsgSys n r) (handle : Option QHandle) :
    (s.msgQueueDeinit handle).subTab = s.subTab := by
  cases handle <;> rfl

@[simp] theorem msgQueueDeinit_nextQueue (s : MsgSys n r) (handle : Option QHandle) :
    (s.msgQueueDeinit handle).nextQueue = s.nextQueue := by
  cases handle <;> rfl

@[simp] theorem msgQueueDeinit_svrQueue (s : MsgSys n r) (handle : Option QHandle) :
    (s.msgQueueDeinit handle).svrQueue = s.svrQueue := by
  cases handle <;> rfl

@[simp] theorem msgQueueDeinit_queues_self (s : MsgSys n r) (h : QHandle) :
    (s.msgQueueDeinit (some h)).queues h = none := by
  simp [msgQueueDeinit]

/-- Only the destroyed queue goes away. -/
theorem msgQueueDeinit_queues_ne (s : MsgSys n r) {handle : Option QHandle} {h : QHandle}
    (hne : handle ≠ some h) : (s.msgQueueDeinit handle).queues h = s.queues h := by
  cases handle with
  | none => rfl
  | some h' =>
      have : h ≠ h' := fun e => hne (by rw [e])
      simp [msgQueueDeinit, this]

/-- `addTaskData` touches nothing but the list of task data. -/
theorem addTaskData_frame (s : MsgSys n r) (k : TaskId) (mallocHead mallocNode : Bool) :
    ∃ entries, (s.addTaskData k mallocHead mallocNode).2 = { s with gTaskData := entries } := by
  unfold addTaskData
  split
  · exact ⟨s.gTaskData, rfl⟩
  · dsimp only
    split
    · exact ⟨_, rfl⟩
    · split
      · exact ⟨_, rfl⟩
      · exact ⟨_, rfl⟩

/-- `delTaskData` touches nothing but the list of task data. -/
theorem delTaskData_frame (s : MsgSys n r) (k : TaskId) :
    ∃ entries, (s.delTaskData k).2 = { s with gTaskData := entries } := by
  unfold delTaskData
  split
  · exact ⟨s.gTaskData, rfl⟩
  · exact ⟨_, rfl⟩

/-- Everything `VTOP_MSG_RegisterX` can do, in terms of its sections. -/
theorem vtopMsgRegisterX_outcome {s s₁ : MsgSys n r} {taskName : CString} {owner : TaskOwner}
    {alloc : RegisterMalloc} {k : TaskId}
    (hadd : s.taskTabAdd2 taskName owner alloc.queue = (k, s₁)) :
    (∃ e, s.vtopMsgRegisterX taskName owner alloc = (.error e, s)) ∨
    s.vtopMsgRegisterX taskName owner alloc = (.error .taskFull, s₁) ∨
    (k ≠ vtopInvalidTaskId ∧ ∃ entries,
      s.vtopMsgRegisterX taskName owner alloc = (.ok k, { s₁ with gTaskData := entries })) ∨
    (k ≠ vtopInvalidTaskId ∧ ∃ entries e,
      s.vtopMsgRegisterX taskName owner alloc =
        (.error e, (({ s₁ with gTaskData := entries } : MsgSys n r).taskTabDel k).2)) := by
  unfold vtopMsgRegisterX
  split
  · exact Or.inl ⟨_, rfl⟩
  split
  · exact Or.inl ⟨_, rfl⟩
  right
  simp only [hadd]
  split
  · exact Or.inl rfl
  rename_i hid
  right
  obtain ⟨entries, hdata⟩ := s₁.addTaskData_frame k alloc.dataHead alloc.dataNode
  generalize s₁.addTaskData k alloc.dataHead alloc.dataNode = data at hdata
  obtain ⟨ret, s₂⟩ := data
  obtain rfl : s₂ = { s₁ with gTaskData := entries } := hdata
  cases ret with
  | ok => exact Or.inl ⟨hid, entries, rfl⟩
  | err e =>
      right
      refine ⟨hid, entries, ?_⟩
      dsimp only
      generalize MsgSys.taskTabDel _ k = del
      obtain ⟨ret, s₃⟩ := del
      cases ret with
      | ok => exact ⟨.general, rfl⟩
      | err e => exact ⟨e, rfl⟩

/-! ## Queues belong to rows -/

/-- Every handle in the task table is the handle of a live queue of its own, and
the queue of the server belongs to no row. -/
structure HandlesOk (s : MsgSys n r) : Prop where
  live : ∀ i h, (s.taskMng.tab i).handle = some h → (s.queues h).isSome = true
  unique : ∀ i j h, (s.taskMng.tab i).handle = some h →
    (s.taskMng.tab j).handle = some h → i = j
  free : ∀ i, (s.taskMng.tab i).taskId = vtopInvalidTaskId → (s.taskMng.tab i).handle = none
  fresh : ∀ h, (s.queues h).isSome = true → h < s.nextQueue
  svrLive : (s.queues s.svrQueue).isSome = true
  svrOwn : ∀ i, (s.taskMng.tab i).handle ≠ some s.svrQueue
  counter : s.taskMng.counterTaskId ≤ vtopMaxTaskId

theorem handlesOk_init (svr : MsgQueue) : (init n r svr).HandlesOk where
  live := by simp [init, taskTabInit, taskTabInitUnit]
  unique := by simp [init, taskTabInit, taskTabInitUnit]
  free := fun _ _ => rfl
  fresh := by
    intro h hlive
    by_cases hh : h = 0
    · subst hh
      exact Nat.one_pos
    · simp [init, hh] at hlive
  svrLive := by simp [init]
  svrOwn := by simp [init, taskTabInit, taskTabInitUnit]
  counter := by simp [init, taskTabInit]

/-- The task data and the subscriptions have no part in it. -/
theorem HandlesOk.congr {s s' : MsgSys n r} (hs : s.HandlesOk)
    (htask : s'.taskMng = s.taskMng) (hqueues : s'.queues = s.queues)
    (hnext : s'.nextQueue = s.nextQueue) (hsvr : s'.svrQueue = s.svrQueue) : s'.HandlesOk where
  live := by rw [htask, hqueues]; exact hs.live
  unique := by rw [htask]; exact hs.unique
  free := by rw [htask]; exact hs.free
  fresh := by rw [hqueues, hnext]; exact hs.fresh
  svrLive := by rw [hqueues, hsvr]; exact hs.svrLive
  svrOwn := by rw [htask, hsvr]; exact hs.svrOwn
  counter := by rw [htask]; exact hs.counter

/-- A handle in the table is not the one `malloc` returns next. -/
theorem HandlesOk.ne_next {s : MsgSys n r} (hs : s.HandlesOk) {i : Fin n} {h : QHandle}
    (hh : (s.taskMng.tab i).handle = some h) : h ≠ s.nextQueue :=
  Nat.ne_of_lt (hs.fresh h (hs.live i h hh))

theorem HandlesOk.taskTabAdd2 {s : MsgSys n r} (hs : s.HandlesOk) (taskName : CString)
    (owner : TaskOwner) (alloc : QueueMalloc) :
    (s.taskTabAdd2 taskName owner alloc).2.HandlesOk := by
  rcases s.taskTabAdd2_cases taskName owner alloc with
    ⟨-, heq⟩ | ⟨index, newQueue, -, hfree, -, heq⟩
  · rw [heq]
    exact hs
  rw [heq]
  have hnone := hs.free index hfree
  have hsvr : s.svrQueue ≠ s.nextQueue := Nat.ne_of_lt (hs.fresh _ hs.svrLive)
  have hold : ∀ i h, i ≠ index → (Function.update s.taskMng.tab index
      (s.taskMng.newRow index taskName owner (newQueue.map fun _ => s.nextQueue)) i).handle =
        some h → (s.taskMng.tab i).handle = some h := by
    intro i h hi hh
    rwa [Function.update_of_ne hi] at hh
  cases newQueue with
  | none =>
      -- the row has no queue: the handles are the old ones
      have hrow : ∀ i, (Function.update s.taskMng.tab index
          (s.taskMng.newRow index taskName owner none) i).handle = (s.taskMng.tab i).handle := by
        intro i
        by_cases hi : i = index
        · subst hi
          simp [TaskMng.newRow]
        · rw [Function.update_of_ne hi]
      constructor
      · intro i h hh
        exact hs.live i h ((hrow i).symm.trans hh)
      · intro i j h hi hj
        exact hs.unique i j h ((hrow i).symm.trans hi) ((hrow j).symm.trans hj)
      · intro i hi
        show (Function.update s.taskMng.tab index
          (s.taskMng.newRow index taskName owner none) i).handle = none
        rw [hrow i]
        by_cases hii : i = index
        · rw [hii, hnone]
        · refine hs.free i ?_
          simpa [Function.update_of_ne hii] using hi
      · exact hs.fresh
      · exact hs.svrLive
      · intro i hi
        exact hs.svrOwn i ((hrow i).symm.trans hi)
      · exact nextTaskId_le hs.counter
  | some q =>
      have hself : (Function.update s.taskMng.tab index
          (s.taskMng.newRow index taskName owner (some s.nextQueue)) index).handle =
            some s.nextQueue := by
        simp [TaskMng.newRow]
      constructor
      · intro i h hh
        show ((Function.update s.queues s.nextQueue (some q)) h).isSome = true
        by_cases hi : i = index
        · subst hi
          obtain rfl := Option.some.inj (hself.symm.trans hh)
          simp
        · have hold' := hold i h hi hh
          rw [Function.update_of_ne (hs.ne_next hold')]
          exact hs.live i h hold'
      · intro i j h hhi hhj
        by_cases hi : i = index
        · subst hi
          obtain rfl := Option.some.inj (hself.symm.trans hhi)
          by_contra hij
          exact hs.ne_next (hold j _ (Ne.symm hij) hhj) rfl
        · by_cases hj : j = index
          · subst hj
            obtain rfl := Option.some.inj (hself.symm.trans hhj)
            exact absurd rfl (hs.ne_next (hold i _ hi hhi))
          · exact hs.unique i j h (hold i h hi hhi) (hold j h hj hhj)
      · intro i hi
        by_cases hii : i = index
        · subst hii
          have hid : s.taskMng.counterTaskId = vtopInvalidTaskId := by
            simpa [TaskMng.newRow] using hi
          exact absurd hid (ne_invalid_of_le hs.counter)
        · show (Function.update s.taskMng.tab index _ i).handle = none
          rw [Function.update_of_ne hii]
          refine hs.free i ?_
          simpa [Function.update_of_ne hii] using hi
      · intro h hh
        show h < s.nextQueue + 1
        by_cases hn : h = s.nextQueue
        · rw [hn]
          exact Nat.lt_succ_self _
        · exact Nat.lt_succ_of_lt (hs.fresh h (by simpa [hn] using hh))
      · show ((Function.update s.queues s.nextQueue (some q)) s.svrQueue).isSome = true
        rw [Function.update_of_ne hsvr]
        exact hs.svrLive
      · intro i hi
        by_cases hii : i = index
        · subst hii
          exact hsvr (Option.some.inj (hself.symm.trans hi)).symm
        · exact hs.svrOwn i (hold i _ hii hi)
      · exact nextTaskId_le hs.counter

theorem HandlesOk.taskTabDel {s : MsgSys n r} (hs : s.HandlesOk) (k : TaskId) :
    (s.taskTabDel k).2.HandlesOk := by
  rcases s.taskTabDel_cases k with ⟨index, -, hid, heq⟩ | ⟨-, heq⟩
  swap
  · rw [heq]
    exact hs
  rw [heq]
  have hold : ∀ i h, (Function.update s.taskMng.tab index taskTabInitUnit i).handle = some h →
      i ≠ index ∧ (s.taskMng.tab i).handle = some h := by
    intro i h hh
    by_cases hi : i = index
    · subst hi
      simp [taskTabInitUnit] at hh
    · exact ⟨hi, by rwa [Function.update_of_ne hi] at hh⟩
  constructor
  · intro i h hh
    obtain ⟨hi, hh⟩ := hold i h hh
    have hne : (s.taskMng.tab index).handle ≠ some h := fun e => hi (hs.unique i index h hh e)
    show ((s.msgQueueDeinit _).queues h).isSome = true
    rw [msgQueueDeinit_queues_ne _ hne]
    exact hs.live i h hh
  · intro i j h hi hj
    exact hs.unique i j h (hold i h hi).2 (hold j h hj).2
  · intro i hi
    show (Function.update s.taskMng.tab index taskTabInitUnit i).handle = none
    by_cases hii : i = index
    · subst hii
      simp [taskTabInitUnit]
    · rw [Function.update_of_ne hii]
      refine hs.free i ?_
      simpa [Function.update_of_ne hii] using hi
  · intro h hh
    show h < (s.msgQueueDeinit _).nextQueue
    rw [msgQueueDeinit_nextQueue]
    refine hs.fresh h ?_
    by_cases hne : (s.taskMng.tab index).handle = some h
    · change ((s.msgQueueDeinit (s.taskMng.tab index).handle).queues h).isSome = true at hh
      rw [hne, msgQueueDeinit_queues_self] at hh
      cases hh
    · rwa [← msgQueueDeinit_queues_ne s hne]
  · show ((s.msgQueueDeinit _).queues (s.msgQueueDeinit _).svrQueue).isSome = true
    rw [msgQueueDeinit_svrQueue, msgQueueDeinit_queues_ne _ (hs.svrOwn index)]
    exact hs.svrLive
  · intro i hi
    refine hs.svrOwn i ?_
    rw [← msgQueueDeinit_svrQueue s (s.taskMng.tab index).handle]
    exact (hold i _ hi).2
  · exact hs.counter

end MsgSys
end Msg
end AndroidLinux
