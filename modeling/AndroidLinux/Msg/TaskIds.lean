import AndroidLinux.Msg.Registration

/-!
# Task ids over long runs

`TASK_TAB_Add2` takes the id of a new task from a counter that starts again at zero
after `VTOP_MAX_TASK_ID`, and does not look whether the id is still in use.  This module
follows sequential runs of `VTOP_MSG_Register` and `VTOP_MSG_UnRegister` of any length.

Beside the tables the state records which registrations were successful and not undone
since, each with its id and with the queue that was made for it.  `IdsUnique` says that
the tables agree with this record.  It holds along every run in which the counter never
meets an id that is in use, and a run in which it does loses the queue of a task.
-/

namespace AndroidLinux
namespace Msg
namespace TaskIds

open Lib

variable {n r : Nat}

/-- The message system and the tasks that are registered, each with its queue. -/
structure State (n r : Nat) where
  sys : MsgSys n r
  tasks : List (TaskId × QHandle)

/-- The two calls. -/
inductive Act
  | register (taskName : CString) (alloc : RegisterMalloc)
  | unRegister (taskId : TaskId) (mallocList : Bool)

/-- What a call of `VTOP_MSG_Register` that returned `ret` adds to the record. -/
def registered (s : State n r) (ret : Except MsgErr TaskId) : List (TaskId × QHandle) :=
  match ret with
  | .ok taskId => (taskId, s.sys.nextQueue) :: s.tasks
  | .error _ => s.tasks

/-- What a call of `VTOP_MSG_UnRegister` that returned `ret` leaves of the record. -/
def unRegistered (s : State n r) (taskId : TaskId) (ret : Ret) : List (TaskId × QHandle) :=
  if ret = .ok then s.tasks.filter fun t => t.1 ≠ taskId else s.tasks

/-- One call. -/
def step (s : State n r) : Act → Option (State n r)
  | .register taskName alloc =>
      let res := s.sys.vtopMsgRegister taskName alloc
      some ⟨res.2, registered s res.1⟩
  | .unRegister taskId mallocList =>
      let res := s.sys.vtopMsgUnRegister taskId mallocList
      some ⟨res.2, unRegistered s taskId res.1⟩

/-- Sequential runs from the state `VTOP_MSG_Main` leaves. -/
def machine (n r : Nat) : Machine (State n r) Act where
  init := fun s => ∃ svr alloc pool,
    msgQueueInit msgDefaultQueueSize alloc pool = some svr ∧ s = ⟨MsgSys.init n r svr, []⟩
  step := step

/-- Registered tasks have different and valid ids, and each id leads to the queue of
its task and of no other. -/
structure IdsUnique (s : State n r) : Prop where
  rows : ∀ i j, s.sys.taskMng.Used i →
    (s.sys.taskMng.tab i).taskId = (s.sys.taskMng.tab j).taskId → i = j
  valid : ∀ i, s.sys.taskMng.Used i → (s.sys.taskMng.tab i).taskId ≤ vtopMaxTaskId
  ids : (s.tasks.map Prod.fst).Nodup
  queues : (s.tasks.map Prod.snd).Nodup
  handle : ∀ k h, (k, h) ∈ s.tasks → s.sys.taskMng.getHandle k = some h

/-- A registration that gets as far as taking an id finds the id unused. -/
def CounterUnused (s : State n r) : Act → Prop
  | .register taskName _ =>
      taskName.strlen < vtopMsgMaxTaskNameLen → s.sys.taskMng.isTaskExist taskName = false →
        s.sys.taskMng.freeRow ≠ none →
          ∀ i, (s.sys.taskMng.tab i).taskId ≠ s.sys.taskMng.counterTaskId
  | .unRegister _ _ => True

/-! ## The rows -/

/-- The rows in use have different ids in the range of the counter. -/
structure Distinct (t : TaskMng n) : Prop where
  counter : t.counterTaskId ≤ vtopMaxTaskId
  valid : ∀ i, t.Used i → (t.tab i).taskId ≤ vtopMaxTaskId
  unique : ∀ i j, t.Used i → (t.tab i).taskId = (t.tab j).taskId → i = j

theorem Distinct.add {t : TaskMng n} (h : Distinct t) {index : Fin n} {row : TaskRow}
    (hrow : row.taskId = t.counterTaskId)
    (hunused : ∀ i, (t.tab i).taskId ≠ t.counterTaskId) :
    Distinct
      { tab := Function.update t.tab index row
        counterTaskId := nextTaskId t.counterTaskId } := by
  constructor
  · exact nextTaskId_le h.counter
  · intro i hused
    unfold TaskMng.Used at hused
    dsimp only at hused ⊢
    by_cases hi : i = index
    · subst hi
      rw [Function.update_self, hrow]
      exact h.counter
    · rw [Function.update_of_ne hi] at hused ⊢
      exact h.valid i hused
  · intro i j hused heq
    unfold TaskMng.Used at hused
    dsimp only at hused heq
    by_cases hi : i = index
    · by_cases hj : j = index
      · rw [hi, hj]
      · rw [hi, Function.update_self, Function.update_of_ne hj, hrow] at heq
        exact absurd heq.symm (hunused j)
    · rw [Function.update_of_ne hi] at hused heq
      by_cases hj : j = index
      · rw [hj, Function.update_self, hrow] at heq
        exact absurd heq (hunused i)
      · rw [Function.update_of_ne hj] at heq
        exact h.unique i j hused heq

theorem Distinct.del {t : TaskMng n} (h : Distinct t) (index : Fin n) :
    Distinct { t with tab := Function.update t.tab index taskTabInitUnit } := by
  have hkept : ∀ i, TaskMng.Used { t with tab := Function.update t.tab index taskTabInitUnit } i →
      i ≠ index := by
    intro i hused hi
    unfold TaskMng.Used at hused
    dsimp only at hused
    rw [hi, Function.update_self] at hused
    exact hused rfl
  constructor
  · exact h.counter
  · intro i hused
    have hi := hkept i hused
    unfold TaskMng.Used at hused
    dsimp only at hused ⊢
    rw [Function.update_of_ne hi] at hused ⊢
    exact h.valid i hused
  · intro i j hused heq
    have hi := hkept i hused
    unfold TaskMng.Used at hused
    dsimp only at hused heq
    rw [Function.update_of_ne hi] at hused heq
    by_cases hj : j = index
    · rw [hj, Function.update_self] at heq
      exact absurd heq hused
    · rw [Function.update_of_ne hj] at heq
      exact h.unique i j hused heq

/-- An id in use is found in its own row. -/
theorem Distinct.getHandle_eq {t : TaskMng n} (h : Distinct t) {i : Fin n} (hused : t.Used i) :
    t.getHandle (t.tab i).taskId = (t.tab i).handle := by
  unfold TaskMng.getHandle
  cases hfind : t.findId (t.tab i).taskId with
  | none => exact absurd rfl (TaskMng.findId_eq_none_iff.mp hfind i)
  | some j =>
      have hj := TaskMng.findId_eq_some hfind
      rw [h.unique i j hused hj.symm]

/-! ## The calls in terms of the rows -/

theorem delSubs_frame (s : MsgSys n r) (k : TaskId) (types : List MsgType) :
    ∃ ret tab, s.delSubs k types = (ret, { s with subTab := tab }) := by
  induction types generalizing s with
  | nil => exact ⟨.ok, s.subTab, rfl⟩
  | cons t rest ih =>
      unfold MsgSys.delSubs
      generalize s.subTab.del s.taskMng t k = res
      obtain ⟨ret, tab⟩ := res
      cases ret with
      | ok => exact ih { s with subTab := tab }
      | err e => exact ⟨.err e, tab, rfl⟩

theorem delTaskData_ok {s : MsgSys n r} {k : TaskId} (h : s.hasTaskData k = true) :
    (s.delTaskData k).1 = .ok := by
  unfold MsgSys.hasTaskData at h
  unfold MsgSys.delTaskData
  cases hdata : s.gTaskData with
  | none => simp [hdata] at h
  | some entries =>
      rw [hdata, Option.getD_some, decide_eq_true_eq] at h
      simp [h]

/-- `VTOP_MSG_UnRegister` fails and leaves the task table as it is, or it succeeds and
clears the first row with the id. -/
theorem unRegister_rows (s : MsgSys n r) (k : TaskId) (mallocList : Bool) :
    (s.vtopMsgUnRegister k mallocList).2.nextQueue = s.nextQueue ∧
    (((s.vtopMsgUnRegister k mallocList).1 ≠ .ok ∧
        (s.vtopMsgUnRegister k mallocList).2.taskMng = s.taskMng) ∨
      ((s.vtopMsgUnRegister k mallocList).1 = .ok ∧ ∃ index, s.taskMng.findId k = some index ∧
        (s.vtopMsgUnRegister k mallocList).2.taskMng =
          { s.taskMng with tab := Function.update s.taskMng.tab index taskTabInitUnit })) := by
  unfold MsgSys.vtopMsgUnRegister
  split
  · simp
  split
  · simp
  rename_i hexist
  split
  · simp
  rename_i hdata
  split
  · simp
  obtain ⟨ret, tab, hsubs⟩ := delSubs_frame s k (s.unRegisterList k)
  rw [hsubs]
  cases ret with
  | err e => simp
  | ok =>
      obtain ⟨index, hfind, -, hdel⟩ | ⟨hfind, -⟩ :=
        ({ s with subTab := tab } : MsgSys n r).taskTabDel_cases k
      · simp only [hdel]
        set s₂ : MsgSys n r :=
          { ({ s with subTab := tab } : MsgSys n r).msgQueueDeinit (s.taskMng.tab index).handle with
            taskMng := { s.taskMng with
              tab := Function.update s.taskMng.tab index taskTabInitUnit } } with hs₂
        -- closing the queue does not touch the task data
        have hlist : s₂.gTaskData = s.gTaskData := by
          rw [hs₂]
          cases (s.taskMng.tab index).handle <;> rfl
        have hok : (s₂.delTaskData k).1 = .ok := by
          apply delTaskData_ok
          unfold MsgSys.hasTaskData at hdata ⊢
          rw [hlist]
          simpa using hdata
        obtain ⟨entries, hframe⟩ := s₂.delTaskData_frame k
        generalize s₂.delTaskData k = res at hok hframe
        obtain ⟨ret, s₃⟩ := res
        obtain rfl : ret = .ok := hok
        obtain rfl : s₃ = { s₂ with gTaskData := entries } := hframe
        constructor
        · change s₂.nextQueue = s.nextQueue
          rw [hs₂]
          simp
        · exact Or.inr ⟨rfl, index, hfind, rfl⟩
      · have hnone : s.taskMng.isTaskIdExist k = false := by
          unfold TaskMng.isTaskIdExist
          rw [show s.taskMng.findId k = none from hfind]
          rfl
        exact absurd hnone hexist

/-- The table after `TASK_TAB_Add2` wrote a row. -/
def filled (t : TaskMng n) (index : Fin n) (row : TaskRow) : TaskMng n where
  tab := Function.update t.tab index row
  counterTaskId := nextTaskId t.counterTaskId

/-- The registration gets as far as taking an id: the name passes the checks and there
is a free row. -/
structure TakesId (s : MsgSys n r) (taskName : CString) (index : Fin n) (row : TaskRow) :
    Prop where
  short : taskName.strlen < vtopMsgMaxTaskNameLen
  newName : s.taskMng.isTaskExist taskName = false
  free : s.taskMng.freeRow = some index
  id : row.taskId = s.taskMng.counterTaskId

/-- What `VTOP_MSG_Register` can do to the rows: nothing, fill a row, or fill a row and
clear the first row with its id. -/
inductive Registers (s : MsgSys n r) (taskName : CString) :
    Except MsgErr TaskId → MsgSys n r → Prop
  | refused (e : MsgErr) : Registers s taskName (.error e) s
  | failed (e : MsgErr) {index : Fin n} {row : TaskRow} {s' : MsgSys n r}
      (htakes : TakesId s taskName index row) (htab : s'.taskMng = filled s.taskMng index row)
      (hnext : s.nextQueue ≤ s'.nextQueue) : Registers s taskName (.error e) s'
  | undone (e : MsgErr) {index first : Fin n} {row : TaskRow} {s' : MsgSys n r}
      (htakes : TakesId s taskName index row)
      (hfirst : (filled s.taskMng index row).findId s.taskMng.counterTaskId = some first)
      (htab : s'.taskMng = { filled s.taskMng index row with
        tab := Function.update (filled s.taskMng index row).tab first taskTabInitUnit })
      (hnext : s'.nextQueue = s.nextQueue + 1) : Registers s taskName (.error e) s'
  | added {index : Fin n} {row : TaskRow} {s' : MsgSys n r}
      (htakes : TakesId s taskName index row) (hhandle : row.handle = some s.nextQueue)
      (htab : s'.taskMng = filled s.taskMng index row)
      (hnext : s'.nextQueue = s.nextQueue + 1) :
      Registers s taskName (.ok s.taskMng.counterTaskId) s'

theorem register_outcome (s : MsgSys n r) (taskName : CString) (alloc : RegisterMalloc) :
    Registers s taskName (s.vtopMsgRegister taskName alloc).1
      (s.vtopMsgRegister taskName alloc).2 := by
  by_cases hlong : vtopMsgMaxTaskNameLen ≤ taskName.strlen
  · simp only [MsgSys.vtopMsgRegister, MsgSys.vtopMsgRegisterX, if_pos hlong]
    exact .refused _
  by_cases hexist : s.taskMng.isTaskExist taskName = true
  · simp only [MsgSys.vtopMsgRegister, MsgSys.vtopMsgRegisterX, if_neg hlong, if_pos hexist]
    exact .refused _
  have hnew : s.taskMng.isTaskExist taskName = false := by simpa using hexist
  rcases s.taskTabAdd2_cases taskName .task alloc.queue with
    ⟨-, hadd⟩ | ⟨index, newQueue, hfree, -, -, hadd⟩
  · simp only [MsgSys.vtopMsgRegister, MsgSys.vtopMsgRegisterX, if_neg hlong, if_neg hexist, hadd,
      if_true]
    exact .refused _
  have htakes : ∀ q, TakesId s taskName index (s.taskMng.newRow index taskName .task q) :=
    fun q => ⟨Nat.not_le.mp hlong, hnew, hfree, rfl⟩
  cases newQueue with
  | none =>
      -- the row stays, with the id and without a queue
      simp only [MsgSys.vtopMsgRegister, MsgSys.vtopMsgRegisterX, if_neg hlong, if_neg hexist, hadd,
        Option.isSome_none, Bool.false_eq_true, if_false, if_true]
      exact .failed _ (htakes _) rfl le_rfl
  | some q =>
      rcases MsgSys.vtopMsgRegisterX_outcome hadd with ⟨e, heq⟩ | heq | ⟨-, entries, heq⟩ |
          ⟨hid, entries, e, heq⟩
      · simp only [MsgSys.vtopMsgRegister, heq]
        exact .refused e
      · simp only [MsgSys.vtopMsgRegister, heq, Option.isSome_some, if_true]
        exact .failed _ (htakes (some s.nextQueue)) rfl (Nat.le_succ _)
      · simp only [MsgSys.vtopMsgRegister, heq, Option.isSome_some, if_true]
        exact .added (htakes (some s.nextQueue)) rfl rfl rfl
      · simp only [MsgSys.vtopMsgRegister, heq]
        obtain ⟨first, hfind, -, hdel⟩ | ⟨hfind, -⟩ := MsgSys.taskTabDel_cases
          ({ s with
              taskMng := filled s.taskMng index
                (s.taskMng.newRow index taskName .task (some s.nextQueue))
              queues := Function.update s.queues s.nextQueue (some q)
              nextQueue := s.nextQueue + 1
              gTaskData := entries } : MsgSys n r) s.taskMng.counterTaskId
        · refine .undone e (htakes (some s.nextQueue)) hfind ?_ ?_
          · exact congrArg (fun res => MsgSys.taskMng (Prod.snd res)) hdel
          · refine (congrArg (fun res => MsgSys.nextQueue (Prod.snd res)) hdel).trans ?_
            simp
        · have hself := TaskMng.findId_eq_none_iff.mp hfind index
          simp [filled, TaskMng.newRow] at hself

/-! ## Runs -/

/-- The rows are distinct and every registered task has a row with its queue. -/
structure Inv (s : State n r) : Prop where
  distinct : Distinct s.sys.taskMng
  owned : ∀ k h, (k, h) ∈ s.tasks → ∃ i, s.sys.taskMng.Used i ∧
    (s.sys.taskMng.tab i).taskId = k ∧ (s.sys.taskMng.tab i).handle = some h
  older : ∀ k h, (k, h) ∈ s.tasks → h < s.sys.nextQueue
  ids : (s.tasks.map Prod.fst).Nodup
  queues : (s.tasks.map Prod.snd).Nodup

theorem Inv.idsUnique {s : State n r} (h : Inv s) : IdsUnique s where
  rows := h.distinct.unique
  valid := h.distinct.valid
  ids := h.ids
  queues := h.queues
  handle := by
    intro k q hmem
    obtain ⟨i, hused, rfl, hq⟩ := h.owned k q hmem
    rw [h.distinct.getHandle_eq hused, hq]

theorem inv_init (svr : MsgQueue) : Inv (⟨MsgSys.init n r svr, []⟩ : State n r) where
  distinct :=
    { counter := by simp [MsgSys.init, taskTabInit]
      valid := fun _ hused => absurd rfl hused
      unique := fun _ _ hused => absurd rfl hused }
  owned := by simp
  older := by simp
  ids := List.nodup_nil
  queues := List.nodup_nil

/-- A row that is free is not the row of a registered task. -/
theorem TakesId.ne_of_used {s : MsgSys n r} {taskName : CString} {index i : Fin n} {row : TaskRow}
    (h : TakesId s taskName index row) (hused : s.taskMng.Used i) : i ≠ index := by
  rintro rfl
  exact hused (TaskMng.findId_eq_some h.free)

/-- A change of the table that keeps the rows of the registered tasks keeps the
invariant. -/
theorem Inv.keep {s : State n r} (h : Inv s) {sys : MsgSys n r} (hdistinct : Distinct sys.taskMng)
    (hrows : ∀ i, s.sys.taskMng.Used i → sys.taskMng.tab i = s.sys.taskMng.tab i)
    (hnext : s.sys.nextQueue ≤ sys.nextQueue) : Inv ⟨sys, s.tasks⟩ where
  distinct := hdistinct
  owned := by
    intro k q hmem
    obtain ⟨i, hused, hid, hq⟩ := h.owned k q hmem
    refine ⟨i, ?_, ?_, ?_⟩
    · unfold TaskMng.Used
      dsimp only
      rw [hrows i hused]
      exact hused
    · dsimp only
      rw [hrows i hused, hid]
    · dsimp only
      rw [hrows i hused, hq]
  older := fun k q hmem => (h.older k q hmem).trans_le hnext
  ids := h.ids
  queues := h.queues

theorem Inv.register {s : State n r} (h : Inv s) {taskName : CString} {alloc : RegisterMalloc}
    (hunused : CounterUnused s (.register taskName alloc)) :
    Inv ⟨(s.sys.vtopMsgRegister taskName alloc).2,
      registered s (s.sys.vtopMsgRegister taskName alloc).1⟩ := by
  have hfresh : ∀ {index row}, TakesId s.sys taskName index row →
      ∀ i, (s.sys.taskMng.tab i).taskId ≠ s.sys.taskMng.counterTaskId := by
    intro index row htakes
    apply hunused htakes.short htakes.newName
    rw [htakes.free]
    simp
  have houtcome := register_outcome s.sys taskName alloc
  generalize (s.sys.vtopMsgRegister taskName alloc).1 = ret at houtcome
  generalize (s.sys.vtopMsgRegister taskName alloc).2 = sys at houtcome
  cases houtcome with
  | refused e => exact h
  | @failed e index row _ htakes htab hnext =>
      apply h.keep _ _ hnext
      · rw [htab]
        exact h.distinct.add htakes.id (hfresh htakes)
      · intro i hused
        rw [htab]
        exact Function.update_of_ne (htakes.ne_of_used hused) _ _
  | @undone e index first row _ htakes hfirst htab hnext =>
      -- the only row with the new id is the new row
      have hfilled : Distinct
          { tab := Function.update s.sys.taskMng.tab index row
            counterTaskId := nextTaskId s.sys.taskMng.counterTaskId } :=
        h.distinct.add htakes.id (hfresh htakes)
      have hself : first = index := by
        by_contra hne
        have hid := TaskMng.findId_eq_some hfirst
        change (Function.update s.sys.taskMng.tab index row first).taskId = _ at hid
        rw [Function.update_of_ne hne] at hid
        exact hfresh htakes first hid
      subst hself
      apply h.keep
      · rw [htab]
        exact hfilled.del first
      · intro i hused
        have hne := htakes.ne_of_used hused
        rw [htab]
        change Function.update (Function.update s.sys.taskMng.tab first row) first _ i = _
        rw [Function.update_of_ne hne, Function.update_of_ne hne]
      · rw [hnext]
        exact Nat.le_succ _
  | @added index row _ htakes hhandle htab hnext =>
      have hkeep : Inv ⟨sys, s.tasks⟩ := by
        apply h.keep
        · rw [htab]
          exact h.distinct.add htakes.id (hfresh htakes)
        · intro i hused
          rw [htab]
          exact Function.update_of_ne (htakes.ne_of_used hused) _ _
        · rw [hnext]
          exact Nat.le_succ _
      have hrow : sys.taskMng.tab index = row := by
        rw [htab]
        exact Function.update_self _ _ _
      refine ⟨hkeep.distinct, ?_, ?_, ?_, ?_⟩
      · intro k q hmem
        rcases List.mem_cons.mp hmem with heq | hold
        · obtain ⟨rfl, rfl⟩ := Prod.mk.inj heq
          refine ⟨index, ?_, by rw [hrow, htakes.id], by rw [hrow, hhandle]⟩
          unfold TaskMng.Used
          dsimp only
          rw [hrow, htakes.id]
          exact ne_invalid_of_le h.distinct.counter
        · exact hkeep.owned k q hold
      · intro k q hmem
        rcases List.mem_cons.mp hmem with heq | hold
        · obtain ⟨rfl, rfl⟩ := Prod.mk.inj heq
          dsimp only
          rw [hnext]
          exact Nat.lt_succ_self _
        · exact hkeep.older k q hold
      · refine List.nodup_cons.mpr ⟨?_, h.ids⟩
        intro hmem
        obtain ⟨⟨k, q⟩, hin, hk⟩ := List.mem_map.mp hmem
        obtain ⟨i, -, hid, -⟩ := h.owned k q hin
        exact hfresh htakes i (hid.trans hk)
      · refine List.nodup_cons.mpr ⟨?_, h.queues⟩
        intro hmem
        obtain ⟨⟨k, q⟩, hin, hq⟩ := List.mem_map.mp hmem
        exact absurd hq (Nat.ne_of_lt (h.older k q hin))

theorem Inv.unRegister {s : State n r} (h : Inv s) (k : TaskId) (mallocList : Bool) :
    Inv ⟨(s.sys.vtopMsgUnRegister k mallocList).2,
      unRegistered s k (s.sys.vtopMsgUnRegister k mallocList).1⟩ := by
  obtain ⟨hnext, ⟨hret, htab⟩ | ⟨hret, index, hfind, htab⟩⟩ := unRegister_rows s.sys k mallocList
  · unfold unRegistered
    rw [if_neg hret]
    apply h.keep _ _ (le_of_eq hnext.symm)
    · rw [htab]
      exact h.distinct
    · intro i _
      rw [htab]
  · have hid := TaskMng.findId_eq_some hfind
    have hsub : ((s.tasks.filter fun t => t.1 ≠ k)).Sublist s.tasks := List.filter_sublist
    unfold unRegistered
    rw [if_pos hret]
    refine ⟨?_, ?_, ?_, ?_, ?_⟩
    · rw [htab]
      exact h.distinct.del index
    · intro k' q hmem
      obtain ⟨hin, hne⟩ := List.mem_filter.mp hmem
      obtain ⟨i, hused, hid', hq⟩ := h.owned k' q hin
      have hi : i ≠ index := by
        rintro rfl
        rw [hid] at hid'
        simp [hid'] at hne
      have hrow : ((s.sys.vtopMsgUnRegister k mallocList).2.taskMng.tab i) =
          s.sys.taskMng.tab i := by
        rw [htab]
        exact Function.update_of_ne hi _ _
      refine ⟨i, ?_, ?_, ?_⟩
      · unfold TaskMng.Used
        dsimp only
        rw [hrow]
        exact hused
      · dsimp only
        rw [hrow, hid']
      · dsimp only
        rw [hrow, hq]
    · intro k' q hmem
      dsimp only
      rw [hnext]
      exact h.older k' q (List.mem_filter.mp hmem).1
    · exact h.ids.sublist (hsub.map _)
    · exact h.queues.sublist (hsub.map _)

/-- Along every sequential run in which the counter never meets an id in use, the ids
are unique and lead to the queues of their tasks. -/
theorem idsUnique_of_counterUnused (n r : Nat) (s : State n r)
    (hreach : (machine n r).ReachWhen CounterUnused s) : IdsUnique s := by
  have hinv : Inv s := by
    refine hreach.invariant (I := Inv) ?_ ?_
    · rintro s ⟨svr, alloc, pool, -, rfl⟩
      exact inv_init svr
    · intro s a s' hinv hguard hstep
      cases a with
      | register taskName alloc =>
          obtain rfl := Option.some.inj hstep
          exact hinv.register hguard
      | unRegister k mallocList =>
          obtain rfl := Option.some.inj hstep
          exact hinv.unRegister k mallocList
  exact hinv.idsUnique

/-- A test for `CounterUnused`. -/
def counterFree (s : State n r) : Act → Bool
  | .register _ _ => decide (∀ i, (s.sys.taskMng.tab i).taskId ≠ s.sys.taskMng.counterTaskId)
  | .unRegister _ _ => true

theorem counterFree_sound (s : State n r) (a : Act) (h : counterFree s a = true) :
    CounterUnused s a := by
  cases a with
  | register taskName alloc => exact fun _ _ _ => of_decide_eq_true h
  | unRegister taskId mallocList => trivial

/-- Two tasks register, the first one goes away and comes again. -/
def comesAgain : State 2 1 :=
  ((machine 2 1).runWhen counterFree ⟨MsgSys.init 2 1 .freshQueue, []⟩
    [.register nameA Registration.allGranted, .register nameB Registration.allGranted,
      .unRegister 0 true, .register nameA Registration.allGranted]).get (by decide +kernel)

theorem idsUnique_of_counterUnused_comesAgain :
    comesAgain.tasks = [(2, 3), (1, 2)] ∧ IdsUnique comesAgain := by
  refine ⟨by decide +kernel, idsUnique_of_counterUnused 2 1 _ ?_⟩
  refine Machine.reachWhen_of_runWhen counterFree_sound _ (.init ?_) (Option.some_get _).symm
  exact ⟨.freshQueue, true, fun _ => true, MsgQueue.msgQueueInit_freshQueue, rfl⟩

/-! ## A counter that comes round -/

/-- The row of the task `"a"`. -/
def rowA : TaskRow where
  taskName := nameA
  taskId := 0
  owner := .task
  msgtype := vtopInvalidMsgType
  handle := some 1

/-- The task `"a"` is registered with the id 0, nobody else is, and the next id is `c`. -/
structure Waiting (s : State 2 1) (c : TaskId) : Prop where
  first : s.sys.taskMng.tab 0 = rowA
  second : s.sys.taskMng.tab 1 = taskTabInitUnit
  counter : s.sys.taskMng.counterTaskId = c
  subs : s.sys.subTab = SubTab.init 1 2
  data : s.sys.gTaskData = some [0]
  next : 1 < s.sys.nextQueue
  tasks : s.tasks = [(0, 1)]

/-- The row the task `"b"` gets. -/
def rowB (c : TaskId) (h : QHandle) : TaskRow where
  taskName := nameB
  taskId := c
  owner := .task
  msgtype := vtopInvalidMsgType
  handle := some h

/-- The system with the task `"b"` in the second row. -/
def withB (s : State 2 1) (c : TaskId) : MsgSys 2 1 :=
  { s.sys with
    taskMng := filled s.sys.taskMng 1 (rowB c s.sys.nextQueue)
    queues := Function.update s.sys.queues s.sys.nextQueue (some .freshQueue)
    nextQueue := s.sys.nextQueue + 1 }

/-- The system after the task `"b"` left again. -/
def afterB (s : State 2 1) (c : TaskId) : MsgSys 2 1 :=
  { withB s c with
    taskMng := { filled s.sys.taskMng 1 (rowB c s.sys.nextQueue) with
      tab := Function.update (filled s.sys.taskMng 1 (rowB c s.sys.nextQueue)).tab 1
        taskTabInitUnit }
    queues := Function.update (withB s c).queues s.sys.nextQueue none
    gTaskData := some [0] }

section Round

variable {s : State 2 1} {c : TaskId}

/-- `TASK_TAB_Add2` puts the task `"b"` in the second row. -/
theorem Waiting.add2 (h : Waiting s c) :
    s.sys.taskTabAdd2 nameB .task Registration.allGranted.queue = (c, withB s c) := by
  have hqueue : msgQueueInit msgDefaultQueueSize Registration.allGranted.queue.queue
      Registration.allGranted.queue.pool = some MsgQueue.freshQueue :=
    MsgQueue.msgQueueInit_freshQueue
  have hfree : s.sys.taskMng.freeRow = some 1 := by
    unfold TaskMng.freeRow TaskMng.findId
    rw [Fin.find?_eq_some_iff]
    constructor
    · simp [h.second, taskTabInitUnit]
    · intro j hj
      obtain rfl : j = 0 := by omega
      rw [h.first]
      decide
  have hrow : s.sys.taskMng.newRow 1 nameB .task (some s.sys.nextQueue) =
      rowB c s.sys.nextQueue := by
    simp only [TaskMng.newRow, rowB, h.counter, Option.some_or]
    rfl
  unfold MsgSys.taskTabAdd2
  rw [hfree, hqueue]
  simp only [TaskMng.add2, hfree, Option.isSome_some, if_true, hrow]
  simp only [withB, filled, h.counter]

theorem Waiting.newName (h : Waiting s c) : s.sys.taskMng.isTaskExist nameB = false := by
  have hnone : (Fin.find? fun index => CString.strncmpEq vtopMsgMaxTaskNameLen
      (s.sys.taskMng.tab index).taskName nameB) = none := by
    rw [Fin.find?_eq_none_iff]
    intro i
    obtain rfl | rfl : i = 0 ∨ i = 1 := by omega
    · rw [h.first]
      decide
    · rw [h.second]
      decide
  unfold TaskMng.isTaskExist TaskMng.name2Id
  rw [hnone]
  simp

theorem nameB_short : ¬ vtopMsgMaxTaskNameLen ≤ nameB.strlen := by
  decide

/-- With an id other than 0 the task `"b"` is registered. -/
theorem Waiting.register_ok (h : Waiting s c) (hmax : c ≤ vtopMaxTaskId) (hc : c ≠ 0) :
    s.sys.vtopMsgRegister nameB Registration.allGranted =
      (.ok c, { withB s c with gTaskData := some [0, c] }) := by
  have hdata : (withB s c).addTaskData c Registration.allGranted.dataHead
      Registration.allGranted.dataNode =
      (.ok, { withB s c with gTaskData := some [0, c] }) := by
    unfold MsgSys.addTaskData
    rw [show (withB s c).gTaskData = some [0] from h.data]
    simp [hc, Registration.allGranted]
  simp only [MsgSys.vtopMsgRegister, MsgSys.vtopMsgRegisterX, if_neg nameB_short, h.newName,
    Bool.false_eq_true, if_false, h.add2, if_neg (ne_invalid_of_le hmax), hdata]

theorem Waiting.first_of_filled (h : Waiting s c) (row : TaskRow) :
    (filled s.sys.taskMng 1 row).tab 0 = rowA := by
  have hne : (0 : Fin 2) ≠ 1 := by decide
  change Function.update s.sys.taskMng.tab 1 row 0 = rowA
  rw [Function.update_of_ne hne, h.first]

/-- The task `"b"` has registered and leaves again. -/
theorem Waiting.unRegister_ok (h : Waiting s c) (hmax : c ≤ vtopMaxTaskId) (hc : c ≠ 0) :
    MsgSys.vtopMsgUnRegister { withB s c with gTaskData := some [0, c] } c true =
      (.ok, afterB s c) := by
  have hfind : (filled s.sys.taskMng 1 (rowB c s.sys.nextQueue)).findId c = some 1 := by
    unfold TaskMng.findId
    rw [Fin.find?_eq_some_iff]
    constructor
    · simp [filled, rowB]
    · intro j hj
      obtain rfl : j = 0 := by omega
      rw [h.first_of_filled]
      simpa [rowA] using Ne.symm hc
  have hexist : (filled s.sys.taskMng 1 (rowB c s.sys.nextQueue)).isTaskIdExist c = true := by
    unfold TaskMng.isTaskIdExist
    rw [hfind]
    rfl
  have hk : (filled s.sys.taskMng 1 (rowB c s.sys.nextQueue)).Registered c :=
    (TaskMng.isTaskIdExist_iff_registered (ne_invalid_of_le hmax)).mp hexist
  -- no subscription was ever made
  have hlist : MsgSys.unRegisterList { withB s c with gTaskData := some [0, c] } c = [] := by
    obtain ⟨types, htypes, -, hmem⟩ := (SubTab.init_wf 1 2).task2Sub_eq hk
    have hnil : types = [] := by
      apply List.eq_nil_iff_forall_not_mem.mpr
      intro t ht
      rw [hmem, SubTab.rel_init] at ht
      exact absurd ht (Set.notMem_empty _)
    have hsub : (withB s c).subTab.task2Sub (withB s c).taskMng c 1 = .ok [] := by
      change s.sys.subTab.task2Sub (filled s.sys.taskMng 1 (rowB c s.sys.nextQueue)) c 1 = _
      rw [h.subs, htypes, hnil]
    rw [MsgSys.unRegisterList, hsub]
  have hdel : MsgSys.taskTabDel { withB s c with gTaskData := some [0, c] } c =
      (.ok, { withB s c with
        taskMng := { filled s.sys.taskMng 1 (rowB c s.sys.nextQueue) with
          tab := Function.update (filled s.sys.taskMng 1 (rowB c s.sys.nextQueue)).tab 1
            taskTabInitUnit }
        queues := Function.update (withB s c).queues s.sys.nextQueue none
        gTaskData := some [0, c] }) := by
    have hhandle : ((filled s.sys.taskMng 1 (rowB c s.sys.nextQueue)).tab 1).handle =
        some s.sys.nextQueue := by
      simp [filled, rowB]
    simp only [MsgSys.taskTabDel, TaskMng.del, withB, hfind, hhandle, MsgSys.msgQueueDeinit]
  have herase : [0, c].erase c = [0] := by
    rw [List.erase_cons_tail (by simpa using Ne.symm hc), List.erase_cons_head]
  unfold MsgSys.vtopMsgUnRegister
  rw [if_neg (ne_invalid_of_le hmax), if_neg (by rw [withB, hexist]; decide), if_neg, if_neg, hlist]
  · simp only [MsgSys.delSubs, hdel]
    simp [MsgSys.delTaskData, herase, afterB]
  · decide
  · simp [MsgSys.hasTaskData]

/-- One round of registration and unregistration takes one id. -/
theorem Waiting.round (h : Waiting s c) (hmax : c ≤ vtopMaxTaskId) (hc : c ≠ 0)
    (hreach : (machine 2 1).Reach s) :
    ∃ s', (machine 2 1).Reach s' ∧ Waiting s' (nextTaskId c) := by
  have hrun : (machine 2 1).run s
      [.register nameB Registration.allGranted, .unRegister c true] =
        some ⟨afterB s c, [(0, 1)]⟩ := by
    simp only [Machine.run, machine, step, h.register_ok hmax hc, registered,
      h.unRegister_ok hmax hc, unRegistered, h.tasks]
    simp [Ne.symm hc]
  refine ⟨_, hreach.run _ hrun, ?_⟩
  constructor
  · have hne : (0 : Fin 2) ≠ 1 := by decide
    simp only [afterB]
    rw [Function.update_of_ne hne, h.first_of_filled]
  · simp only [afterB]
    rw [Function.update_self]
  · simp only [afterB, filled, h.counter]
  · exact h.subs
  · rfl
  · exact h.next.trans (Nat.lt_succ_self _)
  · rfl

end Round

/-- The task `"a"` registers first. -/
theorem waiting_start : ∃ s, (machine 2 1).Reach s ∧ Waiting s 1 := by
  have hinit : (machine 2 1).init ⟨MsgSys.init 2 1 .freshQueue, []⟩ :=
    ⟨.freshQueue, true, fun _ => true, MsgQueue.msgQueueInit_freshQueue, rfl⟩
  refine ⟨_, .step (a := .register nameA Registration.allGranted) (.init hinit) trivial rfl, ?_⟩
  constructor
  · decide +kernel
  · decide +kernel
  · decide +kernel
  · rfl
  · decide +kernel
  · decide +kernel
  · decide +kernel

/-- The counter reaches every id. -/
theorem exists_waiting (m : Nat) (hm : m < vtopMaxTaskId.toNat) :
    ∃ s c, (machine 2 1).Reach s ∧ Waiting s c ∧ c.toNat = m + 1 := by
  induction m with
  | zero =>
      obtain ⟨s, hreach, hs⟩ := waiting_start
      exact ⟨s, 1, hreach, hs, rfl⟩
  | succ m ih =>
      obtain ⟨s, c, hreach, hs, hc⟩ := ih (by omega)
      have hmax : c ≤ vtopMaxTaskId := by
        rw [UInt32.le_iff_toNat_le]
        omega
      have hne : c ≠ 0 := by
        rintro rfl
        exact absurd hc (Nat.succ_ne_zero m).symm
      obtain ⟨s', hreach', hs'⟩ := hs.round hmax hne hreach
      refine ⟨s', nextTaskId c, hreach', hs', ?_⟩
      rw [Registration.nextTaskId_toNat (by omega), hc]

/-- After one round more the next id is that of the task `"a"`. -/
theorem exists_waiting_zero : ∃ s, (machine 2 1).Reach s ∧ Waiting s 0 := by
  obtain ⟨s, c, hreach, hs, hc⟩ := exists_waiting (vtopMaxTaskId.toNat - 1) (by decide)
  obtain rfl : c = vtopMaxTaskId := by
    apply UInt32.toNat_inj.mp
    rw [hc]
    rfl
  exact hs.round (UInt32.le_refl _) (by decide) hreach

/-- The registration of `"b"` is refused, and the row that is cleared is that of
`"a"`. -/
theorem Waiting.getHandle_of_register {s : State 2 1} (h : Waiting s 0) :
    (s.sys.vtopMsgRegister nameB Registration.allGranted).1 = .error .general ∧
    (s.sys.vtopMsgRegister nameB Registration.allGranted).2.taskMng.getHandle 0 =
      some s.sys.nextQueue := by
  have hdata : (withB s 0).addTaskData 0 Registration.allGranted.dataHead
      Registration.allGranted.dataNode =
      (.err .general, { withB s 0 with gTaskData := some [0] }) := by
    unfold MsgSys.addTaskData
    rw [show (withB s 0).gTaskData = some [0] from h.data]
    simp
  have hfind : (filled s.sys.taskMng 1 (rowB 0 s.sys.nextQueue)).findId 0 = some 0 := by
    unfold TaskMng.findId
    rw [Fin.find?_eq_some_iff]
    constructor
    · rw [h.first_of_filled]
      decide
    · intro j hj
      exact absurd hj (Nat.not_lt_zero _)
  obtain ⟨index, hindex, -, hdel⟩ | ⟨hnone, -⟩ :=
    MsgSys.taskTabDel_cases ({ withB s 0 with gTaskData := some [0] } : MsgSys 2 1) 0
  swap
  · cases hfind.symm.trans hnone
  obtain rfl : index = 0 := Option.some.inj (hindex.symm.trans hfind)
  have hlast : TaskMng.findId
      { tab := Function.update (withB s 0).taskMng.tab 0 taskTabInitUnit
        counterTaskId := (withB s 0).taskMng.counterTaskId } 0 = some 1 := by
    unfold TaskMng.findId
    rw [Fin.find?_eq_some_iff]
    constructor
    · simp [withB, filled, rowB]
    · intro j hj
      obtain rfl : j = 0 := by omega
      simp [taskTabInitUnit, vtopInvalidTaskId]
  simp only [MsgSys.vtopMsgRegister, MsgSys.vtopMsgRegisterX, if_neg nameB_short, h.newName,
    Bool.false_eq_true, if_false, h.add2, if_neg (ne_invalid_of_le (k := 0) (by decide)), hdata,
    hdel]
  refine ⟨trivial, ?_⟩
  unfold TaskMng.getHandle
  rw [hlast]
  simp [filled, rowB, withB]

/-- The task `"a"` stays registered with the id 0 while 4294901760 other tasks come and
go; the next registration destroys its queue. -/
theorem idsUnique_fails : ¬ ∀ (n r : Nat) (s : State n r), (machine n r).Reach s → IdsUnique s := by
  intro hall
  obtain ⟨s, hreach, hs⟩ := exists_waiting_zero
  obtain ⟨hret, hhandle⟩ := hs.getHandle_of_register
  have hunique := hall 2 1 _
    (.step (a := .register nameB Registration.allGranted) hreach trivial rfl)
  have hqueue := hunique.handle 0 1 (by
    change (0, 1) ∈ registered s (s.sys.vtopMsgRegister nameB Registration.allGranted).1
    rw [hret]
    simp [registered, hs.tasks])
  have heq := Option.some.inj (hhandle.symm.trans hqueue)
  exact absurd heq (Nat.ne_of_gt hs.next)

end TaskIds
end Msg
end AndroidLinux
