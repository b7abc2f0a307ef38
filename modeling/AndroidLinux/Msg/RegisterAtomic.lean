import AndroidLinux.Msg.Registration
import AndroidLinux.Msg.TaskIds
import AndroidLinux.Msg.TaskNames

/-!
# What a registration leaves behind

`VTOP_MSG_RegisterX` takes a row, a queue and an entry of the task data.  `Ended` lists what
it can leave in each of them.  A failed call leaves everything as
it was unless the queue could not be made, when the row stays, or the id that is given
back stands in an earlier row too, when `TASK_TAB_Del` clears that row.
-/

namespace AndroidLinux
namespace Msg
namespace RegisterAtomic

open Lib TaskIds

variable {n r : Nat}

/-- The registration gets as far as taking the row `index`. -/
structure Proceeds (s : MsgSys n r) (taskName : CString) (index : Fin n) : Prop where
  short : taskName.strlen < vtopMsgMaxTaskNameLen
  newName : s.taskMng.isTaskExist taskName = false
  free : s.taskMng.freeRow = some index

/-- `addTaskData` is going to fail for the next id. -/
def DataFails (s : MsgSys n r) (alloc : RegisterMalloc) : Prop :=
  (s.gTaskData = none ∧ alloc.dataHead = false) ∨
    s.taskMng.counterTaskId ∈ s.gTaskData.getD [] ∨ alloc.dataNode = false

/-- What `MSG_QueueInit` returns to the call. -/
def newQueue (alloc : RegisterMalloc) : Option MsgQueue :=
  msgQueueInit msgDefaultQueueSize alloc.queue.queue alloc.queue.pool

/-- The row has been filled without a queue. -/
def leaked (s : MsgSys n r) (taskName : CString) (owner : TaskOwner) (index : Fin n) :
    MsgSys n r :=
  { s with taskMng := filled s.taskMng index (s.taskMng.newRow index taskName owner none) }

/-- The row has been filled, with its queue. -/
def created (s : MsgSys n r) (taskName : CString) (owner : TaskOwner) (index : Fin n)
    (q : MsgQueue) (entries : Option (List TaskId)) : MsgSys n r :=
  { s with
    taskMng := filled s.taskMng index
      (s.taskMng.newRow index taskName owner (some s.nextQueue))
    queues := Function.update s.queues s.nextQueue (some q)
    nextQueue := s.nextQueue + 1
    gTaskData := entries }

/-- All ways in which `VTOP_MSG_RegisterX` can end. -/
inductive Ended (s : MsgSys n r) (taskName : CString) (owner : TaskOwner)
    (alloc : RegisterMalloc) : Except MsgErr TaskId × MsgSys n r → Prop
  | refused {e : MsgErr} (hstop : ∀ index, ¬ Proceeds s taskName index) :
      Ended s taskName owner alloc (.error e, s)
  | noQueue {index : Fin n} (hproceeds : Proceeds s taskName index)
      (hqueue : newQueue alloc = none) :
      Ended s taskName owner alloc (.error .taskFull, leaked s taskName owner index)
  | undone {e : MsgErr} {index : Fin n} {q : MsgQueue} {entries : Option (List TaskId)}
      (hproceeds : Proceeds s taskName index) (hqueue : newQueue alloc = some q)
      (hfails : DataFails s alloc) (hentries : entries.getD [] = s.gTaskData.getD []) :
      Ended s taskName owner alloc (.error e,
        ((created s taskName owner index q entries).taskTabDel s.taskMng.counterTaskId).2)
  | added {index : Fin n} {q : MsgQueue} (hproceeds : Proceeds s taskName index)
      (hqueue : newQueue alloc = some q) (hfits : ¬ DataFails s alloc) :
      Ended s taskName owner alloc (.ok s.taskMng.counterTaskId,
        created s taskName owner index q
          (some (s.gTaskData.getD [] ++ [s.taskMng.counterTaskId])))

/-- What `addTaskData` does, for a state with the same list. -/
theorem addTaskData_cases (s : MsgSys n r) (k : TaskId) (mallocHead mallocNode : Bool) :
    (((s.gTaskData = none ∧ mallocHead = false) ∨ k ∈ s.gTaskData.getD [] ∨ mallocNode = false) ∧
      ∃ e entries, entries.getD [] = s.gTaskData.getD [] ∧
        s.addTaskData k mallocHead mallocNode = (.err e, { s with gTaskData := entries })) ∨
    (¬ ((s.gTaskData = none ∧ mallocHead = false) ∨ k ∈ s.gTaskData.getD [] ∨
        mallocNode = false) ∧
      s.addTaskData k mallocHead mallocNode =
        (.ok, { s with gTaskData := some (s.gTaskData.getD [] ++ [k]) })) := by
  unfold MsgSys.addTaskData
  by_cases hhead : s.gTaskData = none ∧ mallocHead = false
  · rw [if_pos hhead]
    exact .inl ⟨.inl hhead, _, s.gTaskData, rfl, rfl⟩
  · rw [if_neg hhead]
    dsimp only
    by_cases hmem : k ∈ s.gTaskData.getD []
    · rw [if_pos hmem]
      exact .inl ⟨.inr (.inl hmem), _, some (s.gTaskData.getD []), rfl, rfl⟩
    · rw [if_neg hmem]
      by_cases hnode : mallocNode = false
      · rw [if_pos hnode]
        exact .inl ⟨.inr (.inr hnode), _, some (s.gTaskData.getD []), rfl, rfl⟩
      · rw [if_neg hnode]
        refine .inr ⟨?_, rfl⟩
        rintro (h | h | h)
        · exact hhead h
        · exact hmem h
        · exact hnode h

theorem register_ended {s : MsgSys n r} (hcounter : s.taskMng.counterTaskId ≤ vtopMaxTaskId)
    (taskName : CString) (owner : TaskOwner) (alloc : RegisterMalloc) :
    Ended s taskName owner alloc (s.vtopMsgRegisterX taskName owner alloc) := by
  have hid := ne_invalid_of_le hcounter
  unfold MsgSys.vtopMsgRegisterX
  by_cases hlong : vtopMsgMaxTaskNameLen ≤ taskName.strlen
  · rw [if_pos hlong]
    exact .refused fun index h => absurd h.short (Nat.not_lt.mpr hlong)
  rw [if_neg hlong]
  by_cases hexist : s.taskMng.isTaskExist taskName = true
  · rw [if_pos hexist]
    refine .refused fun index h => ?_
    have hnew := h.newName
    rw [hexist] at hnew
    cases hnew
  rw [if_neg hexist]
  have hnew : s.taskMng.isTaskExist taskName = false := Bool.eq_false_of_not_eq_true hexist
  unfold MsgSys.taskTabAdd2
  cases hfree : s.taskMng.freeRow with
  | none =>
      dsimp only
      rw [if_pos rfl]
      refine .refused fun index h => ?_
      have hrow := h.free
      rw [hfree] at hrow
      cases hrow
  | some index =>
      have hproceeds : Proceeds s taskName index := ⟨Nat.not_le.mp hlong, hnew, hfree⟩
      cases hqueue : msgQueueInit msgDefaultQueueSize alloc.queue.queue alloc.queue.pool with
      | none =>
          simp only [TaskMng.add2, hfree, Option.isSome_none, Bool.false_eq_true, if_false, if_true]
          exact .noQueue hproceeds hqueue
      | some q =>
          simp only [TaskMng.add2, hfree, Option.isSome_some, if_true, if_neg hid]
          have hdata := addTaskData_cases (created s taskName owner index q s.gTaskData)
            s.taskMng.counterTaskId alloc.dataHead alloc.dataNode
          change (DataFails s alloc ∧ _) ∨ (¬ DataFails s alloc ∧ _) at hdata
          rcases hdata with ⟨hfails, e, entries, hentries, hcall⟩ | ⟨hfits, hcall⟩
          · have hundone (e : MsgErr) : Ended s taskName owner alloc (.error e, (MsgSys.taskTabDel
                { created s taskName owner index q s.gTaskData with gTaskData := entries }
                  s.taskMng.counterTaskId).2) :=
              .undone hproceeds hqueue hfails hentries
            unfold created filled at hcall hundone
            simp only [hcall]
            generalize MsgSys.taskTabDel _ s.taskMng.counterTaskId = del at hundone ⊢
            obtain ⟨ret, s₃⟩ := del
            cases ret with
            | ok => exact hundone .general
            | err e => exact hundone e
          · unfold created filled at hcall
            simp only [hcall]
            exact .added hproceeds hqueue hfits

/-! ## Handles in every run -/

/-- Whatever `VTOP_MSG_UnRegister` deletes, the task table changes in `TASK_TAB_Del` only. -/
theorem unRegister_frame (s : MsgSys n r) (k : TaskId) (mallocList : Bool) :
    ∃ tab entries, (s.vtopMsgUnRegister k mallocList).2 = { s with subTab := tab } ∨
      (s.vtopMsgUnRegister k mallocList).2 =
        { (({ s with subTab := tab } : MsgSys n r).taskTabDel k).2 with gTaskData := entries } := by
  unfold MsgSys.vtopMsgUnRegister
  split
  · exact ⟨s.subTab, none, .inl rfl⟩
  split
  · exact ⟨s.subTab, none, .inl rfl⟩
  split
  · exact ⟨s.subTab, none, .inl rfl⟩
  split
  · exact ⟨s.subTab, none, .inl rfl⟩
  obtain ⟨ret, tab, hsubs⟩ := delSubs_frame s k (s.unRegisterList k)
  rw [hsubs]
  cases ret with
  | err e => exact ⟨tab, none, .inl rfl⟩
  | ok =>
      dsimp only
      generalize hdel : MsgSys.taskTabDel { s with subTab := tab } k = del
      obtain ⟨ret, s₂⟩ := del
      have hs₂ : (MsgSys.taskTabDel { s with subTab := tab } k).2 = s₂ := by rw [hdel]
      cases ret with
      | err e => exact ⟨tab, s₂.gTaskData, .inr (by rw [hs₂])⟩
      | ok =>
          obtain ⟨entries, hdata⟩ := s₂.delTaskData_frame k
          dsimp only
          generalize s₂.delTaskData k = res at hdata
          obtain ⟨ret, s₃⟩ := res
          cases ret <;> exact ⟨tab, entries, .inr (by rw [hs₂]; exact hdata)⟩

theorem handlesOk_step [NeZero n] {s s' : Registration.State n r} {a : Registration.Act}
    (hs : s.sys.HandlesOk) (hstep : Registration.step s a = some s') : s'.sys.HandlesOk := by
  cases a with
  | register taskName alloc =>
      obtain rfl := Option.some.inj hstep
      exact Registration.handlesOk_vtopMsgRegisterX hs taskName .task alloc
  | unRegister taskId mallocList =>
      obtain rfl := Option.some.inj hstep
      obtain ⟨tab, entries, heq | heq⟩ := unRegister_frame s.sys taskId mallocList
      · exact hs.congr (by rw [heq]) (by rw [heq]) (by rw [heq]) (by rw [heq])
      · have hsub : ({ s.sys with subTab := tab } : MsgSys n r).HandlesOk :=
          hs.congr rfl rfl rfl rfl
        exact (hsub.taskTabDel taskId).congr (by rw [heq]) (by rw [heq]) (by rw [heq]) (by rw [heq])
  | subscribe taskId msgType =>
      obtain rfl := Option.some.inj hstep
      exact Registration.handlesOk_vtopMsgSubscribe hs taskId msgType
  | unSubscribe taskId msgType =>
      obtain rfl := Option.some.inj hstep
      exact Registration.handlesOk_vtopMsgUnSubscribe hs taskId msgType

theorem handlesOk_of_reach [NeZero n] {s : Registration.State n r}
    (hreach : (Registration.machine n r).Reach s) : s.sys.HandlesOk := by
  refine hreach.invariant (I := fun s => s.sys.HandlesOk) ?_ fun _ _ _ h _ hstep =>
    handlesOk_step h hstep
  rintro s ⟨svr, alloc, pool, -, rfl⟩
  exact MsgSys.handlesOk_init svr

/-! ## Atomic registrations -/

/-- Nothing is seen of a call that failed. -/
structure Unchanged (s s' : MsgSys n r) : Prop where
  used : ∀ i, s'.taskMng.Used i ↔ s.taskMng.Used i
  /-- The rows keep their names, ids and handles, -/
  rows : ∀ i, s.taskMng.Used i → s'.taskMng.tab i = s.taskMng.tab i
  queues : s'.queues = s.queues
  taskData : s'.gTaskData.getD [] = s.gTaskData.getD []

/-- The call has added the task `k`, and nothing else. -/
structure AddedOne (s s' : MsgSys n r) (taskName : CString) (k : TaskId) : Prop where
  row : ∃ index h, ¬ s.taskMng.Used index ∧ s'.taskMng.Used index ∧
    (s'.taskMng.tab index).taskId = k ∧ (s'.taskMng.tab index).taskName = taskName ∧
    (s'.taskMng.tab index).handle = some h ∧ s.queues h = none ∧
    (s'.queues h).isSome = true ∧ (∀ i, i ≠ index → s'.taskMng.tab i = s.taskMng.tab i) ∧
    ∀ h', h' ≠ h → s'.queues h' = s.queues h'
  taskData : s'.gTaskData.getD [] = s.gTaskData.getD [] ++ [k]

structure Atomic (s : MsgSys n r) (taskName : CString) (owner : TaskOwner)
    (alloc : RegisterMalloc) : Prop where
  failure : ∀ e s', s.vtopMsgRegisterX taskName owner alloc = (.error e, s') → Unchanged s s'
  success : ∀ k s', s.vtopMsgRegisterX taskName owner alloc = (.ok k, s') →
    AddedOne s s' taskName k

/-- A registration that takes a row makes its queue, and does not have to give back an id
that stands in an earlier row too. -/
def CanUndo (s : MsgSys n r) (taskName : CString) (alloc : RegisterMalloc) : Prop :=
  ∀ index, Proceeds s taskName index → newQueue alloc ≠ none ∧
    (DataFails s alloc → ∀ i, i < index → (s.taskMng.tab i).taskId ≠ s.taskMng.counterTaskId)

theorem Unchanged.refl (s : MsgSys n r) : Unchanged s s :=
  ⟨fun _ => Iff.rfl, fun _ _ => rfl, rfl, rfl⟩

section Row

variable {s : MsgSys n r} {taskName : CString} {owner : TaskOwner} {alloc : RegisterMalloc}
  {index : Fin n} {q : MsgQueue} {entries : Option (List TaskId)}

theorem Proceeds.unused (h : Proceeds s taskName index) : ¬ s.taskMng.Used index :=
  fun hused => hused (TaskMng.findId_eq_some h.free)

/-- A row without queue is seen. -/
theorem not_unchanged_leaked (hs : s.HandlesOk) (h : Proceeds s taskName index) :
    ¬ Unchanged s (leaked s taskName owner index) := by
  intro hunchanged
  refine h.unused ((hunchanged.used index).mp ?_)
  exact TaskMng.used_update.mpr (.inl ⟨rfl, ne_invalid_of_le hs.counter⟩)

theorem addedOne_created (hs : s.HandlesOk) (h : Proceeds s taskName index)
    (hentries : entries.getD [] = s.gTaskData.getD [] ++ [s.taskMng.counterTaskId]) :
    AddedOne s (created s taskName owner index q entries) taskName s.taskMng.counterTaskId := by
  have hname : taskName.strncpy (vtopMsgMaxTaskNameLen - 1) = taskName :=
    CString.strncpy_eq_self (Nat.le_pred_of_lt h.short)
  refine ⟨⟨index, s.nextQueue, h.unused, ?_, ?_, ?_, ?_, ?_, ?_, ?_, ?_⟩, hentries⟩
  · exact TaskMng.used_update.mpr (.inl ⟨rfl, ne_invalid_of_le hs.counter⟩)
  · simp [created, filled, TaskMng.newRow]
  · simpa [created, filled, TaskMng.newRow] using hname
  · simp [created, filled, TaskMng.newRow]
  · by_contra hlive
    exact Nat.lt_irrefl _ (hs.fresh s.nextQueue (Option.isSome_iff_ne_none.mpr hlive))
  · simp [created]
  · intro i hi
    exact Function.update_of_ne hi _ _
  · intro h' hne
    exact Function.update_of_ne hne _ _

/-- The first row with the new id. -/
theorem findId_created (first : Fin n) :
    (created s taskName owner index q entries).taskMng.findId s.taskMng.counterTaskId =
      some first ↔
    (first = index ∨ (s.taskMng.tab first).taskId = s.taskMng.counterTaskId) ∧
      ∀ i, i < first → i ≠ index ∧ (s.taskMng.tab i).taskId ≠ s.taskMng.counterTaskId := by
  have hid (i : Fin n) : ((created s taskName owner index q entries).taskMng.tab i).taskId =
      s.taskMng.counterTaskId ↔
        i = index ∨ (s.taskMng.tab i).taskId = s.taskMng.counterTaskId := by
    show (Function.update s.taskMng.tab index _ i).taskId = _ ↔ _
    by_cases hi : i = index
    · subst hi
      simp [TaskMng.newRow]
    · simp [hi]
  unfold TaskMng.findId
  rw [Fin.find?_eq_some_iff]
  simp only [beq_iff_eq, hid, beq_eq_false_iff_ne, ne_eq, not_or]

/-- What is left after the id has been given back, when `first` is the first row with it. -/
theorem unchanged_undone_iff (hs : s.HandlesOk) (h : Proceeds s taskName index)
    (hentries : entries.getD [] = s.gTaskData.getD []) :
    Unchanged s ((created s taskName owner index q entries).taskTabDel
        s.taskMng.counterTaskId).2 ↔
      ∀ i, i < index → (s.taskMng.tab i).taskId ≠ s.taskMng.counterTaskId := by
  have hvalid := ne_invalid_of_le hs.counter
  rcases (created s taskName owner index q entries).taskTabDel_cases s.taskMng.counterTaskId with
    ⟨first, hfind, -, hdel⟩ | ⟨hfind, -⟩
  swap
  · have hself := TaskMng.findId_eq_none_iff.mp hfind index
    simp [created, filled, TaskMng.newRow] at hself
  obtain ⟨hfirst, hbefore⟩ := (findId_created first).mp hfind
  rw [hdel]
  constructor
  · intro hunchanged i hi hid
    -- a row in front of the new one would have been cleared instead of it
    have hle : first ≤ i := by
      by_contra hlt
      exact (hbefore i (not_le.mp hlt)).2 hid
    have hne : first ≠ index := ne_of_lt (lt_of_le_of_lt hle hi)
    have hused : s.taskMng.Used first := by
      unfold TaskMng.Used
      rw [hfirst.resolve_left hne]
      exact hvalid
    have hgone := (hunchanged.used first).mpr hused
    unfold TaskMng.Used at hgone
    dsimp only at hgone
    rw [Function.update_self] at hgone
    exact hgone rfl
  · intro hnone
    -- the new row is the first with the id
    have hself : first = index := by
      rcases lt_trichotomy first index with hlt | heq | hgt
      · exact absurd (hfirst.resolve_left (ne_of_lt hlt)) (hnone first hlt)
      · exact heq
      · exact absurd rfl (hbefore index hgt).1
    subst hself
    have hrow : ((created s taskName owner first q entries).taskMng.tab first).handle =
        some s.nextQueue := by
      simp [created, filled, TaskMng.newRow]
    rw [hrow]
    constructor
    · intro i
      unfold TaskMng.Used
      by_cases hi : i = first
      · subst hi
        simp only [Function.update_self]
        exact ⟨fun hused => absurd rfl hused, fun hused => absurd hused h.unused⟩
      · simp [hi, created, filled]
    · intro i hused
      have hi : i ≠ first := fun heq => h.unused (heq ▸ hused)
      simp [hi, created, filled]
    · have hfresh : s.queues s.nextQueue = none := by
        by_contra hlive
        exact Nat.lt_irrefl _ (hs.fresh s.nextQueue (Option.isSome_iff_ne_none.mpr hlive))
      show Function.update (Function.update s.queues s.nextQueue (some q)) s.nextQueue none =
        s.queues
      rw [Function.update_idem, ← hfresh, Function.update_eq_self]
    · exact hentries

end Row

/-- In every state of every run, a registration is atomic exactly when it can be undone. -/
theorem register_atomic_iff [NeZero n] {s : Registration.State n r}
    (hreach : (Registration.machine n r).Reach s) (taskName : CString) (owner : TaskOwner)
    (alloc : RegisterMalloc) :
    Atomic s.sys taskName owner alloc ↔ CanUndo s.sys taskName alloc := by
  have hs := handlesOk_of_reach hreach
  have hended := register_ended hs.counter taskName owner alloc
  generalize hcall : s.sys.vtopMsgRegisterX taskName owner alloc = res at hended
  cases hended with
  | refused hstop =>
      refine iff_of_true ⟨?_, ?_⟩ fun index h => absurd h (hstop index)
      · intro e s' heq
        rw [hcall] at heq
        cases heq
        exact .refl s.sys
      · intro k s' heq
        rw [hcall] at heq
        cases heq
  | noQueue hproceeds hqueue =>
      refine iff_of_false ?_ fun hundo => (hundo _ hproceeds).1 hqueue
      intro hatomic
      -- the row stays in use although the call has failed
      exact not_unchanged_leaked hs hproceeds (hatomic.failure _ _ hcall)
  | @undone e₀ row q entries hproceeds hqueue hfails hentries =>
      have hiff : Unchanged s.sys ((created s.sys taskName owner row q entries).taskTabDel
          s.sys.taskMng.counterTaskId).2 ↔ _ := unchanged_undone_iff hs hproceeds hentries
      constructor
      · intro hatomic index h
        obtain rfl := Option.some.inj (hproceeds.free.symm.trans h.free)
        refine ⟨?_, fun _ => hiff.mp (hatomic.failure _ _ hcall)⟩
        rw [hqueue]
        exact Option.some_ne_none _
      · intro hundo
        refine ⟨?_, ?_⟩
        · intro e s' heq
          rw [hcall] at heq
          cases heq
          exact hiff.mpr ((hundo _ hproceeds).2 hfails)
        · intro k s' heq
          rw [hcall] at heq
          cases heq
  | added hproceeds hqueue hfits =>
      refine iff_of_true ⟨?_, ?_⟩ ?_
      · intro e s' heq
        rw [hcall] at heq
        cases heq
      · intro k s' heq
        rw [hcall] at heq
        cases heq
        exact addedOne_created hs hproceeds rfl
      · intro index h
        refine ⟨?_, fun hfails => absurd hfails hfits⟩
        rw [hqueue]
        exact Option.some_ne_none _

/-- The state after `VTOP_MSG_Main`, with one row for a task. -/
def oneRow : Registration.State 1 1 := ⟨MsgSys.init 1 1 .freshQueue, 0⟩

theorem oneRow_reach : (Registration.machine 1 1).Reach oneRow :=
  .init ⟨.freshQueue, true, fun _ => true, MsgQueue.msgQueueInit_freshQueue, rfl⟩

theorem oneRow_atomic : Atomic oneRow.sys nameA .task Registration.allGranted := by
  refine (register_atomic_iff oneRow_reach nameA .task _).mpr fun index _ => ?_
  refine ⟨Option.isSome_iff_ne_none.mp (by decide +kernel), fun _ i hi => ?_⟩
  rw [Subsingleton.elim i index] at hi
  exact absurd hi (lt_irrefl index)

/-- The queue of the task cannot be allocated. -/
def noQueueMemory : RegisterMalloc :=
  { Registration.allGranted with queue := ⟨false, fun _ => true⟩ }

/-- The registration fails, and the row keeps the name and the id. -/
theorem oneRow_not_atomic : ¬ ∀ (s : Registration.State 1 1) (taskName : CString)
    (owner : TaskOwner) (alloc : RegisterMalloc), (Registration.machine 1 1).Reach s →
      Atomic s.sys taskName owner alloc := by
  intro h
  have hundo := (register_atomic_iff oneRow_reach nameA .task noQueueMemory).mp
    (h oneRow nameA .task noQueueMemory oneRow_reach)
  exact (hundo 0 ⟨by decide, by decide, by decide⟩).1 rfl

end RegisterAtomic
end Msg
end AndroidLinux
