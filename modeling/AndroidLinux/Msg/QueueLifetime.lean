import AndroidLinux.Msg.Threads

/-!
# The lifetime of a queue

`TASK_TAB_GetHandle` hands out the handle of a queue and releases the lock of the
task table before the handle is used, while `TASK_TAB_Del` destroys the queue under
that lock.  So a sender or receiver that has fetched the handle of a task can find
the queue destroyed by the time it uses it (`misused_of_unRegister`).

As long as a task is deleted only while no other thread stands between fetching its
handle and the last use of it, no destroyed queue is ever used.
-/

namespace AndroidLinux
namespace Msg

open Lib

/-- The task whose row the next section clears. -/
def Pc.deletes {r : Nat} : Pc r → Option TaskId
  | .regUndo _ _ taskId => some taskId
  | .unregNext taskId [] => some taskId
  | _ => none

def Pc.isIdle {r : Nat} : Pc r → Bool
  | .idle => true
  | _ => false

theorem Pc.not_holds_of_isIdle {r : Nat} {pc : Pc r} (h : pc.isIdle = true)
    (handle : QHandle) : ¬ pc.Holds handle := by
  cases pc with
  | idle => exact id
  | _ => cases h

namespace Threads

variable {n r : Nat}

/-- A task is deleted only while no other thread holds the handle of its queue. -/
def HandleReturned (s : Threads n r) : Act → Prop
  | .call _ _ => True
  | .next c _ => ∀ k i h, (s.pc c).deletes = some k → s.sys.taskMng.findId k = some i →
      (s.sys.taskMng.tab i).handle = some h → ∀ c', c' ≠ c → ¬ (s.pc c').Holds h

/-- Every handle in the task table or in a thread belongs to a live queue. -/
structure Safe (s : Threads n r) : Prop where
  handles : s.sys.HandlesOk
  live : ∀ c h, (s.pc c).Holds h → (s.sys.queues h).isSome = true
  unharmed : s.misused = false

/-! ## Steps that keep the tasks -/

theorem Work.isSome {s s' : Threads n r} {c : Nat} (hwork : Work s c s') (h : QHandle) :
    (s'.sys.queues h).isSome = (s.sys.queues h).isSome := by
  rcases hwork.queues h with ⟨hq, hq', -⟩ | ⟨q, q', hq, hq', -⟩
  · rw [hq, hq']
  · rw [hq, hq']
    rfl

theorem Work.handlesOk {s s' : Threads n r} {c : Nat} (hwork : Work s c s')
    (hs : s.sys.HandlesOk) : s'.sys.HandlesOk where
  live := by
    intro i h hh
    rw [hwork.isSome]
    exact hs.live i h ((hwork.tasks.rows i).2.2.symm.trans hh)
  unique := by
    intro i j h hi hj
    exact hs.unique i j h ((hwork.tasks.rows i).2.2.symm.trans hi)
      ((hwork.tasks.rows j).2.2.symm.trans hj)
  free := by
    intro i hi
    rw [(hwork.tasks.rows i).2.2]
    exact hs.free i ((hwork.tasks.rows i).1.symm.trans hi)
  fresh := by
    intro h hh
    rw [hwork.isSome] at hh
    rw [hwork.tasks.nextQueue]
    exact hs.fresh h hh
  svrLive := by
    rw [hwork.tasks.svrQueue, hwork.isSome]
    exact hs.svrLive
  svrOwn := by
    intro i
    rw [(hwork.tasks.rows i).2.2, hwork.tasks.svrQueue]
    exact hs.svrOwn i
  counter := by
    rw [hwork.tasks.counter]
    exact hs.counter

/-- Safety is about the shared state, the handles in the threads and the record of
misuse. -/
theorem Safe.goto {s s' : Threads n r} {c : Nat} {pc : Pc r} (hsys : s'.sys.HandlesOk)
    (hpc : s'.pc = s.pc) (hlive : ∀ c' h, c' ≠ c → (s.pc c').Holds h →
      (s'.sys.queues h).isSome = true)
    (hnew : ∀ h, pc.Holds h → (s'.sys.queues h).isSome = true)
    (hunharmed : s'.misused = false) : Safe (s'.goto c pc) where
  handles := hsys
  live := by
    intro c' h hh
    by_cases hc : c' = c
    · subst hc
      refine hnew h ?_
      simpa [Threads.goto] using hh
    · refine hlive c' h hc ?_
      simpa [Threads.goto, hc, hpc] using hh
  unharmed := hunharmed

theorem Safe.quiet {s s' : Threads n r} {c : Nat} (hs : Safe s) (hquiet : Quiet s c s') :
    Safe s' := by
  obtain ⟨s₁, pc, hwork, hreach, rfl⟩ := hquiet
  refine Safe.goto (hwork.handlesOk hs.handles) hwork.pc ?_ ?_ ?_
  · intro c' h _ hh
    rw [hwork.isSome]
    exact hs.live c' h hh
  · intro h hh
    rw [hwork.isSome]
    rcases hreach.holds h hh with hheld | rfl | ⟨i, hi⟩
    · exact hs.live c h hheld
    · exact hs.handles.svrLive
    · exact hs.handles.live i h hi
  · -- the thread holds only live queues, so it misuses none
    rcases hwork.misused with heq | hsvr | ⟨h, hh, hnone⟩
    · exact heq.trans hs.unharmed
    · have := hs.handles.svrLive
      rw [hsvr] at this
      cases this
    · have := hs.live c h hh
      rw [hnone] at this
      cases this

/-! ## Steps that add or delete a task -/

/-- Adding a task destroys no queue. -/
theorem isSome_taskTabAdd2 {sys : MsgSys n r} {h : QHandle} (taskName : CString)
    (owner : TaskOwner) (alloc : QueueMalloc) (hlive : (sys.queues h).isSome = true) :
    ((sys.taskTabAdd2 taskName owner alloc).2.queues h).isSome = true := by
  rcases sys.taskTabAdd2_cases taskName owner alloc with
    ⟨-, heq⟩ | ⟨index, newQueue, -, -, -, heq⟩
  · rw [heq]
    exact hlive
  · rw [heq]
    cases newQueue with
    | none => exact hlive
    | some q =>
        show ((Function.update sys.queues sys.nextQueue (some q)) h).isSome = true
        by_cases hh : h = sys.nextQueue
        · rw [hh, Function.update_self]
          rfl
        · rw [Function.update_of_ne hh]
          exact hlive

/-- Deleting a task destroys only the queue of its row. -/
theorem isSome_taskTabDel {sys : MsgSys n r} {h : QHandle} {k : TaskId}
    (hlive : (sys.queues h).isSome = true)
    (hother : ∀ i, sys.taskMng.findId k = some i → (sys.taskMng.tab i).handle ≠ some h) :
    ((sys.taskTabDel k).2.queues h).isSome = true := by
  rcases sys.taskTabDel_cases k with ⟨index, hfind, -, heq⟩ | ⟨-, heq⟩
  · rw [heq]
    show ((sys.msgQueueDeinit _).queues h).isSome = true
    rw [MsgSys.msgQueueDeinit_queues_ne _ (hother index hfind)]
    exact hlive
  · rw [heq]
    exact hlive

theorem Safe.delete {s : Threads n r} {c : Nat} {o : Choice} {k : TaskId} {pc : Pc r}
    (hs : Safe s) (hguard : HandleReturned s (.next c o)) (hdel : (s.pc c).deletes = some k)
    (hpc : ∀ h, ¬ pc.Holds h) : Safe ((s.setSys (s.sys.taskTabDel k).2).goto c pc) := by
  refine Safe.goto (s := s) (hs.handles.taskTabDel k) rfl ?_ (fun h hh => absurd hh (hpc h))
    hs.unharmed
  intro c' h hc hh
  refine isSome_taskTabDel (hs.live c' h hh) ?_
  intro i hfind hi
  exact hguard k i h hdel hfind hi c' hc hh

theorem Safe.taskStep {s s' : Threads n r} {c : Nat} {o : Choice} (hs : Safe s)
    (hguard : HandleReturned s (.next c o)) (hstep : TaskStep s c o s') : Safe s' := by
  cases hstep with
  | «exists» hpc hexist =>
      exact Safe.goto (s := s) hs.handles rfl (fun c' h _ => hs.live c' h)
        (fun h hh => hh.elim) hs.unharmed
  | absent hpc hexist =>
      exact Safe.goto (s := s) hs.handles rfl (fun c' h _ => hs.live c' h)
        (fun h hh => hh.elim) hs.unharmed
  | add hpc =>
      refine Safe.goto (s := s) (hs.handles.taskTabAdd2 _ _ _) rfl
        (fun c' h _ hh => isSome_taskTabAdd2 _ _ _ (hs.live c' h hh)) ?_ hs.unharmed
      split
      · exact fun h hh => hh.elim
      · exact fun h hh => hh.elim
  | success hpc entries =>
      have hgoto : Safe ((s.setSys { s.sys with gTaskData := entries }).goto c .idle) :=
        Safe.goto (s := s) (hs.handles.congr rfl rfl rfl rfl) rfl (fun c' h _ => hs.live c' h)
          (fun h hh => hh.elim) hs.unharmed
      exact ⟨hgoto.handles, hgoto.live, hgoto.unharmed⟩
  | noData hpc entries =>
      exact Safe.goto (s := s) (hs.handles.congr rfl rfl rfl rfl) rfl
        (fun c' h _ => hs.live c' h) (fun h hh => hh.elim) hs.unharmed
  | undo hpc =>
      exact hs.delete hguard (by rw [hpc]; rfl) (fun h hh => hh.elim)
  | delete hpc hpc' =>
      refine hs.delete hguard (by rw [hpc]; rfl) ?_
      rcases hpc' with rfl | rfl
      · exact fun h hh => hh.elim
      · exact fun h hh => hh.elim

theorem Safe.step [NeZero n] {s s' : Threads n r} {a : Act} (hs : Safe s)
    (hguard : HandleReturned s a) (hstep : s.step a = some s') : Safe s' := by
  unfold Threads.step at hstep
  obtain ⟨s₁, hact, rfl⟩ := Option.map_eq_some_iff.mp hstep
  suffices hs₁ : Safe s₁ from ⟨hs₁.handles, hs₁.live, hs₁.unharmed⟩
  cases a with
  | call c call =>
      simp only [act] at hact
      split at hact
      · cases hact
      · split at hact
        · exact Option.some.inj hact ▸ Safe.goto (s := s) hs.handles rfl
            (fun c' h _ => hs.live c' h) (fun h hh => absurd hh (not_holds_enter s call h))
            hs.unharmed
        · cases hact
  | next c o =>
      rcases advance_cases hact with hquiet | htask
      · exact hs.quiet hquiet
      · exact hs.taskStep hguard htask

theorem safe_initial (svr : MsgQueue) : Safe (initial (MsgSys.init n r svr)) where
  handles := MsgSys.handlesOk_init svr
  live := fun _ _ hh => hh.elim
  unharmed := rfl

/-- In every run in which a task is deleted only while no other thread holds the
handle of its queue, no destroyed queue is used. -/
theorem not_misused_of_handleReturned (n r : Nat) [NeZero n] (s : Threads n r)
    (hreach : (machine n r).ReachWhen HandleReturned s) :
    s.misused = false ∧ ∀ c h, (s.pc c).Holds h → (s.sys.queues h).isSome = true := by
  have hs : Safe s := by
    refine hreach.invariant (I := Safe) ?_ (fun s a s' hs hguard hstep => hs.step hguard hstep)
    rintro s ⟨svr, alloc, pool, -, rfl⟩
    exact safe_initial svr
  exact ⟨hs.unharmed, hs.live⟩

/-! ## Schedules -/

/-- A world in which every allocation succeeds. -/
def granted : Choice where
  queue := ⟨true, fun _ => true⟩
  dataHead := true
  dataNode := true
  list := true
  rspHandle := some 0

/-- A message without a body from and to the task `0`. -/
def emptyMsg : MsgData :=
  ⟨zeroInnerBlock, fun _ => 0⟩

/-- Thread `1` registers the first task. -/
def registerFirst : List Act :=
  [.call 1 (.register CString.empty), .next 1 granted, .next 1 granted, .next 1 granted]

/-- Thread `2` sends to the first task as far as the handle of its queue. -/
def sendFirst : List Act :=
  [.call 2 (.send .async emptyMsg), .next 2 granted, .next 2 granted]

/-- Thread `1` unregisters the first task. -/
def unRegisterFirst : List Act :=
  [.call 1 (.unRegister 0), .next 1 granted, .next 1 granted, .next 1 granted, .next 1 granted,
    .next 1 granted]

/-- Thread `3` receives as the first task. -/
def receiveFirst : List Act :=
  [.call 3 (.recv 0), .next 3 granted, .next 3 granted, .next 3 granted]

def Act.thread : Act → Nat
  | .call c _ => c
  | .next c _ => c

/-- A step moves one thread. -/
theorem pc_of_step [NeZero n] {s s' : Threads n r} {a : Act} {c : Nat} (hne : c ≠ a.thread)
    (hstep : s.step a = some s') : s'.pc c = s.pc c := by
  unfold Threads.step at hstep
  obtain ⟨s₁, hact, rfl⟩ := Option.map_eq_some_iff.mp hstep
  show s₁.pc c = s.pc c
  cases a with
  | call c₁ call =>
      simp only [act] at hact
      split at hact
      · cases hact
      · split at hact
        · rw [← Option.some.inj hact]
          exact Function.update_of_ne hne _ _
        · cases hact
  | next c₁ o =>
      rcases advance_cases hact with ⟨s₂, pc, hwork, -, rfl⟩ | htask
      · rw [← hwork.pc]
        exact Function.update_of_ne hne _ _
      · cases htask <;> exact Function.update_of_ne hne _ _

theorem idle_of_run [NeZero n] {s s' : Threads n r} {acts : List Act} {c : Nat}
    (hacts : ∀ a ∈ acts, c ≠ a.thread) (hidle : s.pc c = .idle)
    (hrun : (machine n r).run s acts = some s') : s'.pc c = .idle :=
  Machine.run_invariant (I := fun s => s.pc c = .idle)
    (fun _ _ _ hpc hne hstep => (pc_of_step hne hstep).trans hpc) acts hacts hidle hrun

/-- No row is cleared by the next section of a thread. -/
def keepsRows (s : Threads n r) : Act → Bool
  | .call _ _ => true
  | .next c _ => (s.pc c).deletes.isNone

theorem handleReturned_of_keepsRows (s : Threads n r) (a : Act) (h : keepsRows s a = true) :
    HandleReturned s a := by
  cases a with
  | call c call => trivial
  | next c o =>
      intro k i handle hdel
      rw [keepsRows, hdel] at h
      cases h

/-- Thread `1` is about to clear the row; threads `2` and `3` have fetched the handle
before, and they have sent and received. -/
def unRegisterLast : List Act :=
  registerFirst ++ sendFirst ++ unRegisterFirst.take 5 ++ [.next 2 granted] ++ receiveFirst

def beforeDelete : Threads 1 1 :=
  ((machine 1 1).runWhen keepsRows (initial (MsgSys.init 1 1 .freshQueue)) unRegisterLast).get
    (by decide +kernel)

def afterDelete : Threads 1 1 :=
  ((machine 1 1).step beforeDelete (.next 1 granted)).get (by decide +kernel)

theorem beforeDelete_holds (c : Nat) (hne : c ≠ 1) (h : QHandle) :
    ¬ (beforeDelete.pc c).Holds h := by
  refine Pc.not_holds_of_isIdle ?_ h
  by_cases hc : c < 4
  · interval_cases c
    · decide +kernel
    · exact absurd rfl hne
    · decide +kernel
    · decide +kernel
  · have hthreads : ∀ a ∈ unRegisterLast, a.thread < 4 := by decide +kernel
    have hrun : (machine 1 1).run (initial (MsgSys.init 1 1 .freshQueue)) unRegisterLast =
        some beforeDelete := Machine.run_of_runWhen unRegisterLast (Option.some_get _).symm
    have hother : ∀ a ∈ unRegisterLast, c ≠ a.thread := fun a ha heq =>
      hc (heq ▸ hthreads a ha)
    rw [idle_of_run hother rfl hrun]
    rfl

/-- The queue has been used through two handles, and is destroyed then. -/
theorem unRegisterLast_not_misused :
    beforeDelete.sys.taskMng.isTaskIdExist 0 = true ∧
      afterDelete.sys.taskMng.isTaskIdExist 0 = false ∧ afterDelete.misused = false ∧
        ∀ c h, (afterDelete.pc c).Holds h → (afterDelete.sys.queues h).isSome = true := by
  refine ⟨by decide +kernel, by decide +kernel, ?_⟩
  refine not_misused_of_handleReturned 1 1 afterDelete ?_
  have hbefore : (machine 1 1).ReachWhen HandleReturned beforeDelete :=
    Machine.reachWhen_of_runWhen handleReturned_of_keepsRows unRegisterLast
      (.init ⟨.freshQueue, true, fun _ => true, MsgQueue.msgQueueInit_freshQueue, rfl⟩)
      (Option.some_get _).symm
  have hguard : HandleReturned beforeDelete (.next 1 granted) :=
    fun _ _ h _ _ _ c hne => beforeDelete_holds c hne h
  have hdelete : (machine 1 1).step beforeDelete (.next 1 granted) = some afterDelete :=
    (Option.some_get _).symm
  exact .step hbefore hguard hdelete

/-- Thread `2` has used the queue after thread `1` unregistered the task. -/
def usedAfterDelete : Threads 1 1 :=
  ((machine 1 1).run (initial (MsgSys.init 1 1 .freshQueue))
    (registerFirst ++ sendFirst ++ unRegisterFirst ++ [.next 2 granted])).get
    (by decide +kernel)

/-- The use of a destroyed queue can be reached. -/
theorem misused_of_unRegister :
    (machine 1 1).Reach usedAfterDelete ∧ usedAfterDelete.misused = true := by
  refine ⟨?_, by decide +kernel⟩
  refine Machine.reach_of_run _ ?_ (Option.some_get _).symm
  exact ⟨.freshQueue, true, fun _ => true, MsgQueue.msgQueueInit_freshQueue, rfl⟩

end Threads
end Msg
end AndroidLinux
