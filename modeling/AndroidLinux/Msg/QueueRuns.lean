import AndroidLinux.Msg.QueueLifetime

/-!
# The queues along a run

Every queue is well formed in every state of every run: whatever the threads do, a
queue that has not been destroyed consists of the messages that were put in it and
have not been received, and of those that were received and not been freed.  The queue
of the server holds nothing but published messages, since the task table never hands
its handle out.
-/

namespace AndroidLinux
namespace Msg

open Lib

namespace MsgQueue

/-- A well-formed queue, `held` being the messages on loan from it. -/
def Ok (q : MsgQueue) (held : List Nat) : Prop :=
  ∃ nodes blocks, q.WF nodes blocks ∧ held = blocks.map (· + mbHeadLen)

/-- Every message in the queue is a published one. -/
def AllPublished (q : MsgQueue) : Prop :=
  ∀ m ∈ q.pending, MsgSys.isPublished m.1

/-! ## Readdressing a message -/

theorem setRcv_inner (q : MsgQueue) (p a : Nat) (k : TaskId) :
    (q.setRcv p k).mem.inner a = q.mem.inner a ∨
      (q.setRcv p k).mem.inner a = (q.mem.inner a).withRcv k := by
  unfold setRcv MsgMem.setRcv
  by_cases ha : a = p
  · subst ha
    exact Or.inr (Function.update_self _ _ _)
  · exact Or.inl (Function.update_of_ne ha _ _)

/-- The receiver of a message has no part in the shape of the queue. -/
theorem WF.setRcv {q : MsgQueue} {nodes held : List Nat} (hwf : q.WF nodes held) (p : Nat)
    (k : TaskId) : (q.setRcv p k).WF nodes held where
  layout := hwf.layout
  ring := hwf.ring
  num := hwf.num
  nodup := hwf.nodup
  priv := hwf.priv
  used := by
    intro a ha
    obtain ⟨hflag, size, hblock, hstored⟩ := hwf.used a ha
    refine ⟨hflag, size, hblock, ?_⟩
    rcases q.setRcv_inner p (a + mbHeadLen) k with heq | heq
    · exact ⟨heq ▸ hstored.fits, heq ▸ hstored.body⟩
    · exact ⟨heq ▸ hstored.fits, heq ▸ hstored.body⟩
  unused := hwf.unused
  checked := by
    intro a ha
    rw [← hwf.checked a ha]
    rcases q.setRcv_inner p (a + mbHeadLen) k with heq | heq
    · exact checkBody_congr heq
    · have hhdr : ((q.setRcv p k).mem.read (a + mbHeadLen)).hdr =
          (q.mem.read (a + mbHeadLen)).hdr.withRcv k := heq
      unfold checkBody
      rw [hhdr]
      rfl

theorem contentAt_setRcv_flag (q : MsgQueue) (p a : Nat) (k : TaskId) :
    ((q.setRcv p k).contentAt a).1.msg.ulFlag = (q.contentAt a).1.msg.ulFlag := by
  show ((q.setRcv p k).mem.inner (a + mbHeadLen)).msg.ulFlag =
    (q.mem.inner (a + mbHeadLen)).msg.ulFlag
  rcases q.setRcv_inner p (a + mbHeadLen) k with heq | heq
  · rw [heq]
  · rw [heq]
    rfl

/-! ## One operation -/

/-- What one operation does to the blocks: the queue stays well formed, and a queued
message was queued before or has just been put. -/
theorem WF.queueStep {P : MsgData → Prop} {U : Prop}
    {R : Nat → TaskId → Prop} {q q' : MsgQueue} {nodes blocks held' : List Nat}
    (hwf : q.WF nodes blocks)
    (hstep : QueueStep P U R q (blocks.map (· + mbHeadLen)) q' held') :
    ∃ nodes' blocks', q'.WF nodes' blocks' ∧ held' = blocks'.map (· + mbHeadLen) ∧
      ∀ a ∈ nodes', (a ∈ nodes ∧
        (q'.contentAt a).1.msg.ulFlag = (q.contentAt a).1.msg.ulFlag) ∨
        ∃ pMsg, P pMsg ∧ q'.contentAt a = pMsg.content := by
  -- an operation that leaves the messages as they are and queues nothing
  have hkeep : ∀ {q₁ : MsgQueue} {nodes₁ : List Nat}, q₁.mem = q.mem → nodes₁ ⊆ nodes →
      ∀ a ∈ nodes₁, (a ∈ nodes ∧
        (q₁.contentAt a).1.msg.ulFlag = (q.contentAt a).1.msg.ulFlag) ∨
        ∃ pMsg, P pMsg ∧ q₁.contentAt a = pMsg.content := by
    intro q₁ nodes₁ hmem hsub a ha
    exact Or.inl ⟨hsub ha, by rw [contentAt_congr hmem]⟩
  cases hstep with
  | same => exact ⟨nodes, blocks, hwf, rfl, hkeep rfl (fun _ h => h)⟩
  | @put _ pMsg hput =>
      by_cases hok : (q.msgQueuePut pMsg).1 = .ok
      · obtain ⟨a, hwf', hnew, hold⟩ := hwf.msgQueuePut hok
        refine ⟨nodes ++ [a], blocks, hwf', rfl, ?_⟩
        intro b hb
        rcases List.mem_append.mp hb with hb | hb
        · left
          exact ⟨hb, by rw [hold b (List.mem_append_left _ hb)]⟩
        · right
          rw [List.mem_singleton.mp hb]
          exact ⟨pMsg, hput, hnew⟩
      · rw [msgQueuePut_of_err hok]
        exact ⟨nodes, blocks, hwf, rfl, hkeep rfl (fun _ h => h)⟩
  | @get _ _ pMsg huse hget =>
      obtain ⟨a, nodes, rfl, rfl, hwf₁, hmem₁⟩ := hwf.msgQueueGet_inv hget
      exact ⟨nodes, a :: blocks, hwf₁, rfl, hkeep hmem₁ (List.subset_cons_self _ _)⟩
  | @merge _ _ pMsg msgtype huse hget =>
      rcases hwf.msgQueueGetMerge msgtype with hnone | ⟨b, q₁, nodes₁, hget₁, hwf₁, hmem₁, hsub⟩
      · rw [hnone] at hget
        cases hget
      · rw [hget₁] at hget
        cases hget
        exact ⟨nodes₁, b :: blocks, hwf₁, rfl, hkeep hmem₁ (List.cons_subset.mp hsub).2⟩
  | @free _ _ pMsg huse hheld hfree =>
      obtain ⟨a, ha, rfl⟩ := List.mem_map.mp hheld
      obtain ⟨q₁, hfree₁, hwf₁, hmem₁⟩ := hwf.msgQueueFree ha
      rw [hfree₁] at hfree
      cases hfree
      refine ⟨nodes, blocks.erase a, hwf₁, ?_, hkeep hmem₁ (fun _ h => h)⟩
      exact (List.map_erase (fun _ _ h => Nat.add_right_cancel h) _).symm
  | @setRcv _ pMsg k hrcv =>
      refine ⟨nodes, blocks, hwf.setRcv pMsg k, rfl, ?_⟩
      intro a ha
      exact Or.inl ⟨ha, q.contentAt_setRcv_flag pMsg a k⟩

theorem Ok.queueStep {P : MsgData → Prop} {U : Prop}
    {R : Nat → TaskId → Prop} {q q' : MsgQueue} {held held' : List Nat}
    (hq : q.Ok held) (hstep : QueueStep P U R q held q' held') : q'.Ok held' := by
  obtain ⟨nodes, blocks, hwf, rfl⟩ := hq
  obtain ⟨nodes', blocks', hwf', hheld', -⟩ := hwf.queueStep hstep
  exact ⟨nodes', blocks', hwf', hheld'⟩

theorem AllPublished.queueStep {P : MsgData → Prop} {U : Prop}
    {R : Nat → TaskId → Prop} {q q' : MsgQueue} {held held' : List Nat}
    (hall : q.AllPublished) (hq : q.Ok held) (hstep : QueueStep P U R q held q' held')
    (hput : ∀ pMsg, P pMsg → MsgSys.isPublished pMsg.hdr) : q'.AllPublished := by
  obtain ⟨nodes, blocks, hwf, rfl⟩ := hq
  obtain ⟨nodes', blocks', hwf', -, hold⟩ := hwf.queueStep hstep
  intro m hm
  rw [hwf'.pending_eq] at hm
  obtain ⟨a, ha, rfl⟩ := List.mem_map.mp hm
  rcases hold a ha with ⟨hnode, hflag⟩ | ⟨pMsg, hP, hcontent⟩
  · have hbefore : MsgSys.isPublished (q.contentAt a).1 := by
      refine hall _ ?_
      rw [hwf.pending_eq]
      exact List.mem_map_of_mem hnode
    unfold MsgSys.isPublished at hbefore ⊢
    rw [hflag]
    exact hbefore
  · rw [hcontent]
    exact hput pMsg hP

end MsgQueue

/-- The program points at which a thread is not about to put a message in a queue. -/
def Pc.silent {r : Nat} : Pc r → Bool
  | .sendPut _ _ | .dispPut _ _ _ | .pubPut _ => false
  | _ => true

namespace Threads

variable {n r : Nat}

/-- What holds of the queues in every state of a run. -/
structure QueuesOk (sys : MsgSys n r) (held : QHandle → List Nat) : Prop where
  handles : sys.HandlesOk
  queues : ∀ h q, sys.queues h = some q → q.Ok (held h)
  unborn : ∀ h, sys.nextQueue ≤ h → held h = []
  published : ∀ q, sys.queues sys.svrQueue = some q → q.AllPublished

/-- No thread is about to put a message of its own choice in the queue of the server. -/
structure PutsOk (sys : MsgSys n r) (pc : Nat → Pc r) : Prop where
  puts : ∀ c h, (pc c).Puts h → h ≠ sys.svrQueue
  publishing : ∀ c pMsg, pc c = .pubPut pMsg → MsgSys.isPublished pMsg.hdr

theorem PutsOk.update {sys sys' : MsgSys n r} {pc : Nat → Pc r} {c : Nat} {p : Pc r}
    (h : PutsOk sys pc) (hsvr : sys'.svrQueue = sys.svrQueue)
    (hputs : ∀ h, p.Puts h → h ≠ sys.svrQueue)
    (hpub : ∀ pMsg, p = .pubPut pMsg → MsgSys.isPublished pMsg.hdr) :
    PutsOk sys' (Function.update pc c p) where
  puts := by
    intro c' h' hp
    rw [hsvr]
    by_cases hc : c' = c
    · subst hc
      rw [Function.update_self] at hp
      exact hputs h' hp
    · rw [Function.update_of_ne hc] at hp
      exact h.puts c' h' hp
  publishing := by
    intro c' pMsg hp
    by_cases hc : c' = c
    · subst hc
      rw [Function.update_self] at hp
      exact hpub pMsg hp
    · rw [Function.update_of_ne hc] at hp
      exact h.publishing c' pMsg hp

/-- A thread goes to a program point that is reached without a registration. -/
theorem PutsOk.reaches {s : Threads n r} {sys' : MsgSys n r} {c : Nat} {p : Pc r}
    (h : PutsOk s.sys s.pc) (hhandles : s.sys.HandlesOk)
    (hsvr : sys'.svrQueue = s.sys.svrQueue) (hreach : Reaches s c p) :
    PutsOk sys' (Function.update s.pc c p) := by
  refine h.update hsvr ?_ hreach.published
  intro handle hp heq
  obtain ⟨i, hi⟩ := hreach.puts handle hp
  exact hhandles.svrOwn i (heq ▸ hi)

/-- A thread goes to a program point at which it puts nothing in a queue. -/
theorem PutsOk.silent {sys sys' : MsgSys n r} {pc : Nat → Pc r} {c : Nat} {p : Pc r}
    (h : PutsOk sys pc) (hsvr : sys'.svrQueue = sys.svrQueue) (hsilent : p.silent = true) :
    PutsOk sys' (Function.update pc c p) := by
  refine h.update hsvr ?_ ?_
  · intro handle hp
    cases p <;> first | exact hp.elim | cases hsilent
  · intro pMsg hp
    subst hp
    cases hsilent

/-- The list of task data has nothing to do with the queues. -/
theorem QueuesOk.setTaskData {sys : MsgSys n r} {held : QHandle → List Nat}
    (hs : QueuesOk sys held) (entries : Option (List TaskId)) :
    QueuesOk { sys with gTaskData := entries } held :=
  ⟨hs.handles.congr rfl rfl rfl rfl, hs.queues, hs.unborn, hs.published⟩

theorem QueuesOk.work {s s' : Threads n r} {c : Nat} (hs : QueuesOk s.sys s.held)
    (hputs : PutsOk s.sys s.pc) (hwork : Work s c s') : QueuesOk s'.sys s'.held where
  handles := hwork.handlesOk hs.handles
  queues := by
    intro h q' hq'
    rcases hwork.queues h with ⟨-, hnone, -⟩ | ⟨q, q₁, hq, hq₁, hstep⟩
    · rw [hnone] at hq'
      cases hq'
    · obtain rfl := Option.some.inj (hq₁.symm.trans hq')
      exact (hs.queues h q hq).queueStep hstep
  unborn := by
    intro h hh
    rw [hwork.tasks.nextQueue] at hh
    rcases hwork.queues h with ⟨-, -, hheld⟩ | ⟨q, -, hq, -, -⟩
    · rw [hheld]
      exact hs.unborn h hh
    · exact absurd (hs.handles.fresh h (by rw [hq]; rfl)) (Nat.not_lt_of_le hh)
  published := by
    intro q' hq'
    rw [hwork.tasks.svrQueue] at hq'
    rcases hwork.queues s.sys.svrQueue with ⟨-, hnone, -⟩ | ⟨q, q₁, hq, hq₁, hstep⟩
    · rw [hnone] at hq'
      cases hq'
    · obtain rfl := Option.some.inj (hq₁.symm.trans hq')
      refine (hs.published q hq).queueStep (hs.queues _ q hq) hstep ?_
      rintro pMsg (⟨hpc, -⟩ | hpc | ⟨p, rest, hpc, -⟩)
      · exact hputs.publishing c pMsg hpc
      · exact absurd rfl (hputs.puts c _ (by rw [hpc]; rfl))
      · exact absurd rfl (hputs.puts c _ (by rw [hpc]; rfl))

theorem QueuesOk.taskTabAdd2 {sys : MsgSys n r} {held : QHandle → List Nat}
    (hs : QueuesOk sys held) (taskName : CString) (owner : TaskOwner) (alloc : QueueMalloc) :
    QueuesOk (sys.taskTabAdd2 taskName owner alloc).2 held := by
  have hhandles := hs.handles.taskTabAdd2 taskName owner alloc
  rcases sys.taskTabAdd2_cases taskName owner alloc with
    ⟨-, heq⟩ | ⟨index, newQueue, -, -, hnew, heq⟩
  · rw [heq]
    exact hs
  · rw [heq] at hhandles ⊢
    cases newQueue with
    | none => exact ⟨hhandles, hs.queues, hs.unborn, hs.published⟩
    | some q₀ =>
        have hinit : msgQueueInit msgDefaultQueueSize alloc.queue alloc.pool = some q₀ := by
          rcases hnew with h | h
          · cases h
          · exact h.symm
        have hsvr : sys.svrQueue ≠ sys.nextQueue :=
          Nat.ne_of_lt (hs.handles.fresh _ hs.handles.svrLive)
        refine ⟨hhandles, ?_, ?_, ?_⟩
        · intro h q hq
          change Function.update sys.queues sys.nextQueue (some q₀) h = some q at hq
          by_cases hh : h = sys.nextQueue
          · -- a new handle, from which nothing can have been received
            rw [hh, Function.update_self] at hq
            cases hq
            refine ⟨[], [], MsgQueue.wf_msgQueueInit hinit, ?_⟩
            rw [hh]
            exact hs.unborn _ (Nat.le_refl _)
          · rw [Function.update_of_ne hh] at hq
            exact hs.queues h q hq
        · intro h hh
          exact hs.unborn h (Nat.le_of_succ_le hh)
        · intro q hq
          change Function.update sys.queues sys.nextQueue (some q₀) sys.svrQueue = some q at hq
          rw [Function.update_of_ne hsvr] at hq
          exact hs.published q hq

theorem QueuesOk.taskTabDel {sys : MsgSys n r} {held : QHandle → List Nat}
    (hs : QueuesOk sys held) (k : TaskId) : QueuesOk (sys.taskTabDel k).2 held := by
  have hhandles := hs.handles.taskTabDel k
  rcases sys.taskTabDel_cases k with ⟨index, -, -, heq⟩ | ⟨-, heq⟩
  · rw [heq] at hhandles ⊢
    have hqueues : ∀ h q, (sys.msgQueueDeinit (sys.taskMng.tab index).handle).queues h = some q →
        sys.queues h = some q := by
      intro h q hq
      by_cases hh : (sys.taskMng.tab index).handle = some h
      · rw [hh, MsgSys.msgQueueDeinit_queues_self] at hq
        cases hq
      · rwa [MsgSys.msgQueueDeinit_queues_ne _ hh] at hq
    refine ⟨hhandles, fun h q hq => hs.queues h q (hqueues h q hq), ?_, ?_⟩
    · intro h hh
      change (sys.msgQueueDeinit _).nextQueue ≤ h at hh
      rw [MsgSys.msgQueueDeinit_nextQueue] at hh
      exact hs.unborn h hh
    · intro q hq
      refine hs.published q (hqueues _ q ?_)
      rw [← MsgSys.msgQueueDeinit_svrQueue sys (sys.taskMng.tab index).handle]
      exact hq
  · rw [heq]
    exact hs

theorem svrQueue_taskTabAdd2 (sys : MsgSys n r) (taskName : CString) (owner : TaskOwner)
    (alloc : QueueMalloc) : (sys.taskTabAdd2 taskName owner alloc).2.svrQueue = sys.svrQueue := by
  rcases sys.taskTabAdd2_cases taskName owner alloc with ⟨-, heq⟩ | ⟨_, _, -, -, -, heq⟩ <;>
    rw [heq]

theorem svrQueue_taskTabDel (sys : MsgSys n r) (k : TaskId) :
    (sys.taskTabDel k).2.svrQueue = sys.svrQueue := by
  rcases sys.taskTabDel_cases k with ⟨_, -, -, heq⟩ | ⟨-, heq⟩
  · rw [heq]
    exact MsgSys.msgQueueDeinit_svrQueue _ _
  · rw [heq]

theorem queuesOk_step [NeZero n] {s s' : Threads n r} {a : Act}
    (hs : QueuesOk s.sys s.held ∧ PutsOk s.sys s.pc) (hstep : s.step a = some s') :
    QueuesOk s'.sys s'.held ∧ PutsOk s'.sys s'.pc := by
  obtain ⟨hqueues, hputs⟩ := hs
  unfold Threads.step at hstep
  obtain ⟨s₁, hact, rfl⟩ := Option.map_eq_some_iff.mp hstep
  show QueuesOk s₁.sys s₁.held ∧ PutsOk s₁.sys s₁.pc
  cases a with
  | call c call =>
      simp only [act] at hact
      split at hact
      · cases hact
      · split at hact
        · refine Option.some.inj hact ▸ ⟨hqueues, ?_⟩
          rcases s.enter_cases call with hplain | ⟨nm, -, heq⟩
          · exact hputs.reaches hqueues.handles rfl (reaches_of_plain hplain)
          · show PutsOk s.sys (Function.update s.pc c (s.enter call))
            rw [heq]
            exact hputs.silent rfl rfl
        · cases hact
  | next c o =>
      rcases advance_cases hact with ⟨s₂, pc, hwork, hreach, rfl⟩ | htask
      · have hqueues' : QueuesOk s₂.sys s₂.held := hqueues.work hputs hwork
        refine ⟨hqueues', ?_⟩
        show PutsOk s₂.sys (Function.update s₂.pc c pc)
        rw [hwork.pc]
        exact hputs.reaches hqueues.handles hwork.tasks.svrQueue hreach
      · cases htask with
        | «exists» hpc hexist => exact ⟨hqueues, hputs.silent rfl rfl⟩
        | absent hpc hexist => exact ⟨hqueues, hputs.silent rfl rfl⟩
        | add hpc =>
            refine ⟨hqueues.taskTabAdd2 _ _ _, hputs.silent (svrQueue_taskTabAdd2 _ _ _ _) ?_⟩
            split <;> rfl
        | success hpc entries => exact ⟨hqueues.setTaskData _, hputs.silent rfl rfl⟩
        | noData hpc entries => exact ⟨hqueues.setTaskData _, hputs.silent rfl rfl⟩
        | undo hpc =>
            exact ⟨hqueues.taskTabDel _, hputs.silent (svrQueue_taskTabDel _ _) rfl⟩
        | delete hpc hpc' =>
            refine ⟨hqueues.taskTabDel _, hputs.silent (svrQueue_taskTabDel _ _) ?_⟩
            rcases hpc' with rfl | rfl
            · rfl
            · rfl

/-- The queues are in order in every state of every run. -/
theorem queuesOk_of_reach [NeZero n] {s : Threads n r} (hreach : (machine n r).Reach s) :
    QueuesOk s.sys s.held := by
  refine (hreach.invariant (I := fun s => QueuesOk s.sys s.held ∧ PutsOk s.sys s.pc) ?_
    (fun s a s' hs _ hstep => queuesOk_step hs hstep)).1
  rintro s ⟨svr, alloc, pool, hinit, rfl⟩
  have hwf := MsgQueue.wf_msgQueueInit hinit
  refine ⟨⟨MsgSys.handlesOk_init svr, ?_, fun _ _ => rfl, ?_⟩,
    ⟨fun _ _ hp => hp.elim, fun _ _ hp => by cases hp⟩⟩
  · intro h q hq
    by_cases hh : h = 0
    · subst hh
      obtain rfl : svr = q := by simpa [initial, MsgSys.init] using hq
      exact ⟨[], [], hwf, rfl⟩
    · simp [initial, MsgSys.init, hh] at hq
  · intro q hq m hm
    obtain rfl : svr = q := by simpa [initial, MsgSys.init] using hq
    rw [hwf.pending_eq] at hm
    cases hm

end Threads
end Msg
end AndroidLinux
