import AndroidLinux.Msg.QueueRuns
import AndroidLinux.Msg.SubRelation

/-!
# Publishing to the subscribers

`dispatch_SP` passes a variable that is zero as the capacity of its list to
`SUB_TAB_Sub2Task`, which tests the capacity after it has looked at a slot.  So the list
has the task in the first slot of the row and no other, and a published message reaches
this task only (`two_subscribers_not_delivered`).

`delivered_iff` says, for every state of every run and the message the server takes
next, when this is right: among the tasks with room for the message, the one in the
first slot has to be the one subscriber.
-/

namespace AndroidLinux
namespace Msg

open Lib

/-- The task in the first slot of the first row of a type. -/
def SubTab.firstTask {n m : Nat} [NeZero m] (tab : SubTab n m) (msgType : MsgType) :
    Option TaskId :=
  match tab.isExist msgType with
  | none => none
  | some unitIndex => tab.slotTask unitIndex 0

/-- With capacity zero the list has the task in the first slot and no other. -/
theorem SubTab.sub2TaskLocked_zero {n m : Nat} [NeZero m] (tab : SubTab n m)
    (unitIndex : Fin n) :
    tab.sub2TaskLocked unitIndex 0 = (tab.slotTask unitIndex 0).toList := by
  unfold sub2TaskLocked
  obtain ⟨k, rfl⟩ : ∃ k, m = k + 1 := Nat.exists_eq_succ_of_ne_zero (NeZero.ne m)
  rw [List.finRange_succ, collect_zero]

namespace MsgSys

variable {n r : Nat}

/-- Every task that is subscribed to the type of the message and has room for it gets
one copy, addressed to it, and no other task gets anything. -/
def Delivered (s s' : MsgSys n r) (m : MsgData) : Prop :=
  ∀ k h q, s.taskMng.getHandle k = some h → s.queues h = some q →
    ∃ q', s'.queues h = some q' ∧
      ((m.hdr.msg.msgType, k) ∈ s.subTab.rel ∧ q.HasRoom m →
        q'.pending = q.pending ++ [(m.withRcv k).content]) ∧
      (¬ ((m.hdr.msg.msgType, k) ∈ s.subTab.rel ∧ q.HasRoom m) → q'.pending = q.pending)

/-- Among the tasks with room for the message, the subscribers are the task in the
first slot of the first row of its type. -/
def OnlyFirst [NeZero n] (s : MsgSys n r) (m : MsgData) : Prop :=
  ∀ k h q, s.taskMng.getHandle k = some h → s.queues h = some q → q.HasRoom m →
    ((m.hdr.msg.msgType, k) ∈ s.subTab.rel ↔ s.subTab.firstTask m.hdr.msg.msgType = some k)

/-- What the queue of a task becomes: the task in the first slot is sent a copy. -/
def sentTo [NeZero n] (s : MsgSys n r) (m : MsgData) (k : TaskId) (q : MsgQueue) : MsgQueue :=
  if s.subTab.firstTask m.hdr.msg.msgType = some k then (q.msgQueuePut (m.withRcv k)).2 else q

/-! ## One turn of the server -/

/-- Different tasks have different queues. -/
theorem HandlesOk.getHandle_inj {s : MsgSys n r} (hs : s.HandlesOk) {k k' : TaskId}
    {h : QHandle} (hk : s.taskMng.getHandle k = some h) (hk' : s.taskMng.getHandle k' = some h) :
    k = k' := by
  have hrow : ∀ {k}, s.taskMng.getHandle k = some h →
      ∃ i, (s.taskMng.tab i).taskId = k ∧ (s.taskMng.tab i).handle = some h := by
    intro k hget
    unfold TaskMng.getHandle at hget
    split at hget
    · rename_i i hfind
      exact ⟨i, TaskMng.findId_eq_some hfind, hget⟩
    · cases hget
  obtain ⟨i, hid, hi⟩ := hrow hk
  obtain ⟨j, hjd, hj⟩ := hrow hk'
  rw [← hid, ← hjd, hs.unique i j h hi hj]

/-- Replacing the content of a live queue leaves the handles in order. -/
theorem HandlesOk.setQueue {s : MsgSys n r} (hs : s.HandlesOk) {h : QHandle} (q : MsgQueue)
    (hlive : (s.queues h).isSome = true) : (s.setQueue h q).HandlesOk := by
  have hsome : ∀ h', ((s.setQueue h q).queues h').isSome = (s.queues h').isSome := by
    intro h'
    show (Function.update s.queues h (some q) h').isSome = _
    by_cases hh : h' = h
    · rw [hh, Function.update_self, hlive]
      rfl
    · rw [Function.update_of_ne hh]
  refine ⟨?_, hs.unique, hs.free, ?_, ?_, hs.svrOwn, hs.counter⟩
  · intro i h' hh
    rw [hsome]
    exact hs.live i h' hh
  · intro h' hh
    rw [hsome] at hh
    exact hs.fresh h' hh
  · rw [hsome]
    exact hs.svrLive

/-- The server message with another receiver. -/
theorem read_setRcv (q : MsgQueue) (p : Nat) (k : TaskId) :
    (q.setRcv p k).mem.read p = (q.mem.read p).withRcv k := by
  unfold MsgQueue.setRcv MsgMem.setRcv MsgMem.read MsgData.withRcv
  simp only [Function.update_self]
  rfl

/-- One pass of the loop of `dispatch_SP`. -/
theorem dispatchTo_eq {s : MsgSys n r} {svr : MsgQueue} (hsvr : s.queues s.svrQueue = some svr)
    (hs : s.HandlesOk) (p : Nat) (k : TaskId) :
    ∃ s', s.dispatchTo p k = s' ∧ s'.svrQueue = s.svrQueue ∧
      s'.queues s.svrQueue = some (svr.setRcv p k) ∧
      ∀ k' h q, s.taskMng.getHandle k' = some h → s.queues h = some q →
        s'.queues h = some (if k = k' then
          (q.msgQueuePut ((svr.mem.read p).withRcv k)).2 else q) := by
  refine ⟨_, rfl, ?_⟩
  -- no task has the queue of the server
  have hne : ∀ {k' : TaskId} {h : QHandle}, s.taskMng.getHandle k' = some h →
      h ≠ s.svrQueue := by
    intro k' h hget
    obtain ⟨i, hi⟩ := Threads.getHandle_mem hget
    exact fun e => hs.svrOwn i (e ▸ hi)
  unfold dispatchTo
  simp only [hsvr]
  have hmng : (s.setQueue s.svrQueue (svr.setRcv p k)).taskMng = s.taskMng := rfl
  rw [hmng]
  cases hget : s.taskMng.getHandle k with
  | none =>
      refine ⟨rfl, Function.update_self _ _ _, ?_⟩
      intro k' h q hget' hq
      have hk : k ≠ k' := by
        intro heq
        subst heq
        rw [hget] at hget'
        cases hget'
      rw [if_neg hk]
      show Function.update s.queues s.svrQueue _ h = some q
      rw [Function.update_of_ne (hne hget')]
      exact hq
  | some h₀ =>
      have hlive : ∃ q₀, s.queues h₀ = some q₀ := by
        obtain ⟨i, hi⟩ := Threads.getHandle_mem hget
        exact Option.isSome_iff_exists.mp (hs.live i h₀ hi)
      obtain ⟨q₀, hq₀⟩ := hlive
      have hq₀' : (s.setQueue s.svrQueue (svr.setRcv p k)).queues h₀ = some q₀ := by
        show Function.update s.queues s.svrQueue _ h₀ = some q₀
        rw [Function.update_of_ne (hne hget)]
        exact hq₀
      simp only [hq₀', read_setRcv]
      refine ⟨rfl, ?_, ?_⟩
      · show Function.update (Function.update s.queues s.svrQueue _) h₀ _ s.svrQueue = _
        rw [Function.update_of_ne (hne hget).symm, Function.update_self]
      · intro k' h q hget' hq
        show Function.update (Function.update s.queues s.svrQueue _) h₀ _ h = _
        by_cases hk : k = k'
        · subst hk
          obtain rfl : h₀ = h := Option.some.inj (hget.symm.trans hget')
          obtain rfl : q₀ = q := Option.some.inj (hq₀.symm.trans hq)
          rw [Function.update_self, if_pos rfl]
        · -- another task has another queue
          have hh : h ≠ h₀ := by
            intro heq
            subst heq
            exact hk (hs.getHandle_inj hget hget')
          rw [Function.update_of_ne hh, Function.update_of_ne (hne hget'), if_neg hk]
          exact hq

/-- The list of `dispatch_SP` has at most one task. -/
theorem dispatchSP_firstTask [NeZero n] (s : MsgSys n r) (p : Nat) (t : MsgType) :
    s.dispatchSP p t =
      match s.subTab.firstTask t with
      | none => s
      | some k => s.dispatchTo p k := by
  unfold dispatchSP SubTab.sub2Task SubTab.firstTask
  cases s.subTab.isExist t with
  | none => rfl
  | some unitIndex =>
      simp only [SubTab.sub2TaskLocked_zero]
      cases s.subTab.slotTask unitIndex 0 with
      | none => rfl
      | some k => rfl

/-- `dispatch_SP` sends to the task in the first slot. -/
theorem dispatchSP_eq [NeZero n] {s : MsgSys n r} {svr : MsgQueue} {p : Nat} {m : MsgData}
    (hsvr : s.queues s.svrQueue = some svr) (hs : s.HandlesOk) (hm : svr.mem.read p = m) :
    (s.dispatchSP p m.hdr.msg.msgType).svrQueue = s.svrQueue ∧
      (∃ svr', (s.dispatchSP p m.hdr.msg.msgType).queues s.svrQueue = some svr' ∧
        (svr' = svr ∨ ∃ k, svr' = svr.setRcv p k)) ∧
      ∀ k h q, s.taskMng.getHandle k = some h → s.queues h = some q →
        (s.dispatchSP p m.hdr.msg.msgType).queues h = some (s.sentTo m k q) := by
  rw [dispatchSP_firstTask]
  unfold sentTo
  cases hfirst : s.subTab.firstTask m.hdr.msg.msgType with
  | none =>
      refine ⟨rfl, ⟨svr, hsvr, Or.inl rfl⟩, ?_⟩
      intro k h q _ hq
      rw [if_neg (Option.some_ne_none k).symm]
      exact hq
  | some k₀ =>
      obtain ⟨s', hdisp, hsvr', hself, hother⟩ := dispatchTo_eq hsvr hs p k₀
      rw [hm] at hother
      simp only [hdisp]
      refine ⟨hsvr', ⟨_, hself, Or.inr ⟨k₀, rfl⟩⟩, ?_⟩
      intro k h q hget hq
      rw [hother k h q hget hq]
      by_cases hk : k₀ = k
      · rw [hk, if_pos rfl, if_pos rfl]
      · rw [if_neg hk, if_neg (fun e => hk (Option.some.inj e))]

/-- One turn of the server takes the first message, sends it to the task in the first
slot and frees it. -/
theorem rcvAndDispatch_eq [NeZero n] {s : MsgSys n r} {svr : MsgQueue} {a : Nat}
    {nodes held : List Nat} (hsvr : s.queues s.svrQueue = some svr) (hs : s.HandlesOk)
    (hwf : svr.WF (a :: nodes) held)
    (hpub : isPublished (svr.mem.read (a + mbHeadLen)).hdr) :
    ∃ s', s.rcvAndDispatch = some (svr.mem.read (a + mbHeadLen), s') ∧
      ∀ k h q, s.taskMng.getHandle k = some h → s.queues h = some q →
        s'.queues h = some (s.sentTo (svr.mem.read (a + mbHeadLen)) k q) := by
  obtain ⟨svr₁, hget, hwf₁, hmem₁⟩ := hwf.msgQueueGet_cons
  have hread : svr₁.mem.read (a + mbHeadLen) = svr.mem.read (a + mbHeadLen) := by rw [hmem₁]
  have hne : ∀ {k : TaskId} {h : QHandle}, s.taskMng.getHandle k = some h →
      h ≠ s.svrQueue := by
    intro k h hhandle
    obtain ⟨i, hi⟩ := Threads.getHandle_mem hhandle
    exact fun e => hs.svrOwn i (e ▸ hi)
  have hs₁ : (s.setQueue s.svrQueue svr₁).HandlesOk := hs.setQueue svr₁ hs.svrLive
  have hsvr₁ : (s.setQueue s.svrQueue svr₁).queues (s.setQueue s.svrQueue svr₁).svrQueue =
      some svr₁ := Function.update_self _ _ _
  obtain ⟨hsvr₂, ⟨svr₂, hqueue₂, hsame⟩, hsent⟩ := dispatchSP_eq hsvr₁ hs₁ hread
  generalize hs₂ : (s.setQueue s.svrQueue svr₁).dispatchSP (a + mbHeadLen)
    (svr.mem.read (a + mbHeadLen)).hdr.msg.msgType = s₂ at hsvr₂ hqueue₂ hsent
  -- the message is still on loan, so it can be freed
  have hwf₂ : svr₂.WF nodes (a :: held) := by
    rcases hsame with rfl | ⟨k, rfl⟩
    · exact hwf₁
    · exact hwf₁.setRcv _ k
  obtain ⟨svr₃, hfree, -, -⟩ := hwf₂.msgQueueFree List.mem_cons_self
  rw [← hsvr₂] at hqueue₂
  refine ⟨s₂.setQueue s₂.svrQueue svr₃, ?_, ?_⟩
  · unfold rcvAndDispatch
    simp only [hsvr, hget, hread, if_pos hpub, hs₂, hqueue₂, hfree]
  · intro k h q hhandle hq
    have hsvr' : h ≠ s₂.svrQueue := fun e => hne hhandle (e.trans hsvr₂)
    show Function.update s₂.queues s₂.svrQueue (some svr₃) h = _
    rw [Function.update_of_ne hsvr']
    refine hsent k h q hhandle ?_
    show Function.update s.queues s.svrQueue _ h = some q
    rw [Function.update_of_ne (hne hhandle)]
    exact hq

/-! ## When the delivery is right -/

/-- A message of the server can be put wherever there is room for it. -/
theorem pending_put {q : MsgQueue} {held : List Nat} {m : MsgData} (hq : q.Ok held)
    (hcheck : MsgQueue.checkBody m = none) (hroom : q.HasRoom m) (k : TaskId) :
    (q.msgQueuePut (m.withRcv k)).2.pending = q.pending ++ [(m.withRcv k).content] := by
  obtain ⟨nodes, blocks, hwf, -⟩ := hq
  have hok : (q.msgQueuePut (m.withRcv k)).1 = .ok :=
    MsgQueue.msgQueuePut_ok_iff.mpr ⟨hcheck, hroom⟩
  obtain ⟨a, hwf', hnew, hold⟩ := hwf.msgQueuePut hok
  rw [hwf'.pending_eq, hwf.pending_eq, List.map_append, List.map_singleton, hnew]
  congr 1
  refine List.map_congr_left ?_
  intro b hb
  exact hold b (List.mem_append_left _ hb)

theorem put_of_no_room {q : MsgQueue} {m : MsgData} (hroom : ¬ q.HasRoom m) (k : TaskId) :
    (q.msgQueuePut (m.withRcv k)).2 = q := by
  refine MsgQueue.msgQueuePut_of_err ?_
  intro hok
  exact hroom (MsgQueue.msgQueuePut_ok_iff.mp hok).2

/-- The messages of a queue grow by the copy exactly for the task in the first slot,
when there is room. -/
theorem pending_sentTo [NeZero n] {s : MsgSys n r} {q : MsgQueue} {held : List Nat}
    {m : MsgData} (hq : q.Ok held) (hcheck : MsgQueue.checkBody m = none) (k : TaskId) :
    (s.subTab.firstTask m.hdr.msg.msgType = some k ∧ q.HasRoom m →
      (s.sentTo m k q).pending = q.pending ++ [(m.withRcv k).content]) ∧
    (¬ (s.subTab.firstTask m.hdr.msg.msgType = some k ∧ q.HasRoom m) →
      (s.sentTo m k q).pending = q.pending) := by
  unfold sentTo
  constructor
  · intro hgiven
    obtain ⟨hfirst, hroom⟩ := hgiven
    rw [if_pos hfirst]
    exact pending_put hq hcheck hroom k
  · intro hnot
    split
    · rename_i hfirst
      rw [put_of_no_room (fun hroom => hnot ⟨hfirst, hroom⟩)]
    · rfl

theorem delivered_iff_onlyFirst [NeZero n] {s s' : MsgSys n r} {m : MsgData}
    (hq : ∀ h q, s.queues h = some q → ∃ held, q.Ok held)
    (hcheck : MsgQueue.checkBody m = none)
    (hsent : ∀ k h q, s.taskMng.getHandle k = some h → s.queues h = some q →
      s'.queues h = some (s.sentTo m k q)) : Delivered s s' m ↔ OnlyFirst s m := by
  constructor
  · intro hdel k h q hget hqueue hroom
    obtain ⟨held, hok⟩ := hq h q hqueue
    obtain ⟨q', hq', hyes, hno⟩ := hdel k h q hget hqueue
    obtain rfl : s.sentTo m k q = q' :=
      Option.some.inj ((hsent k h q hget hqueue).symm.trans hq')
    obtain ⟨hgrow, hkeep⟩ := pending_sentTo (s := s) hok hcheck k
    -- a list does not equal itself with one more element
    have hlong : ∀ x, q.pending ≠ q.pending ++ [x] := fun x h => by simp at h
    constructor
    · intro hrel
      by_contra hfirst
      have hsame := hkeep (fun h => hfirst h.1)
      exact hlong _ (hsame.symm.trans (hyes ⟨hrel, hroom⟩))
    · intro hfirst
      by_contra hrel
      have hsame := hno (fun h => hrel h.1)
      exact hlong _ (hsame.symm.trans (hgrow ⟨hfirst, hroom⟩))
  · intro hfirst k h q hget hqueue
    obtain ⟨held, hok⟩ := hq h q hqueue
    obtain ⟨hgrow, hkeep⟩ := pending_sentTo (s := s) hok hcheck k
    refine ⟨s.sentTo m k q, hsent k h q hget hqueue, ?_, ?_⟩
    · intro hgiven
      obtain ⟨hrel, hroom⟩ := hgiven
      exact hgrow ⟨(hfirst k h q hget hqueue hroom).mp hrel, hroom⟩
    · intro hnot
      refine hkeep ?_
      intro hgiven
      obtain ⟨hslot, hroom⟩ := hgiven
      exact hnot ⟨(hfirst k h q hget hqueue hroom).mpr hslot, hroom⟩

end MsgSys

namespace Threads

/-- In every state of every run in which the server has a message, one turn of it takes
the first one, and delivers it to exactly the subscribers with room for it if and only
if, among the tasks with room, the one in the first slot of the first row of its type is
the subscriber. -/
theorem delivered_iff (n r : Nat) [NeZero n] (s : Threads n r)
    (hreach : (machine n r).Reach s) (svr : MsgQueue)
    (hsvr : s.sys.queues s.sys.svrQueue = some svr)
    (first : InnerBlock × List UInt8) (rest : List (InnerBlock × List UInt8))
    (hpending : svr.pending = first :: rest) :
    ∃ m sys', s.sys.rcvAndDispatch = some (m, sys') ∧ m.content = first ∧
      (MsgSys.Delivered s.sys sys' m ↔ MsgSys.OnlyFirst s.sys m) := by
  have hs := queuesOk_of_reach hreach
  obtain ⟨nodes, blocks, hwf, -⟩ := hs.queues _ svr hsvr
  have hpub := hs.published svr hsvr
  unfold MsgQueue.AllPublished at hpub
  rw [hwf.pending_eq] at hpending hpub
  cases nodes with
  | nil => cases hpending
  | cons a nodes =>
      rw [List.map_cons] at hpending hpub
      obtain ⟨hfirst, -⟩ := List.cons.inj hpending
      have hpub₀ : MsgSys.isPublished (svr.mem.read (a + mbHeadLen)).hdr :=
        hpub _ List.mem_cons_self
      obtain ⟨sys', hturn, hsent⟩ := MsgSys.rcvAndDispatch_eq hsvr hs.handles hwf hpub₀
      refine ⟨_, sys', hturn, hfirst, MsgSys.delivered_iff_onlyFirst ?_ ?_ hsent⟩
      · exact fun h q hq => ⟨_, hs.queues h q hq⟩
      · exact hwf.checked a (List.mem_append_left _ List.mem_cons_self)

/-! ## Schedules -/

/-- Thread `1` makes a call and runs it for some sections. -/
def runCall (call : Call) (sections : Nat) : List Act :=
  .call 1 call :: List.replicate sections (.next 1 granted)

/-- A message of type `5` without a body. -/
def msgOfType5 : MsgData :=
  ⟨{ zeroInnerBlock with msg := { zeroInnerBlock.msg with msgType := 5 } }, fun _ => 0⟩

/-- Register a task of the given name, which gets the id `k`, and subscribe it. -/
def subscribe5 (taskName : CString) (k : TaskId) : List Act :=
  runCall (.register taskName) 3 ++ runCall (.subscribe k 5) 3

/-- One task is subscribed and a message has been published. -/
def oneSubscriber : Threads 2 1 :=
  ((machine 2 1).run (initial (MsgSys.init 2 1 .freshQueue))
    (subscribe5 ⟨[97], by decide⟩ 0 ++ runCall (.publish msgOfType5) 2)).get (by decide +kernel)

/-- Two tasks are subscribed and a message has been published. -/
def twoSubscribers : Threads 2 1 :=
  ((machine 2 1).run (initial (MsgSys.init 2 1 .freshQueue))
    (subscribe5 ⟨[97], by decide⟩ 0 ++ subscribe5 ⟨[98], by decide⟩ 1 ++
      runCall (.publish msgOfType5) 2)).get (by decide +kernel)

theorem init_freshQueue (n r : Nat) [NeZero n] :
    (machine n r).init (initial (MsgSys.init n r .freshQueue)) :=
  ⟨.freshQueue, true, fun _ => true, MsgQueue.msgQueueInit_freshQueue, rfl⟩

theorem oneSubscriber_onlyFirst {m : MsgData} (htype : m.hdr.msg.msgType = 5) :
    MsgSys.OnlyFirst oneSubscriber.sys m := by
  intro k h q hget _ _
  have hslots : ∀ u x, (oneSubscriber.sys.subTab u).taskIdList x = 0 ∨
      (oneSubscriber.sys.subTab u).taskIdList x = vtopInvalidTaskId := by decide +kernel
  have hrow : (oneSubscriber.sys.subTab 0).msgType = 5 ∧
      (oneSubscriber.sys.subTab 0).taskIdList 0 = 0 := by decide +kernel
  have hfirst : oneSubscriber.sys.subTab.firstTask 5 = some 0 := by decide +kernel
  rw [htype, hfirst]
  constructor
  · intro hgiven
    obtain ⟨-, hk, u, x, -, hslot⟩ := hgiven
    rcases hslots u x with hzero | hnone
    · exact congrArg some (hzero.symm.trans hslot)
    · exact absurd (hslot.symm.trans hnone) hk
  · rintro ⟨⟩
    exact ⟨by decide, by decide, 0, 0, hrow⟩

theorem oneSubscriber_delivered : ∃ m sys', oneSubscriber.sys.rcvAndDispatch = some (m, sys') ∧
    MsgSys.Delivered oneSubscriber.sys sys' m := by
  have hreach : (machine 2 1).Reach oneSubscriber :=
    Machine.reach_of_run _ (init_freshQueue 2 1) (Option.some_get _).symm
  obtain ⟨svr, hsvr⟩ := Option.isSome_iff_exists.mp
    (by decide +kernel :
      (oneSubscriber.sys.queues oneSubscriber.sys.svrQueue).isSome = true)
  have htypes : (oneSubscriber.sys.queues oneSubscriber.sys.svrQueue).map
      (fun q => q.pending.map (fun m => m.1.msg.msgType)) = some [5] := by decide +kernel
  rw [hsvr] at htypes
  have htypes : svr.pending.map (fun m => m.1.msg.msgType) = [5] := Option.some.inj htypes
  obtain ⟨first, hpending, htype⟩ := List.map_eq_singleton_iff.mp htypes
  obtain ⟨m, sys', hturn, hfirst, hiff⟩ :=
    delivered_iff 2 1 oneSubscriber hreach svr hsvr first [] hpending
  refine ⟨m, sys', hturn, hiff.mpr (oneSubscriber_onlyFirst ?_)⟩
  rw [← htype, ← hfirst]
  rfl

/-- With two subscribers, the second one gets nothing. -/
theorem two_subscribers_not_delivered : (machine 2 1).Reach twoSubscribers ∧
    ∃ m sys', twoSubscribers.sys.rcvAndDispatch = some (m, sys') ∧
      ¬ MsgSys.Delivered twoSubscribers.sys sys' m := by
  refine ⟨Machine.reach_of_run _ (init_freshQueue 2 1) (Option.some_get _).symm, ?_⟩
  have hfinal : twoSubscribers.sys.rcvAndDispatch.map (fun p =>
      (p.1.hdr.msg.msgType, p.1.hdr.len, (p.2.queues 2).map (fun q => q.pending.length))) =
      some (5, 0, some 0) := by decide +kernel
  obtain ⟨⟨m, sys'⟩, hturn, hfinal⟩ := Option.map_eq_some_iff.mp hfinal
  simp only [Prod.mk.injEq] at hfinal
  obtain ⟨htype, hlen, hqueue'⟩ := hfinal
  refine ⟨m, sys', hturn, ?_⟩
  intro hdel
  -- the second task is subscribed and its queue has room
  have hroom : (twoSubscribers.sys.queues 2).map (fun q =>
      (q.buf.mbAlloc (0 + msgInnerHeadLen)).isSome) = some true := by decide +kernel
  obtain ⟨q, hq, hroom⟩ := Option.map_eq_some_iff.mp hroom
  have hrel : (m.hdr.msg.msgType, (1 : TaskId)) ∈ twoSubscribers.sys.subTab.rel := by
    rw [htype]
    exact ⟨by decide, by decide, 0, 1, by decide +kernel⟩
  obtain ⟨q', hq', hyes, -⟩ := hdel 1 2 q (by decide +kernel) hq
  have hgrown := hyes ⟨hrel, by unfold MsgQueue.HasRoom; rw [hlen]; exact hroom⟩
  have hempty : q'.pending.length = 0 := by
    rw [hq'] at hqueue'
    exact Option.some.inj hqueue'
  rw [hgrown, List.length_append, List.length_singleton] at hempty
  omega

end Threads
end Msg
end AndroidLinux
