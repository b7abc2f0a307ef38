import AndroidLinux.Msg.Publish

/-!
# Messages and the pools they came from

`VTOP_MSG_RecvFree` finds the pool of a message through the `rcvTaskId` in the message
itself.  So a message in the queue of a task, or received from it and not freed yet, has
to carry the id of this task: whatever the senders, the receivers and the dispatcher do
at the same time, and although `dispatch_SP` writes one receiver after the other in the
one message it publishes.

The calls that send, publish, receive and free never touch the task table.  A run may
register and unregister tasks as well; what it must not do is to give a new task the id
of one that messages are still addressed to (`NewReceiver`).
-/

namespace AndroidLinux
namespace Msg

open Lib

namespace MsgQueue

/-- The addresses of the messages in a queue and of those received from it. -/
def messages (q : MsgQueue) (held : List Nat) : List Nat :=
  q.nodeList.map (· + mbHeadLen) ++ held

/-- The receiver in the header at `p`. -/
def rcvTaskId (q : MsgQueue) (p : Nat) : TaskId :=
  (q.mem.inner p).msg.rcvTaskId

theorem WF.messages_eq {q : MsgQueue} {nodes blocks : List Nat} (hwf : q.WF nodes blocks) :
    q.messages (blocks.map (· + mbHeadLen)) = (nodes ++ blocks).map (· + mbHeadLen) := by
  unfold messages
  rw [hwf.nodeList_eq, List.map_append]

/-- The content of a message has its receiver. -/
theorem rcvTaskId_of_content {q : MsgQueue} {a : Nat} {m : MsgData}
    (hcontent : q.contentAt a = m.content) :
    q.rcvTaskId (a + mbHeadLen) = m.hdr.msg.rcvTaskId := by
  have hhdr : (q.mem.inner (a + mbHeadLen)).withBody .null = m.hdr.withBody .null :=
    congrArg Prod.fst hcontent
  exact congrArg (fun b => b.msg.rcvTaskId) hhdr

/-- Blocks with the same content have the same receiver. -/
theorem rcvTaskId_congr {q q' : MsgQueue} {a : Nat} (hcontent : q'.contentAt a = q.contentAt a) :
    q'.rcvTaskId (a + mbHeadLen) = q.rcvTaskId (a + mbHeadLen) :=
  rcvTaskId_of_content (m := q.mem.read (a + mbHeadLen)) hcontent

/-- A message that is put leaves the ones that were there. -/
theorem WF.messages_put {q : MsgQueue} {nodes blocks : List Nat} (hwf : q.WF nodes blocks)
    (pMsg : MsgData) :
    let q' := (q.msgQueuePut pMsg).2
    (∀ p ∈ q.messages (blocks.map (· + mbHeadLen)),
      p ∈ q'.messages (blocks.map (· + mbHeadLen)) ∧ q'.rcvTaskId p = q.rcvTaskId p) ∧
    ∀ p ∈ q'.messages (blocks.map (· + mbHeadLen)),
      p ∈ q.messages (blocks.map (· + mbHeadLen)) ∨
        q'.rcvTaskId p = pMsg.hdr.msg.rcvTaskId := by
  intro q'
  by_cases hok : (q.msgQueuePut pMsg).1 = .ok
  · obtain ⟨a, hwf', hnew, hold⟩ := hwf.msgQueuePut hok
    rw [hwf.messages_eq, hwf'.messages_eq]
    constructor
    · intro p hp
      obtain ⟨b, hb, rfl⟩ := List.mem_map.mp hp
      refine ⟨?_, rcvTaskId_congr (hold b hb)⟩
      apply List.mem_map_of_mem
      simp only [List.mem_append, List.mem_singleton] at hb ⊢
      tauto
    · intro p hp
      obtain ⟨b, hb, rfl⟩ := List.mem_map.mp hp
      simp only [List.mem_append, List.mem_singleton] at hb
      by_cases hba : b = a
      · right
        rw [hba]
        exact rcvTaskId_of_content hnew
      · left
        apply List.mem_map_of_mem
        simp only [List.mem_append]
        tauto
  · have hsame : q' = q := msgQueuePut_of_err hok
    rw [hsame]
    exact ⟨fun p hp => ⟨hp, rfl⟩, fun p hp => Or.inl hp⟩

theorem rcvTaskId_of_mem {q q' : MsgQueue} (hmem : q'.mem = q.mem) (p : Nat) :
    q'.rcvTaskId p = q.rcvTaskId p := by
  unfold rcvTaskId
  rw [hmem]

section QueueStep

variable {P : MsgData → Prop} {U : Prop} {R : Nat → TaskId → Prop} {q q' : MsgQueue}
  {held held' : List Nat}

/-- After a step that readdresses nothing, a message is an old one or one just put. -/
theorem Ok.messages_queueStep (hq : q.Ok held) (hstep : QueueStep P U R q held q' held')
    (hR : ∀ p k, ¬ R p k) : ∀ p ∈ q'.messages held',
      (p ∈ q.messages held ∧ q'.rcvTaskId p = q.rcvTaskId p) ∨
        ∃ m, P m ∧ q'.rcvTaskId p = m.hdr.msg.rcvTaskId := by
  obtain ⟨nodes, blocks, hwf, rfl⟩ := hq
  -- an operation that leaves the memory alone and hands out only queued messages
  have hkeep : ∀ {q₁ : MsgQueue} {nodes₁ blocks₁ : List Nat}, q₁.WF nodes₁ blocks₁ →
      q₁.mem = q.mem → nodes₁ ++ blocks₁ ⊆ nodes ++ blocks →
      ∀ p ∈ q₁.messages (blocks₁.map (· + mbHeadLen)),
        (p ∈ q.messages (blocks.map (· + mbHeadLen)) ∧ q₁.rcvTaskId p = q.rcvTaskId p) ∨
          ∃ m, P m ∧ q₁.rcvTaskId p = m.hdr.msg.rcvTaskId := by
    intro q₁ nodes₁ blocks₁ hwf₁ hmem hsub p hp
    rw [hwf₁.messages_eq] at hp
    rw [hwf.messages_eq]
    exact Or.inl ⟨List.map_subset _ hsub hp, rcvTaskId_of_mem hmem p⟩
  cases hstep with
  | same => exact hkeep hwf rfl (fun _ h => h)
  | @put _ pMsg hput =>
      obtain ⟨hold, hnew⟩ := hwf.messages_put pMsg
      intro p hp
      rcases hnew p hp with hmem | hrcv
      · exact Or.inl ⟨hmem, (hold p hmem).2⟩
      · exact Or.inr ⟨pMsg, hput, hrcv⟩
  | @get _ _ pMsg huse hget =>
      obtain ⟨a, nodes, rfl, rfl, hwf₁, hmem₁⟩ := hwf.msgQueueGet_inv hget
      refine hkeep hwf₁ hmem₁ ?_
      intro x hx
      simp only [List.mem_append, List.mem_cons] at hx ⊢
      tauto
  | @merge _ _ pMsg msgtype huse hget =>
      rcases hwf.msgQueueGetMerge msgtype with hnone | ⟨b, q₁, nodes₁, hget₁, hwf₁, hmem₁, hsub⟩
      · rw [hnone] at hget
        cases hget
      · rw [hget₁] at hget
        cases hget
        refine hkeep hwf₁ hmem₁ ?_
        intro x hx
        have hx' : x ∈ b :: nodes₁ ∨ x ∈ blocks := by
          simp only [List.mem_append, List.mem_cons] at hx ⊢
          tauto
        exact List.mem_append.mpr (hx'.imp_left (fun h => hsub h))
  | @free _ _ pMsg huse hheld hfree =>
      obtain ⟨a, ha, rfl⟩ := List.mem_map.mp hheld
      obtain ⟨q₁, hfree₁, hwf₁, hmem₁⟩ := hwf.msgQueueFree ha
      rw [hfree₁] at hfree
      cases hfree
      have herase : (blocks.map (· + mbHeadLen)).erase (a + mbHeadLen) =
          (blocks.erase a).map (· + mbHeadLen) :=
        (List.map_erase (fun _ _ h => Nat.add_right_cancel h) _).symm
      rw [herase]
      refine hkeep hwf₁ hmem₁ ?_
      intro x hx
      simp only [List.mem_append] at hx ⊢
      exact hx.imp_right List.mem_of_mem_erase
  | setRcv _ hrcv => exact absurd hrcv (hR _ _)

/-- A step that takes no message leaves those on loan alone. -/
theorem held_queueStep (hstep : QueueStep P U R q held q' held') (hU : ¬ U) : held' = held := by
  cases hstep with
  | same | put | setRcv => rfl
  | get _ huse hget => exact absurd huse hU
  | merge _ huse hget => exact absurd huse hU
  | free huse hheld hfree => exact absurd huse hU

/-- A step that neither takes nor readdresses a message leaves the old ones alone. -/
theorem Ok.messages_kept (hq : q.Ok held) (hstep : QueueStep P U R q held q' held')
    (hU : ¬ U) (hR : ∀ p k, ¬ R p k) :
    ∀ p ∈ q.messages held, p ∈ q'.messages held' ∧ q'.rcvTaskId p = q.rcvTaskId p := by
  obtain ⟨nodes, blocks, hwf, rfl⟩ := hq
  cases hstep with
  | same => exact fun p hp => ⟨hp, rfl⟩
  | @put _ pMsg hput => exact (hwf.messages_put pMsg).1
  | get _ huse hget => exact absurd huse hU
  | merge _ huse hget => exact absurd huse hU
  | free huse hheld hfree => exact absurd huse hU
  | setRcv _ hrcv => exact absurd hrcv (hR _ _)

end QueueStep

end MsgQueue

namespace TaskMng

variable {n : Nat}

/-- The id of a task with a queue is looked up in its row. -/
theorem getHandle_eq_some {t : TaskMng n} {k : TaskId} {h : QHandle}
    (hget : t.getHandle k = some h) :
    ∃ i, t.findId k = some i ∧ (t.tab i).taskId = k ∧ (t.tab i).handle = some h := by
  unfold getHandle at hget
  cases hfind : t.findId k with
  | none => simp [hfind] at hget
  | some i =>
      rw [hfind] at hget
      exact ⟨i, rfl, findId_eq_some hfind, hget⟩

theorem getHandle_congr {t t' : TaskMng n}
    (hrows : ∀ i, (t'.tab i).taskId = (t.tab i).taskId ∧ (t'.tab i).handle = (t.tab i).handle)
    (k : TaskId) : t'.getHandle k = t.getHandle k := by
  have hfind : t'.findId k = t.findId k := by
    unfold findId
    simp only [(hrows _).1]
  unfold getHandle
  rw [hfind]
  split
  · exact (hrows _).2
  · rfl

/-- A row that neither had nor gets the id has no part in the lookup. -/
theorem getHandle_update {t : TaskMng n} {index : Fin n} {row : TaskRow} {counter k : TaskId}
    (hold : (t.tab index).taskId ≠ k) (hnew : row.taskId ≠ k) :
    TaskMng.getHandle ⟨Function.update t.tab index row, counter⟩ k = t.getHandle k := by
  have hsame : ∀ i, ((Function.update t.tab index row i).taskId == k) =
      ((t.tab i).taskId == k) := by
    intro i
    by_cases hi : i = index
    · rw [hi, Function.update_self, beq_false_of_ne hold, beq_false_of_ne hnew]
    · rw [Function.update_of_ne hi]
  have hfind : TaskMng.findId ⟨Function.update t.tab index row, counter⟩ k = t.findId k := by
    unfold findId
    simp only [hsame]
  unfold getHandle
  rw [hfind]
  cases hrow : t.findId k with
  | none => rfl
  | some i =>
      have hi : i ≠ index := by
        intro heq
        exact hold (heq ▸ findId_eq_some hrow)
      change (Function.update t.tab index row i).handle = _
      rw [Function.update_of_ne hi]

end TaskMng

/-- The program points of the dispatcher. -/
def Pc.dispatches {r : Nat} : Pc r → Bool
  | .dispGet | .dispRow _ | .dispScan _ _ | .dispHandle _ _ | .dispPut _ _ _ => true
  | _ => false

/-- The message that is being dispatched. -/
def Pc.dispMsg {r : Nat} : Pc r → Option Nat
  | .dispRow pMsg | .dispScan pMsg _ | .dispHandle pMsg _ | .dispPut pMsg _ _ => some pMsg
  | _ => none

/-- The program points of a client without a handle. -/
def Pc.unbound {r : Nat} : Pc r → Bool
  | .sendPut _ _ | .recvMerge _ _ _ | .recvGet _ _ _ | .freeMsg _ _ => false
  | pc => !pc.dispatches

namespace Threads

variable {n r : Nat}

@[simp] theorem goto_pc_self (s : Threads n r) (c : Nat) (pc : Pc r) :
    (s.goto c pc).pc c = pc := by
  unfold goto
  exact Function.update_self _ _ _

/-! ## Where a section leads -/

/-- What a thread remembers at the program point that it goes to. -/
structure Goes (s : Threads n r) (c : Nat) (s' : Threads n r) : Prop where
  sends : ∀ h m, s'.pc c = .sendPut h m →
    s.sys.taskMng.getHandle m.hdr.msg.rcvTaskId = some h
  delivers : ∀ pMsg h rest, s'.pc c = .dispPut pMsg h rest →
    s.sys.taskMng.getHandle (s'.svrMsg pMsg).hdr.msg.rcvTaskId = some h
  client : c ≠ 0 → (s.pc c).dispatches = false → (s'.pc c).dispatches = false ∧
    ∀ h, (s'.pc c).Holds h → (s.pc c).Holds h ∨ ∃ i, (s.sys.taskMng.tab i).handle = some h
  dispatcher : ∀ pMsg, (s'.pc c).dispMsg = some pMsg →
    (s.pc c).dispMsg = some pMsg ∨ pMsg ∈ s'.held s'.sys.svrQueue

/-- A thread that goes to a program point of a client without a handle. -/
theorem goes_unbound {s s' : Threads n r} {c : Nat} (hunbound : (s'.pc c).unbound = true) :
    Goes s c s' := by
  cases hpc : s'.pc c <;> rw [hpc] at hunbound <;> first
    | exact Bool.noConfusion hunbound
    | (constructor
       all_goals rw [hpc]
       · exact fun _ _ h => by cases h
       · exact fun _ _ _ h => by cases h
       · exact fun _ _ => ⟨rfl, fun _ h => h.elim⟩
       · exact fun _ h => by cases h)

theorem dispatches_of_dispMsg {pc : Pc r} {pMsg : Nat} (hmsg : pc.dispMsg = some pMsg) :
    pc.dispatches = true := by
  cases pc <;> first
    | rfl
    | cases hmsg

/-- A client that goes on with the handle `h`. -/
theorem goes_bound {s s' : Threads n r} {c : Nat} {h : QHandle}
    (hdisp : (s'.pc c).dispatches = false) (hholds : ∀ h', (s'.pc c).Holds h' → h' = h)
    (hfrom : (s.pc c).Holds h ∨ ∃ i, (s.sys.taskMng.tab i).handle = some h)
    (hsends : ∀ m, s'.pc c = .sendPut h m →
      s.sys.taskMng.getHandle m.hdr.msg.rcvTaskId = some h) : Goes s c s' where
  sends := by
    intro h' m hpc
    obtain rfl := hholds h' (by rw [hpc]; rfl)
    exact hsends m hpc
  delivers := by
    intro pMsg h' rest hpc
    rw [hpc] at hdisp
    cases hdisp
  client := by
    intro _ _
    refine ⟨hdisp, ?_⟩
    intro h' hh
    rw [hholds h' hh]
    exact hfrom
  dispatcher := by
    intro pMsg hmsg
    rw [dispatches_of_dispMsg hmsg] at hdisp
    cases hdisp

/-- The dispatcher goes on. -/
theorem goes_dispatch {s s' : Threads n r} {c : Nat}
    (hdisp : c = 0 ∨ (s.pc c).dispatches = true) (hsends : ∀ h m, s'.pc c ≠ .sendPut h m)
    (hdelivers : ∀ pMsg h rest, s'.pc c = .dispPut pMsg h rest →
      s.sys.taskMng.getHandle (s'.svrMsg pMsg).hdr.msg.rcvTaskId = some h)
    (hmsg : ∀ pMsg, (s'.pc c).dispMsg = some pMsg →
      (s.pc c).dispMsg = some pMsg ∨ pMsg ∈ s'.held s'.sys.svrQueue) : Goes s c s' where
  sends := fun h m hpc => absurd hpc (hsends h m)
  delivers := hdelivers
  client := by
    intro hc hclient
    rcases hdisp with rfl | htrue
    · exact absurd rfl hc
    · rw [hclient] at htrue
      cases htrue
  dispatcher := hmsg

/-- The message that was readdressed. -/
theorem svrMsg_svrSetRcv {s : Threads n r} (hlive : (s.sys.queues s.sys.svrQueue).isSome = true)
    (pMsg : Nat) (k : TaskId) :
    ((s.svrSetRcv pMsg k).svrMsg pMsg).hdr.msg.rcvTaskId = k := by
  cases hq : s.sys.queues s.sys.svrQueue with
  | none =>
      rw [hq] at hlive
      cases hlive
  | some svr =>
      simp [svrMsg, svrSetRcv, hq, setSys, MsgSys.setQueue, MsgQueue.setRcv, MsgMem.setRcv,
        MsgMem.read, InnerBlock.withRcv]

/-- A message that was got is on loan. -/
theorem mem_held_queueGet {s s' : Threads n r} {h : QHandle} {msgtype : MsgType} {pMsg : Nat}
    (hget : s.queueGet h msgtype = some (some pMsg, s')) :
    pMsg ∈ s'.held h ∧ s'.sys.svrQueue = s.sys.svrQueue := by
  unfold queueGet at hget
  cases hq : s.sys.queues h with
  | none =>
      simp only [hq, Option.some.injEq, Prod.mk.injEq, reduceCtorEq, false_and] at hget
  | some q =>
      simp only [hq] at hget
      split at hget
      · cases hget
      · simp only [Option.some.injEq, Prod.mk.injEq, reduceCtorEq, false_and] at hget
      · simp only [Option.some.injEq, Prod.mk.injEq] at hget
        obtain ⟨rfl, rfl⟩ := hget
        exact ⟨by simp, rfl⟩

theorem goes_of_advance [NeZero n] {s s' : Threads n r} {c : Nat} {o : Choice}
    (hlive : (s.sys.queues s.sys.svrQueue).isSome = true)
    (hstep : s.advance c o = some s') : Goes s c s' := by
  cases hpc : s.pc c with
  | idle =>
      simp only [advance, hpc] at hstep
      split at hstep
      · rename_i hc
        obtain rfl := Option.some.inj hstep
        exact goes_dispatch (Or.inl hc) (by simp) (by simp) (by simp [Pc.dispMsg])
      · cases hstep
  | sendHandle kind pMsg =>
      simp only [advance, hpc] at hstep
      split at hstep
      · obtain rfl := Option.some.inj hstep
        exact goes_unbound (by simp [Pc.unbound, Pc.dispatches])
      · rename_i handle hget
        have hrow := getHandle_mem hget
        split at hstep
        · obtain rfl := Option.some.inj hstep
          apply goes_bound (h := handle) _ _ (Or.inr hrow)
          · simp only [goto_pc_self, Pc.sendPut.injEq, true_and, forall_eq']
            exact hget
          · simp [Pc.dispatches]
          · simp [Pc.Holds, eq_comm]
        · obtain rfl := Option.some.inj hstep
          apply goes_bound (h := handle) _ _ (Or.inr hrow)
          · simp only [goto_pc_self, Pc.sendPut.injEq, true_and, forall_eq']
            exact hget
          · simp [Pc.dispatches]
          · simp [Pc.Holds, eq_comm]
        · obtain rfl := Option.some.inj hstep
          exact goes_unbound (by simp [Pc.unbound, Pc.dispatches])
  | recvHandle taskId dispatch =>
      simp only [advance, hpc] at hstep
      split at hstep
      · obtain rfl := Option.some.inj hstep
        exact goes_unbound (by simp [Pc.unbound, Pc.dispatches])
      · rename_i handle hget
        obtain rfl := Option.some.inj hstep
        exact goes_bound (h := handle) (by simp [Pc.dispatches]) (by simp [Pc.Holds, eq_comm])
          (Or.inr (getHandle_mem hget)) (by simp)
  | recvMerge taskId handle dispatch =>
      simp only [advance, hpc] at hstep
      obtain rfl := Option.some.inj hstep
      exact goes_bound (h := handle) (by simp [Pc.dispatches]) (by simp [Pc.Holds, eq_comm])
        (Or.inl (by rw [hpc]; rfl)) (by simp)
  | recvGet handle msgtype dispatch =>
      simp only [advance, hpc] at hstep
      split at hstep
      · cases hstep
      · obtain rfl := Option.some.inj hstep
        exact goes_unbound (by simp [Pc.unbound, Pc.dispatches])
      · obtain rfl := Option.some.inj hstep
        cases dispatch with
        | false => exact goes_unbound (by simp [Pc.unbound, Pc.dispatches])
        | true =>
            exact goes_bound (h := handle) (by simp [Pc.dispatches])
              (by simp [Pc.Holds, eq_comm]) (Or.inl (by rw [hpc]; rfl)) (by simp)
  | freeHandle taskId pMsg =>
      simp only [advance, hpc] at hstep
      split at hstep
      · obtain rfl := Option.some.inj hstep
        exact goes_unbound (by simp [Pc.unbound, Pc.dispatches])
      · rename_i handle hget
        obtain rfl := Option.some.inj hstep
        exact goes_bound (h := handle) (by simp [Pc.dispatches]) (by simp [Pc.Holds, eq_comm])
          (Or.inr (getHandle_mem hget)) (by simp)
  | dispGet =>
      simp only [advance, hpc] at hstep
      split at hstep
      · cases hstep
      · obtain rfl := Option.some.inj hstep
        exact goes_unbound (by simp [Pc.unbound, Pc.dispatches])
      · rename_i pMsg s₁ hget
        split at hstep
        · obtain rfl := Option.some.inj hstep
          apply goes_dispatch (Or.inr (by rw [hpc]; rfl)) (by simp) (by simp)
          intro p hp
          rw [goto_pc_self] at hp
          cases hp
          obtain ⟨hmem, hsvr⟩ := mem_held_queueGet hget
          right
          change pMsg ∈ s₁.held s₁.sys.svrQueue
          rw [hsvr]
          exact hmem
        · cases hstep
  | dispRow pMsg =>
      simp only [advance, hpc] at hstep
      split at hstep <;> obtain rfl := Option.some.inj hstep
      · exact goes_dispatch (Or.inr (by rw [hpc]; rfl)) (by simp) (by simp) (by simp [Pc.dispMsg])
      · exact goes_dispatch (Or.inr (by rw [hpc]; rfl)) (by simp) (by simp)
          (by simp [Pc.dispMsg, hpc])
  | dispScan pMsg unitIndex =>
      simp only [advance, hpc] at hstep
      obtain rfl := Option.some.inj hstep
      exact goes_dispatch (Or.inr (by rw [hpc]; rfl)) (by simp) (by simp)
        (by simp [Pc.dispMsg, hpc])
  | dispHandle pMsg taskList =>
      cases taskList with
      | nil =>
          simp only [advance, hpc] at hstep
          obtain rfl := Option.some.inj hstep
          exact goes_dispatch (Or.inr (by rw [hpc]; rfl)) (by simp) (by simp)
            (by simp [Pc.dispMsg])
      | cons taskId rest =>
          simp only [advance, hpc] at hstep
          -- the handle is that of the receiver that has just been entered in the message
          have hmng : (s.svrSetRcv pMsg taskId).sys.taskMng = s.sys.taskMng := by
            unfold svrSetRcv
            split <;> rfl
          split at hstep
          · obtain rfl := Option.some.inj hstep
            exact goes_dispatch (Or.inr (by rw [hpc]; rfl)) (by simp) (by simp)
              (by simp [Pc.dispMsg, hpc])
          · rename_i handle hget
            obtain rfl := Option.some.inj hstep
            apply goes_dispatch (Or.inr (by rw [hpc]; rfl)) (by simp)
            · intro p h rest' hput
              rw [goto_pc_self] at hput
              cases hput
              change s.sys.taskMng.getHandle
                ((s.svrSetRcv pMsg taskId).svrMsg pMsg).hdr.msg.rcvTaskId = some handle
              rw [svrMsg_svrSetRcv hlive, ← hmng]
              exact hget
            · simp [Pc.dispMsg, hpc]
  | dispPut pMsg handle rest =>
      simp only [advance, hpc] at hstep
      obtain rfl := Option.some.inj hstep
      exact goes_dispatch (Or.inr (by rw [hpc]; rfl)) (by simp) (by simp)
        (by simp [Pc.dispMsg, hpc])
  | regAdd taskName start =>
      simp only [advance, hpc] at hstep
      obtain rfl := Option.some.inj hstep
      apply goes_unbound
      rw [goto_pc_self]
      split <;> rfl
  | unregSlot taskId unitIndex rest =>
      simp only [advance, hpc] at hstep
      obtain rfl := Option.some.inj hstep
      apply goes_unbound
      rw [goto_pc_self]
      split <;> rfl
  | unregNext taskId types =>
      cases types with
      | nil =>
          simp only [advance, hpc] at hstep
          obtain rfl := Option.some.inj hstep
          apply goes_unbound
          rw [goto_pc_self]
          split <;> rfl
      | cons msgType rest =>
          simp only [advance, hpc] at hstep
          split at hstep <;> exact Option.some.inj hstep ▸ goes_unbound (by rw [goto_pc_self]; rfl)
  | _ =>
      -- the other points lead back to no call or to a point without a handle
      simp only [advance, hpc] at hstep
      repeat' split at hstep
      all_goals
        first
        | cases hstep
          exact goes_unbound (by rw [goto_pc_self]; rfl)
        | cases hstep

/-! ## The invariant -/

/-- A message to the task `k` is queued or on loan, or about to be put in a queue. -/
def AddressedTo (s : Threads n r) (k : TaskId) : Prop :=
  (∃ h q p, h ≠ s.sys.svrQueue ∧ s.sys.queues h = some q ∧ p ∈ q.messages (s.held h) ∧
    q.rcvTaskId p = k) ∨
  (∃ c h m, s.pc c = .sendPut h m ∧ m.hdr.msg.rcvTaskId = k) ∨
  ∃ pMsg h rest, s.pc 0 = .dispPut pMsg h rest ∧ (s.svrMsg pMsg).hdr.msg.rcvTaskId = k

/-- A new task does not get an id that messages are addressed to. -/
def NewReceiver (s : Threads n r) : Act → Prop
  | .call _ _ => True
  | .next c _ => ∀ taskName start, s.pc c = .regAdd taskName start →
      ¬ s.AddressedTo s.sys.taskMng.counterTaskId

/-- The queue of the server is the business of the dispatcher, and handles come from
queues that were created. -/
structure Served (s : Threads n r) : Prop where
  client : ∀ c, c ≠ 0 → (s.pc c).dispatches = false ∧ ¬ (s.pc c).Holds s.sys.svrQueue
  dispatcher : ∀ pMsg, (s.pc 0).dispMsg = some pMsg → pMsg ∈ s.held s.sys.svrQueue
  known : ∀ c h, (s.pc c).Holds h → h < s.sys.nextQueue

/-- A message is in the queue of the task that it is addressed to, or on its way to it. -/
structure Addressed (s : Threads n r) : Prop where
  stored : ∀ h q, h ≠ s.sys.svrQueue → s.sys.queues h = some q →
    ∀ p ∈ q.messages (s.held h), s.sys.taskMng.getHandle (q.rcvTaskId p) = some h
  sending : ∀ c h m, s.pc c = .sendPut h m → (s.sys.queues h).isSome = true →
    s.sys.taskMng.getHandle m.hdr.msg.rcvTaskId = some h
  dispatching : ∀ pMsg h rest, s.pc 0 = .dispPut pMsg h rest →
    (s.sys.queues h).isSome = true →
    s.sys.taskMng.getHandle (s.svrMsg pMsg).hdr.msg.rcvTaskId = some h

theorem goto_pc_ne (s : Threads n r) {c c' : Nat} (pc : Pc r) (hne : c' ≠ c) :
    (s.goto c pc).pc c' = s.pc c' := by
  unfold goto
  exact Function.update_of_ne hne _ _

/-- A client takes nothing from the queue of the server. -/
theorem Served.not_takes {s : Threads n r} (hs : Served s) {c : Nat} (hc : c ≠ 0) :
    ¬ s.Takes c s.sys.svrQueue := by
  obtain ⟨hdisp, hholds⟩ := hs.client c hc
  rintro (⟨msgtype, dispatch, hpc⟩ | ⟨pMsg, hpc⟩ | ⟨hpc, -⟩)
  · exact hholds (by rw [hpc]; rfl)
  · exact hholds (by rw [hpc]; rfl)
  · rw [hpc] at hdisp
    cases hdisp

/-- While a message is dispatched, nothing is taken from a queue. -/
theorem not_takes_of_dispMsg {s : Threads n r} {c pMsg : Nat}
    (hmsg : (s.pc c).dispMsg = some pMsg) (h : QHandle) : ¬ s.Takes c h := by
  rintro (⟨msgtype, dispatch, hpc⟩ | ⟨p, hpc⟩ | ⟨hpc, -⟩)
  all_goals
    rw [hpc] at hmsg
    cases hmsg

theorem Served.quiet {s s₁ : Threads n r} {c : Nat} {pc : Pc r} (hs : Served s)
    (hhandles : s.sys.HandlesOk) (hwork : Work s c s₁)
    (hreach : Reaches s c pc) (hgoes : Goes s c (s₁.goto c pc)) : Served (s₁.goto c pc) := by
  have hsvr : (s₁.goto c pc).sys.svrQueue = s.sys.svrQueue := hwork.tasks.svrQueue
  -- what is on loan from the server stays on loan while nothing is taken from it
  have hheld : ¬ s.Takes c s.sys.svrQueue → s₁.held s.sys.svrQueue = s.held s.sys.svrQueue := by
    intro htakes
    rcases hwork.queues s.sys.svrQueue with ⟨-, -, hsame⟩ | ⟨q, q', -, -, hstep⟩
    · exact hsame
    · exact MsgQueue.held_queueStep hstep htakes
  refine ⟨?_, ?_, ?_⟩
  · intro c' hc'
    rw [hsvr]
    by_cases hc : c' = c
    · subst hc
      obtain ⟨hdisp, hholds⟩ := hgoes.client hc' (hs.client c' hc').1
      refine ⟨hdisp, ?_⟩
      intro hh
      rcases hholds _ hh with hbefore | ⟨i, hi⟩
      · exact (hs.client c' hc').2 hbefore
      · exact hhandles.svrOwn i hi
    · rw [goto_pc_ne _ _ hc, hwork.pc]
      exact hs.client c' hc'
  · intro pMsg hmsg
    rw [hsvr]
    change pMsg ∈ s₁.held s.sys.svrQueue
    by_cases hc : 0 = c
    · subst hc
      rcases hgoes.dispatcher pMsg hmsg with hbefore | hnew
      · rw [hheld (not_takes_of_dispMsg hbefore _)]
        exact hs.dispatcher pMsg hbefore
      · rw [hsvr] at hnew
        exact hnew
    · rw [goto_pc_ne _ _ hc, hwork.pc] at hmsg
      rw [hheld (hs.not_takes (Ne.symm hc))]
      exact hs.dispatcher pMsg hmsg
  · intro c' h hh
    change h < s₁.sys.nextQueue
    rw [hwork.tasks.nextQueue]
    by_cases hc : c' = c
    · subst hc
      rw [goto_pc_self] at hh
      rcases hreach.holds h hh with hbefore | rfl | ⟨i, hi⟩
      · exact hs.known c' h hbefore
      · exact hhandles.fresh _ hhandles.svrLive
      · exact hhandles.fresh _ (hhandles.live i h hi)
    · rw [goto_pc_ne _ _ hc, hwork.pc] at hh
      exact hs.known c' h hh

/-- The receiver of a message in the pool of the server. -/
theorem svrMsg_rcvTaskId {s : Threads n r} {svr : MsgQueue}
    (hsvr : s.sys.queues s.sys.svrQueue = some svr) (pMsg : Nat) :
    (s.svrMsg pMsg).hdr.msg.rcvTaskId = svr.rcvTaskId pMsg := by
  unfold svrMsg
  rw [hsvr]
  rfl

/-- A client does not touch the message that is dispatched. -/
theorem svrMsg_work {s s₁ : Threads n r} {c pMsg : Nat} (hqueues : QueuesOk s.sys s.held)
    (hs : Served s) (hc : c ≠ 0) (hwork : Work s c s₁) (hheld : pMsg ∈ s.held s.sys.svrQueue) :
    (s₁.svrMsg pMsg).hdr.msg.rcvTaskId = (s.svrMsg pMsg).hdr.msg.rcvTaskId := by
  have hR : ∀ p k, ¬ s.Readdresses c s.sys.svrQueue p k := by
    rintro p k ⟨-, rest, hpc⟩
    have hdisp := (hs.client c hc).1
    rw [hpc] at hdisp
    cases hdisp
  rcases hwork.queues s.sys.svrQueue with ⟨hnone, -, -⟩ | ⟨q, q', hq, hq', hstep⟩
  · have hlive := hqueues.handles.svrLive
    rw [hnone] at hlive
    cases hlive
  · have hkept := (hqueues.queues _ q hq).messages_kept hstep (hs.not_takes hc) hR pMsg
      (List.mem_append_right _ hheld)
    have hq₁ : s₁.sys.queues s₁.sys.svrQueue = some q' := by
      rw [hwork.tasks.svrQueue]
      exact hq'
    rw [svrMsg_rcvTaskId hq₁, svrMsg_rcvTaskId hq]
    exact hkept.2

theorem Addressed.quiet {s s₁ : Threads n r} {c : Nat} {pc : Pc r} (h : Addressed s)
    (hqueues : QueuesOk s.sys s.held) (hs : Served s) (hwork : Work s c s₁)
    (hgoes : Goes s c (s₁.goto c pc)) : Addressed (s₁.goto c pc) := by
  have hget : ∀ k, (s₁.goto c pc).sys.taskMng.getHandle k = s.sys.taskMng.getHandle k :=
    TaskMng.getHandle_congr fun i => ⟨(hwork.tasks.rows i).1, (hwork.tasks.rows i).2.2⟩
  refine ⟨?_, ?_, ?_⟩
  · intro handle q' hne hq' p hp
    change handle ≠ s₁.sys.svrQueue at hne
    rw [hwork.tasks.svrQueue] at hne
    rw [hget]
    rcases hwork.queues handle with ⟨-, hnone, -⟩ | ⟨q, q₁, hq, hq₁, hstep⟩
    · rw [show s₁.sys.queues handle = some q' from hq'] at hnone
      cases hnone
    · obtain rfl : q₁ = q' := Option.some.inj (hq₁.symm.trans hq')
      have hlive : (s.sys.queues handle).isSome = true := by rw [hq]; rfl
      have hR : ∀ p k, ¬ s.Readdresses c handle p k := fun p k hr => hne hr.1
      rcases (hqueues.queues handle q hq).messages_queueStep hstep hR p hp with
        ⟨hold, hrcv⟩ | ⟨m, hsends, hrcv⟩
      · rw [hrcv]
        exact h.stored handle q hne hq p hold
      · rw [hrcv]
        rcases hsends with ⟨-, hsvr⟩ | hpc | ⟨pMsg, rest, hpc, rfl⟩
        · exact absurd hsvr hne
        · exact h.sending c handle m hpc hlive
        · -- only the dispatcher delivers
          have hc : c = 0 := by
            by_contra hc
            have hdisp := (hs.client c hc).1
            rw [hpc] at hdisp
            cases hdisp
          subst hc
          exact h.dispatching pMsg handle rest hpc hlive
  · intro c' handle m hpc hlive
    rw [hget]
    by_cases hc : c' = c
    · subst hc
      exact hgoes.sends handle m hpc
    · rw [goto_pc_ne _ _ hc, hwork.pc] at hpc
      refine h.sending c' handle m hpc ?_
      rw [← hwork.isSome]
      exact hlive
  · intro pMsg handle rest hpc hlive
    rw [hget]
    by_cases hc : 0 = c
    · subst hc
      exact hgoes.delivers pMsg handle rest hpc
    · rw [goto_pc_ne _ _ hc, hwork.pc] at hpc
      have hheld := hs.dispatcher pMsg (by rw [hpc]; rfl)
      change s.sys.taskMng.getHandle (s₁.svrMsg pMsg).hdr.msg.rcvTaskId = some handle
      rw [svrMsg_work hqueues hs (Ne.symm hc) hwork hheld]
      refine h.dispatching pMsg handle rest hpc ?_
      rw [← hwork.isSome]
      exact hlive

/-! ## Steps that change the task table -/

/-- A thread goes to a program point of a client without a handle. -/
theorem Served.unbound {s s' : Threads n r} {c : Nat} {pc : Pc r} (hs : Served s)
    (hpc : s'.pc = Function.update s.pc c pc) (hunbound : pc.unbound = true)
    (hsvr : s'.sys.svrQueue = s.sys.svrQueue) (hheld : s'.held = s.held)
    (hnext : s.sys.nextQueue ≤ s'.sys.nextQueue) : Served s' := by
  have hself : s'.pc c = pc := by rw [hpc, Function.update_self]
  have hother : ∀ c', c' ≠ c → s'.pc c' = s.pc c' := by
    intro c' hc
    rw [hpc, Function.update_of_ne hc]
  have hnone : pc.dispatches = false ∧ ∀ h, ¬ pc.Holds h := by
    cases pc <;> first
      | exact ⟨rfl, fun _ h => h.elim⟩
      | cases hunbound
  refine ⟨?_, ?_, ?_⟩
  · intro c' hc'
    by_cases hc : c' = c
    · rw [hc, hself]
      exact ⟨hnone.1, hnone.2 _⟩
    · rw [hother c' hc, hsvr]
      exact hs.client c' hc'
  · intro pMsg hmsg
    by_cases hc : 0 = c
    · subst hc
      rw [hself] at hmsg
      rw [dispatches_of_dispMsg hmsg] at hnone
      cases hnone.1
    · rw [hother 0 hc] at hmsg
      rw [hheld, hsvr]
      exact hs.dispatcher pMsg hmsg
  · intro c' h hh
    by_cases hc : c' = c
    · rw [hc, hself] at hh
      exact absurd hh (hnone.2 h)
    · rw [hother c' hc] at hh
      exact Nat.lt_of_lt_of_le (hs.known c' h hh) hnext

/-- The same for the messages: those in a queue that stays are where they were, and the
task they are addressed to is still found. -/
theorem Addressed.unbound {s s' : Threads n r} {c : Nat} {pc : Pc r} (h : Addressed s)
    (hs : Served s) (hpc : s'.pc = Function.update s.pc c pc) (hunbound : pc.unbound = true)
    (hsvr : s'.sys.svrQueue = s.sys.svrQueue) (hheld : s'.held = s.held)
    (hserver : s'.sys.queues s.sys.svrQueue = s.sys.queues s.sys.svrQueue)
    (hqueues : ∀ handle q, s'.sys.queues handle = some q →
      s.sys.queues handle = some q ∨ (q.messages (s.held handle) = [] ∧
        s.sys.nextQueue ≤ handle))
    (hget : ∀ k handle, s.AddressedTo k → s.sys.taskMng.getHandle k = some handle →
      (s'.sys.queues handle).isSome = true → s'.sys.taskMng.getHandle k = some handle) :
    Addressed s' := by
  have hother : ∀ c', c' ≠ c → s'.pc c' = s.pc c' := by
    intro c' hc
    rw [hpc, Function.update_of_ne hc]
  have hself : s'.pc c = pc := by rw [hpc, Function.update_self]
  -- a thread has the handle of a queue that was there before
  have hlive : ∀ c' handle, (s.pc c').Holds handle → (s'.sys.queues handle).isSome = true →
      (s.sys.queues handle).isSome = true := by
    intro c' handle hholds hsome
    obtain ⟨q, hq⟩ := Option.isSome_iff_exists.mp hsome
    rcases hqueues handle q hq with hbefore | ⟨-, hnew⟩
    · rw [hbefore]
      rfl
    · exact absurd (hs.known c' handle hholds) (Nat.not_lt.mpr hnew)
  have hmsg : ∀ pMsg, s'.svrMsg pMsg = s.svrMsg pMsg := by
    intro pMsg
    unfold svrMsg
    rw [hsvr, hserver]
  refine ⟨?_, ?_, ?_⟩
  · intro handle q hne hq p hp
    rw [hsvr] at hne
    rw [hheld] at hp
    rcases hqueues handle q hq with hbefore | ⟨hnil, -⟩
    · refine hget _ handle (Or.inl ⟨handle, q, p, hne, hbefore, hp, rfl⟩)
        (h.stored handle q hne hbefore p hp) ?_
      rw [hq]
      rfl
    · rw [hnil] at hp
      cases hp
  · intro c' handle m hput hsome
    by_cases hc : c' = c
    · rw [hc, hself] at hput
      rw [hput] at hunbound
      cases hunbound
    · rw [hother c' hc] at hput
      exact hget _ handle (Or.inr (Or.inl ⟨c', handle, m, hput, rfl⟩))
        (h.sending c' handle m hput (hlive c' handle (by rw [hput]; rfl) hsome)) hsome
  · intro pMsg handle rest hput hsome
    by_cases hc : 0 = c
    · rw [hc, hself] at hput
      rw [hput] at hunbound
      cases hunbound
    · rw [hother 0 hc] at hput
      rw [hmsg]
      exact hget _ handle (Or.inr (Or.inr ⟨pMsg, handle, rest, hput, rfl⟩))
        (h.dispatching pMsg handle rest hput (hlive 0 handle (by rw [hput]; rfl) hsome)) hsome

/-- An id that is looked up to a handle is not the invalid one. -/
theorem ne_invalid_of_getHandle {sys : MsgSys n r} (hs : sys.HandlesOk) {k : TaskId}
    {h : QHandle} (hget : sys.taskMng.getHandle k = some h) : k ≠ vtopInvalidTaskId := by
  rintro rfl
  obtain ⟨i, -, hid, hhandle⟩ := TaskMng.getHandle_eq_some hget
  rw [hs.free i hid] at hhandle
  cases hhandle

theorem nextQueue_le_taskTabAdd2 (sys : MsgSys n r) (taskName : CString) (owner : TaskOwner)
    (alloc : QueueMalloc) :
    sys.nextQueue ≤ (sys.taskTabAdd2 taskName owner alloc).2.nextQueue := by
  rcases sys.taskTabAdd2_cases taskName owner alloc with
    ⟨-, heq⟩ | ⟨index, newQueue, -, -, -, heq⟩
  · rw [heq]
  · rw [heq]
    dsimp only
    split
    · exact Nat.le_succ _
    · exact Nat.le_refl _

theorem nextQueue_taskTabDel (sys : MsgSys n r) (k : TaskId) :
    (sys.taskTabDel k).2.nextQueue = sys.nextQueue := by
  rcases sys.taskTabDel_cases k with ⟨_, -, -, heq⟩ | ⟨-, heq⟩
  · rw [heq]
    exact MsgSys.msgQueueDeinit_nextQueue _ _
  · rw [heq]

/-- A new task has an empty queue, and the other tasks are found as before. -/
theorem Addressed.taskTabAdd2 {s : Threads n r} {c : Nat} {pc : Pc r} (h : Addressed s)
    (hqueues : QueuesOk s.sys s.held) (hs : Served s) (hunbound : pc.unbound = true)
    (hnew : ¬ s.AddressedTo s.sys.taskMng.counterTaskId) (taskName : CString)
    (owner : TaskOwner) (alloc : QueueMalloc) :
    Addressed ((s.setSys (s.sys.taskTabAdd2 taskName owner alloc).2).goto c pc) := by
  rcases s.sys.taskTabAdd2_cases taskName owner alloc with
    ⟨-, heq⟩ | ⟨index, newQueue, -, hfree, hqueue, heq⟩
  · rw [heq]
    exact h.unbound hs rfl hunbound rfl rfl rfl (fun _ _ hq => Or.inl hq)
      (fun _ _ _ hget _ => hget)
  have hget : ∀ k handle, s.AddressedTo k → s.sys.taskMng.getHandle k = some handle →
      (s.sys.taskTabAdd2 taskName owner alloc).2.taskMng.getHandle k = some handle := by
    intro k handle hto hk
    rw [heq, TaskMng.getHandle_update]
    · exact hk
    · rw [hfree]
      exact (ne_invalid_of_getHandle hqueues.handles hk).symm
    · intro hid
      change s.sys.taskMng.counterTaskId = k at hid
      rw [← hid] at hto
      exact hnew hto
  refine h.unbound hs rfl hunbound (svrQueue_taskTabAdd2 _ _ _ _) rfl ?_ ?_
    (fun k handle hto hk _ => hget k handle hto hk)
  · change (s.sys.taskTabAdd2 taskName owner alloc).2.queues s.sys.svrQueue = _
    rw [heq]
    dsimp only
    split
    · exact Function.update_of_ne
        (Nat.ne_of_lt (hqueues.handles.fresh _ hqueues.handles.svrLive)) _ _
    · rfl
  · intro handle q hq
    change (s.sys.taskTabAdd2 taskName owner alloc).2.queues handle = some q at hq
    rw [heq] at hq
    cases newQueue with
    | none => exact Or.inl hq
    | some q₀ =>
        change Function.update s.sys.queues s.sys.nextQueue (some q₀) handle = some q at hq
        by_cases hh : handle = s.sys.nextQueue
        · subst hh
          rw [Function.update_self] at hq
          cases hq
          have hinit : msgQueueInit msgDefaultQueueSize alloc.queue alloc.pool = some q := by
            rcases hqueue with hnone | hsome
            · cases hnone
            · exact hsome.symm
          right
          refine ⟨?_, Nat.le_refl _⟩
          rw [hqueues.unborn _ (Nat.le_refl _)]
          exact (MsgQueue.wf_msgQueueInit hinit).messages_eq
        · rw [Function.update_of_ne hh] at hq
          exact Or.inl hq

/-- The messages to a task go with its queue, and the other tasks are found as before. -/
theorem Addressed.taskTabDel {s : Threads n r} {c : Nat} {pc : Pc r} (h : Addressed s)
    (hqueues : QueuesOk s.sys s.held) (hs : Served s) (hunbound : pc.unbound = true)
    (k : TaskId) : Addressed ((s.setSys (s.sys.taskTabDel k).2).goto c pc) := by
  rcases s.sys.taskTabDel_cases k with ⟨index, hfind, hid, heq⟩ | ⟨-, heq⟩
  swap
  · rw [heq]
    exact h.unbound hs rfl hunbound rfl rfl rfl (fun _ _ hq => Or.inl hq)
      (fun _ _ _ hget _ => hget)
  refine h.unbound hs rfl hunbound (svrQueue_taskTabDel _ _) rfl ?_ ?_ ?_
  · change (s.sys.taskTabDel k).2.queues s.sys.svrQueue = _
    rw [heq]
    exact MsgSys.msgQueueDeinit_queues_ne _ (hqueues.handles.svrOwn index)
  · intro handle q hq
    change (s.sys.taskTabDel k).2.queues handle = some q at hq
    rw [heq] at hq
    change (s.sys.msgQueueDeinit _).queues handle = some q at hq
    left
    by_cases hh : (s.sys.taskMng.tab index).handle = some handle
    · rw [hh, MsgSys.msgQueueDeinit_queues_self] at hq
      cases hq
    · rwa [MsgSys.msgQueueDeinit_queues_ne _ hh] at hq
  · intro x handle _ hx hsome
    change (s.sys.taskTabDel k).2.taskMng.getHandle x = some handle
    change ((s.sys.taskTabDel k).2.queues handle).isSome = true at hsome
    rw [heq] at hsome ⊢
    change ((s.sys.msgQueueDeinit _).queues handle).isSome = true at hsome
    have hne : (s.sys.taskMng.tab index).taskId ≠ x := by
      -- the queue of the deleted task is gone
      intro heqx
      obtain ⟨i, hfind', -, hhandle⟩ := TaskMng.getHandle_eq_some hx
      rw [← heqx, hid, hfind] at hfind'
      rw [← Option.some.inj hfind'] at hhandle
      rw [hhandle, MsgSys.msgQueueDeinit_queues_self] at hsome
      cases hsome
    change TaskMng.getHandle ⟨Function.update s.sys.taskMng.tab index taskTabInitUnit, _⟩ x = _
    rw [TaskMng.getHandle_update hne]
    · exact hx
    · exact (ne_invalid_of_getHandle hqueues.handles hx).symm

/-- A call starts without a handle. -/
theorem unbound_enter (s : Threads n r) (call : Call) : (s.enter call).unbound = true := by
  cases call with
  | publish pMsg => rfl
  | _ =>
      simp only [enter]
      split <;> rfl

/-- A step that only moves a thread to a program point without a handle, or changes the
list of task data. -/
theorem receivers_unbound {s s' : Threads n r} {c : Nat} {pc : Pc r}
    (hs : Served s ∧ Addressed s) (hpc : s'.pc = Function.update s.pc c pc)
    (hunbound : pc.unbound = true) (hheld : s'.held = s.held)
    (htask : s'.sys.taskMng = s.sys.taskMng) (hqueues : s'.sys.queues = s.sys.queues)
    (hnext : s'.sys.nextQueue = s.sys.nextQueue) (hsvr : s'.sys.svrQueue = s.sys.svrQueue) :
    Served s' ∧ Addressed s' := by
  refine ⟨hs.1.unbound hpc hunbound hsvr hheld (Nat.le_of_eq hnext.symm),
    hs.2.unbound hs.1 hpc hunbound hsvr hheld (congrFun hqueues _) ?_ ?_⟩
  · intro handle q hq
    rw [hqueues] at hq
    exact Or.inl hq
  · intro k handle _ hget _
    rw [htask]
    exact hget

theorem receivers_taskStep {s s' : Threads n r} {c : Nat} {o : Choice}
    (hqueues : QueuesOk s.sys s.held) (hs : Served s ∧ Addressed s)
    (hguard : NewReceiver s (.next c o)) (hstep : TaskStep s c o s') :
    Served s' ∧ Addressed s' := by
  cases hstep with
  | «exists» hpc hexist => exact receivers_unbound hs rfl rfl rfl rfl rfl rfl rfl
  | absent hpc hexist => exact receivers_unbound hs rfl rfl rfl rfl rfl rfl rfl
  | success hpc entries => exact receivers_unbound hs rfl rfl rfl rfl rfl rfl rfl
  | noData hpc entries => exact receivers_unbound hs rfl rfl rfl rfl rfl rfl rfl
  | @add taskName start hpc =>
      have hunbound : (if (s.sys.taskTabAdd2 taskName .task o.queue).1 = vtopInvalidTaskId
          then (.idle : Pc r) else .regData taskName start
            (s.sys.taskTabAdd2 taskName .task o.queue).1).unbound = true := by
        split <;> rfl
      exact ⟨hs.1.unbound rfl hunbound (svrQueue_taskTabAdd2 _ _ _ _) rfl
          (nextQueue_le_taskTabAdd2 _ _ _ _),
        hs.2.taskTabAdd2 hqueues hs.1 hunbound (hguard taskName start hpc) _ _ _⟩
  | undo hpc =>
      exact ⟨hs.1.unbound rfl rfl (svrQueue_taskTabDel _ _) rfl
          (Nat.le_of_eq (nextQueue_taskTabDel _ _).symm),
        hs.2.taskTabDel hqueues hs.1 rfl _⟩
  | @delete taskId hpc pc hpc' =>
      have hunbound : pc.unbound = true := by
        rcases hpc' with rfl | rfl
        · rfl
        · rfl
      exact ⟨hs.1.unbound rfl hunbound (svrQueue_taskTabDel _ _) rfl
          (Nat.le_of_eq (nextQueue_taskTabDel _ _).symm),
        hs.2.taskTabDel hqueues hs.1 hunbound _⟩

theorem receivers_step [NeZero n] {s s' : Threads n r} {a : Act}
    (hqueues : QueuesOk s.sys s.held) (hs : Served s ∧ Addressed s)
    (hguard : NewReceiver s a) (hstep : s.step a = some s') : Served s' ∧ Addressed s' := by
  unfold Threads.step at hstep
  obtain ⟨s₁, hact, rfl⟩ := Option.map_eq_some_iff.mp hstep
  suffices hs₁ : Served s₁ ∧ Addressed s₁ from
    ⟨⟨hs₁.1.client, hs₁.1.dispatcher, hs₁.1.known⟩,
      ⟨hs₁.2.stored, hs₁.2.sending, hs₁.2.dispatching⟩⟩
  cases a with
  | call c call =>
      simp only [act] at hact
      split at hact
      · cases hact
      · split at hact
        · obtain rfl := Option.some.inj hact
          exact receivers_unbound hs rfl (unbound_enter s call) rfl rfl rfl rfl rfl
        · cases hact
  | next c o =>
      have hgoes := goes_of_advance hqueues.handles.svrLive hact
      rcases advance_cases hact with ⟨s₂, pc, hwork, hreach, rfl⟩ | htask
      · exact ⟨hs.1.quiet hqueues.handles hwork hreach hgoes,
          hs.2.quiet hqueues hs.1 hwork hgoes⟩
      · exact receivers_taskStep hqueues hs hguard htask

theorem receivers_of_reach [NeZero n] {s : Threads n r}
    (hreach : (machine n r).ReachWhen NewReceiver s) : Served s ∧ Addressed s := by
  induction hreach with
  | init hinit =>
      obtain ⟨svr, alloc, pool, hinit, rfl⟩ := hinit
      refine ⟨⟨fun _ _ => ⟨rfl, fun hh => hh.elim⟩, fun _ hm => (by cases hm),
        fun _ _ hh => hh.elim⟩,
        ⟨?_, fun _ _ _ hp => (by cases hp), fun _ _ _ hp => (by cases hp)⟩⟩
      intro h q hne hq
      change h ≠ 0 at hne
      change Function.update (fun _ => none) 0 (some svr) h = some q at hq
      rw [Function.update_of_ne hne] at hq
      cases hq
  | step hbefore hguard hstep ih =>
      exact receivers_step (queuesOk_of_reach (hbefore.mono fun _ _ _ => trivial)) ih hguard
        hstep

/-! ## The pool of a message -/

/-- The dispatcher registers and deletes no task. -/
theorem TaskStep.not_dispatches {s s' : Threads n r} {c : Nat} {o : Choice}
    (hstep : TaskStep s c o s') : (s.pc c).dispatches = false := by
  cases hstep with
  | «exists» hpc _ | absent hpc _ | success hpc _ | noData hpc _ | delete hpc _ =>
      rw [hpc]
      rfl
  | add hpc | undo hpc =>
      rw [hpc]
      rfl

/-- A message in the queue of a task has the id of the task. -/
theorem Addressed.rcvTaskId_eq {s : Threads n r} (h : Addressed s) (hhandles : s.sys.HandlesOk)
    {i : Fin n} {handle : QHandle} {q : MsgQueue}
    (hrow : (s.sys.taskMng.tab i).handle = some handle)
    (hq : s.sys.queues handle = some q) {p : Nat} (hp : p ∈ q.messages (s.held handle)) :
    s.sys.taskMng.getHandle (q.rcvTaskId p) = some handle ∧
      q.rcvTaskId p = (s.sys.taskMng.tab i).taskId := by
  have hne : handle ≠ s.sys.svrQueue := by
    rintro rfl
    exact hhandles.svrOwn i hrow
  have hget := h.stored handle q hne hq p hp
  obtain ⟨j, -, hid, hj⟩ := TaskMng.getHandle_eq_some hget
  rw [hhandles.unique i j handle hrow hj]
  exact ⟨hget, hid.symm⟩

/-- Freeing a message on loan from `handle` under an id that is looked up to `handle`. -/
theorem run_recvFree [NeZero n] {s : Threads n r} {c p : Nat} {k : TaskId} {handle : QHandle}
    {q q' : MsgQueue} (o : Choice) (hc : c ≠ 0) (hidle : s.pc c = .idle)
    (hk : k ≠ vtopInvalidTaskId) (hget : s.sys.taskMng.getHandle k = some handle)
    (hq : s.sys.queues handle = some q) (hp : p ∈ s.held handle)
    (hfree : q.msgQueueFree p = some q') :
    ∃ s', (machine n r).run s [.call c (.recvFree k p), .next c o, .next c o] = some s' ∧
      s'.sys.queues = Function.update s.sys.queues handle (some q') ∧
      s'.held = Function.update s.held handle ((s.held handle).erase p) := by
  have hcall : s.step (.call c (.recvFree k p)) =
      some { s.goto c (.freeHandle k p) with clock := s.clock + 1 } := by
    simp only [step, act, if_neg hc, hidle, enter, if_neg hk, Option.map_some]
  simp only [Machine.run, machine, hcall]
  simp only [step, act, advance, goto, Function.update_self, hget, Option.map_some, queueFree, hq,
    hp, if_true, hfree]
  exact ⟨_, rfl, rfl, rfl⟩

/-- In every run in which no task gets an id that messages are addressed to: a message in
the queue of a task, or received from it, is addressed to the task; to free it gives its
block back to the pool it came from; and to publish a message leaves the messages in the
queues of the tasks as they are. -/
theorem pool_of_receiver (n r : Nat) [NeZero n] (s : Threads n r)
    (hreach : (machine n r).ReachWhen NewReceiver s) :
    (∀ i handle q, (s.sys.taskMng.tab i).handle = some handle →
      s.sys.queues handle = some q → ∀ p ∈ q.messages (s.held handle),
        q.rcvTaskId p = (s.sys.taskMng.tab i).taskId) ∧
    (∀ i handle q p c o, (s.sys.taskMng.tab i).handle = some handle →
      s.sys.queues handle = some q → p ∈ s.held handle → c ≠ 0 → s.pc c = .idle →
        ∃ q' s', q.msgQueueFree p = some q' ∧
          (machine n r).run s
            [.call c (.recvFree (q.rcvTaskId p) p), .next c o, .next c o] = some s' ∧
          s'.sys.queues = Function.update s.sys.queues handle (some q') ∧
          s'.held = Function.update s.held handle ((s.held handle).erase p)) ∧
    (∀ c o s', (s.pc c).dispatches = true → s.step (.next c o) = some s' →
      ∀ i handle q, (s.sys.taskMng.tab i).handle = some handle →
        s.sys.queues handle = some q → ∃ q', s'.sys.queues handle = some q' ∧
          ∀ p ∈ q.messages (s.held handle), p ∈ q'.messages (s'.held handle) ∧
            q'.rcvTaskId p = q.rcvTaskId p) := by
  have hqueues := queuesOk_of_reach (hreach.mono fun _ _ _ => trivial)
  obtain ⟨hs, h⟩ := receivers_of_reach hreach
  refine ⟨?_, ?_, ?_⟩
  · intro i handle q hrow hq p hp
    exact (h.rcvTaskId_eq hqueues.handles hrow hq hp).2
  · intro i handle q p c o hrow hq hp hc hidle
    obtain ⟨nodes, blocks, hwf, hheld⟩ := hqueues.queues handle q hq
    obtain ⟨a, ha, rfl⟩ := List.mem_map.mp (hheld ▸ hp)
    obtain ⟨q', hfree, -, -⟩ := hwf.msgQueueFree ha
    obtain ⟨hget, -⟩ := h.rcvTaskId_eq hqueues.handles hrow hq (List.mem_append_right _ hp)
    obtain ⟨s', hrun, hs'⟩ := run_recvFree o hc hidle
      (ne_invalid_of_getHandle hqueues.handles hget) hget hq hp hfree
    exact ⟨q', s', hfree, hrun, hs'⟩
  · intro c o s' hdisp hstep i handle q hrow hq
    have hne : handle ≠ s.sys.svrQueue := by
      rintro rfl
      exact hqueues.handles.svrOwn i hrow
    unfold Threads.step at hstep
    obtain ⟨s₁, hact, rfl⟩ := Option.map_eq_some_iff.mp hstep
    change ∃ q', s₁.sys.queues handle = some q' ∧ ∀ p ∈ q.messages (s.held handle),
      p ∈ q'.messages (s₁.held handle) ∧ q'.rcvTaskId p = q.rcvTaskId p
    rcases advance_cases hact with ⟨s₂, pc, hwork, -, rfl⟩ | htask
    · rcases hwork.queues handle with ⟨hnone, -, -⟩ | ⟨q₀, q', hq₀, hq', hqstep⟩
      · rw [hq] at hnone
        cases hnone
      · obtain rfl := Option.some.inj (hq.symm.trans hq₀)
        refine ⟨q', hq', ?_⟩
        apply (hqueues.queues handle q hq).messages_kept hqstep
        · rintro (⟨msgtype, dispatch, hpc⟩ | ⟨pMsg, hpc⟩ | ⟨-, hsvr⟩)
          · rw [hpc] at hdisp
            cases hdisp
          · rw [hpc] at hdisp
            cases hdisp
          · exact hne hsvr
        · exact fun p k hr => hne hr.1
    · rw [htask.not_dispatches] at hdisp
      cases hdisp

/-! ## A schedule -/

/-- A test for the steps that add no task. -/
def addsNothing (s : Threads n r) : Act → Bool
  | .call _ _ => true
  | .next c _ => match s.pc c with
      | .regAdd _ _ => false
      | _ => true

theorem newReceiver_of_addsNothing (s : Threads n r) (a : Act) (hpass : s.addsNothing a = true) :
    NewReceiver s a := by
  cases a with
  | call c call => trivial
  | next c o =>
      intro taskName start hpc
      simp [addsNothing, hpc] at hpass

/-- While no task has a message and only thread `1` runs, without a handle, nothing is addressed
to anybody. -/
theorem newReceiver_of_empty [NeZero n] {s : Threads n r}
    (hreach : (machine n r).ReachWhen NewReceiver s)
    (hempty : ∀ h < s.sys.nextQueue, h ≠ s.sys.svrQueue →
      ∀ q ∈ s.sys.queues h, q.messages (s.held h) = [])
    (hidle : ∀ c, c ≠ 1 → s.pc c = .idle) (hone : (s.pc 1).unbound = true) (a : Act) :
    NewReceiver s a := by
  have hunbound (c : Nat) : (s.pc c).unbound = true := by
    by_cases hc : c = 1
    · rw [hc]
      exact hone
    · rw [hidle c hc]
      rfl
  have hsilent (k : TaskId) : ¬ s.AddressedTo k := by
    rintro (⟨h, q, p, hne, hq, hp, -⟩ | ⟨c, h, m, hpc, -⟩ | ⟨pMsg, h, rest, hpc, -⟩)
    · have hlt : h < s.sys.nextQueue := by
        refine (queuesOk_of_reach (hreach.mono fun _ _ _ => trivial)).handles.fresh h ?_
        rw [hq]
        rfl
      rw [hempty h hlt hne q hq] at hp
      cases hp
    · have hbound := hunbound c
      rw [hpc] at hbound
      cases hbound
    · have hbound := hunbound 0
      rw [hpc] at hbound
      cases hbound
  cases a with
  | call c call => trivial
  | next c o => exact fun _ _ _ => hsilent _

/-- While thread `1` runs alone, the other threads stay idle. -/
theorem idle_alone [NeZero n] {s s' : Threads n r} {acts : List Act}
    (halone : ∀ a ∈ acts, a.thread = 1) (hidle : ∀ c, c ≠ 1 → s.pc c = .idle)
    (hrun : (machine n r).run s acts = some s') : ∀ c, c ≠ 1 → s'.pc c = .idle :=
  fun c hc => idle_of_run (fun a ha heq => hc (heq.trans (halone a ha))) (hidle c hc) hrun

theorem machine_step [NeZero n] (s : Threads n r) (a : Act) :
    (machine n r).step s a = s.step a := rfl

/-- Thread `1` is about to add the first task. -/
def registeringFirst : Threads 2 1 :=
  ((machine 2 1).runWhen addsNothing (initial (MsgSys.init 2 1 .freshQueue))
    (runCall (.register nameA) 1)).get (by decide +kernel)

/-- The first task has been added. -/
def addedFirst : Threads 2 1 :=
  ((machine 2 1).step registeringFirst (.next 1 granted)).get (by decide +kernel)

/-- Thread `1` subscribes the first task and begins to register the second one. -/
def subscribeFirst : List Act :=
  .next 1 granted :: (runCall (.subscribe 0 5) 3 ++ runCall (.register nameB) 1)

/-- It is about to add the second task. -/
def registeringSecond : Threads 2 1 :=
  ((machine 2 1).runWhen addsNothing addedFirst subscribeFirst).get (by decide +kernel)

/-- The second task has been added. -/
def addedSecond : Threads 2 1 :=
  ((machine 2 1).step registeringSecond (.next 1 granted)).get (by decide +kernel)

/-- A message for the second task. -/
def msgToSecond : MsgData :=
  ⟨zeroInnerBlock.withRcv 1, fun _ => 0⟩

/-- The second task has subscribed too, and a message is published.  It has received one
that thread `2` sent to it, and the server is about to put its copy for the first task. -/
def dispatching : Threads 2 1 :=
  ((machine 2 1).runWhen addsNothing addedSecond
    (.next 1 granted :: (runCall (.subscribe 1 5) 3 ++ runCall (.publish msgOfType5) 2) ++
      .call 2 (.send .async msgToSecond) :: List.replicate 3 (.next 2 granted) ++
      .call 3 (.recv 1) :: List.replicate 3 (.next 3 granted) ++
      List.replicate 5 (.next 0 granted))).get (by decide +kernel)

/-- The copy is in the queue of the first task. -/
def dispatched : Threads 2 1 :=
  ((machine 2 1).step dispatching (.next 0 granted)).get (by decide +kernel)

theorem registeringFirst_idle : ∀ c, c ≠ 1 → registeringFirst.pc c = .idle := by
  have hrun : (machine 2 1).run (initial (MsgSys.init 2 1 .freshQueue))
      (runCall (.register nameA) 1) = some registeringFirst :=
    Machine.run_of_runWhen _ (Option.some_get _).symm
  exact idle_alone (by decide +kernel) (fun _ _ => rfl) hrun

theorem registeringSecond_idle : ∀ c, c ≠ 1 → registeringSecond.pc c = .idle := by
  have hadd : registeringFirst.step (.next 1 granted) = some addedFirst :=
    (Option.some_get _).symm
  have hrun : (machine 2 1).run addedFirst subscribeFirst = some registeringSecond :=
    Machine.run_of_runWhen _ (Option.some_get _).symm
  refine idle_alone (by decide +kernel) ?_ hrun
  intro c hc
  rw [pc_of_step hc hadd, registeringFirst_idle c hc]

theorem dispatching_reach : (machine 2 1).ReachWhen NewReceiver dispatching := by
  have hfirst : (machine 2 1).ReachWhen NewReceiver registeringFirst :=
    Machine.reachWhen_of_runWhen newReceiver_of_addsNothing _ (.init (init_freshQueue 2 1))
      (Option.some_get _).symm
  -- nothing has been sent when the tasks are added
  have hguard : NewReceiver registeringFirst (.next 1 granted) :=
    newReceiver_of_empty hfirst (by decide +kernel) registeringFirst_idle (by decide +kernel) _
  have hadded : (machine 2 1).ReachWhen NewReceiver addedFirst :=
    .step hfirst hguard (Option.some_get _).symm
  have hsecond : (machine 2 1).ReachWhen NewReceiver registeringSecond :=
    Machine.reachWhen_of_runWhen newReceiver_of_addsNothing _ hadded (Option.some_get _).symm
  have hguard : NewReceiver registeringSecond (.next 1 granted) :=
    newReceiver_of_empty hsecond (by decide +kernel) registeringSecond_idle (by decide +kernel) _
  have hadded : (machine 2 1).ReachWhen NewReceiver addedSecond :=
    .step hsecond hguard (Option.some_get _).symm
  exact Machine.reachWhen_of_runWhen newReceiver_of_addsNothing _ hadded
    (Option.some_get _).symm

/-- The copy for the first task is addressed to it, and the message of the second one is
as it was. -/
theorem dispatched_pool :
    (∃ q p, dispatched.sys.queues 1 = some q ∧ p ∈ q.messages (dispatched.held 1) ∧
      q.rcvTaskId p = (dispatched.sys.taskMng.tab 0).taskId) ∧
    ∃ q q' p, dispatching.sys.queues 2 = some q ∧ dispatched.sys.queues 2 = some q' ∧
      p ∈ dispatching.held 2 ∧ q.rcvTaskId p = (dispatching.sys.taskMng.tab 1).taskId ∧
      p ∈ q'.messages (dispatched.held 2) ∧ q'.rcvTaskId p = q.rcvTaskId p := by
  have hstep : (machine 2 1).step dispatching (.next 0 granted) = some dispatched :=
    (Option.some_get _).symm
  have hadds : addsNothing dispatching (.next 0 granted) = true := by decide +kernel
  have hreach : (machine 2 1).ReachWhen NewReceiver dispatched :=
    .step dispatching_reach (newReceiver_of_addsNothing dispatching _ hadds) hstep
  rw [machine_step] at hstep
  obtain ⟨hrcv, -, -⟩ := pool_of_receiver 2 1 dispatched hreach
  obtain ⟨hrcv', -, hcopies⟩ := pool_of_receiver 2 1 dispatching dispatching_reach
  constructor
  · have hone : (dispatched.sys.queues 1).map
        (fun q => (q.messages (dispatched.held 1)).length) = some 1 := by decide +kernel
    obtain ⟨q, hq, hlen⟩ := Option.map_eq_some_iff.mp hone
    obtain ⟨p, hp⟩ := List.exists_mem_of_length_pos (by rw [hlen]; exact Nat.one_pos)
    exact ⟨q, p, hq, hp, hrcv 0 1 q (by decide +kernel) hq p hp⟩
  · have hheld : (dispatching.held 2).length = 1 := by decide +kernel
    obtain ⟨p, hp⟩ := List.exists_mem_of_length_pos (by rw [hheld]; exact Nat.one_pos)
    obtain ⟨q, hq⟩ := Option.isSome_iff_exists.mp
      (by decide +kernel : (dispatching.sys.queues 2).isSome = true)
    have hrow : (dispatching.sys.taskMng.tab 1).handle = some 2 := by decide +kernel
    have hmem : p ∈ q.messages (dispatching.held 2) := List.mem_append_right _ hp
    obtain ⟨q', hq', hkept⟩ := hcopies 0 granted dispatched (by decide +kernel) hstep 1 2 q hrow hq
    obtain ⟨hp', hsame⟩ := hkept p hmem
    exact ⟨q, q', p, hq, hq', hp, hrcv' 1 2 q hrow hq p hmem, hp', hsame⟩

end Threads
end Msg
end AndroidLinux
