import AndroidLinux.Lib.Transition
import AndroidLinux.Msg.Queue

/-!
# A message queue is a FIFO

Runs of `MSG_QueuePut`, `MSG_QueueGet` and `MSG_QueueFree` on one queue.  Each of
them holds the queue lock from its first access to its last, so an interleaving of
threads is a sequence of whole operations.  The callers' side of the contract is
that only a message that was received and not freed since is freed.

The state records what was accepted, what was handed out, and which pointers are
still held together with the content found at the moment they were handed out.
`Fifo` is the abstract behaviour: what was received, followed by what is queued, is
what was accepted.
-/

namespace AndroidLinux
namespace Msg
namespace QueueFifo

open Lib

/-- A message as the receiver sees it, apart from the address of its body. -/
abbrev Content := InnerBlock × List UInt8

/-- The queue and the history of its messages. -/
structure State where
  q : MsgQueue
  accepted : List Content
  received : List Content
  held : List (Nat × Content)

/-- The operations on a queue. -/
inductive Act
  | put (pMsg : MsgData)
  | get
  | free (pMsg : Nat)

/-- One operation.  A pointer that is not held is not freed; a free whose
assertion fails has no next state. -/
def step (s : State) : Act → Option State
  | .put pMsg =>
      let res := s.q.msgQueuePut pMsg
      some
        { s with
          q := res.2
          accepted := if res.1 = .ok then s.accepted ++ [pMsg.content] else s.accepted }
  | .get =>
      match s.q.msgQueueGet with
      | none => some s
      | some (pMsg, q) =>
          let content := (q.mem.read pMsg).content
          some
            { s with
              q := q
              received := s.received ++ [content]
              held := (pMsg, content) :: s.held }
  | .free pMsg =>
      if pMsg ∈ s.held.map Prod.fst then
        match s.q.msgQueueFree pMsg with
        | none => none
        | some q => some { s with q := q, held := s.held.filter fun h => h.1 ≠ pMsg }
      else
        none

/-- Runs start with a queue made by `MSG_QueueInit`. -/
def machine : Machine State Act where
  init := fun s => (∃ bufsize mallocQueue malloc,
      msgQueueInit bufsize mallocQueue malloc = some s.q) ∧
    s.accepted = [] ∧ s.received = [] ∧ s.held = []
  step := step

/-- The behaviour of an abstract FIFO with buffers on loan. -/
structure Fifo (s : State) : Prop where
  /-- Everything accepted has been received or is still queued, in this order. -/
  inOrder : s.received ++ s.q.pending = s.accepted
  /-- A put is accepted when the message is valid and a block is left for it. -/
  putAccepted : ∀ pMsg, (s.q.msgQueuePut pMsg).1 = .ok ↔
    MsgQueue.checkBody pMsg = none ∧ s.q.HasRoom pMsg
  /-- An accepted message is queued last. -/
  putOk : ∀ pMsg, (s.q.msgQueuePut pMsg).1 = .ok →
    (s.q.msgQueuePut pMsg).2.pending = s.q.pending ++ [pMsg.content]
  /-- A put that fails changes neither the queue nor the pool. -/
  putErr : ∀ pMsg, (s.q.msgQueuePut pMsg).1 ≠ .ok → (s.q.msgQueuePut pMsg).2 = s.q
  /-- A get fails only on the empty queue. -/
  getEmpty : s.q.msgQueueGet = none ↔ s.q.pending = []
  /-- A get hands out the first queued message. -/
  getFirst : ∀ pMsg q, s.q.msgQueueGet = some (pMsg, q) →
    s.q.pending = (q.mem.read pMsg).content :: q.pending
  /-- A message on loan still has the content it was received with. -/
  heldKept : ∀ pMsg content, (pMsg, content) ∈ s.held → (s.q.mem.read pMsg).content = content
  /-- Freeing a message on loan succeeds and does not disturb the queue. -/
  freeOk : ∀ pMsg ∈ s.held.map Prod.fst, ∃ q, s.q.msgQueueFree pMsg = some q ∧
    q.pending = s.q.pending

/-- The invariant behind `Fifo`: `nodes` are the queued blocks and `blocks` those on
loan. -/
def Inv (s : State) : Prop :=
  ∃ nodes blocks, s.q.WF nodes blocks ∧
    s.held = blocks.map (fun a => (a + mbHeadLen, s.q.contentAt a)) ∧
    s.received ++ nodes.map s.q.contentAt = s.accepted

theorem inv_init {s : State} (h : machine.init s) : Inv s := by
  obtain ⟨⟨bufsize, mallocQueue, malloc, hinit⟩, hacc, hrcv, hheld⟩ := h
  refine ⟨[], [], MsgQueue.wf_msgQueueInit hinit, by simp [hheld], by simp [hacc, hrcv]⟩

theorem inv_put {s : State} (hinv : Inv s) (pMsg : MsgData) :
    Inv { s with
      q := (s.q.msgQueuePut pMsg).2
      accepted := if (s.q.msgQueuePut pMsg).1 = .ok then s.accepted ++ [pMsg.content]
        else s.accepted } := by
  obtain ⟨nodes, blocks, hwf, hheld, hlog⟩ := hinv
  by_cases hok : (s.q.msgQueuePut pMsg).1 = .ok
  · obtain ⟨a, hwf', hnew, hold⟩ := hwf.msgQueuePut hok
    refine ⟨nodes ++ [a], blocks, hwf', ?_, ?_⟩
    · rw [hheld]
      apply List.map_congr_left
      intro b hb
      rw [hold b (List.mem_append_right nodes hb)]
    · have hnodes : nodes.map (s.q.msgQueuePut pMsg).2.contentAt = nodes.map s.q.contentAt := by
        apply List.map_congr_left
        intro b hb
        exact hold b (List.mem_append_left blocks hb)
      rw [if_pos hok, List.map_append, hnodes, ← List.append_assoc, hlog]
      simp [hnew]
  · rw [MsgQueue.msgQueuePut_of_err hok, if_neg hok]
    exact ⟨nodes, blocks, hwf, hheld, hlog⟩

theorem inv_get {s : State} (hinv : Inv s) {pMsg : Nat} {q : MsgQueue}
    (hget : s.q.msgQueueGet = some (pMsg, q)) :
    Inv { s with
      q := q
      received := s.received ++ [(q.mem.read pMsg).content]
      held := (pMsg, (q.mem.read pMsg).content) :: s.held } := by
  obtain ⟨nodes, blocks, hwf, hheld, hlog⟩ := hinv
  obtain ⟨a, nodes, rfl, rfl, hwf', hmem⟩ := hwf.msgQueueGet_inv hget
  have hcontent := MsgQueue.contentAt_congr hmem
  refine ⟨nodes, a :: blocks, hwf', ?_, ?_⟩
  · simp only [List.map_cons, hcontent, ← hheld]
    simp only [← hcontent]
    rfl
  · have ha : (q.mem.read (a + mbHeadLen)).content = s.q.contentAt a := congrFun hcontent a
    simp only [hcontent, ha]
    rw [← hlog, List.map_cons, List.append_assoc, List.singleton_append]

theorem inv_free {s : State} (hinv : Inv s) {pMsg : Nat} {q : MsgQueue}
    (hmem : pMsg ∈ s.held.map Prod.fst) (hfree : s.q.msgQueueFree pMsg = some q) :
    Inv { s with q := q, held := s.held.filter fun h => h.1 ≠ pMsg } := by
  obtain ⟨nodes, blocks, hwf, hheld, hlog⟩ := hinv
  obtain ⟨a, ha, rfl⟩ : ∃ a ∈ blocks, a + mbHeadLen = pMsg := by
    rw [hheld] at hmem
    simpa using hmem
  obtain ⟨q', hfree', hwf', hmem'⟩ := hwf.msgQueueFree ha
  rw [hfree'] at hfree
  obtain rfl := Option.some.inj hfree
  have hcontent := MsgQueue.contentAt_congr hmem'
  refine ⟨nodes, blocks.erase a, hwf', ?_, ?_⟩
  · have hnodup : blocks.Nodup := (List.nodup_append.mp hwf.nodup).2.1
    simp only [hcontent]
    rw [hheld, List.filter_map, hnodup.erase_eq_filter]
    congr 1
    apply List.filter_congr
    intro b _
    simp only [Function.comp_apply, ne_eq, Nat.add_right_cancel_iff, decide_not]
    rfl
  · simp only [hcontent]
    exact hlog

/-- Every operation keeps the invariant. -/
theorem inv_step {s s' : State} {a : Act} (hinv : Inv s) (hstep : step s a = some s') :
    Inv s' := by
  cases a with
  | put pMsg =>
      obtain rfl := Option.some.inj hstep
      exact inv_put hinv pMsg
  | get =>
      simp only [step] at hstep
      cases hget : s.q.msgQueueGet with
      | none =>
          rw [hget] at hstep
          obtain rfl := Option.some.inj hstep
          exact hinv
      | some res =>
          rw [hget] at hstep
          obtain rfl := Option.some.inj hstep
          exact inv_get hinv hget
  | free pMsg =>
      simp only [step] at hstep
      split at hstep
      · rename_i hmem
        cases hfree : s.q.msgQueueFree pMsg with
        | none => simp [hfree] at hstep
        | some q =>
            rw [hfree] at hstep
            obtain rfl := Option.some.inj hstep
            exact inv_free hinv hmem hfree
      · cases hstep

/-- The invariant gives the abstract behaviour. -/
theorem fifo_of_inv {s : State} (hinv : Inv s) : Fifo s := by
  obtain ⟨nodes, blocks, hwf, hheld, hlog⟩ := hinv
  have hpending := hwf.pending_eq
  constructor
  · rw [hpending, hlog]
  · exact fun pMsg => MsgQueue.msgQueuePut_ok_iff
  · intro pMsg hok
    obtain ⟨a, hwf', hnew, hold⟩ := hwf.msgQueuePut hok
    rw [hwf'.pending_eq, hpending, List.map_append, List.map_singleton, hnew]
    congr 1
    apply List.map_congr_left
    intro b hb
    exact hold b (List.mem_append_left blocks hb)
  · exact fun pMsg => MsgQueue.msgQueuePut_of_err
  · rw [hpending]
    cases nodes with
    | nil => simp [hwf.msgQueueGet_nil]
    | cons a nodes =>
        obtain ⟨q', hget, -, -⟩ := hwf.msgQueueGet_cons
        simp [hget]
  · intro pMsg q hget
    obtain ⟨a, nodes, rfl, rfl, hwf', hmem⟩ := hwf.msgQueueGet_inv hget
    have hcontent := MsgQueue.contentAt_congr hmem
    rw [hpending, hwf'.pending_eq, List.map_cons, hcontent, hmem]
    rfl
  · intro pMsg content hin
    rw [hheld] at hin
    obtain ⟨a, -, heq⟩ := List.mem_map.mp hin
    simp only [Prod.mk.injEq] at heq
    obtain ⟨rfl, rfl⟩ := heq
    rfl
  · intro pMsg hin
    obtain ⟨a, ha, rfl⟩ : ∃ a ∈ blocks, a + mbHeadLen = pMsg := by
      rw [hheld] at hin
      simpa using hin
    obtain ⟨q', hfree, hwf', hmem⟩ := hwf.msgQueueFree ha
    refine ⟨q', hfree, ?_⟩
    have hcontent := MsgQueue.contentAt_congr hmem
    rw [hpending, hwf'.pending_eq, hcontent]

/-- In every state of every run the queue behaves as a FIFO. -/
theorem queue_refines_fifo (s : State) (hreach : machine.Reach s) : Fifo s := by
  apply fifo_of_inv
  refine hreach.invariant (I := Inv) ?_ ?_
  · exact fun s hs => inv_init hs
  · exact fun s a s' hinv _ hs => inv_step hinv hs

/-- A message with a body. -/
def bodyMessage (body : List UInt8) : MsgData where
  hdr := { zeroInnerBlock with
    msg := { zeroInnerBlock.msg with
      ulMsgLen := UInt32.ofNat body.length
      pMsgBody := .ext 0 } }
  body := fun i => body.getD i 0

/-- Two messages are put on a fresh queue and received; the first one is freed in between. -/
def twoMessages : State :=
  (machine.run ⟨.freshQueue, [], [], []⟩ [.put (bodyMessage [1, 2, 3]), .put (bodyMessage [4, 5]),
    .get, .free 24, .get]).get (by decide +kernel)

theorem queue_refines_fifo_two :
    machine.Reach twoMessages ∧ twoMessages.received =
      [(bodyMessage [1, 2, 3]).content, (bodyMessage [4, 5]).content] ∧
    twoMessages.held.length = 1 ∧ Fifo twoMessages := by
  have hreach : machine.Reach twoMessages := by
    refine Machine.reach_of_run _ ?_ (Option.some_get _).symm
    exact ⟨⟨msgDefaultQueueSize, true, fun _ => true, MsgQueue.msgQueueInit_freshQueue⟩,
      rfl, rfl, rfl⟩
  exact ⟨hreach, by decide +kernel, by decide +kernel, queue_refines_fifo twoMessages hreach⟩

end QueueFifo
end Msg
end AndroidLinux
