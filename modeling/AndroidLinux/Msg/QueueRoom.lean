import AndroidLinux.Lib.Transition
import AndroidLinux.Msg.BufferPool
import AndroidLinux.Msg.Queue

/-!
# Room in a message queue

When `MSG_QueuePut` finds a block.  The pool of a queue has 128 blocks of 256 bytes and
8 blocks of 512 bytes, and a message needs room for its header and its body.  The limit
that is checked before, `VTOP_MSG_MAX_MSG_SIZE`, is 4096 bytes for the body alone.

`MB_Alloc` looks for a block in one level only, the lowest one that is large enough.
`Sendable` is what a caller expects from a put on a queue; `sendable_iff` says for
which messages and in which states the code keeps it.
-/

namespace AndroidLinux
namespace Msg
namespace QueueRoom

open Lib

/-- A queue and the received messages that were not freed yet. -/
structure State where
  q : MsgQueue
  held : List Nat

/-- The operations on a queue. -/
inductive Act
  | put (pMsg : MsgData)
  | get
  | getMerge (msgtype : MsgType)
  | free (pMsg : Nat)

/-- One operation.  Only a message that is held is freed; a failed assertion of
`MB_Free` has no next state. -/
def step (s : State) : Act → Option State
  | .put pMsg => some { s with q := (s.q.msgQueuePut pMsg).2 }
  | .get =>
      match s.q.msgQueueGet with
      | none => some s
      | some (pMsg, q) => some ⟨q, pMsg :: s.held⟩
  | .getMerge msgtype =>
      match s.q.msgQueueGetMerge msgtype with
      | none => none
      | some none => some s
      | some (some (pMsg, q)) => some ⟨q, pMsg :: s.held⟩
  | .free pMsg =>
      if pMsg ∈ s.held then
        match s.q.msgQueueFree pMsg with
        | none => none
        | some q => some ⟨q, s.held.erase pMsg⟩
      else
        none

/-- Runs start with a queue made by `MSG_QueueInit`. -/
def machine : Machine State Act where
  init := fun s => (∃ bufsize mallocQueue malloc,
      msgQueueInit bufsize mallocQueue malloc = some s.q) ∧ s.held = []
  step := step

/-- Some block of the level is free. -/
def LevelFree (q : MsgQueue) (i : Nat) : Prop :=
  ∃ j, j < queueBuffer.blockNum i ∧ (q.buf.head (q.buf.addr i j)).flag = 0

/-- The message can be put in the queue while nothing is queued or held, and a put of
it fails for want of memory only when every block with room for the header and the
body is in use. -/
structure Sendable (s : State) (pMsg : MsgData) : Prop where
  whenEmpty : s.q.pending = [] → s.held = [] → (s.q.msgQueuePut pMsg).1 = .ok
  noMemory : (s.q.msgQueuePut pMsg).1 = .err .failure → ∀ i j, s.q.buf.IsBlock i j →
    pMsg.hdr.len + msgInnerHeadLen + mbHeadLen ≤ (s.q.buf.mb i).blocksize →
      (s.q.buf.head (s.q.buf.addr i j)).flag = 1

/-- The invariant of the runs: the queue is well formed, with the held messages in
`blocks`, and its pool is the one that `MSG_QueueInit` made. -/
def Inv (s : State) : Prop :=
  MbPool.Shape queueBuffer s.q.buf ∧ ∃ nodes blocks, s.q.WF nodes blocks ∧
    s.held = blocks.map fun a => a + mbHeadLen

/-! ## The operations keep the shape of the pool -/

section Shape

variable {b : VtopMsgBuffer} {q : MsgQueue}

theorem shape_msgQueuePut (h : MbPool.Shape b q.buf) (pMsg : MsgData) :
    MbPool.Shape b (q.msgQueuePut pMsg).2.buf := by
  rcases MsgQueue.msgQueuePut_cases q pMsg with ⟨e, heq⟩ | ⟨-, pBuf, buf, halloc, heq⟩
  · rw [heq]
    exact h
  · obtain ⟨i, j, -, -, -, rfl, rfl⟩ := MbContext.mbAlloc_eq_some halloc
    rw [heq]
    exact (h.taken i _).setHead _ _

theorem shape_msgQueueGet (h : MbPool.Shape b q.buf) {pMsg : Nat} {q' : MsgQueue}
    (hget : q.msgQueueGet = some (pMsg, q')) : MbPool.Shape b q'.buf := by
  unfold MsgQueue.msgQueueGet at hget
  split at hget
  · cases hget
  · simp only [Option.some.injEq, Prod.mk.injEq] at hget
    obtain ⟨-, rfl⟩ := hget
    exact h

theorem shape_msgQueueFree (h : MbPool.Shape b q.buf) {pMsg : Nat} {q' : MsgQueue}
    (hfree : q.msgQueueFree pMsg = some q') : MbPool.Shape b q'.buf := by
  unfold MsgQueue.msgQueueFree MbContext.mbFree at hfree
  split at hfree
  · cases hfree
  · rename_i buf hbuf
    split at hbuf
    · obtain rfl := Option.some.inj hbuf
      obtain rfl := Option.some.inj hfree
      exact h.released _
    · cases hbuf

theorem shape_mergeLoop (t : MsgType) (rest : List Nat) (h : MbPool.Shape b q.buf)
    {pLast pMsg : Nat} {q' : MsgQueue}
    (hloop : MsgQueue.mergeLoop t rest q pLast = some (pMsg, q')) : MbPool.Shape b q'.buf := by
  induction rest generalizing q pLast with
  | nil =>
      simp only [MsgQueue.mergeLoop, Option.some.injEq, Prod.mk.injEq] at hloop
      exact hloop.2 ▸ h
  | cons pNode rest ih =>
      simp only [MsgQueue.mergeLoop] at hloop
      split at hloop
      · split at hloop
        · cases hloop
        · rename_i q₁ hfree
          have hunlink : MbPool.Shape b (q.unlink pNode).buf := h
          exact ih (shape_msgQueueFree hunlink hfree) hloop
      · exact ih h hloop

theorem shape_msgQueueGetMerge (h : MbPool.Shape b q.buf) {t : MsgType} {pMsg : Nat}
    {q' : MsgQueue} (hget : q.msgQueueGetMerge t = some (some (pMsg, q'))) :
    MbPool.Shape b q'.buf := by
  unfold MsgQueue.msgQueueGetMerge at hget
  split at hget
  · cases hget
  · rename_i pNode hnext
    simp only [Option.map_eq_some_iff, Option.some.injEq] at hget
    obtain ⟨r, hloop, rfl⟩ := hget
    have hunlink : MbPool.Shape b (q.unlink pNode).buf := h
    exact shape_mergeLoop t _ hunlink hloop

end Shape

/-! ## The invariant of the runs -/

theorem queueBuffer_fits : queueBuffer.exactHead queueBuffer.bufLevel < sizeTBound := by
  decide

theorem inv_init {s : State} (h : machine.init s) : Inv s := by
  obtain ⟨⟨bufsize, mallocQueue, malloc, hinit⟩, hheld⟩ := h
  refine ⟨?_, [], [], MsgQueue.wf_msgQueueInit hinit, by simpa using hheld⟩
  unfold msgQueueInit at hinit
  split at hinit
  · cases hinit
  · split at hinit
    · cases hinit
    · cases hbuf : mbInit queueBuffer malloc with
      | error e => simp [hbuf] at hinit
      | ok buf =>
          simp only [hbuf, Option.some.injEq] at hinit
          rw [← hinit]
          exact MbPool.shape_of_init hbuf queueBuffer_fits

theorem inv_step {s s' : State} {a : Act} (hinv : Inv s) (hstep : step s a = some s') :
    Inv s' := by
  obtain ⟨hshape, nodes, blocks, hwf, hheld⟩ := hinv
  cases a with
  | put pMsg =>
      obtain rfl := Option.some.inj hstep
      refine ⟨shape_msgQueuePut hshape pMsg, ?_⟩
      by_cases hok : (s.q.msgQueuePut pMsg).1 = .ok
      · obtain ⟨a, hwf', -, -⟩ := hwf.msgQueuePut hok
        exact ⟨nodes ++ [a], blocks, hwf', hheld⟩
      · -- a message that is refused leaves the queue as it is
        refine ⟨nodes, blocks, ?_, hheld⟩
        rw [MsgQueue.msgQueuePut_of_err hok]
        exact hwf
  | get =>
      simp only [step] at hstep
      cases nodes with
      | nil =>
          rw [hwf.msgQueueGet_nil] at hstep
          obtain rfl := Option.some.inj hstep
          exact ⟨hshape, [], blocks, hwf, hheld⟩
      | cons a nodes =>
          obtain ⟨q', hget, hwf', -⟩ := hwf.msgQueueGet_cons
          rw [hget] at hstep
          obtain rfl := Option.some.inj hstep
          exact ⟨shape_msgQueueGet hshape hget, nodes, a :: blocks, hwf', by simp [hheld]⟩
  | getMerge t =>
      simp only [step] at hstep
      rcases hwf.msgQueueGetMerge t with hnone | ⟨a, q', nodes', hget, hwf', -, -⟩
      · rw [hnone] at hstep
        obtain rfl := Option.some.inj hstep
        exact ⟨hshape, nodes, blocks, hwf, hheld⟩
      · rw [hget] at hstep
        obtain rfl := Option.some.inj hstep
        exact ⟨shape_msgQueueGetMerge hshape hget, nodes', a :: blocks, hwf', by simp [hheld]⟩
  | free pMsg =>
      simp only [step] at hstep
      split at hstep
      · rename_i hmem
        obtain ⟨a, ha, rfl⟩ : ∃ a ∈ blocks, a + mbHeadLen = pMsg := by
          rw [hheld] at hmem
          simpa using hmem
        obtain ⟨q', hfree, hwf', -⟩ := hwf.msgQueueFree ha
        rw [hfree] at hstep
        obtain rfl := Option.some.inj hstep
        refine ⟨shape_msgQueueFree hshape hfree, nodes, blocks.erase a, hwf', ?_⟩
        rw [hheld]
        exact (List.map_erase (add_left_injective mbHeadLen) blocks).symm
      · cases hstep

theorem inv_of_reach {s : State} (hreach : machine.Reach s) : Inv s := by
  apply hreach.invariant
  · exact fun s hs => inv_init hs
  · exact fun s a s' hinv _ hs => inv_step hinv hs

/-! ## When a put finds a block -/

section Put

variable {s : State}

/-- A block is free or in use. -/
theorem Inv.flag_cases (hinv : Inv s) {i j : Nat} (hij : s.q.buf.IsBlock i j) :
    (s.q.buf.head (s.q.buf.addr i j)).flag = 0 ∨ (s.q.buf.head (s.q.buf.addr i j)).flag = 1 := by
  obtain ⟨-, nodes, blocks, hwf, -⟩ := hinv
  by_cases hmem : s.q.buf.addr i j ∈ nodes ++ blocks
  · exact Or.inr (hwf.used _ hmem).1
  · exact Or.inl (hwf.unused _ _ ⟨i, j, hij, rfl, rfl⟩ hmem)

/-- With nothing queued and nothing held every block is free. -/
theorem Inv.clear_of_empty (hinv : Inv s) (hpending : s.q.pending = []) (hheld : s.held = [])
    {i j : Nat} (hij : s.q.buf.IsBlock i j) : (s.q.buf.head (s.q.buf.addr i j)).flag = 0 := by
  obtain ⟨-, nodes, blocks, hwf, hblocks⟩ := hinv
  rw [hwf.pending_eq, List.map_eq_nil_iff] at hpending
  rw [hheld, eq_comm, List.map_eq_nil_iff] at hblocks
  apply hwf.unused _ _ ⟨i, j, hij, rfl, rfl⟩
  simp [hpending, hblocks]

theorem len_le_of_checkBody {pMsg : MsgData} (hcheck : MsgQueue.checkBody pMsg = none) :
    pMsg.hdr.len ≤ vtopMsgMaxMsgSize := by
  unfold MsgQueue.checkBody at hcheck
  split at hcheck
  · cases hcheck
  · omega

theorem msgQueuePut_failure_iff {q : MsgQueue} {pMsg : MsgData}
    (hcheck : MsgQueue.checkBody pMsg = none) :
    (q.msgQueuePut pMsg).1 = .err .failure ↔
      q.buf.mbAlloc (pMsg.hdr.len + msgInnerHeadLen) = none := by
  unfold MsgQueue.msgQueuePut
  rw [hcheck]
  cases q.buf.mbAlloc (pMsg.hdr.len + msgInnerHeadLen) <;> simp

/-- The level of the pool that a size is served from. -/
theorem lowestFor_queueBuffer_iff {size i : Nat} : queueBuffer.LowestFor size i ↔
    (i = 0 ∧ size ≤ 256) ∨ (i = 1 ∧ 256 < size ∧ size ≤ 512) := by
  have hlevels : queueBuffer.bufLevel = 2 := by decide
  constructor
  · rintro ⟨⟨hi, -⟩, hpay, hlow⟩
    rw [hlevels] at hi
    obtain rfl | rfl : i = 0 ∨ i = 1 := by omega
    · exact Or.inl ⟨rfl, hpay⟩
    · have := hlow 0 (by decide) ⟨by decide, by decide⟩
      exact Or.inr ⟨rfl, this, hpay⟩
  · rintro (⟨rfl, hsize⟩ | ⟨rfl, hlt, hsize⟩)
    · refine ⟨⟨by decide, by decide⟩, hsize, ?_⟩
      intro k hk
      omega
    · refine ⟨⟨by decide, by decide⟩, hsize, ?_⟩
      intro k hk _
      obtain rfl : k = 0 := by omega
      exact hlt

/-- The only level a put looks at has no free block. -/
theorem Inv.mbAlloc_eq_none_iff (hinv : Inv s) {pMsg : MsgData}
    (hcheck : MsgQueue.checkBody pMsg = none) :
    s.q.buf.mbAlloc (pMsg.hdr.len + msgInnerHeadLen) = none ↔
      (pMsg.hdr.len + msgInnerHeadLen ≤ 256 → ¬ LevelFree s.q 0) ∧
      (256 < pMsg.hdr.len + msgInnerHeadLen → pMsg.hdr.len + msgInnerHeadLen ≤ 512 →
        ¬ LevelFree s.q 1) := by
  have hlen := len_le_of_checkBody hcheck
  have hsought : MbPool.soughtSize (pMsg.hdr.len + msgInnerHeadLen) =
      pMsg.hdr.len + msgInnerHeadLen := by
    apply MbPool.soughtSize_of_fits
    unfold vtopMsgMaxMsgSize at hlen
    unfold msgInnerHeadLen mbHeadLen sizeTBound
    omega
  rw [hinv.1.mbAlloc_eq_none_iff, hsought]
  constructor
  · intro hfull
    constructor
    · rintro hsize ⟨j, hj, hclear⟩
      exact hfull 0 (lowestFor_queueBuffer_iff.mpr (Or.inl ⟨rfl, hsize⟩)) j hj hclear
    · rintro hlt hsize ⟨j, hj, hclear⟩
      exact hfull 1 (lowestFor_queueBuffer_iff.mpr (Or.inr ⟨rfl, hlt, hsize⟩)) j hj hclear
  · rintro ⟨hsmall, hlarge⟩ i hlow j hj hclear
    rcases lowestFor_queueBuffer_iff.mp hlow with ⟨rfl, hsize⟩ | ⟨rfl, hlt, hsize⟩
    · exact hsmall hsize ⟨j, hj, hclear⟩
    · exact hlarge hlt hsize ⟨j, hj, hclear⟩

theorem Inv.isBlock_iff (hinv : Inv s) {i j : Nat} :
    s.q.buf.IsBlock i j ↔ i < 2 ∧ j < queueBuffer.blockNum i := by
  have hlevels : queueBuffer.bufLevel = 2 := by decide
  rw [hinv.1.isBlock_iff, hinv.1.blocknum, hlevels]
  split
  · simp [*]
  · simp [*]

theorem Inv.levelFree_of_empty (hinv : Inv s) (hpending : s.q.pending = [])
    (hheld : s.held = []) {i : Nat} (hi : i < 2) : LevelFree s.q i := by
  have hpos : 0 < queueBuffer.blockNum i := by
    obtain rfl | rfl : i = 0 ∨ i = 1 := by omega
    · decide
    · decide
  exact ⟨0, hpos, hinv.clear_of_empty hpending hheld (hinv.isBlock_iff.mpr ⟨hi, hpos⟩)⟩

theorem Inv.sendable_iff (hinv : Inv s) {pMsg : MsgData}
    (hcheck : MsgQueue.checkBody pMsg = none) :
    Sendable s pMsg ↔
      (s.q.pending = [] → s.held = [] → pMsg.hdr.len + msgInnerHeadLen ≤ 512) ∧
      (pMsg.hdr.len + msgInnerHeadLen ≤ 256 → LevelFree s.q 0 ∨ ¬ LevelFree s.q 1) := by
  have hnone := hinv.mbAlloc_eq_none_iff hcheck
  constructor
  · rintro ⟨hempty, hfail⟩
    constructor
    · intro hpending hheld
      by_contra hsize
      have hput : (s.q.msgQueuePut pMsg).1 = .err .failure := by
        rw [msgQueuePut_failure_iff hcheck, hnone]
        exact ⟨fun h => absurd h (by omega), fun _ h => absurd h hsize⟩
      rw [hempty hpending hheld] at hput
      cases hput
    · intro hsize
      by_contra hcon
      -- level 0 is full and a block of level 1 is free, but a small message is refused
      rw [not_or, not_not] at hcon
      obtain ⟨hsmall, j, hj, hclear⟩ := hcon
      have hput : (s.q.msgQueuePut pMsg).1 = .err .failure := by
        rw [msgQueuePut_failure_iff hcheck, hnone]
        exact ⟨fun _ => hsmall, fun h => absurd h (by omega)⟩
      have hset := hfail hput 1 j (hinv.isBlock_iff.mpr ⟨by decide, hj⟩) (by
        rw [hinv.1.blocksize 1 (by decide)]
        have : queueBuffer.blockSize 1 = 512 := rfl
        omega)
      rw [hclear] at hset
      exact absurd hset (by decide)
  · rintro ⟨hempty, hsmall⟩
    constructor
    · intro hpending hheld
      rw [MsgQueue.msgQueuePut_ok_iff]
      refine ⟨hcheck, ?_⟩
      unfold MsgQueue.HasRoom
      rw [Option.isSome_iff_ne_none, ne_eq, hnone]
      rintro ⟨h0, h1⟩
      have hsize := hempty hpending hheld
      by_cases hle : pMsg.hdr.len + msgInnerHeadLen ≤ 256
      · exact h0 hle (hinv.levelFree_of_empty hpending hheld (by decide))
      · exact h1 (by omega) hsize (hinv.levelFree_of_empty hpending hheld (by decide))
    · intro hfail i j hij hroom
      rw [msgQueuePut_failure_iff hcheck, hnone] at hfail
      obtain ⟨hi, hj⟩ := hinv.isBlock_iff.mp hij
      rw [hinv.1.blocksize i hi] at hroom
      apply (hinv.flag_cases hij).resolve_left
      intro hclear
      have hfree : LevelFree s.q i := ⟨j, hj, hclear⟩
      -- the blocks of the first level have 256 bytes, those of the second 512
      obtain rfl | rfl : i = 0 ∨ i = 1 := by omega
      · have : queueBuffer.blockSize 0 = 256 := rfl
        exact hfail.1 (by omega) hfree
      · have : queueBuffer.blockSize 1 = 512 := rfl
        by_cases hle : pMsg.hdr.len + msgInnerHeadLen ≤ 256
        · rcases hsmall hle with h0 | h1
          · exact hfail.1 hle h0
          · exact h1 hfree
        · exact hfail.2 (by omega) (by omega) hfree

end Put

/-- A valid message can be put in an idle queue exactly when its header and body fit in
512 bytes, and a put fails with memory left exactly when it is served from the level of
the small blocks, these are used up, and a large block is free. -/
theorem put_sendable_iff {s : State} (hreach : machine.Reach s) {pMsg : MsgData}
    (hcheck : MsgQueue.checkBody pMsg = none) :
    Sendable s pMsg ↔
      (s.q.pending = [] → s.held = [] → pMsg.hdr.len + msgInnerHeadLen ≤ 512) ∧
      (pMsg.hdr.len + msgInnerHeadLen ≤ 256 → LevelFree s.q 0 ∨ ¬ LevelFree s.q 1) :=
  (inv_of_reach hreach).sendable_iff hcheck

/-- A message with a body of `len` zero bytes. -/
def zeroBody (len : UInt32) : MsgData where
  hdr := { zeroInnerBlock with
    msg := { zeroInnerBlock.msg with ulMsgLen := len, pMsgBody := .own 0 } }
  body := fun _ => 0

theorem freshQueue_reach : machine.Reach ⟨.freshQueue, []⟩ :=
  .init ⟨⟨msgDefaultQueueSize, true, fun _ => true, MsgQueue.msgQueueInit_freshQueue⟩, rfl⟩

theorem freshQueue_idle : MsgQueue.freshQueue.pending = [] := by
  rw [(MsgQueue.wf_msgQueueInit MsgQueue.msgQueueInit_freshQueue).pending_eq]
  rfl

/-- 468 bytes are the longest body that a fresh queue takes. -/
theorem put_sendable_468 : MsgQueue.checkBody (zeroBody 468) = none ∧
    Sendable ⟨.freshQueue, []⟩ (zeroBody 468) := by
  have hcheck : MsgQueue.checkBody (zeroBody 468) = none := by decide
  refine ⟨hcheck, (put_sendable_iff freshQueue_reach hcheck).mpr ⟨fun _ _ => by decide, ?_⟩⟩
  intro hsize
  exact absurd hsize (by decide)

/-- A body of 469 bytes passes every check, and an idle queue has no block for it. -/
theorem put_fails_469 : ¬ ∀ (s : State) (pMsg : MsgData), machine.Reach s →
    MsgQueue.checkBody pMsg = none → Sendable s pMsg := by
  intro hall
  have hcheck : MsgQueue.checkBody (zeroBody 469) = none := by decide
  have hsend := hall _ _ freshQueue_reach hcheck
  rw [(inv_of_reach freshQueue_reach).sendable_iff hcheck] at hsend
  exact absurd (hsend.1 freshQueue_idle rfl) (by decide)

end QueueRoom
end Msg
end AndroidLinux
