import AndroidLinux.Lib.ListHead
import AndroidLinux.Msg.Buffer

/-!
# Message queues

The queues of `msg_queue.c`.  A queue owns a buffer pool; a queued message lies in
a block of the pool, and the list node that links it into the queue lies in the
head of the same block.  So the list, the flags of the blocks and the message area
have to be kept in step.

Every function is the body of one `MSG_QUEUE_LOCK() ... MSG_QUEUE_UNLOCK()`
section together with the parameter checks before it, for a handle and a message
that are not `NULL`.

`MsgQueue.WF q nodes held` ties the three together: `nodes` are the blocks of the
queued messages in order, `held` the blocks of the messages that have been
received and not yet freed.  There is one lemma per operation.
-/

namespace AndroidLinux
namespace Msg

open Lib

/-- `MSG_QUEUE_S` with the memory of its pool.  In `list` the head of the queue is
`none`, and the node in the block at address `a` is `some a`. -/
structure MsgQueue where
  num : Int
  list : Links (Option Nat)
  buf : MbContext
  mem : MsgMem

/-- `MSG_DEFAULT_QUEUE_SIZE`, the size asked for by every caller of
`MSG_QueueInit`. -/
def msgDefaultQueueSize : Nat := 32 * 1024

/-- The pool configuration of `MSG_QueueInit`. -/
def queueBuffer : VtopMsgBuffer where
  blockNum := fun i => if i = 0 then 128 else if i = 1 then 8 else 0
  blockSize := fun i => if i = 0 then 256 else if i = 1 then 512 else 0

/-- A header of zero bytes. -/
def zeroInnerBlock : InnerBlock where
  msg :=
    { sndTaskId := 0, rcvTaskId := 0, msgType := 0, msgID := 0, ulPrio := 0, ulFlag := 0,
      ulMsgLen := 0, pMsgBody := .null }
  resp2id := 0
  magic := 0
  privData := 0

/-- `MSG_QueueInit`.  `none` stands for `HI_FAILURE`, the only error it returns. -/
def msgQueueInit (bufsize : Nat) (mallocQueue : Bool) (malloc : MbMalloc → Bool) :
    Option MsgQueue :=
  if bufsize < 1024 then
    none
  else if mallocQueue = false then
    none
  else
    match mbInit queueBuffer malloc with
    | .error _ => none
    | .ok buf =>
        some
          { num := 0
            list := Links.listInit ⟨fun _ => none, fun _ => none⟩ none
            buf := buf
            mem := ⟨fun _ => zeroInnerBlock, fun _ => 0⟩ }

/-- The type of the message in the block at `a`. -/
def MsgMem.typeAt (mem : MsgMem) (a : Nat) : MsgType :=
  (mem.inner (a + mbHeadLen)).msg.msgType

/-- The last of the blocks in `rest` with a message of the type, or `a`. -/
def MsgMem.mergeLast (mem : MsgMem) (t : MsgType) (rest : List Nat) (a : Nat) : Nat :=
  rest.foldl (fun last x => if mem.typeAt x = t then x else last) a

theorem MsgMem.mergeLast_cons (mem : MsgMem) (t : MsgType) (x : Nat) (rest : List Nat) (a : Nat) :
    mem.mergeLast t (x :: rest) a = mem.mergeLast t rest (if mem.typeAt x = t then x else a) :=
  rfl

/-- Nothing of the type is behind the block that is kept. -/
theorem MsgMem.mergeLast_cases (mem : MsgMem) (t : MsgType) (rest : List Nat) (a : Nat) :
    (mem.mergeLast t rest a = a ∧ ∀ x ∈ rest, mem.typeAt x ≠ t) ∨
    (mem.typeAt (mem.mergeLast t rest a) = t ∧ ∃ front back,
      rest = front ++ mem.mergeLast t rest a :: back ∧ ∀ x ∈ back, mem.typeAt x ≠ t) := by
  induction rest generalizing a with
  | nil => exact .inl ⟨rfl, fun x hx => absurd hx List.not_mem_nil⟩
  | cons y rest ih =>
      rw [mergeLast_cons]
      rcases ih (if mem.typeAt y = t then y else a) with
        ⟨heq, hnone⟩ | ⟨htype, front, back, hrest, hnone⟩
      · rw [heq]
        by_cases hy : mem.typeAt y = t
        · rw [if_pos hy]
          exact .inr ⟨hy, [], rest, rfl, hnone⟩
        · rw [if_neg hy]
          refine .inl ⟨rfl, fun x hx => ?_⟩
          rcases List.mem_cons.mp hx with rfl | hx
          · exact hy
          · exact hnone x hx
      · refine .inr ⟨htype, y :: front, back, ?_, hnone⟩
        rw [List.cons_append, ← hrest]

theorem MsgMem.mergeLast_mem (mem : MsgMem) (t : MsgType) (rest : List Nat) (a : Nat) :
    mem.mergeLast t rest a ∈ a :: rest := by
  rcases mem.mergeLast_cases t rest a with ⟨heq, -⟩ | ⟨-, front, back, hrest, -⟩
  · rw [heq]
    exact List.mem_cons_self
  · refine List.mem_cons_of_mem a ?_
    generalize mem.mergeLast t rest a = b at hrest
    rw [hrest]
    exact List.mem_append_right front List.mem_cons_self

namespace MsgQueue

/-- The checks of `MSG_QueuePut` on the length and the pointer of the body. -/
def checkBody (pMsg : MsgData) : Option MsgErr :=
  if vtopMsgMaxMsgSize < pMsg.hdr.len then
    some .msgSize
  else if (pMsg.hdr.msg.pMsgBody = .null ∧ pMsg.hdr.len ≠ 0) ∨
      (pMsg.hdr.msg.pMsgBody ≠ .null ∧ pMsg.hdr.len = 0) then
    some .invalidPara
  else
    none

/-- The part of `MSG_QueuePut` after the allocation returned `pBuf`. -/
def putAt (q : MsgQueue) (pBuf : Nat) (pMsg : MsgData) : MsgQueue :=
  let pNode := MbContext.mbGetQNode pBuf
  { num := q.num + 1
    list := q.list.listAddTail (some pNode) none
    buf := q.buf.setHead pNode { q.buf.head pNode with privData := pBuf }
    mem := msgCopy2Buf q.mem pBuf pMsg }

/-- `MSG_QueuePut`. -/
def msgQueuePut (q : MsgQueue) (pMsg : MsgData) : Ret × MsgQueue :=
  match checkBody pMsg with
  | some e => (.err e, q)
  | none =>
      match q.buf.mbAlloc (pMsg.hdr.len + msgInnerHeadLen) with
      | none => (.err .failure, q)
      | some (pBuf, buf) => (.ok, { q with buf := buf }.putAt pBuf pMsg)

/-- Take one node out of the list. -/
def unlink (q : MsgQueue) (pNode : Nat) : MsgQueue :=
  { q with num := q.num - 1, list := q.list.listDel (some pNode) }

/-- `MSG_QueueGet`: the pointer stored in `*ppMsg`, or `none` for `HI_FAILURE`.
The list is empty when the head points to itself. -/
def msgQueueGet (q : MsgQueue) : Option (Nat × MsgQueue) :=
  match q.list.next none with
  | none => none
  | some pNode =>
      some ((q.buf.head pNode).privData, q.unlink pNode)

/-- `MSG_QueueFree`.  `none` is the failed assertion of `MB_Free`. -/
def msgQueueFree (q : MsgQueue) (pMsg : Nat) : Option MsgQueue :=
  match q.buf.mbFree pMsg with
  | none => none
  | some buf => some { q with buf := buf }

/-- The loop of `MSG_QueueGetMerge` over the nodes behind the first message: every
message of the type replaces the one kept so far, which is freed.  `none` is the
failed assertion of `MB_Free`. -/
def mergeLoop (msgtype : MsgType) : List Nat → MsgQueue → Nat → Option (Nat × MsgQueue)
  | [], q, pLast => some (pLast, q)
  | pNode :: rest, q, pLast =>
      let pInner := (q.buf.head pNode).privData
      if (q.mem.inner pInner).msg.msgType = msgtype then
        match (q.unlink pNode).msgQueueFree pLast with
        | none => none
        | some q' => mergeLoop msgtype rest q' pInner
      else
        mergeLoop msgtype rest q pLast

/-- The nodes `list_for_each_entry_safe` visits. -/
def nodeList (q : MsgQueue) : List Nat :=
  (q.list.walk none (q.num.toNat + 1) (q.list.next none)).filterMap id

/-- `MSG_QueueGetMerge`.  The outer `none` is the failed assertion of `MB_Free`, the
inner one `HI_FAILURE`. -/
def msgQueueGetMerge (q : MsgQueue) (msgtype : MsgType) : Option (Option (Nat × MsgQueue)) :=
  match q.list.next none with
  | none => some none
  | some pNode =>
      let q' := q.unlink pNode
      (mergeLoop msgtype q'.nodeList q' (q.buf.head pNode).privData).map some

/-- The content of the message in the block at `a`. -/
def contentAt (q : MsgQueue) (a : Nat) : InnerBlock × List UInt8 :=
  (q.mem.read (a + mbHeadLen)).content

theorem contentAt_congr {q q' : MsgQueue} (hmem : q'.mem = q.mem) :
    q'.contentAt = q.contentAt := by
  funext a
  simp only [contentAt, hmem]

/-- The contents of the queued messages, found by walking the list. -/
def pending (q : MsgQueue) : List (InnerBlock × List UInt8) :=
  q.nodeList.map q.contentAt

/-- The pool can take a message of this length. -/
def HasRoom (q : MsgQueue) (pMsg : MsgData) : Prop :=
  (q.buf.mbAlloc (pMsg.hdr.len + msgInnerHeadLen)).isSome = true

/-- The list, the pool and the message area agree: `nodes` are the blocks of the
queued messages in order, `held` those of the received and unfreed ones. -/
structure WF (q : MsgQueue) (nodes held : List Nat) : Prop where
  layout : q.buf.Layout
  ring : q.list.IsRing none (nodes.map some)
  num : q.num = nodes.length
  nodup : (nodes ++ held).Nodup
  priv : ∀ a ∈ nodes, (q.buf.head a).privData = a + mbHeadLen
  used : ∀ a ∈ nodes ++ held, (q.buf.head a).flag = 1 ∧
    ∃ size, q.buf.Block a size ∧ q.mem.Stored (a + mbHeadLen) (size - mbHeadLen)
  unused : ∀ a size, q.buf.Block a size → a ∉ nodes ++ held → (q.buf.head a).flag = 0
  checked : ∀ a ∈ nodes ++ held, checkBody (q.mem.read (a + mbHeadLen)) = none

/-! ## What the operations do -/

variable {q : MsgQueue} {nodes held : List Nat}

/-- The checks look at the header only. -/
theorem checkBody_congr {m m' : MsgData} (hhdr : m.hdr = m'.hdr) : checkBody m = checkBody m' := by
  unfold checkBody
  rw [hhdr]

/-- A copy of a message passes the same checks. -/
theorem checkBody_msgCopy2Buf (mem : MsgMem) (pBuf : Nat) {pMsg : MsgData}
    (hcheck : checkBody pMsg = none) :
    checkBody ((msgCopy2Buf mem pBuf pMsg).read pBuf) = none := by
  by_cases hlen : pMsg.hdr.len > 0
  · have hhdr : ((msgCopy2Buf mem pBuf pMsg).read pBuf).hdr =
        pMsg.hdr.withBody (.own (pBuf + msgInnerHeadLen)) := by
      show (msgCopy2Buf mem pBuf pMsg).inner pBuf = _
      rw [msgCopy2Buf_inner_self, if_pos hlen]
    unfold checkBody at hcheck ⊢
    rw [hhdr]
    split at hcheck
    · cases hcheck
    · rename_i hsize
      rw [InnerBlock.len_withBody, if_neg hsize]
      simp only [InnerBlock.withBody_pMsgBody, reduceCtorEq, false_and, ne_eq, not_false_eq_true,
        true_and, false_or, Nat.pos_iff_ne_zero.mp hlen, if_false]
  · rw [← hcheck]
    apply checkBody_congr
    show (msgCopy2Buf mem pBuf pMsg).inner pBuf = _
    rw [msgCopy2Buf_inner_self, if_neg hlen]

/-- Everything `MSG_QueuePut` can do. -/
theorem msgQueuePut_cases (q : MsgQueue) (pMsg : MsgData) :
    (∃ e, q.msgQueuePut pMsg = (.err e, q)) ∨
    (pMsg.hdr.len ≤ vtopMsgMaxMsgSize ∧ ∃ pBuf buf,
      q.buf.mbAlloc (pMsg.hdr.len + msgInnerHeadLen) = some (pBuf, buf) ∧
      q.msgQueuePut pMsg = (.ok, { q with buf := buf }.putAt pBuf pMsg)) := by
  cases hcheck : checkBody pMsg with
  | some e =>
      left
      exact ⟨e, by simp only [msgQueuePut, hcheck]⟩
  | none =>
      cases halloc : q.buf.mbAlloc (pMsg.hdr.len + msgInnerHeadLen) with
      | none =>
          left
          exact ⟨.failure, by simp only [msgQueuePut, hcheck, halloc]⟩
      | some res =>
          right
          have hlen : pMsg.hdr.len ≤ vtopMsgMaxMsgSize := by
            unfold checkBody at hcheck
            split at hcheck
            · cases hcheck
            · omega
          exact ⟨hlen, res.1, res.2, rfl, by simp only [msgQueuePut, hcheck, halloc]⟩

/-- A put that fails changes nothing. -/
theorem msgQueuePut_of_err {pMsg : MsgData} (h : (q.msgQueuePut pMsg).1 ≠ .ok) :
    (q.msgQueuePut pMsg).2 = q := by
  rcases msgQueuePut_cases q pMsg with ⟨e, heq⟩ | ⟨-, pBuf, buf, -, heq⟩
  · rw [heq]
  · rw [heq] at h
    exact absurd rfl h

/-- With a body that passes the checks and a block for it, a put succeeds. -/
theorem msgQueuePut_ok_iff {pMsg : MsgData} :
    (q.msgQueuePut pMsg).1 = .ok ↔ checkBody pMsg = none ∧ q.HasRoom pMsg := by
  unfold msgQueuePut HasRoom
  cases checkBody pMsg with
  | some e => simp
  | none =>
      cases q.buf.mbAlloc (pMsg.hdr.len + msgInnerHeadLen) <;> simp

theorem WF.block_ne_of_unused (hwf : q.WF nodes held) {a : Nat}
    (hflag : (q.buf.head a).flag = 0) : a ∉ nodes ++ held := by
  intro hmem
  have := (hwf.used a hmem).1
  omega

/-- A fresh queue is empty. -/
theorem wf_msgQueueInit {bufsize : Nat} {mallocQueue : Bool} {malloc : MbMalloc → Bool}
    (h : msgQueueInit bufsize mallocQueue malloc = some q) : q.WF [] [] := by
  unfold msgQueueInit at h
  split at h
  · cases h
  · split at h
    · cases h
    · cases hinit : mbInit queueBuffer malloc with
      | error e => simp [hinit] at h
      | ok buf =>
          simp only [hinit, Option.some.injEq] at h
          subst h
          have hhead := (inited_of_mbInit hinit).head
          constructor
          · exact mbInit_layout hinit (by decide)
          · exact Links.isRing_listInit _ none
          · rfl
          · exact List.nodup_nil
          · simp
          · simp
          · intro a size _ _
            show (buf.head a).flag = 0
            rw [hhead]
            exact VtopMsgBuffer.initHeads_flag queueBuffer a
          · simp

/-- A new queue, when every allocation succeeds. -/
def freshQueue : MsgQueue :=
  (msgQueueInit msgDefaultQueueSize true fun _ => true).get (by decide +kernel)

theorem msgQueueInit_freshQueue :
    msgQueueInit msgDefaultQueueSize true (fun _ => true) = some freshQueue :=
  (Option.some_get _).symm

/-- Walking the list visits exactly the queued blocks. -/
theorem WF.nodeList_eq (hwf : q.WF nodes held) : q.nodeList = nodes := by
  have hlen : (nodes.map some).length < q.num.toNat + 1 := by
    rw [hwf.num, List.length_map]
    omega
  unfold nodeList
  rw [hwf.ring.walk_eq hlen, List.filterMap_map]
  exact List.filterMap_some

theorem WF.pending_eq (hwf : q.WF nodes held) : q.pending = nodes.map q.contentAt := by
  unfold pending
  rw [hwf.nodeList_eq]

/-- A message that fits in a block keeps away from every other block. -/
theorem WF.area_disjoint (hwf : q.WF nodes held) {a size b sizeb len : Nat}
    (ha : q.buf.Block a size) (hb : q.buf.Block b sizeb) (hne : b ≠ a)
    (hfits : msgInnerHeadLen + len + mbHeadLen ≤ size) :
    b + mbHeadLen + (sizeb - mbHeadLen) ≤ a + mbHeadLen ∨
      a + mbHeadLen + msgInnerHeadLen + len ≤ b + mbHeadLen := by
  have hdisj := hwf.layout.block_disjoint hb ha hne
  have hhead := hwf.layout.head_le hb
  omega

/-- Storing a message that fits in an unused block keeps the queue well formed. -/
theorem WF.putAt (hwf : q.WF nodes held) {i a size : Nat} {pMsg : MsgData}
    (hblock : q.buf.Block a size) (hflag : (q.buf.head a).flag = 0)
    (hfits : msgInnerHeadLen + pMsg.hdr.len + mbHeadLen ≤ size)
    (hcheck : checkBody pMsg = none) :
    let q' := { q with buf := q.buf.taken i a }.putAt (a + mbHeadLen) pMsg
    q'.WF (nodes ++ [a]) held ∧ q'.contentAt a = pMsg.content ∧
      ∀ b ∈ nodes ++ held, q'.contentAt b = q.contentAt b := by
  intro q'
  have hnode : MbContext.mbGetQNode (a + mbHeadLen) = a := by
    simp [MbContext.mbGetQNode]
  have hnew : a ∉ nodes ++ held := hwf.block_ne_of_unused hflag
  have hself : q'.buf.head a =
      { q.buf.head a with flag := 1, privData := a + mbHeadLen } := by
    simp [q', MsgQueue.putAt, hnode]
  have hhead : ∀ b, b ≠ a → q'.buf.head b = q.buf.head b := by
    intro b hne
    simp [q', MsgQueue.putAt, hnode, MbContext.setHead_head_ne _ _ hne,
      MbContext.taken_head_ne _ _ hne]
  have hblocks : ∀ b size, q'.buf.Block b size ↔ q.buf.Block b size := by
    intro b size
    simp [q', MsgQueue.putAt]
  -- the messages in the other blocks are out of reach of the copy
  have hother : ∀ b ∈ nodes ++ held, ∃ size, q.buf.Block b size ∧
      q.mem.Stored (b + mbHeadLen) (size - mbHeadLen) ∧
      (b + mbHeadLen + (size - mbHeadLen) ≤ a + mbHeadLen ∨
        a + mbHeadLen + msgInnerHeadLen + pMsg.hdr.len ≤ b + mbHeadLen) := by
    intro b hb
    obtain ⟨sizeb, hbb, hst⟩ := (hwf.used b hb).2
    have hne : b ≠ a := fun e => hnew (e ▸ hb)
    exact ⟨sizeb, hbb, hst, hwf.area_disjoint hblock hbb hne hfits⟩
  have hmem : ∀ b, b ∈ (nodes ++ [a]) ++ held ↔ b ∈ nodes ++ held ∨ b = a := by
    intro b
    simp only [List.mem_append, List.mem_singleton]
    tauto
  refine ⟨⟨?_, ?_, ?_, ?_, ?_, ?_, ?_, ?_⟩, ?_, ?_⟩
  · exact (hwf.layout.taken i a).setHead _ _
  · show (q.list.listAddTail (some (MbContext.mbGetQNode (a + mbHeadLen))) none).IsRing none _
    rw [List.map_append, hnode]
    refine hwf.ring.listAddTail ?_
    simp only [List.mem_cons, List.mem_map, Option.some.injEq, reduceCtorEq, exists_eq_right,
      false_or]
    exact fun h => hnew (List.mem_append_left held h)
  · show q.num + 1 = _
    rw [hwf.num, List.length_append]
    push_cast
    rfl
  · have hperm : ((nodes ++ [a]) ++ held).Perm (a :: (nodes ++ held)) := by
      rw [List.append_assoc, List.singleton_append]
      exact List.perm_middle
    rw [hperm.nodup_iff, List.nodup_cons]
    exact ⟨hnew, hwf.nodup⟩
  · intro b hb
    by_cases hba : b = a
    · rw [hba, hself]
    · rw [hhead b hba]
      refine hwf.priv b ?_
      simpa [hba] using hb
  · intro b hb
    rcases (hmem b).mp hb with hold | rfl
    · have hba : b ≠ a := fun e => hnew (e ▸ hold)
      obtain ⟨sizeb, hbb, hst, hdisj⟩ := hother b hold
      refine ⟨?_, sizeb, (hblocks b sizeb).mpr hbb, hst.msgCopy2Buf pMsg hdisj⟩
      rw [hhead b hba]
      exact (hwf.used b hold).1
    · refine ⟨by rw [hself], size, (hblocks b size).mpr hblock, ?_⟩
      exact msgCopy2Buf_stored q.mem _ pMsg (by omega)
  · intro b sizeb hbb hout
    have hba : b ≠ a := fun e => hout ((hmem b).mpr (Or.inr e))
    rw [hhead b hba]
    exact hwf.unused b sizeb ((hblocks b sizeb).mp hbb)
      (fun h => hout ((hmem b).mpr (Or.inl h)))
  · intro b hb
    rcases (hmem b).mp hb with hold | rfl
    · have hba : b + mbHeadLen ≠ a + mbHeadLen := fun e => hnew (Nat.add_right_cancel e ▸ hold)
      rw [← hwf.checked b hold]
      exact checkBody_congr (msgCopy2Buf_inner_ne q.mem pMsg hba)
    · exact checkBody_msgCopy2Buf q.mem _ hcheck
  · exact msgCopy2Buf_read_self q.mem (a + mbHeadLen) pMsg
  · intro b hb
    obtain ⟨sizeb, -, hst, hdisj⟩ := hother b hb
    exact hst.content_msgCopy2Buf pMsg hdisj

/-- A successful put appends one block that was in use by nobody; the new block
has the content of the message, and all other contents stay as they are. -/
theorem WF.msgQueuePut (hwf : q.WF nodes held) {pMsg : MsgData}
    (hok : (q.msgQueuePut pMsg).1 = .ok) :
    ∃ a, (q.msgQueuePut pMsg).2.WF (nodes ++ [a]) held ∧
      (q.msgQueuePut pMsg).2.contentAt a = pMsg.content ∧
      ∀ b ∈ nodes ++ held, (q.msgQueuePut pMsg).2.contentAt b = q.contentAt b := by
  have hcheck := (msgQueuePut_ok_iff.mp hok).1
  rcases msgQueuePut_cases q pMsg with ⟨e, heq⟩ | ⟨hlen, pBuf, buf, halloc, heq⟩
  · rw [heq] at hok
    cases hok
  obtain ⟨i, j, hij, hflag, hsize, rfl, rfl⟩ := MbContext.mbAlloc_eq_some halloc
  have hfits : msgInnerHeadLen + pMsg.hdr.len + mbHeadLen ≤ (q.buf.mb i).blocksize := by
    unfold vtopMsgMaxMsgSize at hlen
    unfold mbHeadLen sizeTBound msgInnerHeadLen at *
    omega
  rw [heq]
  exact ⟨q.buf.addr i j, hwf.putAt ⟨i, j, hij, rfl, rfl⟩ hflag hfits hcheck⟩

/-- An empty queue has nothing to get. -/
theorem WF.msgQueueGet_nil (hwf : q.WF [] held) : q.msgQueueGet = none := by
  have hnext : q.list.next none = none := hwf.ring.next_nil
  simp only [msgQueueGet, hnext]

/-- Taking a queued block out of the list leaves it with the receiver. -/
theorem WF.unlink {xs ys : List Nat} {a : Nat} (hwf : q.WF (xs ++ a :: ys) held) :
    (q.unlink a).WF (xs ++ ys) (a :: held) := by
  have hmem : ∀ b, b ∈ xs ++ ys ++ a :: held ↔ b ∈ xs ++ a :: ys ++ held := by
    intro b
    simp only [List.mem_append, List.mem_cons]
    tauto
  constructor
  · exact hwf.layout
  · have hring := hwf.ring
    rw [List.map_append, List.map_cons] at hring
    rw [List.map_append]
    exact hring.listDel
  · show q.num - 1 = _
    rw [hwf.num]
    simp only [List.length_append, List.length_cons]
    omega
  · have hperm : (xs ++ ys ++ a :: held).Perm (xs ++ a :: ys ++ held) := by
      rw [List.append_assoc, List.append_assoc, List.cons_append]
      exact List.perm_middle.append_left xs
    rw [hperm.nodup_iff]
    exact hwf.nodup
  · intro b hb
    refine hwf.priv b ?_
    rcases List.mem_append.mp hb with hx | hy
    · exact List.mem_append_left _ hx
    · exact List.mem_append_right _ (List.mem_cons_of_mem a hy)
  · exact fun b hb => hwf.used b ((hmem b).mp hb)
  · exact fun b size hb hout => hwf.unused b size hb (fun h => hout ((hmem b).mpr h))
  · exact fun b hb => hwf.checked b ((hmem b).mp hb)

/-- A get takes the first block out of the list and hands its message out. -/
theorem WF.msgQueueGet_cons {a : Nat} (hwf : q.WF (a :: nodes) held) :
    ∃ q', q.msgQueueGet = some (a + mbHeadLen, q') ∧ q'.WF nodes (a :: held) ∧
      q'.mem = q.mem := by
  have hnext : q.list.next none = some a := hwf.ring.next_cons
  have hpriv := hwf.priv a List.mem_cons_self
  refine ⟨q.unlink a, by simp only [msgQueueGet, hnext, hpriv], ?_, rfl⟩
  have hfront : q.WF ([] ++ a :: nodes) held := hwf
  exact hfront.unlink

/-- A message that is received was the first one of the queue. -/
theorem WF.msgQueueGet_inv (hwf : q.WF nodes held) {pMsg : Nat} {q' : MsgQueue}
    (hget : q.msgQueueGet = some (pMsg, q')) :
    ∃ a rest, nodes = a :: rest ∧ pMsg = a + mbHeadLen ∧ q'.WF rest (a :: held) ∧
      q'.mem = q.mem := by
  cases nodes with
  | nil =>
      rw [hwf.msgQueueGet_nil] at hget
      cases hget
  | cons a rest =>
      obtain ⟨q₁, hget₁, hwf₁, hmem₁⟩ := hwf.msgQueueGet_cons
      rw [hget₁] at hget
      cases hget
      exact ⟨a, rest, rfl, rfl, hwf₁, hmem₁⟩

/-- Freeing a held message succeeds and gives its block back. -/
theorem WF.msgQueueFree (hwf : q.WF nodes held) {a : Nat} (ha : a ∈ held) :
    ∃ q', q.msgQueueFree (a + mbHeadLen) = some q' ∧ q'.WF nodes (held.erase a) ∧
      q'.mem = q.mem := by
  obtain ⟨hflag, size, hblock, -⟩ := hwf.used a (List.mem_append_right nodes ha)
  have hfree := MbContext.mbFree_eq hflag
  refine ⟨{ q with buf := q.buf.released a },
    by simp only [MsgQueue.msgQueueFree, hfree], ?_, rfl⟩
  have hheld : held.Nodup := (List.nodup_append.mp hwf.nodup).2.1
  have hout : a ∉ nodes ++ held.erase a := by
    intro h
    rcases List.mem_append.mp h with hn | hh
    · exact (List.nodup_append.mp hwf.nodup).2.2 a hn a ha rfl
    · exact hheld.not_mem_erase hh
  have hne : ∀ b ∈ nodes ++ held.erase a, b ≠ a := fun b hb e => hout (e ▸ hb)
  have hold : ∀ b ∈ nodes ++ held.erase a, b ∈ nodes ++ held := by
    intro b hb
    rcases List.mem_append.mp hb with hn | hh
    · exact List.mem_append_left _ hn
    · exact List.mem_append_right _ (List.mem_of_mem_erase hh)
  constructor
  · exact hwf.layout.released a
  · exact hwf.ring
  · exact hwf.num
  · exact hwf.nodup.sublist ((List.erase_sublist).append_left nodes)
  · intro b hb
    rw [MbContext.released_head_ne _ (hne b (List.mem_append_left _ hb))]
    exact hwf.priv b hb
  · intro b hb
    obtain ⟨hf, size, hbb, hst⟩ := hwf.used b (hold b hb)
    refine ⟨?_, size, by simpa using hbb, hst⟩
    rw [MbContext.released_head_ne _ (hne b hb)]
    exact hf
  · intro b size hbb hnot
    have hbb' : q.buf.Block b size := by simpa using hbb
    by_cases hba : b = a
    · subst hba
      simp
    · rw [MbContext.released_head_ne _ hba]
      refine hwf.unused b size hbb' ?_
      intro hmem
      apply hnot
      rcases List.mem_append.mp hmem with hn | hh
      · exact List.mem_append_left _ hn
      · exact List.mem_append_right _ ((List.mem_erase_of_ne hba).mpr hh)
  · exact fun b hb => hwf.checked b (hold b hb)

/-- The merge loop takes the messages of the type out of the list and ends with one message
on loan, the last one of the type, or the first one when there is none. -/
theorem WF.mergeLoop (t : MsgType) {rest kept : List Nat} {a : Nat}
    (hwf : q.WF (kept ++ rest) (a :: held)) :
    ∃ q', MsgQueue.mergeLoop t rest q (a + mbHeadLen) =
        some (q.mem.mergeLast t rest a + mbHeadLen, q') ∧
      q'.WF (kept ++ rest.filter fun x => q.mem.typeAt x ≠ t)
        (q.mem.mergeLast t rest a :: held) ∧ q'.mem = q.mem := by
  -- by induction on the rest of the list; `a` is the message on loan
  induction rest generalizing q kept a with
  | nil => exact ⟨q, rfl, hwf, rfl⟩
  | cons x rest ih =>
      have hpriv : (q.buf.head x).privData = x + mbHeadLen :=
        hwf.priv x (List.mem_append_right _ List.mem_cons_self)
      rw [MsgMem.mergeLast_cons]
      by_cases htype : q.mem.typeAt x = t
      · obtain ⟨q₁, hfree, hwf₁, hmem₁⟩ :=
          hwf.unlink.msgQueueFree (a := a) (List.mem_cons_of_mem x List.mem_cons_self)
        -- the message on loan is freed, and the new one of the type takes its place
        have hheld : (x :: a :: held).erase a = x :: held := by
          have hne : x ≠ a := by
            intro e
            have := hwf.unlink.nodup
            rw [List.nodup_append] at this
            exact (List.nodup_cons.mp this.2.1).1 (by rw [e]; exact List.mem_cons_self)
          rw [List.erase_cons_tail (by simpa using hne), List.erase_cons_head]
        rw [hheld] at hwf₁
        obtain ⟨q', hloop, hwf', hmem'⟩ := ih hwf₁
        have hmem : q₁.mem = q.mem := hmem₁
        rw [hmem] at hloop hwf' hmem'
        refine ⟨q', ?_, ?_, hmem'⟩
        · rw [MsgMem.typeAt] at htype
          simp only [MsgQueue.mergeLoop, hpriv, if_pos htype, hfree, hloop,
            if_pos (show q.mem.typeAt x = t from htype)]
        · rw [if_pos htype, List.filter_cons_of_neg (by simpa using htype)]
          exact hwf'
      · have hskip : q.WF ((kept ++ [x]) ++ rest) (a :: held) := by simpa using hwf
        obtain ⟨q', hloop, hwf', hmem'⟩ := ih hskip
        refine ⟨q', ?_, ?_, hmem'⟩
        · rw [if_neg htype]
          rw [MsgMem.typeAt] at htype
          simp only [MsgQueue.mergeLoop, hpriv, if_neg htype, hloop]
        · rw [if_neg htype, List.filter_cons_of_pos (by simpa using htype)]
          simpa using hwf'

/-- What a merging get does to a queue that is not empty. -/
theorem WF.msgQueueGetMerge_cons {a : Nat} (hwf : q.WF (a :: nodes) held) (t : MsgType) :
    ∃ q', q.msgQueueGetMerge t = some (some (q.mem.mergeLast t nodes a + mbHeadLen, q')) ∧
      q'.WF (nodes.filter fun x => q.mem.typeAt x ≠ t) (q.mem.mergeLast t nodes a :: held) ∧
      q'.mem = q.mem := by
  have hnext : q.list.next none = some a := hwf.ring.next_cons
  have hpriv := hwf.priv a List.mem_cons_self
  have hfront : q.WF ([] ++ a :: nodes) held := hwf
  have htaken : (q.unlink a).WF ([] ++ nodes) (a :: held) := hfront.unlink
  obtain ⟨q', hloop, hwf', hmem'⟩ := htaken.mergeLoop t
  refine ⟨q', ?_, hwf', hmem'⟩
  have hlist : (q.unlink a).nodeList = nodes := htaken.nodeList_eq
  simp only [MsgQueue.msgQueueGetMerge, hnext, hpriv, hlist, hloop, Option.map_some]
  rfl

/-- A merging get fails on the empty queue and otherwise hands one message out. -/
theorem WF.msgQueueGetMerge (hwf : q.WF nodes held) (t : MsgType) :
    q.msgQueueGetMerge t = some none ∨
    ∃ b q' nodes', q.msgQueueGetMerge t = some (some (b + mbHeadLen, q')) ∧
      q'.WF nodes' (b :: held) ∧ q'.mem = q.mem ∧ b :: nodes' ⊆ nodes := by
  cases nodes with
  | nil =>
      left
      have hnext : q.list.next none = none := hwf.ring.next_nil
      simp only [MsgQueue.msgQueueGetMerge, hnext]
  | cons a nodes =>
      right
      obtain ⟨q', hget, hwf', hmem'⟩ := hwf.msgQueueGetMerge_cons t
      refine ⟨_, q', _, hget, hwf', hmem', ?_⟩
      intro x hx
      rcases List.mem_cons.mp hx with rfl | hx
      · exact MsgMem.mergeLast_mem q.mem t nodes a
      · exact List.mem_cons_of_mem a (List.mem_of_mem_filter hx)

end MsgQueue
end Msg
end AndroidLinux
