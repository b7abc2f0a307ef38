import Mathlib.Tactic

/-!
# Data of the message system

The constants, error codes and message blocks shared by every module of the
message system (`msg_interface.h`, `msg_misc.h`, `msg_log.h`), and the macro
`MSG_COPY2BUF` by which a message is copied into a buffer.

A buffer that holds messages is a `MsgMem`: the header structures at their
addresses and the raw bytes of the bodies.  Addresses are offsets in the object
that owns the buffer (the `s_pMsgBuf` of a message pool, the `buf` of a response
slot), and every field of a header is kept, `pMsgBody` included, because the copy
redirects it.
-/

namespace AndroidLinux
namespace Msg

/-- `VTOP_TASK_ID` is an `int`; the code only compares it for equality and counts
it as an unsigned number. -/
abbrev TaskId := UInt32

/-- `VTOP_MSG_TYPE`. -/
abbrev MsgType := UInt32

/-- `VTOP_MSG_ID`. -/
abbrev MsgId := UInt32

/-- `VTOP_INVALID_TASK_ID`, the `int` value `-1`. -/
def vtopInvalidTaskId : TaskId := 0xFFFFFFFF

/-- `VTOP_INVALID_MSG_TYPE`. -/
def vtopInvalidMsgType : MsgType := 0xFFFFFFFF

/-- `VTOP_MAX_TASK_ID`: the ids above it are reserved. -/
def vtopMaxTaskId : TaskId := 0xFFFF0000

/-- `VTOP_MSG_MAX_MSG_SIZE`. -/
def vtopMsgMaxMsgSize : Nat := 4096

/-- `VTOP_MSG_MAX_TASK_NAME_LEN`, the size of a `VTOP_MSG_TASKNAME`. -/
def vtopMsgMaxTaskNameLen : Nat := 16

/-! ## Message flags and priorities -/

/-- `VTOP_MSG_FLG_SYNC`. -/
def vtopMsgFlgSync : UInt32 := 0x00000001

/-- `VTOP_MSG_FLG_ASYNC`. -/
def vtopMsgFlgAsync : UInt32 := 0x00000002

/-- `VTOP_MSG_FLG_RESP`. -/
def vtopMsgFlgResp : UInt32 := 0x00000010

/-- `VTOP_MSG_FLG_P2P`. -/
def vtopMsgFlgP2P : UInt32 := 0x00000100

/-- `VTOP_MSG_FLG_SP`. -/
def vtopMsgFlgSP : UInt32 := 0x00000200

/-- `VTOP_MSG_FLG_DSC_SND`. -/
def vtopMsgFlgDscSnd : UInt32 := 0x00002000

/-- `VTOP_MSG_PRIO_HIGH`. -/
def vtopMsgPrioHigh : UInt32 := 2

/-- `VTOP_MSG_PRIO_DEFAULT`, that is `VTOP_MSG_PRIO_MID`. -/
def vtopMsgPrioDefault : UInt32 := 1

/-- `VTOP_MSG_PRIO_SYN`, the priority of every synchronous message. -/
def vtopMsgPrioSyn : UInt32 := 3

/-- `VTOP_MSG_PRIO_RSP`, the priority of every response. -/
def vtopMsgPrioRsp : UInt32 := 4

/-! ## Error codes -/

/-- The error codes the modelled functions return.  Every `VTOP_MSG_ERR_*` value
is negative because `SCP_DEF_ERR` sets the sign bit, and so is `HI_FAILURE`. -/
inductive MsgErr
  | failure
  | general
  | nomem
  | nullPtr
  | invalidPara
  | version
  | dsNotExist
  | procNotExist
  | taskExist
  | taskNotExist
  | taskFull
  | subExist
  | subNotExist
  | subFull
  | subMemberFull
  | timeout
  | respTimeout
  | msgRcv
  | msgSnd
  | msgSize
  deriving DecidableEq, Repr

/-- The `int` result of a call: `HI_SUCCESS` or an error code. -/
inductive Ret
  | ok
  | err (e : MsgErr)
  deriving DecidableEq, Repr

/-! ## Message blocks -/

/-- What `pMsgBody` points to: nothing, the sender's own memory, or an offset in
the buffer that also holds the header. -/
inductive BodyPtr
  | null
  | ext (addr : Nat)
  | own (off : Nat)
  deriving DecidableEq, Repr

/-- `VTOP_MSG_S_Block`. -/
structure VtopMsgBlock where
  sndTaskId : TaskId
  rcvTaskId : TaskId
  msgType : MsgType
  msgID : MsgId
  ulPrio : UInt32
  ulFlag : UInt32
  ulMsgLen : UInt32
  pMsgBody : BodyPtr
  deriving DecidableEq, Repr

/-- `VTOP_MSG_S_InnerBlock`. -/
structure InnerBlock where
  msg : VtopMsgBlock
  resp2id : MsgId
  magic : UInt32
  privData : Int
  deriving DecidableEq, Repr

namespace InnerBlock

/-- The body length as a number of bytes. -/
def len (b : InnerBlock) : Nat :=
  b.msg.ulMsgLen.toNat

/-- The same header with another body pointer. -/
def withBody (b : InnerBlock) (ptr : BodyPtr) : InnerBlock :=
  { b with msg := { b.msg with pMsgBody := ptr } }

/-- The same header with another receiver. -/
def withRcv (b : InnerBlock) (k : TaskId) : InnerBlock :=
  { b with msg := { b.msg with rcvTaskId := k } }

@[simp] theorem len_withBody (b : InnerBlock) (ptr : BodyPtr) :
    (b.withBody ptr).len = b.len := rfl

@[simp] theorem len_withRcv (b : InnerBlock) (k : TaskId) :
    (b.withRcv k).len = b.len := rfl

@[simp] theorem withBody_withBody (b : InnerBlock) (ptr ptr' : BodyPtr) :
    (b.withBody ptr).withBody ptr' = b.withBody ptr' := rfl

@[simp] theorem withRcv_withBody (b : InnerBlock) (k : TaskId) (ptr : BodyPtr) :
    (b.withBody ptr).withRcv k = (b.withRcv k).withBody ptr := rfl

@[simp] theorem withBody_pMsgBody (b : InnerBlock) (ptr : BodyPtr) :
    (b.withBody ptr).msg.pMsgBody = ptr := rfl

end InnerBlock

/-- A message as a callee sees it: its header and the bytes behind `pMsgBody`. -/
structure MsgData where
  hdr : InnerBlock
  body : Nat → UInt8

namespace MsgData

/-- The content of a message: its header apart from `pMsgBody`, and its
`ulMsgLen` body bytes. -/
def content (m : MsgData) : InnerBlock × List UInt8 :=
  (m.hdr.withBody .null, (List.range m.hdr.len).map m.body)

/-- The same message addressed to another receiver. -/
def withRcv (m : MsgData) (k : TaskId) : MsgData :=
  { m with hdr := m.hdr.withRcv k }

/-- Messages agree in content when their headers agree apart from the body
pointer and every body byte agrees. -/
theorem content_eq_of {m m' : MsgData}
    (hhdr : m.hdr.withBody .null = m'.hdr.withBody .null)
    (hbody : ∀ i, i < m'.hdr.len → m.body i = m'.body i) :
    m.content = m'.content := by
  have hlen : m.hdr.len = m'.hdr.len := by
    have := congrArg InnerBlock.len hhdr
    simpa using this
  unfold content
  rw [hhdr, hlen]
  refine Prod.ext rfl ?_
  apply List.map_congr_left
  intro i hi
  exact hbody i (List.mem_range.mp hi)

end MsgData

/-- `sizeof(VTOP_MSG_S_InnerBlock)` on the 32-bit targets of this code: eleven
words. -/
def msgInnerHeadLen : Nat := 44

/-- A buffer of messages: the headers at their addresses, and the body bytes. -/
structure MsgMem where
  inner : Nat → InnerBlock
  bytes : Nat → UInt8

/-- `MSG_COPY2BUF(pBuf, pMsg)`: copy the header, then, when there is a body, copy
it behind the header and redirect `pMsgBody` to the copy. -/
def msgCopy2Buf (mem : MsgMem) (pBuf : Nat) (pMsg : MsgData) : MsgMem :=
  if pMsg.hdr.len > 0 then
    { inner := Function.update mem.inner pBuf
        (pMsg.hdr.withBody (.own (pBuf + msgInnerHeadLen)))
      bytes := fun a =>
        if pBuf + msgInnerHeadLen ≤ a ∧ a < pBuf + msgInnerHeadLen + pMsg.hdr.len then
          pMsg.body (a - (pBuf + msgInnerHeadLen))
        else
          mem.bytes a }
  else
    { mem with inner := Function.update mem.inner pBuf pMsg.hdr }

/-- The message whose header lies at `p`, read through its body pointer. -/
def MsgMem.read (mem : MsgMem) (p : Nat) : MsgData where
  hdr := mem.inner p
  body := fun i =>
    match (mem.inner p).msg.pMsgBody with
    | .own off => mem.bytes (off + i)
    | _ => 0

/-- The header of a copy: every field of the original except `pMsgBody`, which
points behind the header when there is a body. -/
theorem msgCopy2Buf_inner_self (mem : MsgMem) (pBuf : Nat) (pMsg : MsgData) :
    (msgCopy2Buf mem pBuf pMsg).inner pBuf =
      if pMsg.hdr.len > 0 then pMsg.hdr.withBody (.own (pBuf + msgInnerHeadLen))
      else pMsg.hdr := by
  unfold msgCopy2Buf
  split <;> simp

theorem msgCopy2Buf_inner_ne (mem : MsgMem) {pBuf p : Nat} (pMsg : MsgData)
    (hne : p ≠ pBuf) : (msgCopy2Buf mem pBuf pMsg).inner p = mem.inner p := by
  unfold msgCopy2Buf
  split <;> simp [hne]

/-- Outside the body area of the copy no byte changes. -/
theorem msgCopy2Buf_bytes_of_not_mem (mem : MsgMem) {pBuf a : Nat} (pMsg : MsgData)
    (hout : a < pBuf + msgInnerHeadLen ∨ pBuf + msgInnerHeadLen + pMsg.hdr.len ≤ a) :
    (msgCopy2Buf mem pBuf pMsg).bytes a = mem.bytes a := by
  unfold msgCopy2Buf
  split
  · have : ¬ (pBuf + msgInnerHeadLen ≤ a ∧
        a < pBuf + msgInnerHeadLen + pMsg.hdr.len) := by omega
    simp only [if_neg this]
  · rfl

theorem msgCopy2Buf_bytes_body (mem : MsgMem) (pBuf : Nat) (pMsg : MsgData)
    {i : Nat} (hi : i < pMsg.hdr.len) :
    (msgCopy2Buf mem pBuf pMsg).bytes (pBuf + msgInnerHeadLen + i) = pMsg.body i := by
  unfold msgCopy2Buf
  have hpos : pMsg.hdr.len > 0 := by omega
  have hmem : pBuf + msgInnerHeadLen ≤ pBuf + msgInnerHeadLen + i ∧
      pBuf + msgInnerHeadLen + i < pBuf + msgInnerHeadLen + pMsg.hdr.len := by omega
  simp only [if_pos hpos, if_pos hmem]
  congr 1
  omega

/-- A fresh copy has the content of the original. -/
theorem msgCopy2Buf_read_self (mem : MsgMem) (pBuf : Nat) (pMsg : MsgData) :
    ((msgCopy2Buf mem pBuf pMsg).read pBuf).content = pMsg.content := by
  apply MsgData.content_eq_of
  · show ((msgCopy2Buf mem pBuf pMsg).inner pBuf).withBody .null = _
    rw [msgCopy2Buf_inner_self]
    split <;> simp
  · intro i hi
    have hpos : pMsg.hdr.len > 0 := by omega
    have hinner : ((msgCopy2Buf mem pBuf pMsg).inner pBuf).msg.pMsgBody =
        .own (pBuf + msgInnerHeadLen) := by
      rw [msgCopy2Buf_inner_self, if_pos hpos]
      rfl
    simp only [MsgMem.read, hinner]
    exact msgCopy2Buf_bytes_body mem pBuf pMsg hi

/-! ## Messages kept in a buffer -/

/-- The message at `p` occupies at most `room` bytes, and its body, when it has
one, lies behind its header. -/
structure MsgMem.Stored (mem : MsgMem) (p room : Nat) : Prop where
  fits : msgInnerHeadLen + (mem.inner p).len ≤ room
  body : 0 < (mem.inner p).len → (mem.inner p).msg.pMsgBody = .own (p + msgInnerHeadLen)

/-- The content of a stored message depends only on its header and on the bytes of
its own area. -/
theorem MsgMem.Stored.content_eq {mem mem' : MsgMem} {p room : Nat} (hs : mem.Stored p room)
    (hinner : mem'.inner p = mem.inner p)
    (hbytes : ∀ a, p ≤ a → a < p + room → mem'.bytes a = mem.bytes a) :
    (mem'.read p).content = (mem.read p).content := by
  apply MsgData.content_eq_of
  · show (mem'.inner p).withBody .null = (mem.inner p).withBody .null
    rw [hinner]
  · intro i hi
    change i < (mem.inner p).len at hi
    have hbody := hs.body (by omega)
    have hfits := hs.fits
    simp only [MsgMem.read, hinner, hbody]
    exact hbytes _ (by omega) (by omega)

/-- A copy is stored in every room it fits in. -/
theorem msgCopy2Buf_stored (mem : MsgMem) (pBuf : Nat) {room : Nat} (pMsg : MsgData)
    (hfits : msgInnerHeadLen + pMsg.hdr.len ≤ room) :
    (msgCopy2Buf mem pBuf pMsg).Stored pBuf room where
  fits := by
    rw [msgCopy2Buf_inner_self]
    split <;> simpa using hfits
  body := by
    rw [msgCopy2Buf_inner_self]
    split
    · intro _
      rfl
    · intro hpos
      contradiction

section Frame

variable {mem : MsgMem} {p room pBuf : Nat} (pMsg : MsgData) (hs : mem.Stored p room)
  (hdisj : p + room ≤ pBuf ∨ pBuf + msgInnerHeadLen + pMsg.hdr.len ≤ p)
include hs hdisj

/-- A copy made elsewhere leaves a stored message stored. -/
theorem MsgMem.Stored.msgCopy2Buf : (msgCopy2Buf mem pBuf pMsg).Stored p room := by
  have hne : p ≠ pBuf := by
    have hpos : 0 < msgInnerHeadLen := by decide
    have hfits := hs.fits
    omega
  constructor
  · rw [msgCopy2Buf_inner_ne mem pMsg hne]
    exact hs.fits
  · rw [msgCopy2Buf_inner_ne mem pMsg hne]
    exact hs.body

/-- A copy made elsewhere does not change the content of a stored message. -/
theorem MsgMem.Stored.content_msgCopy2Buf :
    ((Msg.msgCopy2Buf mem pBuf pMsg).read p).content = (mem.read p).content := by
  have hne : p ≠ pBuf := by
    have hpos : 0 < msgInnerHeadLen := by decide
    have hfits := hs.fits
    omega
  refine hs.content_eq (msgCopy2Buf_inner_ne mem pMsg hne) ?_
  intro a hlo hhi
  apply msgCopy2Buf_bytes_of_not_mem
  omega

end Frame

end Msg
end AndroidLinux
