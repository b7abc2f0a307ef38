import AndroidLinux.Msg.Send

/-!
# The response slots

The table of slots in which the responses to synchronous messages are left for the
sender that waits for them (`msg_rspmng.c`).  `MSG_RSPMNG_New` gives a free slot to a
sender, `MSG_RSPMNG_PutData` leaves a response in it, `MSG_RSPMNG_GetData` finds it and
`MSG_RSPMNG_Delete` gives the slot back.

`MSG_RSPMNG_PutData` logs an error when the slot is not idle, releases the lock of the
slot and then goes on as if it was: the response is stored, the slot becomes active and
the call succeeds.  `putDataLocked` is the part under the lock and `store` what is left
to do without it.
-/

namespace AndroidLinux
namespace Msg

/-- `MAX_MSG_RSP_NUM`. -/
def maxMsgRspNum : Nat := 128

instance : NeZero maxMsgRspNum :=
  ⟨by decide⟩

/-- `MAX_MSG_RSP_SIZE`. -/
def maxMsgRspSize : Nat := 512

/-- `MSG_RSPMNG_STATE_E`. -/
inductive RspState
  | free
  | idle
  | active
  deriving DecidableEq, Repr

/-- `MSG_RSPMNG_S`, apart from its lock.  The header of the response lies at offset `0`
of `buf`. -/
structure RspSlot where
  buf : MsgMem
  enState : RspState

/-- `s_MsgRspMng` and `s_bFilterInited`. -/
structure RspMng where
  slot : Fin maxMsgRspNum → RspSlot
  inited : Bool

/-- A zeroed slot. -/
def zeroSlot : RspSlot where
  buf := ⟨fun _ => zeroInnerBlock, fun _ => 0⟩
  enState := .free

/-- `FLTR_CHECK_HANDLE_VALID`: the slot a handle names. -/
def checkHandle (handle : Int) : Option (Fin maxMsgRspNum) :=
  if h : 0 ≤ handle ∧ handle < maxMsgRspNum then
    some ⟨handle.toNat, by omega⟩
  else
    none

@[simp] theorem checkHandle_coe (i : Fin maxMsgRspNum) : checkHandle (i : Nat) = some i := by
  simp [checkHandle]

namespace RspMng

/-- The static table before `MSG_RSPMNG_Init`. -/
def zero : RspMng :=
  ⟨fun _ => zeroSlot, false⟩

/-- `MSG_RSPMNG_Init`. -/
def init (m : RspMng) : RspMng :=
  if m.inited then m else ⟨fun _ => zeroSlot, true⟩

/-- Replace one slot. -/
def setSlot (m : RspMng) (i : Fin maxMsgRspNum) (slot : RspSlot) : RspMng :=
  { m with slot := Function.update m.slot i slot }

/-- `MSG_RSPMNG_New`: the first free slot. -/
def new (m : RspMng) : Option (Fin maxMsgRspNum) × RspMng :=
  if m.inited = false then
    (none, m)
  else
    match Fin.find? fun i => decide ((m.slot i).enState = .free) with
    | some i => (some i, m.setSlot i { m.slot i with enState := .idle })
    | none => (none, m)

/-- `MSG_RSPMNG_Delete`. -/
def delete (m : RspMng) (handle : Int) : Ret × RspMng :=
  if m.inited = false then
    (.err .failure, m)
  else
    match checkHandle handle with
    | none => (.err .failure, m)
    | some i => (.ok, m.setSlot i { m.slot i with enState := .free })

/-- `MSG_RSPMNG_GetData`: the slot whose buffer `*ppInnerMsg` is set to. -/
def getData (m : RspMng) (handle : Int) : Option (Fin maxMsgRspNum) :=
  match checkHandle handle with
  | none => none
  | some i => if (m.slot i).enState = .active then some i else none

/-- The checks of `MSG_RSPMNG_PutData` before it takes the lock. -/
def putCheck (m : RspMng) (handle : Int) (pInnerMsg : MsgData) :
    Except MsgErr (Fin maxMsgRspNum) :=
  if m.inited = false then
    .error .failure
  else
    match checkHandle handle with
    | none => .error .failure
    | some i => if maxMsgRspSize < pInnerMsg.hdr.len then .error .msgSize else .ok i

/-- Copy a response to a slot and make it active. -/
def store (m : RspMng) (i : Fin maxMsgRspNum) (pInnerMsg : MsgData) : RspMng :=
  m.setSlot i ⟨msgCopy2Buf (m.slot i).buf 0 pInnerMsg, .active⟩

/-- The part of `MSG_RSPMNG_PutData` under the lock; `false` when the slot is not idle,
in which case the lock is released before the response is stored. -/
def putDataLocked (m : RspMng) (i : Fin maxMsgRspNum) (pInnerMsg : MsgData) :
    Bool × RspMng :=
  if (m.slot i).enState = .idle then (true, m.store i pInnerMsg) else (false, m)

/-- `MSG_RSPMNG_PutData`. -/
def putData (m : RspMng) (handle : Int) (pInnerMsg : MsgData) : Ret × RspMng :=
  match m.putCheck handle pInnerMsg with
  | .error e => (.err e, m)
  | .ok i =>
      match m.putDataLocked i pInnerMsg with
      | (true, m') => (.ok, m')
      | (false, m') => (.ok, m'.store i pInnerMsg)

/-- The response in a slot. -/
def read (m : RspMng) (i : Fin maxMsgRspNum) : MsgData :=
  (m.slot i).buf.read 0

/-! ## What the operations do -/

@[simp] theorem setSlot_self (m : RspMng) (i : Fin maxMsgRspNum) (slot : RspSlot) :
    (m.setSlot i slot).slot i = slot := by
  simp [setSlot]

theorem setSlot_ne (m : RspMng) {i j : Fin maxMsgRspNum} (slot : RspSlot) (hne : j ≠ i) :
    (m.setSlot i slot).slot j = m.slot j := by
  simp [setSlot, hne]

@[simp] theorem setSlot_inited (m : RspMng) (i : Fin maxMsgRspNum) (slot : RspSlot) :
    (m.setSlot i slot).inited = m.inited := rfl

/-- Everything `MSG_RSPMNG_New` can do. -/
theorem new_cases (m : RspMng) :
    m.new = (none, m) ∨ ∃ i, (m.slot i).enState = .free ∧
      m.new = (some i, m.setSlot i { m.slot i with enState := .idle }) := by
  unfold new
  split
  · exact Or.inl rfl
  · split
    · rename_i i hfind
      right
      exact ⟨i, by simpa using (Fin.find?_eq_some_iff.mp hfind).1, rfl⟩
    · exact Or.inl rfl

/-- The owner of a slot gives it back. -/
theorem delete_coe {m : RspMng} (hinit : m.inited = true) (i : Fin maxMsgRspNum) :
    m.delete (i : Nat) = (.ok, m.setSlot i { m.slot i with enState := .free }) := by
  simp [delete, hinit]

theorem getData_coe (m : RspMng) (i : Fin maxMsgRspNum) :
    m.getData (i : Nat) = if (m.slot i).enState = .active then some i else none := by
  simp [getData]

/-- A response that passes the checks is stored whatever the state of the slot. -/
theorem putData_eq (m : RspMng) (handle : Int) (pInnerMsg : MsgData) :
    m.putData handle pInnerMsg =
      match m.putCheck handle pInnerMsg with
      | .error e => (.err e, m)
      | .ok i => (.ok, m.store i pInnerMsg) := by
  unfold putData putDataLocked
  split
  · rfl
  · split
    · rename_i heq
      split at heq
      · cases heq
        rfl
      · cases heq
    · rename_i heq
      split at heq
      · cases heq
      · cases heq
        rfl

/-- What is read from a slot is what was stored. -/
theorem content_read_store (m : RspMng) (i : Fin maxMsgRspNum) (pInnerMsg : MsgData) :
    ((m.store i pInnerMsg).read i).content = pInnerMsg.content := by
  simp only [read, store, setSlot_self]
  exact msgCopy2Buf_read_self _ 0 pInnerMsg

end RspMng
end Msg
end AndroidLinux
