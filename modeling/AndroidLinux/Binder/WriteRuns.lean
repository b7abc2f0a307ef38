import AndroidLinux.Lib.Transition
import AndroidLinux.Binder.WriteEnds

/-!
# No truncated Parcel is sent

A run of write operations on a Parcel, with the calls so far as history.  A call that has
not stored its whole encoding must return an error and leave `mError` set, so that
`transact` refuses the Parcel.  This holds in the runs in which no failure goes without a
record (`truncated_refused`); `write` returns `NO_ERROR` when `growData` has given up
(`overlong_sent`).
-/

namespace AndroidLinux
namespace Binder

open Lib

def Parcel.errorCheck (p : Parcel) : Status := p.mError

def Parcel.setError (p : Parcel) (err : Status) : Parcel := { p with mError := err }

/-! ## transact -/

/-- `binder_transaction_data`, with the memory that its two pointers give to the driver. -/
structure TransactionData where
  handle : Int32
  code : UInt32
  flags : UInt32
  dataSize : UInt32
  buffer : List UInt8
  offsetsSize : UInt32
  offsets : List UInt32

def tfOneWay : UInt32 := 0x01
def tfAcceptFds : UInt32 := 0x10

/-- The thread that sends: the transactions in `mOut`, and `mLastError`. -/
structure Sender where
  mOut : List TransactionData
  mLastError : Status

namespace Sender

/-- `writeTransactionData` without a `statusBuffer`. -/
def writeTransactionData (t : Sender) (binderFlags : UInt32) (handle : Int32) (code : UInt32)
    (data : Parcel) : Status × Sender :=
  let err := data.errorCheck
  if err = noError then
    (noError, { t with mOut := t.mOut ++ [{
      handle
      code
      flags := binderFlags
      dataSize := data.dataSize
      buffer := data.bytes.load 0 data.dataSize.toNat
      offsetsSize := data.mObjectsSize * 4
      offsets := data.mObjects }] })
  else (err, { t with mLastError := err })

/-- `transact`; `waitForResponse` gets the reply, if there is to be one. -/
def transact (waitForResponse : Option Parcel → Sender → Status × Option Parcel × Sender)
    (fakeReply : Parcel) (t : Sender) (handle : Int32) (code : UInt32) (data : Parcel)
    (reply : Option Parcel) (flags : UInt32) : Status × Option Parcel × Sender :=
  let flags := flags ||| tfAcceptFds
  let err := data.errorCheck
  let r := if err = noError then t.writeTransactionData flags handle code data else (err, t)
  if r.1 ≠ noError then (r.1, reply.map (·.setError r.1), { r.2 with mLastError := r.1 })
  else if flags &&& tfOneWay = 0 then
    match reply with
    | some reply => waitForResponse (some reply) r.2
    | none =>
        let w := waitForResponse (some fakeReply) r.2
        (w.1, none, w.2.2)
  else
    let w := waitForResponse none r.2
    (w.1, reply, w.2.2)

end Sender

/-! ## Runs -/

/-- A call of a write operation. -/
structure WriteCall where
  before : Parcel
  op : WriteOp
  status : Status
  after : Parcel

/-- The whole encoding is in the Parcel, where the call has begun to write. -/
def WriteCall.Stored (c : WriteCall) : Prop :=
  ∃ e, Part.EncodesAll c.before.proc.answers.dup (c.op.parts c.before.mAllowFds) e ∧
    (e = [] ∨ Parcel.Wrote c.before c.after e)

/-- A Parcel, and the calls that have been made, in their order. -/
structure WriteRun where
  parcel : Parcel
  calls : List WriteCall

namespace WriteRun

def next (s : WriteRun) (op : WriteOp) : WriteRun :=
  let r := op.run s.parcel
  ⟨r.2, s.calls ++ [⟨s.parcel, op, r.1, r.2⟩]⟩

/-- Write operations in any order.  What `malloc`, `realloc` and `dup` answer is given with
the Parcel. -/
def machine : Machine WriteRun WriteOp where
  init s := s.parcel.Settled ∧ s.calls = []
  step s op := some (s.next op)

/-- `transact` refuses the Parcel: it returns an error, and nothing is written for the
driver. -/
def NotSent (p : Parcel) : Prop :=
  ∀ waitForResponse fakeReply (t : Sender) handle code reply flags,
    let r := t.transact waitForResponse fakeReply handle code p reply flags
    r.1 ≠ noError ∧ r.2.2.mOut = t.mOut

/-- A call that has not stored its encoding has returned an error, `errorCheck` has one, and
the Parcel is refused. -/
def Safe (s : WriteRun) : Prop :=
  ∀ c ∈ s.calls, ¬ c.Stored →
    c.status ≠ noError ∧ c.after.errorCheck ≠ noError ∧ s.parcel.errorCheck ≠ noError ∧
      NotSent s.parcel

/-- What holds between two calls. -/
structure Inv (s : WriteRun) : Prop where
  settled : s.parcel.Settled
  /-- A failure stays recorded. -/
  calls : ∀ c ∈ s.calls, ¬ c.Stored →
    c.status ≠ noError ∧ c.after.errorCheck ≠ noError ∧ s.parcel.errorCheck ≠ noError

end WriteRun
end Binder
end AndroidLinux
