import AndroidLinux.Msg.System

/-!
# Sending and dispatching messages

The headers the senders of `msg_com.c` build, and the dispatcher of `msg_proc.c`.
A sender copies the caller's block into an inner block on its stack; the fields it
does not set keep whatever was there, so they are part of the `MsgData` passed in.
-/

namespace AndroidLinux
namespace Msg

open Lib

/-- `CHECK_MSG_BODY`. -/
def checkMsgBody (pMsg : MsgData) (size : Nat) : Option MsgErr :=
  if pMsg.hdr.msg.pMsgBody = .null ∧ pMsg.hdr.len ≠ 0 then
    some .invalidPara
  else if pMsg.hdr.msg.pMsgBody ≠ .null ∧ pMsg.hdr.len = 0 then
    some .invalidPara
  else if size < pMsg.hdr.len then
    some .msgSize
  else
    none

/-- The message `MSG_SendAsyncMsg` and `MSG_PublishMsg` queue: a new id, the flags
of its kind, and the default priority in place of an invalid one. -/
def asyncInner (pMsg : MsgData) (msgID : MsgId) (flag : UInt32) : MsgData :=
  { pMsg with
    hdr := { pMsg.hdr with
      msg := { pMsg.hdr.msg with
        msgID := msgID
        ulFlag := 0 ||| vtopMsgFlgAsync ||| flag
        ulPrio := if vtopMsgPrioHigh < pMsg.hdr.msg.ulPrio then vtopMsgPrioDefault
          else pMsg.hdr.msg.ulPrio } } }

/-- The message `MSG_SendSyncMsg` queues; `privData` names the response slot. -/
def syncInner (pMsg : MsgData) (msgID : MsgId) (rspHandle : Int) : MsgData :=
  { pMsg with
    hdr := { pMsg.hdr with
      privData := rspHandle
      msg := { pMsg.hdr.msg with
        msgID := msgID
        ulFlag := 0 ||| vtopMsgFlgSync ||| vtopMsgFlgP2P ||| vtopMsgFlgDscSnd
        ulPrio := vtopMsgPrioSyn } } }

/-- The response `MSG_SendSyncRsp` builds for the request `pMsg`: it goes back to the
sender, names the request in `resp2id` and the response slot in `privData`. -/
def respInner (pMsg pMsgResp : MsgData) (msgID : MsgId) : MsgData :=
  { pMsgResp with
    hdr := { pMsgResp.hdr with
      resp2id := pMsg.hdr.msg.msgID
      privData := pMsg.hdr.privData
      msg := { pMsgResp.hdr.msg with
        msgID := msgID
        ulFlag := 0 ||| vtopMsgFlgResp ||| vtopMsgFlgP2P
        ulPrio := vtopMsgPrioRsp
        sndTaskId := pMsg.hdr.msg.rcvTaskId
        rcvTaskId := pMsg.hdr.msg.sndTaskId
        msgType := pMsg.hdr.msg.msgType } } }

/-- Store another receiver in the header at `p`. -/
def MsgMem.setRcv (mem : MsgMem) (p : Nat) (k : TaskId) : MsgMem :=
  { mem with inner := Function.update mem.inner p ((mem.inner p).withRcv k) }

/-- The same for a message in the pool of a queue. -/
def MsgQueue.setRcv (q : MsgQueue) (p : Nat) (k : TaskId) : MsgQueue :=
  { q with mem := q.mem.setRcv p k }

namespace MsgSys

variable {n r : Nat}

/-- Replace the content of a queue. -/
def setQueue (s : MsgSys n r) (h : QHandle) (q : MsgQueue) : MsgSys n r :=
  { s with queues := Function.update s.queues h (some q) }

/-- `getMsgID`, as a step of its own. -/
def getMsgID (s : MsgSys n r) : MsgId × MsgSys n r :=
  (s.counterMsgId, { s with counterMsgId := s.counterMsgId + 1 })

/-- One pass of the loop of `dispatch_SP`: address the message to the task and put a
copy in its queue.  The message stays in the pool of the server. -/
def dispatchTo (s : MsgSys n r) (pMsg : Nat) (k : TaskId) : MsgSys n r :=
  match s.queues s.svrQueue with
  | none => s
  | some svr =>
      let svr' := svr.setRcv pMsg k
      let s' := s.setQueue s.svrQueue svr'
      match s'.taskMng.getHandle k with
      | none => s'
      | some h =>
          match s'.queues h with
          | none => s'
          | some q => s'.setQueue h (q.msgQueuePut (svr'.mem.read pMsg)).2

/-- `dispatch_SP`.  `taskNum` is zero when it is passed to `SUB_TAB_Sub2Task` as the
capacity of the list. -/
def dispatchSP (s : MsgSys n r) (pMsg : Nat) (msgType : MsgType) : MsgSys n r :=
  match s.subTab.sub2Task msgType 0 with
  | .error _ => s
  | .ok taskList => taskList.foldl (fun s k => s.dispatchTo pMsg k) s

/-- The assertion of `MSG_PROC_RcvAndDispatch` on the flags of a message. -/
def isPublished (b : InnerBlock) : Prop :=
  b.msg.ulFlag &&& vtopMsgFlgAsync ≠ 0 ∧ b.msg.ulFlag &&& vtopMsgFlgSP ≠ 0

instance (b : InnerBlock) : Decidable (isPublished b) :=
  inferInstanceAs (Decidable (_ ∧ _))

/-- One turn of the loop of `MSG_PROC_RcvAndDispatch` that finds a message: the
message and the state after it has been dispatched and freed.  `none` when there is
none, and when an assertion fails. -/
def rcvAndDispatch (s : MsgSys n r) : Option (MsgData × MsgSys n r) :=
  match s.queues s.svrQueue with
  | none => none
  | some svr =>
      match svr.msgQueueGet with
      | none => none
      | some (pMsg, svr') =>
          let m := svr'.mem.read pMsg
          if isPublished m.hdr then
            let s' := (s.setQueue s.svrQueue svr').dispatchSP pMsg m.hdr.msg.msgType
            match s'.queues s'.svrQueue with
            | none => none
            | some svr'' =>
                match svr''.msgQueueFree pMsg with
                | none => none
                | some svr''' => some (m, s'.setQueue s'.svrQueue svr''')
          else
            none

end MsgSys
end Msg
end AndroidLinux
