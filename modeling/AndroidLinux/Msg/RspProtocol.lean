import AndroidLinux.Lib.Transition
import AndroidLinux.Msg.RspMng

/-!
# Requests and responses

Any number of `VTOP_MSG_SynSend` calls and of `VTOP_MSG_SendResp` calls over the table
of response slots.  A `SynSend` call is a `Sender`, numbered; it starts here when it
has found the queue of the receiver, since the checks before that touch nothing.  A
section of `msg_rspmng.c` between a lock and its unlock is one step, and so is each
piece of code between two of them.

A request that was put in the queue of the receiver may be answered by any thread, any
number of times and at any later time; `responder` are the threads that have found the
slot not idle and have yet to store their response without the lock.

The state also records the history the properties are about: `replies` are the responses
built for each request, and `origin` tells which request the response in a slot answers.
-/

namespace AndroidLinux
namespace Msg

open Lib

/-- A response as `VTOP_MSG_SynSend` returns it, with the call whose request it
answers. -/
structure Response where
  msg : MsgData
  origin : Nat

/-- Where a `MSG_SendSyncMsg` that owns a slot stands. -/
inductive Phase
  | queueing (timeout : Int)
  | polling (timeout : Int)
  | copying
  | closing (result : Except MsgErr Response)

/-- A call of `MSG_SendSyncMsg`. -/
inductive Sender
  | ready
  | running (slot : Fin maxMsgRspNum) (request : MsgData) (phase : Phase)
  | returned (msgID : MsgId) (result : Except MsgErr Response)

/-- A thread in `MSG_RSPMNG_PutData` that goes on after the slot was not idle. -/
structure Responder where
  call : Nat
  slot : Fin maxMsgRspNum
  pInnerMsg : MsgData

/-- The slots, the calls and the history. -/
structure SynSys where
  mng : RspMng
  counterMsgId : MsgId
  sender : Nat → Sender
  requests : Nat → Option MsgData
  responder : Nat → Option Responder
  replies : List (Nat × MsgData)
  origin : Fin maxMsgRspNum → Nat

/-- The copy of a response that the sender makes in a fresh buffer. -/
def respCopy (m : MsgData) : MsgData :=
  let mem := msgCopy2Buf ⟨fun _ => zeroInnerBlock, fun _ => 0⟩ 0 m
  { hdr := (mem.inner 0).withBody (.own msgInnerHeadLen)
    body := fun i => mem.bytes (msgInnerHeadLen + i) }

theorem content_respCopy (m : MsgData) : (respCopy m).content = m.content := by
  apply MsgData.content_eq_of
  · show ((msgCopy2Buf _ 0 m).inner 0).withBody .null = _
    rw [msgCopy2Buf_inner_self]
    split <;> simp
  · intro i hi
    have hbyte := msgCopy2Buf_bytes_body ⟨fun _ => zeroInnerBlock, fun _ => 0⟩ 0 m hi
    rw [Nat.zero_add] at hbyte
    exact hbyte

/-- The slot a call owns. -/
def Sender.owns : Sender → Option (Fin maxMsgRspNum)
  | .running slot _ _ => some slot
  | _ => none

/-- The id of the request of a call. -/
def Sender.msgID : Sender → Option MsgId
  | .ready => none
  | .running _ request _ => some request.hdr.msg.msgID
  | .returned msgID _ => some msgID

/-- The response a call returns or is about to return. -/
def Sender.response : Sender → Option Response
  | .running _ _ (.closing (.ok response)) => some response
  | .returned _ (.ok response) => some response
  | _ => none

/-- The actions: the steps of a call of `MSG_SendSyncMsg`, a call of
`MSG_SendSyncRsp` and the rest of it without the lock. -/
inductive SynAct
  | call (c : Nat) (pMsg : MsgData) (timeout : Int)
  | queued (c : Nat) (ret : Ret)
  | poll (c : Nat) (elapsed : Bool)
  | copy (c : Nat) (malloc : Bool)
  | delete (c : Nat)
  | reply (d : Nat) (c : Nat) (pMsgResp : MsgData)
  | tail (d : Nat)

namespace SynSys

/-- Take an id. -/
def count (s : SynSys) : SynSys :=
  { s with counterMsgId := s.counterMsgId + 1 }

/-- Move a call. -/
def move (s : SynSys) (c : Nat) (sender : Sender) : SynSys :=
  { s with sender := Function.update s.sender c sender }

/-- Store a response, without regard for the state of the slot. -/
def store (s : SynSys) (c : Nat) (i : Fin maxMsgRspNum) (pInnerMsg : MsgData) : SynSys :=
  { s with
    mng := s.mng.store i pInnerMsg
    origin := Function.update s.origin i c }

/-- Build a response. -/
def replied (s : SynSys) (c : Nat) (pInnerMsg : MsgData) : SynSys :=
  { s.count with replies := (c, pInnerMsg) :: s.replies }

/-- One step. -/
def step (s : SynSys) : SynAct → Option SynSys
  | .call c pMsg timeout =>
      match s.sender c with
      | .ready =>
          match s.mng.new with
          | (none, _) => some (s.count.move c (.returned s.counterMsgId (.error .nomem)))
          | (some i, mng) =>
              let request := syncInner pMsg s.counterMsgId (i : Nat)
              some ({ s.count with mng := mng }.move c (.running i request (.queueing timeout)))
      | _ => none
  | .queued c ret =>
      match s.sender c with
      | .running i request (.queueing timeout) =>
          match ret with
          | .ok =>
              some ({ s with requests := Function.update s.requests c (some request) }.move c
                (.running i request (.polling timeout)))
          | .err e => some (s.move c (.running i request (.closing (.error e))))
      | _ => none
  | .poll c elapsed =>
      match s.sender c with
      | .running i request (.polling timeout) =>
          match s.mng.getData (i : Nat) with
          | some _ => some (s.move c (.running i request .copying))
          | none =>
              -- a negative timeout waits for ever, a zero one does not wait
              if timeout = 0 ∨ (0 < timeout ∧ elapsed = true) then
                some (s.move c (.running i request (.closing (.error .respTimeout))))
              else
                some s
      | _ => none
  | .copy c malloc =>
      match s.sender c with
      | .running i request .copying =>
          if malloc then
            some (s.move c (.running i request
              (.closing (.ok ⟨respCopy (s.mng.read i), s.origin i⟩))))
          else
            some (s.move c (.running i request (.closing (.error .nomem))))
      | _ => none
  | .delete c =>
      match s.sender c with
      | .running i request (.closing result) =>
          some ({ s with mng := (s.mng.delete (i : Nat)).2 }.move c
            (.returned request.hdr.msg.msgID result))
      | _ => none
  | .reply d c pMsgResp =>
      match s.responder d, s.requests c with
      | none, some pMsg =>
          -- the checks of `VTOP_MSG_SendResp`
          if pMsg.hdr.msg.ulFlag &&& vtopMsgFlgSync = 0 then none
          else if (checkMsgBody pMsgResp vtopMsgMaxMsgSize).isSome then none
          else
            let pInnerMsg := respInner pMsg pMsgResp s.counterMsgId
            match s.mng.putCheck pInnerMsg.hdr.privData pInnerMsg with
            | .error _ => some (s.replied c pInnerMsg)
            | .ok i =>
                match s.mng.putDataLocked i pInnerMsg with
                | (true, _) => some ((s.replied c pInnerMsg).store c i pInnerMsg)
                | (false, _) =>
                    some { s.replied c pInnerMsg with
                      responder := Function.update s.responder d (some ⟨c, i, pInnerMsg⟩) }
      | _, _ => none
  | .tail d =>
      match s.responder d with
      | some p =>
          some { s.store p.call p.slot p.pInnerMsg with
            responder := Function.update s.responder d none }
      | none => none

/-- The state after `MSG_RSPMNG_Init`, before any call. -/
def initial : SynSys where
  mng := RspMng.zero.init
  counterMsgId := 0
  sender := fun _ => .ready
  requests := fun _ => none
  responder := fun _ => none
  replies := []
  origin := fun _ => 0

/-- Synchronous messages. -/
def machine : Machine SynSys SynAct where
  init := fun s => s = initial
  step := step

/-! ## What a step can do -/

/-- The steps of a call between the request and the return. -/
inductive PhaseStep (s : SynSys) (i : Fin maxMsgRspNum) : Phase → Phase → Prop
  | unqueued (timeout : Int) (e : MsgErr) :
      PhaseStep s i (.queueing timeout) (.closing (.error e))
  | found (timeout : Int) (hactive : (s.mng.slot i).enState = .active) :
      PhaseStep s i (.polling timeout) .copying
  | gaveUp (timeout : Int) (hempty : (s.mng.slot i).enState ≠ .active) :
      PhaseStep s i (.polling timeout) (.closing (.error .respTimeout))
  | noCopy : PhaseStep s i .copying (.closing (.error .nomem))
  | copied : PhaseStep s i .copying (.closing (.ok ⟨respCopy (s.mng.read i), s.origin i⟩))

/-- Everything a step can do. -/
inductive SynStep (s : SynSys) : SynAct → SynSys → Prop
  | refused {c : Nat} {pMsg : MsgData} {timeout : Int} (hready : s.sender c = .ready) :
      SynStep s (.call c pMsg timeout)
        (s.count.move c (.returned s.counterMsgId (.error .nomem)))
  | started {c : Nat} {pMsg : MsgData} {timeout : Int} {i : Fin maxMsgRspNum}
      (hready : s.sender c = .ready) (hfree : (s.mng.slot i).enState = .free) :
      SynStep s (.call c pMsg timeout)
        ({ s.count with mng := s.mng.setSlot i { s.mng.slot i with enState := .idle } }.move c
          (.running i (syncInner pMsg s.counterMsgId (i : Nat)) (.queueing timeout)))
  | queued {c : Nat} {i : Fin maxMsgRspNum} {request : MsgData} {timeout : Int}
      (hsender : s.sender c = .running i request (.queueing timeout)) :
      SynStep s (.queued c .ok)
        ({ s with requests := Function.update s.requests c (some request) }.move c
          (.running i request (.polling timeout)))
  | moved {a : SynAct} {c : Nat} {i : Fin maxMsgRspNum} {request : MsgData}
      {phase phase' : Phase} (hsender : s.sender c = .running i request phase)
      (hphase : PhaseStep s i phase phase') : SynStep s a (s.move c (.running i request phase'))
  | waited (a : SynAct) : SynStep s a s
  | closed {c : Nat} {i : Fin maxMsgRspNum} {request : MsgData}
      {result : Except MsgErr Response}
      (hsender : s.sender c = .running i request (.closing result)) :
      SynStep s (.delete c)
        ({ s with mng := s.mng.setSlot i { s.mng.slot i with enState := .free } }.move c
          (.returned request.hdr.msg.msgID result))
  | rejected {d c : Nat} {pMsg pMsgResp : MsgData} (hrequest : s.requests c = some pMsg) :
      SynStep s (.reply d c pMsgResp)
        (s.replied c (respInner pMsg pMsgResp s.counterMsgId))
  | stored {d c : Nat} {pMsg pMsgResp : MsgData} {i : Fin maxMsgRspNum}
      (hrequest : s.requests c = some pMsg)
      (hcheck : s.mng.putCheck pMsg.hdr.privData (respInner pMsg pMsgResp s.counterMsgId) = .ok i)
      (hidle : (s.mng.slot i).enState = .idle) :
      SynStep s (.reply d c pMsgResp)
        ((s.replied c (respInner pMsg pMsgResp s.counterMsgId)).store c i
          (respInner pMsg pMsgResp s.counterMsgId))
  | postponed {d c : Nat} {pMsg pMsgResp : MsgData} {i : Fin maxMsgRspNum}
      (hrequest : s.requests c = some pMsg)
      (hcheck : s.mng.putCheck pMsg.hdr.privData (respInner pMsg pMsgResp s.counterMsgId) = .ok i)
      (hidle : (s.mng.slot i).enState ≠ .idle) :
      SynStep s (.reply d c pMsgResp)
        { s.replied c (respInner pMsg pMsgResp s.counterMsgId) with
          responder := Function.update s.responder d
            (some ⟨c, i, respInner pMsg pMsgResp s.counterMsgId⟩) }
  | tail {d : Nat} {p : Responder} (hresponder : s.responder d = some p) :
      SynStep s (.tail d) { s.store p.call p.slot p.pInnerMsg with
        responder := Function.update s.responder d none }

theorem step_cases {s s' : SynSys} {a : SynAct} (hinit : s.mng.inited = true)
    (hstep : s.step a = some s') : SynStep s a s' := by
  cases a with
  | call c pMsg timeout =>
      simp only [step] at hstep
      split at hstep
      · rename_i hready
        rcases s.mng.new_cases with heq | ⟨i, hfree, heq⟩
        · rw [heq] at hstep
          exact Option.some.inj hstep ▸ .refused hready
        · rw [heq] at hstep
          exact Option.some.inj hstep ▸ .started hready hfree
      · cases hstep
  | queued c ret =>
      simp only [step] at hstep
      split at hstep
      · rename_i i request timeout hsender
        cases ret with
        | ok => exact Option.some.inj hstep ▸ .queued hsender
        | err e => exact Option.some.inj hstep ▸ .moved hsender (.unqueued timeout e)
      · cases hstep
  | poll c elapsed =>
      simp only [step] at hstep
      split at hstep
      · rename_i i request timeout hsender
        -- the response is there, the time is over, or the call waits on
        rw [RspMng.getData_coe] at hstep
        split at hstep
        · rename_i hget
          split at hget
          · rename_i hactive
            exact Option.some.inj hstep ▸ .moved hsender (.found timeout hactive)
          · cases hget
        · rename_i hget
          have hempty : (s.mng.slot i).enState ≠ .active := by
            intro hactive
            rw [if_pos hactive] at hget
            cases hget
          split at hstep
          · exact Option.some.inj hstep ▸ .moved hsender (.gaveUp timeout hempty)
          · exact Option.some.inj hstep ▸ .waited _
      · cases hstep
  | copy c malloc =>
      simp only [step] at hstep
      split at hstep
      · rename_i i request hsender
        split at hstep
        · exact Option.some.inj hstep ▸ .moved hsender .copied
        · exact Option.some.inj hstep ▸ .moved hsender .noCopy
      · cases hstep
  | delete c =>
      simp only [step] at hstep
      split at hstep
      · rename_i i request result hsender
        rw [RspMng.delete_coe hinit] at hstep
        exact Option.some.inj hstep ▸ .closed hsender
      · cases hstep
  | reply d c pMsgResp =>
      simp only [step] at hstep
      split at hstep
      · rename_i pMsg _ hrequest
        split at hstep
        · cases hstep
        split at hstep
        · cases hstep
        split at hstep
        · exact Option.some.inj hstep ▸ .rejected hrequest
        · rename_i i hcheck
          split at hstep
          · -- the slot is filled in the same section, unless it is not idle
            rename_i hlocked
            unfold RspMng.putDataLocked at hlocked
            split at hlocked
            · rename_i hidle
              exact Option.some.inj hstep ▸ .stored hrequest hcheck hidle
            · cases hlocked
          · rename_i hlocked
            unfold RspMng.putDataLocked at hlocked
            split at hlocked
            · cases hlocked
            · rename_i hidle
              exact Option.some.inj hstep ▸ .postponed hrequest hcheck hidle
      · cases hstep
  | tail d =>
      simp only [step] at hstep
      split at hstep
      · rename_i p hresponder
        exact Option.some.inj hstep ▸ .tail hresponder
      · cases hstep

end SynSys
end Msg
end AndroidLinux
