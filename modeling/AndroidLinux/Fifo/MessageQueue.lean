import AndroidLinux.Lib.Chain
import AndroidLinux.Lib.Transition

/-!
# The message queue of `hi_msg_queue.c`

A queue has a fixed number of elements in one area of memory.  Each of its two halves is
a singly linked list with a semaphore that counts it: `message_queue_free` holds the
elements that may be claimed, `message_queue_queue` those that have been sent.

Pointers are 32-bit numbers and the null pointer is 0.  A `message_hdr_t` is one pointer
in front of the user's part of an element.  Any number of threads call the interface, and
a step of a run is one semaphore operation or one section under the mutex of a half;
`sem_trywait` together with the following `usleep(10000)` is one step.  What the threads
have sent and received is kept as history, in the order of the sections.
-/

namespace AndroidLinux
namespace Fifo

open Lib

/-- `message_half_t`, without its mutex. -/
structure MessageHalf where
  messageHalfHead : UInt32
  messageHalfTail : UInt32
  messageHalfSem : Nat

/-- `message_queue_t`, and `message_hdr_next` of every header in memory. -/
structure MessageQueue where
  messageQueueFree : MessageHalf
  messageQueueQueue : MessageHalf
  messageQueueMemory : UInt32
  messageHdrNext : UInt32 → UInt32

/-- The two halves of a queue. -/
inductive Half
  | free
  | queue
  deriving DecidableEq

/-- `sizeof(message_hdr_t)`. -/
def messageHdrSize : UInt32 := 4

/-- `Needed`: what an element takes in memory. -/
def needed (ElementSize : UInt32) : UInt32 :=
  ((ElementSize + 3) &&& ~~~3) + messageHdrSize

/-- What `PrevMsgP` may point to in `message_init_generic`. -/
inductive PrevMsg
  | head
  | next (hdr : UInt32)

namespace MessageQueue

def half (q : MessageQueue) : Half → MessageHalf
  | .free => q.messageQueueFree
  | .queue => q.messageQueueQueue

def setHalf (q : MessageQueue) (h : MessageHalf) : Half → MessageQueue
  | .free => { q with messageQueueFree := h }
  | .queue => { q with messageQueueQueue := h }

/-- `*PrevMsgP = CurrMsg`. -/
def store (q : MessageQueue) (CurrMsg : UInt32) : PrevMsg → MessageQueue
  | .head =>
      { q with messageQueueFree := { q.messageQueueFree with messageHalfHead := CurrMsg } }
  | .next hdr =>
      { q with messageHdrNext := Function.update q.messageHdrNext hdr CurrMsg }

/-- The loop of `message_init_generic`, with the passes that are left. -/
def initLoop (Needed : UInt32) :
    Nat → MessageQueue → PrevMsg → UInt32 → MessageQueue × PrevMsg × UInt32
  | 0, q, PrevMsgP, CurrMsg => (q, PrevMsgP, CurrMsg)
  | passes + 1, q, PrevMsgP, CurrMsg =>
      initLoop Needed passes (q.store CurrMsg PrevMsgP) (.next CurrMsg) (CurrMsg + Needed)

/-- `message_init_generic`, on a `message_queue_t` and a memory with any contents. -/
def messageInitGeneric (q : MessageQueue) (memory ElementSize NoElements : UInt32) :
    MessageQueue :=
  let (q, PrevMsgP, CurrMsg) :=
    initLoop (needed ElementSize) (NoElements.toNat - 1) q .head memory
  let q := q.store CurrMsg PrevMsgP
  { messageQueueFree := ⟨q.messageQueueFree.messageHalfHead, CurrMsg, NoElements.toNat⟩
    messageQueueQueue := ⟨0, 0, 0⟩
    messageQueueMemory := memory
    messageHdrNext := Function.update q.messageHdrNext CurrMsg 0 }

/-- `message_create_generic`; `messages` is what the first `malloc` returns, and the
second one returns a null pointer or an area with any contents. -/
def messageCreateGeneric (ElementSize NoElements messages : UInt32)
    (area : Option MessageQueue) : Option MessageQueue :=
  if messages = 0 then none
  else area.map (fun q => q.messageInitGeneric messages ElementSize NoElements)

/-- The section of `message_half_add`; `none` when it uses a null pointer. -/
def addSection (q : MessageQueue) (k : Half) (Message : UInt32) : Option MessageQueue :=
  let q := { q with messageHdrNext := Function.update q.messageHdrNext Message 0 }
  let h := q.half k
  if h.messageHalfHead = 0 then
    some (q.setHalf { h with messageHalfHead := Message, messageHalfTail := Message } k)
  else if h.messageHalfTail = 0 then none
  else
    some ({ q with
      messageHdrNext := Function.update q.messageHdrNext h.messageHalfTail Message }.setHalf
        { h with messageHalfTail := Message } k)

/-- The section of `message_half_remove` and of `message_half_remove_timeout`: the header
it takes and the queue it leaves; `none` when it uses a null pointer. -/
def removeSection (q : MessageQueue) (k : Half) : Option (UInt32 × MessageQueue) :=
  let h := q.half k
  let Message := h.messageHalfHead
  if Message = 0 then none
  else some (Message, q.setHalf { h with messageHalfHead := q.messageHdrNext Message } k)

/-- The semaphore of a half with a new value. -/
def setSem (q : MessageQueue) (k : Half) (value : Nat) : MessageQueue :=
  q.setHalf { q.half k with messageHalfSem := value } k

/-- `HI_MsgGetAmount`. -/
def hiMsgGetAmount (q : MessageQueue) : Int :=
  q.messageQueueQueue.messageHalfSem

end MessageQueue

/-! ## The threads -/

/-- Where a thread is: between two calls, in front of the operation named, or stopped at
the use of a null pointer. -/
inductive Pc
  | idle
  | semWait (k : Half)
  | semTryWait (k : Half) (timeOut timeOutMs : UInt32)
  | lockRemove (k : Half)
  | returning (UsrMessage : UInt32)
  | lockAdd (k : Half) (UsrMessage : UInt32)
  | semPost (k : Half)
  | fault
  deriving DecidableEq

/-- `message_half_add`, up to the mutex. -/
def messageHalfAdd (k : Half) (UsrMessage : UInt32) : Pc :=
  if UsrMessage = 0 then .idle else .lockAdd k UsrMessage

/-- `message_half_remove`, up to the semaphore. -/
def messageHalfRemove (k : Half) : Pc :=
  .semWait k

/-- `message_half_remove_timeout`, up to the first `sem_trywait`. -/
def messageHalfRemoveTimeout (k : Half) (timeOutMs : UInt32) : Pc :=
  .semTryWait k 0 timeOutMs

def hiMsgClaim (timeoutMs : UInt32) : Pc :=
  if timeoutMs = 0 then messageHalfRemove .free else messageHalfRemoveTimeout .free timeoutMs

def hiMsgReceive (timeoutMs : UInt32) : Pc :=
  if timeoutMs = 0 then messageHalfRemove .queue else messageHalfRemoveTimeout .queue timeoutMs

def hiMsgSend (Message : UInt32) : Pc :=
  messageHalfAdd .queue Message

def hiMsgRelease (Message : UInt32) : Pc :=
  messageHalfAdd .free Message

/-- The loop of `semaphore_wait_timeout` after a `sem_trywait` that failed. -/
def retry (k : Half) (timeOut timeOutMs : UInt32) : Pc :=
  if timeOut = timeOutMs then .returning 0
  else if timeOut + 10 ≤ timeOutMs then .semTryWait k (timeOut + 10) timeOutMs
  else .returning 0

/-- A call of the interface. -/
inductive Call
  | claim (timeoutMs : UInt32)
  | receive (timeoutMs : UInt32)
  | send (Message : UInt32)
  | release (Message : UInt32)

/-- Where the call starts. -/
def Call.entry : Call → Pc
  | .claim timeoutMs => hiMsgClaim timeoutMs
  | .receive timeoutMs => hiMsgReceive timeoutMs
  | .send Message => hiMsgSend Message
  | .release Message => hiMsgRelease Message

/-- The message that the caller gives away. -/
def Call.given : Call → Option UInt32
  | .claim _ => none
  | .receive _ => none
  | .send Message => some Message
  | .release Message => some Message

/-- A queue and the threads that use it; `sent` and `received` list the headers in the
order in which they went through the queue half. -/
structure Run (ι : Type*) where
  q : MessageQueue
  pc : ι → Pc
  held : ι → List UInt32
  sent : List UInt32
  received : List UInt32

/-- A thread starts a call, or takes its next step. -/
inductive Act (ι : Type*)
  | call (t : ι) (c : Call)
  | advance (t : ι)

def Act.thread {ι : Type*} : Act ι → ι
  | .call t _ => t
  | .advance t => t

namespace Run

variable {ι : Type*} [DecidableEq ι]

def setPc (s : Run ι) (t : ι) (p : Pc) : Run ι :=
  { s with pc := Function.update s.pc t p }

/-- The history of a half with one more element. -/
def log (k : Half) (l : List UInt32) (Message : UInt32) : List UInt32 :=
  match k with
  | .free => l
  | .queue => l ++ [Message]

/-- The next step of a thread. -/
def advance (s : Run ι) (t : ι) : Option (Run ι) :=
  match s.pc t with
  | .idle => none
  | .fault => none
  | .semWait k =>
      let value := (s.q.half k).messageHalfSem
      if value = 0 then none
      else some ({ s with q := s.q.setSem k (value - 1) }.setPc t (.lockRemove k))
  | .semTryWait k timeOut timeOutMs =>
      let value := (s.q.half k).messageHalfSem
      if value = 0 then some (s.setPc t (retry k timeOut timeOutMs))
      else some ({ s with q := s.q.setSem k (value - 1) }.setPc t (.lockRemove k))
  | .lockRemove k =>
      match s.q.removeSection k with
      | none => some (s.setPc t .fault)
      | some (Message, q) =>
          some ({ s with q := q, received := log k s.received Message }.setPc t
            (.returning (Message + messageHdrSize)))
  | .returning UsrMessage =>
      let held := if UsrMessage = 0 then s.held t else UsrMessage :: s.held t
      some ({ s with held := Function.update s.held t held }.setPc t .idle)
  | .lockAdd k UsrMessage =>
      let Message := UsrMessage - messageHdrSize
      match s.q.addSection k Message with
      | none => some (s.setPc t .fault)
      | some q => some ({ s with q := q, sent := log k s.sent Message }.setPc t (.semPost k))
  | .semPost k =>
      some ({ s with q := s.q.setSem k ((s.q.half k).messageHalfSem + 1) }.setPc t .idle)

/-- A call by a thread, which must hold the message it gives away. -/
def call (s : Run ι) (t : ι) (c : Call) : Option (Run ι) :=
  if s.pc t ≠ .idle then none
  else
    match c.given with
    | none => some (s.setPc t c.entry)
    | some Message =>
        if Message ∈ s.held t then
          some ({ s with held := Function.update s.held t ((s.held t).erase Message) }.setPc t
            c.entry)
        else none

def step (s : Run ι) : Act ι → Option (Run ι)
  | .call t c => s.call t c
  | .advance t => s.advance t

end Run

/-- The arguments of `HI_MsgQueueCreate` and the area that it got for the elements: there
is an element, the size of the area does not overflow, and the area is not at the very
end of the memory, so that the pointer behind it is not null. -/
structure Config where
  MessageSize : UInt32
  Messages : UInt32
  memory : UInt32
  messages_pos : 1 ≤ Messages.toNat
  fits : ((MessageSize.toNat + 3) / 4 * 4 + 4) * Messages.toNat < 2 ^ 32
  memory_ne : memory ≠ 0
  area : memory.toNat + (needed MessageSize * Messages).toNat < 2 ^ 32

/-- The runs of any number of threads on a queue that `HI_MsgQueueCreate` returned. -/
def machine (ι : Type*) [DecidableEq ι] (cfg : Config) : Machine (Run ι) (Act ι) where
  init s := (∃ area, MessageQueue.messageCreateGeneric cfg.MessageSize cfg.Messages cfg.memory
      area = some s.q) ∧ s.pc = (fun _ => .idle) ∧ s.held = (fun _ => []) ∧
    s.sent = [] ∧ s.received = []
  step := Run.step

end Fifo
end AndroidLinux
