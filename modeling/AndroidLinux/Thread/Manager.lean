import AndroidLinux.Lib.Transition

/-!
# The thread manager of `hi_adp_threadmng.c`

`HI_PthreadMNG_CreateD` keeps a record of every thread it creates.  The record is in the
list of the running threads until the thread itself, at its end, moves it to the list of
the threads that have exited (`HI_PthreadMNG_Del`); `HI_PthreadMNG_Join` and
`PthreadMNG_Wait` take records out of the lists, join the threads and free the records.

A record and its thread are named by one number.  A step of a run is one section under
the mutex, or one access to a field of a record outside of it, or one call of
`pthread_create`, `pthread_join` or an end procedure.  The thread ids are 32-bit numbers;
`pthread_create` returns one that is not 0 and not the id of a thread that has not been
joined, and `pthread_join` of such a thread waits for its end; with any other number it
returns an error.  Joins are requested by threads other than the one to be joined.
-/

namespace AndroidLinux
namespace Thread

open Lib

/-- `pfunEndProc` with `pvEndProcParam`. -/
structure EndProc where
  pfunEndProc : UInt32
  pvEndProcParam : UInt32

/-- `HI_PTHREAD_STATUS_INIT` and its followers. -/
inductive Status
  | init
  | start
  | stop

/-- `PthreadMNG_Thread_S`: the fields that a step reads or writes after the record is
in the list. -/
structure PthreadMngThread where
  u32Thread : UInt32
  s32Status : Status
  endProc : Option EndProc

/-- Where `HI_PthreadMNG_CreateD` is. -/
inductive CreatorPc
  | none
  | create
  | store (u32Threadp : UInt32)
  | remove
  | done

/-- Where `PthreadMng_PthreadProc` is. -/
inductive ThreadPc
  | none
  | start
  | run
  | read
  | del (u32Thread : UInt32)
  | ret
  | ended
  deriving DecidableEq

/-- Where `HI_PthreadMNG_Join` is, after it has taken the record. -/
inductive JoinerPc
  | none
  | join (u32Thread : UInt32)
  | free
  | done

/-- The thread has left `HI_PthreadMNG_Del`. -/
def ThreadPc.finished : ThreadPc → Prop
  | .ret => True
  | .ended => True
  | _ => False

/-- A record (`none` when it is not allocated), its thread, and the calls that work on
them.  `joins`, `registered`, `called` and `movedBy` are history: the successful joins,
the end procedures registered for the thread and those called for it, and the threads
that have moved the record to the list of the exited ones. -/
structure Slot where
  record : Option PthreadMngThread
  creator : CreatorPc
  thread : ThreadPc
  tid : UInt32
  joiner : JoinerPc
  joins : Nat
  registered : List EndProc
  called : List EndProc
  movedBy : List Nat

/-- Nothing has been allocated yet. -/
def Slot.blank : Slot :=
  ⟨none, .none, .none, 0, .none, 0, [], [], []⟩

/-- `pthread_create` has made the thread, and it has not been joined. -/
def Slot.Live (v : Slot) : Prop :=
  v.thread ≠ .none ∧ v.joins = 0

instance (v : Slot) : Decidable v.Live :=
  inferInstanceAs (Decidable (_ ∧ _))

/-- The lists of the manager; `immediate` are the end procedures that
`HI_PthreadMNG_RegisterEndProc` is about to call itself, and `fault` says that a record
has been used after it was freed. -/
structure TrdMng where
  slots : Nat → Slot
  next : Nat
  pthreadMng : List Nat
  pthreadMngExit : List Nat
  immediate : List (Option Nat × EndProc)
  fault : Bool

/-- The steps. -/
inductive Act
  | addRecord
  | createThread (r : Nat) (u32Threadp : Option UInt32)
  | storeThread (r : Nat)
  | removeFailed (r : Nat)
  | start (r : Nat)
  | stop (r : Nat)
  | readThread (r : Nat)
  | del (r : Nat)
  | terminate (r : Nat)
  | registerEndProc (u32Thread : UInt32) (p : EndProc)
  | callNow (i : Nat)
  | join (u32Thread : UInt32)
  | pthreadJoin (r : Nat)
  | freeJoined (r : Nat)
  | wait

namespace TrdMng

def setSlot (s : TrdMng) (r : Nat) (v : Slot) : TrdMng :=
  { s with slots := Function.update s.slots r v }

/-- An access to a record. -/
def access (s : TrdMng) (r : Nat) (f : PthreadMngThread → TrdMng) : TrdMng :=
  (s.slots r).record.elim { s with fault := true } f

/-- The thread that a number stands for. -/
def target (s : TrdMng) (u32Thread : UInt32) : Option Nat :=
  (List.range s.next).find? (fun r => (s.slots r).Live ∧ (s.slots r).tid = u32Thread)

/-- The first record with the number, as the loops over a list find it. -/
def lookup (s : TrdMng) (l : List Nat) (u32Thread : UInt32) : Option Nat :=
  l.find? (fun r => (s.slots r).record.elim false (fun rec => rec.u32Thread = u32Thread))

/-- `pthread_join`; `none` while it has to wait. -/
def pthreadJoin (s : TrdMng) (u32Thread : UInt32) : Option TrdMng :=
  (s.target u32Thread).elim (some s) fun x =>
    if (s.slots x).thread = .ended then
      some (s.setSlot x { s.slots x with joins := (s.slots x).joins + 1 })
    else none

/-- The history of the thread that an end procedure is registered for. -/
def noteRegistered (s : TrdMng) (x : Option Nat) (p : EndProc) : TrdMng :=
  x.elim s fun x =>
    s.setSlot x { s.slots x with registered := (s.slots x).registered ++ [p] }

def noteCalled (s : TrdMng) (x : Option Nat) (p : EndProc) : TrdMng :=
  x.elim s fun x => s.setSlot x { s.slots x with called := (s.slots x).called ++ [p] }

/-- The first section of `HI_PthreadMNG_CreateD`. -/
def addRecord (s : TrdMng) : TrdMng :=
  { s.setSlot s.next { Slot.blank with record := some ⟨0, .init, none⟩, creator := .create } with
    next := s.next + 1
    pthreadMng := s.pthreadMng ++ [s.next] }

/-- `HI_PthreadCreate`. -/
def createThread (s : TrdMng) (r : Nat) (u32Threadp : Option UInt32) : Option TrdMng :=
  match (s.slots r).creator, u32Threadp with
  | .create, none => some (s.setSlot r { s.slots r with creator := .remove })
  | .create, some id =>
      if id = 0 ∨ (s.target id).isSome then none
      else some (s.setSlot r { s.slots r with creator := .store id, thread := .start, tid := id })
  | _, _ => none

/-- `pstruPWTmp->u32Thread = u32Threadp`. -/
def storeThread (s : TrdMng) (r : Nat) : Option TrdMng :=
  match (s.slots r).creator with
  | .store id =>
      some (s.access r fun rec =>
        s.setSlot r { s.slots r with
          record := some { rec with u32Thread := id }, creator := .done })
  | _ => none

/-- The second section of `HI_PthreadMNG_CreateD`, and the `free` after it. -/
def removeFailed (s : TrdMng) (r : Nat) : Option TrdMng :=
  match (s.slots r).creator with
  | .remove =>
      some (s.access r fun _ =>
        { s.setSlot r { s.slots r with record := none, creator := .done } with
          pthreadMng := s.pthreadMng.erase r
          pthreadMngExit := s.pthreadMngExit.erase r })
  | _ => none

/-- The thread writes its status. -/
def writeStatus (s : TrdMng) (r : Nat) (status : Status) (pc : ThreadPc) : TrdMng :=
  s.access r fun rec =>
    s.setSlot r { s.slots r with record := some { rec with s32Status := status }, thread := pc }

/-- The argument of `HI_PthreadMNG_Del` is read from the record. -/
def readThread (s : TrdMng) (r : Nat) : Option TrdMng :=
  match (s.slots r).thread with
  | .read =>
      some (s.access r fun rec => s.setSlot r { s.slots r with thread := .del rec.u32Thread })
  | _ => none

/-- The move of `HI_PthreadMNG_Del`, by the thread `r`. -/
def moveToExit (s : TrdMng) (r x : Nat) : TrdMng :=
  { s.setSlot x { s.slots x with movedBy := (s.slots x).movedBy ++ [r] } with
    pthreadMng := s.pthreadMng.erase x
    pthreadMngExit := s.pthreadMngExit ++ [x] }

/-- The thread `r` goes on to `pc`. -/
def setThread (s : TrdMng) (r : Nat) (pc : ThreadPc) : TrdMng :=
  s.setSlot r { s.slots r with thread := pc }

/-- The section of `HI_PthreadMNG_Del`. -/
def hiPthreadMngDel (s : TrdMng) (r : Nat) : Option TrdMng :=
  match (s.slots r).thread with
  | .del u32Thread =>
      some (((s.lookup s.pthreadMng u32Thread).elim s (s.moveToExit r)).setThread r .ret)
  | _ => none

/-- The section of `HI_PthreadMNG_RegisterEndProc`. -/
def hiPthreadMngRegisterEndProc (s : TrdMng) (u32Thread : UInt32) (p : EndProc) : TrdMng :=
  match s.lookup s.pthreadMng u32Thread with
  | some x =>
      (s.access x fun rec =>
        s.setSlot x { s.slots x with record := some { rec with endProc := some p } }).noteRegistered
        (s.target u32Thread) p
  | none => { s with immediate := s.immediate ++ [(s.target u32Thread, p)] }

/-- `pfunEndProc(pvParam)` in `HI_PthreadMNG_RegisterEndProc`. -/
def callNow (s : TrdMng) (i : Nat) : Option TrdMng :=
  (s.immediate[i]?).map fun e =>
    (({ s with immediate := s.immediate.eraseIdx i }).noteRegistered e.1 e.2).noteCalled e.1 e.2

/-- The section of `HI_PthreadMNG_Join`. -/
def hiPthreadMngJoin (s : TrdMng) (u32Thread : UInt32) : TrdMng :=
  ((s.lookup s.pthreadMng u32Thread).or (s.lookup s.pthreadMngExit u32Thread)).elim s fun x =>
    { s.setSlot x { s.slots x with joiner := .join u32Thread } with
      pthreadMng := s.pthreadMng.erase x
      pthreadMngExit := s.pthreadMngExit.erase x }

/-- `HI_PthreadJoin` in `HI_PthreadMNG_Join`. -/
def joinTaken (s : TrdMng) (r : Nat) : Option TrdMng :=
  match (s.slots r).joiner with
  | .join u32Thread =>
      (s.pthreadJoin u32Thread).map fun s => s.setSlot r { s.slots r with joiner := .free }
  | _ => none

/-- The `free` of `HI_PthreadMNG_Join`. -/
def freeJoined (s : TrdMng) (r : Nat) : Option TrdMng :=
  match (s.slots r).joiner with
  | .free =>
      some (s.access r fun _ => s.setSlot r { s.slots r with record := none, joiner := .done })
  | _ => none

/-- One pass of the loop of `PthreadMNG_Wait`. -/
def waitOne (s : TrdMng) (r : Nat) : Option TrdMng :=
  (s.slots r).record.elim (some { s with fault := true }) fun rec =>
    (s.pthreadJoin rec.u32Thread).map fun s =>
      { s.setSlot r { s.slots r with
          record := none, called := (s.slots r).called ++ rec.endProc.toList } with
        pthreadMngExit := s.pthreadMngExit.erase r }

/-- The section of `PthreadMNG_Wait`: its loop starts again at the head of the list after
every pass, so that it works through the list. -/
def pthreadMngWait (s : TrdMng) : Option TrdMng :=
  s.pthreadMngExit.foldlM waitOne s

/-- One step. -/
def step (s : TrdMng) : Act → Option TrdMng
  | .addRecord => some s.addRecord
  | .createThread r u32Threadp => s.createThread r u32Threadp
  | .storeThread r => s.storeThread r
  | .removeFailed r => s.removeFailed r
  | .start r => if (s.slots r).thread = .start then some (s.writeStatus r .start .run) else none
  | .stop r => if (s.slots r).thread = .run then some (s.writeStatus r .stop .read) else none
  | .readThread r => s.readThread r
  | .del r => s.hiPthreadMngDel r
  | .terminate r => if (s.slots r).thread = .ret then some (s.setThread r .ended) else none
  | .registerEndProc u32Thread p => some (s.hiPthreadMngRegisterEndProc u32Thread p)
  | .callNow i => s.callNow i
  | .join u32Thread => some (s.hiPthreadMngJoin u32Thread)
  | .pthreadJoin r => s.joinTaken r
  | .freeJoined r => s.freeJoined r
  | .wait => s.pthreadMngWait

/-- The lists at the start of the program. -/
def start : TrdMng where
  slots _ := Slot.blank
  next := 0
  pthreadMng := []
  pthreadMngExit := []
  immediate := []
  fault := false

/-- All interleavings. -/
def machine : Machine TrdMng Act where
  init s := s = start
  step := step

end TrdMng
end Thread
end AndroidLinux
