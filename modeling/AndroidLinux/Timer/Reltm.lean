import Mathlib.Logic.Function.Basic
import Mathlib.Data.List.FinRange
import AndroidLinux.Lib.Transition

/-!
# Relative timers

The timer wheel of `pereltm.c`.  A timer that is running is linked in one of the 1024
buckets: in `zero_link` when it expires the next time the bucket comes round, in
`sorted_link` when it has to wait for whole turns of the wheel first.  The entries of
`sorted_link` are in the order in which they expire, and `ticks_left` of an entry counts
from the entry before it; its ten low bits are the number of the bucket.

The calls of the interface do not touch the wheel.  They post a tasklet, and
`_reltm_trigger` executes what was posted when it starts an iteration, before it looks
at the bucket of that iteration.

A timer is named by the number of its allocation, so that the name is not used again
after `free`.  What `list.next` of a timer points to is given by the lists of the
buckets, and so `ticks_left` and `link`, which the code reads of linked timers only,
stand in the entry.  A tasklet that works on freed memory has no result.
-/

namespace AndroidLinux
namespace Timer

open Lib

abbrev TimerId := Nat

/-- `TM_HASH_LEN`, for ten `PERELTM_HASH_BITS`. -/
abbrev tmHashLen : Nat := 1024

def tmHashMask : UInt32 := 1023

def tmTmlenMask : UInt32 := ~~~tmHashMask

/-- `MSEC_PER_TICK`, for one hundred `TICKS_PER_SECOND`. -/
def msecPerTick : UInt32 := 10

def tmHashFunc (value : UInt32) : UInt32 :=
  value &&& tmHashMask

def petfOneShoot : UInt8 := 0x1

def petfAutoFree : UInt8 := 0x2

inductive Errno
  | EINVAL
  | ENOMEM

/-- `struct tm_cb_t` without the fields of the wheel. -/
structure TmCb where
  msec : UInt32
  timeout : Nat
  arg : Nat
  mode : UInt8

/-- A timer in a list of the wheel. -/
structure Entry where
  timer : TimerId
  ticksLeft : UInt32

/-- `struct tm_hash_t`. -/
structure TmHash where
  zeroLink : List Entry
  sortedLink : List Entry

/-- What is posted on `rel_tsklets`. -/
inductive Tasklet
  | doStartTm (timer : TimerId) (msec : UInt32) (arg : Nat)
  | doStopTm (timer : TimerId)
  | doFreeTm (timer : TimerId)
deriving DecidableEq

/-- The timer a tasklet works on. -/
def Tasklet.timer : Tasklet → TimerId
  | .doStartTm timer _ _ => timer
  | .doStopTm timer => timer
  | .doFreeTm timer => timer

/-- A call of the callback of a timer. -/
structure Expiry where
  timer : TimerId
  timeout : Nat
  arg : Nat
  iteration : Nat

/-- `sync_block_t` as far as relative timers use it, and the timers that are allocated.
Only `_do_restart_tm` is posted on `rel_inter_tsklets`.  `iteration` counts the
iterations of `_reltm_trigger` and `expiries` lists the callbacks made so far. -/
structure Reltm where
  timers : TimerId → Option TmCb
  nextTimer : TimerId
  tmHash : Fin tmHashLen → TmHash
  tickLast : UInt32
  relTsklets : List Tasklet
  relInterTsklets : List TimerId
  iteration : Nat
  expiries : List Expiry

/-- The state after `init_reltm`. -/
def initReltm : Reltm where
  timers := fun _ => none
  nextTimer := 0
  tmHash := fun _ => ⟨[], []⟩
  tickLast := 0
  relTsklets := []
  relInterTsklets := []
  iteration := 0
  expiries := []

/-! ## The interface

`malloc` tells of an allocation whether it succeeds. -/

/-- `tsklet_invokelater`. -/
def tskletInvokelater {β : Type} (queue : List β) (item : β) (malloc : Bool) :
    Except Errno (List β) :=
  if malloc then .ok (queue ++ [item]) else .error .ENOMEM

namespace Reltm

/-- Post a tasklet on `rel_tsklets`. -/
def post (s : Reltm) (task : Tasklet) (malloc : Bool) : Reltm × Except Errno Unit :=
  match tskletInvokelater s.relTsklets task malloc with
  | .ok queue => ({ s with relTsklets := queue }, .ok ())
  | .error e => (s, .error e)

/-- `petimer_create_reltimer`; `msec` and `arg` have no value until the timer is
started. -/
def petimerCreateReltimer (s : Reltm) (timeout : Option Nat) (mode : UInt32)
    (malloc : Bool) : Reltm × Except Errno TimerId :=
  match timeout with
  | none => (s, .error .EINVAL)
  | some f =>
      if malloc then
        ({ s with
            timers := Function.update s.timers s.nextTimer
              (some { msec := 0, timeout := f, arg := 0, mode := mode.toUInt8 })
            nextTimer := s.nextTimer + 1 },
          .ok s.nextTimer)
      else
        (s, .error .ENOMEM)

def petimerStartReltimer (s : Reltm) (timer : TimerId) (msec : UInt32) (arg : Nat)
    (mallocInfo malloc : Bool) : Reltm × Except Errno Unit :=
  if mallocInfo then s.post (.doStartTm timer msec arg) malloc else (s, .error .ENOMEM)

def petimerStopReltimerSafe (s : Reltm) (timer : TimerId) (mallocInfo malloc : Bool) :
    Reltm × Except Errno Unit :=
  if mallocInfo then s.post (.doStopTm timer) malloc else (s, .error .ENOMEM)

def petimerFreeReltimer (s : Reltm) (timer : TimerId) (malloc : Bool) :
    Reltm × Except Errno Unit :=
  s.post (.doFreeTm timer) malloc

/-- `petimer_start_reltimer_simple`.  When the timer cannot be started it stays
allocated. -/
def petimerStartReltimerSimple (s : Reltm) (msec : UInt32) (timeout : Option Nat)
    (arg : Nat) (mallocTimer mallocInfo malloc : Bool) : Reltm × Except Errno Unit :=
  match s.petimerCreateReltimer timeout petfAutoFree.toUInt32 mallocTimer with
  | (s, .error _) => (s, .error .ENOMEM)
  | (s, .ok timer) => s.petimerStartReltimer timer msec arg mallocInfo malloc

end Reltm

/-- A call of the interface. -/
inductive Request
  | create (timeout : Option Nat) (mode : UInt32) (malloc : Bool)
  | start (timer : TimerId) (msec : UInt32) (arg : Nat) (mallocInfo malloc : Bool)
  | stop (timer : TimerId) (mallocInfo malloc : Bool)
  | free (timer : TimerId) (malloc : Bool)
  | startSimple (msec : UInt32) (timeout : Option Nat) (arg : Nat)
      (mallocTimer mallocInfo malloc : Bool)

/-- What a call of the interface does to the state. -/
def Reltm.request (s : Reltm) : Request → Reltm
  | .create timeout mode malloc => (s.petimerCreateReltimer timeout mode malloc).1
  | .start timer msec arg mallocInfo malloc =>
      (s.petimerStartReltimer timer msec arg mallocInfo malloc).1
  | .stop timer mallocInfo malloc => (s.petimerStopReltimerSafe timer mallocInfo malloc).1
  | .free timer malloc => (s.petimerFreeReltimer timer malloc).1
  | .startSimple msec timeout arg mallocTimer mallocInfo malloc =>
      (s.petimerStartReltimerSimple msec timeout arg mallocTimer mallocInfo malloc).1

/-! ## The wheel -/

theorem toNat_tmHashFunc (value : UInt32) :
    (tmHashFunc value).toNat = value.toNat % 1024 := by
  rw [tmHashFunc, UInt32.toNat_and]
  exact Nat.and_two_pow_sub_one_eq_mod value.toNat 10

/-- The bucket of a hash value. -/
def bucket (value : UInt32) : Fin tmHashLen :=
  ⟨(tmHashFunc value).toNat, by rw [toNat_tmHashFunc]; exact Nat.mod_lt _ (by omega)⟩

/-- Milliseconds to ticks, as `_add2hash` computes them. -/
def ttick (msec : UInt32) : UInt32 :=
  let ticks := (msec + msecPerTick / 2) / msecPerTick
  if ticks ≠ 0 then ticks else 1

/-- The insertion loop of `_add2hash`. -/
def insertSorted (timer : TimerId) : UInt32 → List Entry → List Entry
  | ticksLeft, [] => [⟨timer, ticksLeft⟩]
  | ticksLeft, item :: rest =>
      if ticksLeft < item.ticksLeft then
        ⟨timer, ticksLeft⟩
          :: { item with ticksLeft := item.ticksLeft - (ticksLeft &&& tmTmlenMask) }
          :: rest
      else
        item :: insertSorted timer (ticksLeft - (item.ticksLeft &&& tmTmlenMask)) rest

/-- `_del_from_hash` in a `sorted_link`.  The item behind the timer is compared with the
head of the bucket that `ticks_left` names; if that is not the head of this list, the
last entry takes the head for a timer. -/
def removeSorted (i : Fin tmHashLen) (timer : TimerId) : List Entry → Option (List Entry)
  | [] => none
  | item :: rest =>
      if item.timer = timer then
        match rest with
        | [] => if bucket item.ticksLeft = i then some [] else none
        | next :: rest =>
            some ({ next with
                ticksLeft := next.ticksLeft + (item.ticksLeft &&& tmTmlenMask) } :: rest)
      else
        (removeSorted i timer rest).map (item :: ·)

/-- Whether a timer is linked in a bucket. -/
def TmHash.holds (b : TmHash) (timer : TimerId) : Bool :=
  (b.zeroLink ++ b.sortedLink).any (fun e => e.timer == timer)

namespace Reltm

def setHash (s : Reltm) (i : Fin tmHashLen) (b : TmHash) : Reltm :=
  { s with tmHash := Function.update s.tmHash i b }

/-- The bucket in which a timer is linked.  It is irreducible so that no unifier tries to
look through the whole wheel. -/
@[irreducible]
def locate (s : Reltm) (timer : TimerId) : Option (Fin tmHashLen) :=
  (List.finRange tmHashLen).find? (fun i => (s.tmHash i).holds timer)

/-- `list_isinqueue` of the list item of a timer. -/
def listIsinqueue (s : Reltm) (timer : TimerId) : Bool :=
  (s.locate timer).isSome

/-- `_add2hash`. -/
def add2hash (s : Reltm) (timer : TimerId) : Option Reltm :=
  match s.timers timer with
  | none => none
  | some cb =>
      let i := tmHashFunc (s.tickLast + ttick cb.msec)
      let ticksLeft := i + ((ttick cb.msec - 1) &&& tmTmlenMask)
      let b := s.tmHash (bucket i)
      if 1024 < ttick cb.msec then
        some (s.setHash (bucket i)
          { b with sortedLink := insertSorted timer ticksLeft b.sortedLink })
      else
        some (s.setHash (bucket i) { b with zeroLink := b.zeroLink ++ [⟨timer, ticksLeft⟩] })

/-- `_del_from_hash`. -/
def delFromHash (s : Reltm) (timer : TimerId) : Option Reltm :=
  match s.locate timer with
  | none => some s
  | some i =>
      let b := s.tmHash i
      if b.zeroLink.any (fun e => e.timer == timer) then
        some (s.setHash i
          { b with zeroLink := b.zeroLink.eraseP (fun e => e.timer == timer) })
      else
        (removeSorted i timer b.sortedLink).map
          (fun link => s.setHash i { b with sortedLink := link })

/-! ## Tasklets -/

/-- The test and the removal with which every tasklet begins. -/
def unlink (s : Reltm) (timer : TimerId) : Option Reltm :=
  if s.listIsinqueue timer then s.delFromHash timer else some s

def setTimer (s : Reltm) (timer : TimerId) (cb : Option TmCb) : Reltm :=
  { s with timers := Function.update s.timers timer cb }

def doStartTm (s : Reltm) (timer : TimerId) (msec : UInt32) (arg : Nat) : Option Reltm :=
  match s.timers timer with
  | none => none
  | some cb =>
      match s.unlink timer with
      | none => none
      | some s => (s.setTimer timer (some { cb with msec := msec, arg := arg })).add2hash timer

def doStopTm (s : Reltm) (timer : TimerId) : Option Reltm :=
  match s.timers timer with
  | none => none
  | some _ => s.unlink timer

def doFreeTm (s : Reltm) (timer : TimerId) : Option Reltm :=
  match s.timers timer with
  | none => none
  | some _ => (s.unlink timer).map (fun s => s.setTimer timer none)

def doRestartTm (s : Reltm) (timer : TimerId) : Option Reltm :=
  s.add2hash timer

def execute (s : Reltm) : Tasklet → Option Reltm
  | .doStartTm timer msec arg => s.doStartTm timer msec arg
  | .doStopTm timer => s.doStopTm timer
  | .doFreeTm timer => s.doFreeTm timer

/-- `tsklet_invokeall` of `rel_inter_tsklets`. -/
def invokeRelInter (s : Reltm) : Option Reltm :=
  (s.relInterTsklets.foldlM doRestartTm s).map (fun s => { s with relInterTsklets := [] })

/-- `tsklet_invokeall` of `rel_tsklets`. -/
def invokeRel (s : Reltm) : Option Reltm :=
  (s.relTsklets.foldlM execute s).map (fun s => { s with relTsklets := [] })

/-- The two calls of `tsklet_invokeall` with which an iteration starts. -/
def invokeTsklets (s : Reltm) : Option Reltm :=
  s.invokeRelInter.bind invokeRel

end Reltm

/-! ## One iteration -/

/-- What the environment decides in an iteration: the calls of the interface made while
the callback of a timer runs, and whether its restart can be posted. -/
structure TickEnv where
  callback : TimerId → List Request
  malloc : TimerId → Bool

namespace Reltm

/-- `_trigger_a_timer`; the loops below take the entry out of its list. -/
def triggerATimer (env : TickEnv) (s : Reltm) (timer : TimerId) : Option Reltm :=
  match s.timers timer with
  | none => none
  | some cb =>
      let s := { s with
        expiries := s.expiries ++ [⟨timer, cb.timeout, cb.arg, s.iteration⟩] }
      let s := (env.callback timer).foldl request s
      if cb.mode &&& petfAutoFree ≠ 0 then
        some (s.setTimer timer none)
      else if cb.mode &&& petfOneShoot = 0 then
        -- the error of a restart that cannot be posted is not looked at
        match tskletInvokelater s.relInterTsklets timer (env.malloc timer) with
        | .ok queue => some { s with relInterTsklets := queue }
        | .error _ => some s
      else
        some s

/-- The loop over the `zero_link` of bucket `i`. -/
def travelZero (env : TickEnv) (i : Fin tmHashLen) : List Entry → Reltm → Option Reltm
  | [], s => some s
  | item :: rest, s =>
      match s.triggerATimer env item.timer with
      | none => none
      | some s => travelZero env i rest (s.setHash i { s.tmHash i with zeroLink := rest })

/-- The loop over the `sorted_link` of bucket `i`. -/
def travelSorted (env : TickEnv) (i : Fin tmHashLen) : List Entry → Reltm → Option Reltm
  | [], s => some s
  | item :: rest, s =>
      if item.ticksLeft < 1024 then
        match s.triggerATimer env item.timer with
        | none => none
        | some s =>
            travelSorted env i rest (s.setHash i { s.tmHash i with sortedLink := rest })
      else
        some (s.setHash i
          { s.tmHash i with
            sortedLink := { item with ticksLeft := item.ticksLeft - 1024 } :: rest })

/-- The two loops over the bucket of `_tick_last`. -/
def travel (env : TickEnv) (s : Reltm) : Option Reltm :=
  let i := bucket s.tickLast
  match travelZero env i (s.tmHash i).zeroLink s with
  | none => none
  | some s => travelSorted env i (s.tmHash i).sortedLink s

/-- One iteration of `_reltm_trigger`.  The hook is registered for every tick, so that
`escape` is one in every call. -/
def reltmTrigger (env : TickEnv) (s : Reltm) : Option Reltm :=
  match s.invokeTsklets with
  | none => none
  | some s =>
      (s.travel env).map
        (fun s => { s with tickLast := s.tickLast + 1, iteration := s.iteration + 1 })

end Reltm

/-- A call of the interface by any thread, or an iteration of the timer thread.  Calls
made while an iteration executes are part of it: `_reltm_trigger` reads neither
`rel_tsklets` nor a timer they can change after it has executed the tasklets. -/
inductive Action
  | request (r : Request)
  | tick (env : TickEnv)

def reltmMachine : Machine Reltm Action where
  init s := s = initReltm
  step s a :=
    match a with
    | .request r => some (s.request r)
    | .tick env => s.reltmTrigger env

end Timer
end AndroidLinux
