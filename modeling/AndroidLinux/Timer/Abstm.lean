import AndroidLinux.Lib.Transition
import AndroidLinux.Timer.Reltm

/-!
# Absolute timers

The functions of `peabstm.c`, which are built when `ENABLE_ABSTIMER` is set.  A timer has a
pattern of the wall-clock time.  The calls of the interface only queue tasklets, which the
timer thread executes at the start of `_abstm_trigger`, before it looks for the seconds since
the last reading of the clock that match the patterns of the active timers.  The lock is
released during a callback, when other threads can queue tasklets and no more, so that
`post` stands for this too.

A timer that is freed is `none`; `fault` records that memory of such a timer has been
accessed, and nothing is said about the program from there on.  `callbacks` and `fired`
record the callbacks, all of them and those since the last start of a timer.
-/

namespace AndroidLinux
namespace Timer

/-- The fields of `struct tm` that are compared. -/
structure Tm where
  sec : Int
  min : Int
  hour : Int
  mday : Int
  mon : Int
  year : Int
deriving DecidableEq

/-- `TIME_MATCH`. -/
def timeMatch (t t1 : Int) : Bool := t = -1 ∨ t = t1

/-- The condition of `_trigger_a_timer`. -/
def Tm.matchesTime (tm tm1 : Tm) : Bool :=
  timeMatch tm.sec tm1.sec && timeMatch tm.min tm1.min && timeMatch tm.hour tm1.hour &&
    timeMatch tm.mday tm1.mday && timeMatch tm.mon tm1.mon && timeMatch tm.year tm1.year

/-- `struct abs_timer_t`. -/
structure AbsTimer where
  flag : UInt32
  tm : Tm
  arg : Nat
deriving DecidableEq

/-- `PETF_AUTO_FREE` is set. -/
def AbsTimer.autoFree (cb : AbsTimer) : Bool := cb.flag &&& petfAutoFree.toUInt32 ≠ 0

/-- `PETF_ONE_SHOOT` is set. -/
def AbsTimer.oneShoot (cb : AbsTimer) : Bool := cb.flag &&& petfOneShoot.toUInt32 ≠ 0

/-- The tasklets of `abs_tsklets`. -/
inductive AbsTask
  | start (timer : TimerId) (tm : Tm) (arg : Nat)
  | stop (timer : TimerId)
  | rm (timer : TimerId)
deriving DecidableEq

def AbsTask.timer : AbsTask → TimerId
  | .start timer _ _ => timer
  | .stop timer => timer
  | .rm timer => timer

/-- A callback, with its argument and the second that matched. -/
structure Callback where
  timer : TimerId
  arg : Nat
  second : Int
deriving DecidableEq

structure Abstm where
  timers : TimerId → Option AbsTimer
  activateTimers : List TimerId
  absTsklets : List AbsTask
  lastTv : Int
  fault : Bool
  callbacks : List Callback
  fired : TimerId → Nat

namespace Abstm

/-- `leave_queue`. -/
def leaveQueue (s : Abstm) (timer : TimerId) : Abstm :=
  { s with activateTimers := s.activateTimers.erase timer }

/-- `_starttimer`. -/
def startTimer (s : Abstm) (timer : TimerId) (tm : Tm) (arg : Nat) : Abstm :=
  match s.timers timer with
  | none => { s with fault := true }
  | some cb =>
      { s with
        timers := Function.update s.timers timer (some { cb with tm := tm, arg := arg })
        activateTimers := if timer ∈ s.activateTimers then s.activateTimers
          else timer :: s.activateTimers
        fired := Function.update s.fired timer 0 }

/-- `_stoptimer`. -/
def stopTimer (s : Abstm) (timer : TimerId) : Abstm :=
  match s.timers timer with
  | none => { s with fault := true }
  | some _ => s.leaveQueue timer

/-- `_rmtimer`. -/
def rmTimer (s : Abstm) (timer : TimerId) : Abstm :=
  match s.timers timer with
  | none => { s with fault := true }
  | some _ => { s.leaveQueue timer with timers := Function.update s.timers timer none }

def invoke (s : Abstm) : AbsTask → Abstm
  | .start timer tm arg => s.startTimer timer tm arg
  | .stop timer => s.stopTimer timer
  | .rm timer => s.rmTimer timer

/-- `tsklet_invokeall`. -/
def invokeAll (s : Abstm) : Abstm :=
  s.absTsklets.foldl (fun s task => if s.fault then s else s.invoke task)
    { s with absTsklets := [] }

/-- A callback is called. -/
def call (s : Abstm) (timer : TimerId) (cb : AbsTimer) (second : Int) : Abstm :=
  { s with
    callbacks := s.callbacks ++ [⟨timer, cb.arg, second⟩]
    fired := Function.update s.fired timer (s.fired timer + 1) }

/-- The loop of `_trigger_a_timer` over a list of seconds. -/
def triggerATimer (localtime : Int → Tm) (timer : TimerId) : List Int → Abstm → Abstm
  | [], s => s
  | second :: rest, s =>
      match s.timers timer with
      | none => { s with fault := true }
      | some cb =>
          if cb.tm.matchesTime (localtime second) then
            let s := s.call timer cb second
            if cb.autoFree then triggerATimer localtime timer rest (s.rmTimer timer)
            else if cb.oneShoot then triggerATimer localtime timer rest (s.leaveQueue timer)
            else triggerATimer localtime timer rest s
          else triggerATimer localtime timer rest s

/-- The test for a change of the time or a long delay, of an `int`. -/
def resets (s : Abstm) (now : Int) : Bool :=
  let secDiff := (now - s.lastTv).bmod (2 ^ 32)
  60 < secDiff ∨ secDiff < 0

/-- `last_tv.tv_sec` after the test. -/
def scanFrom (s : Abstm) (now : Int) : Int := if s.resets now then now - 1 else s.lastTv

/-- The seconds from `t1 + 1` to `t2`. -/
def seconds (t1 t2 : Int) : List Int := (List.range (t2 - t1).toNat).map fun i => t1 + 1 + i

/-- The loop over the active timers.  A timer leaves the list at most for itself, and the
next one has been looked up before. -/
def scan (localtime : Int → Tm) (secs : List Int) (s : Abstm) : Abstm :=
  s.activateTimers.foldl
    (fun s timer => if s.fault then s else s.triggerATimer localtime timer secs) s

end Abstm

/-- The calls of other threads, and the reading of the clock in `_abstm_trigger`. -/
inductive AbsAction
  | create (timer : TimerId) (flag : UInt32)
  | post (task : AbsTask)
  | trigger (now : Int)

namespace Abstm

/-- `_abstm_trigger`; an assertion ends the program when the clock starts at zero. -/
def abstmTrigger (localtime : Int → Tm) (s : Abstm) (now : Int) : Option Abstm :=
  let s := s.invokeAll
  if s.fault then some s
  else if s.resets now ∧ now ≤ 1 then none
  else
    let s := s.scan localtime (seconds (s.scanFrom now) now)
    some { s with lastTv := now }

end Abstm

/-- The pattern of a timer that has not been started. -/
def Tm.zero : Tm := ⟨0, 0, 0, 0, 0, 0⟩

/-- The timer thread and its clients; `localtime` is `localtime_r`. -/
def abstmMachine (localtime : Int → Tm) : Lib.Machine Abstm AbsAction where
  init s := s = ⟨fun _ => none, [], [], -1, false, [], fun _ => 0⟩
  step s action :=
    if s.fault then none
    else
      match action with
      | .create timer flag =>
          if s.timers timer = none then
            some { s with
              timers := Function.update s.timers timer (some ⟨flag, Tm.zero, 0⟩)
              fired := Function.update s.fired timer 0 }
          else none
      | .post task => some { s with absTsklets := s.absTsklets ++ [task] }
      | .trigger now => s.abstmTrigger localtime now

end Timer
end AndroidLinux
