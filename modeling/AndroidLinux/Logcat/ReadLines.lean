import AndroidLinux.Lib.Transition
import AndroidLinux.Logcat.Output

/-!
# How logcat merges its devices

`readLogLines` of `logcat.cpp`: one step of the machine is one round of its loop, with what
`select` and the `read`s return.  A queue is the list of its entries; the devices are the
list of their queues.  The record of the entries that were read, printed and skipped is
kept beside the state, and an entry carries the position of its device and its number
among the entries read; the program looks at neither.
-/

namespace AndroidLinux
namespace Logcat

/-- An entry with a time stamp of the range that the driver gives. -/
structure TimedEntry where
  buf : LoggerEntry
  sec_range : 0 ≤ buf.sec ∧ buf.sec < 2 ^ 31
  nsec_range : 0 ≤ buf.nsec ∧ buf.nsec < 10 ^ 9

structure QueuedEntry where
  entry : TimedEntry
  dev : Nat
  serial : Nat

/-- A value as an `int`. -/
def int32 (x : Int) : Int := x.bmod (2 ^ 32)

/-- `cmp`. -/
def cmp (a b : QueuedEntry) : Int :=
  let n := int32 (a.entry.buf.sec - b.entry.buf.sec)
  if n ≠ 0 then n else int32 (a.entry.buf.nsec - b.entry.buf.nsec)

/-- The loop of `log_device_t::enqueue`. -/
def enqueueLoop (entry : QueuedEntry) : List QueuedEntry → List QueuedEntry
  | [] => [entry]
  | e :: next => if 0 ≤ cmp entry e then e :: enqueueLoop entry next else entry :: e :: next

/-- `log_device_t::enqueue`. -/
def enqueue (queue : List QueuedEntry) (entry : QueuedEntry) : List QueuedEntry :=
  match queue with
  | [] => [entry]
  | e :: next => enqueueLoop entry (e :: next)

/-- The loop of `chooseFirst`, with the device found so far and its first entry. -/
def chooseLoop (firstdev : Option (Nat × QueuedEntry)) (dev : Nat) :
    List (List QueuedEntry) → Option (Nat × QueuedEntry)
  | [] => firstdev
  | [] :: devices => chooseLoop firstdev (dev + 1) devices
  | (head :: _) :: devices =>
      if firstdev.all fun first => decide (cmp head first.2 < 0) then
        chooseLoop (some (dev, head)) (dev + 1) devices
      else chooseLoop firstdev (dev + 1) devices

/-- `chooseFirst`. -/
def chooseFirst (devices : List (List QueuedEntry)) : Option (Nat × QueuedEntry) :=
  chooseLoop none 0 devices

/-- What `read` returns for a device that is ready: an entry, `EINTR`, `EAGAIN`, or what
ends the program. -/
inductive ReadResult
  | entry (e : TimedEntry)
  | interrupted
  | again
  | failed

/-- How the loop over the devices ends. -/
inductive ReadEnd
  | done
  | next
  | exit
  deriving DecidableEq

/-- The loop over the devices that reads those that are ready: the queues, the entries
read and the end. -/
def readLoop : Nat → Nat → List (List QueuedEntry) → List (Option ReadResult) →
    List (List QueuedEntry) × List QueuedEntry × ReadEnd
  | _, _, [], _ => ([], [], .done)
  | _, _, queue :: devices, [] => (queue :: devices, [], .done)
  | dev, serial, queue :: devices, none :: results =>
      let r := readLoop (dev + 1) serial devices results
      (queue :: r.1, r.2)
  | dev, serial, queue :: devices, some (.entry e) :: results =>
      let entry : QueuedEntry := ⟨e, dev, serial⟩
      let r := readLoop (dev + 1) (serial + 1) devices results
      (enqueue queue entry :: r.1, entry :: r.2.1, r.2.2)
  | _, _, queue :: devices, some .interrupted :: _ => (queue :: devices, [], .next)
  | _, _, queue :: devices, some .again :: _ => (queue :: devices, [], .done)
  | _, _, queue :: devices, some .failed :: _ => (queue :: devices, [], .exit)

/-- The variables of `readLogLines` and the record. -/
structure ReadState where
  devices : List (List QueuedEntry)
  queuedLines : Int
  sleep : Bool
  exited : Bool
  arrived : List QueuedEntry
  printed : List QueuedEntry
  skipped : List QueuedEntry

namespace ReadState

/-- The first entry of a device leaves its queue. -/
def takeNext (s : ReadState) (dev : Nat) : ReadState :=
  { s with devices := s.devices.modify dev List.tail, queuedLines := s.queuedLines - 1 }

def print (s : ReadState) (dev : Nat) (head : QueuedEntry) : ReadState :=
  { s.takeNext dev with printed := s.printed ++ [head] }

def skip (s : ReadState) (dev : Nat) (head : QueuedEntry) : ReadState :=
  { s.takeNext dev with skipped := s.skipped ++ [head] }

/-- The entries in the queues. -/
def queued (s : ReadState) : List QueuedEntry := s.devices.flatten

/-- The loop after a time-out.  Every round takes an entry out, so that it is over when
there have been as many rounds as there were entries. -/
def drainLoop (tailLines : Int) : Nat → ReadState → ReadState
  | 0, s => s
  | fuel + 1, s =>
      match chooseFirst s.devices with
      | none => s
      | some (dev, head) =>
          if tailLines = 0 ∨ s.queuedLines ≤ tailLines then
            drainLoop tailLines fuel (s.print dev head)
          else drainLoop tailLines fuel (s.skip dev head)

/-- The loop after a round of reads, which leaves the last entry of a queue. -/
def earlyLoop (tailLines : Int) : Nat → ReadState → ReadState
  | 0, s => s
  | fuel + 1, s =>
      if tailLines = 0 ∨ tailLines < s.queuedLines then
        match chooseFirst s.devices with
        | none => s
        | some (dev, head) =>
            if (s.devices.getD dev []).tail = [] then s
            else if tailLines = 0 then earlyLoop tailLines fuel (s.print dev head)
            else earlyLoop tailLines fuel (s.skip dev head)
      else s

/-- A round of reads. -/
def reads (s : ReadState) (tailLines : Int) (results : List (Option ReadResult)) : ReadState :=
  let r := readLoop 0 s.arrived.length s.devices results
  let s := { s with
    devices := r.1
    queuedLines := s.queuedLines + r.2.1.length
    arrived := s.arrived ++ r.2.1 }
  match r.2.2 with
  | .next => s
  | .exit => { s with exited := true }
  | .done => { earlyLoop tailLines s.queued.length s with sleep := false }

/-- A time-out. -/
def timeOut (s : ReadState) (tailLines : Int) (nonblock : Bool) : ReadState :=
  { drainLoop tailLines s.queued.length s with sleep := true, exited := nonblock }

end ReadState

/-- What `select` comes to: an error, devices that are ready, with what `read` returns, or a
time-out. -/
inductive ReadAction
  | failed
  | ready (results : List (Option ReadResult))
  | timeOut

/-- `readLogLines` for a number of devices, with `g_tail_lines` and `g_nonblock`. -/
def readLogLines (devCount : Nat) (tailLines : Int) (nonblock : Bool) :
    Lib.Machine ReadState ReadAction where
  init s := s = ⟨List.replicate devCount [], 0, true, false, [], [], []⟩
  step s action :=
    if s.exited then none
    else
      match action with
      | .failed => some s
      | .ready results => some (s.reads tailLines results)
      | .timeOut => if s.sleep then none else some (s.timeOut tailLines nonblock)

end Logcat
end AndroidLinux
