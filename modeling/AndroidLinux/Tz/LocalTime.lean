import AndroidLinux.Time.UserClock

/-!
# Broken-down local time

`localsub` and `timesub` of `tztime.c`.  `time_t`, `long` and `int` have 32 bits; they are
integers here, and what `increment_overflow` adds wraps around.  A zone lists its transitions
with their types, and every type that it names is there.
-/

namespace AndroidLinux
namespace Tz

open Time (toS32)

/-- `struct ttinfo`, as far as a broken-down time is made from it. -/
structure TtInfo where
  gmtoff : Int
  isdst : Int
  deriving DecidableEq

/-- `struct lsinfo`. -/
structure LsInfo where
  trans : Int
  corr : Int
  deriving DecidableEq

/-- `struct state`; `lsisBefore` is the correction that is read in front of the first leap
second. -/
structure State where
  transitions : List (Int × Nat)
  ttis : List TtInfo
  lsis : List LsInfo
  lsisBefore : Int
  typed : ∀ p ∈ transitions, p.2 < ttis.length
  nonempty : ttis ≠ []

/-- `struct tm`. -/
structure Tm where
  sec : Int
  min : Int
  hour : Int
  mday : Int
  mon : Int
  year : Int
  wday : Int
  yday : Int
  isdst : Int
  gmtoff : Int
  deriving DecidableEq

def secsPerDay : Int := 86400

def isleap (y : Int) : Bool :=
  y.tmod 4 == 0 && (y.tmod 100 != 0 || y.tmod 400 == 0)

def yearLengths (leap : Bool) : Int := if leap then 366 else 365

def monLengths (leap : Bool) : List Int :=
  if leap then [31, 29, 31, 30, 31, 30, 31, 31, 30, 31, 30, 31]
  else [31, 28, 31, 30, 31, 30, 31, 31, 30, 31, 30, 31]

/-- `increment_overflow` and, as `long` is no wider than `int`, `long_increment_overflow`:
the new number, or an overflow. -/
def incrementOverflow (number delta : Int) : Option Int :=
  let number1 := toS32 (number + delta)
  if if 0 ≤ delta then number1 < number else number < number1 then none else some number1

def leapsFrom (y : Int) : Int := y.tdiv 4 - y.tdiv 100 + y.tdiv 400

/-- `leaps_thru_end_of`; for a negative year it calls itself with one that is not. -/
def leapsThruEndOf (y : Int) : Int :=
  if 0 ≤ y then leapsFrom y else -(leapsFrom (-(y + 1)) + 1)

/-! ## `timesub` -/

/-- The seconds of a minute that have been inserted one behind the other, up to the `i`-th
leap second. -/
def hitLoop (lsis : List LsInfo) : Nat → Int → Int
  | 0, hit => hit
  | i + 1, hit =>
      match lsis[i + 1]?, lsis[i]? with
      | some l, some l' =>
          if l.trans = l'.trans + 1 ∧ l.corr = l'.corr + 1 then hitLoop lsis i (hit + 1)
          else hit
      | _, _ => hit

/-- The scan of the leap seconds from the last one on: the correction, and the number of the
inserted seconds if the time is one. -/
def leapLoop (sp : State) (t : Int) : Nat → Int × Int
  | 0 => (0, 0)
  | i + 1 =>
      match sp.lsis[i]? with
      | none => (0, 0)
      | some lp =>
          if lp.trans ≤ t then
            let before := if i = 0 then sp.lsisBefore else (sp.lsis[i - 1]?.map LsInfo.corr).getD 0
            let hit := i = 0 ∧ 0 < lp.corr ∨ before < lp.corr
            (lp.corr, if t = lp.trans ∧ hit then hitLoop sp.lsis i 1 else 0)
          else leapLoop sp t i

/-- The first loop of `timesub`: it guesses the year. -/
def yearLoop : Nat → Int → Int → Option (Int × Int)
  | 0, _, _ => none
  | passes + 1, tdays, y =>
      if tdays < 0 ∨ yearLengths (isleap y) ≤ tdays then
        let tdelta := tdays.tdiv 366
        let idelta := if tdelta = 0 then (if tdays < 0 then -1 else 1) else tdelta
        (incrementOverflow y idelta).bind fun newy =>
          let leapdays := leapsThruEndOf (newy - 1) - leapsThruEndOf (y - 1)
          yearLoop passes (tdays - (newy - y) * 365 - leapdays) newy
      else some (tdays, y)

/-- `while (rem < 0)`. -/
def remUp : Nat → Int → Int → Option (Int × Int)
  | 0, _, _ => none
  | passes + 1, rem, idays =>
      if rem < 0 then remUp passes (rem + secsPerDay) (idays - 1) else some (rem, idays)

/-- `while (rem >= SECSPERDAY)`. -/
def remDown : Nat → Int → Int → Option (Int × Int)
  | 0, _, _ => none
  | passes + 1, rem, idays =>
      if secsPerDay ≤ rem then remDown passes (rem - secsPerDay) (idays + 1)
      else some (rem, idays)

/-- `while (idays < 0)`. -/
def idaysUp : Nat → Int → Int → Option (Int × Int)
  | 0, _, _ => none
  | passes + 1, idays, y =>
      if idays < 0 then
        (incrementOverflow y (-1)).bind fun y' =>
          idaysUp passes (idays + yearLengths (isleap y')) y'
      else some (idays, y)

/-- `while (idays >= year_lengths[isleap(y)])`. -/
def idaysDown : Nat → Int → Int → Option (Int × Int)
  | 0, _, _ => none
  | passes + 1, idays, y =>
      if yearLengths (isleap y) ≤ idays then
        (incrementOverflow y 1).bind fun y' => idaysDown passes (idays - yearLengths (isleap y)) y'
      else some (idays, y)

/-- The loop over the months, with the lengths from `tm_mon` on. -/
def monLoop : List Int → Int → Int → Int × Int
  | [], mon, idays => (mon, idays)
  | ip :: rest, mon, idays =>
      if ip ≤ idays then monLoop rest (mon + 1) (idays - ip) else (mon, idays)

/-- The day of the week of a day of a year. -/
def wdayOf (y idays : Int) : Int :=
  let wday := 4 + (y - 1970).tmod 7 * Int.tmod 365 7 + leapsThruEndOf (y - 1) -
    leapsThruEndOf 1969 + idays
  let wday := wday.tmod 7
  if wday < 0 then wday + 7 else wday

/-- The passes that are enough for a loop that brings a number nearer to zero. -/
def enough (n : Int) : Nat := n.natAbs + 2

/-- `timesub`, which writes to `tmp`. -/
def timesub (t offset : Int) (sp : State) (tmp : Tm) : Option Tm := do
  let (corr, hit) := leapLoop sp t sp.lsis.length
  let tdays := t.tdiv secsPerDay
  let rem := t - tdays * secsPerDay
  let (tdays, y) ← yearLoop (enough tdays) tdays 1970
  -- the half that is added to the seconds goes when they are stored
  let seconds := tdays * secsPerDay
  let tdays := seconds.tdiv secsPerDay
  let rem := rem + (seconds - tdays * secsPerDay)
  let rem := rem + (offset - corr)
  let (rem, idays) ← remUp (enough rem) rem tdays
  let (rem, idays) ← remDown (enough rem) rem idays
  let (idays, y) ← idaysUp (enough idays) idays y
  let (idays, y) ← idaysDown (enough idays) idays y
  let year ← incrementOverflow y (-1900)
  let (mon, mday) := monLoop (monLengths (isleap y)) 0 idays
  let rem' := rem.tmod 3600
  return { tmp with
    sec := rem'.tmod 60 + hit, min := rem'.tdiv 60, hour := rem.tdiv 3600,
    mday := mday + 1, mon := mon, year := year, wday := wdayOf y idays, yday := idays,
    isdst := 0 }

/-! ## `localsub` -/

/-- The first type that is not daylight saving time, or the first one. -/
def standardLoop (ttis : List TtInfo) : Nat → Nat → Nat
  | 0, _ => 0
  | left + 1, i =>
      match ttis[i]? with
      | none => 0
      | some tt => if tt.isdst ≠ 0 then standardLoop ttis left (i + 1) else i

/-- The search for the first transition behind `t`, from the second one on. -/
def transitionLoop (transitions : List (Int × Nat)) (t : Int) : Nat → Nat → Nat → Option Nat
  | 0, _, _ => none
  | passes + 1, lo, hi =>
      if lo < hi then
        let mid := (lo + hi) >>> 1
        match transitions[mid]? with
        | none => none
        | some at' =>
            if t < at'.1 then transitionLoop transitions t passes lo mid
            else transitionLoop transitions t passes (mid + 1) hi
      else some lo

/-- The number of the type that is in force. -/
def typeAt (sp : State) (t : Int) : Option Nat :=
  match sp.transitions with
  | [] => some (standardLoop sp.ttis sp.ttis.length 0)
  | first :: _ =>
      if t < first.1 then some (standardLoop sp.ttis sp.ttis.length 0)
      else do
        let lo ← transitionLoop sp.transitions t (sp.transitions.length + 1) 1
          sp.transitions.length
        let p ← sp.transitions[lo - 1]?
        return p.2

/-- `localsub`; `goback` and `goahead` are not set where `time_t` has 32 bits. -/
def localsub (t : Int) (tmp : Tm) (sp : State) : Option Tm := do
  let i ← typeAt sp t
  let ttisp ← sp.ttis[i]?
  let result ← timesub t ttisp.gmtoff sp tmp
  return { result with isdst := ttisp.isdst, gmtoff := ttisp.gmtoff }

end Tz
end AndroidLinux
