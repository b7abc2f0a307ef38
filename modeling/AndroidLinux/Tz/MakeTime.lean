import AndroidLinux.Tz.Timesub

/-!
# From local time to `time_t`

`time1`, `time2` and `time2sub` of `tztime.c`, called by `mktime_tz` with `localsub`.  A call
that does not set `okay` is `none`; what it leaves in the broken-down time is not read.

`time2sub` moves what is too much in a field to the next one and takes years and months off the
day; the second that the fields stand for stays.  Fields in their ranges are in the order of
their seconds.
-/

namespace AndroidLinux
namespace Tz

open Lib Lib.Calendar
open Time (toS32)

def timeTMin : Int := -2 ^ 31
def timeTMax : Int := 2 ^ 31 - 1

/-- `normalize_overflow` and, as `long` is no wider than `int`, `long_normalize_overflow`. -/
def normalizeOverflow (tens units base : Int) : Option (Int × Int) :=
  let tensdelta := if 0 ≤ units then units.tdiv base else -1 - (-1 - units).tdiv base
  (incrementOverflow tens tensdelta).map fun tens' => (tens', units - tensdelta * base)

def tmcomp (atmp btmp : Tm) : Int :=
  if atmp.year - btmp.year ≠ 0 then atmp.year - btmp.year
  else if atmp.mon - btmp.mon ≠ 0 then atmp.mon - btmp.mon
  else if atmp.mday - btmp.mday ≠ 0 then atmp.mday - btmp.mday
  else if atmp.hour - btmp.hour ≠ 0 then atmp.hour - btmp.hour
  else if atmp.min - btmp.min ≠ 0 then atmp.min - btmp.min
  else atmp.sec - btmp.sec

/-! ## `time2sub`: the fields are brought into their ranges -/

/-- `while (yourtm.tm_mday <= 0)`. -/
def mdayUp (mon : Int) : Nat → Int → Int → Option (Int × Int)
  | 0, _, _ => none
  | passes + 1, y, mday =>
      if mday ≤ 0 then
        (incrementOverflow y (-1)).bind fun y =>
          let li := y + if 1 < mon then 1 else 0
          mdayUp mon passes y (mday + yearLengths (isleap li))
      else some (y, mday)

/-- `while (yourtm.tm_mday > DAYSPERLYEAR)`. -/
def mdayDown (mon : Int) : Nat → Int → Int → Option (Int × Int)
  | 0, _, _ => none
  | passes + 1, y, mday =>
      if 366 < mday then
        let li := y + if 1 < mon then 1 else 0
        (incrementOverflow y 1).bind fun y =>
          mdayDown mon passes y (mday - yearLengths (isleap li))
      else some (y, mday)

/-- The loop that takes months off the day; it ends within a year and a month. -/
def mdayMonths : Nat → Int → Int → Int → Option (Int × Int × Int)
  | 0, _, _, _ => none
  | passes + 1, y, mon, mday =>
      let i := (monLengths (isleap y)).getD mon.toNat 0
      if mday ≤ i then some (y, mon, mday)
      else if 12 ≤ mon + 1 then
        (incrementOverflow y 1).bind fun y => mdayMonths passes y 0 (mday - i)
      else mdayMonths passes y (mon + 1) (mday - i)

/-- The minutes and the seconds, which are normalized if `doNormSecs` is set. -/
def normalizeSecs (doNormSecs : Bool) (tmp : Tm) : Option (Int × Int) :=
  if doNormSecs then normalizeOverflow tmp.min tmp.sec 60 else some (tmp.min, tmp.sec)

/-- The fields in their ranges; the seconds are left out unless `doNormSecs` is set. -/
def normalized (doNormSecs : Bool) (tmp : Tm) : Option Tm := do
  let (min, sec) ← normalizeSecs doNormSecs tmp
  let (hour, min) ← normalizeOverflow tmp.hour min 60
  let (mday, hour) ← normalizeOverflow tmp.mday hour 24
  let (y, mon) ← normalizeOverflow tmp.year tmp.mon 12
  let y ← incrementOverflow y 1900
  let (y, mday) ← mdayUp mon (enough mday) y mday
  let (y, mday) ← mdayDown mon (enough mday) y mday
  let (y, mon, mday) ← mdayMonths 14 y mon mday
  let year ← incrementOverflow y (-1900)
  return { tmp with sec := sec, min := min, hour := hour, mday := mday, mon := mon, year := year }

/-- Seconds that belong to no minute are put aside. -/
def savedSeconds (yourtm : Tm) : Option (Int × Tm) :=
  if 0 ≤ yourtm.sec ∧ yourtm.sec < 60 then some (0, yourtm)
  else if yourtm.year + 1900 < 1970 then
    (incrementOverflow yourtm.sec (1 - 60)).map fun sec => (sec, { yourtm with sec := 59 })
  else some (yourtm.sec, { yourtm with sec := 0 })

/-! ## `time2sub`: the search -/

/-- A broken-down time before anything is written to it. -/
def Tm.zero : Tm := ⟨0, 0, 0, 0, 0, 0, 0, 0, 0, 0⟩

/-- Which way to go from `t`; a time that cannot be shown is taken for too extreme. -/
def direction (sp : State) (yourtm : Tm) (t : Int) : Int :=
  match localsub t .zero sp with
  | none => if 0 < t then 1 else -1
  | some mytm => tmcomp mytm yourtm

/-- The binary search. -/
def searchLoop (dir : Int → Int) : Nat → Int → Int → Option Int
  | 0, _, _ => none
  | passes + 1, lo, hi =>
      let t := lo.tdiv 2 + hi.tdiv 2
      let t := if t < lo then lo else if hi < t then hi else t
      if dir t = 0 then some t
      else if t = lo then
        if t = timeTMax then none
        else if hi < lo + 1 then none
        else if 0 < dir t then searchLoop dir passes (lo + 1) (t + 1)
        else searchLoop dir passes (t + 1) hi
      else if t = hi then
        if t = timeTMin then none
        else if hi - 1 < lo then none
        else if 0 < dir t then searchLoop dir passes lo (t - 1)
        else searchLoop dir passes (t - 1) (hi - 1)
      else if 0 < dir t then searchLoop dir passes lo t
      else searchLoop dir passes t hi

def search (dir : Int → Int) : Option Int :=
  searchLoop dir (2 ^ 32 + 1) timeTMin timeTMax

/-- The time is right when the type is, too. -/
def matchType (sp : State) (yourtm : Tm) (newt : Int) : Option Int :=
  match localsub newt .zero sp with
  | none => none
  | some mytm =>
      if tmcomp mytm yourtm = 0 ∧ mytm.isdst = yourtm.isdst then some newt else none

/-- The hunt for the right time of the right type, over pairs of types from the last ones on. -/
def hunt (sp : State) (yourtm : Tm) (t : Int) : Option Int :=
  sp.ttis.reverse.findSome? fun ti =>
    if ti.isdst ≠ yourtm.isdst then none
    else sp.ttis.reverse.findSome? fun tj =>
      if tj.isdst = yourtm.isdst then none
      else matchType sp yourtm (toS32 (t + tj.gmtoff - ti.gmtoff))

/-- The time that shows the fields, with the type that is asked for. -/
def findTime (sp : State) (yourtm : Tm) : Option Int := do
  let t ← search (direction sp yourtm)
  let mytm ← localsub t .zero sp
  if yourtm.isdst < 0 ∨ mytm.isdst = yourtm.isdst then return t
  else hunt sp yourtm t

/-- `time2sub`: the time, and the broken-down time that is written back. -/
def time2sub (tmp : Tm) (doNormSecs : Bool) (sp : State) : Option (Int × Tm) := do
  let yourtm ← normalized doNormSecs tmp
  let (savedSeconds, yourtm) ← savedSeconds yourtm
  let t ← findTime sp yourtm
  let newt := toS32 (t + savedSeconds)
  if decide (newt < t) != decide (savedSeconds < 0) then none
  else do
    let tmp ← localsub newt tmp sp
    return (newt, tmp)

/-- `time2`: the seconds are normalized only when it does not work without. -/
def time2 (tmp : Tm) (sp : State) : Option (Int × Tm) :=
  match time2sub tmp false sp with
  | some r => some r
  | none => time2sub tmp true sp

/-! ## `time1` -/

/-- The types in use, the latest one first. -/
def seenTypes : List Nat → List Nat → List Nat
  | [], types => types
  | k :: rest, types =>
      if k ∈ types then seenTypes rest types else seenTypes rest (types ++ [k])

/-- The same broken-down time in another type. -/
def retyped (tmp : Tm) (same other : TtInfo) : Tm :=
  { tmp with
    sec := toS32 (tmp.sec + (other.gmtoff - same.gmtoff))
    isdst := if tmp.isdst = 0 then 1 else 0 }

/-- `time1`; `none` is `WRONG`. -/
def time1 (tmp : Tm) (sp : State) : Option (Int × Tm) :=
  let tmp := if 1 < tmp.isdst then { tmp with isdst := 1 } else tmp
  match time2 tmp sp with
  | some r => some r
  | none =>
      let tmp := if tmp.isdst < 0 then { tmp with isdst := 0 } else tmp
      let types := (seenTypes (sp.transitions.map Prod.snd).reverse []).filterMap (sp.ttis[·]?)
      types.findSome? fun same =>
        if same.isdst ≠ tmp.isdst then none
        else types.findSome? fun other =>
          if other.isdst = tmp.isdst then none else time2 (retyped tmp same other) sp

/-- `mktime_tz` in a zone that has been loaded. -/
def mktime (tmp : Tm) (sp : State) : Option (Int × Tm) := time1 tmp sp

/-! ## Fields in their ranges -/

/-- The date, the hour and the minute are in their ranges. -/
structure Tm.Dated (tm : Tm) : Prop where
  mon : 0 ≤ tm.mon ∧ tm.mon < 12
  mday : 1 ≤ tm.mday ∧ tm.mday ≤ monthLength (isLeap (tm.year + 1900)) tm.mon.toNat
  hour : 0 ≤ tm.hour ∧ tm.hour < 24
  min : 0 ≤ tm.min ∧ tm.min < 60

/-- The second is, too. -/
structure Tm.Regular (tm : Tm) : Prop extends Dated tm where
  sec : 0 ≤ tm.sec ∧ tm.sec < 60

theorem Tm.Shown.regular {tm : Tm} (h : tm.Shown 0) : tm.Regular where
  mon := h.mon
  mday := h.mday
  hour := h.hour
  min := h.min
  sec := by
    have hsec := h.sec
    omega

/-- The day of a date in its ranges. -/
theorem Tm.Dated.day_eq {tm : Tm} (h : tm.Dated) :
    tm.day = monthDay (tm.year + 1900) tm.mon.toNat + tm.mday - 1 := by
  have hmon := h.mon
  unfold Tm.day
  rw [show tm.year + 1900 + tm.mon / 12 = tm.year + 1900 by omega,
    show tm.mon % 12 = tm.mon by omega]

/-! ## Order -/

theorem Tm.Regular.seconds_lt {a b : Tm} (ha : a.Regular) (hb : b.Regular)
    (h : a.day < b.day ∨ a.day = b.day ∧
      3600 * a.hour + 60 * a.min + a.sec < 3600 * b.hour + 60 * b.min + b.sec) :
    a.seconds < b.seconds := by
  have h₁ := ha.hour
  have h₂ := ha.min
  have h₃ := ha.sec
  have h₄ := hb.hour
  have h₅ := hb.min
  have h₆ := hb.sec
  unfold Tm.seconds
  omega

/-- An earlier month is an earlier day. -/
theorem Tm.Dated.day_lt {a b : Tm} (ha : a.Dated) (hb : b.Dated)
    (h : a.year < b.year ∨ a.year = b.year ∧ a.mon < b.mon) : a.day < b.day := by
  have hma := ha.mon
  have hmb := hb.mon
  have hda := ha.mday
  have hdb := hb.mday
  have hmonths := monthDay_of_lt (y := a.year + 1900) (z := b.year + 1900)
    (m := a.mon.toNat) (n := b.mon.toNat) (by omega) (by omega) (by omega)
  rw [ha.day_eq, hb.day_eq]
  omega

/-- The comparison of the source is that of the seconds. -/
theorem tmcomp_sound {a b : Tm} (ha : a.Regular) (hb : b.Regular) :
    (tmcomp a b < 0 → a.seconds < b.seconds) ∧ (0 < tmcomp a b → b.seconds < a.seconds) ∧
      (tmcomp a b = 0 → a.year = b.year ∧ a.mon = b.mon ∧ a.mday = b.mday ∧ a.hour = b.hour ∧
        a.min = b.min ∧ a.sec = b.sec) := by
  have hma := ha.min
  have hmb := hb.min
  have hsa := ha.sec
  have hsb := hb.sec
  have hmonths := ha.toDated.day_lt hb.toDated
  have hmonths' := hb.toDated.day_lt ha.toDated
  have hlt := ha.seconds_lt hb
  have hgt := hb.seconds_lt ha
  have hday := ha.toDated.day_eq
  have hday' := hb.toDated.day_eq
  unfold tmcomp
  by_cases hyear : a.year = b.year
  · rw [hyear] at hday
    by_cases hmon : a.mon = b.mon
    · rw [hmon] at hday
      split_ifs <;> refine ⟨fun h => hlt (by omega), fun h => hgt (by omega), fun h => ?_⟩ <;>
        omega
    · rw [if_neg (by omega), if_pos (by omega)]
      exact ⟨fun h => hlt (.inl (hmonths (by omega))),
        fun h => hgt (.inl (hmonths' (by omega))), fun h => by omega⟩
  · rw [if_pos (by omega)]
    exact ⟨fun h => hlt (.inl (hmonths (by omega))),
      fun h => hgt (.inl (hmonths' (by omega))), fun h => by omega⟩

theorem seconds_congr {a b : Tm} (h : a.year = b.year ∧ a.mon = b.mon ∧ a.mday = b.mday ∧
    a.hour = b.hour ∧ a.min = b.min ∧ a.sec = b.sec) : a.seconds = b.seconds := by
  obtain ⟨h₁, h₂, h₃, h₄, h₅, h₆⟩ := h
  unfold Tm.seconds Tm.day
  rw [h₁, h₂, h₃, h₄, h₅, h₆]

theorem tmcomp_neg_iff {a b : Tm} (ha : a.Regular) (hb : b.Regular) :
    tmcomp a b < 0 ↔ a.seconds < b.seconds := by
  obtain ⟨hneg, hpos, hzero⟩ := tmcomp_sound ha hb
  refine ⟨hneg, fun hlt => ?_⟩
  by_contra hnot
  rcases Int.lt_or_eq_of_le (Int.not_lt.mp hnot) with hgt | heq
  · have := hpos hgt
    omega
  · have := seconds_congr (hzero heq.symm)
    omega

theorem tmcomp_pos_iff {a b : Tm} (ha : a.Regular) (hb : b.Regular) :
    0 < tmcomp a b ↔ b.seconds < a.seconds := by
  obtain ⟨hneg, hpos, hzero⟩ := tmcomp_sound ha hb
  refine ⟨hpos, fun hlt => ?_⟩
  by_contra hnot
  rcases Int.lt_or_eq_of_le (Int.not_lt.mp hnot) with hgt | heq
  · have := hneg hgt
    omega
  · have := seconds_congr (hzero heq)
    omega

theorem tmcomp_eq_zero_iff {a b : Tm} (ha : a.Regular) (hb : b.Regular) :
    tmcomp a b = 0 ↔ a.seconds = b.seconds := by
  have hneg := tmcomp_neg_iff ha hb
  have hpos := tmcomp_pos_iff ha hb
  omega

/-! ## Carries -/

theorem normalizeOverflow_eq {tens units base : Int}
    (hbase : base = 60 ∨ base = 24 ∨ base = 12) (hlo : -2 ^ 31 ≤ tens + units / base)
    (hhi : tens + units / base < 2 ^ 31) :
    normalizeOverflow tens units base = some (tens + units / base, units % base) := by
  have hdelta : (if 0 ≤ units then units.tdiv base else -1 - (-1 - units).tdiv base) =
      units / base := by
    split
    next h => exact tdiv_of_nonneg h _
    next h =>
      rw [tdiv_of_nonneg (by omega)]
      rcases hbase with rfl | rfl | rfl <;> omega
  unfold normalizeOverflow
  rw [hdelta]
  dsimp only
  rw [incrementOverflow_of_fits hlo hhi, Option.map_some, Int.emod_def, Int.mul_comm]

/-- Whole years are added to a day that is not positive. -/
theorem mdayUp_eq (passes : Nat) {mon : Int} (y mday : Int) (hmon : 0 ≤ mon ∧ mon < 12)
    (hpasses : 0 < passes) (hmday : -mday + 1 < passes)
    (hroom : y.natAbs + mday.natAbs < 2 ^ 31 - 1000) :
    ∃ y' mday', mdayUp mon passes y mday = some (y', mday') ∧
      monthDay y' mon.toNat + mday' = monthDay y mon.toNat + mday ∧ 1 ≤ mday' ∧
      y'.natAbs + mday'.natAbs ≤ y.natAbs + mday.natAbs + 367 := by
  induction passes generalizing y mday with
  | zero => omega
  | succ passes ih =>
      rw [mdayUp]
      by_cases hneg : mday ≤ 0
      · rw [if_pos hneg, incrementOverflow_of_fits (by omega) (by omega), Option.bind_some]
        have hstep := monthDay_succ_year (y - 1) (m := mon.toNat) (by omega)
        have hli : yearLengths (isleap (y + -1 + if 1 < mon then 1 else 0)) =
            yearLength (if 1 < mon.toNat then y - 1 + 1 else y - 1) := by
          rw [yearLengths_eq]
          by_cases hfeb : 1 < mon
          · rw [if_pos hfeb, if_pos (by omega), show y + -1 + 1 = y - 1 + 1 by omega]
          · rw [if_neg hfeb, if_neg (by omega), show y + -1 + 0 = y - 1 by omega]
        dsimp only
        rw [hli]
        have hlen := yearLength_pos (if 1 < mon.toNat then y - 1 + 1 else y - 1)
        rw [show y - 1 + 1 = y by omega] at hstep hlen ⊢
        by_cases hmore : mday + yearLength (if 1 < mon.toNat then y else y - 1) ≤ 0
        · obtain ⟨y', mday', heq, hday, hrest⟩ :=
            ih (y + -1) (mday + yearLength (if 1 < mon.toNat then y else y - 1)) (by omega)
              (by omega) (by omega)
          rw [show y + -1 = y - 1 by omega] at heq hday
          exact ⟨y', mday', heq, by omega, hrest.1, by omega⟩
        · obtain ⟨passes, rfl⟩ : ∃ n, passes = n + 1 := ⟨passes - 1, by omega⟩
          rw [mdayUp, if_neg hmore]
          refine ⟨y + -1, _, rfl, ?_, by omega, by omega⟩
          rw [show y + -1 = y - 1 by omega]
          omega
      · rw [if_neg hneg]
        exact ⟨y, mday, rfl, rfl, by omega, by omega⟩

/-- Whole years are taken off a day that is in none. -/
theorem mdayDown_eq (passes : Nat) {mon : Int} (y mday : Int) (hmon : 0 ≤ mon ∧ mon < 12)
    (hpos : 1 ≤ mday) (hmday : mday < passes) (hroom : y.natAbs + mday.natAbs < 2 ^ 31 - 1000) :
    ∃ y' mday', mdayDown mon passes y mday = some (y', mday') ∧
      monthDay y' mon.toNat + mday' = monthDay y mon.toNat + mday ∧ 1 ≤ mday' ∧ mday' ≤ 366 ∧
      y'.natAbs ≤ y.natAbs + mday.natAbs := by
  induction passes generalizing y mday with
  | zero => omega
  | succ passes ih =>
      rw [mdayDown]
      by_cases hmore : 366 < mday
      · rw [if_pos hmore]
        have hstep := monthDay_succ_year y (m := mon.toNat) (by omega)
        have hli : yearLengths (isleap (y + if 1 < mon then 1 else 0)) =
            yearLength (if 1 < mon.toNat then y + 1 else y) := by
          rw [yearLengths_eq]
          by_cases hfeb : 1 < mon
          · rw [if_pos hfeb, if_pos (by omega)]
          · rw [if_neg hfeb, if_neg (by omega), Int.add_zero]
        dsimp only
        rw [hli, incrementOverflow_of_fits (by omega) (by omega), Option.bind_some]
        have hlen := yearLength_pos (if 1 < mon.toNat then y + 1 else y)
        obtain ⟨y', mday', heq, hday, hrest⟩ :=
          ih (y + 1) (mday - yearLength (if 1 < mon.toNat then y + 1 else y)) (by omega)
            (by omega) (by omega)
        exact ⟨y', mday', heq, by omega, hrest.1, hrest.2.1, by omega⟩
      · rw [if_neg hmore]
        exact ⟨y, mday, rfl, rfl, hpos, by omega, by omega⟩

/-- Months are taken off until the day stands in one. -/
theorem mdayMonths_eq (passes : Nat) (y mon mday : Int) (hmon : 0 ≤ mon ∧ mon < 12)
    (hpos : 1 ≤ mday) (hmday : mday ≤ 28 * passes) (hroom : y.natAbs + passes < 2 ^ 31 - 1) :
    ∃ y' mon' mday', mdayMonths passes y mon mday = some (y', mon', mday') ∧
      monthDay y' mon'.toNat + mday' = monthDay y mon.toNat + mday ∧ (0 ≤ mon' ∧ mon' < 12) ∧
      (1 ≤ mday' ∧ mday' ≤ monthLength (isLeap y') mon'.toNat) ∧
      y'.natAbs ≤ y.natAbs + passes := by
  induction passes generalizing y mon mday with
  | zero => omega
  | succ passes ih =>
      rw [mdayMonths]
      have hlength : (monLengths (isleap y)).getD mon.toNat 0 =
          monthLength (isLeap y) mon.toNat := by
        rw [monLengths_eq, isleap_eq]
        rfl
      have hbounds := monthLength_bounds (isLeap y) (m := mon.toNat) (by omega)
      rw [hlength]
      by_cases hends : mday ≤ monthLength (isLeap y) mon.toNat
      · rw [if_pos hends]
        exact ⟨y, mon, mday, rfl, rfl, hmon, ⟨hpos, hends⟩, by omega⟩
      · rw [if_neg hends]
        by_cases hlast : 12 ≤ mon + 1
        · rw [if_pos hlast, incrementOverflow_of_fits (by omega) (by omega), Option.bind_some]
          have hnext := monthDay_december y
          have hmon11 : mon.toNat = 11 := by omega
          rw [hmon11] at hbounds hends ⊢
          obtain ⟨y', mon', mday', heq, hday, hrest⟩ :=
            ih (y + 1) 0 (mday - monthLength (isLeap y) 11) (by omega) (by omega) (by omega)
              (by omega)
          rw [Int.toNat_zero] at hday
          exact ⟨y', mon', mday', heq, by omega, hrest.1, hrest.2.1, by omega⟩
        · rw [if_neg hlast]
          have hnext := monthDay_succ y (m := mon.toNat) (by omega)
          obtain ⟨y', mon', mday', heq, hday, hrest⟩ :=
            ih y (mon + 1) (mday - monthLength (isLeap y) mon.toNat) (by omega) (by omega)
              (by omega) (by omega)
          rw [show (mon + 1).toNat = mon.toNat + 1 by omega] at hday
          exact ⟨y', mon', mday', heq, by omega, hrest.1, hrest.2.1, by omega⟩

/-! ## The whole normalization -/

/-- Every field is less than 2^29 in size, so that no carry overflows. -/
structure Tm.Moderate (tm : Tm) : Prop where
  sec : tm.sec.natAbs < 2 ^ 29
  min : tm.min.natAbs < 2 ^ 29
  hour : tm.hour.natAbs < 2 ^ 29
  mday : tm.mday.natAbs < 2 ^ 29
  mon : tm.mon.natAbs < 2 ^ 29
  year : tm.year.natAbs < 2 ^ 29

/-- What `normalized` makes of a broken-down time. -/
structure Normal (doNormSecs : Bool) (tm tm' : Tm) : Prop where
  dated : tm'.Dated
  seconds : tm'.seconds = tm.seconds
  isdst : tm'.isdst = tm.isdst
  sec : if doNormSecs then 0 ≤ tm'.sec ∧ tm'.sec < 60 else tm'.sec = tm.sec

/-- The carry out of the seconds. -/
theorem normalizeSecs_eq (doNormSecs : Bool) {tm : Tm} (h : tm.Moderate) : ∃ min sec,
    normalizeSecs doNormSecs tm = some (min, sec) ∧
      60 * min + sec = 60 * tm.min + tm.sec ∧ min.natAbs < 2 ^ 30 ∧
      if doNormSecs then 0 ≤ sec ∧ sec < 60 else sec = tm.sec := by
  have hsec := h.sec
  have hmin := h.min
  unfold normalizeSecs
  cases doNormSecs with
  | false => exact ⟨_, _, rfl, rfl, by omega, rfl⟩
  | true =>
      exact ⟨_, _, normalizeOverflow_eq (.inl rfl) (by omega) (by omega), by omega, by omega,
        by rw [if_pos rfl]; omega⟩

/-- The loops of the day. -/
theorem loops_eq (y : Int) {mon : Int} (mday : Int) (hmon : 0 ≤ mon ∧ mon < 12)
    (hroom : y.natAbs + mday.natAbs < 2 ^ 30 + 2 ^ 29) : ∃ y₁ mday₁ y₂ mday₂ y₃ mon₃ mday₃,
    mdayUp mon (enough mday) y mday = some (y₁, mday₁) ∧
      mdayDown mon (enough mday₁) y₁ mday₁ = some (y₂, mday₂) ∧
      mdayMonths 14 y₂ mon mday₂ = some (y₃, mon₃, mday₃) ∧
      monthDay y₃ mon₃.toNat + mday₃ = monthDay y mon.toNat + mday ∧ (0 ≤ mon₃ ∧ mon₃ < 12) ∧
      (1 ≤ mday₃ ∧ mday₃ ≤ monthLength (isLeap y₃) mon₃.toNat) ∧
      -2 ^ 31 ≤ y₃ + -1900 ∧ y₃ + -1900 < 2 ^ 31 := by
  obtain ⟨y₁, mday₁, hup, hsum₁, hpos₁, hsize₁⟩ :=
    mdayUp_eq (enough mday) y mday hmon (Nat.succ_pos _) (by unfold enough; omega) (by omega)
  obtain ⟨y₂, mday₂, hdown, hsum₂, hpos₂, hle₂, hy₂⟩ :=
    mdayDown_eq (enough mday₁) y₁ mday₁ hmon hpos₁ (by unfold enough; omega) (by omega)
  obtain ⟨y₃, mon₃, mday₃, hmonths, hsum₃, hmon₃, hmday₃, hy₃⟩ :=
    mdayMonths_eq 14 y₂ mon mday₂ hmon hpos₂ (by omega) (by omega)
  exact ⟨y₁, mday₁, y₂, mday₂, y₃, mon₃, mday₃, hup, hdown, hmonths, by omega, hmon₃, hmday₃,
    by omega, by omega⟩

theorem normalized_eq (doNormSecs : Bool) {tm : Tm} (h : tm.Moderate) :
    ∃ tm', normalized doNormSecs tm = some tm' ∧ Normal doNormSecs tm tm' := by
  obtain ⟨min₁, sec₁, hfirst, hsum₁, hmin₁, hsec₁⟩ := normalizeSecs_eq doNormSecs h
  obtain ⟨-, -, hhour, hmday, hmon, hyear⟩ := h
  have hhour₂ : normalizeOverflow tm.hour min₁ 60 = some (tm.hour + min₁ / 60, min₁ % 60) :=
    normalizeOverflow_eq (.inl rfl) (by omega) (by omega)
  obtain ⟨hour₂, hcarry₂⟩ : ∃ hour₂, tm.hour + min₁ / 60 = hour₂ := ⟨_, rfl⟩
  rw [hcarry₂] at hhour₂
  have hmday₃ : normalizeOverflow tm.mday hour₂ 24 = some (tm.mday + hour₂ / 24, hour₂ % 24) :=
    normalizeOverflow_eq (.inr (.inl rfl)) (by omega) (by omega)
  obtain ⟨mday₃, hcarry₃⟩ : ∃ mday₃, tm.mday + hour₂ / 24 = mday₃ := ⟨_, rfl⟩
  rw [hcarry₃] at hmday₃
  have hyear₄ : normalizeOverflow tm.year tm.mon 12 =
      some (tm.year + tm.mon / 12, tm.mon % 12) :=
    normalizeOverflow_eq (.inr (.inr rfl)) (by omega) (by omega)
  have hyear₅ : incrementOverflow (tm.year + tm.mon / 12) 1900 =
      some (tm.year + tm.mon / 12 + 1900) := incrementOverflow_of_fits (by omega) (by omega)
  obtain ⟨y₆, mday₆, y₇, mday₇, y₈, mon₈, mday₈, hup, hdown, hmonths, hsum₈, hmon₈, hmday₈,
    hlo₈, hhi₈⟩ := loops_eq (tm.year + tm.mon / 12 + 1900) mday₃
      (show 0 ≤ tm.mon % 12 ∧ tm.mon % 12 < 12 by omega) (by omega)
  have hyear₉ := incrementOverflow_of_fits hlo₈ hhi₈
  unfold normalized
  simp only [hfirst, hhour₂, hmday₃, hyear₄, hyear₅, hup, hdown, hmonths, hyear₉,
    Option.bind_eq_bind, Option.bind_some, Option.pure_def]
  have hback : y₈ + -1900 + 1900 = y₈ := by omega
  have hdated : Tm.Dated
      { tm with
        sec := sec₁, min := min₁ % 60, hour := hour₂ % 24, mday := mday₈, mon := mon₈,
        year := y₈ + -1900 } :=
    ⟨hmon₈, by rw [hback]; exact hmday₈, by dsimp only; omega, by dsimp only; omega⟩
  refine ⟨_, rfl, hdated, ?_, rfl, hsec₁⟩
  have hday := hdated.day_eq
  rw [hback] at hday
  unfold Tm.seconds
  rw [hday]
  dsimp only [Tm.day]
  rw [show tm.year + 1900 + tm.mon / 12 = tm.year + tm.mon / 12 + 1900 by omega]
  omega

/-- The seconds that are put aside and what is searched for. -/
theorem savedSeconds_eq {tm : Tm} (h : tm.Dated) (hsec : tm.sec.natAbs < 2 ^ 29) :
    ∃ saved tm', savedSeconds tm = some (saved, tm') ∧ tm'.Regular ∧
      tm'.seconds + saved = tm.seconds ∧ tm'.isdst = tm.isdst ∧ saved.natAbs < 2 ^ 30 ∧
      (0 ≤ tm.sec ∧ tm.sec < 60 → saved = 0 ∧ tm' = tm) := by
  unfold savedSeconds
  by_cases hsmall : 0 ≤ tm.sec ∧ tm.sec < 60
  · rw [if_pos hsmall]
    exact ⟨0, tm, rfl, { h with sec := hsmall }, Int.add_zero _, rfl, by decide,
      fun _ => ⟨rfl, rfl⟩⟩
  · rw [if_neg hsmall]
    by_cases hold : tm.year + 1900 < 1970
    · rw [if_pos hold, incrementOverflow_of_fits (by omega) (by omega)]
      exact ⟨_, _, rfl, ⟨⟨h.mon, h.mday, h.hour, h.min⟩, by dsimp only; omega⟩,
        by unfold Tm.seconds Tm.day; dsimp only; omega, rfl, by omega,
        fun hin => absurd hin hsmall⟩
    · rw [if_neg hold]
      exact ⟨_, _, rfl, ⟨⟨h.mon, h.mday, h.hour, h.min⟩, by dsimp only; omega⟩,
        by unfold Tm.seconds Tm.day; dsimp only; omega, rfl, by omega,
        fun hin => absurd hin hsmall⟩

end Tz
end AndroidLinux
