import AndroidLinux.Tz.Zone

/-!
# Rules of a zone

`transtime` of `tztime.c`, and the table that `tzparse` makes of the rule for the start and of
that for the end of daylight saving time.
-/

namespace AndroidLinux
namespace Tz

open Lib Lib.Calendar
open Time (toS32)

inductive RuleType
  | julianDay
  | dayOfYear
  | monthNthDayOfWeek
  deriving DecidableEq

/-- `struct rule`. -/
structure Rule where
  type : RuleType
  day : Int
  week : Int
  mon : Int
  time : Int
  deriving DecidableEq

/-- Zeller's Congruence, for the day of the week of the first day of a month. -/
def zeller (year mon : Int) : Int :=
  let m1 := (mon + 9).tmod 12 + 1
  let yy0 := if mon ≤ 2 then year - 1 else year
  let yy1 := yy0.tdiv 100
  let yy2 := yy0.tmod 100
  let dow := ((26 * m1 - 2).tdiv 10 + 1 + yy2 + yy2.tdiv 4 + yy1.tdiv 4 - 2 * yy1).tmod 7
  if dow < 0 then dow + 7 else dow

/-- The loop that goes on to the week of the rule, but not behind the end of the month. -/
def weekLoop (length : Int) : Nat → Int → Int
  | 0, d => d
  | left + 1, d => if length ≤ d + 7 then d else weekLoop length left (d + 7)

/-- The day of a rule, in seconds. -/
def ruleDay (janfirst year : Int) (rule : Rule) : Int :=
  let leapyear := isleap year
  match rule.type with
  | .julianDay =>
      let value := janfirst + (rule.day - 1) * secsPerDay
      if leapyear = true ∧ 60 ≤ rule.day then value + secsPerDay else value
  | .dayOfYear => janfirst + rule.day * secsPerDay
  | .monthNthDayOfWeek =>
      let value := ((monLengths leapyear).take (rule.mon - 1).toNat).foldl
        (fun value length => value + length * secsPerDay) janfirst
      let d := rule.day - zeller year rule.mon
      let d := if d < 0 then d + 7 else d
      let length := (monLengths leapyear).getD (rule.mon - 1).toNat 0
      value + weekLoop length (rule.week - 1).toNat d * secsPerDay

/-- `transtime`; the sum wraps around. -/
def transtime (janfirst year : Int) (rule : Rule) (offset : Int) : Int :=
  toS32 (ruleDay janfirst year rule + rule.time + offset)

/-! ## The day of a rule -/

/-- The `week`-th `d`-th day of the week of a month, or the last one if there are not so many. -/
structure NthDayOfWeek (year : Int) (m : Nat) (week d day : Int) : Prop where
  inside : monthDay year m ≤ day ∧ day < monthDay year m + monthLength (isLeap year) m
  weekday : weekday day = d
  nth : (day - monthDay year m) / 7 + 1 = week ∨
    (day - monthDay year m) / 7 + 1 < week ∧
      monthDay year m + monthLength (isLeap year) m ≤ day + 7

/-- What a rule says about a year. -/
def Rule.On (rule : Rule) (year day : Int) : Prop :=
  match rule.type with
  | .julianDay => ∃ (m : Nat) (k : Int), m < 12 ∧ 1 ≤ k ∧ k ≤ monthLength false m ∧
      monthStart false m + k = rule.day ∧ day = monthDay year m + k - 1
  | .dayOfYear => day = yearStart year + rule.day
  | .monthNthDayOfWeek => NthDayOfWeek year (rule.mon - 1).toNat rule.week rule.day day

/-- The numbers that `getrule` lets through. -/
structure Rule.Valid (rule : Rule) : Prop where
  julianDay : rule.type = .julianDay → 1 ≤ rule.day ∧ rule.day ≤ 365
  dayOfYear : rule.type = .dayOfYear → 0 ≤ rule.day ∧ rule.day ≤ 365
  monthNthDayOfWeek : rule.type = .monthNthDayOfWeek → (1 ≤ rule.mon ∧ rule.mon ≤ 12) ∧
    (1 ≤ rule.week ∧ rule.week ≤ 5) ∧ 0 ≤ rule.day ∧ rule.day ≤ 6
  time : 0 ≤ rule.time ∧ rule.time ≤ 167 * 3600 + 59 * 60 + 60

theorem leapsThrough_century (year : Int) :
    leapsThrough year = 24 * (year / 100) + year % 100 / 4 + year / 100 / 4 := by
  unfold leapsThrough
  omega

/-- The days from March on do not depend on the leap day of their own year. -/
theorem monthDay_from_march (year : Int) {m : Nat} (h : 2 ≤ m) (hm : m < 12) :
    monthDay year m = 365 * (year - 1970) + leapsThrough year - leapsThrough 1969 +
      monthStart false m := by
  have hsucc := leapsThrough_succ (year - 1)
  rw [Int.sub_add_cancel] at hsucc
  unfold monthDay yearStart
  cases hleap : isLeap year with
  | false =>
      rw [hleap] at hsucc
      rw [hsucc]
      simp
  | true =>
      rw [hleap] at hsucc
      have hstart : monthStart true m = monthStart false m + 1 := by
        interval_cases m <;> decide
      rw [hsucc, hstart]
      simp
      omega

/-- Zeller's Congruence gives the day of the week of the first day of a month. -/
theorem zeller_eq {year mon : Int} (hyear : 1 ≤ year) (hmon : 1 ≤ mon ∧ mon ≤ 12) :
    zeller year mon = weekday (monthDay year (mon - 1).toNat) := by
  obtain ⟨yy0, hyy0, hnonneg⟩ : ∃ yy0, (if mon ≤ 2 then year - 1 else year) = yy0 ∧ 0 ≤ yy0 :=
    ⟨_, rfl, by split <;> omega⟩
  have hcentury := leapsThrough_century yy0
  have hstart : leapsThrough 1969 = 477 := by decide
  unfold zeller
  dsimp only
  rw [hyy0, tdiv_of_nonneg hnonneg, Int.tmod_eq_emod_of_nonneg hnonneg, wrap_week,
    tdiv_of_nonneg (Int.emod_nonneg yy0 (by decide)),
    tdiv_of_nonneg (show 0 ≤ yy0 / 100 by omega)]
  by_cases hfirst : mon ≤ 2
  · -- January and February belong to the year before
    rw [if_pos hfirst] at hyy0
    have hday : monthDay year (mon - 1).toNat =
        365 * (yy0 + 1 - 1970) + leapsThrough yy0 - 477 + 31 * (mon - 1) := by
      obtain rfl : year = yy0 + 1 := by omega
      unfold monthDay yearStart
      rw [Int.add_sub_cancel, hstart]
      obtain rfl | rfl : mon = 1 ∨ mon = 2 := by omega
      · cases isLeap (yy0 + 1) <;> rfl
      · cases isLeap (yy0 + 1) <;> rfl
    rw [hday, hcentury]
    obtain rfl | rfl : mon = 1 ∨ mon = 2 := by omega
    · rw [show ((26 * (Int.tmod (1 + 9) 12 + 1) - 2).tdiv 10 : Int) = 28 from rfl]
      unfold weekday
      omega
    · rw [show ((26 * (Int.tmod (2 + 9) 12 + 1) - 2).tdiv 10 : Int) = 31 from rfl]
      unfold weekday
      omega
  · rw [if_neg hfirst] at hyy0
    subst hyy0
    rw [monthDay_from_march year (by omega) (by omega), hcentury, hstart]
    have hterm : ((26 * ((mon + 9).tmod 12 + 1) - 2).tdiv 10 -
        monthStart false (mon - 1).toNat) % 7 = 6 := by
      obtain ⟨n, hn⟩ : ∃ n : Nat, mon = n := ⟨mon.toNat, by omega⟩
      subst hn
      have hlo : 3 ≤ n := by omega
      have hhi : n ≤ 12 := by omega
      interval_cases n <;> decide
    unfold weekday
    omega

theorem weekLoop_eq {length : Int} (left : Nat) {d : Int} (hd : d < length) :
    ∃ n : Nat, n ≤ left ∧ weekLoop length left d = d + 7 * n ∧ d + 7 * n < length ∧
      (n = left ∨ length ≤ d + 7 * n + 7) := by
  induction left generalizing d with
  | zero => exact ⟨0, le_rfl, by simp [weekLoop], by omega, .inl rfl⟩
  | succ left ih =>
      rw [weekLoop]
      by_cases hlast : length ≤ d + 7
      · rw [if_pos hlast]
        exact ⟨0, Nat.zero_le _, by simp, by omega, .inr (by omega)⟩
      · rw [if_neg hlast]
        obtain ⟨n, hn, heq, hlt, hend⟩ := ih (Int.not_le.mp hlast)
        exact ⟨n + 1, by omega, by omega, by omega, by omega⟩

theorem foldl_days (lengths : List Int) (value : Int) :
    lengths.foldl (fun value length => value + length * secsPerDay) value =
      value + 86400 * lengths.sum := by
  induction lengths generalizing value with
  | nil => simp
  | cons length lengths ih =>
      rw [List.foldl_cons, ih, List.sum_cons]
      unfold secsPerDay
      omega

theorem julianDay_eq {year day : Int} (h : 1 ≤ day ∧ day ≤ 365) :
    ∃ (m : Nat) (k : Int), m < 12 ∧ 1 ≤ k ∧ k ≤ monthLength false m ∧
      monthStart false m + k = day ∧
      monthDay year m + k - 1 = yearStart year + (day - 1) +
        if isLeap year = true ∧ 60 ≤ day then 1 else 0 := by
  obtain ⟨m, hm, -, hlo, hhi⟩ := monLoop_eq (monthLengths false) 0 (day - 1) (by omega)
    (show day - 1 < 365 by omega)
  change m < 12 at hm
  change 0 ≤ day - 1 - monthStart false m at hlo
  change day - 1 - monthStart false m < monthLength false m at hhi
  refine ⟨m, day - monthStart false m, hm, by omega, by omega, by omega, ?_⟩
  unfold monthDay
  have hfebruary : 60 ≤ day ↔ 2 ≤ m := by
    constructor
    · intro hday
      by_contra hless
      interval_cases m
      · rw [show monthStart false 0 = 0 from rfl, show monthLength false 0 = 31 from rfl] at hhi
        omega
      · rw [show monthStart false 1 = 31 from rfl, show monthLength false 1 = 28 from rfl] at hhi
        omega
    · intro hmarch
      have hstart : 59 ≤ monthStart false m := by interval_cases m <;> decide
      omega
  cases hleap : isLeap year with
  | false =>
      rw [if_neg (by simp)]
      omega
  | true =>
      by_cases hmarch : 2 ≤ m
      · have hstart : monthStart true m = monthStart false m + 1 := by interval_cases m <;> decide
        rw [if_pos ⟨rfl, hfebruary.mpr hmarch⟩]
        omega
      · have hstart : monthStart true m = monthStart false m := by interval_cases m <;> decide
        rw [if_neg (fun h => hmarch (hfebruary.mp h.2))]
        omega

/-- The day that is computed is the one that the rule says. -/
theorem ruleDay_eq {rule : Rule} (hvalid : rule.Valid) {year : Int} (hyear : 1 ≤ year) :
    ∃ day, rule.On year day ∧ ruleDay (86400 * yearStart year) year rule = 86400 * day := by
  unfold ruleDay Rule.On
  rw [isleap_eq]
  cases htype : rule.type with
  | julianDay =>
      obtain ⟨m, k, hm, hlo, hhi, hsum, hday⟩ := julianDay_eq (hvalid.julianDay htype)
      refine ⟨monthDay year m + k - 1, ⟨m, k, hm, hlo, hhi, hsum, rfl⟩, ?_⟩
      rw [hday]
      unfold secsPerDay
      dsimp only
      split <;> omega
  | dayOfYear =>
      refine ⟨yearStart year + rule.day, rfl, ?_⟩
      unfold secsPerDay
      dsimp only
      omega
  | monthNthDayOfWeek =>
      obtain ⟨hmon, hweek, hday⟩ := hvalid.monthNthDayOfWeek htype
      obtain ⟨m, hm⟩ : ∃ m, (rule.mon - 1).toNat = m := ⟨_, rfl⟩
      have hdow := zeller_eq hyear hmon
      have hlen := monthLength_bounds (isLeap year) (m := m) (by omega)
      dsimp only
      rw [hdow, hm, monLengths_eq, foldl_days]
      obtain ⟨d, hd, hdlo, hdhi, hmod⟩ : ∃ d,
          (if rule.day - weekday (monthDay year m) < 0
            then rule.day - weekday (monthDay year m) + 7
            else rule.day - weekday (monthDay year m)) = d ∧ 0 ≤ d ∧ d < 7 ∧
          weekday (monthDay year m + d) = rule.day := by
        refine ⟨_, rfl, ?_, ?_, ?_⟩ <;> unfold weekday <;> split <;> omega
      rw [hd]
      obtain ⟨n, hn, heq, hlt, hend⟩ := weekLoop_eq (rule.week - 1).toNat
        (show d < monthLength (isLeap year) m by omega)
      refine ⟨monthDay year m + (d + 7 * n), ⟨by omega, ?_, by omega⟩, ?_⟩
      · rw [← hmod]
        unfold weekday
        omega
      · change _ + weekLoop (monthLength (isLeap year) m) _ _ * _ = _
        rw [heq]
        unfold secsPerDay monthDay monthStart
        omega

end Tz
end AndroidLinux
