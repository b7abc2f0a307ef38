import AndroidLinux.Lib.Calendar
import AndroidLinux.Tz.LocalTime

/-!
# A broken-down time names its second

`timesub` guesses a year, mends the guess and takes months off what is left.  Each loop keeps
the day, or the second, that its numbers stand for, and ends within the passes it is given.
-/

namespace AndroidLinux
namespace Tz

open Lib Lib.Calendar
open Time (toS32)

/-! ## The calendar of the source -/

theorem tdiv_of_nonneg {a : Int} (h : 0 ≤ a) (n : Int) : a.tdiv n = a / n :=
  Int.tdiv_eq_ediv_of_nonneg h

theorem tdiv_of_nonpos {a : Int} (h : a ≤ 0) (n : Int) : a.tdiv n = -(-a / n) := by
  rw [← Int.tdiv_eq_ediv_of_nonneg (by omega), Int.neg_tdiv, Int.neg_neg]

theorem tmod_eq_zero_iff (a n : Int) : a.tmod n = 0 ↔ a % n = 0 := by
  rw [← Int.dvd_iff_tmod_eq_zero, Int.dvd_iff_emod_eq_zero]

theorem isleap_eq (y : Int) : isleap y = isLeap y := by
  have hbeq : ∀ n : Int, (y.tmod n == 0) = (y % n == 0) := fun n => by
    rw [Bool.eq_iff_iff, beq_iff_eq, beq_iff_eq, tmod_eq_zero_iff]
  unfold isleap isLeap
  rw [hbeq, hbeq, bne, hbeq]
  rfl

theorem yearLengths_eq (y : Int) : yearLengths (isleap y) = yearLength y := by
  rw [isleap_eq]
  rfl

theorem monLengths_eq (leap : Bool) : monLengths leap = monthLengths leap := by
  cases leap <;> rfl

theorem leapsThruEndOf_eq (y : Int) : leapsThruEndOf y = leapsThrough y := by
  unfold leapsThruEndOf leapsFrom leapsThrough
  split
  next h => rw [tdiv_of_nonneg h, tdiv_of_nonneg h, tdiv_of_nonneg h]
  next h =>
    have hpos : 0 ≤ -(y + 1) := by omega
    rw [tdiv_of_nonneg hpos, tdiv_of_nonneg hpos, tdiv_of_nonneg hpos]
    omega

theorem incrementOverflow_of_fits {number delta : Int} (hlo : -2 ^ 31 ≤ number + delta)
    (hhi : number + delta < 2 ^ 31) : incrementOverflow number delta = some (number + delta) := by
  unfold incrementOverflow
  rw [Time.toS32_eq_self hlo hhi]
  exact if_neg (by split <;> omega)

/-- The days that a pass of the first loop takes off. -/
theorem leapdays_eq (y newy : Int) : (newy - y) * 365 +
    (leapsThruEndOf (newy - 1) - leapsThruEndOf (y - 1)) = yearStart newy - yearStart y := by
  rw [leapsThruEndOf_eq, leapsThruEndOf_eq]
  unfold yearStart
  omega

/-! ## The loops -/

section YearLoop

variable {tdays y idelta : Int}

theorem yearLoop_done (h : 0 ≤ tdays ∧ tdays < yearLength y) (passes : Nat) :
    yearLoop (passes + 1) tdays y = some (tdays, y) := by
  rw [yearLoop, yearLengths_eq, if_neg (by omega)]

theorem yearLoop_pass (hout : tdays < 0 ∨ yearLength y ≤ tdays)
    (hidelta : (if tdays.tdiv 366 = 0 then (if tdays < 0 then -1 else 1) else tdays.tdiv 366) =
      idelta)
    (hlo : -2 ^ 31 ≤ y + idelta) (hhi : y + idelta < 2 ^ 31) (passes : Nat) :
    yearLoop (passes + 1) tdays y =
      yearLoop passes (yearStart y + tdays - yearStart (y + idelta)) (y + idelta) := by
  have hmove := leapdays_eq y (y + idelta)
  rw [yearLoop, yearLengths_eq, if_pos hout]
  dsimp only
  rw [hidelta, incrementOverflow_of_fits hlo hhi, Option.bind_some,
    show tdays - (y + idelta - y) * 365 -
      (leapsThruEndOf (y + idelta - 1) - leapsThruEndOf (y - 1)) =
        yearStart y + tdays - yearStart (y + idelta) by omega]

/-- A pass goes to the year before when this is the right one, and else nearer to the day
without going too far. -/
theorem idelta_spec (hout : tdays < 0 ∨ yearLength y ≤ tdays) : ∃ idelta : Int,
    (if tdays.tdiv 366 = 0 then (if tdays < 0 then -1 else 1) else tdays.tdiv 366) = idelta ∧
      ((0 ≤ yearStart y + tdays - yearStart (y + idelta) ∧
          yearStart y + tdays - yearStart (y + idelta) < yearLength (y + idelta) ∧
          idelta = -1) ∨
        (0 < idelta.natAbs ∧
          (yearStart y + tdays - yearStart (y + idelta)).natAbs + idelta.natAbs ≤
            tdays.natAbs)) := by
  by_cases hneg : tdays < 0
  · rw [tdiv_of_nonpos hneg.le]
    by_cases hsmall : -366 < tdays
    · have hquot : -(-tdays / 366) = 0 := by omega
      have hstart := yearStart_succ (y - 1)
      have hprev := yearLength_pos (y - 1)
      rw [show y - 1 + 1 = y by omega] at hstart
      refine ⟨-1, by rw [if_pos hquot, if_pos hneg], .inl ?_⟩
      rw [show y + -1 = y - 1 by omega]
      exact ⟨by omega, by omega, rfl⟩
    · have hquot : -(-tdays / 366) ≠ 0 := by omega
      have hyears := yearStart_le (show y + -(-tdays / 366) ≤ y by omega)
      exact ⟨_, if_neg hquot, .inr ⟨by omega, by omega⟩⟩
  · rw [tdiv_of_nonneg (by omega)]
    by_cases hquot : tdays / 366 = 0
    · have hlen := yearLength_pos y
      refine ⟨1, by rw [if_pos hquot, if_neg hneg], .inr ?_⟩
      rw [yearStart_succ]
      omega
    · have hyears := yearStart_le (show y ≤ y + tdays / 366 by omega)
      exact ⟨_, if_neg hquot, .inr ⟨by omega, by omega⟩⟩

/-- The first loop finds the year of a day. -/
theorem yearLoop_eq (passes : Nat) (tdays y : Int) (hpasses : tdays.natAbs + 2 ≤ passes)
    (hroom : y.natAbs + tdays.natAbs < 2 ^ 31 - 1) :
    ∃ tdays' y', yearLoop passes tdays y = some (tdays', y') ∧
      yearStart y' + tdays' = yearStart y + tdays ∧ 0 ≤ tdays' ∧ tdays' < yearLength y' ∧
      y'.natAbs ≤ y.natAbs + tdays.natAbs + 1 := by
  induction passes generalizing tdays y with
  | zero => omega
  | succ passes ih =>
      by_cases hdone : 0 ≤ tdays ∧ tdays < yearLength y
      · exact ⟨tdays, y, yearLoop_done hdone passes, rfl, hdone.1, hdone.2, by omega⟩
      have hout : tdays < 0 ∨ yearLength y ≤ tdays := by omega
      obtain ⟨idelta, hidelta, ⟨hnonneg, hlt, rfl⟩ | ⟨hpos, hnear⟩⟩ := idelta_spec hout
      · obtain ⟨passes, rfl⟩ : ∃ n, passes = n + 1 := ⟨passes - 1, by omega⟩
        rw [yearLoop_pass hout hidelta (by omega) (by omega), yearLoop_done ⟨hnonneg, hlt⟩]
        exact ⟨_, _, rfl, by omega, hnonneg, hlt, by omega⟩
      · have hsize := Int.natAbs_add_le y idelta
        rw [yearLoop_pass hout hidelta (by omega) (by omega)]
        obtain ⟨tdays', y', heq, hday, hnonneg, hlt, hbound⟩ :=
          ih (yearStart y + tdays - yearStart (y + idelta)) (y + idelta) (by linarith)
            (by linarith)
        exact ⟨tdays', y', heq, by linarith, hnonneg, hlt, by linarith⟩

end YearLoop

theorem remUp_eq (passes : Nat) (rem idays : Int) (hpasses : 0 < passes) (hrem : -rem < passes) :
    ∃ rem' idays', remUp passes rem idays = some (rem', idays') ∧
      86400 * idays' + rem' = 86400 * idays + rem ∧ 0 ≤ rem' ∧ rem' ≤ max rem 86400 := by
  induction passes generalizing rem idays with
  | zero => omega
  | succ passes ih =>
      rw [remUp]
      by_cases hneg : rem < 0
      · rw [if_pos hneg]
        unfold secsPerDay
        obtain ⟨rem', idays', heq, hsum, hrest⟩ :=
          ih (rem + 86400) (idays - 1) (by omega) (by omega)
        exact ⟨rem', idays', heq, by omega, hrest.1, by omega⟩
      · rw [if_neg hneg]
        exact ⟨rem, idays, rfl, rfl, by omega, by omega⟩

theorem remDown_eq (passes : Nat) (rem idays : Int) (hnonneg : 0 ≤ rem) (hrem : rem < passes) :
    ∃ rem' idays', remDown passes rem idays = some (rem', idays') ∧
      86400 * idays' + rem' = 86400 * idays + rem ∧ 0 ≤ rem' ∧ rem' < 86400 := by
  induction passes generalizing rem idays with
  | zero => omega
  | succ passes ih =>
      rw [remDown]
      unfold secsPerDay
      by_cases hmore : 86400 ≤ rem
      · rw [if_pos hmore]
        obtain ⟨rem', idays', heq, hsum, hrest⟩ :=
          ih (rem - 86400) (idays + 1) (by omega) (by omega)
        exact ⟨rem', idays', heq, by omega, hrest⟩
      · rw [if_neg hmore]
        exact ⟨rem, idays, rfl, rfl, by omega, by omega⟩

theorem idaysUp_eq (passes : Nat) (idays y : Int) (hpasses : 0 < passes)
    (hidays : -idays < passes) (hroom : y.natAbs + idays.natAbs < 2 ^ 31 - 1) :
    ∃ idays' y', idaysUp passes idays y = some (idays', y') ∧
      yearStart y' + idays' = yearStart y + idays ∧ 0 ≤ idays' ∧
      y'.natAbs + idays'.natAbs ≤ y.natAbs + idays.natAbs + 367 := by
  induction passes generalizing idays y with
  | zero => omega
  | succ passes ih =>
      rw [idaysUp]
      by_cases hneg : idays < 0
      · rw [if_pos hneg, incrementOverflow_of_fits (by omega) (by omega), Option.bind_some,
          show y + -1 = y - 1 by omega, yearLengths_eq]
        have hstart := yearStart_succ (y - 1)
        have hlen := yearLength_pos (y - 1)
        rw [show y - 1 + 1 = y by omega] at hstart
        by_cases hmore : idays + yearLength (y - 1) < 0
        · obtain ⟨idays', y', heq, hsum, hrest⟩ :=
            ih (idays + yearLength (y - 1)) (y - 1) (by omega) (by omega) (by omega)
          exact ⟨idays', y', heq, by omega, hrest.1, by omega⟩
        · obtain ⟨passes, rfl⟩ : ∃ n, passes = n + 1 := ⟨passes - 1, by omega⟩
          rw [idaysUp, if_neg hmore]
          exact ⟨_, y - 1, rfl, by omega, by omega, by omega⟩
      · rw [if_neg hneg]
        exact ⟨idays, y, rfl, rfl, by omega, by omega⟩

theorem idaysDown_eq (passes : Nat) (idays y : Int) (hnonneg : 0 ≤ idays)
    (hidays : idays < passes) (hroom : y.natAbs + idays.natAbs < 2 ^ 31 - 1) :
    ∃ idays' y', idaysDown passes idays y = some (idays', y') ∧
      yearStart y' + idays' = yearStart y + idays ∧ 0 ≤ idays' ∧ idays' < yearLength y' ∧
      y'.natAbs ≤ y.natAbs + idays.natAbs := by
  induction passes generalizing idays y with
  | zero => omega
  | succ passes ih =>
      rw [idaysDown, yearLengths_eq]
      have hlen := yearLength_pos y
      by_cases hmore : yearLength y ≤ idays
      · rw [if_pos hmore, incrementOverflow_of_fits (by omega) (by omega), Option.bind_some]
        have hstart := yearStart_succ y
        obtain ⟨idays', y', heq, hsum, hrest⟩ :=
          ih (idays - yearLength y) (y + 1) (by omega) (by omega) (by omega)
        exact ⟨idays', y', heq, by omega, hrest.1, hrest.2.1, by omega⟩
      · rw [if_neg hmore]
        exact ⟨idays, y, rfl, rfl, hnonneg, by omega, by omega⟩

/-- The months that are taken off are the first ones, and what is left is less than the next. -/
theorem monLoop_eq (lengths : List Int) (mon idays : Int) (hnonneg : 0 ≤ idays)
    (hsum : idays < lengths.sum) :
    ∃ k, k < lengths.length ∧ monLoop lengths mon idays =
        (mon + k, idays - (lengths.take k).sum) ∧
      0 ≤ idays - (lengths.take k).sum ∧ idays - (lengths.take k).sum < lengths.getD k 0 := by
  induction lengths generalizing mon idays with
  | nil => rw [List.sum_nil] at hsum; omega
  | cons ip rest ih =>
      rw [List.sum_cons] at hsum
      rw [monLoop]
      by_cases hmore : ip ≤ idays
      · rw [if_pos hmore]
        obtain ⟨k, hk, heq, hlo, hhi⟩ := ih (mon + 1) (idays - ip) (by omega) (by omega)
        refine ⟨k + 1, Nat.succ_lt_succ hk, ?_, ?_, ?_⟩
        · rw [heq, List.take_succ_cons, List.sum_cons, Nat.cast_succ]
          exact Prod.ext (by dsimp only; omega) (by dsimp only; omega)
        · rw [List.take_succ_cons, List.sum_cons]
          omega
        · rw [List.take_succ_cons, List.sum_cons, List.getD_cons_succ]
          omega
      · rw [if_neg hmore]
        refine ⟨0, Nat.succ_pos _, ?_, ?_, ?_⟩
        · rw [List.take_zero, List.sum_nil, Int.sub_zero, Nat.cast_zero, Int.add_zero]
        · rw [List.take_zero, List.sum_nil]
          omega
        · rw [List.take_zero, List.sum_nil, List.getD_cons_zero]
          omega

/-! ## What is shown -/

/-- `tmod` where it is used to count within a week. -/
theorem wrap_week (a : Int) :
    (if a.tmod 7 < 0 then a.tmod 7 + 7 else a.tmod 7) = a % 7 := by
  have hdiv := Int.tmod_add_mul_tdiv a 7
  rcases Int.le_total 0 a with hpos | hneg
  · rw [tdiv_of_nonneg hpos] at hdiv
    split <;> omega
  · rw [tdiv_of_nonpos hneg] at hdiv
    split <;> omega

theorem wdayOf_eq (y idays : Int) : wdayOf y idays = weekday (yearStart y + idays) := by
  unfold wdayOf
  dsimp only
  rw [wrap_week, leapsThruEndOf_eq, leapsThruEndOf_eq, show Int.tmod 365 7 = 1 from rfl]
  have hweek := Int.tmod_add_mul_tdiv (y - 1970) 7
  unfold weekday yearStart
  omega

/-- The day of a broken-down time, whatever its fields are: a month behind the twelfth is one
of the next year, and a day behind the last one of a month is one of the next month. -/
def Tm.day (tm : Tm) : Int :=
  monthDay (tm.year + 1900 + tm.mon / 12) (tm.mon % 12).toNat + tm.mday - 1

/-- The second that a broken-down time stands for, when every minute has sixty of them. -/
def Tm.seconds (tm : Tm) : Int := 86400 * tm.day + 3600 * tm.hour + 60 * tm.min + tm.sec

/-- The fields are those of a clock and a calendar; `hit` inserted seconds are shown behind the
last one of a minute. -/
structure Tm.Shown (tm : Tm) (hit : Int) : Prop where
  mon : 0 ≤ tm.mon ∧ tm.mon < 12
  mday : 1 ≤ tm.mday ∧ tm.mday ≤ monthLength (isLeap (tm.year + 1900)) tm.mon.toNat
  hour : 0 ≤ tm.hour ∧ tm.hour < 24
  min : 0 ≤ tm.min ∧ tm.min < 60
  sec : hit ≤ tm.sec ∧ tm.sec < hit + 60
  yday : yearStart (tm.year + 1900) + tm.yday = tm.day
  wday : tm.wday = weekday tm.day

/-- The fields from a year, a day of the year and a second of the day. -/
theorem shown_of_parts {tm : Tm} {y idays rem hit s : Int} (hy : tm.year = y + -1900)
    (hdays : 0 ≤ idays ∧ idays < yearLength y) (hrem : 0 ≤ rem ∧ rem < 86400)
    (hmon : (tm.mon, tm.mday - 1) = monLoop (monLengths (isleap y)) 0 idays)
    (hyday : tm.yday = idays) (hwday : tm.wday = wdayOf y idays)
    (hhour : tm.hour = rem.tdiv 3600) (hmin : tm.min = (rem.tmod 3600).tdiv 60)
    (hsec : tm.sec = (rem.tmod 3600).tmod 60 + hit)
    (hs : 86400 * (yearStart y + idays) + rem = s) :
    tm.Shown hit ∧ tm.seconds = s + hit := by
  have hyear : tm.year + 1900 = y := by omega
  have hmod : rem.tmod 3600 = rem % 3600 := Int.tmod_eq_emod_of_nonneg hrem.1
  have hmod' : (rem % 3600).tmod 60 = rem % 3600 % 60 := Int.tmod_eq_emod_of_nonneg (by omega)
  rw [hmod, hmod'] at hsec
  rw [hmod, tdiv_of_nonneg (by omega)] at hmin
  rw [tdiv_of_nonneg hrem.1] at hhour
  -- the month
  rw [monLengths_eq, isleap_eq] at hmon
  have hyearSum : (monthLengths (isLeap y)).sum = yearLength y := by
    unfold yearLength
    cases isLeap y <;> rfl
  obtain ⟨k, hk, heq, hlo, hhi⟩ := monLoop_eq (monthLengths (isLeap y)) 0 idays hdays.1
    (by rw [hyearSum]; exact hdays.2)
  rw [heq, Prod.mk.injEq, Int.zero_add] at hmon
  obtain ⟨hk', hmday⟩ := hmon
  have hnat : tm.mon.toNat = k := by omega
  have hstart : (List.take k (monthLengths (isLeap y))).sum = monthStart (isLeap y) k := rfl
  have hlength : (monthLengths (isLeap y)).getD k 0 = monthLength (isLeap y) k := rfl
  have hlast : k < 12 := hk
  have hday : tm.day = yearStart y + idays := by
    unfold Tm.day monthDay
    rw [show tm.year + 1900 + tm.mon / 12 = y by omega, show (tm.mon % 12).toNat = k by omega,
      ← hstart]
    omega
  refine ⟨⟨by omega, ?_, by omega, by omega, by omega, ?_, ?_⟩, ?_⟩
  · rw [hyear, hnat, ← hlength]
    omega
  · rw [hyear, hday, hyday]
  · rw [hwday, wdayOf_eq, hday]
  · unfold Tm.seconds
    rw [hday, hhour, hmin, hsec, ← hs]
    omega

/-- The correction that `timesub` finds, and the inserted seconds. -/
def State.leap (sp : State) (t : Int) : Int × Int := leapLoop sp t sp.lsis.length

/-! ## Leap seconds -/

/-- The correction of the last leap second that is not later. -/
def correction (lsis : List LsInfo) (t : Int) : Int :=
  ((lsis.filter fun l => decide (l.trans ≤ t)).getLast?.map LsInfo.corr).getD 0

/-- The correction in front of a leap second; for the first one this is what stands in memory
there. -/
def State.corrBefore (sp : State) (i : Nat) : Int :=
  if i = 0 then sp.lsisBefore else (sp.lsis[i - 1]?.map LsInfo.corr).getD 0

/-- The last leap second that is not later than `t` inserts a second at `t`. -/
structure State.Inserts (sp : State) (t : Int) (i : Nat) (l : LsInfo) : Prop where
  entry : sp.lsis[i]? = some l
  trans : l.trans = t
  last : ∀ j l', i < j → sp.lsis[j]? = some l' → t < l'.trans
  adds : i = 0 ∧ 0 < l.corr ∨ sp.corrBefore i < l.corr

/-- `hit` seconds have been inserted one behind the other up to `t`, and not one more. -/
inductive State.Hit (sp : State) (t : Int) : Int → Prop
  | none (h : ∀ i l, ¬ sp.Inserts t i l) : sp.Hit t 0
  | run {i m : Nat} {l : LsInfo} (h : sp.Inserts t i l) (hm : m ≤ i)
      (hrun : ∀ k : Nat, k ≤ m → sp.lsis[i - k]? = some ⟨t - k, l.corr - k⟩)
      (hend : m = i ∨
        sp.lsis[i - (m + 1)]? ≠ some ⟨t - (m + 1 : Nat), l.corr - (m + 1 : Nat)⟩) :
      sp.Hit t (1 + m)

theorem hitLoop_eq {lsis : List LsInfo} {i : Nat} {l : LsInfo} (hit : Int)
    (hl : lsis[i]? = some l) : ∃ m ≤ i, hitLoop lsis i hit = hit + m ∧
      (∀ k : Nat, k ≤ m → lsis[i - k]? = some ⟨l.trans - k, l.corr - k⟩) ∧
      (m = i ∨
        lsis[i - (m + 1)]? ≠ some ⟨l.trans - (m + 1 : Nat), l.corr - (m + 1 : Nat)⟩) := by
  have hnone {i : Nat} (hl : lsis[i]? = some l) (k : Nat) (hk : k ≤ 0) :
      lsis[i - k]? = some ⟨l.trans - k, l.corr - k⟩ := by
    obtain rfl := Nat.le_zero.mp hk
    simpa using hl
  induction i generalizing hit l with
  | zero => exact ⟨0, le_rfl, (Int.add_zero hit).symm, hnone hl, .inl rfl⟩
  | succ i ih =>
      rw [hitLoop, hl]
      cases hbefore : lsis[i]? with
      | none =>
          refine ⟨0, Nat.zero_le _, (Int.add_zero hit).symm, hnone hl, .inr ?_⟩
          rw [Nat.add_sub_cancel, hbefore]
          exact Option.some_ne_none _ |>.symm
      | some l' =>
          dsimp only
          split
          next hnext =>
            obtain ⟨m, hm, heq, hrun, hend⟩ := ih (hit + 1) hbefore fun hl k hk => by
              obtain rfl := Nat.le_zero.mp hk
              simpa using hl
            have hshift (k : Nat) : (⟨l'.trans - k, l'.corr - k⟩ : LsInfo) =
                ⟨l.trans - (k + 1 : Nat), l.corr - (k + 1 : Nat)⟩ := by
              rw [hnext.1, hnext.2]
              push_cast
              rw [show l'.trans + 1 - (k + 1 : Int) = l'.trans - k by omega,
                show l'.corr + 1 - (k + 1 : Int) = l'.corr - k by omega]
            refine ⟨m + 1, Nat.succ_le_succ hm, by rw [heq]; push_cast; omega, fun k hk => ?_, ?_⟩
            · cases k with
              | zero => exact hnone hl 0 le_rfl
              | succ k =>
                  rw [Nat.add_sub_add_right, hrun k (Nat.le_of_succ_le_succ hk), hshift]
            · rw [Nat.add_sub_add_right, ← hshift]
              exact hend.imp_left (congrArg Nat.succ)
          next hnext =>
            refine ⟨0, Nat.zero_le _, (Int.add_zero hit).symm, hnone hl, .inr fun heq => hnext ?_⟩
            rw [Nat.add_sub_cancel, hbefore] at heq
            obtain rfl := Option.some.inj heq
            dsimp only
            exact ⟨by omega, by omega⟩

/-- The scan stops at the last leap second that is not later. -/
theorem leapLoop_eq (sp : State) (t : Int) (n : Nat) (hn : n ≤ sp.lsis.length)
    (hlate : ∀ j l, n ≤ j → sp.lsis[j]? = some l → t < l.trans) :
    (leapLoop sp t n).1 = correction (sp.lsis.take n) t ∧ sp.Hit t (leapLoop sp t n).2 := by
  induction n with
  | zero =>
      refine ⟨rfl, .none fun i l hinserts => ?_⟩
      have hlater := hlate i l (Nat.zero_le i) hinserts.entry
      have htrans := hinserts.trans
      omega
  | succ n ih =>
      obtain ⟨lp, hlp⟩ : ∃ lp, sp.lsis[n]? = some lp := ⟨_, List.getElem?_eq_getElem hn⟩
      rw [leapLoop, hlp]
      dsimp only
      have htake : sp.lsis.take (n + 1) = sp.lsis.take n ++ [lp] := by
        rw [List.take_add_one, hlp]
        rfl
      by_cases hle : lp.trans ≤ t
      · rw [if_pos hle]
        refine ⟨?_, ?_⟩
        · rw [htake, correction, List.filter_append, List.filter_cons_of_pos (by simpa using hle),
            List.filter_nil, List.getLast?_append, List.getLast?_singleton, Option.some_or]
          rfl
        · show sp.Hit t (if t = lp.trans ∧ (n = 0 ∧ 0 < lp.corr ∨ sp.corrBefore n < lp.corr) then
            hitLoop sp.lsis n 1 else 0)
          by_cases hhit : t = lp.trans ∧ (n = 0 ∧ 0 < lp.corr ∨ sp.corrBefore n < lp.corr)
          · obtain ⟨m, hm, heq, hrun, hend⟩ := hitLoop_eq 1 hlp
            rw [if_pos hhit, heq]
            rw [← hhit.1] at hrun hend
            exact .run ⟨hlp, hhit.1.symm, fun j l hj => hlate j l hj, hhit.2⟩ hm hrun hend
          · rw [if_neg hhit]
            refine .none fun i l hinserts => ?_
            have htrans := hinserts.trans
            rcases Nat.lt_trichotomy i n with hlt | rfl | hlt
            · have hlater := hinserts.last n lp hlt hlp
              omega
            · obtain rfl := Option.some.inj (hlp.symm.trans hinserts.entry)
              exact hhit ⟨htrans.symm, hinserts.adds⟩
            · have hlater := hlate i l hlt hinserts.entry
              omega
      · rw [if_neg hle]
        obtain ⟨hcorr, hhit⟩ := ih (Nat.le_of_succ_le hn) fun j l hj hl => by
          rcases Nat.eq_or_lt_of_le hj with rfl | hlt
          · obtain rfl := Option.some.inj (hlp.symm.trans hl)
            exact Int.not_le.mp hle
          · exact hlate j l hlt hl
        refine ⟨?_, hhit⟩
        rw [hcorr, htake, correction, correction, List.filter_append,
          List.filter_cons_of_neg (by simpa using hle), List.filter_nil, List.append_nil]

/-- The correction and the inserted seconds that `timesub` finds are those of the table. -/
theorem State.leap_eq (sp : State) (t : Int) :
    (sp.leap t).1 = correction sp.lsis t ∧ sp.Hit t (sp.leap t).2 := by
  have h := leapLoop_eq sp t sp.lsis.length le_rfl fun j l hj hl =>
    absurd (List.getElem?_eq_some_iff.mp hl).1 (Nat.not_lt.mpr hj)
  rwa [List.take_length] at h

/-! ## `timesub` -/

/-- `timesub` shows the second that the offset and the correction lead to. -/
theorem timesub_eq (sp : State) (tmp : Tm) {t offset : Int} (hlo : -2 ^ 31 ≤ t) (hhi : t < 2 ^ 31)
    (hroom : (offset - (sp.leap t).1).natAbs + 86400 ≤ 2 ^ 31) :
    ∃ tm, timesub t offset sp tmp = some tm ∧ tm.Shown (sp.leap t).2 ∧
      tm.seconds = t + offset - (sp.leap t).1 + (sp.leap t).2 := by
  obtain ⟨tdays, hdays, rem, hrem, htdays, hrem'⟩ : ∃ tdays, t.tdiv 86400 = tdays ∧ ∃ rem,
      t - tdays * 86400 = rem ∧ (-24856 ≤ tdays ∧ tdays ≤ 24856) ∧
        (-86400 < rem ∧ rem < 86400) := by
    rcases Int.le_total 0 t with hpos | hneg
    · rw [tdiv_of_nonneg hpos]
      exact ⟨_, rfl, _, rfl, ⟨by omega, by omega⟩, by omega, by omega⟩
    · rw [tdiv_of_nonpos hneg]
      exact ⟨_, rfl, _, rfl, ⟨by omega, by omega⟩, by omega, by omega⟩
  obtain ⟨tdays₁, y₁, hfirst, hday₁, hlo₁, hhi₁, hy₁⟩ :=
    yearLoop_eq (enough tdays) tdays 1970 le_rfl (by omega)
  replace hy₁ : -26827 ≤ y₁ ∧ y₁ ≤ 26827 := by omega
  have hlen₁ := yearLength_pos y₁
  have hagain : (tdays₁ * 86400).tdiv 86400 = tdays₁ := by
    rw [tdiv_of_nonneg (by omega)]
    omega
  rcases hleap : sp.leap t with ⟨corr, hit⟩
  rw [hleap] at hroom
  dsimp only at hroom ⊢
  replace hroom : -2 ^ 31 + 86400 ≤ offset - corr ∧ offset - corr ≤ 2 ^ 31 - 86400 := by omega
  have hleap' : leapLoop sp t sp.lsis.length = (corr, hit) := hleap
  obtain ⟨rem₂, idays₂, hup, hsum₂, hlo₂, hhi₂⟩ :=
    remUp_eq (enough (rem + (offset - corr))) (rem + (offset - corr)) tdays₁
      (Nat.succ_pos _) (by unfold enough; omega)
  obtain ⟨rem₃, idays₃, hdown, hsum₃, hlo₃, hhi₃⟩ :=
    remDown_eq (enough rem₂) rem₂ idays₂ hlo₂ (by unfold enough; omega)
  have hidays₃ : -26000 ≤ idays₃ ∧ idays₃ ≤ 26000 := by omega
  obtain ⟨idays₄, y₄, hback, hday₄, hlo₄, hy₄⟩ :=
    idaysUp_eq (enough idays₃) idays₃ y₁ (Nat.succ_pos _) (by unfold enough; omega) (by omega)
  replace hy₄ : y₄.natAbs + idays₄.natAbs ≤ 54000 := by omega
  obtain ⟨idays₅, y₅, hforth, hday₅, hlo₅, hhi₅, hy₅⟩ :=
    idaysDown_eq (enough idays₄) idays₄ y₄ hlo₄ (by unfold enough; omega) (by omega)
  replace hy₅ : -54000 ≤ y₅ ∧ y₅ ≤ 54000 := by omega
  have hyear : incrementOverflow y₅ (-1900) = some (y₅ + -1900) :=
    incrementOverflow_of_fits (by omega) (by omega)
  rw [yearStart_epoch] at hday₁
  unfold timesub
  simp only [hleap', secsPerDay, hdays, hrem, hfirst, Option.bind_eq_bind, Option.bind_some,
    hagain, Int.sub_self, Int.add_zero, hup, hdown, hback, hforth, hyear, Option.pure_def]
  exact ⟨_, rfl, shown_of_parts rfl ⟨hlo₅, hhi₅⟩ ⟨hlo₃, hhi₃⟩ (by rw [Int.add_sub_cancel]) rfl
    rfl rfl rfl rfl (by omega)⟩

end Tz
end AndroidLinux
