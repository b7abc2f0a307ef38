import Mathlib.Tactic
import AndroidLinux.Time.UserClock

/-!
# Seconds, day numbers and BCD times of `hi_time.c`

`HI_TIME_MJDUTCToSeconds` and `HI_TIME_SecondsToMJDUTC` convert between the seconds since
1970-01-01 and a modified Julian day with a time of day in six BCD digits.  All the
arithmetic on seconds is that of `HI_S32`; a computation notes when an intermediate
result leaves that type, and goes on with the wrapped value.

`DayTime` and `Moment` say what the values mean: a time of day, and a time of day of a
day that `TIME_MJDToSeconds` accepts.
-/

namespace AndroidLinux
namespace Time

/-- `HI_EINVAL`. -/
def hiEinval : Int := 6

/-- `TIME_MCR_MJD_1970`. -/
def timeMcrMjd1970 : Int := 40587

/-- `HI_TIME_MJDUTC_S`. -/
structure HiTimeMjdUtc where
  u16MJD : Nat
  u32UTC : Nat
  deriving DecidableEq

/-! ## Computations on `HI_S32` -/

/-- The outcome of a function: its error or what it stores, and whether an `HI_S32` on
the way overflowed. -/
structure Calc (α : Type) where
  result : Except Int α
  overflowed : Bool
  deriving DecidableEq

namespace Calc

/-- An arithmetic result, as an `HI_S32`. -/
def s32 (x : Int) : Calc Int :=
  ⟨.ok (toS32 x), toS32 x != x⟩

/-- `TIME_CHK_PARA` and the checks like it. -/
def check (bad : Bool) (code : Int) : Calc Unit :=
  ⟨if bad then .error code else .ok (), false⟩

instance : Monad Calc where
  pure a := ⟨.ok a, false⟩
  bind x f :=
    match x.result with
    | .error code => ⟨.error code, x.overflowed⟩
    | .ok a => ⟨(f a).result, x.overflowed || (f a).overflowed⟩

@[simp] theorem pure_eq {α : Type} (a : α) : (pure a : Calc α) = ⟨.ok a, false⟩ := rfl

@[simp] theorem bind_ok {α β : Type} (a : α) (o : Bool) (f : α → Calc β) :
    ((⟨.ok a, o⟩ : Calc α) >>= f) = ⟨(f a).result, o || (f a).overflowed⟩ := rfl

@[simp] theorem bind_error {α β : Type} (code : Int) (o : Bool) (f : α → Calc β) :
    ((⟨.error code, o⟩ : Calc α) >>= f) = ⟨.error code, o⟩ := rfl

theorem s32_of_fits {x : Int} (hlo : -2 ^ 31 ≤ x) (hhi : x < 2 ^ 31) :
    s32 x = ⟨.ok x, false⟩ := by
  simp [s32, toS32_eq_self hlo hhi]

end Calc

/-! ## The conversions -/

/-- `HI_TIME_BCD_DEC`. -/
def hiTimeBcdDec (val : Nat) : Nat :=
  (val >>> 4) * 10 + (val &&& 0xF)

/-- `HI_TIME_BCD_ENC`. -/
def hiTimeBcdEnc (val : Nat) : Nat :=
  ((val / 10) <<< 4) + val % 10

/-- `TIME_MJDToSeconds`. -/
def timeMJDToSeconds (u32Mjd : Nat) : Calc Int := do
  let s32UtcSecond : Int := (u32Mjd &&& 0xFFFF : Nat)
  Calc.check (timeMcrMjd1970 - 70 ≥ s32UtcSecond) hiEinval
  let days ← Calc.s32 (s32UtcSecond - timeMcrMjd1970)
  Calc.s32 (days * (24 * (60 * 60)))

/-- `TIME_SecondsToMJD`. -/
def timeSecondsToMJD (s32Seconds : Int) : Calc Nat := do
  let days ← Calc.s32 (s32Seconds.tdiv (24 * (60 * 60)))
  let mjd ← Calc.s32 (days + timeMcrMjd1970)
  pure (mjd % 2 ^ 32).toNat

/-- `HI_TIME_BCDUTCToSeconds`. -/
def hiTimeBCDUTCToSeconds (u32UTC : Nat) : Calc Int := do
  let u32H := (u32UTC &&& 0xFF0000) >>> 16
  let u32M := (u32UTC &&& 0x00FF00) >>> 8
  let u32S := u32UTC &&& 0x0000FF
  let hours ← Calc.s32 (hiTimeBcdDec u32H * 60 : Nat)
  let hours ← Calc.s32 (hours * 60)
  let minutes ← Calc.s32 (hiTimeBcdDec u32M * 60 : Nat)
  let seconds ← Calc.s32 (hours + minutes)
  Calc.s32 (seconds + hiTimeBcdDec u32S)

/-- `HI_TIME_SecondsToBCDUTC`. -/
def hiTimeSecondsToBCDUTC (s32Seconds : Int) : Calc Nat := do
  Calc.check (0 > s32Seconds) hiFailure
  let u32H := (s32Seconds.tdiv (60 * 60) % 2 ^ 32).toNat % 24
  let u32M := (s32Seconds.tdiv 60 % 2 ^ 32).toNat % 60
  let u32S := (s32Seconds % 2 ^ 32).toNat % 60
  let u32H := hiTimeBcdEnc u32H
  let u32M := hiTimeBcdEnc u32M
  let u32S := hiTimeBcdEnc u32S
  pure ((u32H <<< 16) ||| (u32M <<< 8) ||| u32S)

/-- `HI_TIME_MJDUTCToSeconds`. -/
def hiTimeMJDUTCToSeconds (mjdUtcTime : HiTimeMjdUtc) : Calc Int := do
  let s32MjdSeconds ← timeMJDToSeconds mjdUtcTime.u16MJD
  let s32UtcSeconds ← hiTimeBCDUTCToSeconds mjdUtcTime.u32UTC
  Calc.s32 (s32MjdSeconds + s32UtcSeconds)

/-- `HI_TIME_SecondsToMJDUTC`, with what it leaves in `*pstMjdUtcTime`: the day is stored
before the time of day can fail. -/
def hiTimeSecondsToMJDUTC (s32Seconds : Int) (mjdUtcTime : HiTimeMjdUtc) :
    Calc Unit × HiTimeMjdUtc :=
  let mjd := timeSecondsToMJD s32Seconds
  match mjd.result with
  | .error code => (⟨.error code, mjd.overflowed⟩, mjdUtcTime)
  | .ok u32Mjd =>
    let mjdUtcTime := { mjdUtcTime with u16MJD := u32Mjd % 2 ^ 16 }
    let utc := hiTimeSecondsToBCDUTC s32Seconds
    match utc.result with
    | .error code => (⟨.error code, mjd.overflowed || utc.overflowed⟩, mjdUtcTime)
    | .ok u32UTC =>
      (⟨.ok (), mjd.overflowed || utc.overflowed⟩, { mjdUtcTime with u32UTC := u32UTC })

/-- `HI_TIME_CompareMJDUTCTime`. -/
def hiTimeCompareMJDUTCTime (timeInfo1 timeInfo2 : HiTimeMjdUtc) : Calc Int := do
  let s32Second1 ← hiTimeMJDUTCToSeconds timeInfo1
  let s32Second2 ← hiTimeMJDUTCToSeconds timeInfo2
  Calc.s32 (s32Second1 - s32Second2)

/-! ## Times of day and moments -/

/-- A time of day. -/
@[ext] structure DayTime where
  hour : Nat
  min : Nat
  sec : Nat
  hour_lt : hour < 24
  min_lt : min < 60
  sec_lt : sec < 60

namespace DayTime

/-- The seconds since midnight. -/
def seconds (d : DayTime) : Nat :=
  d.hour * 3600 + d.min * 60 + d.sec

/-- The time of day after some seconds from midnight. -/
def ofSeconds (n : Nat) : DayTime where
  hour := n / 3600 % 24
  min := n / 60 % 60
  sec := n % 60
  hour_lt := Nat.mod_lt _ (Nat.succ_pos 23)
  min_lt := Nat.mod_lt _ (Nat.succ_pos 59)
  sec_lt := Nat.mod_lt _ (Nat.succ_pos 59)

/-- Two decimal digits, each in four bits. -/
def digits (n : Nat) : Nat :=
  n / 10 * 16 + n % 10

/-- The six digits `HHMMSS`. -/
def bcd (d : DayTime) : Nat :=
  (digits d.hour * 256 + digits d.min) * 256 + digits d.sec

theorem seconds_lt (d : DayTime) : d.seconds < 86400 := by
  have h := d.hour_lt
  have m := d.min_lt
  have s := d.sec_lt
  unfold seconds
  omega

theorem seconds_ofSeconds (n : Nat) : (ofSeconds n).seconds = n % 86400 := by
  simp only [seconds, ofSeconds]
  omega

theorem ofSeconds_seconds (d : DayTime) : ofSeconds d.seconds = d := by
  have h := d.hour_lt
  have m := d.min_lt
  have s := d.sec_lt
  ext <;> simp only [ofSeconds, seconds] <;> omega

theorem ofSeconds_mod (n : Nat) : ofSeconds (n % 86400) = ofSeconds n := by
  ext <;> simp only [ofSeconds] <;> omega

theorem digits_lt {n : Nat} (h : n < 100) : digits n < 256 := by
  unfold digits
  omega

/-- The order of two times of day, by hour, minute and second. -/
def order (d e : DayTime) : Ordering :=
  ((compare d.hour e.hour).then (compare d.min e.min)).then (compare d.sec e.sec)

end DayTime

/-- A time of day of a day that `TIME_MJDToSeconds` accepts. -/
@[ext] structure Moment where
  mjd : Nat
  time : DayTime
  accepted : 40517 < mjd
  u16 : mjd < 2 ^ 16

namespace Moment

/-- The moment as a `HI_TIME_MJDUTC_S`. -/
def mjdUtc (t : Moment) : HiTimeMjdUtc :=
  ⟨t.mjd, t.time.bcd⟩

/-- The seconds from the start of 1970 to a moment. -/
def seconds (t : Moment) : Int :=
  (t.mjd - 40587) * 86400 + t.time.seconds

/-- The order of two moments, by day, hour, minute and second. -/
def order (t u : Moment) : Ordering :=
  (compare t.mjd u.mjd).then (t.time.order u.time)

end Moment

/-! ## What the conversions compute -/

theorem hiTimeBcdEnc_eq (val : Nat) : hiTimeBcdEnc val = DayTime.digits val := by
  simp [hiTimeBcdEnc, DayTime.digits, Nat.shiftLeft_eq]

theorem hiTimeBcdDec_digits (n : Nat) : hiTimeBcdDec (DayTime.digits n) = n := by
  have hmask : DayTime.digits n &&& 0xF = DayTime.digits n % 16 :=
    Nat.and_two_pow_sub_one_eq_mod _ 4
  rw [hiTimeBcdDec, hmask, Nat.shiftRight_eq_div_pow]
  unfold DayTime.digits
  omega

theorem hourByte (n : Nat) : (n &&& 0xFF0000) >>> 16 = n / 65536 % 256 := by
  rw [Nat.shiftRight_and_distrib, Nat.shiftRight_eq_div_pow]
  exact Nat.and_two_pow_sub_one_eq_mod _ 8

theorem minByte (n : Nat) : (n &&& 0x00FF00) >>> 8 = n / 256 % 256 := by
  rw [Nat.shiftRight_and_distrib, Nat.shiftRight_eq_div_pow]
  exact Nat.and_two_pow_sub_one_eq_mod _ 8

theorem secByte (n : Nat) : n &&& 0x0000FF = n % 256 :=
  Nat.and_two_pow_sub_one_eq_mod _ 8

theorem joinBytes {a b c : Nat} (hb : b < 256) (hc : c < 256) :
    (a <<< 16) ||| (b <<< 8) ||| c = (a * 256 + b) * 256 + c := by
  have hjoin : (a <<< 16) ||| (b <<< 8) = (a * 256 + b) <<< 8 := by
    rw [← Nat.shiftLeft_add_eq_or_of_lt]
    · simp only [Nat.shiftLeft_eq]
      omega
    · rw [Nat.shiftLeft_eq]
      omega
  rw [hjoin, ← Nat.shiftLeft_add_eq_or_of_lt hc, Nat.shiftLeft_eq]

/-- The seconds of a BCD time of day. -/
theorem hiTimeBCDUTCToSeconds_bcd (d : DayTime) :
    hiTimeBCDUTCToSeconds d.bcd = ⟨.ok d.seconds, false⟩ := by
  have hh := d.hour_lt
  have hm := d.min_lt
  have hs := d.sec_lt
  have dh := DayTime.digits_lt (n := d.hour) (by omega)
  have dm := DayTime.digits_lt (n := d.min) (by omega)
  have ds := DayTime.digits_lt (n := d.sec) (by omega)
  have hhour : d.bcd / 65536 % 256 = DayTime.digits d.hour := by
    unfold DayTime.bcd
    omega
  have hmin : d.bcd / 256 % 256 = DayTime.digits d.min := by
    unfold DayTime.bcd
    omega
  have hsec : d.bcd % 256 = DayTime.digits d.sec := by
    unfold DayTime.bcd
    omega
  simp only [hiTimeBCDUTCToSeconds, hourByte, minByte, secByte, hhour, hmin, hsec,
    hiTimeBcdDec_digits]
  -- a day has fewer than 86400 seconds, so that no intermediate result wraps
  rw [Calc.s32_of_fits (by omega) (by omega), Calc.bind_ok]
  rw [Calc.s32_of_fits (by omega) (by omega), Calc.bind_ok]
  rw [Calc.s32_of_fits (by omega) (by omega), Calc.bind_ok]
  rw [Calc.s32_of_fits (by omega) (by omega), Calc.bind_ok]
  rw [Calc.s32_of_fits (by omega) (by omega)]
  simp [DayTime.seconds]
  omega

/-- The BCD time of day of seconds that are not negative. -/
theorem hiTimeSecondsToBCDUTC_of_nonneg (n : Nat) (hn : n < 2 ^ 31) :
    hiTimeSecondsToBCDUTC n = ⟨.ok (DayTime.ofSeconds n).bcd, false⟩ := by
  have hhour : ((n : Int).tdiv (60 * 60) % 2 ^ 32).toNat = n / 3600 := by
    rw [Int.tdiv_eq_ediv_of_nonneg (by omega)]
    omega
  have hmin : ((n : Int).tdiv 60 % 2 ^ 32).toNat = n / 60 := by
    rw [Int.tdiv_eq_ediv_of_nonneg (by omega)]
    omega
  have hsec : ((n : Int) % 2 ^ 32).toNat = n := by omega
  have hcheck : decide ((0 : Int) > n) = false := by simp
  simp only [hiTimeSecondsToBCDUTC, hcheck, Calc.check, hhour, hmin, hsec, hiTimeBcdEnc_eq]
  rw [joinBytes (DayTime.digits_lt (by omega)) (DayTime.digits_lt (by omega))]
  rfl

theorem hiTimeSecondsToBCDUTC_of_neg {s : Int} (hs : s < 0) :
    hiTimeSecondsToBCDUTC s = ⟨.error hiFailure, false⟩ := by
  simp [hiTimeSecondsToBCDUTC, Calc.check, hs]

theorem mjdMask {n : Nat} (h : n < 2 ^ 16) : n &&& 0xFFFF = n := by
  rw [show (0xFFFF : Nat) = 2 ^ 16 - 1 from rfl, Nat.and_two_pow_sub_one_of_lt_two_pow h]

/-- The day number of seconds of `HI_S32`. -/
theorem timeSecondsToMJD_eq {s : Int} (hlo : -2 ^ 31 ≤ s) (hhi : s < 2 ^ 31) :
    timeSecondsToMJD s = ⟨.ok (s.tdiv 86400 + 40587).toNat, false⟩ := by
  have hdays : -24856 ≤ s.tdiv 86400 ∧ s.tdiv 86400 ≤ 24855 := by
    -- the division of C rounds towards zero, whatever the sign
    rw [Int.tdiv_eq_ediv]
    split
    · omega
    · have hsign : (86400 : Int).sign = 1 := by decide
      omega
  have hdayLength : (24 * (60 * 60) : Int) = 86400 := rfl
  simp only [timeSecondsToMJD, timeMcrMjd1970, hdayLength]
  rw [Calc.s32_of_fits (by omega) (by omega), Calc.bind_ok]
  rw [Calc.s32_of_fits (by omega) (by omega), Calc.bind_ok]
  simp only [Calc.pure_eq, Bool.or_false]
  congr 2
  omega

/-- The seconds of a day number that is accepted, as the product wraps. -/
theorem timeMJDToSeconds_eq {mjd : Nat} (hacc : 40517 < mjd) (hmjd : mjd < 2 ^ 16) :
    timeMJDToSeconds mjd = Calc.s32 ((mjd - 40587) * 86400) := by
  have hcheck : decide (40587 - 70 ≥ (mjd : Int)) = false := by
    simp
    omega
  simp only [timeMJDToSeconds, mjdMask hmjd, timeMcrMjd1970, hcheck]
  rw [Calc.s32_of_fits (by omega) (by omega)]
  rfl

theorem toS32_add_toS32 (x y : Int) : toS32 (toS32 x + y) = toS32 (x + y) := by
  unfold toS32
  omega

theorem toS32_sub_toS32 (x y : Int) : toS32 (toS32 x - toS32 y) = toS32 (x - y) := by
  unfold toS32
  omega

/-- The result of `HI_TIME_MJDUTCToSeconds`, as it wraps. -/
theorem Moment.result_seconds (t : Moment) :
    (hiTimeMJDUTCToSeconds t.mjdUtc).result = .ok (toS32 t.seconds) := by
  simp only [hiTimeMJDUTCToSeconds, Moment.mjdUtc, timeMJDToSeconds_eq t.accepted t.u16,
    hiTimeBCDUTCToSeconds_bcd, Calc.s32, Calc.bind_ok, toS32_add_toS32]
  rfl

/-- A moment before the end of `HI_S32` is converted without overflow. -/
theorem Moment.seconds_exact (t : Moment) (ht : t.seconds < 2 ^ 31) :
    hiTimeMJDUTCToSeconds t.mjdUtc = ⟨.ok t.seconds, false⟩ := by
  have hacc := t.accepted
  have htime := t.time.seconds_lt
  unfold Moment.seconds at ht
  simp only [hiTimeMJDUTCToSeconds, Moment.mjdUtc, timeMJDToSeconds_eq t.accepted t.u16]
  rw [Calc.s32_of_fits (by omega) (by omega), Calc.bind_ok, hiTimeBCDUTCToSeconds_bcd,
    Calc.bind_ok, Calc.s32_of_fits (by omega) (by omega)]
  rfl

/-- The moment of seconds that are not negative. -/
theorem hiTimeSecondsToMJDUTC_of_nonneg (n : Nat) (hn : n < 2 ^ 31) (out : HiTimeMjdUtc) :
    hiTimeSecondsToMJDUTC n out =
      (⟨.ok (), false⟩, ⟨40587 + n / 86400, (DayTime.ofSeconds n).bcd⟩) := by
  have hmjd : ((n : Int).tdiv 86400 + 40587).toNat = 40587 + n / 86400 := by
    rw [Int.tdiv_eq_ediv_of_nonneg (by omega)]
    omega
  have hcast : (40587 + n / 86400) % 2 ^ 16 = 40587 + n / 86400 :=
    Nat.mod_eq_of_lt (by omega)
  simp only [hiTimeSecondsToMJDUTC, timeSecondsToMJD_eq (s := n) (by omega) (by omega),
    hiTimeSecondsToBCDUTC_of_nonneg n hn, hmjd, hcast, Bool.or_false]

theorem hiTimeSecondsToMJDUTC_of_neg {s : Int} (hs : s < 0) (hlo : -2 ^ 31 ≤ s)
    (out : HiTimeMjdUtc) :
    (hiTimeSecondsToMJDUTC s out).1 = ⟨.error hiFailure, false⟩ := by
  simp only [hiTimeSecondsToMJDUTC, timeSecondsToMJD_eq hlo (by omega),
    hiTimeSecondsToBCDUTC_of_neg hs, Bool.or_false]

/-! ## From seconds and back -/

/-- Seconds from 1970 on become a day and a BCD time of day, which become the same
seconds, and nothing overflows. -/
theorem secondsToMJDUTC_inverse (s : Nat) (hs : s < 2 ^ 31) (out : HiTimeMjdUtc) :
    hiTimeSecondsToMJDUTC s out =
        (⟨.ok (), false⟩, ⟨40587 + s / 86400, (DayTime.ofSeconds (s % 86400)).bcd⟩) ∧
      hiTimeMJDUTCToSeconds (hiTimeSecondsToMJDUTC s out).2 = ⟨.ok (s : Int), false⟩ := by
  have hforward := hiTimeSecondsToMJDUTC_of_nonneg s hs out
  rw [← DayTime.ofSeconds_mod] at hforward
  refine ⟨hforward, ?_⟩
  -- the pair is that of a moment, whose exact seconds are `s`
  let t : Moment := ⟨40587 + s / 86400, DayTime.ofSeconds (s % 86400), by omega, by omega⟩
  have hseconds : t.seconds = s := by
    have htime := DayTime.seconds_ofSeconds (s % 86400)
    simp only [t, Moment.seconds, htime]
    omega
  rw [hforward]
  have hback := t.seconds_exact (by omega)
  rw [hseconds] at hback
  exact hback

theorem secondsToMJDUTC_inverse_last :
    hiTimeSecondsToMJDUTC (2147483647 : Nat) ⟨0, 0⟩ =
        (⟨.ok (), false⟩, ⟨40587 + 2147483647 / 86400,
          (DayTime.ofSeconds (2147483647 % 86400)).bcd⟩) ∧
      hiTimeMJDUTCToSeconds (hiTimeSecondsToMJDUTC (2147483647 : Nat) ⟨0, 0⟩).2 =
        ⟨.ok ((2147483647 : Nat) : Int), false⟩ :=
  secondsToMJDUTC_inverse 2147483647 (by omega) ⟨0, 0⟩

/-! ## From a moment and back -/

/-- The conversion of a moment is exact, and the one back gives the moment again. -/
def Moment.RoundTrips (t : Moment) : Prop :=
  hiTimeMJDUTCToSeconds t.mjdUtc = ⟨.ok t.seconds, false⟩ ∧
    ∀ out, hiTimeSecondsToMJDUTC t.seconds out = (⟨.ok (), false⟩, t.mjdUtc)

/-- A moment below `2 ^ 31` seconds is converted exactly.  From 1970 on it comes back; the
seconds of an earlier one are refused. -/
theorem mjdUTCToSeconds_exact (t : Moment) (ht : t.seconds < 2 ^ 31) (out : HiTimeMjdUtc) :
    hiTimeMJDUTCToSeconds t.mjdUtc = ⟨.ok t.seconds, false⟩ ∧
      (40587 ≤ t.mjd →
        hiTimeSecondsToMJDUTC t.seconds out = (⟨.ok (), false⟩, t.mjdUtc)) ∧
      (t.mjd < 40587 →
        (hiTimeSecondsToMJDUTC t.seconds out).1 = ⟨.error hiFailure, false⟩) := by
  have hacc := t.accepted
  have htime := t.time.seconds_lt
  have hexact : t.seconds = (t.mjd - 40587) * 86400 + t.time.seconds := rfl
  refine ⟨t.seconds_exact ht, fun hday => ?_, fun hday => ?_⟩
  · obtain ⟨n, hn⟩ : ∃ n : Nat, t.seconds = n := ⟨t.seconds.toNat, by omega⟩
    have hmjd : 40587 + n / 86400 = t.mjd := by omega
    have hrest : n % 86400 = t.time.seconds := by omega
    rw [hn, hiTimeSecondsToMJDUTC_of_nonneg n (by omega), hmjd, ← DayTime.ofSeconds_mod,
      hrest, DayTime.ofSeconds_seconds]
    rfl
  · exact hiTimeSecondsToMJDUTC_of_neg (by omega) (by omega) out

/-- Noon of the last day of 1969. -/
def noonBefore1970 : Moment :=
  ⟨40586, DayTime.ofSeconds 43200, by omega, by omega⟩

theorem mjdUTCToSeconds_exact_1969 :
    hiTimeMJDUTCToSeconds noonBefore1970.mjdUtc = ⟨.ok noonBefore1970.seconds, false⟩ ∧
      (40587 ≤ noonBefore1970.mjd →
        hiTimeSecondsToMJDUTC noonBefore1970.seconds ⟨0, 0⟩ =
          (⟨.ok (), false⟩, noonBefore1970.mjdUtc)) ∧
      (noonBefore1970.mjd < 40587 →
        (hiTimeSecondsToMJDUTC noonBefore1970.seconds ⟨0, 0⟩).1 =
          ⟨.error hiFailure, false⟩) :=
  mjdUTCToSeconds_exact noonBefore1970 (by decide) ⟨0, 0⟩

theorem noonBefore1970_not_roundTrips : ¬ noonBefore1970.RoundTrips := by
  intro h
  have hrefused := hiTimeSecondsToMJDUTC_of_neg (s := noonBefore1970.seconds) (by decide)
    (by decide) ⟨0, 0⟩
  rw [h.2] at hrefused
  simp at hrefused

/-! ## The comparison -/

/-- `HI_TIME_CompareMJDUTCTime` succeeds, and its result has the sign `o`. -/
def Moment.Compares (t u : Moment) (o : Ordering) : Prop :=
  ∃ s32Result, (hiTimeCompareMJDUTCTime t.mjdUtc u.mjdUtc).result = .ok s32Result ∧
    compare s32Result 0 = o

/-- The comparison of two moments is their order. -/
def Moment.Chronological (t u : Moment) : Prop :=
  t.Compares u (t.order u)

/-- The difference of two moments in seconds is an `HI_S32`. -/
def Moment.Near (t u : Moment) : Prop :=
  -2 ^ 31 ≤ t.seconds - u.seconds ∧ t.seconds - u.seconds < 2 ^ 31

/-- Two numbers of two digits compare digit by digit. -/
theorem compare_digits {n a b c d : Nat} (hc : c < n) (hd : d < n) :
    compare (a * n + c) (b * n + d) = (compare a b).then (compare c d) := by
  -- a smaller first digit outweighs any difference of the second ones
  rcases lt_trichotomy a b with hab | rfl | hab
  · have hle : (a + 1) * n ≤ b * n := Nat.mul_le_mul_right n hab
    rw [Nat.add_mul] at hle
    rw [compare_lt_iff_lt.2 hab, compare_lt_iff_lt.2 (by omega)]
    rfl
  · rw [compare_eq_iff_eq.2 (rfl : a = a)]
    rcases lt_trichotomy c d with hcd | rfl | hcd
    · rw [compare_lt_iff_lt.2 hcd, compare_lt_iff_lt.2 (by omega)]
      rfl
    · rw [compare_eq_iff_eq.2 rfl, compare_eq_iff_eq.2 (rfl : c = c)]
      rfl
    · rw [compare_gt_iff_gt.2 hcd, compare_gt_iff_gt.2 (by omega)]
      rfl
  · have hle : (b + 1) * n ≤ a * n := Nat.mul_le_mul_right n hab
    rw [Nat.add_mul] at hle
    rw [compare_gt_iff_gt.2 hab, compare_gt_iff_gt.2 (by omega)]
    rfl

theorem compare_sub_zero (x y : Int) : compare (x - y) 0 = compare x y := by
  rcases lt_trichotomy x y with h | h | h
  · rw [compare_lt_iff_lt.2 h, compare_lt_iff_lt.2 (by omega)]
  · rw [compare_eq_iff_eq.2 h, compare_eq_iff_eq.2 (by omega)]
  · rw [compare_gt_iff_gt.2 h, compare_gt_iff_gt.2 (by omega)]

theorem DayTime.order_eq (d e : DayTime) : d.order e = compare d.seconds e.seconds := by
  have hseconds (d : DayTime) : d.seconds = (d.hour * 60 + d.min) * 60 + d.sec := by
    unfold DayTime.seconds
    omega
  rw [hseconds, hseconds, compare_digits d.sec_lt e.sec_lt, compare_digits d.min_lt e.min_lt]
  rfl

/-- The order of two moments is that of their seconds. -/
theorem Moment.order_eq (t u : Moment) : t.order u = compare (t.seconds - u.seconds) 0 := by
  have hdigits := compare_digits (a := t.mjd) (b := u.mjd) t.time.seconds_lt u.time.seconds_lt
  rw [Moment.order, DayTime.order_eq, ← hdigits]
  have ht : t.seconds = (t.mjd - 40587) * 86400 + t.time.seconds := rfl
  have hu : u.seconds = (u.mjd - 40587) * 86400 + u.time.seconds := rfl
  rcases lt_trichotomy (t.mjd * 86400 + t.time.seconds) (u.mjd * 86400 + u.time.seconds)
    with h | h | h
  · rw [compare_lt_iff_lt.2 h, compare_lt_iff_lt.2 (by omega)]
  · rw [compare_eq_iff_eq.2 h, compare_eq_iff_eq.2 (by omega)]
  · rw [compare_gt_iff_gt.2 h, compare_gt_iff_gt.2 (by omega)]

/-- The comparison is the difference of the seconds, as it wraps. -/
theorem Moment.compares_iff (t u : Moment) (o : Ordering) :
    t.Compares u o ↔ compare (toS32 (t.seconds - u.seconds)) 0 = o := by
  have hresult : (hiTimeCompareMJDUTCTime t.mjdUtc u.mjdUtc).result =
      .ok (toS32 (t.seconds - u.seconds)) := by
    have ht := t.result_seconds
    have hu := u.result_seconds
    cases hct : hiTimeMJDUTCToSeconds t.mjdUtc
    cases hcu : hiTimeMJDUTCToSeconds u.mjdUtc
    rw [hct] at ht
    rw [hcu] at hu
    simp only at ht hu
    subst ht hu
    rw [hiTimeCompareMJDUTCTime, hct, Calc.bind_ok, hcu, Calc.bind_ok]
    simp only [Calc.s32, toS32_sub_toS32]
  simp [Moment.Compares, hresult]

/-- The wrapped difference has the sign of the difference exactly if it did not wrap. -/
theorem Moment.chronological_iff (t u : Moment) : t.Chronological u ↔ t.Near u := by
  have ht : t.seconds = (t.mjd - 40587) * 86400 + t.time.seconds := rfl
  have hu : u.seconds = (u.mjd - 40587) * 86400 + u.time.seconds := rfl
  have ht1 := t.accepted
  have ht2 := t.u16
  have ht3 := t.time.seconds_lt
  have hu1 := u.accepted
  have hu2 := u.u16
  have hu3 := u.time.seconds_lt
  rw [Moment.Chronological, Moment.compares_iff, Moment.order_eq]
  -- the seconds differ by less than `2 ^ 32`, so that a wrap turns the sign
  constructor
  · intro h
    by_contra hfar
    unfold Moment.Near at hfar
    rcases lt_or_ge (t.seconds - u.seconds) 0 with hneg | hpos
    · rw [compare_lt_iff_lt.2 hneg, compare_lt_iff_lt] at h
      unfold toS32 at h
      omega
    · have hgt : t.seconds - u.seconds > 0 := by omega
      rw [compare_gt_iff_gt.2 hgt, compare_gt_iff_gt] at h
      unfold toS32 at h
      omega
  · intro h
    rw [toS32_eq_self h.1 h.2]

/-- The comparison is chronological exactly for two moments whose difference is an
`HI_S32`; between such moments it is antisymmetric and transitive. -/
theorem compareMJDUTCTime_chronological (t u v : Moment) :
    (t.Chronological u ↔ t.Near u) ∧
      (t.Near u → u.Near t → ∀ o, t.Compares u o → u.Compares t o.swap) ∧
      (t.Near u → u.Near v → t.Near v →
        ∀ o, t.Compares u o → u.Compares v o → t.Compares v o) := by
  refine ⟨t.chronological_iff u, fun htu hut o ho => ?_, fun htu huv htv o h1 h2 => ?_⟩
  · rw [Moment.compares_iff, toS32_eq_self htu.1 htu.2] at ho
    rw [Moment.compares_iff, toS32_eq_self hut.1 hut.2, ← ho, compare_sub_zero,
      compare_sub_zero]
    exact Std.OrientedOrd.eq_swap
  · rw [Moment.compares_iff, toS32_eq_self htu.1 htu.2] at h1
    rw [Moment.compares_iff, toS32_eq_self huv.1 huv.2] at h2
    rw [Moment.compares_iff, toS32_eq_self htv.1 htv.2]
    cases o with
    | lt =>
        rw [compare_lt_iff_lt] at *
        omega
    | eq =>
        rw [compare_eq_iff_eq] at *
        omega
    | gt =>
        rw [compare_gt_iff_gt] at *
        omega

/-- The first and the last moment that the conversion accepts. -/
def firstMoment : Moment :=
  ⟨40518, DayTime.ofSeconds 0, by omega, by omega⟩

def lastMoment : Moment :=
  ⟨65535, DayTime.ofSeconds 86399, by omega, by omega⟩

theorem compareMJDUTCTime_chronological_near :
    (noonBefore1970.Chronological firstMoment ↔ noonBefore1970.Near firstMoment) ∧
      (noonBefore1970.Near firstMoment → firstMoment.Near noonBefore1970 →
        ∀ o, noonBefore1970.Compares firstMoment o →
          firstMoment.Compares noonBefore1970 o.swap) ∧
      (noonBefore1970.Near firstMoment → firstMoment.Near firstMoment →
        noonBefore1970.Near firstMoment → ∀ o, noonBefore1970.Compares firstMoment o →
          firstMoment.Compares firstMoment o → noonBefore1970.Compares firstMoment o) :=
  compareMJDUTCTime_chronological noonBefore1970 firstMoment firstMoment

theorem last_before_first : ¬ lastMoment.Chronological firstMoment := by
  rw [Moment.chronological_iff]
  intro h
  exact absurd h.2 (by decide)

end Time
end AndroidLinux
