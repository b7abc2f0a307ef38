import AndroidLinux.Lib.Transition

/-!
# The user clock of `hi_time.c`

`HI_TIME_SetDateTime` stores the seconds it is given together with a reading of a
system clock, and `HI_TIME_GetSeconds` adds to them what a system clock has counted
since.  Both choose the system clock by `bModifyTDTStime`: the wall clock (`time`, which
`HI_TIME_SetDateTime` sets first) or the monotonic clock (`TIME_GetTimeNow`, in
milliseconds).

The clocks are counts of nanoseconds.  The code is the branch without `ANDROID_VERSION`,
where `time_t` and `long` have 32 bits.  `mktime` and the time zone of the C library are
the parameter `Libc`.
-/

namespace AndroidLinux
namespace Time

open Lib

/-- Conversion to `HI_S32`. -/
def toS32 (x : Int) : Int :=
  (x + 2 ^ 31) % 2 ^ 32 - 2 ^ 31

theorem toS32_eq_self {x : Int} (hlo : -2 ^ 31 ≤ x) (hhi : x < 2 ^ 31) : toS32 x = x := by
  unfold toS32
  omega

/-- `HI_SUCCESS`. -/
def hiSuccess : Int := 0

/-- `HI_FAILURE`. -/
def hiFailure : Int := -1

/-- `HI_TIME_INFO_S`. -/
structure HiTimeInfo where
  s32Sec : Int
  s32Min : Int
  s32Hour : Int
  s32Mday : Int
  s32Mon : Int
  s32Year : Int
  s32Wday : Int
  s32Yday : Int
  deriving DecidableEq

/-- `struct tm`, as far as `TIME_DATATIME2SYSTIME` fills it. -/
structure SysTm where
  tmSec : Int
  tmMin : Int
  tmHour : Int
  tmMday : Int
  tmMon : Int
  tmYear : Int
  tmWday : Int
  tmYday : Int
  deriving DecidableEq

/-- `TIME_DATATIME2SYSTIME`. -/
def timeDatatime2Systime (info : HiTimeInfo) : SysTm where
  tmSec := info.s32Sec
  tmMin := info.s32Min
  tmHour := info.s32Hour
  tmMday := info.s32Mday
  tmMon := toS32 (info.s32Mon - 1)
  tmYear := toS32 (info.s32Year - 1900)
  tmWday := info.s32Wday
  tmYday := toS32 (info.s32Yday - 1)

/-- What the module uses of the C library and of the kernel's time zone. -/
structure Libc where
  mktime : SysTm → Int
  timezone : Int
  tzMinuteswest : Int

/-- `HI_TIME_DateTimeToSeconds`. -/
def hiTimeDateTimeToSeconds (libc : Libc) (info : HiTimeInfo) : Except Int Int :=
  let s32Seconds := toS32 (libc.mktime (timeDatatime2Systime info))
  if s32Seconds = -1 then .error hiFailure
  else .ok (toS32 (s32Seconds - libc.timezone))

/-- `TIME_PRIVATE_DATA_S`. -/
structure TimePrivData where
  s32TimeZone : Int
  u32DaylightSaving : Int
  s32UserSeconds : Int
  s32LastSystemSeconds : Int
  bModifyTDTStime : Bool
  bModifyTOTStime : Bool
  deriving DecidableEq

/-- `s_stTimePrivData` after `HI_TIME_Init`. -/
def hiTimeInit : TimePrivData where
  s32TimeZone := 0
  u32DaylightSaving := 0
  s32UserSeconds := 0
  s32LastSystemSeconds := 0
  bModifyTDTStime := true
  bModifyTOTStime := true

/-- `HI_TIME_GetTimeZone`. -/
def hiTimeGetTimeZone (libc : Libc) (d : TimePrivData) : Int :=
  if d.bModifyTOTStime then toS32 (libc.tzMinuteswest * 60) else d.s32TimeZone

/-- `TIME_GetOffset`. -/
def timeGetOffset (libc : Libc) (d : TimePrivData) : Int :=
  toS32 (hiTimeGetTimeZone libc d + toS32 d.u32DaylightSaving)

/-- `struct timespec`. -/
structure Timespec where
  tvSec : Nat
  tvNsec : Nat

/-- The two system clocks, in nanoseconds. -/
structure Clocks where
  realtime : Int
  monotonic : Nat

namespace Clocks

/-- `time`. -/
def time (c : Clocks) : Int :=
  toS32 (c.realtime / 10 ^ 9)

/-- `stime`. -/
def stime (c : Clocks) (seconds : Int) : Clocks :=
  { c with realtime := seconds * 10 ^ 9 }

/-- `clock_gettime` of `CLOCK_MONOTONIC`. -/
def clockGettime (c : Clocks) : Timespec :=
  ⟨c.monotonic / 10 ^ 9, c.monotonic % 10 ^ 9⟩

/-- `TIME_GetTimeNow`: the milliseconds, in a `HI_U32`. -/
def timeGetTimeNow (c : Clocks) : Nat :=
  ((clockGettime c).tvSec * 1000 + (clockGettime c).tvNsec / 1000000) % 2 ^ 32

/-- The reading of the system clock that `bModifyTDTStime` selects, in seconds. -/
def systemTime (c : Clocks) (bModifyTDTStime : Bool) : Int :=
  if bModifyTDTStime then c.time
  else (toS32 c.timeGetTimeNow).tdiv 1000

/-- Both clocks advance by the same time. -/
def advance (c : Clocks) (ns : Nat) : Clocks where
  realtime := c.realtime + ns
  monotonic := c.monotonic + ns

end Clocks

/-- `HI_TIME_GetSeconds`: its result and `*ps32Seconds`. -/
def hiTimeGetSeconds (libc : Libc) (c : Clocks) (d : TimePrivData) (bWithOffset : Bool) :
    Int × Int :=
  let s32Ret := if d.s32UserSeconds ≤ 0 then hiFailure else hiSuccess
  let s32systemTime := c.systemTime d.bModifyTDTStime
  let s32Difference := toS32 (s32systemTime - d.s32LastSystemSeconds)
  let seconds := toS32 (d.s32UserSeconds + s32Difference)
  (s32Ret, if bWithOffset then toS32 (seconds + timeGetOffset libc d) else seconds)

/-- The value that `HI_TIME_SetDateTime` stores in `s32UserSeconds`. -/
def secondsToSet (libc : Libc) (d : TimePrivData) (info : HiTimeInfo) (bWithOffset : Bool) :
    Except Int Int := do
  let s32Seconds ← hiTimeDateTimeToSeconds libc info
  pure (if bWithOffset then toS32 (s32Seconds - timeGetOffset libc d) else s32Seconds)

/-- `HI_TIME_SetDateTime`, with the clocks it leaves. -/
def hiTimeSetDateTime (libc : Libc) (c : Clocks) (d : TimePrivData) (info : HiTimeInfo)
    (bWithOffset : Bool) : Except Int (Clocks × TimePrivData) := do
  let s32Seconds ← secondsToSet libc d info bWithOffset
  let c := if d.bModifyTDTStime then c.stime s32Seconds else c
  pure (c, { d with
    s32LastSystemSeconds := c.systemTime d.bModifyTDTStime
    s32UserSeconds := s32Seconds })

/-- `HI_TIME_SetTimeToSystem`. -/
def hiTimeSetTimeToSystem (d : TimePrivData) (bEnable : Bool) : TimePrivData :=
  { d with bModifyTDTStime := bEnable }

/-! ## Runs -/

/-- What the last successful `HI_TIME_SetDateTime` set: the seconds, the clocks it left
and the clock it read. -/
structure Setting where
  seconds : Int
  clocks : Clocks
  bModifyTDTStime : Bool

/-- The module, the system clocks, and the last setting as history. -/
structure UserClock where
  clocks : Clocks
  priv : TimePrivData
  setting : Option Setting

/-- The calls of the interface, and the passing of time. -/
inductive Act
  | setDateTime (info : HiTimeInfo) (bWithOffset : Bool)
  | setTimeToSystem (bEnable : Bool)
  | getSeconds (bWithOffset : Bool)
  | advance (ns : Nat)

namespace UserClock

/-- One call, or some nanoseconds that pass. -/
def step (libc : Libc) (s : UserClock) : Act → UserClock
  | .setDateTime info bWithOffset =>
      match hiTimeSetDateTime libc s.clocks s.priv info bWithOffset with
      | .error _ => s
      | .ok (c, d) => ⟨c, d, some ⟨d.s32UserSeconds, c, d.bModifyTDTStime⟩⟩
  | .setTimeToSystem bEnable => { s with priv := hiTimeSetTimeToSystem s.priv bEnable }
  | .getSeconds _ => s
  | .advance ns => { s with clocks := s.clocks.advance ns }

/-- The runs from `HI_TIME_Init`, at any time of both clocks. -/
def machine (libc : Libc) : Machine UserClock Act where
  init s := s.priv = hiTimeInit ∧ s.setting = none
  step s a := some (s.step libc a)

/-- The nanoseconds since the setting. -/
def elapsed (s : UserClock) (b : Setting) : Int :=
  s.clocks.monotonic - b.clocks.monotonic

/-- `HI_TIME_GetSeconds` returns the seconds that were set and those elapsed since, up
to one second. -/
def Steady (libc : Libc) (s : UserClock) : Prop :=
  ∀ b, s.setting = some b → 0 < b.seconds →
    ∃ seconds, hiTimeGetSeconds libc s.clocks s.priv false = (hiSuccess, seconds) ∧
      |seconds * 10 ^ 9 - (b.seconds * 10 ^ 9 + s.elapsed b)| < 10 ^ 9

/-- `HI_TIME_GetSeconds` reads the clock that `HI_TIME_SetDateTime` read, the millisecond
count has stayed on its side of its sign, and the time to return is a `HI_S32`. -/
structure InStep (s : UserClock) (b : Setting) : Prop where
  clock : s.priv.bModifyTDTStime = b.bModifyTDTStime
  period : b.bModifyTDTStime = false →
    s.clocks.monotonic / (2 ^ 31 * 10 ^ 6) = b.clocks.monotonic / (2 ^ 31 * 10 ^ 6)
  fits : b.seconds * 10 ^ 9 + s.elapsed b ≤ (2 ^ 31 - 1) * 10 ^ 9

/-- What a setting and the state agree on in every run. -/
structure Agrees (s : UserClock) (b : Setting) : Prop where
  user : s.priv.s32UserSeconds = b.seconds
  last : s.priv.s32LastSystemSeconds = b.clocks.systemTime b.bModifyTDTStime
  wall : b.bModifyTDTStime = true → b.clocks.realtime = b.seconds * 10 ^ 9
  passed : s.clocks.realtime - b.clocks.realtime = s.elapsed b
  forward : 0 ≤ s.elapsed b

/-! ## Readings of the clocks -/

theorem systemTime_true (c : Clocks) : c.systemTime true = toS32 (c.realtime / 10 ^ 9) :=
  rfl

theorem timeGetTimeNow_eq (c : Clocks) :
    c.timeGetTimeNow = c.monotonic / 10 ^ 6 % 2 ^ 32 := by
  simp only [Clocks.timeGetTimeNow, Clocks.clockGettime]
  omega

/-- Within one half of the period of the millisecond count the seconds read from it
follow the monotonic clock, up to one second: rounded down while the count is a positive
`HI_S32`, rounded up while it is a negative one. -/
theorem systemTime_false_bounds (half : Nat) :
    ∃ origin low : Int, ∀ c : Clocks, c.monotonic / (2 ^ 31 * 10 ^ 6) = half →
      low < c.systemTime false * 10 ^ 9 - (c.monotonic - origin) ∧
        c.systemTime false * 10 ^ 9 - (c.monotonic - origin) ≤ low + 10 ^ 9 := by
  rcases Nat.even_or_odd' half with ⟨k, rfl | rfl⟩
  · refine ⟨k * 2 ^ 32 * 10 ^ 6, -10 ^ 9, fun c hc => ?_⟩
    have hcount : toS32 c.timeGetTimeNow = c.monotonic / 10 ^ 6 - k * 2 ^ 32 := by
      rw [timeGetTimeNow_eq]
      unfold toS32
      omega
    have hpos : (0 : Int) ≤ c.monotonic / 10 ^ 6 - k * 2 ^ 32 := by omega
    have hread : c.systemTime false = (c.monotonic / 10 ^ 6 - k * 2 ^ 32 : Int) / 1000 := by
      rw [Clocks.systemTime, if_neg (by decide), hcount, Int.tdiv_eq_ediv_of_nonneg hpos]
    rw [hread]
    omega
  · refine ⟨(k + 1) * 2 ^ 32 * 10 ^ 6, -10 ^ 6, fun c hc => ?_⟩
    have hcount : toS32 c.timeGetTimeNow = c.monotonic / 10 ^ 6 - (k + 1) * 2 ^ 32 := by
      rw [timeGetTimeNow_eq]
      unfold toS32
      omega
    have hneg : (0 : Int) ≤ -(c.monotonic / 10 ^ 6 - (k + 1) * 2 ^ 32) := by omega
    have hread : c.systemTime false =
        -(-(c.monotonic / 10 ^ 6 - (k + 1) * 2 ^ 32 : Int) / 1000) := by
      rw [Clocks.systemTime, if_neg (by decide), hcount, ← Int.tdiv_eq_ediv_of_nonneg hneg,
        Int.neg_tdiv, neg_neg]
    rw [hread]
    omega

/-- In step, the clock has counted what has elapsed, up to one second. -/
theorem InStep.counted {s : UserClock} {b : Setting} (hin : s.InStep b) (hs : s.Agrees b)
    (hpos : 0 < b.seconds) :
    |(s.clocks.systemTime s.priv.bModifyTDTStime - s.priv.s32LastSystemSeconds) * 10 ^ 9
      - s.elapsed b| < 10 ^ 9 := by
  have hfits := hin.fits
  have hforward := hs.forward
  rw [hs.last, hin.clock, abs_lt]
  cases hclock : b.bModifyTDTStime with
  | true =>
      -- `stime` has set the wall clock to the seconds themselves
      have hwall := hs.wall hclock
      have hpassed := hs.passed
      have hbase : b.clocks.systemTime true = b.seconds := by
        rw [systemTime_true, hwall, Int.mul_ediv_cancel _ (by decide),
          toS32_eq_self (by omega) (by omega)]
      have hnow : s.clocks.systemTime true = b.seconds + s.elapsed b / 10 ^ 9 := by
        have hreal : s.clocks.realtime = b.seconds * 10 ^ 9 + s.elapsed b := by omega
        rw [systemTime_true, hreal, toS32_eq_self (by omega) (by omega)]
        omega
      rw [hbase, hnow]
      omega
  | false =>
      obtain ⟨origin, low, hbounds⟩ :=
        systemTime_false_bounds (b.clocks.monotonic / (2 ^ 31 * 10 ^ 6))
      obtain ⟨hlo, hhi⟩ := hbounds s.clocks (hin.period hclock)
      obtain ⟨hlo', hhi'⟩ := hbounds b.clocks rfl
      unfold elapsed
      omega

/-- `HI_TIME_GetSeconds` in step with the setting. -/
theorem InStep.steady (libc : Libc) {s : UserClock} {b : Setting} (hin : s.InStep b)
    (hs : s.Agrees b) (hpos : 0 < b.seconds) :
    ∃ seconds, hiTimeGetSeconds libc s.clocks s.priv false = (hiSuccess, seconds) ∧
      |seconds * 10 ^ 9 - (b.seconds * 10 ^ 9 + s.elapsed b)| < 10 ^ 9 := by
  have hcounted := abs_lt.mp (hin.counted hs hpos)
  have hfits := hin.fits
  have hforward := hs.forward
  set diff := s.clocks.systemTime s.priv.bModifyTDTStime - s.priv.s32LastSystemSeconds
  have hdiff : toS32 diff = diff := toS32_eq_self (by omega) (by omega)
  have hsum : toS32 (b.seconds + diff) = b.seconds + diff :=
    toS32_eq_self (by omega) (by omega)
  refine ⟨b.seconds + diff, ?_, ?_⟩
  · have huser : ¬ s.priv.s32UserSeconds ≤ 0 := by
      rw [hs.user]
      omega
    simp only [hiTimeGetSeconds, if_neg huser, Bool.false_eq_true, if_false]
    rw [hs.user, hdiff, hsum]
  · rw [abs_lt]
    omega

/-! ## Runs -/

/-- What a successful `HI_TIME_SetDateTime` leaves. -/
theorem hiTimeSetDateTime_spec {libc : Libc} {c c' : Clocks} {d d' : TimePrivData}
    {info : HiTimeInfo} {off : Bool}
    (hset : hiTimeSetDateTime libc c d info off = .ok (c', d')) :
    d'.s32LastSystemSeconds = c'.systemTime d'.bModifyTDTStime ∧
      (d'.bModifyTDTStime = true → c'.realtime = d'.s32UserSeconds * 10 ^ 9) := by
  unfold hiTimeSetDateTime at hset
  cases hsec : secondsToSet libc d info off with
  | error e => simp [hsec, bind, Except.bind] at hset
  | ok seconds =>
      simp only [hsec, bind, Except.bind, pure, Except.pure, Except.ok.injEq,
        Prod.mk.injEq] at hset
      obtain ⟨rfl, rfl⟩ := hset
      refine ⟨rfl, fun hclock => ?_⟩
      change d.bModifyTDTStime = true at hclock
      simp [hclock, Clocks.stime]

theorem Agrees.advance {s : UserClock} {b : Setting} (hs : s.Agrees b) (ns : Nat) :
    Agrees { s with clocks := s.clocks.advance ns } b := by
  have hpassed := hs.passed
  have hforward := hs.forward
  unfold elapsed at hpassed hforward
  constructor
  · exact hs.user
  · exact hs.last
  · exact hs.wall
  · simp only [elapsed, Clocks.advance]
    push_cast
    omega
  · simp only [elapsed, Clocks.advance]
    push_cast
    omega

/-- Every step keeps what the setting and the state agree on. -/
theorem agrees_step {libc : Libc} {s : UserClock} (a : Act)
    (hs : ∀ b, s.setting = some b → s.Agrees b) :
    ∀ b, (s.step libc a).setting = some b → (s.step libc a).Agrees b := by
  intro b hb
  cases a with
  | setDateTime info off =>
      cases hset : hiTimeSetDateTime libc s.clocks s.priv info off with
      | error e =>
          simp only [step, hset] at hb ⊢
          exact hs b hb
      | ok next =>
          obtain ⟨c, d⟩ := next
          simp only [step, hset, Option.some.injEq] at hb ⊢
          subst hb
          obtain ⟨hlast, hwall⟩ := hiTimeSetDateTime_spec hset
          exact ⟨rfl, hlast, hwall, by simp [elapsed], by simp [elapsed]⟩
  | setTimeToSystem bEnable =>
      obtain ⟨huser, hlast, hwall, hpassed, hforward⟩ := hs b hb
      exact ⟨huser, hlast, hwall, hpassed, hforward⟩
  | getSeconds off => exact hs b hb
  | advance ns => exact (hs b hb).advance ns

theorem agrees_of_reach {libc : Libc} {s : UserClock} (hreach : (machine libc).Reach s) :
    ∀ b, s.setting = some b → s.Agrees b := by
  refine hreach.invariant (I := fun s => ∀ b, s.setting = some b → s.Agrees b) ?_ ?_
  · rintro s ⟨-, hnone⟩ b hb
    rw [hnone] at hb
    cases hb
  · intro s a s' hs _ hstep
    obtain rfl := Option.some.inj hstep
    exact agrees_step a hs

/-- In every run, `HI_TIME_GetSeconds` is steady where it is in step with the setting. -/
theorem steady_of_inStep (libc : Libc) (s : UserClock) (hreach : (machine libc).Reach s)
    (hin : ∀ b, s.setting = some b → 0 < b.seconds → s.InStep b) : s.Steady libc := by
  intro b hb hpos
  exact (hin b hb hpos).steady libc (agrees_of_reach hreach b hb) hpos

/-- A C library for which the time to set is always second 1000000000. -/
def sampleLibc : Libc where
  mktime _ := 1000000000
  timezone := 0
  tzMinuteswest := 0

/-- `HI_TIME_SetDateTime` to second 1000000000 after 100 seconds of uptime, and half an
hour later. -/
def halfHourLater : UserClock where
  clocks := ⟨1000001800 * 10 ^ 9, 1900 * 10 ^ 9⟩
  priv := ⟨0, 0, 1000000000, 1000000000, true, true⟩
  setting := some ⟨1000000000, ⟨1000000000 * 10 ^ 9, 100 * 10 ^ 9⟩, true⟩

theorem halfHourLater_reach : (machine sampleLibc).Reach halfHourLater :=
  Machine.reach_of_run
    [.setDateTime ⟨0, 0, 0, 0, 0, 0, 0, 0⟩ false, .advance (1800 * 10 ^ 9)]
    (s := ⟨⟨0, 100 * 10 ^ 9⟩, hiTimeInit, none⟩) ⟨rfl, rfl⟩ (by rfl)

theorem halfHourLater_steady : halfHourLater.Steady sampleLibc := by
  apply steady_of_inStep sampleLibc _ halfHourLater_reach
  intro b hb _
  obtain rfl := Option.some.inj hb
  exact ⟨rfl, by decide, by decide⟩

/-- The same run with `HI_TIME_SetTimeToSystem(HI_FALSE)` at its end. -/
def toggled : UserClock :=
  halfHourLater.step sampleLibc (.setTimeToSystem false)

/-- After the toggle the 1900 seconds of uptime are returned. -/
theorem toggled_not_steady :
    (machine sampleLibc).Reach toggled ∧ ¬ toggled.Steady sampleLibc := by
  refine ⟨.step halfHourLater_reach trivial rfl, fun hsteady => ?_⟩
  obtain ⟨seconds, hget, hclose⟩ := hsteady _ rfl (by decide)
  have hvalue : seconds = 1900 := (congrArg Prod.snd hget).symm
  subst hvalue
  exact absurd hclose (by decide)

end UserClock
end Time
end AndroidLinux
