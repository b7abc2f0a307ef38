import AndroidLinux.Tz.Rules

/-!
# The table of a rule

`tzparse` of `tztime.c` makes two transitions for each year from 1970 on, until the first day of
the next year does not fit in `time_t`.  The transitions of that last year wrap around, and the
search of `localsub` is misled by them.

With rules of the form `Mm.w.d`, of which the start is two months or more before the end and not
in January, the others are in order, and `localsub` follows the rules up to 2036.
-/

namespace AndroidLinux
namespace Tz

open Lib Lib.Calendar
open Time (toS32)

/-- `TZ_MAX_TIMES`. -/
def tzMaxTimes : Nat := 1200

/-- The two rules of a zone, and the offsets, which are counted westwards. -/
structure ZoneRules where
  start : Rule
  stop : Rule
  stdoffset : Int
  dstoffset : Int

variable (z : ZoneRules)

/-- The transitions of a year. -/
def yearRules (janfirst year : Int) : List (Int × Nat) :=
  let starttime := transtime janfirst year z.start z.stdoffset
  let endtime := transtime janfirst year z.stop z.dstoffset
  if endtime < starttime then [(endtime, 1), (starttime, 0)] else [(starttime, 0), (endtime, 1)]

/-- The loop over the years. -/
def ruleLoop : Nat → Int → Int → Nat → List (Int × Nat)
  | 0, _, _, _ => []
  | passes + 1, year, janfirst, timecnt =>
      if timecnt + 2 ≤ tzMaxTimes then
        let newfirst := toS32 (janfirst + yearLengths (isleap year) * secsPerDay)
        yearRules z janfirst year ++
          if newfirst ≤ janfirst then [] else ruleLoop passes (year + 1) newfirst (timecnt + 2)
      else []

theorem yearRules_typed (janfirst year : Int) : ∀ p ∈ yearRules z janfirst year, p.2 < 2 := by
  unfold yearRules
  intro p hp
  dsimp only at hp
  split at hp
  · obtain rfl | rfl := List.mem_pair.mp hp <;> simp
  · obtain rfl | rfl := List.mem_pair.mp hp <;> simp

theorem ruleLoop_typed (passes : Nat) (year janfirst : Int) (timecnt : Nat) :
    ∀ p ∈ ruleLoop z passes year janfirst timecnt, p.2 < 2 := by
  induction passes generalizing year janfirst timecnt with
  | zero => simp [ruleLoop]
  | succ passes ih =>
      intro p hp
      rw [ruleLoop] at hp
      split at hp
      · rcases List.mem_append.mp hp with hp | hp
        · exact yearRules_typed z _ _ p hp
        · split at hp
          · cases hp
          · exact ih _ _ _ p hp
      · cases hp

/-- What `tzparse` makes of a zone with two rules, but for the leap seconds. -/
def ruleState : State where
  transitions := ruleLoop z tzMaxTimes 1970 0 0
  ttis := [⟨-z.dstoffset, 1⟩, ⟨-z.stdoffset, 0⟩]
  lsis := []
  lsisBefore := 0
  typed := ruleLoop_typed z _ _ _ _
  nonempty := List.cons_ne_nil _ _

/-- The leap seconds of a zone, and the correction that is read in front of the first one. -/
structure LeapSeconds where
  lsis : List LsInfo
  lsisBefore : Int

def State.leapSeconds (sp : State) : LeapSeconds := ⟨sp.lsis, sp.lsisBefore⟩

/-- A zone with the leap seconds of the default rules, if these have been loaded. -/
def State.withLeaps (sp : State) (defRules : Option LeapSeconds) : State :=
  { sp with
    lsis := (defRules.map LeapSeconds.lsis).getD []
    lsisBefore := (defRules.map LeapSeconds.lsisBefore).getD 0 }

theorem yearStart_2038 : yearStart 2038 = 24837 := by decide

theorem yearStart_year (y : Int) : yearStart y + yearLengths (isleap y) = yearStart (y + 1) := by
  rw [yearLengths_eq, yearStart_succ]

/-- The loop comes to the year 2038 and ends there. -/
theorem ruleLoop_eq (n : Nat) (hn : n ≤ 68) (passes timecnt : Nat) (hpasses : n < passes)
    (htimecnt : timecnt + 2 * n + 2 ≤ tzMaxTimes) :
    ruleLoop z passes (2038 - n) (86400 * yearStart (2038 - n)) timecnt =
      (List.range (n + 1)).flatMap fun i : Nat =>
        yearRules z (86400 * yearStart (2038 - n + i)) (2038 - n + i) := by
  induction n generalizing passes timecnt with
  | zero =>
      obtain ⟨passes, rfl⟩ := Nat.exists_eq_succ_of_ne_zero (Nat.ne_of_gt hpasses)
      rw [ruleLoop, if_pos (by omega)]
      dsimp only
      rw [if_pos (by decide)]
      simp
  | succ n ih =>
      obtain ⟨passes, rfl⟩ := Nat.exists_eq_succ_of_ne_zero (show passes ≠ 0 by omega)
      have hyear : (2038 : Int) - (n + 1 : Nat) + 1 = 2038 - n := by omega
      have hstart := yearStart_year (2038 - (n + 1 : Nat))
      rw [hyear] at hstart
      have hbehind := yearStart_le (show (2038 : Int) - n ≤ 2038 by omega)
      have hbefore := yearStart_le (show (1970 : Int) ≤ 2038 - n by omega)
      have hlen := yearLength_pos (2038 - (n + 1 : Nat))
      rw [yearStart_2038] at hbehind
      rw [yearStart_epoch] at hbefore
      rw [yearLengths_eq] at hstart
      have hnew : toS32 (86400 * yearStart (2038 - (n + 1 : Nat)) +
          yearLengths (isleap (2038 - (n + 1 : Nat))) * secsPerDay) =
            86400 * yearStart (2038 - n) := by
        rw [yearLengths_eq]
        unfold secsPerDay
        rw [Time.toS32_eq_self (by omega) (by omega)]
        omega
      rw [ruleLoop, if_pos (by omega)]
      dsimp only
      rw [hnew, if_neg (by omega), hyear, ih (by omega) passes (timecnt + 2) (by omega) (by omega),
        List.range_succ_eq_map (n := n + 1), List.flatMap_cons, List.flatMap_map, Nat.cast_zero,
        Int.add_zero, List.append_right_inj]
      refine List.flatMap_congr fun i _ => ?_
      rw [show (2038 : Int) - (n + 1 : Nat) + (i.succ : Nat) = 2038 - n + i by omega]

theorem ruleState_transitions : (ruleState z).transitions =
    (List.range 69).flatMap fun i : Nat =>
      yearRules z (86400 * yearStart (1970 + i)) (1970 + i) :=
  ruleLoop_eq z 68 le_rfl tzMaxTimes 0 (by decide) (by decide)

/-! ## The instants of a rule -/

/-- When a rule takes effect, without the wrapping around of the code. -/
def Rule.instant (rule : Rule) (y offset : Int) : Int :=
  ruleDay (86400 * yearStart y) y rule + rule.time + offset

/-- The instants in order of time: the two of 1970, the two of 1971, and so on. -/
def tableTime (j : Nat) : Int :=
  if j % 2 = 0 then z.start.instant (1970 + (j / 2 : Nat)) z.stdoffset
  else z.stop.instant (1970 + (j / 2 : Nat)) z.dstoffset

/-- Daylight saving time starts and ends within each year, and only the instants of the year 2038
do not fit in `time_t`. -/
structure ZoneRules.Northern : Prop where
  mono : ∀ j, j < 137 → tableTime z j < tableTime z (j + 1)
  first : -2 ^ 31 ≤ tableTime z 0
  last : tableTime z 135 < 2 ^ 31
  behind : 2 ^ 31 ≤ tableTime z 136
  end_lt : tableTime z 137 < 2 ^ 32
  wraps : tableTime z 137 - 2 ^ 32 ≤ tableTime z 0

theorem flatMap_pairs {α : Type*} (a b : Nat → α) (n : Nat) :
    ((List.range n).flatMap fun i => [a i, b i]) =
      (List.range (2 * n)).map fun j => if j % 2 = 0 then a (j / 2) else b (j / 2) := by
  induction n with
  | zero => rfl
  | succ n ih =>
      rw [List.range_succ, List.flatMap_append, ih, Nat.mul_succ, List.range_succ, List.range_succ,
        List.map_append, List.map_append, List.append_assoc, List.flatMap_singleton]
      simp only [List.map_cons, List.map_nil, List.cons_append, List.nil_append,
        show 2 * n % 2 = 0 by omega, show (2 * n + 1) % 2 = 1 by omega,
        show 2 * n / 2 = n by omega, show (2 * n + 1) / 2 = n by omega, if_true, Nat.one_ne_zero,
        if_false]

variable {z} {t : Int}

theorem ZoneRules.Northern.mono_of_lt (h : z.Northern) {j k : Nat} (hjk : j < k) (hk : k < 138) :
    tableTime z j < tableTime z k := by
  induction k with
  | zero => omega
  | succ k ih =>
      have hstep := h.mono k (by omega)
      rcases Nat.lt_or_eq_of_le (Nat.le_of_lt_succ hjk) with hlt | rfl
      · exact (ih hlt (by omega)).trans hstep
      · exact hstep

theorem toS32_wrapped {x : Int} (hlo : 2 ^ 31 ≤ x) (hhi : x < 2 ^ 32) : toS32 x = x - 2 ^ 32 := by
  unfold toS32
  omega

/-- The order of the wrapped instants is that of the instants, in each year. -/
theorem ZoneRules.Northern.toS32_lt (h : z.Northern) {i : Nat} (hi : i < 69) :
    toS32 (tableTime z (2 * i)) < toS32 (tableTime z (2 * i + 1)) := by
  have hstep := h.mono (2 * i) (by omega)
  rcases Nat.lt_or_eq_of_le (Nat.le_of_lt_succ hi) with hlt | rfl
  · have hfirst : tableTime z 0 ≤ tableTime z (2 * i) := by
      rcases Nat.eq_zero_or_pos (2 * i) with hzero | hpos
      · rw [hzero]
      · exact (h.mono_of_lt hpos (by omega)).le
    have hlast : tableTime z (2 * i + 1) ≤ tableTime z 135 := by
      rcases Nat.lt_or_eq_of_le (show 2 * i + 1 ≤ 135 by omega) with hlt | heq
      · exact (h.mono_of_lt hlt (by omega)).le
      · rw [heq]
    have hlow := h.first
    have hhigh := h.last
    rw [Time.toS32_eq_self (by omega) (by omega), Time.toS32_eq_self (by omega) (by omega)]
    exact hstep
  · have hlow : 2 ^ 31 ≤ tableTime z (2 * 68) := h.behind
    have hhigh : tableTime z (2 * 68 + 1) < 2 ^ 32 := h.end_lt
    rw [toS32_wrapped hlow (by omega), toS32_wrapped (by omega) hhigh]
    omega

theorem ZoneRules.Northern.transitions (h : z.Northern) : (ruleState z).transitions =
    (List.range 138).map fun j => (toS32 (tableTime z j), j % 2) := by
  have hpairs := flatMap_pairs (fun i => (toS32 (tableTime z (2 * i)), 0))
    (fun i => (toS32 (tableTime z (2 * i + 1)), 1)) 69
  rw [ruleState_transitions]
  trans (List.range 69).flatMap fun i =>
    [(toS32 (tableTime z (2 * i)), 0), (toS32 (tableTime z (2 * i + 1)), 1)]
  · refine List.flatMap_congr fun i hi => ?_
    have hlt := h.toS32_lt (List.mem_range.mp hi)
    have hstart : tableTime z (2 * i) = z.start.instant (1970 + i) z.stdoffset := by
      unfold tableTime
      rw [if_pos (by omega), show 2 * i / 2 = i by omega]
    have hstop : tableTime z (2 * i + 1) = z.stop.instant (1970 + i) z.dstoffset := by
      unfold tableTime
      rw [if_neg (by omega), show (2 * i + 1) / 2 = i by omega]
    rw [hstart, hstop] at hlt ⊢
    unfold yearRules
    dsimp only
    exact if_neg (Int.not_lt.mpr hlt.le)
  · rw [hpairs]
    refine List.map_congr_left fun j _ => ?_
    split
    next heven => rw [show 2 * (j / 2) = j by omega, heven]
    next hodd => rw [show 2 * (j / 2) + 1 = j by omega, show j % 2 = 1 by omega]

theorem ZoneRules.Northern.getElem? (h : z.Northern) {j : Nat} (hj : j < 138) :
    (ruleState z).transitions[j]? = some (toS32 (tableTime z j), j % 2) := by
  rw [h.transitions, List.getElem?_map, List.getElem?_range hj, Option.map_some]

/-! ## The search in the table -/

/-- The search for the first place that is later, which sees the times only through a test. -/
def bisect (later : Nat → Bool) : Nat → Nat → Nat → Option Nat
  | 0, _, _ => none
  | passes + 1, lo, hi =>
      if lo < hi then
        let mid := (lo + hi) >>> 1
        if later mid = true then bisect later passes lo mid else bisect later passes (mid + 1) hi
      else some lo

theorem transitionLoop_eq_bisect {transitions : List (Int × Nat)} {later : Nat → Bool}
    (passes lo hi : Nat)
    (h : ∀ i < hi, ∃ p, transitions[i]? = some p ∧ (t < p.1 ↔ later i = true)) :
    transitionLoop transitions t passes lo hi = bisect later passes lo hi := by
  induction passes generalizing lo hi with
  | zero => rfl
  | succ passes ih =>
      rw [transitionLoop, bisect]
      split
      next hlt =>
        have hmid : (lo + hi) >>> 1 < hi := by
          rw [Nat.shiftRight_eq_div_pow]
          omega
        obtain ⟨p, hget, hiff⟩ := h _ hmid
        dsimp only
        rw [hget]
        dsimp only
        simp only [hiff]
        rw [ih lo _ fun i hi' => h i (by omega), ih _ hi h]
      next => rfl

/-- In a table whose first 136 times are in order and whose last two are the earliest, the
search finds its way unless the time is later than the first time of the last year in order. -/
theorem bisect_table : ∀ k < 137, 1 ≤ k →
    bisect (fun i => decide (k ≤ i) && decide (i < 136)) 139 1 138 =
      some (if k ≤ 134 then k else 138) := by
  decide +kernel

theorem exists_threshold {f : Nat → Int} (n : Nat)
    (hmono : ∀ j k, j < k → k < n → f j < f k) : ∃ k ≤ n, ∀ j < n, (t < f j ↔ k ≤ j) := by
  induction n with
  | zero => exact ⟨0, le_rfl, fun j hj => absurd hj (Nat.not_lt_zero j)⟩
  | succ n ih =>
      obtain ⟨k, hk, hiff⟩ := ih fun j k hjk hkn => hmono j k hjk (by omega)
      by_cases hlast : t < f n
      · refine ⟨k, by omega, fun j hj => ?_⟩
        rcases Nat.lt_or_eq_of_le (Nat.le_of_lt_succ hj) with hlt | rfl
        · exact hiff j hlt
        · exact iff_of_true hlast hk
      · refine ⟨n + 1, le_rfl, fun j hj => iff_of_false (fun hlt => ?_) (by omega)⟩
        rcases Nat.lt_or_eq_of_le (Nat.le_of_lt_succ hj) with hless | rfl
        · have hstep := hmono j n hless (Nat.lt_succ_self n)
          omega
        · exact hlast hlt

/-! ## The type in force -/

/-- Daylight saving time up to the year 2036. -/
def ZoneRules.Summer (z : ZoneRules) (t : Int) : Prop :=
  ∃ i < 67, tableTime z (2 * i) ≤ t ∧ t < tableTime z (2 * i + 1)

theorem standardLoop_rules : standardLoop (ruleState z).ttis (ruleState z).ttis.length 0 = 1 :=
  rfl

theorem ZoneRules.Northern.bounds (h : z.Northern) {j : Nat} (hj : j < 136) :
    -2 ^ 31 ≤ tableTime z j ∧ tableTime z j < 2 ^ 31 := by
  have hlow := h.first
  have hhigh := h.last
  have hfirst : tableTime z 0 ≤ tableTime z j := by
    rcases Nat.eq_zero_or_pos j with rfl | hpos
    · exact le_rfl
    · exact (h.mono_of_lt hpos (by omega)).le
  have hlast : tableTime z j ≤ tableTime z 135 := by
    rcases Nat.lt_or_eq_of_le (Nat.le_of_lt_succ hj) with hlt | rfl
    · exact (h.mono_of_lt hlt (by decide)).le
    · exact le_rfl
  omega

/-- What the search sees of the table: the two instants that have wrapped around are earlier than
all the others. -/
theorem ZoneRules.Northern.later_iff (h : z.Northern) {k : Nat}
    (hiff : ∀ j < 136, (t < tableTime z j ↔ k ≤ j)) (hk : k ≠ 0) {j : Nat} (hj : j < 138) :
    t < toS32 (tableTime z j) ↔ (decide (k ≤ j) && decide (j < 136)) = true := by
  rw [Bool.and_eq_true, decide_eq_true_iff, decide_eq_true_iff]
  by_cases hfits : j < 136
  · have hbounds := h.bounds hfits
    rw [Time.toS32_eq_self hbounds.1 hbounds.2, hiff j hfits]
    exact ⟨fun hle => ⟨hle, hfits⟩, And.left⟩
  · have hbehind := h.behind
    have hend := h.end_lt
    have hstep : tableTime z 136 < tableTime z 137 := h.mono 136 (by decide)
    have hstart := hiff 0 (by decide)
    have hwraps := h.wraps
    obtain rfl | rfl : j = 136 ∨ j = 137 := by omega
    · rw [toS32_wrapped hbehind (by omega)]
      omega
    · rw [toS32_wrapped (by omega) hend]
      omega

/-- The search ends at the number of the times that are not later, or behind the table. -/
theorem ZoneRules.Northern.typeAt (h : z.Northern) {k : Nat} (hk : k ≤ 136)
    (hiff : ∀ j < 136, (t < tableTime z j ↔ k ≤ j)) :
    typeAt (ruleState z) t = some (if k = 0 ∨ 134 < k then 1 else (k - 1) % 2) := by
  have hlength : (ruleState z).transitions.length = 138 := by
    rw [h.transitions, List.length_map, List.length_range]
  have hfirst := h.getElem? (j := 0) (by decide)
  have hbounds := h.bounds (j := 0) (by decide)
  have hstart := hiff 0 (by decide)
  unfold Tz.typeAt
  rw [hlength]
  cases htrans : (ruleState z).transitions with
  | nil =>
      rw [htrans] at hfirst
      cases hfirst
  | cons first rest =>
      rw [htrans] at hfirst
      obtain rfl := Option.some.inj hfirst
      dsimp only
      rw [← htrans, Time.toS32_eq_self hbounds.1 hbounds.2]
      by_cases hzero : k = 0
      · rw [if_pos (by omega), if_pos (.inl hzero), standardLoop_rules]
      · rw [if_neg (by omega), transitionLoop_eq_bisect 139 1 138 fun j hj =>
          ⟨_, h.getElem? hj, h.later_iff hiff hzero hj⟩,
          bisect_table k (by omega) (Nat.pos_of_ne_zero hzero)]
        simp only [Option.bind_eq_bind, Option.bind_some, Option.pure_def]
        by_cases hend : k ≤ 134
        · rw [if_pos hend, h.getElem? (by omega), if_neg (by omega)]
          rfl
        · rw [if_neg hend, h.getElem? (by omega), if_pos (by omega)]
          rfl

theorem zone_of_typeAt {i : Nat} {tt : TtInfo} (htype : typeAt (ruleState z) t = some i)
    (hget : (ruleState z).ttis[i]? = some tt) : (ruleState z).zone t = tt := by
  unfold State.zone
  rw [htype, Option.bind_some, hget, Option.getD_some]

/-- Daylight saving time is in force from the start to the end of each year up to 2036, and
never later. -/
theorem ZoneRules.Northern.zone (h : z.Northern) (t : Int) :
    (z.Summer t → (ruleState z).zone t = ⟨-z.dstoffset, 1⟩) ∧
      (¬ z.Summer t → (ruleState z).zone t = ⟨-z.stdoffset, 0⟩) := by
  obtain ⟨k, hk, hiff⟩ := exists_threshold (t := t) (f := tableTime z) 136
    fun j k hjk hk => h.mono_of_lt hjk (by omega)
  have htype := h.typeAt hk hiff
  constructor
  · rintro ⟨i, hi, hstart, hstop⟩
    have hbefore := hiff (2 * i) (by omega)
    have hbehind := hiff (2 * i + 1) (by omega)
    rw [if_neg (by omega), show (k - 1) % 2 = 0 by omega] at htype
    exact zone_of_typeAt htype rfl
  · intro hwinter
    have hone : (if k = 0 ∨ 134 < k then 1 else (k - 1) % 2) = 1 := by
      split
      next => rfl
      next hmid =>
        by_contra heven
        have hbefore := hiff (k - 1) (by omega)
        have hbehind := hiff k (by omega)
        refine hwinter ⟨(k - 1) / 2, by omega, ?_, ?_⟩
        · rw [show 2 * ((k - 1) / 2) = k - 1 by omega]
          omega
        · rw [show 2 * ((k - 1) / 2) + 1 = k by omega]
          omega
    rw [hone] at htype
    exact zone_of_typeAt htype rfl

/-! ## Local time by two rules -/

/-- Two rules by months, and offsets that `getoffset` lets through, or an hour less. -/
structure ZoneRules.Yearly (z : ZoneRules) : Prop where
  start : z.start.Valid ∧ z.start.type = .monthNthDayOfWeek
  stop : z.stop.Valid ∧ z.stop.type = .monthNthDayOfWeek
  months : 2 ≤ z.start.mon ∧ z.start.mon + 2 ≤ z.stop.mon
  stdoffset : z.stdoffset.natAbs ≤ 608400
  dstoffset : z.dstoffset.natAbs ≤ 608400

/-- The rules that the source falls back on, with five hours west. -/
def fallbackRules : ZoneRules where
  start := ⟨.monthNthDayOfWeek, 0, 1, 4, 7200⟩
  stop := ⟨.monthNthDayOfWeek, 0, 5, 10, 7200⟩
  stdoffset := 18000
  dstoffset := 14400

theorem fallbackRules_yearly : fallbackRules.Yearly where
  start := ⟨⟨nofun, nofun, fun _ => by decide, by decide⟩, rfl⟩
  stop := ⟨⟨nofun, nofun, fun _ => by decide, by decide⟩, rfl⟩
  months := by decide
  stdoffset := by decide
  dstoffset := by decide

end Tz
end AndroidLinux
