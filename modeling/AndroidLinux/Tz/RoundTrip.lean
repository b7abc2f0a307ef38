import AndroidLinux.Lib.Bisect
import AndroidLinux.Tz.MakeTime
import AndroidLinux.Tz.Zone

/-!
# `mktime` and `localtime`

The search of `time2sub` needs no monotone clock: it finds a time that shows the fields when no
change of the zone skips them.  What it finds it has checked.
-/

namespace AndroidLinux
namespace Tz

open Lib Lib.Calendar
open Time (toS32)

/-! ## The search -/

theorem searchLoop_sound {dir : Int → Int} (passes : Nat) {lo hi t : Int} (hle : lo ≤ hi)
    (h : searchLoop dir passes lo hi = some t) : dir t = 0 ∧ lo ≤ t ∧ t ≤ hi := by
  induction passes generalizing lo hi with
  | zero => cases h
  | succ passes ih =>
      rw [searchLoop] at h
      obtain ⟨mid, hmid, hlo, hhi⟩ : ∃ mid, (if lo.tdiv 2 + hi.tdiv 2 < lo then lo
          else if hi < lo.tdiv 2 + hi.tdiv 2 then hi else lo.tdiv 2 + hi.tdiv 2) = mid ∧
          lo ≤ mid ∧ mid ≤ hi := ⟨_, rfl, by split_ifs <;> omega, by split_ifs <;> omega⟩
      rw [hmid] at h
      by_cases hzero : dir mid = 0
      · rw [if_pos hzero] at h
        obtain rfl := Option.some.inj h
        exact ⟨hzero, hlo, hhi⟩
      rw [if_neg hzero] at h
      split_ifs at h
      all_goals
        obtain ⟨hdir, hlo', hhi'⟩ := ih (by omega) h
        exact ⟨hdir, by omega, by omega⟩

/-- Brackets are narrowed down to a zero. -/
theorem searchLoop_eq {dir : Int → Int} (passes : Nat) {lo hi : Int} (h : Brackets dir lo hi)
    (hmin : timeTMin ≤ lo) (hmax : hi ≤ timeTMax) (hpasses : hi - lo < passes) :
    ∃ t, searchLoop dir passes lo hi = some t := by
  induction passes generalizing lo hi with
  | zero =>
      have hle := h.le
      omega
  | succ passes ih =>
      rw [searchLoop]
      have hle := h.le
      obtain ⟨mid, hmid, hlo, hhi⟩ : ∃ mid, (if lo.tdiv 2 + hi.tdiv 2 < lo then lo
          else if hi < lo.tdiv 2 + hi.tdiv 2 then hi else lo.tdiv 2 + hi.tdiv 2) = mid ∧
          lo ≤ mid ∧ mid ≤ hi := ⟨_, rfl, by split_ifs <;> omega, by split_ifs <;> omega⟩
      rw [hmid]
      by_cases hzero : dir mid = 0
      · rw [if_pos hzero]
        exact ⟨mid, rfl⟩
      rw [if_neg hzero]
      by_cases hfirst : mid = lo
      · -- the lower end shows too little
        subst hfirst
        have hbelow := h.below
        obtain ⟨hlt, hnext⟩ := h.lo_succ (by omega)
        rw [if_pos rfl, if_neg (by omega), if_neg (by omega), if_neg (by omega)]
        exact ih hnext (by omega) hmax (by omega)
      rw [if_neg hfirst]
      by_cases hlast : mid = hi
      · -- the upper end shows too much
        subst hlast
        have habove := h.above
        obtain ⟨hlt, hprev⟩ := h.hi_pred (by omega)
        rw [if_pos rfl, if_neg (by omega), if_neg (by omega), if_pos (by omega)]
        exact ih hprev hmin (by omega) (by omega)
      rw [if_neg hlast]
      by_cases hpos : 0 < dir mid
      · rw [if_pos hpos]
        exact ih (h.left hlo hhi hpos.le) hmin (by omega) (by omega)
      · rw [if_neg hpos]
        exact ih (h.right hlo hhi (by omega)) (by omega) hmax (by omega)

/-! ## Zones without leap seconds -/

/-- The zone has no leap seconds, and its offsets are at most `B` seconds. -/
structure State.Within (sp : State) (B : Nat) : Prop where
  lsis : sp.lsis = []
  offsets : ∀ tt ∈ sp.ttis, tt.gmtoff.natAbs ≤ B
  room : B + 86400 ≤ 2 ^ 31

/-- The second that the clocks of the zone show. -/
def State.clock (sp : State) (t : Int) : Int := t + (sp.zone t).gmtoff

variable {sp : State} {B : Nat} {t : Int}

theorem State.Within.leap (h : sp.Within B) (t : Int) : sp.leap t = (0, 0) := by
  unfold State.leap
  rw [h.lsis]
  rfl

theorem State.Within.localsub (h : sp.Within B) (tmp : Tm) (hlo : -2 ^ 31 ≤ t)
    (hhi : t < 2 ^ 31) :
    ∃ tm, localsub t tmp sp = some tm ∧ tm.Shown 0 ∧ tm.seconds = sp.clock t ∧
      tm.isdst = (sp.zone t).isdst := by
  have hoffset := h.offsets _ (sp.zone_mem t)
  have hroom := h.room
  obtain ⟨tm, heq, hshown, hseconds, hisdst, -⟩ :=
    localsub_eq sp tmp hlo hhi (by rw [h.leap]; dsimp only; omega)
  rw [h.leap] at hshown hseconds
  dsimp only at hseconds
  exact ⟨tm, heq, hshown, by rw [hseconds, State.clock]; omega, hisdst⟩

/-- Which way the search goes. -/
theorem State.Within.direction (h : sp.Within B) {yourtm : Tm} (hyour : yourtm.Regular)
    (hlo : -2 ^ 31 ≤ t) (hhi : t < 2 ^ 31) :
    (direction sp yourtm t < 0 ↔ sp.clock t < yourtm.seconds) ∧
      (0 < direction sp yourtm t ↔ yourtm.seconds < sp.clock t) := by
  obtain ⟨tm, heq, hshown, hseconds, -⟩ := h.localsub .zero hlo hhi
  unfold Tz.direction
  rw [heq, ← hseconds]
  exact ⟨tmcomp_neg_iff hshown.regular hyour, tmcomp_pos_iff hshown.regular hyour⟩

/-- The clocks never step over a second on their way up. -/
def State.NeverSkips (sp : State) (v : Int) : Prop :=
  ∀ t, -2 ^ 31 ≤ t → t < 2 ^ 31 - 1 → sp.clock t < v → sp.clock (t + 1) ≤ v

/-- The second is shown between the ends of time. -/
def State.Inside (sp : State) (v : Int) : Prop :=
  sp.clock (-2 ^ 31) ≤ v ∧ v ≤ sp.clock (2 ^ 31 - 1)

theorem State.Within.brackets (h : sp.Within B) {yourtm : Tm} (hyour : yourtm.Regular)
    (hinside : sp.Inside yourtm.seconds) (hskip : sp.NeverSkips yourtm.seconds) :
    Brackets (Tz.direction sp yourtm) timeTMin timeTMax where
  le := by decide
  below := by
    have hdir := h.direction hyour (t := timeTMin) (by decide) (by decide)
    have hfirst : sp.clock timeTMin ≤ yourtm.seconds := hinside.1
    omega
  above := by
    have hdir := h.direction hyour (t := timeTMax) (by decide) (by decide)
    have hlast : yourtm.seconds ≤ sp.clock timeTMax := hinside.2
    omega
  noSkip t hlo hhi hneg := by
    unfold timeTMin timeTMax at *
    have hdir := h.direction hyour (t := t) (by omega) (by omega)
    have hnext := h.direction hyour (t := t + 1) (by omega) (by omega)
    have hstep := hskip t (by omega) (by omega) (hdir.1.mp hneg)
    omega

theorem search_sound {dir : Int → Int} (h : search dir = some t) :
    dir t = 0 ∧ -2 ^ 31 ≤ t ∧ t < 2 ^ 31 := by
  obtain ⟨hzero, hlo, hhi⟩ := searchLoop_sound _ (by decide) h
  unfold timeTMin timeTMax at *
  exact ⟨hzero, hlo, by omega⟩

theorem State.Within.search (h : sp.Within B) {yourtm : Tm} (hyour : yourtm.Regular)
    (hinside : sp.Inside yourtm.seconds) (hskip : sp.NeverSkips yourtm.seconds) :
    ∃ t, search (Tz.direction sp yourtm) = some t :=
  searchLoop_eq _ (h.brackets hyour hinside hskip) le_rfl le_rfl (by decide)

/-! ## The type -/

theorem toS32_bounds (x : Int) : -2 ^ 31 ≤ toS32 x ∧ toS32 x < 2 ^ 31 := by
  unfold toS32
  omega

/-- A time that shows the fields in the type that is asked for. -/
structure State.Answers (sp : State) (yourtm : Tm) (t : Int) : Prop where
  lower : -2 ^ 31 ≤ t
  upper : t < 2 ^ 31
  clock : sp.clock t = yourtm.seconds
  isdst : yourtm.isdst < 0 ∨ (sp.zone t).isdst = yourtm.isdst

theorem State.Within.matchType (h : sp.Within B) {yourtm : Tm} (hyour : yourtm.Regular)
    (hlo : -2 ^ 31 ≤ t) (hhi : t < 2 ^ 31) :
    matchType sp yourtm t = if sp.clock t = yourtm.seconds ∧ (sp.zone t).isdst = yourtm.isdst
      then some t else none := by
  obtain ⟨tm, heq, hshown, hseconds, hisdst⟩ := h.localsub .zero hlo hhi
  unfold Tz.matchType
  rw [heq]
  simp only [tmcomp_eq_zero_iff hshown.regular hyour, hseconds, hisdst]

theorem State.Within.hunt_sound (h : sp.Within B) {yourtm : Tm} (hyour : yourtm.Regular)
    {newt : Int} (hhunt : hunt sp yourtm t = some newt) : sp.Answers yourtm newt := by
  unfold hunt at hhunt
  obtain ⟨ti, -, hti⟩ := List.exists_of_findSome?_eq_some hhunt
  split at hti
  · cases hti
  · obtain ⟨tj, -, htj⟩ := List.exists_of_findSome?_eq_some hti
    split at htj
    · cases htj
    · have hbounds := toS32_bounds (t + tj.gmtoff - ti.gmtoff)
      rw [h.matchType hyour hbounds.1 hbounds.2] at htj
      obtain ⟨hmatch, ⟨⟩⟩ := Option.ite_none_right_eq_some.mp htj
      exact ⟨hbounds.1, hbounds.2, hmatch.1, .inr hmatch.2⟩

/-- From a time that shows the fields in another type, the hunt comes to the right one. -/
theorem State.Within.hunt (h : sp.Within B) {yourtm : Tm} (hyour : yourtm.Regular) {t₀ : Int}
    (hclock : sp.clock t = yourtm.seconds) (hother : (sp.zone t).isdst ≠ yourtm.isdst)
    (hlo : -2 ^ 31 ≤ t₀) (hhi : t₀ < 2 ^ 31) (hclock₀ : sp.clock t₀ = yourtm.seconds)
    (hisdst : (sp.zone t₀).isdst = yourtm.isdst) : ∃ newt, hunt sp yourtm t = some newt := by
  have htime : toS32 (t + (sp.zone t).gmtoff - (sp.zone t₀).gmtoff) = t₀ := by
    unfold State.clock at hclock hclock₀
    rw [show t + (sp.zone t).gmtoff - (sp.zone t₀).gmtoff = t₀ by omega]
    exact Time.toS32_eq_self hlo hhi
  unfold Tz.hunt
  refine Option.isSome_iff_exists.mp (List.findSome?_isSome_iff.mpr
    ⟨sp.zone t₀, List.mem_reverse.mpr (sp.zone_mem t₀), ?_⟩)
  rw [if_neg (not_not_intro hisdst)]
  refine List.findSome?_isSome_iff.mpr ⟨sp.zone t, List.mem_reverse.mpr (sp.zone_mem t), ?_⟩
  rw [if_neg hother, htime, h.matchType hyour hlo hhi, if_pos ⟨hclock₀, hisdst⟩]
  rfl

theorem State.Within.findTime_sound (h : sp.Within B) {yourtm : Tm} (hyour : yourtm.Regular)
    (hfind : findTime sp yourtm = some t) : sp.Answers yourtm t := by
  unfold findTime at hfind
  obtain ⟨t₁, hsearch, hrest⟩ := Option.bind_eq_some_iff.mp hfind
  obtain ⟨hzero, hlo, hhi⟩ := search_sound hsearch
  obtain ⟨tm, heq, -, hseconds, hisdst⟩ := h.localsub .zero hlo hhi
  have hdir := h.direction hyour hlo hhi
  rw [heq] at hrest
  simp only [Option.bind_eq_bind, Option.bind_some, Option.pure_def] at hrest
  split at hrest
  next htype =>
    obtain rfl := Option.some.inj hrest
    exact ⟨hlo, hhi, by omega, hisdst ▸ htype⟩
  next htype => exact h.hunt_sound hyour hrest

/-- The search and the hunt find an answer when there is one and the clocks do not skip it. -/
theorem State.Within.findTime (h : sp.Within B) {yourtm : Tm} (hyour : yourtm.Regular)
    {t₀ : Int} (hanswer : sp.Answers yourtm t₀) (hinside : sp.Inside yourtm.seconds)
    (hskip : sp.NeverSkips yourtm.seconds) : ∃ t, findTime sp yourtm = some t := by
  obtain ⟨t, hsearch⟩ := h.search hyour hinside hskip
  obtain ⟨hzero, hlo, hhi⟩ := search_sound hsearch
  obtain ⟨tm, heq, -, hseconds, hisdst⟩ := h.localsub .zero hlo hhi
  have hdir := h.direction hyour hlo hhi
  unfold Tz.findTime
  rw [hsearch]
  simp only [Option.bind_eq_bind, Option.bind_some, heq, Option.pure_def]
  split
  next htype => exact ⟨t, rfl⟩
  next htype =>
    rw [not_or] at htype
    refine h.hunt hyour (by omega) (hisdst ▸ htype.2) hanswer.lower hanswer.upper hanswer.clock ?_
    exact hanswer.isdst.resolve_left htype.1

theorem State.Answers.congr {yourtm yourtm' : Tm} (h : sp.Answers yourtm t)
    (hseconds : yourtm'.seconds = yourtm.seconds) (hisdst : yourtm'.isdst = yourtm.isdst) :
    sp.Answers yourtm' t where
  lower := h.lower
  upper := h.upper
  clock := h.clock.trans hseconds.symm
  isdst := by rw [hisdst]; exact h.isdst

/-! ## `time2sub` and `time2` -/

/-- The last check of `time2sub` is that the sum does not wrap. -/
theorem add_of_check {t saved : Int} (hlo : -2 ^ 31 ≤ t) (hhi : t < 2 ^ 31)
    (hsaved : saved.natAbs < 2 ^ 30) :
    (decide (toS32 (t + saved) < t) != decide (saved < 0)) = true ↔
      t + saved < -2 ^ 31 ∨ 2 ^ 31 ≤ t + saved := by
  have hbounds := toS32_bounds (t + saved)
  rw [bne_iff_ne, ne_eq, decide_eq_decide]
  by_cases hfits : -2 ^ 31 ≤ t + saved ∧ t + saved < 2 ^ 31
  · rw [Time.toS32_eq_self hfits.1 hfits.2]
    omega
  · unfold toS32 at *
    omega

/-- What `time2sub` returns, it has found for the fields without the seconds put aside. -/
structure Found (sp : State) (tm : Tm) (t saved : Int) : Prop where
  lower : -2 ^ 31 ≤ t
  upper : t < 2 ^ 31
  answer : ∃ yourtm, sp.Answers yourtm (t - saved) ∧ yourtm.seconds + saved = tm.seconds ∧
    yourtm.isdst = tm.isdst

theorem State.Within.time2sub_sound (h : sp.Within B) {tm tm' : Tm} (hmod : tm.Moderate)
    {doNormSecs : Bool} (heq : time2sub tm doNormSecs sp = some (t, tm')) :
    Tz.localsub t tm sp = some tm' ∧ ∃ saved, Found sp tm t saved ∧
      (0 ≤ tm.sec ∧ tm.sec < 60 → saved = 0) := by
  obtain ⟨tm₁, hnorm, hnormal⟩ := normalized_eq doNormSecs hmod
  have hsec₁ : tm₁.sec.natAbs < 2 ^ 29 ∧
      (0 ≤ tm.sec ∧ tm.sec < 60 → 0 ≤ tm₁.sec ∧ tm₁.sec < 60) := by
    have hsec := hnormal.sec
    have hmodsec := hmod.sec
    cases doNormSecs with
    | false =>
        rw [if_neg Bool.false_ne_true] at hsec
        omega
    | true =>
        rw [if_pos rfl] at hsec
        omega
  obtain ⟨saved, tm₂, hsaved, hregular, hsum, hisdst, hsize, hzero⟩ :=
    savedSeconds_eq hnormal.dated hsec₁.1
  unfold time2sub at heq
  simp only [hnorm, hsaved, Option.bind_eq_bind, Option.bind_some] at heq
  obtain ⟨t₁, hfind, hrest⟩ := Option.bind_eq_some_iff.mp heq
  have hanswer := h.findTime_sound hregular hfind
  have hcheck := add_of_check hanswer.lower hanswer.upper hsize
  split at hrest
  · cases hrest
  next hok =>
    rw [hcheck, not_or] at hok
    rw [Time.toS32_eq_self (by omega) (by omega)] at hrest
    obtain ⟨tm₃, hlocal, hpair⟩ := Option.bind_eq_some_iff.mp hrest
    obtain ⟨rfl, rfl⟩ := Prod.mk.inj (Option.some.inj hpair)
    refine ⟨hlocal, saved, ⟨by omega, by omega, tm₂, ?_, ?_, ?_⟩, fun hin => ?_⟩
    · rw [Int.add_sub_cancel]
      exact hanswer
    · rw [hsum, hnormal.seconds]
    · rw [hisdst, hnormal.isdst]
    · exact (hzero (hsec₁.2 hin)).1

theorem State.Within.time2sub (h : sp.Within B) {tm : Tm} (hmod : tm.Moderate)
    {doNormSecs : Bool} (hsec : doNormSecs = true ∨ 0 ≤ tm.sec ∧ tm.sec < 60) {t₀ : Int}
    (hanswer : sp.Answers tm t₀) (hinside : sp.Inside tm.seconds)
    (hskip : sp.NeverSkips tm.seconds) : ∃ t tm', Tz.time2sub tm doNormSecs sp = some (t, tm') := by
  obtain ⟨tm₁, hnorm, hnormal⟩ := normalized_eq doNormSecs hmod
  have hsec₁ : 0 ≤ tm₁.sec ∧ tm₁.sec < 60 := by
    have hsec' := hnormal.sec
    cases doNormSecs with
    | false =>
        rw [if_neg Bool.false_ne_true] at hsec'
        have hin := hsec.resolve_left Bool.false_ne_true
        omega
    | true => rwa [if_pos rfl] at hsec'
  have hregular : tm₁.Regular := { hnormal.dated with sec := hsec₁ }
  have hsaved : savedSeconds tm₁ = some (0, tm₁) := if_pos hsec₁
  obtain ⟨t, hfind⟩ := h.findTime hregular (hanswer.congr hnormal.seconds hnormal.isdst)
    (by rw [hnormal.seconds]; exact hinside) (by rw [hnormal.seconds]; exact hskip)
  have hfound := h.findTime_sound hregular hfind
  have htime := Time.toS32_eq_self hfound.lower hfound.upper
  obtain ⟨tm', hlocal, -⟩ := h.localsub tm hfound.lower hfound.upper
  refine ⟨t, tm', ?_⟩
  unfold Tz.time2sub
  simp only [hnorm, hsaved, hfind, Option.bind_eq_bind, Option.bind_some, Int.add_zero, htime,
    lt_irrefl, bne_self_eq_false, Bool.false_eq_true, if_false, hlocal, Option.pure_def]

/-- What `time2` answers shows the fields that were asked for, in the type that was asked for. -/
theorem State.Within.time2_sound (hwithin : sp.Within B) {tm tm' : Tm} (hmod : tm.Moderate)
    (hsec : 0 ≤ tm.sec ∧ tm.sec < 60) (heq : Tz.time2 tm sp = some (t, tm')) :
    sp.Answers tm t ∧ Tz.localsub t tm sp = some tm' := by
  have hboth : ∃ doNormSecs, Tz.time2sub tm doNormSecs sp = some (t, tm') := by
    unfold Tz.time2 at heq
    split at heq
    next r hfirst => exact ⟨false, hfirst.trans heq⟩
    next => exact ⟨true, heq⟩
  obtain ⟨doNormSecs, hsub⟩ := hboth
  obtain ⟨hlocal, saved, hfound, hzero⟩ := hwithin.time2sub_sound hmod hsub
  obtain ⟨yourtm, hanswer, hsum, hisdst⟩ := hfound.answer
  rw [hzero hsec, Int.sub_zero] at hanswer
  rw [hzero hsec, Int.add_zero] at hsum
  exact ⟨hanswer.congr hsum.symm hisdst.symm, hlocal⟩

theorem State.Within.time2 (h : sp.Within B) {tm : Tm} (hmod : tm.Moderate)
    (hsec : 0 ≤ tm.sec ∧ tm.sec < 60) {t₀ : Int} (hanswer : sp.Answers tm t₀)
    (hinside : sp.Inside tm.seconds) (hskip : sp.NeverSkips tm.seconds) :
    ∃ t tm', Tz.time2 tm sp = some (t, tm') := by
  obtain ⟨t, tm', hsub⟩ : ∃ t tm', Tz.time2sub tm false sp = some (t, tm') :=
    h.time2sub hmod (.inr hsec) hanswer hinside hskip
  refine ⟨t, tm', ?_⟩
  unfold Tz.time2
  rw [hsub]

/-- `time2` answers exactly when there is an answer that the clocks do not step over, and
answers nothing else. -/
theorem time2_exact (hwithin : sp.Within B) {tm : Tm} (hmod : tm.Moderate)
    (hsec : 0 ≤ tm.sec ∧ tm.sec < 60) (hinside : sp.Inside tm.seconds)
    (hskip : sp.NeverSkips tm.seconds) :
    ((∃ r, time2 tm sp = some r) ↔ ∃ t, sp.Answers tm t) ∧
      ∀ t tm', time2 tm sp = some (t, tm') →
        sp.Answers tm t ∧ localsub t tm sp = some tm' := by
  have hsound {t : Int} {tm' : Tm} (heq : time2 tm sp = some (t, tm')) :=
    hwithin.time2_sound hmod hsec heq
  refine ⟨⟨fun ⟨(t, tm'), heq⟩ => ⟨t, (hsound heq).1⟩, fun ⟨t₀, hanswer⟩ => ?_⟩,
    fun t tm' heq => hsound heq⟩
  obtain ⟨t, tm', heq⟩ := hwithin.time2 hmod hsec hanswer hinside hskip
  exact ⟨_, heq⟩

theorem oneSummer_within : oneSummer.Within 7200 where
  lsis := rfl
  offsets := by decide
  room := by decide

/-- Its clocks skip one hour in spring. -/
theorem oneSummer_neverSkips {v : Int} (h : v < 1332640800 ∨ 1332644400 ≤ v) :
    oneSummer.NeverSkips v := by
  intro t _ _
  unfold State.clock
  rw [oneSummer_zone, oneSummer_zone]
  split_ifs <;> dsimp only <;> omega

/-- Half past two after the summer, an hour that the clocks show twice. -/
theorem time2_exact_twice :
    ((∃ r, time2 ⟨0, 30, 2, 28, 9, 112, 0, 0, 0, 0⟩ oneSummer = some r) ↔
      ∃ t, oneSummer.Answers ⟨0, 30, 2, 28, 9, 112, 0, 0, 0, 0⟩ t) ∧
    ∀ t tm', time2 ⟨0, 30, 2, 28, 9, 112, 0, 0, 0, 0⟩ oneSummer = some (t, tm') →
      oneSummer.Answers ⟨0, 30, 2, 28, 9, 112, 0, 0, 0, 0⟩ t ∧
        localsub t ⟨0, 30, 2, 28, 9, 112, 0, 0, 0, 0⟩ oneSummer = some tm' :=
  time2_exact oneSummer_within
    ⟨by decide, by decide, by decide, by decide, by decide, by decide⟩ (by decide)
    ⟨by decide, by decide⟩ (oneSummer_neverSkips (by decide))

/-! ## `mktime` -/

theorem mktime_of_time2 {tm : Tm} (hisdst : tm.isdst ≤ 1) {r : Int × Tm}
    (h : time2 tm sp = some r) : mktime tm sp = some r := by
  unfold mktime time1
  rw [if_neg (by omega)]
  dsimp only
  rw [h]

/-- `mktime` returns an answer when there is one and the clocks do not step over it. -/
theorem State.Within.mktime (h : sp.Within B) {tm : Tm} (hmod : tm.Moderate)
    (hsec : 0 ≤ tm.sec ∧ tm.sec < 60) (hisdst : tm.isdst ≤ 1) {t₀ : Int}
    (hanswer : sp.Answers tm t₀) (hinside : sp.Inside tm.seconds)
    (hskip : sp.NeverSkips tm.seconds) :
    ∃ t tm', Tz.mktime tm sp = some (t, tm') ∧ sp.Answers tm t ∧
      Tz.localsub t tm sp = some tm' := by
  obtain ⟨t, tm', htime⟩ := h.time2 hmod hsec hanswer hinside hskip
  exact ⟨t, tm', mktime_of_time2 hisdst htime, h.time2_sound hmod hsec htime⟩

/-- A second is shown by one set of fields only. -/
theorem Tm.Shown.unique {a b : Tm} (ha : a.Shown 0) (hb : b.Shown 0)
    (hseconds : a.seconds = b.seconds) (hisdst : a.isdst = b.isdst) :
    { a with gmtoff := b.gmtoff } = b := by
  obtain ⟨hyear, hmon, hmday, hhour, hmin, hsec⟩ :=
    (tmcomp_sound ha.regular hb.regular).2.2
      ((tmcomp_eq_zero_iff ha.regular hb.regular).mpr hseconds)
  have hday : a.day = b.day := by
    unfold Tm.day
    rw [hyear, hmon, hmday]
  have hyday : a.yday = b.yday := by
    have h₁ := ha.yday
    have h₂ := hb.yday
    rw [hyear, hday] at h₁
    omega
  have hwday : a.wday = b.wday := by rw [ha.wday, hb.wday, hday]
  cases a
  cases b
  simp only [Tm.mk.injEq] at *
  exact ⟨hsec, hmin, hhour, hmday, hmon, hyear, hwday, hyday, hisdst, trivial⟩

/-- What is shown of a time that is not too extreme can be given to `mktime`. -/
theorem Tm.Shown.moderate {tm : Tm} (h : tm.Shown 0) (hlo : -2 ^ 40 ≤ tm.seconds)
    (hhi : tm.seconds ≤ 2 ^ 40) : tm.Moderate := by
  have hmon := h.mon
  have hmday := h.mday
  have hhour := h.hour
  have hmin := h.min
  have hsec := h.sec
  have hlen := monthLength_bounds (isLeap (tm.year + 1900)) (m := tm.mon.toNat) (by omega)
  have hyear : tm.year.natAbs < 2 ^ 29 := by
    have hday := h.regular.toDated.day_eq
    have hmonth := monthDay_bounds (tm.year + 1900) (m := tm.mon.toNat) (by omega)
    have hyearlen := yearLength_pos (tm.year + 1900)
    have hepoch := yearStart_epoch
    unfold Tm.seconds at hlo hhi
    rcases Int.le_total 1970 (tm.year + 1900) with hle | hle
    · have hstart := yearStart_le hle
      omega
    · have hstart := yearStart_le hle
      omega
  exact ⟨by omega, by omega, by omega, by omega, by omega, hyear⟩

/-- What `localtime` shows, `mktime` takes back to a time that shows the same; where the types
that agree about daylight saving time have one offset, that is the time itself. -/
theorem mktime_localsub (hwithin : sp.Within B)
    (hisdst : ∀ tt ∈ sp.ttis, tt.isdst = 0 ∨ tt.isdst = 1) {t₀ : Int}
    (hlo : -2 ^ 31 + 2 * B ≤ t₀) (hhi : t₀ + 2 * B < 2 ^ 31)
    (hskip : sp.NeverSkips (sp.clock t₀)) {tmp tm₀ : Tm}
    (hlocal : localsub t₀ tmp sp = some tm₀) :
    ∃ t tm, mktime tm₀ sp = some (t, tm) ∧ { tm with gmtoff := tm₀.gmtoff } = tm₀ ∧
      ((∀ a ∈ sp.ttis, ∀ b ∈ sp.ttis, a.isdst = b.isdst → a.gmtoff = b.gmtoff) → t = t₀) := by
  obtain ⟨tm₁, heq, hshown₀, hseconds₀, htype₀⟩ :=
    hwithin.localsub tmp (t := t₀) (by omega) (by omega)
  obtain rfl : tm₁ = tm₀ := Option.some.inj (heq.symm.trans hlocal)
  have hoffset (t : Int) : (sp.zone t).gmtoff.natAbs ≤ B := hwithin.offsets _ (sp.zone_mem t)
  have hoffset₀ := hoffset t₀
  have hroom := hwithin.room
  have hdst := hisdst _ (sp.zone_mem t₀)
  have hclock₀ : sp.clock t₀ = t₀ + (sp.zone t₀).gmtoff := rfl
  have hinside : sp.Inside tm₁.seconds := by
    have hfirst := hoffset (-2 ^ 31)
    have hlast := hoffset (2 ^ 31 - 1)
    rw [hseconds₀]
    unfold State.Inside State.clock
    omega
  obtain ⟨t, tm, hmk, hanswer, hlocal'⟩ := hwithin.mktime
    (hshown₀.moderate (by omega) (by omega)) hshown₀.regular.sec (by omega)
    ⟨by omega, by omega, hseconds₀.symm, .inr htype₀.symm⟩ hinside (by rwa [hseconds₀])
  obtain ⟨tm₂, heq', hshown, hseconds, htype⟩ :=
    hwithin.localsub tm₁ hanswer.lower hanswer.upper
  obtain rfl : tm₂ = tm := Option.some.inj (heq'.symm.trans hlocal')
  have hsame : (sp.zone t).isdst = tm₁.isdst := hanswer.isdst.resolve_left (by omega)
  refine ⟨t, tm₂, hmk, ?_, fun hone => ?_⟩
  · exact hshown.unique hshown₀ (hseconds.trans hanswer.clock) (htype.trans hsame)
  · have hzones := hone _ (sp.zone_mem t) _ (sp.zone_mem t₀) (hsame.trans htype₀)
    have hclock := hanswer.clock
    rw [hseconds₀] at hclock
    unfold State.clock at hclock
    omega

theorem mktime_localsub_summer : ∃ t tm,
    mktime ⟨20, 13, 8, 18, 5, 112, 1, 169, 1, 7200⟩ oneSummer = some (t, tm) ∧
      { tm with gmtoff := 7200 } = (⟨20, 13, 8, 18, 5, 112, 1, 169, 1, 7200⟩ : Tm) ∧
      ((∀ a ∈ oneSummer.ttis, ∀ b ∈ oneSummer.ttis, a.isdst = b.isdst → a.gmtoff = b.gmtoff) →
        t = 1340000000) :=
  mktime_localsub oneSummer_within (by decide) (by decide) (by decide)
    (oneSummer_neverSkips (by decide)) (show localsub 1340000000 .zero oneSummer = _ by rfl)

/-! ## Zones without transitions -/

/-- The offset of a zone without transitions does not change. -/
theorem zone_of_fixed (hfixed : sp.transitions = []) (t t' : Int) : sp.zone t = sp.zone t' := by
  unfold State.zone typeAt
  rw [hfixed]

/-- Without transitions, `mktime` answers exactly the times that `time_t` can hold, however far
the fields are out of their ranges. -/
theorem mktime_fixed (hwithin : sp.Within B) (hfixed : sp.transitions = []) {tm : Tm}
    (hmod : tm.Moderate) (hisdst : tm.isdst < 0 ∨ tm.isdst = (sp.zone 0).isdst)
    (hdst : (sp.zone 0).isdst ≤ 1) :
    (mktime tm sp).map Prod.fst =
      if -2 ^ 31 ≤ tm.seconds - (sp.zone 0).gmtoff ∧ tm.seconds - (sp.zone 0).gmtoff < 2 ^ 31
      then some (tm.seconds - (sp.zone 0).gmtoff) else none := by
  have hclock (t : Int) : sp.clock t = t + (sp.zone 0).gmtoff := by
    rw [State.clock, zone_of_fixed hfixed t 0]
  have hsound {doNormSecs : Bool} {t : Int} {tm' : Tm}
      (heq : time2sub tm doNormSecs sp = some (t, tm')) :
      t = tm.seconds - (sp.zone 0).gmtoff ∧ -2 ^ 31 ≤ t ∧ t < 2 ^ 31 := by
    obtain ⟨-, saved, hfound, -⟩ := hwithin.time2sub_sound hmod heq
    obtain ⟨yourtm, hanswer, hsum, -⟩ := hfound.answer
    have hshown := hanswer.clock
    rw [hclock] at hshown
    exact ⟨by omega, hfound.lower, hfound.upper⟩
  have htime2 {t : Int} {tm' : Tm} (heq : time2 tm sp = some (t, tm')) :
      t = tm.seconds - (sp.zone 0).gmtoff ∧ -2 ^ 31 ≤ t ∧ t < 2 ^ 31 := by
    unfold time2 at heq
    split at heq
    next r hfirst => exact hsound (hfirst.trans heq)
    next => exact hsound heq
  split
  next hfits =>
    have hanswer : sp.Answers tm (tm.seconds - (sp.zone 0).gmtoff) :=
      ⟨hfits.1, hfits.2, by rw [hclock]; omega, by
        rw [zone_of_fixed hfixed _ 0]
        exact hisdst.imp_right Eq.symm⟩
    obtain ⟨t, tm', hsub⟩ := hwithin.time2sub hmod (.inl rfl) hanswer
      ⟨by rw [hclock]; omega, by rw [hclock]; omega⟩
      (fun t _ _ hlt => by rw [hclock] at hlt ⊢; omega)
    obtain ⟨r, htime⟩ : ∃ r, time2 tm sp = some r := by
      unfold time2
      cases hfirst : Tz.time2sub tm false sp with
      | none => exact ⟨_, hsub⟩
      | some r => exact ⟨r, rfl⟩
    obtain ⟨t', tm''⟩ := r
    rw [mktime_of_time2 (by omega) htime, Option.map_some, (htime2 htime).1]
  next hnot =>
    have hnone : time2 tm sp = none := by
      cases htime : time2 tm sp with
      | none => rfl
      | some r =>
          obtain ⟨t', tm''⟩ := r
          have hbounds := htime2 htime
          omega
    unfold mktime time1
    rw [if_neg (by omega), hfixed]
    dsimp only
    rw [hnone]
    rfl

/-- The zone without its summer. -/
def noSummer : State := { oneSummer with transitions := [], typed := by decide }

theorem noSummer_within : noSummer.Within 7200 where
  lsis := rfl
  offsets := by decide
  room := by decide

/-- The zeroth of March, fifty hours and ninety minutes on. -/
theorem mktime_fixed_days :
    (mktime ⟨-30, 90, 50, 0, 2, 112, 0, 0, -1, 0⟩ noSummer).map Prod.fst = some 1330655370 :=
  (mktime_fixed noSummer_within rfl
    ⟨by decide, by decide, by decide, by decide, by decide, by decide⟩ (.inl (by decide))
    (by decide)).trans (by decide)

end Tz
end AndroidLinux
