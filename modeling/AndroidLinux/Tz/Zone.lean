import AndroidLinux.Tz.Timesub

/-!
# The type in force

`localsub` uses the type of the last transition that is not later than the time; before the
first transition it is the first type that is not daylight saving time.
-/

namespace AndroidLinux
namespace Tz

open Lib Lib.Calendar

/-- The search ends between a transition that is not later than `t` and one that is. -/
theorem transitionLoop_eq (transitions : List (Int × Nat)) (t : Int) (passes lo hi : Nat)
    (hle : lo ≤ hi) (hhi : hi ≤ transitions.length) (hpasses : hi - lo < passes) :
    ∃ r, transitionLoop transitions t passes lo hi = some r ∧ lo ≤ r ∧ r ≤ hi ∧
      (r = lo ∨ ∃ p, transitions[r - 1]? = some p ∧ p.1 ≤ t) ∧
      (r = hi ∨ ∃ p, transitions[r]? = some p ∧ t < p.1) := by
  induction passes generalizing lo hi with
  | zero => omega
  | succ passes ih =>
      rw [transitionLoop]
      by_cases hlt : lo < hi
      · have hmid : (lo + hi) >>> 1 = (lo + hi) / 2 := Nat.shiftRight_eq_div_pow _ _
        have hget := List.getElem?_eq_getElem (l := transitions) (i := (lo + hi) / 2) (by omega)
        rw [if_pos hlt, hmid]
        dsimp only
        rw [hget]
        dsimp only
        split
        next hlater =>
          obtain ⟨r, heq, hlo, hr, hbefore, hbehind⟩ :=
            ih lo ((lo + hi) / 2) (by omega) (by omega) (by omega)
          refine ⟨r, heq, hlo, by omega, hbefore, ?_⟩
          rcases hbehind with rfl | hbehind
          · exact .inr ⟨_, hget, hlater⟩
          · exact .inr hbehind
        next hnot =>
          obtain ⟨r, heq, hlo, hr, hbefore, hbehind⟩ :=
            ih ((lo + hi) / 2 + 1) hi (by omega) (by omega) (by omega)
          refine ⟨r, heq, by omega, hr, ?_, hbehind⟩
          rcases hbefore with rfl | hbefore
          · exact .inr ⟨_, hget, Int.not_lt.mp hnot⟩
          · exact .inr hbefore
      · rw [if_neg hlt]
        exact ⟨lo, rfl, le_rfl, hle, .inl rfl, .inl (by omega)⟩

theorem standardLoop_lt (ttis : List TtInfo) (hne : ttis ≠ []) (left i : Nat) :
    standardLoop ttis left i < ttis.length := by
  have hpos := List.length_pos_of_ne_nil hne
  induction left generalizing i with
  | zero => exact hpos
  | succ left ih =>
      rw [standardLoop]
      cases hget : ttis[i]? with
      | none => exact hpos
      | some tt =>
          dsimp only
          split
          · exact ih (i + 1)
          · exact (List.getElem?_eq_some_iff.mp hget).1

/-- There is always a type in force, whatever the order of the transitions. -/
theorem typeAt_some (sp : State) (t : Int) : ∃ i, typeAt sp t = some i ∧ i < sp.ttis.length := by
  unfold typeAt
  cases htrans : sp.transitions with
  | nil => exact ⟨_, rfl, standardLoop_lt _ sp.nonempty _ _⟩
  | cons first rest =>
      dsimp only
      split
      · exact ⟨_, rfl, standardLoop_lt _ sp.nonempty _ _⟩
      · obtain ⟨r, heq, hlo, hhi, -⟩ :=
          transitionLoop_eq (first :: rest) t ((first :: rest).length + 1) 1
            (first :: rest).length (Nat.succ_pos _) le_rfl (by omega)
        have hget := List.getElem?_eq_getElem (l := first :: rest) (i := r - 1) (by omega)
        rw [heq]
        simp only [Option.bind_eq_bind, Option.bind_some, hget, Option.pure_def]
        exact ⟨_, rfl, sp.typed _ (by rw [htrans]; exact List.getElem_mem _)⟩

/-- The type in force. -/
def State.zone (sp : State) (t : Int) : TtInfo :=
  ((typeAt sp t).bind (sp.ttis[·]?)).getD ⟨0, 0⟩

theorem State.zone_eq {sp : State} {t : Int} {i : Nat} (h : typeAt sp t = some i)
    (hi : i < sp.ttis.length) : sp.ttis[i]? = some (sp.zone t) := by
  unfold State.zone
  rw [h, Option.bind_some, List.getElem?_eq_getElem hi, Option.getD_some]

theorem State.zone_mem (sp : State) (t : Int) : sp.zone t ∈ sp.ttis := by
  obtain ⟨i, htype, hi⟩ := typeAt_some sp t
  exact List.mem_of_getElem? (State.zone_eq htype hi)

/-- `localsub` shows the time in the type in force. -/
theorem localsub_eq (sp : State) (tmp : Tm) {t : Int} (hlo : -2 ^ 31 ≤ t) (hhi : t < 2 ^ 31)
    (hroom : ((sp.zone t).gmtoff - (sp.leap t).1).natAbs + 86400 ≤ 2 ^ 31) :
    ∃ tm, localsub t tmp sp = some tm ∧ tm.Shown (sp.leap t).2 ∧
      tm.seconds = t + (sp.zone t).gmtoff - (sp.leap t).1 + (sp.leap t).2 ∧
      tm.isdst = (sp.zone t).isdst ∧ tm.gmtoff = (sp.zone t).gmtoff := by
  obtain ⟨i, htype, hi⟩ := typeAt_some sp t
  obtain ⟨tm, heq, hshown, hseconds⟩ := timesub_eq sp tmp hlo hhi hroom
  unfold localsub
  simp only [htype, Option.bind_eq_bind, Option.bind_some, State.zone_eq htype hi, heq,
    Option.pure_def]
  exact ⟨_, rfl, ⟨hshown.mon, hshown.mday, hshown.hour, hshown.min, hshown.sec, hshown.yday,
    hshown.wday⟩, hseconds, rfl, rfl⟩

/-! ## Sorted transitions -/

/-- The type that a list of transitions in order of time puts in force. -/
def State.inForce (sp : State) (t : Int) : Option TtInfo :=
  match (sp.transitions.filter fun p => decide (p.1 ≤ t)).getLast? with
  | some p => sp.ttis[p.2]?
  | none => (sp.ttis.find? fun tt => decide (tt.isdst = 0)).or sp.ttis.head?

theorem standardLoop_eq (ttis : List TtInfo) (left i : Nat)
    (hleft : left + i = ttis.length)
    (hbefore : (ttis.take i).find? (fun tt => decide (tt.isdst = 0)) = none) :
    ttis[standardLoop ttis left i]? =
      (ttis.find? fun tt => decide (tt.isdst = 0)).or ttis.head? := by
  induction left generalizing i with
  | zero =>
      rw [List.take_of_length_le (by omega)] at hbefore
      rw [standardLoop, hbefore, Option.none_or, List.head?_eq_getElem?]
  | succ left ih =>
      obtain ⟨tt, hget⟩ : ∃ tt, ttis[i]? = some tt :=
        ⟨_, List.getElem?_eq_getElem (show i < ttis.length by omega)⟩
      rw [standardLoop, hget]
      dsimp only
      have hsplit := List.take_append_drop (i + 1) ttis
      have htake : ttis.take (i + 1) = ttis.take i ++ [tt] := by
        rw [List.take_add_one, hget, Option.toList_some]
      by_cases hdst : tt.isdst = 0
      · rw [if_neg (not_not_intro hdst), hget, ← hsplit, List.find?_append, htake,
          List.find?_append, hbefore, Option.none_or,
          List.find?_cons_of_pos (by simpa using hdst), Option.some_or, Option.some_or]
      · rw [if_pos hdst]
        refine ih (i + 1) (by omega) ?_
        rw [htake, List.find?_append, hbefore, Option.none_or,
          List.find?_cons_of_neg (by simpa using hdst), List.find?_nil]

theorem standard_eq (ttis : List TtInfo) :
    ttis[standardLoop ttis ttis.length 0]? =
      (ttis.find? fun tt => decide (tt.isdst = 0)).or ttis.head? :=
  standardLoop_eq ttis ttis.length 0 rfl rfl

/-- What a filter by time keeps of a sorted list, when the last element that is kept and the
first one that is not are known. -/
theorem filter_eq_take {transitions : List (Int × Nat)} {t : Int} {r : Nat}
    (hsorted : transitions.Pairwise fun p q => p.1 ≤ q.1) (hr : r ≤ transitions.length)
    (hbefore : ∀ p, transitions[r - 1]? = some p → 0 < r → p.1 ≤ t)
    (hbehind : ∀ p, transitions[r]? = some p → t < p.1) :
    transitions.filter (fun p => decide (p.1 ≤ t)) = transitions.take r := by
  rw [← List.take_append_drop r transitions, List.pairwise_append] at hsorted
  conv_lhs => rw [← List.take_append_drop r transitions]
  obtain ⟨hfirst, hrest, -⟩ := hsorted
  rw [List.filter_append]
  have hkeep : (transitions.take r).filter (fun p => decide (p.1 ≤ t)) = transitions.take r := by
    refine List.filter_eq_self.mpr fun p hp => decide_eq_true ?_
    obtain ⟨i, hi, rfl⟩ := List.mem_iff_getElem.mp hp
    have hlen := List.length_take_le r transitions
    rw [List.length_take] at hi
    obtain ⟨q, hq⟩ : ∃ q, transitions[r - 1]? = some q :=
      ⟨_, List.getElem?_eq_getElem (show r - 1 < transitions.length by omega)⟩
    have hlast := hbefore q hq (by omega)
    rcases Nat.lt_or_ge i (r - 1) with hlt | hge
    · have hpair := List.pairwise_iff_getElem.mp hfirst i (r - 1)
        (by rw [List.length_take]; omega) (by rw [List.length_take]; omega) hlt
      rw [List.getElem_take, List.getElem_take] at hpair
      rw [List.getElem_take]
      have hvalue := (List.getElem?_eq_some_iff.mp hq).2
      rw [hvalue] at hpair
      exact hpair.trans hlast
    · have hend : i = r - 1 := by omega
      subst hend
      rw [List.getElem_take, (List.getElem?_eq_some_iff.mp hq).2]
      exact hlast
  have hdrop : (transitions.drop r).filter (fun p => decide (p.1 ≤ t)) = [] := by
    refine List.filter_eq_nil_iff.mpr fun p hp hle => ?_
    have hle' : p.1 ≤ t := of_decide_eq_true hle
    cases hcons : transitions.drop r with
    | nil => rw [hcons] at hp; exact absurd hp List.not_mem_nil
    | cons q qs =>
        have hq : transitions[r]? = some q := by
          rw [← List.head?_drop, hcons, List.head?_cons]
        have hlater := hbehind q hq
        rw [hcons] at hp hrest
        rcases List.mem_cons.mp hp with rfl | hmem
        · omega
        · have hpair := (List.pairwise_cons.mp hrest).1 p hmem
          omega
  rw [hkeep, hdrop, List.append_nil]

/-- In a zone with sorted transitions the type in force is that of the last transition that is
not later. -/
theorem zone_eq_inForce {sp : State} (hsorted : sp.transitions.Pairwise fun p q => p.1 ≤ q.1)
    (t : Int) : sp.inForce t = some (sp.zone t) := by
  obtain ⟨i, htype, hi⟩ := typeAt_some sp t
  rw [← State.zone_eq htype hi]
  unfold typeAt at htype
  unfold State.inForce
  cases htrans : sp.transitions with
  | nil =>
      rw [htrans] at htype
      obtain rfl := Option.some.inj htype
      exact (standard_eq sp.ttis).symm
  | cons first rest =>
      rw [htrans] at htype hsorted
      dsimp only at htype
      by_cases hfirst : t < first.1
      · rw [if_pos hfirst] at htype
        obtain rfl := Option.some.inj htype
        rw [filter_eq_take (r := 0) hsorted (Nat.zero_le _)
          (fun p _ h => absurd h (Nat.lt_irrefl 0))
          (fun p hp => by obtain rfl := Option.some.inj hp; exact hfirst), List.take_zero]
        exact (standard_eq sp.ttis).symm
      · obtain ⟨r, heq, hlo, hhi, hbefore, hbehind⟩ :=
          transitionLoop_eq (first :: rest) t ((first :: rest).length + 1) 1
            (first :: rest).length (Nat.succ_pos _) le_rfl (by omega)
        have hget := List.getElem?_eq_getElem (l := first :: rest) (i := r - 1) (by omega)
        rw [if_neg hfirst, heq] at htype
        simp only [Option.bind_eq_bind, Option.bind_some, hget, Option.pure_def,
          Option.some.injEq] at htype
        have hearlier : ∀ p, (first :: rest)[r - 1]? = some p → 0 < r → p.1 ≤ t := by
          intro p hp _
          rcases hbefore with rfl | ⟨q, hq, hle⟩
          · obtain rfl := Option.some.inj hp
            exact Int.not_lt.mp hfirst
          · obtain rfl := Option.some.inj (hp.symm.trans hq)
            exact hle
        have hlater : ∀ p, (first :: rest)[r]? = some p → t < p.1 := by
          intro p hp
          rcases hbehind with rfl | ⟨q, hq, hlt⟩
          · rw [List.getElem?_eq_none le_rfl] at hp
            cases hp
          · obtain rfl := Option.some.inj (hp.symm.trans hq)
            exact hlt
        have hlast : ((first :: rest).take r).getLast? = (first :: rest)[r - 1]? := by
          rw [List.getLast?_take, if_neg (by omega), hget, Option.some_or]
        rw [filter_eq_take hsorted hhi hearlier hlater, hlast, hget]
        dsimp only
        rw [htype]

/-- `localsub` shows the time in the type that the last transition so far has put in force. -/
theorem localsub_inForce {sp : State} (hsorted : sp.transitions.Pairwise fun p q => p.1 ≤ q.1)
    (tmp : Tm) {t : Int} {tt : TtInfo} (htype : sp.inForce t = some tt) (hlo : -2 ^ 31 ≤ t)
    (hhi : t < 2 ^ 31) (hroom : (tt.gmtoff - correction sp.lsis t).natAbs + 86400 ≤ 2 ^ 31) :
    ∃ hit tm, sp.Hit t hit ∧ localsub t tmp sp = some tm ∧ tm.Shown hit ∧
      tm.seconds = t + tt.gmtoff - correction sp.lsis t + hit ∧
      tm.isdst = tt.isdst ∧ tm.gmtoff = tt.gmtoff := by
  obtain rfl : sp.zone t = tt := Option.some.inj ((zone_eq_inForce hsorted t).symm.trans htype)
  obtain ⟨hcorr, hhit⟩ := sp.leap_eq t
  rw [← hcorr] at hroom ⊢
  obtain ⟨tm, htm⟩ := localsub_eq sp tmp hlo hhi hroom
  exact ⟨_, tm, hhit, htm⟩

/-- A zone with one summer. -/
def oneSummer : State where
  transitions := [(1332637200, 1), (1351386000, 0)]
  ttis := [⟨3600, 0⟩, ⟨7200, 1⟩]
  lsis := []
  lsisBefore := 0
  typed := by decide
  nonempty := by decide

/-- A second that is inserted in that summer is shown as the sixtieth of its minute. -/
theorem localsub_inForce_inserted :
    ∃ hit tm, State.Hit { oneSummer with lsis := [⟨1341100800, 1⟩] } 1341100800 hit ∧
      localsub 1341100800 ⟨0, 0, 0, 0, 0, 0, 0, 0, 0, 0⟩
        { oneSummer with lsis := [⟨1341100800, 1⟩] } = some tm ∧
      tm.Shown hit ∧ tm.seconds = 1341100800 + 7200 - 1 + hit ∧ tm.isdst = 1 ∧
      tm.gmtoff = 7200 :=
  localsub_inForce (by decide) _ (show _ = some ⟨7200, 1⟩ by rfl) (by decide) (by decide)
    (by decide)

theorem oneSummer_zone (t : Int) : oneSummer.zone t =
    if 1332637200 ≤ t ∧ t < 1351386000 then ⟨7200, 1⟩ else ⟨3600, 0⟩ := by
  have hin := zone_eq_inForce (show oneSummer.transitions.Pairwise _ by decide) t
  unfold State.inForce oneSummer at hin
  by_cases hfirst : 1332637200 ≤ t <;> by_cases hlast : 1351386000 ≤ t
  · simp [hfirst, hlast] at hin
    rw [if_neg (by omega)]
    exact hin.symm
  · simp [hfirst, hlast] at hin
    rw [if_pos (by omega)]
    exact hin.symm
  · omega
  · simp [hfirst, hlast] at hin
    rw [if_neg (by omega)]
    exact hin.symm

end Tz
end AndroidLinux
