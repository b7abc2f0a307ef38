import AndroidLinux.Timer.Wheel

/-!
# When a linked timer expires

Bucket `i` is looked at in every iteration whose number is `i` modulo 1024, and a timer
that waits for `turns` turns is triggered when the bucket has come round so often.
`Due s timer d` says that this is iteration `d`.

The wheel is a schedule in the sense of this relation: `add2hash_spec` and `unlink_spec`
say that linking a timer adds one due iteration and unlinking one takes it away, both
without any effect on the due iteration of another timer.
-/

namespace AndroidLinux
namespace Timer

open Lib

/-- The first iteration from `now` on that looks at bucket `i`. -/
def visit (now : Nat) (i : Fin tmHashLen) : Nat :=
  now + (i.val + 1024 - now % 1024) % 1024

theorem le_visit (now : Nat) (i : Fin tmHashLen) : now ≤ visit now i :=
  Nat.le_add_right _ _

/-- The number of iterations from the one in which a timer is added to the one in which
it expires. -/
def delay (msec : UInt32) : Nat :=
  (ttick msec).toNat % 1024 + 1024 * (((ttick msec).toNat - 1) / 1024)

theorem toNat_ttick (msec : UInt32) :
    (ttick msec).toNat = max 1 ((msec.toNat + 5) % 2 ^ 32 / 10) := by
  have hticks : ((msec + msecPerTick / 2) / msecPerTick).toNat
      = (msec.toNat + 5) % 2 ^ 32 / 10 := by
    rw [UInt32.toNat_div, UInt32.toNat_add]
    rfl
  rw [ttick]
  by_cases hzero : (msec + msecPerTick / 2) / msecPerTick = 0
  · rw [hzero] at hticks
    simp only [hzero, ne_eq, not_true_eq_false, if_false, ← hticks]
    rfl
  · have hpos : (msec.toNat + 5) % 2 ^ 32 / 10 ≠ 0 := by
      intro h
      apply hzero
      apply UInt32.toNat_inj.mp
      rw [hticks, h]
      rfl
    simp only [ne_eq, hzero, not_false_eq_true, if_true, hticks]
    omega

theorem ttick_bounds (msec : UInt32) :
    1 ≤ (ttick msec).toNat ∧ (ttick msec).toNat ≤ 429496729 := by
  rw [toNat_ttick]
  omega

/-- A stop or a free of the timer. -/
def Tasklet.Silences (timer : TimerId) : Tasklet → Prop
  | .doStartTm _ _ _ => False
  | .doStopTm t => t = timer
  | .doFreeTm t => t = timer

namespace Reltm

variable {s : Reltm} {timer : TimerId}

/-- A timer is linked somewhere in the wheel. -/
def Linked (s : Reltm) (timer : TimerId) : Prop :=
  ∃ i, timer ∈ (s.tmHash i).timers

/-- The iteration in which a linked timer is triggered. -/
def Due (s : Reltm) (timer : TimerId) (d : Nat) : Prop :=
  ∃ i turns, (timer, turns) ∈ (s.tmHash i).pending
    ∧ d = visit s.iteration i + 1024 * turns

/-- What holds of the wheel and of the allocated timers whenever a tasklet is executed. -/
structure Core (s : Reltm) : Prop where
  tick : s.tickLast.toNat = s.iteration % 2 ^ 32
  buckets : ∀ i, (s.tmHash i).WF i
  once : ∀ i j t, t ∈ (s.tmHash i).timers → t ∈ (s.tmHash j).timers → i = j
  alive : ∀ t, s.Linked t → (s.timers t).isSome
  fresh : ∀ t, s.nextTimer ≤ t → s.timers t = none

theorem linked_iff_due : s.Linked timer ↔ ∃ d, s.Due timer d := by
  constructor
  · intro hlinked
    obtain ⟨i, hi⟩ := hlinked
    obtain ⟨turns, hturns⟩ := TmHash.mem_timers_iff.mp hi
    exact ⟨_, i, turns, hturns, rfl⟩
  · intro hdue
    obtain ⟨_, i, turns, hturns, _⟩ := hdue
    exact ⟨i, TmHash.mem_timers_iff.mpr ⟨turns, hturns⟩⟩

theorem Due.linked {d : Nat} (hdue : s.Due timer d) : s.Linked timer :=
  linked_iff_due.mpr ⟨d, hdue⟩

theorem Due.le {d : Nat} (hdue : s.Due timer d) : s.iteration ≤ d := by
  obtain ⟨i, turns, _, hd⟩ := hdue
  have hle := le_visit s.iteration i
  omega

/-- A timer has one entry, and so it expires in one iteration. -/
theorem Core.due_unique (hs : s.Core) {d d' : Nat} (hdue : s.Due timer d)
    (hdue' : s.Due timer d') : d = d' := by
  obtain ⟨i, turns, hmem, rfl⟩ := hdue
  obtain ⟨j, turns', hmem', rfl⟩ := hdue'
  have hij : i = j := hs.once i j timer
    (TmHash.mem_timers_iff.mpr ⟨_, hmem⟩) (TmHash.mem_timers_iff.mpr ⟨_, hmem'⟩)
  subst hij
  have hsame := List.inj_on_of_nodup_map (hs.buckets i).nodup hmem hmem' rfl
  rw [Prod.mk.injEq] at hsame
  rw [hsame.2]

/-! ## Changing one bucket -/

theorem linked_setHash {i : Fin tmHashLen} {b : TmHash} :
    (s.setHash i b).Linked timer ↔
      timer ∈ b.timers ∨ ∃ j, j ≠ i ∧ timer ∈ (s.tmHash j).timers := by
  constructor
  · intro hlinked
    obtain ⟨j, hj⟩ := hlinked
    by_cases hji : j = i
    · subst hji
      simp only [setHash, Function.update_self] at hj
      exact .inl hj
    · simp only [setHash, Function.update_of_ne hji] at hj
      exact .inr ⟨j, hji, hj⟩
  · intro h
    cases h with
    | inl hb => exact ⟨i, by simpa [setHash] using hb⟩
    | inr hj =>
        obtain ⟨j, hji, hj⟩ := hj
        exact ⟨j, by simpa [setHash, Function.update_of_ne hji] using hj⟩

theorem due_setHash {i : Fin tmHashLen} {b : TmHash} {d : Nat} :
    (s.setHash i b).Due timer d ↔
      (∃ turns, (timer, turns) ∈ b.pending ∧ d = visit s.iteration i + 1024 * turns)
      ∨ ∃ j turns, j ≠ i ∧ (timer, turns) ∈ (s.tmHash j).pending
        ∧ d = visit s.iteration j + 1024 * turns := by
  constructor
  · intro hdue
    obtain ⟨j, turns, hmem, hd⟩ := hdue
    by_cases hji : j = i
    · subst hji
      simp only [setHash, Function.update_self] at hmem
      exact .inl ⟨turns, hmem, hd⟩
    · simp only [setHash, Function.update_of_ne hji] at hmem
      exact .inr ⟨j, turns, hji, hmem, hd⟩
  · intro h
    cases h with
    | inl hb =>
        obtain ⟨turns, hmem, hd⟩ := hb
        exact ⟨i, turns, by simpa [setHash] using hmem, hd⟩
    | inr hj =>
        obtain ⟨j, turns, hji, hmem, hd⟩ := hj
        exact ⟨j, turns, by simpa [setHash, Function.update_of_ne hji] using hmem, hd⟩

/-- A bucket may be replaced by one that holds timers of its own and timers that are not
linked. -/
theorem Core.setHash (hs : s.Core) {i : Fin tmHashLen} {b : TmHash} (hb : b.WF i)
    (hfrom : ∀ t ∈ b.timers,
      t ∈ (s.tmHash i).timers ∨ ¬ s.Linked t ∧ (s.timers t).isSome) :
    (s.setHash i b).Core where
  tick := hs.tick
  buckets := by
    intro j
    by_cases hji : j = i
    · subst hji
      simpa [Reltm.setHash] using hb
    · simpa [Reltm.setHash, Function.update_of_ne hji] using hs.buckets j
  once := by
    -- two different buckets cannot both hold the timer, whichever of them is the new one
    have hother : ∀ j t, j ≠ i → t ∈ b.timers → t ∉ (s.tmHash j).timers := by
      intro j t hji ht hj
      cases hfrom t ht with
      | inl hold => exact hji (hs.once j i t hj hold)
      | inr hnew => exact hnew.1 ⟨j, hj⟩
    intro j k t hj hk
    by_cases hji : j = i <;> by_cases hki : k = i
    · rw [hji, hki]
    · subst hji
      simp only [Reltm.setHash, Function.update_self, Function.update_of_ne hki] at hj hk
      exact absurd hk (hother k t hki hj)
    · subst hki
      simp only [Reltm.setHash, Function.update_self, Function.update_of_ne hji] at hj hk
      exact absurd hj (hother j t hji hk)
    · simp only [Reltm.setHash, Function.update_of_ne hji, Function.update_of_ne hki] at hj hk
      exact hs.once j k t hj hk
  alive := by
    intro t hlinked
    cases linked_setHash.mp hlinked with
    | inl ht =>
        cases hfrom t ht with
        | inl hold => exact hs.alive t ⟨i, hold⟩
        | inr hnew => exact hnew.2
    | inr hj =>
        obtain ⟨j, _, hj⟩ := hj
        exact hs.alive t ⟨j, hj⟩
  fresh := hs.fresh

/-- Taking one timer out of its bucket. -/
theorem Core.removed (hs : s.Core) {i : Fin tmHashLen} {b : TmHash}
    (hin : timer ∈ (s.tmHash i).timers) (hb : b.WF i)
    (hmem : ∀ p, p ∈ b.pending ↔ p ∈ (s.tmHash i).pending ∧ p.1 ≠ timer) :
    (s.setHash i b).Core
      ∧ ∀ t d, (s.setHash i b).Due t d ↔ t ≠ timer ∧ s.Due t d := by
  constructor
  · refine hs.setHash hb fun t ht => ?_
    obtain ⟨turns, hturns⟩ := TmHash.mem_timers_iff.mp ht
    exact .inl (TmHash.mem_timers_iff.mpr ⟨turns, ((hmem _).mp hturns).1⟩)
  · intro t d
    rw [due_setHash]
    simp only [hmem]
    constructor
    · intro h
      obtain ⟨turns, ⟨hold, hne⟩, hd⟩ | ⟨j, turns, hji, hold, hd⟩ := h
      · exact ⟨hne, i, turns, hold, hd⟩
      · refine ⟨?_, j, turns, hold, hd⟩
        intro heq
        subst heq
        exact hji (hs.once j i t (TmHash.mem_timers_iff.mpr ⟨turns, hold⟩) hin)
    · intro h
      obtain ⟨hne, j, turns, hold, hd⟩ := h
      by_cases hji : j = i
      · subst hji
        exact .inl ⟨turns, ⟨hold, hne⟩, hd⟩
      · exact .inr ⟨j, turns, hji, hold, hd⟩

/-! ## `_add2hash` -/

/-- Where `_add2hash` puts a timer, and what `ticks_left` says there. -/
theorem add2hash_ticks (hs : s.Core) (msec : UInt32) :
    let i := tmHashFunc (s.tickLast + ttick msec)
    let ticksLeft := i + ((ttick msec - 1) &&& tmTmlenMask)
    ticksLeft.toNat % 1024 = (bucket i).val
      ∧ ticksLeft.toNat / 1024 = ((ttick msec).toNat - 1) / 1024
      ∧ visit s.iteration (bucket i) = s.iteration + (ttick msec).toNat % 1024 := by
  obtain ⟨hpos, hmax⟩ := ttick_bounds msec
  have htick := hs.tick
  have hone : (ttick msec - 1).toNat = (ttick msec).toNat - 1 :=
    UInt32.toNat_sub_of_le _ _ (UInt32.le_iff_toNat_le.mpr hpos)
  have hindex : (tmHashFunc (s.tickLast + ttick msec)).toNat
      = (s.iteration + (ttick msec).toNat) % 1024 := by
    rw [toNat_tmHashFunc, UInt32.toNat_add, htick]
    omega
  have hbucket : (bucket (tmHashFunc (s.tickLast + ttick msec))).val
      = (s.iteration + (ttick msec).toNat) % 1024 := by
    rw [val_bucket, hindex]
    omega
  have hticks : (tmHashFunc (s.tickLast + ttick msec)
      + ((ttick msec - 1) &&& tmTmlenMask)).toNat
      = (s.iteration + (ttick msec).toNat) % 1024
        + 1024 * (((ttick msec).toNat - 1) / 1024) := by
    rw [UInt32.toNat_add, toNat_and_tmTmlenMask, hindex, hone]
    omega
  refine ⟨?_, ?_, ?_⟩
  · rw [hticks, hbucket]
    omega
  · rw [hticks]
    omega
  · rw [visit, hbucket]
    omega

theorem add2hash_spec (hs : s.Core) {cb : TmCb} (hcb : s.timers timer = some cb)
    (hfree : ¬ s.Linked timer) :
    ∃ h, s.add2hash timer = some { s with tmHash := h }
      ∧ Core { s with tmHash := h }
      ∧ ∀ t d, Due { s with tmHash := h } t d ↔
        (t = timer ∧ d = s.iteration + delay cb.msec) ∨ s.Due t d := by
  obtain ⟨hlow, hturns, hvisit⟩ := add2hash_ticks hs cb.msec
  obtain ⟨hpos, hmax⟩ := ttick_bounds cb.msec
  generalize hi : tmHashFunc (s.tickLast + ttick cb.msec) = i at hlow hturns hvisit
  generalize htl : i + ((ttick cb.msec - 1) &&& tmTmlenMask) = ticksLeft at hlow hturns
  -- both branches put one entry in the bucket, with the same number of turns
  have hbucket : ∃ b : TmHash, s.add2hash timer = some (s.setHash (bucket i) b)
      ∧ InBucket (bucket i) b.sortedLink
      ∧ b.pending.Perm ((timer, ticksLeft.toNat / 1024)
        :: (s.tmHash (bucket i)).pending) := by
    rw [add2hash, hcb]
    simp only [hi, htl]
    by_cases hlong : 1024 < ttick cb.msec
    · rw [if_pos hlong]
      exact ⟨_, rfl, (deltas_insertSorted _ timer ticksLeft _ hlow (hs.buckets _).low).2,
        TmHash.pending_insertSorted (hs.buckets _) timer ticksLeft hlow⟩
    · rw [if_neg hlong]
      refine ⟨_, rfl, (hs.buckets _).low, ?_⟩
      have hshort : (ttick cb.msec).toNat ≤ 1024 := by
        rw [UInt32.lt_iff_toNat_lt] at hlong
        exact Nat.le_of_not_lt hlong
      have hzero : ticksLeft.toNat / 1024 = 0 := by
        omega
      rw [hzero]
      exact TmHash.pending_addZero _ _
  obtain ⟨b, hsome, hin, hperm⟩ := hbucket
  have hnew : timer ∉ (s.tmHash (bucket i)).timers := fun h => hfree ⟨_, h⟩
  have hwf : b.WF (bucket i) :=
    (hs.buckets _).of_perm_cons hin hperm (by omega) hnew
  refine ⟨_, hsome, ?_, ?_⟩
  · refine hs.setHash hwf fun t ht => ?_
    have hkeys : b.timers.Perm (timer :: (s.tmHash (bucket i)).timers) :=
      hperm.map Prod.fst
    rw [hkeys.mem_iff, List.mem_cons] at ht
    cases ht with
    | inl heq =>
        subst heq
        exact .inr ⟨hfree, by simp [hcb]⟩
    | inr hold => exact .inl hold
  · intro t d
    have hdelay : visit s.iteration (bucket i) + 1024 * (ticksLeft.toNat / 1024)
        = s.iteration + delay cb.msec := by
      rw [hvisit, hturns, delay]
      omega
    show (s.setHash (bucket i) b).Due t d ↔ _
    rw [due_setHash]
    simp only [hperm.mem_iff, List.mem_cons, Prod.mk.injEq]
    constructor
    · intro h
      obtain ⟨turns, ⟨rfl, rfl⟩ | hmem, hd⟩ | ⟨j, turns, _, hmem, hd⟩ := h
      · exact .inl ⟨rfl, hd.trans hdelay⟩
      · exact .inr ⟨_, turns, hmem, hd⟩
      · exact .inr ⟨j, turns, hmem, hd⟩
    · intro h
      obtain ⟨rfl, rfl⟩ | ⟨j, turns, hmem, hd⟩ := h
      · exact .inl ⟨_, .inl ⟨rfl, rfl⟩, hdelay.symm⟩
      · by_cases hj : j = bucket i
        · subst hj
          exact .inl ⟨turns, .inr hmem, hd⟩
        · exact .inr ⟨j, turns, hj, hmem, hd⟩

/-! ## `_del_from_hash` -/

theorem mem_of_locate {i : Fin tmHashLen} (hlocate : s.locate timer = some i) :
    timer ∈ (s.tmHash i).timers := by
  unfold locate at hlocate
  have hholds := List.find?_some hlocate
  exact TmHash.holds_iff.mp hholds

theorem not_linked_of_locate (hlocate : s.locate timer = none) : ¬ s.Linked timer := by
  intro hlinked
  obtain ⟨i, hi⟩ := hlinked
  unfold locate at hlocate
  rw [List.find?_eq_none] at hlocate
  have hnone := hlocate i (List.mem_finRange i)
  exact hnone (TmHash.holds_iff.mpr hi)

/-- Taking a timer out of its bucket, whichever list it is linked in. -/
theorem delFromHash_bucket (hs : s.Core) {i : Fin tmHashLen}
    (hlocate : s.locate timer = some i) :
    ∃ b, s.delFromHash timer = some (s.setHash i b) ∧ b.WF i
      ∧ b.pending = (s.tmHash i).pending.filter (fun p => p.1 ≠ timer) := by
  have hmem := mem_of_locate hlocate
  have hb := hs.buckets i
  rw [delFromHash, hlocate]
  dsimp only
  by_cases hzero : timer ∈ (s.tmHash i).zeroLink.map Entry.timer
  · have hany : (s.tmHash i).zeroLink.any (fun e => e.timer == timer) = true := by
      simpa using hzero
    have hpending := TmHash.pending_eraseZero hb hzero
    rw [if_pos hany]
    exact ⟨_, rfl, hb.of_filter hb.low hpending, hpending⟩
  · have hany : ¬ (s.tmHash i).zeroLink.any (fun e => e.timer == timer) = true := by
      simpa using hzero
    have hsorted : timer ∈ (deltas (s.tmHash i).sortedLink).map Prod.fst := by
      rw [TmHash.timers_eq, List.mem_append] at hmem
      exact hmem.resolve_left hzero
    obtain ⟨link, hsome, hlow, hpending⟩ := TmHash.pending_removeSorted hb hzero hsorted
    rw [if_neg hany, hsome]
    exact ⟨_, rfl, hb.of_filter hlow hpending, hpending⟩

theorem unlink_due (hs : s.Core) (timer : TimerId) :
    ∃ h, s.unlink timer = some { s with tmHash := h }
      ∧ Core { s with tmHash := h }
      ∧ ∀ t d, Due { s with tmHash := h } t d ↔ t ≠ timer ∧ s.Due t d := by
  rw [unlink, listIsinqueue]
  cases hlocate : s.locate timer with
  | none =>
      refine ⟨s.tmHash, by simp, hs, fun t d => ?_⟩
      constructor
      · intro hdue
        refine ⟨?_, hdue⟩
        intro heq
        subst heq
        exact not_linked_of_locate hlocate hdue.linked
      · intro h
        exact h.2
  | some i =>
      obtain ⟨b, hsome, hwf, hpending⟩ := delFromHash_bucket hs hlocate
      have hmem : ∀ p, p ∈ b.pending ↔ p ∈ (s.tmHash i).pending ∧ p.1 ≠ timer := by
        intro p
        rw [hpending, List.mem_filter]
        simp
      obtain ⟨hcore, hdue⟩ := hs.removed (mem_of_locate hlocate) hwf hmem
      exact ⟨_, hsome, hcore, hdue⟩

theorem unlink_spec (hs : s.Core) (timer : TimerId) :
    ∃ h, s.unlink timer = some { s with tmHash := h }
      ∧ Core { s with tmHash := h } ∧ ¬ Linked { s with tmHash := h } timer
      ∧ ∀ t, t ≠ timer → ∀ d, Due { s with tmHash := h } t d ↔ s.Due t d := by
  obtain ⟨h, hunlink, hcore, hdue⟩ := unlink_due hs timer
  refine ⟨h, hunlink, hcore, ?_, ?_⟩
  · intro hlinked
    obtain ⟨d, hd⟩ := linked_iff_due.mp hlinked
    exact ((hdue timer d).mp hd).1 rfl
  · intro t ht d
    rw [hdue]
    exact and_iff_right ht

/-! ## Tasklets -/

theorem Core.lt_nextTimer (hs : s.Core) (halive : (s.timers timer).isSome) :
    timer < s.nextTimer := by
  by_contra hge
  rw [hs.fresh timer (Nat.le_of_not_lt hge)] at halive
  cases halive

/-- A timer that is not linked may change in any way. -/
theorem Core.setTimer (hs : s.Core) (halive : (s.timers timer).isSome)
    (hfree : ¬ s.Linked timer) (cb : Option TmCb) : (s.setTimer timer cb).Core where
  tick := hs.tick
  buckets := hs.buckets
  once := hs.once
  alive := by
    intro t hlinked
    have hne : t ≠ timer := by
      intro heq
      subst heq
      exact hfree hlinked
    simpa [Reltm.setTimer, Function.update_of_ne hne] using hs.alive t hlinked
  fresh := by
    intro t ht
    have hlt := hs.lt_nextTimer halive
    have hne : t ≠ timer := (Nat.lt_of_lt_of_le hlt ht).ne'
    simpa [Reltm.setTimer, Function.update_of_ne hne] using hs.fresh t ht

/-- What executing tasklets of the timers in `touched` may change. -/
structure Executed (touched : TimerId → Prop) (s s' : Reltm) : Prop where
  core : s'.Core
  rest : s' = { s with timers := s'.timers, tmHash := s'.tmHash }
  timers : ∀ t, ¬ touched t → s'.timers t = s.timers t
  due : ∀ t, ¬ touched t → ∀ d, s'.Due t d ↔ s.Due t d

theorem Executed.refl {touched : TimerId → Prop} (hs : s.Core) : Executed touched s s where
  core := hs
  rest := rfl
  timers := fun _ _ => rfl
  due := fun _ _ _ => Iff.rfl

theorem Executed.trans {touched : TimerId → Prop} {s₁ s₂ : Reltm}
    (h₁ : Executed touched s s₁) (h₂ : Executed touched s₁ s₂) : Executed touched s s₂ where
  core := h₂.core
  rest := by
    rw [h₂.rest, h₁.rest]
  timers := fun t ht => (h₂.timers t ht).trans (h₁.timers t ht)
  due := fun t ht d => (h₂.due t ht d).trans (h₁.due t ht d)

theorem Executed.mono {touched touched' : TimerId → Prop} {s' : Reltm}
    (h : Executed touched s s') (himp : ∀ t, touched t → touched' t) :
    Executed touched' s s' where
  core := h.core
  rest := h.rest
  timers := fun t ht => h.timers t fun ht' => ht (himp t ht')
  due := fun t ht => h.due t fun ht' => ht (himp t ht')

section Kept

variable {touched : TimerId → Prop} {s' : Reltm} (h : Executed touched s s')

include h

theorem Executed.iteration : s'.iteration = s.iteration := by
  rw [h.rest]

theorem Executed.expiries : s'.expiries = s.expiries := by
  rw [h.rest]

theorem Executed.relTsklets : s'.relTsklets = s.relTsklets := by
  rw [h.rest]

theorem Executed.relInterTsklets : s'.relInterTsklets = s.relInterTsklets := by
  rw [h.rest]

theorem Executed.linked_iff {t : TimerId} (ht : ¬ touched t) : s'.Linked t ↔ s.Linked t := by
  rw [linked_iff_due, linked_iff_due]
  simp only [h.due t ht]

end Kept

/-- What the queues hold plays no part in it. -/
theorem Executed.setQueues {touched : TimerId → Prop} {s' : Reltm}
    (h : Executed touched s s') (rel : List Tasklet) (inter : List TimerId) :
    Executed touched { s with relTsklets := rel, relInterTsklets := inter }
      { s' with relTsklets := rel, relInterTsklets := inter } where
  core := ⟨h.core.tick, h.core.buckets, h.core.once, h.core.alive, h.core.fresh⟩
  rest := by
    rw [h.rest]
  timers := h.timers
  due := h.due

/-- Starting a timer sets its due iteration, linked before or not. -/
theorem doStartTm_spec (hs : s.Core) {s' : Reltm} {msec : UInt32} {arg : Nat}
    (hstart : s.doStartTm timer msec arg = some s') :
    Executed (· = timer) s s' ∧ s'.Due timer (s.iteration + delay msec)
      ∧ ∃ cb, s.timers timer = some cb
        ∧ s'.timers timer = some { cb with msec := msec, arg := arg } := by
  rw [doStartTm] at hstart
  cases hcb : s.timers timer with
  | none => simp [hcb] at hstart
  | some cb =>
      obtain ⟨h, hunlink, hcore, hfree, hdue⟩ := unlink_spec hs timer
      simp only [hcb, hunlink] at hstart
      set s₁ : Reltm := { s with tmHash := h }
      set cb' : TmCb := { cb with msec := msec, arg := arg }
      have halive : (s₁.timers timer).isSome := by
        show (s.timers timer).isSome
        simp [hcb]
      have hcore₂ := hcore.setTimer halive hfree (some cb')
      have hcb' : (s₁.setTimer timer (some cb')).timers timer = some cb' :=
        Function.update_self _ _ _
      obtain ⟨h₂, hadd, hcore₃, hdue₃⟩ := add2hash_spec hcore₂ hcb' hfree
      rw [hadd, Option.some.injEq] at hstart
      subst hstart
      refine ⟨⟨hcore₃, rfl, ?_, ?_⟩, (hdue₃ _ _).mpr (.inl ⟨rfl, rfl⟩), cb, rfl, hcb'⟩
      · intro t ht
        simp [setTimer, Function.update_of_ne ht, s₁]
      · intro t ht d
        rw [hdue₃]
        constructor
        · intro hor
          exact (hdue t ht d).mp (hor.resolve_left fun hand => ht hand.1)
        · intro hd
          exact .inr ((hdue t ht d).mpr hd)

theorem doStopTm_spec (hs : s.Core) {s' : Reltm} (hstop : s.doStopTm timer = some s') :
    Executed (· = timer) s s' ∧ ¬ s'.Linked timer ∧ s'.timers = s.timers := by
  obtain ⟨h, hunlink, hcore, hfree, hdue⟩ := unlink_spec hs timer
  rw [doStopTm] at hstop
  cases hcb : s.timers timer with
  | none => simp [hcb] at hstop
  | some cb =>
      simp only [hcb, hunlink, Option.some.injEq] at hstop
      subst hstop
      exact ⟨⟨hcore, rfl, fun _ _ => rfl, hdue⟩, hfree, rfl⟩

theorem doFreeTm_spec (hs : s.Core) {s' : Reltm} (hfreed : s.doFreeTm timer = some s') :
    Executed (· = timer) s s' ∧ ¬ s'.Linked timer ∧ s'.timers timer = none := by
  obtain ⟨h, hunlink, hcore, hfree, hdue⟩ := unlink_spec hs timer
  rw [doFreeTm] at hfreed
  cases hcb : s.timers timer with
  | none => simp [hcb] at hfreed
  | some cb =>
      simp only [hcb, hunlink, Option.map_some, Option.some.injEq] at hfreed
      subst hfreed
      refine ⟨⟨hcore.setTimer (by simp [hcb]) hfree none, rfl, ?_, hdue⟩, hfree, ?_⟩
      · intro t ht
        exact Function.update_of_ne ht _ _
      · exact Function.update_self _ _ _

theorem execute_spec (hs : s.Core) {s' : Reltm} {task : Tasklet}
    (hexec : s.execute task = some s') : Executed (· = task.timer) s s' := by
  cases task with
  | doStartTm timer msec arg => exact (doStartTm_spec hs hexec).1
  | doStopTm timer => exact (doStopTm_spec hs hexec).1
  | doFreeTm timer => exact (doFreeTm_spec hs hexec).1

/-- After a stop or a free has been executed the timer is in no list. -/
theorem execute_silences (hs : s.Core) {s' : Reltm} {task : Tasklet}
    (hexec : s.execute task = some s') (hsilences : task.Silences timer) :
    ¬ s'.Linked timer := by
  cases task with
  | doStartTm t msec arg => exact hsilences.elim
  | doStopTm t =>
      have heq : t = timer := hsilences
      exact heq ▸ (doStopTm_spec hs hexec).2.1
  | doFreeTm t =>
      have heq : t = timer := hsilences
      exact heq ▸ (doFreeTm_spec hs hexec).2.1

/-- No tasklet changes the mode of a timer. -/
theorem execute_mode (hs : s.Core) {s' : Reltm} {task : Tasklet}
    (hexec : s.execute task = some s') {cb' : TmCb} (hcb' : s'.timers timer = some cb') :
    ∃ cb, s.timers timer = some cb ∧ cb.mode = cb'.mode := by
  by_cases heq : timer = task.timer
  · cases task with
    | doStartTm t msec arg =>
        change timer = t at heq
        subst heq
        obtain ⟨_, _, cb, hcb, hnew⟩ := doStartTm_spec hs hexec
        rw [hnew, Option.some.injEq] at hcb'
        exact ⟨cb, hcb, by rw [← hcb']⟩
    | doStopTm t =>
        obtain ⟨_, _, hsame⟩ := doStopTm_spec hs hexec
        exact ⟨cb', by rw [← hsame]; exact hcb', rfl⟩
    | doFreeTm t =>
        change timer = t at heq
        subst heq
        rw [(doFreeTm_spec hs hexec).2.2] at hcb'
        cases hcb'
  · have hsame := (execute_spec hs hexec).timers timer heq
    exact ⟨cb', by rw [← hsame]; exact hcb', rfl⟩

/-- A run of tasklets that names other timers only. -/
theorem foldlM_execute_spec (hs : s.Core) {s' : Reltm} (tasks : List Tasklet)
    (hexec : tasks.foldlM execute s = some s') :
    Executed (fun t => ∃ task ∈ tasks, task.timer = t) s s' := by
  induction tasks generalizing s with
  | nil =>
      simp only [List.foldlM_nil, Option.pure_def, Option.some.injEq] at hexec
      subst hexec
      exact .refl hs
  | cons task rest ih =>
      rw [List.foldlM_cons] at hexec
      obtain ⟨s₁, hfirst, hrest⟩ := Option.bind_eq_some_iff.mp hexec
      have h₁ := execute_spec hs hfirst
      have h₂ := ih h₁.core hrest
      refine (h₁.mono fun t ht => ?_).trans (h₂.mono fun t ht => ?_)
      · exact ⟨task, List.mem_cons_self, ht.symm⟩
      · obtain ⟨other, hmem, heq⟩ := ht
        exact ⟨other, List.mem_cons_of_mem _ hmem, heq⟩

theorem foldlM_execute_mode (hs : s.Core) {s' : Reltm} (tasks : List Tasklet)
    (hexec : tasks.foldlM execute s = some s') {cb' : TmCb}
    (hcb' : s'.timers timer = some cb') :
    ∃ cb, s.timers timer = some cb ∧ cb.mode = cb'.mode := by
  induction tasks generalizing s with
  | nil =>
      simp only [List.foldlM_nil, Option.pure_def, Option.some.injEq] at hexec
      exact ⟨cb', by rw [hexec]; exact hcb', rfl⟩
  | cons task rest ih =>
      rw [List.foldlM_cons] at hexec
      obtain ⟨s₁, hfirst, hrest⟩ := Option.bind_eq_some_iff.mp hexec
      obtain ⟨cb₁, hcb₁, hmode₁⟩ := ih (execute_spec hs hfirst).core hrest
      obtain ⟨cb, hcb, hmode⟩ := execute_mode hs hfirst hcb₁
      exact ⟨cb, hcb, hmode.trans hmode₁⟩

/-- The timers whose restart is posted are allocated, not linked, and posted once. -/
structure Waiting (s : Reltm) (queue : List TimerId) : Prop where
  nodup : queue.Nodup
  alive : ∀ t ∈ queue, (s.timers t).isSome
  free : ∀ t ∈ queue, ¬ s.Linked t

theorem Waiting.concat {queue : List TimerId} (hwait : s.Waiting queue)
    (halive : (s.timers timer).isSome) (hfree : ¬ s.Linked timer) (hnew : timer ∉ queue) :
    s.Waiting (queue ++ [timer]) := by
  refine ⟨?_, fun t ht => ?_, fun t ht => ?_⟩
  · rw [List.nodup_append_comm, List.singleton_append, List.nodup_cons]
    exact ⟨hnew, hwait.nodup⟩
  · cases List.mem_append.mp ht with
    | inl hold => exact hwait.alive t hold
    | inr hlast =>
        rw [List.mem_singleton.mp hlast]
        exact halive
  · cases List.mem_append.mp ht with
    | inl hold => exact hwait.free t hold
    | inr hlast =>
        rw [List.mem_singleton.mp hlast]
        exact hfree

theorem Waiting.setTimer {queue : List TimerId} (hwait : s.Waiting queue)
    (hnew : timer ∉ queue) (cb : Option TmCb) : (s.setTimer timer cb).Waiting queue where
  nodup := hwait.nodup
  alive := by
    intro t ht
    have hne : t ≠ timer := by
      intro heq
      exact hnew (heq ▸ ht)
    simpa [Reltm.setTimer, Function.update_of_ne hne] using hwait.alive t ht
  free := hwait.free

/-- A posted restart executes, and the timers behind it stay as they are. -/
theorem doRestartTm_spec (hs : s.Core) {rest : List TimerId}
    (hwait : s.Waiting (timer :: rest)) :
    ∃ s' cb, s.doRestartTm timer = some s' ∧ s.timers timer = some cb
      ∧ Executed (· = timer) s s' ∧ s'.Waiting rest
      ∧ s'.Due timer (s.iteration + delay cb.msec) ∧ s'.timers = s.timers := by
  obtain ⟨cb, hcb⟩ := Option.isSome_iff_exists.mp (hwait.alive timer List.mem_cons_self)
  have hnodup := List.nodup_cons.mp hwait.nodup
  obtain ⟨h, hadd, hcore, hdue⟩ :=
    add2hash_spec hs hcb (hwait.free timer List.mem_cons_self)
  refine ⟨{ s with tmHash := h }, cb, hadd, hcb, ⟨hcore, rfl, fun _ _ => rfl, ?_⟩,
    ⟨hnodup.2, fun t ht => hwait.alive t (List.mem_cons_of_mem _ ht), ?_⟩,
    (hdue _ _).mpr (.inl ⟨rfl, rfl⟩), rfl⟩
  · intro t ht d
    rw [hdue]
    exact or_iff_right fun heq => ht heq.1
  · intro t ht hlinked
    obtain ⟨d, hd⟩ := linked_iff_due.mp hlinked
    cases (hdue t d).mp hd with
    | inl heq => exact hnodup.1 (heq.1 ▸ ht)
    | inr hold =>
        exact hwait.free t (List.mem_cons_of_mem _ ht) hold.linked

/-- Posted restarts always execute, each from the iteration in which it is executed. -/
theorem foldlM_doRestartTm_spec (hs : s.Core) (queue : List TimerId)
    (hwait : s.Waiting queue) :
    ∃ s', queue.foldlM doRestartTm s = some s' ∧ Executed (· ∈ queue) s s'
      ∧ s'.timers = s.timers
      ∧ ∀ t ∈ queue, ∀ cb, s.timers t = some cb →
        s'.Due t (s.iteration + delay cb.msec) := by
  induction queue generalizing s with
  | nil => exact ⟨s, rfl, .refl hs, rfl, fun _ h => (List.not_mem_nil h).elim⟩
  | cons timer rest ih =>
      obtain ⟨s₁, cb₁, hrestart, hcb₁, hfirst, hwait₁, hdue₁, htimers₁⟩ :=
        doRestartTm_spec hs hwait
      obtain ⟨s', hfold, hexec, htimers, hdue⟩ := ih hfirst.core hwait₁
      have hiter : s₁.iteration = s.iteration := hfirst.iteration
      refine ⟨s', ?_, ?_, htimers.trans htimers₁, ?_⟩
      · rw [List.foldlM_cons, hrestart]
        exact hfold
      · have hhead : Executed (· ∈ timer :: rest) s s₁ := by
          apply hfirst.mono
          intro t ht
          rw [ht]
          exact List.mem_cons_self
        exact hhead.trans (hexec.mono fun t ht => List.mem_cons_of_mem _ ht)
      · intro t ht cb hcb
        rw [← hiter]
        cases List.mem_cons.mp ht with
        | inl heq =>
            -- the restarts behind it leave it as it is
            have hnot : timer ∉ rest := (List.nodup_cons.mp hwait.nodup).1
            subst heq
            rw [hcb, Option.some.injEq] at hcb₁
            subst hcb₁
            rw [hexec.due t hnot, hiter]
            exact hdue₁
        | inr hmem => exact hdue t hmem cb (by rw [htimers₁]; exact hcb)

end Reltm

end Timer
end AndroidLinux
