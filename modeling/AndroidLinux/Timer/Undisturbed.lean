import AndroidLinux.Timer.TickThread

/-!
# Timers do not disturb each other

A step of the timer thread links, unlinks or frees at most one timer (`worksOn`).  Every
other timer keeps the iteration in which it is due, and so the sum of the deltas up to its
entry.  Only the end of an iteration changes the sums of a bucket, all by the turn that is
over.

`FiresIn` says what due means for the callback: in every run from the state on that
executes no tasklet of the timer, the callback is first called in that iteration.
-/

namespace AndroidLinux
namespace Timer

open Lib

namespace Reltm

variable {r r' : Reltm} {timer : TimerId}

/-- Bucket and turns of a timer can be read off its due iteration. -/
theorem mem_pending_iff_due {i : Fin tmHashLen} {turns : Nat} :
    (timer, turns) ∈ (r.tmHash i).pending
      ↔ r.Due timer (visit r.iteration i + 1024 * turns) := by
  constructor
  · intro hmem
    exact ⟨i, turns, hmem, rfl⟩
  · intro hdue
    obtain ⟨j, turns', hmem, heq⟩ := hdue
    have hi : i.val < 1024 := i.isLt
    have hj : j.val < 1024 := j.isLt
    rw [visit, visit] at heq
    have hij : i = j := by
      apply Fin.ext
      omega
    subst hij
    have hturns : turns = turns' := by omega
    exact hturns ▸ hmem

/-- The turns of bucket `i` that are over between two states. -/
def turnsOver (r r' : Reltm) (i : Fin tmHashLen) : Nat :=
  if r'.iteration = r.iteration then 0 else if i = bucket r.tickLast then 1 else 0

/-- A timer keeps its due iteration, and the deltas up to its entry keep their sum. -/
structure Undisturbed (timer : TimerId) (r r' : Reltm) : Prop where
  due : ∀ d, r'.Due timer d ↔ r.Due timer d
  sums : ∀ i turns, (timer, turns) ∈ (r'.tmHash i).pending
    ↔ (timer, turns + turnsOver r r' i) ∈ (r.tmHash i).pending

theorem Undisturbed.of_due (hiter : r'.iteration = r.iteration)
    (hdue : ∀ d, r'.Due timer d ↔ r.Due timer d) : Undisturbed timer r r' := by
  refine ⟨hdue, fun i turns => ?_⟩
  rw [turnsOver, if_pos hiter, Nat.add_zero, mem_pending_iff_due, mem_pending_iff_due, hiter]
  exact hdue _

/-- The end of an iteration takes one turn off every timer of the bucket. -/
theorem undisturbed_nextTick (hs : r.Core) (hzero : r.current.zeroLink = [])
    (hleave : leave r.current.sortedLink = []) :
    Undisturbed timer r (r.nextTick (stay r.current.sortedLink)) := by
  obtain ⟨_, _, hhash, hdue⟩ := nextTick_spec hs hzero hleave
  refine ⟨hdue timer, fun i turns => ?_⟩
  have hiter : (r.nextTick (stay r.current.sortedLink)).iteration ≠ r.iteration :=
    Nat.succ_ne_self r.iteration
  rw [turnsOver, if_neg hiter, hhash]
  by_cases hi : i = bucket r.tickLast
  · subst hi
    rw [Function.update_self, if_pos rfl]
    exact TmHash.mem_pending_turned (hs.buckets _)
  · rw [Function.update_of_ne hi, if_neg hi, Nat.add_zero]

end Reltm

namespace TickThread

variable {s s' : TickThread} {timer : TimerId} {d : Nat} {a : Move}

/-- The timer that a step links, unlinks or frees. -/
def worksOn (s : TickThread) : Move → Option TimerId
  | .request _ => none
  | .advance _ =>
      match s.phase with
      | .restarting => s.reltm.relInterTsklets.head?
      | .executing => s.reltm.relTsklets.head?.map Tasklet.timer
      | .scanning _ => none
      | .calling _ timer => some timer

/-- A step leaves every timer alone that it does not work on. -/
theorem WF.undisturbed (hs : s.WF) (hstep : tickMachine.step s a = some s')
    (hother : s.worksOn a ≠ some timer) : Reltm.Undisturbed timer s.reltm s'.reltm := by
  have hok := hs.phase
  cases step_cases hstep with
  | inl hrequest =>
      obtain ⟨r, _, rfl⟩ := hrequest
      have hposted := Reltm.request_posted s.reltm r
      exact .of_due hposted.iteration fun d => hposted.due_iff
  | inr hadvance =>
      obtain ⟨⟨malloc, rfl⟩, hturn⟩ := hadvance
      -- in each step that touches a timer, `worksOn` names it
      cases hturn with
      | restart hphase hqueue hrestart =>
          rename_i t rest r
          have hne : timer ≠ t := by
            intro heq
            apply hother
            simp [worksOn, hphase, hqueue, heq]
          have hexec := (hs.restart hqueue hrestart).1
          exact .of_due hexec.iteration (hexec.due timer hne)
      | restarted hphase hqueue => exact .of_due rfl fun d => Iff.rfl
      | execute hphase hqueue hexec =>
          rename_i task rest r
          have hne : timer ≠ task.timer := by
            intro heq
            apply hother
            simp [worksOn, hphase, hqueue, heq]
          have hspec := Reltm.execute_spec hs.core hexec
          exact .of_due hspec.iteration (hspec.due timer hne)
      | executed hphase hqueue => exact .of_due rfl fun d => Iff.rfl
      | call hphase hhead hnow hcb => exact .of_due rfl fun d => Iff.rfl
      | scanned hphase hempty => exact .of_due rfl fun d => Iff.rfl
      | returned hphase hreturn =>
          rename_i link t malloc' r
          have hne : timer ≠ t := by
            intro heq
            apply hother
            simp [worksOn, hphase, heq]
          rw [hphase] at hok
          have hspec := Reltm.returnOf_spec hs.core hs.waiting hok hreturn
          refine .of_due hspec.iteration fun d => ?_
          rw [hspec.due]
          exact and_iff_right hne
      | ended hphase hstay =>
          rw [hphase] at hok
          exact Reltm.undisturbed_nextTick hs.core (hok rfl) hstay

/-! ## When the callback is called -/

/-- The timer is due in iteration `d`, and its callback has not been called for it. -/
structure Pending (s : TickThread) (timer : TimerId) (d : Nat) : Prop where
  due : s.reltm.Due timer d
  uncalled : ∀ link, s.phase ≠ .calling link timer

/-- A step that executes no tasklet of the timer. -/
def Spares (timer : TimerId) (s : TickThread) (a : Move) : Prop :=
  s.phase = .executing → s.worksOn a ≠ some timer

/-- The callbacks called between `s` and `s'`. -/
def callsSince (s s' : TickThread) : List Expiry :=
  s'.reltm.expiries.drop s.reltm.expiries.length

/-- In every run from `s` on that executes no tasklet of the timer, its callback is first
called in iteration `d`. -/
def FiresIn (s : TickThread) (timer : TimerId) (d : Nat) : Prop :=
  ∀ s', (tickMachine.resume s).ReachWhen (Spares timer) s' →
    (∀ e ∈ callsSince s s', e.timer = timer → d ≤ e.iteration)
    ∧ (d < s'.reltm.iteration → ∃ e ∈ callsSince s s', e.timer = timer ∧ e.iteration = d)

/-- A step calls at most one callback, and only of a timer that is due. -/
theorem WF.logged (hs : s.WF) (hstep : tickMachine.step s a = some s') :
    (s'.reltm.expiries = s.reltm.expiries ∧ s.reltm.iteration ≤ s'.reltm.iteration
      ∧ ∀ link t, s'.phase = .calling link t → s.phase = .calling link t)
    ∨ ∃ link e, s'.phase = .calling link e.timer
      ∧ s'.reltm.expiries = s.reltm.expiries ++ [e]
      ∧ e.iteration = s.reltm.iteration ∧ s'.reltm.iteration = s.reltm.iteration
      ∧ s.reltm.Due e.timer s.reltm.iteration := by
  have hok := hs.phase
  cases step_cases hstep with
  | inl hrequest =>
      obtain ⟨r, _, rfl⟩ := hrequest
      have hposted := Reltm.request_posted s.reltm r
      exact .inl ⟨hposted.expiries, hposted.iteration.ge, fun _ _ h => h⟩
  | inr hadvance =>
      cases hadvance.2 with
      | restart hphase hqueue hrestart =>
          rename_i t rest r
          have hexec := (hs.restart hqueue hrestart).1
          exact .inl ⟨hexec.expiries, hexec.iteration.ge, fun _ _ h => h⟩
      | restarted hphase hqueue =>
          exact .inl ⟨rfl, Nat.le_refl _, fun _ _ h => by cases h⟩
      | execute hphase hqueue hexec =>
          rename_i task rest r
          have hspec := Reltm.execute_spec hs.core hexec
          exact .inl ⟨hspec.expiries, hspec.iteration.ge, fun _ _ h => h⟩
      | executed hphase hqueue =>
          exact .inl ⟨rfl, Nat.le_refl _, fun _ _ h => by cases h⟩
      | call hphase hhead hnow hcb =>
          rw [hphase] at hok
          exact .inr ⟨_, _, rfl, rfl, rfl, rfl,
            hs.core.due_of_expired ⟨hok, _, _, hhead, rfl, hnow⟩⟩
      | scanned hphase hempty =>
          exact .inl ⟨rfl, Nat.le_refl _, fun _ _ h => by cases h⟩
      | returned hphase hreturn =>
          rw [hphase] at hok
          have hspec := Reltm.returnOf_spec hs.core hs.waiting hok hreturn
          exact .inl ⟨hspec.expiries, hspec.iteration.ge, fun _ _ h => by cases h⟩
      | ended hphase hstay =>
          exact .inl ⟨rfl, Nat.le_succ _, fun _ _ h => by cases h⟩

/-- A step that executes no tasklet of a pending timer does not work on it. -/
theorem Pending.not_worksOn (hs : s.WF) (hpending : s.Pending timer d)
    (hspares : Spares timer s a) : s.worksOn a ≠ some timer := by
  intro hworks
  cases a with
  | request r => cases hworks
  | advance malloc =>
      rw [worksOn] at hworks
      cases hphase : s.phase with
      | restarting =>
          simp only [hphase] at hworks
          have hmem := List.mem_of_mem_head? hworks
          exact hs.waiting.free timer hmem hpending.due.linked
      | executing =>
          apply hspares hphase
          simpa [worksOn, hphase] using hworks
      | scanning link => simp [hphase] at hworks
      | calling link t =>
          simp only [hphase, Option.some.injEq] at hworks
          exact hpending.uncalled link (hworks ▸ hphase)

/-- The calls of a timer that is due in iteration `d`, after a part of a run. -/
structure Tracked (base : List Expiry) (timer : TimerId) (d : Nat) (s : TickThread) :
    Prop where
  wf : s.WF
  log : ∃ new, s.reltm.expiries = base ++ new
    ∧ (∀ e ∈ new, e.timer = timer → d ≤ e.iteration)
    ∧ (s.Pending timer d
      ∨ d ≤ s.reltm.iteration ∧ ∃ e ∈ new, e.timer = timer ∧ e.iteration = d)

theorem Tracked.step {base : List Expiry} (h : Tracked base timer d s)
    (hspares : Spares timer s a) (hstep : tickMachine.step s a = some s') :
    Tracked base timer d s' := by
  refine ⟨h.wf.step hstep, ?_⟩
  obtain ⟨new, hlog, hfirst, hstate⟩ := h.log
  obtain ⟨hsame, hle, hphase⟩ | ⟨link, e, hphase, hcall, hnow, hiter, hdue⟩ :=
    h.wf.logged hstep
  · refine ⟨new, hsame.trans hlog, hfirst, ?_⟩
    cases hstate with
    | inl hpending =>
        have hkept := h.wf.undisturbed hstep (hpending.not_worksOn h.wf hspares)
        left
        exact ⟨(hkept.due d).mpr hpending.due,
          fun link hcalling => hpending.uncalled link (hphase link timer hcalling)⟩
    | inr hdone => exact .inr ⟨hdone.1.trans hle, hdone.2⟩
  · refine ⟨new ++ [e], by rw [hcall, hlog, List.append_assoc], ?_, ?_⟩
    · intro e' hmem htimer
      rw [List.mem_append, List.mem_singleton] at hmem
      cases hmem with
      | inl hold => exact hfirst e' hold htimer
      | inr hlast =>
          subst hlast
          rw [hnow]
          cases hstate with
          | inl hpending =>
              rw [htimer] at hdue
              exact Nat.le_of_eq (h.wf.core.due_unique hpending.due hdue)
          | inr hdone => exact hdone.1
    · cases hstate with
      | inl hpending =>
          by_cases heq : e.timer = timer
          · -- this is the call the timer has been waiting for
            rw [heq] at hdue
            have hd := h.wf.core.due_unique hpending.due hdue
            refine .inr ⟨by omega, e, List.mem_append_right _ (List.mem_singleton_self e), heq,
              by omega⟩
          · have hkept := h.wf.undisturbed hstep (hpending.not_worksOn h.wf hspares)
            refine .inl ⟨(hkept.due d).mpr hpending.due, fun link' hcalling => heq ?_⟩
            rw [hphase] at hcalling
            exact (Phase.calling.inj hcalling).2
      | inr hdone =>
          obtain ⟨e', hmem, he'⟩ := hdone.2
          exact .inr ⟨by omega, e', List.mem_append_left _ hmem, he'⟩

theorem WF.firesIn (hs : s.WF) (hpending : s.Pending timer d) : s.FiresIn timer d := by
  intro s' hreach
  have htracked : Tracked s.reltm.expiries timer d s' := by
    refine Machine.ReachWhen.invariant ?_ ?_ hreach
    · intro s₀ hinit
      rw [show s₀ = s from hinit]
      exact ⟨hs, [], by simp, by simp, .inl hpending⟩
    · intro s₀ a s₁ h hspares hstep
      exact h.step hspares hstep
  obtain ⟨new, hlog, hfirst, hstate⟩ := htracked.log
  have hsince : callsSince s s' = new := by
    rw [callsSince, hlog, List.drop_left]
  rw [hsince]
  refine ⟨hfirst, fun hlt => ?_⟩
  cases hstate with
  | inl hwaits =>
      have hle := hwaits.due.le
      omega
  | inr hdone => exact hdone.2

/-- In every reachable state the low bits of a `sorted_link` name the bucket, a pending
timer fires in its due iteration, and no step changes that iteration, or the sum of the
deltas behind it, of a timer it does not work on. -/
theorem timers_undisturbed (hreach : tickMachine.Reach s) :
    (∀ i, ∀ e ∈ (s.reltm.tmHash i).sortedLink, e.ticksLeft.toNat % 1024 = i.val)
    ∧ (∀ timer d, s.Pending timer d → s.FiresIn timer d)
    ∧ ∀ a s', tickMachine.step s a = some s' → ∀ timer, s.worksOn a ≠ some timer →
      Reltm.Undisturbed timer s.reltm s'.reltm
      ∧ ∀ d, s.Pending timer d → (∀ link, s'.phase ≠ .calling link timer) →
        s'.FiresIn timer d := by
  have hs := wf_of_reach hreach
  refine ⟨fun i => (hs.core.buckets i).low, fun timer d => hs.firesIn, ?_⟩
  intro a s' hstep timer hother
  have hkept := hs.undisturbed hstep hother
  refine ⟨hkept, fun d hpending huncalled => ?_⟩
  have hpending' : s'.Pending timer d := ⟨(hkept.due d).mpr hpending.due, huncalled⟩
  exact (hs.step hstep).firesIn hpending'

/-- Two timers of the `sorted_link` of bucket 1 have been started, and the stop of the
first is about to be executed. -/
def stopNext : List Move :=
  [.request (.create (some 0) 0 true), .request (.create (some 0) 0 true),
    .request (.start 0 10250 0 true true), .request (.start 1 20490 0 true true),
    .request (.stop 0 true true), .advance true, .advance true, .advance true]

theorem run_stopNext :
    (tickMachine.run initTickThread stopNext).map
      (fun s => decide (s.worksOn (.advance true) = some 0 ∧ s.reltm.iteration = 0
        ∧ (1, 2) ∈ (s.reltm.tmHash 1).pending ∧ s.phase = .executing
        ∧ (tickMachine.step s (.advance true)).map
          (fun s' => (s'.reltm.iteration, s'.phase)) = some (0, .executing)))
      = some true := by
  decide +kernel

/-- The stop of the first timer leaves the second one due in iteration 2049. -/
theorem second_undisturbed :
    ∃ s s', tickMachine.Reach s ∧ tickMachine.step s (.advance true) = some s'
      ∧ s.worksOn (.advance true) = some 0 ∧ (1, 2) ∈ (s'.reltm.tmHash 1).pending
      ∧ s'.FiresIn 1 2049 := by
  obtain ⟨s, hrun, hobs⟩ := Option.map_eq_some_iff.mp run_stopNext
  obtain ⟨hworks, hiter, hmem, hphase, hnext⟩ := of_decide_eq_true hobs
  obtain ⟨s', hstep, hafter⟩ := Option.map_eq_some_iff.mp hnext
  rw [Prod.mk.injEq] at hafter
  have hreach : tickMachine.Reach s := Machine.reach_of_run stopNext rfl hrun
  have hother : s.worksOn (.advance true) ≠ some 1 := by
    rw [hworks]
    decide
  have hpending : s.Pending 1 2049 := by
    refine ⟨⟨1, 2, hmem, ?_⟩, fun link h => ?_⟩
    · rw [hiter]
      rfl
    · rw [hphase] at h
      cases h
  obtain ⟨_, _, hsteps⟩ := timers_undisturbed hreach
  obtain ⟨hkept, hfires⟩ := hsteps (.advance true) s' hstep 1 hother
  refine ⟨s, s', hreach, hstep, hworks, ?_, ?_⟩
  · rw [hkept.sums, Reltm.turnsOver, if_pos (hafter.1.trans hiter.symm)]
    exact hmem
  · refine hfires 2049 hpending fun link h => ?_
    rw [hafter.2] at h
    cases h

end TickThread
end Timer
end AndroidLinux
