import AndroidLinux.Timer.TickThread

/-!
# A stopped timer stays silent

A periodic timer that has fired is in no list of the wheel, but its restart is posted on
`rel_inter_tsklets`.  A stop is stronger than such a restart because `rel_inter_tsklets` is
empty whenever a tasklet of `rel_tsklets` is executed: what was posted there has been
executed before, and the stop finds the timer in the wheel.  After the stop the timer is
neither linked nor posted (`History.silent`), and only a start changes that.
-/

namespace AndroidLinux
namespace Timer

open Lib

/-- A stop or a free of the timer is among the tasklets, and no start of it after that. -/
def Silenced (timer : TimerId) (tasks : List Tasklet) : Prop :=
  ∃ before task after, tasks = before ++ task :: after ∧ task.Silences timer
    ∧ ∀ msec arg, .doStartTm timer msec arg ∉ after

theorem not_silenced_nil (timer : TimerId) : ¬ Silenced timer [] := by
  intro h
  obtain ⟨before, task, after, heq, _⟩ := h
  simp at heq

/-- With one more tasklet, a timer is silenced by that tasklet or was before. -/
theorem Silenced.of_concat {timer : TimerId} {tasks : List Tasklet} {task : Tasklet}
    (h : Silenced timer (tasks ++ [task])) :
    task.Silences timer
      ∨ Silenced timer tasks ∧ ∀ msec arg, task ≠ .doStartTm timer msec arg := by
  obtain ⟨before, stop, after, heq, hstop, hafter⟩ := h
  cases after using List.reverseRecOn with
  | nil =>
      obtain ⟨_, hlast⟩ := List.append_inj' heq rfl
      rw [List.cons.injEq] at hlast
      exact .inl (hlast.1 ▸ hstop)
  | append_singleton after last =>
      rw [← List.cons_append, ← List.append_assoc] at heq
      obtain ⟨htasks, hlast⟩ := List.append_inj' heq rfl
      rw [List.cons.injEq] at hlast
      refine .inr ⟨⟨before, stop, after, htasks, hstop, fun msec arg hmem => ?_⟩,
        fun msec arg hstart => ?_⟩
      · exact hafter msec arg (List.mem_append_left _ hmem)
      · apply hafter msec arg
        rw [← hstart, hlast.1]
        exact List.mem_append_right _ (List.mem_singleton_self last)

/-- A tasklet is a start of its timer, or a stop or a free of it. -/
theorem Tasklet.silences_or_starts (task : Tasklet) :
    task.Silences task.timer ∨ ∃ msec arg, task = .doStartTm task.timer msec arg := by
  cases task with
  | doStartTm t msec arg => exact .inr ⟨msec, arg, rfl⟩
  | doStopTm t => exact .inl rfl
  | doFreeTm t => exact .inl rfl

/-- The timer is in a list of the wheel or its restart is posted. -/
def Reltm.Active (r : Reltm) (timer : TimerId) : Prop :=
  r.Linked timer ∨ timer ∈ r.relInterTsklets

namespace TickThread

variable {s s' : TickThread}

/-- What has been posted, executed and called so far. -/
structure History (s : TickThread) : Prop where
  order : s.posted = s.executed ++ s.reltm.relTsklets
  silent : ∀ timer, Silenced timer s.executed → ¬ s.reltm.Active timer
  calls : ∀ c ∈ s.calls, c.before <+: s.executed ∧ ¬ Silenced c.timer c.before

/-- A step that executes no tasklet of `rel_tsklets` and makes no timer active. -/
theorem History.of_active (h : s.History) (hposted : s'.posted = s.posted)
    (hexecuted : s'.executed = s.executed) (hcalls : s'.calls = s.calls)
    (hrel : s'.reltm.relTsklets = s.reltm.relTsklets)
    (hactive : ∀ timer, s'.reltm.Active timer → s.reltm.Active timer) : s'.History := by
  refine ⟨?_, ?_, ?_⟩
  · rw [hposted, hexecuted, hrel]
    exact h.order
  · intro timer hsilenced hin
    rw [hexecuted] at hsilenced
    exact h.silent timer hsilenced (hactive timer hin)
  · rw [hcalls, hexecuted]
    exact h.calls

theorem History.request (h : s.History) (r : Request) :
    History { s with
      reltm := s.reltm.request r
      posted := s.posted
        ++ (s.reltm.request r).relTsklets.drop s.reltm.relTsklets.length } := by
  have hposted := Reltm.request_posted s.reltm r
  obtain ⟨posts, hposts, _⟩ := hposted.posts
  refine ⟨?_, ?_, h.calls⟩
  · change s.posted ++ (s.reltm.request r).relTsklets.drop s.reltm.relTsklets.length
      = s.executed ++ (s.reltm.request r).relTsklets
    rw [hposts, List.drop_left, h.order, List.append_assoc]
  · intro timer hsilenced hin
    apply h.silent timer hsilenced
    have hinter : (s.reltm.request r).relInterTsklets = s.reltm.relInterTsklets :=
      hposted.relInterTsklets
    cases hin with
    | inl hlinked => exact .inl (hposted.linked_iff.mp hlinked)
    | inr hmem => exact .inr (hinter ▸ hmem)

/-- The execution of one tasklet of `rel_tsklets`. -/
theorem History.execute (h : s.History) (hs : s.WF) {task : Tasklet} {rest : List Tasklet}
    {r : Reltm} (hphase : s.phase = .executing)
    (hqueue : s.reltm.relTsklets = task :: rest) (hexec : s.reltm.execute task = some r) :
    History { s with
      reltm := { r with relTsklets := rest }
      executed := s.executed ++ [task] } := by
  have hspec := Reltm.execute_spec hs.core hexec
  have hok := hs.phase
  rw [hphase] at hok
  have hinter : r.relInterTsklets = [] := hspec.relInterTsklets.trans hok
  refine ⟨?_, ?_, ?_⟩
  · change s.posted = (s.executed ++ [task]) ++ rest
    rw [h.order, hqueue, List.append_assoc]
    rfl
  · intro timer hsilenced hin
    -- the interrupt list is empty while tasklets are executed
    have hlinked : r.Linked timer := by
      cases hin with
      | inl hlinked => exact hlinked
      | inr hmem =>
          change timer ∈ r.relInterTsklets at hmem
          rw [hinter] at hmem
          cases hmem
    cases hsilenced.of_concat with
    | inl hstop => exact Reltm.execute_silences hs.core hexec hstop hlinked
    | inr hbefore =>
        by_cases heq : timer = task.timer
        · -- the tasklet is no start of the timer, and so it silences it again
          cases task.silences_or_starts with
          | inl hstop => exact Reltm.execute_silences hs.core hexec (heq ▸ hstop) hlinked
          | inr hstart =>
              obtain ⟨msec, arg, hstart⟩ := hstart
              exact hbefore.2 msec arg (heq ▸ hstart)
        · exact h.silent timer hbefore.1 (.inl ((hspec.linked_iff heq).mp hlinked))
  · intro c hmem
    obtain ⟨hpre, hcall⟩ := h.calls c hmem
    exact ⟨hpre.trans (List.prefix_append _ _), hcall⟩

theorem History.turn (h : s.History) (hs : s.WF) (hturn : Turn s s') : s'.History := by
  have hok := hs.phase
  cases hturn with
  | restart hphase hqueue hrestart =>
      rename_i timer rest r
      have hexec := (hs.restart hqueue hrestart).1
      refine h.of_active rfl rfl rfl hexec.relTsklets fun t hin => ?_
      rw [Reltm.Active, hqueue]
      by_cases heq : t = timer
      · exact .inr (heq ▸ List.mem_cons_self)
      · exact hin.imp (hexec.linked_iff heq).mp (List.mem_cons_of_mem _)
  | restarted hphase hqueue => exact h.of_active rfl rfl rfl rfl fun _ hin => hin
  | execute hphase hqueue hexec => exact h.execute hs hphase hqueue hexec
  | executed hphase hqueue => exact h.of_active rfl rfl rfl rfl fun _ hin => hin
  | call hphase hhead hnow hcb =>
      rename_i link item rest cb
      rw [hphase] at hok
      refine ⟨h.order, h.silent, fun c hmem => ?_⟩
      cases List.mem_append.mp hmem with
      | inl hold => exact h.calls c hold
      | inr hlast =>
          rw [List.mem_singleton.mp hlast]
          refine ⟨List.prefix_refl _, fun hsilenced => ?_⟩
          -- a timer that is called is linked, and no silenced timer is
          have hdue := hs.core.due_of_expired ⟨hok, item, rest, hhead, rfl, hnow⟩
          exact h.silent item.timer hsilenced (.inl hdue.linked)
  | scanned hphase hempty => exact h.of_active rfl rfl rfl rfl fun _ hin => hin
  | returned hphase hreturn =>
      rename_i link timer malloc r
      rw [hphase] at hok
      have hspec := Reltm.returnOf_spec hs.core hs.waiting hok hreturn
      refine h.of_active rfl rfl rfl hspec.relTsklets fun t hin => ?_
      cases hin with
      | inl hlinked => exact .inl (hspec.linked hlinked)
      | inr hmem =>
          cases hspec.inter t hmem with
          | inl hold => exact .inr hold
          | inr heq =>
              have hdue := hs.core.due_of_expired hok
              exact .inl (heq ▸ hdue.linked)
  | ended hphase hstay =>
      rw [hphase] at hok
      obtain ⟨_, _, _, hdue⟩ := Reltm.nextTick_spec hs.core (hok rfl) hstay
      refine h.of_active rfl rfl rfl rfl fun t hin => hin.imp_left fun hlinked => ?_
      obtain ⟨d, hd⟩ := Reltm.linked_iff_due.mp hlinked
      exact ((hdue t d).mp hd).linked

theorem history_of_reach (hreach : tickMachine.Reach s) : s.History := by
  have hboth : s.WF ∧ s.History := by
    refine Machine.ReachWhen.invariant (I := fun s => s.WF ∧ s.History) ?_ ?_ hreach
    · intro s₀ hinit
      refine ⟨wf_of_reach (.init hinit), ?_⟩
      rw [show s₀ = initTickThread from hinit]
      exact ⟨rfl, fun timer h => (not_silenced_nil timer h).elim,
        fun c hmem => (List.not_mem_nil hmem).elim⟩
    · intro s₀ a s₁ h _ hstep
      refine ⟨h.1.step hstep, ?_⟩
      cases step_cases hstep with
      | inl hrequest =>
          obtain ⟨r, _, rfl⟩ := hrequest
          exact h.2.request r
      | inr hadvance => exact h.2.turn h.1 hadvance.2
  exact hboth.2

/-- Tasklets are executed in the order in which they were posted; when a callback is called,
every stop or free of its timer that has been executed is followed by a start that has been
executed; and a timer is in at most one list, once. -/
theorem silent_after_stop (hreach : tickMachine.Reach s) :
    s.posted = s.executed ++ s.reltm.relTsklets
    ∧ (∀ c ∈ s.calls, c.before <+: s.executed
      ∧ ∀ before task after, c.before = before ++ task :: after → task.Silences c.timer →
        ∃ msec arg, .doStartTm c.timer msec arg ∈ after)
    ∧ (∀ i, (((s.reltm.tmHash i).zeroLink ++ (s.reltm.tmHash i).sortedLink).map
      Entry.timer).Nodup)
    ∧ ∀ i j timer, (s.reltm.tmHash i).holds timer = true →
      (s.reltm.tmHash j).holds timer = true → i = j := by
  have hcore := (wf_of_reach hreach).core
  have h := history_of_reach hreach
  refine ⟨h.order, fun c hmem => ?_, fun i => ?_, fun i j timer hi hj => ?_⟩
  · obtain ⟨hpre, hcall⟩ := h.calls c hmem
    refine ⟨hpre, fun before task after heq hstop => ?_⟩
    by_contra hnone
    exact hcall ⟨before, task, after, heq, hstop, fun msec arg hin => hnone ⟨msec, arg, hin⟩⟩
  · have hnodup := (hcore.buckets i).nodup
    rw [TmHash.timers_eq] at hnodup
    simpa [deltas, Function.comp_def] using hnodup
  · exact hcore.once i j timer (TmHash.holds_iff.mp hi) (TmHash.holds_iff.mp hj)

/-- A periodic timer of ten milliseconds is stopped by its own callback while its restart
is not yet posted, stays silent, and is started again. -/
def stoppedInCallback : List Move :=
  [.request (.create (some 0) 0 true), .request (.start 0 10 0 true true)]
    ++ List.replicate 8 (.advance true)
    ++ [.request (.stop 0 true true)]
    ++ List.replicate 9 (.advance true)
    ++ [.request (.start 0 10 0 true true)]
    ++ List.replicate 8 (.advance true)

theorem run_stoppedInCallback :
    (tickMachine.run initTickThread stoppedInCallback).map
      (fun s => (s.phase, s.calls))
      = some (.calling .zero 0, [⟨0, [.doStartTm 0 10 0]⟩,
        ⟨0, [.doStartTm 0 10 0, .doStopTm 0, .doStartTm 0 10 0]⟩]) := by
  decide +kernel

/-- The second call of the callback is owed to the start behind the stop. -/
theorem called_after_restart :
    ∃ s, tickMachine.Reach s
      ∧ ⟨0, [.doStartTm 0 10 0, .doStopTm 0, .doStartTm 0 10 0]⟩ ∈ s.calls
      ∧ ∃ msec arg, .doStartTm 0 msec arg ∈ [Tasklet.doStartTm 0 10 0] := by
  obtain ⟨s, hrun, hobs⟩ := Option.map_eq_some_iff.mp run_stoppedInCallback
  rw [Prod.mk.injEq] at hobs
  have hreach : tickMachine.Reach s := Machine.reach_of_run stoppedInCallback rfl hrun
  have hcall : ⟨0, [.doStartTm 0 10 0, .doStopTm 0, .doStartTm 0 10 0]⟩ ∈ s.calls := by
    rw [hobs.2]
    simp
  obtain ⟨_, hcalls, _⟩ := silent_after_stop hreach
  exact ⟨s, hreach, hcall,
    (hcalls _ hcall).2 [.doStartTm 0 10 0] (.doStopTm 0) [.doStartTm 0 10 0] rfl rfl⟩

end TickThread
end Timer
end AndroidLinux
