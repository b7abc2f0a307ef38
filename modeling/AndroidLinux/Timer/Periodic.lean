import AndroidLinux.Timer.Expiry

/-!
# Periodic timers

A timer without `PETF_ONE_SHOOT` and `PETF_AUTO_FREE` is to expire every `exactTicks msec`
iterations.  `_trigger_a_timer` posts its restart on `rel_inter_tsklets`, which the next
iteration executes, and `_add2hash` counts the delay from there: the timer expires every
`delay msec + 1` iterations (`expires_iff`), one iteration late in every period.
-/

namespace AndroidLinux
namespace Timer

open Lib

/-- The restart of the timer can be posted. -/
def Action.Mallocs (timer : TimerId) : Action → Prop
  | .request _ => True
  | .tick env => env.malloc timer = true

/-- Of two iterations that end a period, the later one is a whole period later. -/
theorem eq_of_dvd_of_lt_add {period start d k : Nat} (hd : period ∣ d + 1 - start)
    (hk : period ∣ k + 1 - start) (hstart : start ≤ k) (hle : k ≤ d) (hlt : d < k + period) :
    d = k := by
  have hsub : d + 1 - start - (k + 1 - start) = d - k := by omega
  have hdvd : period ∣ d - k := hsub ▸ Nat.dvd_sub hd hk
  have hzero : d - k = 0 := Nat.eq_zero_of_dvd_of_lt hdvd (by omega)
  omega

/-- Iterations without calls of the interface. -/
theorem quiet_replicate (timer : TimerId) (k : Nat) :
    ∀ a ∈ Action.tick quietEnv :: List.replicate k (.tick quietEnv),
      ¬ a.Names timer ∧ a.Mallocs timer := by
  intro a hmem
  rw [← List.replicate_succ] at hmem
  rw [List.eq_of_mem_replicate hmem]
  exact ⟨not_names_quietEnv timer, rfl⟩

namespace Reltm

variable {s s' m : Reltm} {timer : TimerId} {start period : Nat} {cb : TmCb}

/-- From iteration `start` on the timer has expired at the end of every period. -/
structure Beats (s : Reltm) (timer : TimerId) (start period : Nat) : Prop where
  log : ∀ e ∈ s.expiries, e.timer = timer → start ≤ e.iteration →
    period ∣ e.iteration + 1 - start
  done : ∀ k, start ≤ k → k < s.iteration → period ∣ k + 1 - start →
    ∃ e ∈ s.expiries, e.timer = timer ∧ e.iteration = k

/-- The timer is due at the end of the current period. -/
def DueNext (s : Reltm) (timer : TimerId) (start period : Nat) : Prop :=
  ∃ d, s.Due timer d ∧ d < s.iteration + period ∧ period ∣ d + 1 - start

/-- A periodic timer after the tasklets of an iteration. -/
structure Cycling (m : Reltm) (timer : TimerId) (start : Nat) (cb : TmCb) : Prop where
  core : m.Core
  timers : m.timers timer = some cb
  begun : start ≤ m.iteration
  due : m.DueNext timer start (delay cb.msec + 1)
  beats : m.Beats timer start (delay cb.msec + 1)

/-- A periodic timer between two iterations: it is due, or a new period begins with the
coming iteration and its restart is posted. -/
structure Cycles (s : Reltm) (timer : TimerId) (start : Nat) (cb : TmCb) : Prop where
  wf : s.WF
  unnamed : ∀ task ∈ s.relTsklets, task.timer ≠ timer
  timers : s.timers timer = some cb
  mode : cb.AutoRestart
  begun : start ≤ s.iteration
  next : s.DueNext timer start (delay cb.msec + 1)
    ∨ timer ∈ s.relInterTsklets ∧ delay cb.msec + 1 ∣ s.iteration - start
  beats : s.Beats timer start (delay cb.msec + 1)

theorem Cycles.old (hs : s.Cycles timer start cb) : timer < s.nextTimer := by
  apply hs.wf.core.lt_nextTimer
  simp [hs.timers]

theorem Beats.congr (hs : s.Beats timer start period) (hlog : s'.expiries = s.expiries)
    (hiter : s'.iteration = s.iteration) : s'.Beats timer start period := by
  constructor
  · rw [hlog]
    exact hs.log
  · rw [hlog, hiter]
    exact hs.done

/-- The loops of an iteration let the timer expire if the period ends now. -/
theorem Beats.iterated (hm : m.Core) {env : TickEnv} (hbeats : m.Beats timer start period)
    (hdue : m.DueNext timer start period) (hiter : Iterated env m s') :
    s'.Beats timer start period := by
  obtain ⟨d, hd, hlt, hdvd⟩ := hdue
  obtain ⟨new, heq, hnew, hnow⟩ := hiter.expiries
  have hle : m.iteration ≤ d := hd.le
  constructor
  · intro e hmem htimer hstart
    rw [heq, List.mem_append] at hmem
    cases hmem with
    | inl hold => exact hbeats.log e hold htimer hstart
    | inr hin =>
        have hnowdue : m.Due timer m.iteration :=
          (hnew timer).mp (htimer ▸ List.mem_map_of_mem hin)
        rw [hnow e hin, ← hm.due_unique hd hnowdue]
        exact hdvd
  · intro k hstart hk hkdvd
    rw [hiter.iteration] at hk
    by_cases hold : k < m.iteration
    · obtain ⟨e, hmem, he⟩ := hbeats.done k hstart hold hkdvd
      exact ⟨e, heq ▸ List.mem_append_left _ hmem, he⟩
    · have hkm : k = m.iteration := by omega
      subst hkm
      have hdk : d = m.iteration := eq_of_dvd_of_lt_add hdvd hkdvd hstart hle hlt
      obtain ⟨e, hin, htimer⟩ := List.mem_map.mp ((hnew timer).mpr (hdk ▸ hd))
      exact ⟨e, heq ▸ List.mem_append_right _ hin, htimer, hnow e hin⟩

theorem Cycling.iterated {env : TickEnv} (hm : m.Cycling timer start cb)
    (hmode : cb.AutoRestart) (hqueue : m.relTsklets = []) (henv : ¬ env.Names timer)
    (hmalloc : env.malloc timer = true) (hiter : Iterated env m s') :
    s'.Cycles timer start cb := by
  obtain ⟨d, hd, hlt, hdvd⟩ := hm.due
  have hold : timer < m.nextTimer := by
    apply hm.core.lt_nextTimer
    simp [hm.timers]
  have hbegun := hm.begun
  have hnext := hiter.iteration
  have hunnamed : ∀ task ∈ s'.relTsklets, task.timer ≠ timer := by
    refine hiter.posts.unnamed hold henv ?_
    rw [hqueue]
    exact fun _ hmem => (List.not_mem_nil hmem).elim
  have hbeats := hm.beats.iterated hm.core hm.due hiter
  by_cases hnow : m.Due timer m.iteration
  · -- the period is over, and the restart is posted
    obtain ⟨hinter, hcb⟩ := hiter.rearmed timer cb hnow hm.timers hmode hmalloc
    refine ⟨hiter.wf, hunnamed, hcb, hmode, by omega, .inr ⟨hinter, ?_⟩, hbeats⟩
    rw [hnext, ← hm.core.due_unique hd hnow]
    exact hdvd
  · have hne : d ≠ m.iteration := by
      intro heq
      exact hnow (heq ▸ hd)
    refine ⟨hiter.wf, hunnamed, (hiter.others timer hold hnow).trans hm.timers, hmode,
      by omega, .inl ⟨d, (hiter.due timer d).mpr ⟨hd, hne⟩, by omega, hdvd⟩, hbeats⟩

/-- What the tasklets of an iteration do to a timer that none of them names: nothing, or
the posted restart. -/
theorem invokeTsklets_unnamed (hs : s.WF) (hunnamed : ∀ task ∈ s.relTsklets, task.timer ≠ timer)
    (hcb : s.timers timer = some cb) (hinvoke : s.invokeTsklets = some m) :
    m.timers timer = some cb ∧ (∀ d, s.Due timer d → m.Due timer d)
      ∧ (timer ∈ s.relInterTsklets → m.Due timer (s.iteration + delay cb.msec)) := by
  obtain ⟨s₁, hinter, hexec₁, htimers, hrestart⟩ := invokeRelInter_spec hs
  rw [invokeTsklets, hinter, Option.bind_some] at hinvoke
  have hexec₂ := invokeRel_spec hexec₁.core hinvoke
  have hqueue : s₁.relTsklets = s.relTsklets := hexec₁.relTsklets
  have huntouched : ¬ ∃ task ∈ s₁.relTsklets, task.timer = timer := by
    rw [hqueue]
    intro h
    obtain ⟨task, hmem, heq⟩ := h
    exact hunnamed task hmem heq
  refine ⟨?_, ?_, ?_⟩
  · rw [hexec₂.timers timer huntouched]
    change s₁.timers timer = some cb
    rw [htimers]
    exact hcb
  · intro d hd
    have hfree : timer ∉ s.relInterTsklets := by
      intro hmem
      exact hs.waiting.free timer hmem hd.linked
    exact (hexec₂.due timer huntouched d).mpr ((hexec₁.due timer hfree d).mpr hd)
  · intro hmem
    exact (hexec₂.due timer huntouched _).mpr (hrestart timer hmem cb hcb)

theorem Cycles.invoked (hs : s.Cycles timer start cb) (hinvoke : s.invokeTsklets = some m) :
    m.Cycling timer start cb := by
  have hexec := invokeTsklets_spec hs.wf hinvoke
  obtain ⟨hcb, hkept, hrestart⟩ := invokeTsklets_unnamed hs.wf hs.unnamed hs.timers hinvoke
  have hiter : m.iteration = s.iteration := hexec.iteration
  have hlog : m.expiries = s.expiries := hexec.expiries
  have hbegun := hs.begun
  refine ⟨hexec.core, hcb, by omega, ?_, hs.beats.congr hlog hiter⟩
  cases hs.next with
  | inl hdue =>
      obtain ⟨d, hd, hlt, hdvd⟩ := hdue
      exact ⟨d, hkept d hd, by omega, hdvd⟩
  | inr hnew =>
      -- the new period is counted from this iteration
      refine ⟨_, hrestart hnew.1, by omega, ?_⟩
      have hsum : s.iteration + delay cb.msec + 1 - start
          = (s.iteration - start) + (delay cb.msec + 1) := by
        omega
      rw [hsum]
      exact Nat.dvd_add hnew.2 (Nat.dvd_refl _)

theorem Cycles.step {a : Action} (hs : s.Cycles timer start cb) (hnames : ¬ a.Names timer)
    (hmalloc : a.Mallocs timer) (hstep : reltmMachine.step s a = some s') :
    s'.Cycles timer start cb := by
  cases a with
  | request r =>
      have heq : s.request r = s' := Option.some.inj hstep
      have hposted := request_posted s r
      rw [heq] at hposted
      have hiter := hposted.iteration
      have hbegun := hs.begun
      refine ⟨hs.wf.posted hposted, hposted.posts.unnamed hs.old hnames hs.unnamed,
        (hposted.timers timer hs.old).trans hs.timers, hs.mode, by omega, ?_,
        hs.beats.congr hposted.expiries hiter⟩
      rw [hposted.relInterTsklets, hiter]
      refine hs.next.imp_left fun hdue => ?_
      obtain ⟨d, hd, hlt, hdvd⟩ := hdue
      exact ⟨d, hposted.due_iff.mpr hd, by omega, hdvd⟩
  | tick env =>
      obtain ⟨m, hinvoke, hexec, hiter⟩ := reltmTrigger_cases hs.wf hstep
      have hqueue : m.relTsklets = [] := hexec.relTsklets
      exact (hs.invoked hinvoke).iterated hs.mode hqueue hnames hmalloc hiter

theorem Cycles.run (hs : s.Cycles timer start cb) (acts : List Action)
    (hacts : ∀ a ∈ acts, ¬ a.Names timer ∧ a.Mallocs timer)
    (hrun : reltmMachine.run s acts = some s') : s'.Cycles timer start cb :=
  Machine.run_invariant (I := fun s => s.Cycles timer start cb)
    (fun _ _ _ h hact hstep => h.step hact.1 hact.2 hstep) acts hacts hs hrun

/-! ## From the start on -/

/-- After the tasklets of the iteration that starts it, a periodic timer is in its first
period. -/
theorem cycling_of_started (hs : s.WF) {before after : List Tasklet} {msec : UInt32}
    {arg : Nat} (hqueue : s.relTsklets = before ++ .doStartTm timer msec arg :: after)
    (hafter : ∀ task ∈ after, task.timer ≠ timer) (hcb : s.timers timer = some cb)
    (hmode : cb.AutoRestart) (hinvoke : s.invokeTsklets = some m) :
    ∃ cb', cb'.AutoRestart ∧ cb'.msec = msec ∧ m.Cycling timer s.iteration cb' := by
  obtain ⟨hdue, cb₀, cb', hcb₀, hcb', hsame, hmsec⟩ := due_of_started hs hqueue hafter hinvoke
  rw [hcb, Option.some.injEq] at hcb₀
  subst hcb₀
  have hexec := invokeTsklets_spec hs hinvoke
  have hiter : m.iteration = s.iteration := hexec.iteration
  have hlog : m.expiries = s.expiries := hexec.expiries
  refine ⟨cb', ?_, hmsec, hexec.core, hcb', by omega, ⟨_, hdue, ?_, ?_⟩, ?_, ?_⟩
  · rw [TmCb.AutoRestart, hsame]
    exact hmode
  · rw [hmsec]
    omega
  · rw [hmsec]
    have hsum : s.iteration + delay msec + 1 - s.iteration = delay msec + 1 := by omega
    rw [hsum]
  · intro e hmem _ hstart
    have hpast := hs.past e (hlog ▸ hmem)
    omega
  · intro k hstart hk
    omega

section Started

variable {before after : List Tasklet} {msec : UInt32} {arg : Nat}

/-- A periodic timer expires every `delay msec + 1` iterations, in every run that does not
name it and can post its restarts. -/
theorem expires_iff (hs : s.WF)
    (hqueue : s.relTsklets = before ++ .doStartTm timer msec arg :: after)
    (hafter : ∀ task ∈ after, task.timer ≠ timer) (hcb : s.timers timer = some cb)
    (hmode : cb.AutoRestart) {env : TickEnv} {acts : List Action}
    (hacts : ∀ a ∈ Action.tick env :: acts, ¬ a.Names timer ∧ a.Mallocs timer)
    (hrun : reltmMachine.run s (.tick env :: acts) = some s') {k : Nat}
    (hstart : s.iteration ≤ k) (hk : k < s'.iteration) :
    (∃ e ∈ s'.expiries, e.timer = timer ∧ e.iteration = k)
      ↔ delay msec + 1 ∣ k + 1 - s.iteration := by
  rw [Machine.run] at hrun
  cases htick : reltmMachine.step s (.tick env) with
  | none => simp [htick] at hrun
  | some s₁ =>
      rw [htick] at hrun
      obtain ⟨m, hinvoke, hexec, hiter⟩ := reltmTrigger_cases hs htick
      obtain ⟨cb', hmode', hmsec, hcycling⟩ :=
        cycling_of_started hs hqueue hafter hcb hmode hinvoke
      obtain ⟨hnames, hmalloc⟩ := hacts _ List.mem_cons_self
      have hempty : m.relTsklets = [] := hexec.relTsklets
      have hcycles := hcycling.iterated hmode' hempty hnames hmalloc hiter
      have hbeats := (hcycles.run acts (fun a ha => hacts a (List.mem_cons_of_mem _ ha))
        hrun).beats
      rw [hmsec] at hbeats
      constructor
      · intro h
        obtain ⟨e, hmem, htimer, heq⟩ := h
        rw [← heq]
        exact hbeats.log e hmem htimer (heq ▸ hstart)
      · intro hdvd
        exact hbeats.done k hstart hk hdvd

/-- In every run that starts with the coming iteration, does not name the timer and can
post its restarts, its callback is called exactly in the iterations `n`, `2n`, `3n` and so
on after that one. -/
def Periodic (s : Reltm) (timer : TimerId) (n : Nat) : Prop :=
  ∀ env acts s', (∀ a ∈ Action.tick env :: acts, ¬ a.Names timer ∧ a.Mallocs timer) →
    reltmMachine.run s (.tick env :: acts) = some s' →
    ∀ k, s.iteration ≤ k → k < s'.iteration →
      ((∃ e ∈ s'.expiries, e.timer = timer ∧ e.iteration = k)
        ↔ ∃ j, k = s.iteration + (j + 1) * n)

/-- The iterations `d`, `2d + 1`, `3d + 2` and so on are not the multiples of any `n`. -/
theorem not_multiples (d n : Nat) :
    ∃ k, k ≤ 2 * d + 1 ∧ ¬ (d + 1 ∣ k + 1 ↔ ∃ j, k = (j + 1) * n) := by
  by_contra hall
  push Not at hall
  obtain ⟨i, hi⟩ := (hall d (by omega)).mp (Nat.dvd_refl _)
  obtain ⟨j, hj⟩ := (hall (2 * d + 1) (Nat.le_refl _)).mp ⟨2, by omega⟩
  -- `n` divides `d` and `2d + 1`
  have hone : n ∣ 2 * d + 1 - 2 * d :=
    Nat.dvd_sub ⟨j + 1, by rw [hj, Nat.mul_comm]⟩
      (Nat.dvd_mul_left_of_dvd ⟨i + 1, by rw [hi, Nat.mul_comm]⟩ 2)
  rw [Nat.add_sub_cancel_left] at hone
  have hn : n = 1 := Nat.dvd_one.mp hone
  subst hn
  have hnext := (hall (d + 1) (by omega)).mpr ⟨d, by omega⟩
  have hrest : d + 1 ∣ d + 1 + 1 - (d + 1) := Nat.dvd_sub hnext (Nat.dvd_refl _)
  rw [Nat.add_sub_cancel_left] at hrest
  have hd : d + 1 = 1 := Nat.dvd_one.mp hrest
  omega

/-- No periodic timer expires at the multiples of a period, whichever number of iterations
that is. -/
theorem not_periodic (hreach : reltmMachine.Reach s)
    (hqueue : s.relTsklets = before ++ .doStartTm timer msec arg :: after)
    (hafter : ∀ task ∈ after, task.timer ≠ timer) (hcb : s.timers timer = some cb)
    (hmode : cb.AutoRestart) (hinvoke : s.invokeTsklets.isSome) (n : Nat) :
    ¬ s.Periodic timer n := by
  intro hperiodic
  have hs := wf_of_reach hreach
  obtain ⟨k, hk, hnot⟩ := not_multiples (delay msec) n
  -- two periods without calls of the interface
  obtain ⟨s₁, htick, hwf₁, hqueue₁, hnow⟩ := exists_tick_quiet hs hinvoke
  obtain ⟨s', hrun, hend⟩ := exists_run_quiet hwf₁ hqueue₁ (2 * delay msec + 1)
  have hrun' : reltmMachine.run s (.tick quietEnv
      :: List.replicate (2 * delay msec + 1) (.tick quietEnv)) = some s' := by
    rw [Machine.run, htick]
    exact hrun
  have hquiet := quiet_replicate timer (2 * delay msec + 1)
  have hle : s.iteration ≤ s.iteration + k := Nat.le_add_right _ _
  have hlt : s.iteration + k < s'.iteration := by omega
  have hreal := expires_iff hs hqueue hafter hcb hmode hquiet hrun' hle hlt
  have hclaim := hperiodic quietEnv _ s' hquiet hrun' _ hle hlt
  have hsub : s.iteration + k + 1 - s.iteration = k + 1 := by omega
  rw [hsub] at hreal
  apply hnot
  rw [← hreal, hclaim]
  simp

end Started

/-- A periodic timer has been created and started for `msec` milliseconds. -/
def startedPeriodic (msec : UInt32) : Reltm :=
  (initReltm.request (.create (some 0) 0 true)).request (.start 0 msec 7 true true)

theorem reach_startedPeriodic (msec : UInt32) : reltmMachine.Reach (startedPeriodic msec) :=
  Machine.reach_of_run [.request (.create (some 0) 0 true),
    .request (.start 0 msec 7 true true)] rfl rfl

theorem relTsklets_startedPeriodic (msec : UInt32) :
    (startedPeriodic msec).relTsklets = [] ++ .doStartTm 0 msec 7 :: [] :=
  rfl

theorem timers_startedPeriodic (msec : UInt32) :
    (startedPeriodic msec).timers 0 = some ⟨0, 0, 0, 0⟩ :=
  rfl

/-- A timer of twenty milliseconds does not expire every second iteration. -/
theorem not_periodic_of_twenty : ¬ (startedPeriodic 20).Periodic 0 2 :=
  not_periodic (reach_startedPeriodic 20) (relTsklets_startedPeriodic 20)
    (fun _ hmem => (List.not_mem_nil hmem).elim) (timers_startedPeriodic 20)
    ⟨by decide, by decide⟩ (by decide +kernel) 2

/-- A timer of ten milliseconds that is started in iteration 0 expires in the iterations 1
and 3, and not in iteration 2. -/
theorem ten_drifts :
    reltmMachine.Reach (startedPeriodic 10)
      ∧ (startedPeriodic 10).relTsklets = [.doStartTm 0 10 7]
      ∧ exactTicks 10 = 1
      ∧ ¬ (startedPeriodic 10).Periodic 0 (exactTicks 10) := by
  refine ⟨reach_startedPeriodic 10, rfl, by decide, ?_⟩
  intro hperiodic
  have hlog : (reltmMachine.run (startedPeriodic 10) (List.replicate 4 (.tick quietEnv))).map
      (fun s => (s.iteration, s.expiries.map (fun e => (e.timer, e.iteration))))
      = some (4, [(0, 1), (0, 3)]) := by
    decide +kernel
  obtain ⟨s', hrun, hobs⟩ := Option.map_eq_some_iff.mp hlog
  rw [Prod.mk.injEq] at hobs
  have hclaim := hperiodic quietEnv _ s' (quiet_replicate 0 3) hrun 2 (Nat.zero_le _)
    (by omega)
  obtain ⟨e, hmem, he⟩ := hclaim.mpr ⟨1, by decide⟩
  have hpair : (e.timer, e.iteration) ∈ [(0, 1), (0, 3)] := by
    rw [← hobs.2]
    exact List.mem_map_of_mem hmem
  rw [he.1, he.2] at hpair
  exact absurd hpair (by decide)

end Reltm
end Timer
end AndroidLinux
