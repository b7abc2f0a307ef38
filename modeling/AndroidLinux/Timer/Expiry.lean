import AndroidLinux.Timer.Iteration

/-!
# Expiring on time

A timer that is started for `msec` milliseconds is to expire after `exactTicks msec`
iterations.  The wheel makes it expire after `delay msec` iterations, whatever the other
timers do (`Armed.run`).  The two agree except in two cases: the sum with which
`_add2hash` rounds overflows, or the delay is a whole number of turns of the wheel.  The
bucket of such a delay is the one that the iteration is about to look at, and the timer
expires one turn early.
-/

namespace AndroidLinux
namespace Timer

open Lib

/-- The delay in ticks, rounded to the nearest tick and at least one. -/
def exactTicks (msec : UInt32) : Nat :=
  max 1 ((msec.toNat + 5) / 10)

theorem delay_le_exactTicks (msec : UInt32) : delay msec ≤ exactTicks msec := by
  have hpos := (ttick_bounds msec).1
  have hround : (msec.toNat + 5) % 2 ^ 32 / 10 ≤ (msec.toNat + 5) / 10 :=
    Nat.div_le_div_right (Nat.mod_le _ _)
  calc
    delay msec ≤ (ttick msec).toNat := by
      rw [delay]
      omega
    _ = max 1 ((msec.toNat + 5) % 2 ^ 32 / 10) := toNat_ttick msec
    _ ≤ exactTicks msec := max_le_max (Nat.le_refl 1) hround

theorem delay_eq_exactTicks_iff (msec : UInt32) :
    delay msec = exactTicks msec ↔
      msec.toNat + 5 < 2 ^ 32 ∧ ¬ 1024 ∣ exactTicks msec := by
  have hlt : msec.toNat < 2 ^ 32 := msec.toNat_lt
  rw [delay, toNat_ttick, exactTicks]
  omega

/-- An action that posts a tasklet for the timer. -/
def Action.Names (timer : TimerId) : Action → Prop
  | .request r => r.Names timer
  | .tick env => env.Names timer

/-- An iteration whose callbacks do not call the interface. -/
def quietEnv : TickEnv where
  callback := fun _ => []
  malloc := fun _ => true

theorem not_names_quietEnv (timer : TimerId) : ¬ (Action.tick quietEnv).Names timer := by
  intro hnames
  obtain ⟨_, _, hmem, _⟩ := hnames
  cases hmem

namespace Reltm

variable {s s' m : Reltm} {timer : TimerId} {start due : Nat}

/-- A timer whose first expiry from iteration `start` on is in iteration `due`. -/
structure OnSchedule (s : Reltm) (timer : TimerId) (start due : Nat) : Prop where
  waits : s.iteration ≤ due → s.Due timer due
  first : ∀ e ∈ s.expiries, e.timer = timer → start ≤ e.iteration → due ≤ e.iteration
  done : due < s.iteration → ∃ e ∈ s.expiries, e.timer = timer ∧ e.iteration = due

/-- The loops of an iteration keep a timer on its schedule. -/
theorem OnSchedule.iterated {env : TickEnv} (hm : m.Core)
    (hsched : m.OnSchedule timer start due) (hiter : Iterated env m s') :
    s'.OnSchedule timer start due := by
  obtain ⟨new, heq, hnew, hnow⟩ := hiter.expiries
  refine ⟨?_, ?_, ?_⟩
  · intro hle
    rw [hiter.iteration] at hle
    exact (hiter.due timer due).mpr ⟨hsched.waits (by omega), by omega⟩
  · intro e hmem htimer hstart
    rw [heq, List.mem_append] at hmem
    cases hmem with
    | inl hold => exact hsched.first e hold htimer hstart
    | inr hin =>
        -- it expires now, so it is due now
        have hdue : m.Due timer m.iteration :=
          (hnew timer).mp (htimer ▸ List.mem_map_of_mem hin)
        rw [hnow e hin]
        by_contra hlate
        have hwaits := hsched.waits (by omega)
        have hsame := hm.due_unique hdue hwaits
        omega
  · intro hlt
    rw [hiter.iteration] at hlt
    by_cases hold : due < m.iteration
    · obtain ⟨e, hmem, he⟩ := hsched.done hold
      exact ⟨e, heq ▸ List.mem_append_left _ hmem, he⟩
    · have hnowdue : due = m.iteration := by omega
      have hdue : m.Due timer m.iteration := hnowdue ▸ hsched.waits (by omega)
      obtain ⟨e, hin, htimer⟩ := List.mem_map.mp ((hnew timer).mpr hdue)
      exact ⟨e, heq ▸ List.mem_append_right _ hin, htimer, (hnow e hin).trans hnowdue.symm⟩

/-- A timer on its schedule for which no tasklet is posted. -/
structure Armed (s : Reltm) (timer : TimerId) (start due : Nat) : Prop where
  wf : s.WF
  old : timer < s.nextTimer
  unnamed : ∀ task ∈ s.relTsklets, task.timer ≠ timer
  sched : s.OnSchedule timer start due

/-- The tasklets of the other timers leave a timer on its schedule. -/
theorem Armed.invoked (hs : s.Armed timer start due)
    (hexec : Executed s.Touched { s with relTsklets := [], relInterTsklets := [] } m) :
    m.OnSchedule timer start due := by
  have hiter : m.iteration = s.iteration := hexec.iteration
  have hlog : m.expiries = s.expiries := hexec.expiries
  refine ⟨?_, ?_, ?_⟩
  · intro hle
    rw [hiter] at hle
    have hdue := hs.sched.waits hle
    have huntouched : ¬ s.Touched timer := by
      intro htouched
      cases htouched with
      | inl hinter => exact hs.wf.waiting.free timer hinter hdue.linked
      | inr hnamed =>
          obtain ⟨task, hmem, heq⟩ := hnamed
          exact hs.unnamed task hmem heq
    exact (hexec.due timer huntouched due).mpr hdue
  · rw [hlog]
    exact hs.sched.first
  · rw [hlog, hiter]
    exact hs.sched.done

/-- The end of an iteration, from a timer on its schedule before the loops. -/
theorem OnSchedule.armed {env : TickEnv} (hm : m.Core)
    (hsched : m.OnSchedule timer start due) (hold : timer < m.nextTimer)
    (hqueue : m.relTsklets = []) (henv : ¬ env.Names timer) (hiter : Iterated env m s') :
    s'.Armed timer start due := by
  refine ⟨hiter.wf, Nat.lt_of_lt_of_le hold hiter.next, ?_, hsched.iterated hm hiter⟩
  refine hiter.posts.unnamed hold henv ?_
  rw [hqueue]
  exact fun _ hmem => (List.not_mem_nil hmem).elim

theorem Armed.step {a : Action} (hs : s.Armed timer start due) (hnames : ¬ a.Names timer)
    (hstep : reltmMachine.step s a = some s') : s'.Armed timer start due := by
  cases a with
  | request r =>
      have heq : s.request r = s' := Option.some.inj hstep
      have hposted := request_posted s r
      rw [heq] at hposted
      refine ⟨hs.wf.posted hposted, Nat.lt_of_lt_of_le hs.old hposted.next,
        hposted.posts.unnamed hs.old hnames hs.unnamed, ?_, ?_, ?_⟩
      · intro hle
        rw [hposted.iteration] at hle
        exact hposted.due_iff.mpr (hs.sched.waits hle)
      · rw [hposted.expiries]
        exact hs.sched.first
      · rw [hposted.expiries, hposted.iteration]
        exact hs.sched.done
  | tick env =>
      obtain ⟨m, _, hexec, hiter⟩ := reltmTrigger_cases hs.wf hstep
      have hrest := hexec.rest
      refine (hs.invoked hexec).armed hexec.core ?_ ?_ hnames hiter
      · rw [hrest]
        exact hs.old
      · rw [hrest]

/-- A timer stays on its schedule in every run that does not name it. -/
theorem Armed.run (hs : s.Armed timer start due) (acts : List Action)
    (hacts : ∀ a ∈ acts, ¬ a.Names timer) (hrun : reltmMachine.run s acts = some s') :
    s'.Armed timer start due :=
  Machine.run_invariant (I := fun s => s.Armed timer start due)
    (fun _ _ _ h hnames hstep => h.step hnames hstep) acts hacts hs hrun

/-! ## Starting a timer -/

/-- After the tasklets of an iteration a timer is due as its last start says. -/
theorem due_of_started (hs : s.WF) {before after : List Tasklet} {msec : UInt32} {arg : Nat}
    (hqueue : s.relTsklets = before ++ .doStartTm timer msec arg :: after)
    (hafter : ∀ task ∈ after, task.timer ≠ timer) (hinvoke : s.invokeTsklets = some m) :
    m.Due timer (s.iteration + delay msec)
      ∧ ∃ cb cb', s.timers timer = some cb ∧ m.timers timer = some cb'
        ∧ cb'.mode = cb.mode ∧ cb'.msec = msec := by
  obtain ⟨s₁, hinter, hexec₁, htimers₁, _⟩ := invokeRelInter_spec hs
  have hrest₁ := hexec₁.rest
  have hqueue₁ : s₁.relTsklets = before ++ .doStartTm timer msec arg :: after := by
    rw [hrest₁]
    exact hqueue
  rw [invokeTsklets, hinter, Option.bind_some, invokeRel, hqueue₁] at hinvoke
  obtain ⟨s₄, hfold, heq⟩ := Option.map_eq_some_iff.mp hinvoke
  subst heq
  -- the tasklets before it, the start itself, and the tasklets after it
  rw [List.foldlM_append] at hfold
  obtain ⟨s₂, hbefore, hfold⟩ := Option.bind_eq_some_iff.mp hfold
  rw [List.foldlM_cons] at hfold
  obtain ⟨s₃, hstart, hfold⟩ := Option.bind_eq_some_iff.mp hfold
  have hexec₂ := foldlM_execute_spec hexec₁.core before hbefore
  obtain ⟨hexec₃, hdue, cb₂, hcb₂, hcb₃⟩ := doStartTm_spec hexec₂.core hstart
  obtain ⟨cb, hcb, hmode⟩ := foldlM_execute_mode hexec₁.core before hbefore hcb₂
  have hexec₄ := foldlM_execute_spec hexec₃.core after hfold
  have huntouched : ¬ ∃ task ∈ after, task.timer = timer := by
    intro h
    obtain ⟨task, hmem, htimer⟩ := h
    exact hafter task hmem htimer
  have hiter : s₂.iteration = s.iteration := by
    rw [hexec₂.rest, hrest₁]
  rw [hiter] at hdue
  refine ⟨(hexec₄.due timer huntouched _).mpr hdue, cb, _, ?_,
    (hexec₄.timers timer huntouched).trans hcb₃, hmode.symm, rfl⟩
  rw [← htimers₁]
  exact hcb

theorem armed_of_started (hs : s.WF) {before after : List Tasklet} {msec : UInt32}
    {arg : Nat} (hqueue : s.relTsklets = before ++ .doStartTm timer msec arg :: after)
    (hafter : ∀ task ∈ after, task.timer ≠ timer) {env : TickEnv}
    (henv : ¬ env.Names timer) (htick : s.reltmTrigger env = some s') :
    s'.Armed timer s.iteration (s.iteration + delay msec) := by
  obtain ⟨m, hinvoke, hexec, hiter⟩ := reltmTrigger_cases hs htick
  obtain ⟨hdue, _, _, _, hcb, _⟩ := due_of_started hs hqueue hafter hinvoke
  have hold : timer < m.nextTimer := hexec.core.lt_nextTimer (by simp [hcb])
  have hlog : m.expiries = s.expiries := hexec.expiries
  have hnow : m.iteration = s.iteration := hexec.iteration
  refine OnSchedule.armed hexec.core ⟨fun _ => hdue, ?_, ?_⟩ hold hexec.relTsklets henv hiter
  · intro e hmem _ hstart
    have hpast := hs.past e (hlog ▸ hmem)
    omega
  · intro hlt
    omega

/-! ## Time goes on -/

/-- An iteration without calls of the interface goes through if its tasklets do. -/
theorem exists_tick_quiet (hs : s.WF) (hinvoke : s.invokeTsklets.isSome) :
    ∃ s', reltmMachine.step s (.tick quietEnv) = some s' ∧ s'.WF ∧ s'.relTsklets = []
      ∧ s'.iteration = s.iteration + 1 := by
  obtain ⟨m, hm⟩ := Option.isSome_iff_exists.mp hinvoke
  obtain ⟨s', htick, hiter⟩ := reltmTrigger_spec hs quietEnv hm
  have hexec := invokeTsklets_spec hs hm
  refine ⟨s', htick, hiter.wf, ?_, ?_⟩
  · rw [hiter.quiet fun _ => rfl, hexec.relTsklets]
  · rw [hiter.iteration, hexec.iteration]

/-- Without calls of the interface every iteration goes through. -/
theorem exists_run_quiet (hs : s.WF) (hqueue : s.relTsklets = []) (k : Nat) :
    ∃ s', reltmMachine.run s (List.replicate k (.tick quietEnv)) = some s'
      ∧ s'.iteration = s.iteration + k := by
  induction k generalizing s with
  | zero => exact ⟨s, rfl, rfl⟩
  | succ k ih =>
      obtain ⟨s₁, hinter, hexec, _⟩ := invokeRelInter_spec hs
      have hqueue₁ : s₁.relTsklets = [] := hexec.relTsklets.trans hqueue
      have hinvoke : s.invokeTsklets.isSome := by
        rw [invokeTsklets, hinter, Option.bind_some, invokeRel, hqueue₁]
        rfl
      obtain ⟨s₂, htick, hwf, hempty, hnow⟩ := exists_tick_quiet hs hinvoke
      obtain ⟨s', hrun, hend⟩ := ih hwf hempty
      refine ⟨s', ?_, by omega⟩
      rw [List.replicate_succ, Machine.run, htick]
      exact hrun

/-- In every run that starts with the coming iteration and in which nothing names the
timer, its callback is first invoked `n` iterations after that one.  The number of an
iteration is its `_tick_last` before wrapping (`Core.tick`). -/
def OnTime (s : Reltm) (timer : TimerId) (n : Nat) : Prop :=
  ∀ env acts s', (∀ a ∈ Action.tick env :: acts, ¬ a.Names timer) →
    reltmMachine.run s (.tick env :: acts) = some s' →
    (∀ e ∈ s'.expiries, e.timer = timer → s.iteration ≤ e.iteration →
      s.iteration + n ≤ e.iteration)
    ∧ (s.iteration + n < s'.iteration →
      ∃ e ∈ s'.expiries, e.timer = timer ∧ e.iteration = s.iteration + n)

/-- A timer expires on time if and only if neither the rounding overflows nor the delay
is a whole number of turns of the wheel. -/
theorem onTime_iff {before after : List Tasklet} {msec : UInt32} {arg : Nat}
    (hreach : reltmMachine.Reach s)
    (hqueue : s.relTsklets = before ++ .doStartTm timer msec arg :: after)
    (hafter : ∀ task ∈ after, task.timer ≠ timer) (hinvoke : s.invokeTsklets.isSome) :
    s.OnTime timer (exactTicks msec) ↔
      msec.toNat + 5 < 2 ^ 32 ∧ ¬ 1024 ∣ exactTicks msec := by
  have hs := wf_of_reach hreach
  rw [← delay_eq_exactTicks_iff]
  constructor
  · intro htime
    -- let time go on without calls until the timer has expired
    obtain ⟨s₁, htick, hwf₁, hqueue₁, hnow⟩ := exists_tick_quiet hs hinvoke
    obtain ⟨s', hrun, hend⟩ := exists_run_quiet hwf₁ hqueue₁ (delay msec)
    have hquiet : ∀ a ∈ Action.tick quietEnv :: List.replicate (delay msec) (.tick quietEnv),
        ¬ a.Names timer := by
      intro a hmem
      rw [← List.replicate_succ] at hmem
      rw [List.eq_of_mem_replicate hmem]
      exact not_names_quietEnv timer
    have harmed := armed_of_started hs hqueue hafter (not_names_quietEnv timer) htick
    have harmed' := harmed.run _ (fun a ha => hquiet a (List.mem_cons_of_mem _ ha)) hrun
    obtain ⟨e, hmem, htimer, hdone⟩ := harmed'.sched.done (by omega)
    have hrun' : reltmMachine.run s (.tick quietEnv
        :: List.replicate (delay msec) (.tick quietEnv)) = some s' := by
      rw [Machine.run, htick]
      exact hrun
    have hfirst := (htime quietEnv _ s' hquiet hrun').1 e hmem htimer (by omega)
    have hle := delay_le_exactTicks msec
    omega
  · intro hdelay env acts s' hacts hrun
    rw [Machine.run] at hrun
    cases htick : reltmMachine.step s (.tick env) with
    | none => simp [htick] at hrun
    | some s₁ =>
        rw [htick] at hrun
        have harmed := armed_of_started hs hqueue hafter (hacts _ List.mem_cons_self) htick
        have harmed' := harmed.run acts (fun a ha => hacts a (List.mem_cons_of_mem _ ha)) hrun
        rw [hdelay] at harmed'
        exact ⟨harmed'.sched.first, harmed'.sched.done⟩

/-- A one-shot timer has been created and started for `msec` milliseconds. -/
def started (msec : UInt32) : Reltm :=
  (initReltm.request (.create (some 0) 1 true)).request (.start 0 msec 7 true true)

theorem reach_started (msec : UInt32) : reltmMachine.Reach (started msec) :=
  Machine.reach_of_run [.request (.create (some 0) 1 true),
    .request (.start 0 msec 7 true true)] rfl rfl

theorem relTsklets_started (msec : UInt32) :
    (started msec).relTsklets = [] ++ .doStartTm 0 msec 7 :: [] :=
  rfl

/-- A timer of ten milliseconds expires on time. -/
theorem onTime_of_ten : (started 10).OnTime 0 (exactTicks 10) :=
  (onTime_iff (reach_started 10) (relTsklets_started 10)
    (fun _ hmem => (List.not_mem_nil hmem).elim) (by decide +kernel)).mpr
    ⟨by decide, by decide⟩

/-- A timer of 10.24 seconds, which are 1024 ticks, expires in the iteration that starts
it. -/
theorem not_onTime_of_full_turn :
    reltmMachine.Reach (started 10240)
      ∧ (started 10240).relTsklets = [.doStartTm 0 10240 7]
      ∧ exactTicks 10240 = 1024
      ∧ ¬ (started 10240).OnTime 0 (exactTicks 10240) := by
  refine ⟨reach_started 10240, rfl, by decide, ?_⟩
  intro htime
  have hlog : (reltmMachine.run (started 10240) [.tick quietEnv]).map
      (fun s => s.expiries.map (fun e => (e.timer, e.iteration))) = some [(0, 0)] := by
    decide +kernel
  obtain ⟨s', hrun, hexpiries⟩ := Option.map_eq_some_iff.mp hlog
  obtain ⟨e, hmem, he⟩ := List.mem_map.mp (hexpiries ▸ List.mem_singleton_self (0, 0))
  rw [Prod.mk.injEq] at he
  have hfirst := (htime quietEnv [] s' (by simpa using not_names_quietEnv 0) hrun).1 e hmem
    he.1 (Nat.zero_le _)
  rw [he.2] at hfirst
  exact absurd hfirst (by decide)

end Reltm
end Timer
end AndroidLinux
