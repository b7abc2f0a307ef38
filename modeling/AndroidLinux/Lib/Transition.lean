import Mathlib.Tactic

/-!
# Partial machines and guarded runs

A `Machine` is a set of initial states together with a deterministic partial
step function: the action chooses which party moves and with what argument, and
`none` means that the action is not enabled.  Nondeterminism of a scheduler is
the free choice of the next action.

`ReachWhen guard` collects the states of those runs all of whose steps satisfy
`guard` in the state *before* the step.  Unrestricted reachability is the
special case of the guard that is always true.  The two rules used by the
developments above this module are `ReachWhen.invariant` (a property of the
initial states that every guarded step preserves holds in every reached state)
and `reach_of_run` (a concrete schedule that executes gives a reachable state), with
`reachWhen_of_runWhen` as its guarded form.
-/

namespace AndroidLinux
namespace Lib

/-- A deterministic partial transition system. -/
structure Machine (σ α : Type*) where
  init : σ → Prop
  step : σ → α → Option σ

namespace Machine

variable {σ α : Type*} (M : Machine σ α)

/-- The states of the runs in which every step satisfies `guard` in the state
it is taken from. -/
inductive ReachWhen (guard : σ → α → Prop) : σ → Prop
  | init {s : σ} (hinit : M.init s) : ReachWhen guard s
  | step {s s' : σ} {a : α} (hreach : ReachWhen guard s) (hguard : guard s a)
      (hstep : M.step s a = some s') : ReachWhen guard s'

/-- Reachability without any restriction on the steps. -/
def Reach (s : σ) : Prop :=
  M.ReachWhen (fun _ _ => True) s

/-- The same steps, taken from the state `s` on. -/
def resume (s : σ) : Machine σ α :=
  { M with init := fun s' => s' = s }

/-- Execute a schedule, stopping at the first disabled action. -/
def run : σ → List α → Option σ
  | s, [] => some s
  | s, a :: rest =>
      match M.step s a with
      | none => none
      | some s' => run s' rest

/-- Execute a schedule all of whose steps pass a test, stopping at the first one that
is disabled or does not. -/
def runWhen (test : σ → α → Bool) : σ → List α → Option σ
  | s, [] => some s
  | s, a :: rest =>
      if test s a then
        match M.step s a with
        | none => none
        | some s' => runWhen test s' rest
      else
        none

variable {M}

/-- The invariant rule for guarded runs. -/
theorem ReachWhen.invariant {guard : σ → α → Prop} {I : σ → Prop}
    (hinit : ∀ s, M.init s → I s)
    (hstep : ∀ s a s', I s → guard s a → M.step s a = some s' → I s')
    {s : σ} (hreach : M.ReachWhen guard s) : I s := by
  induction hreach with
  | init hs => exact hinit _ hs
  | step _ hguard hs ih => exact hstep _ _ _ ih hguard hs

/-- A stronger guard reaches fewer states. -/
theorem ReachWhen.mono {guard guard' : σ → α → Prop}
    (himp : ∀ s a, guard s a → guard' s a) {s : σ}
    (hreach : M.ReachWhen guard s) : M.ReachWhen guard' s := by
  induction hreach with
  | init hs => exact .init hs
  | step _ hguard hs ih => exact .step ih (himp _ _ hguard) hs

/-- The invariant rule for a schedule all of whose actions are of one kind. -/
theorem run_invariant {I : σ → Prop} {allowed : α → Prop}
    (hstep : ∀ s a s', I s → allowed a → M.step s a = some s' → I s')
    {s s' : σ} (acts : List α) (hacts : ∀ a ∈ acts, allowed a) (hs : I s)
    (hrun : M.run s acts = some s') : I s' := by
  induction acts generalizing s with
  | nil =>
      simp only [Machine.run, Option.some.injEq] at hrun
      exact hrun ▸ hs
  | cons a rest ih =>
      simp only [Machine.run] at hrun
      cases hnext : M.step s a with
      | none => simp [hnext] at hrun
      | some next =>
          rw [hnext] at hrun
          exact ih (fun b hb => hacts b (List.mem_cons_of_mem _ hb))
            (hstep s a next hs (hacts a List.mem_cons_self) hnext) hrun

/-- The last action of a schedule. -/
theorem run_concat (s : σ) (acts : List α) (a : α) :
    M.run s (acts ++ [a]) = (M.run s acts).bind (M.step · a) := by
  induction acts generalizing s with
  | nil =>
      simp only [List.nil_append, Machine.run, Option.bind_some]
      cases M.step s a <;> rfl
  | cons b rest ih =>
      simp only [List.cons_append, Machine.run]
      cases M.step s b with
      | none => rfl
      | some next => exact ih next

/-- A state from which a schedule executes stays reachable at its end. -/
theorem Reach.run {s s' : σ} (acts : List α) (hreach : M.Reach s)
    (hrun : M.run s acts = some s') : M.Reach s' :=
  run_invariant (fun _ _ _ hs _ hnext => ReachWhen.step hs trivial hnext) acts
    (fun _ _ => trivial) hreach hrun

/-- A schedule that executes from an initial state gives a reachable state. -/
theorem reach_of_run {s s' : σ} (acts : List α) (hinit : M.init s)
    (hrun : M.run s acts = some s') : M.Reach s' :=
  Reach.run acts (.init hinit) hrun

/-- A schedule whose steps pass a test that implies the guard gives a state of a
guarded run. -/
theorem reachWhen_of_runWhen {guard : σ → α → Prop} {test : σ → α → Bool}
    (htest : ∀ s a, test s a = true → guard s a) {s s' : σ} (acts : List α)
    (hreach : M.ReachWhen guard s) (hrun : M.runWhen test s acts = some s') :
    M.ReachWhen guard s' := by
  induction acts generalizing s with
  | nil =>
      simp only [runWhen, Option.some.injEq] at hrun
      exact hrun ▸ hreach
  | cons a rest ih =>
      simp only [runWhen] at hrun
      split at hrun
      · rename_i hpass
        cases hs : M.step s a with
        | none => simp [hs] at hrun
        | some next =>
            rw [hs] at hrun
            exact ih (.step hreach (htest s a hpass) hs) hrun
      · cases hrun

/-- The tests do not change where a schedule leads. -/
theorem run_of_runWhen {test : σ → α → Bool} {s s' : σ} (acts : List α)
    (hrun : M.runWhen test s acts = some s') : M.run s acts = some s' := by
  induction acts generalizing s with
  | nil => exact hrun
  | cons a rest ih =>
      simp only [runWhen] at hrun
      split at hrun
      · simp only [Machine.run]
        cases hs : M.step s a with
        | none => simp [hs] at hrun
        | some next =>
            rw [hs] at hrun
            exact ih hrun
      · cases hrun

end Machine
end Lib
end AndroidLinux
