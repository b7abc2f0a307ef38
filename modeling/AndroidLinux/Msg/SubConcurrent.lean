import AndroidLinux.Msg.SubRelation

/-!
# Concurrent subscriptions

`VTOP_MSG_Subscribe` and `VTOP_MSG_UnSubscribe` called by any number of threads.
A call is two atomic steps on the subscription table: the lookup of the row
(`SUB_TAB_IsExist`, with the parameter checks before it) and the section of
`SUB_TAB_Add` or `SUB_TAB_Del` that uses the answer.  Between the two, other
threads run their own sections.

`subs` records the history: which pairs have been subscribed successfully and not
been unsubscribed successfully since.  `Consistent` is what the table promises its
users.  It is lost when two calls look up the same missing type before either of
them adds it, and it is kept by every run in which each update section finds the
answer of its lookup still current.
-/

namespace AndroidLinux
namespace Msg
namespace SubConcurrent

open Lib
open SubTab (twoTasks)

/-- Where a thread stands between the lookup and the update section of its call. -/
inductive Call (n : Nat)
  | idle
  | adding (t : MsgType) (k : TaskId) (subExist : Option (Fin n))
  | deleting (t : MsgType) (k : TaskId) (unitIndex : Fin n)

/-- The table, the calls in progress (one per thread) and the history. -/
structure State (n m : Nat) where
  tab : SubTab n m
  calls : Nat → Call n
  subs : MsgType → TaskId → Bool

/-- The steps a thread can take.  The task table is the one of that moment. -/
inductive Act (r : Nat)
  | subscribe (c : Nat) (tasks : TaskMng r) (taskId : TaskId) (msgType : MsgType)
  | unSubscribe (c : Nat) (tasks : TaskMng r) (taskId : TaskId) (msgType : MsgType)
  | update (c : Nat)

variable {n m r : Nat}

/-- The parameter checks of both calls. -/
def paramsOk (tasks : TaskMng r) (taskId : TaskId) (msgType : MsgType) : Bool :=
  taskId != vtopInvalidTaskId && msgType != vtopInvalidMsgType &&
    tasks.isTaskIdExist taskId

/-- Set where a thread stands. -/
def State.setCall (s : State n m) (c : Nat) (call : Call n) : State n m :=
  { s with calls := Function.update s.calls c call }

/-- The history after a call on the pair returned `ret`. -/
def State.record (s : State n m) (ret : Ret) (t : MsgType) (k : TaskId) (b : Bool) :
    MsgType → TaskId → Bool :=
  if ret = .ok then Function.update s.subs t (Function.update (s.subs t) k b) else s.subs

/-- One atomic step. -/
def step [NeZero m] (s : State n m) : Act r → Option (State n m)
  | .subscribe c tasks taskId msgType =>
      match s.calls c with
      | .idle =>
          if paramsOk tasks taskId msgType then
            some (s.setCall c (.adding msgType taskId (s.tab.isExist msgType)))
          else
            some s
      | _ => none
  | .unSubscribe c tasks taskId msgType =>
      match s.calls c with
      | .idle =>
          if paramsOk tasks taskId msgType then
            match s.tab.isExist msgType with
            | some unitIndex => some (s.setCall c (.deleting msgType taskId unitIndex))
            | none => some s
          else
            some s
      | _ => none
  | .update c =>
      match s.calls c with
      | .idle => none
      | .adding t k subExist =>
          let res := s.tab.addLocked subExist t k
          some { tab := res.2, calls := Function.update s.calls c .idle,
                 subs := s.record res.1 t k true }
      | .deleting t k unitIndex =>
          let res := s.tab.delLocked unitIndex k
          some { tab := res.2, calls := Function.update s.calls c .idle,
                 subs := s.record res.1 t k false }

/-- The state after `SUB_TAB_Init`. -/
def initial (n m : Nat) : State n m where
  tab := SubTab.init n m
  calls := fun _ => .idle
  subs := fun _ _ => false

/-- The machine of concurrent subscriptions. -/
def machine (n m r : Nat) [NeZero m] : Machine (State n m) (Act r) where
  init := fun s => s = initial n m
  step := step

/-- At most one row per message type, no task twice in a row, and in the row of a
type only tasks that are subscribed to it. -/
structure Consistent (s : State n m) : Prop where
  oneRow : ∀ u v, (s.tab u).msgType ≠ vtopInvalidMsgType →
    (s.tab u).msgType = (s.tab v).msgType → u = v
  once : ∀ u x y, (s.tab u).taskIdList x ≠ vtopInvalidTaskId →
    (s.tab u).taskIdList x = (s.tab u).taskIdList y → x = y
  subscribed : ∀ u x, (s.tab u).msgType ≠ vtopInvalidMsgType →
    (s.tab u).taskIdList x ≠ vtopInvalidTaskId →
    s.subs (s.tab u).msgType ((s.tab u).taskIdList x) = true

/-- The lookup of a call in progress is still current. -/
def Call.Current (tab : SubTab n m) : Call n → Prop
  | .idle => True
  | .adding t _ subExist => tab.isExist t = subExist
  | .deleting t _ unitIndex => tab.isExist t = some unitIndex

/-- An update section runs only while the answer of its lookup is current. -/
def LookupCurrent (s : State n m) : Act r → Prop
  | .update c => (s.calls c).Current s.tab
  | _ => True

/-- A call in progress has passed the parameter checks. -/
def Call.ParamsOk : Call n → Prop
  | .idle => True
  | .adding t k _ => t ≠ vtopInvalidMsgType ∧ k ≠ vtopInvalidTaskId
  | .deleting t k _ => t ≠ vtopInvalidMsgType ∧ k ≠ vtopInvalidTaskId

/-- The invariant of the guarded runs: the table is well formed and stores exactly
the subscribed pairs. -/
structure Inv (s : State n m) : Prop where
  wf : s.tab.WF
  rel_iff : ∀ t k, (t, k) ∈ s.tab.rel ↔ s.subs t k = true
  params : ∀ c, (s.calls c).ParamsOk

theorem paramsOk_iff {tasks : TaskMng r} {k : TaskId} {t : MsgType}
    (h : paramsOk tasks k t = true) : t ≠ vtopInvalidMsgType ∧ k ≠ vtopInvalidTaskId := by
  simp only [paramsOk, Bool.and_eq_true, bne_iff_ne, ne_eq] at h
  exact ⟨h.1.2, h.1.1⟩

theorem Inv.consistent {s : State n m} (h : Inv s) : Consistent s where
  oneRow := h.wf.typeUnique
  once := h.wf.taskUnique
  subscribed := fun _ _ htype hslot =>
    (h.rel_iff _ _).mp (SubTab.mem_rel_of_slot htype hslot)

theorem inv_initial (n m : Nat) : Inv (initial n m) where
  wf := SubTab.init_wf n m
  rel_iff := by
    intro t k
    show (t, k) ∈ (SubTab.init n m).rel ↔ false = true
    simp [SubTab.rel_init]
  params := fun _ => trivial

theorem Inv.setCall {s : State n m} (h : Inv s) (c : Nat) {call : Call n}
    (hcall : call.ParamsOk) : Inv (s.setCall c call) where
  wf := h.wf
  rel_iff := h.rel_iff
  params := by
    intro c'
    by_cases hc : c' = c
    · subst hc
      simpa [State.setCall] using hcall
    · simpa [State.setCall, hc] using h.params c'

/-- The history follows a table update that succeeded on one pair. -/
theorem record_ok_iff {s : State n m} {t t' : MsgType} {k k' : TaskId} {b : Bool} :
    s.record .ok t k b t' k' = true ↔
      if t' = t ∧ k' = k then b = true else s.subs t' k' = true := by
  simp only [State.record, if_pos]
  by_cases ht : t' = t
  · subst ht
    by_cases hk : k' = k
    · subst hk
      simp
    · simp [hk]
  · simp [ht]

theorem record_err {s : State n m} (e : MsgErr) (t : MsgType) (k : TaskId) (b : Bool) :
    s.record (.err e) t k b = s.subs := by
  simp [State.record]

/-- A finished call leaves the other calls alone. -/
theorem params_update_idle {calls : Nat → Call n} (h : ∀ c, (calls c).ParamsOk) (c : Nat) :
    ∀ c', (Function.update calls c .idle c').ParamsOk := by
  intro c'
  by_cases hc : c' = c
  · subst hc
    simp [Call.ParamsOk]
  · simpa [hc] using h c'

/-- The add section with a current lookup keeps the invariant. -/
theorem Inv.addSection [NeZero m] {s : State n m} (h : Inv s) (c : Nat) {t : MsgType}
    {k : TaskId} (ht : t ≠ vtopInvalidMsgType) (hk : k ≠ vtopInvalidTaskId) :
    Inv { tab := (s.tab.addLocked (s.tab.isExist t) t k).2,
          calls := Function.update s.calls c .idle,
          subs := s.record (s.tab.addLocked (s.tab.isExist t) t k).1 t k true } := by
  have hcalls := params_update_idle h.params c
  rcases h.wf.addLocked_outcome ht hk with ⟨-, heq⟩ | ⟨-, -, -, heq⟩ | ⟨-, -, heq⟩ |
    ⟨-, -, -, tab', heq, hwf, hrel⟩
  · rw [heq, record_err]
    exact ⟨h.wf, h.rel_iff, hcalls⟩
  · rw [heq, record_err]
    exact ⟨h.wf, h.rel_iff, hcalls⟩
  · rw [heq, record_err]
    exact ⟨h.wf, h.rel_iff, hcalls⟩
  · rw [heq]
    refine ⟨hwf, ?_, hcalls⟩
    intro t' k'
    show (t', k') ∈ tab'.rel ↔ _
    rw [hrel, record_ok_iff, Set.mem_insert_iff, Prod.mk.injEq, h.rel_iff]
    by_cases hpair : t' = t ∧ k' = k
    · simp [hpair]
    · simp [hpair]

/-- The delete section with a current lookup keeps the invariant. -/
theorem Inv.delSection {s : State n m} (h : Inv s) (c : Nat) {u : Fin n} {k : TaskId}
    (ht : (s.tab u).msgType ≠ vtopInvalidMsgType) (hk : k ≠ vtopInvalidTaskId) :
    Inv { tab := (s.tab.delLocked u k).2,
          calls := Function.update s.calls c .idle,
          subs := s.record (s.tab.delLocked u k).1 (s.tab u).msgType k false } := by
  have hcalls := params_update_idle h.params c
  rcases h.wf.delLocked_outcome ht hk with ⟨-, heq⟩ | ⟨-, tab', heq, hwf, hrel⟩
  · rw [heq, record_err]
    exact ⟨h.wf, h.rel_iff, hcalls⟩
  · rw [heq]
    refine ⟨hwf, ?_, hcalls⟩
    intro t' k'
    show (t', k') ∈ tab'.rel ↔ _
    rw [hrel, record_ok_iff, Set.mem_sdiff, Set.mem_singleton_iff, Prod.mk.injEq, h.rel_iff]
    by_cases hpair : t' = (s.tab u).msgType ∧ k' = k
    · simp [hpair]
    · simp [hpair]

/-- Every guarded step keeps the invariant. -/
theorem Inv.step [NeZero m] {s s' : State n m} {a : Act r} (h : Inv s)
    (hguard : LookupCurrent s a) (hstep : step s a = some s') : Inv s' := by
  cases a with
  | subscribe c tasks k t =>
      simp only [SubConcurrent.step] at hstep
      split at hstep
      · split at hstep
        · next hok =>
            simp only [Option.some.injEq] at hstep
            subst hstep
            exact h.setCall c (paramsOk_iff hok)
        · simp only [Option.some.injEq] at hstep
          exact hstep ▸ h
      · simp at hstep
  | unSubscribe c tasks k t =>
      simp only [SubConcurrent.step] at hstep
      split at hstep
      · split at hstep
        · next hok =>
            split at hstep
            · simp only [Option.some.injEq] at hstep
              subst hstep
              exact h.setCall c (paramsOk_iff hok)
            · simp only [Option.some.injEq] at hstep
              exact hstep ▸ h
        · simp only [Option.some.injEq] at hstep
          exact hstep ▸ h
      · simp at hstep
  | update c =>
      have hparams := h.params c
      simp only [LookupCurrent] at hguard
      simp only [SubConcurrent.step] at hstep
      cases hcall : s.calls c with
      | idle => simp [hcall] at hstep
      | adding t k subExist =>
          rw [hcall] at hstep hguard hparams
          simp only [Option.some.injEq] at hstep
          simp only [Call.Current] at hguard
          -- the lookup of the first section still holds, so the two sections act as one
          subst hstep hguard
          exact h.addSection c hparams.1 hparams.2
      | deleting t k u =>
          rw [hcall] at hstep hguard hparams
          simp only [Option.some.injEq] at hstep
          have htype : (s.tab u).msgType = t := SubTab.isExist_eq_some hguard
          subst hstep htype
          exact h.delSection c hparams.1 hparams.2

/-- In every run whose update sections find their lookup still current, the table
is consistent in every state. -/
theorem consistent_of_lookupCurrent (n m r : Nat) [NeZero m] {s : State n m}
    (hreach : (machine n m r).ReachWhen LookupCurrent s) : Consistent s := by
  have hinv : Inv s := hreach.invariant
    (fun _ hinit => hinit ▸ inv_initial n m)
    (fun _ _ _ h hguard hstep => h.step hguard hstep)
  exact hinv.consistent

/-! ## The race -/

instance (tab : SubTab n m) : (call : Call n) → Decidable (call.Current tab)
  | .idle => inferInstanceAs (Decidable True)
  | .adding _ _ _ => inferInstanceAs (Decidable (_ = _))
  | .deleting _ _ _ => inferInstanceAs (Decidable (_ = _))

instance (s : State n m) : (a : Act r) → Decidable (LookupCurrent s a)
  | .subscribe _ _ _ _ => inferInstanceAs (Decidable True)
  | .unSubscribe _ _ _ _ => inferInstanceAs (Decidable True)
  | .update c => inferInstanceAs (Decidable ((s.calls c).Current s.tab))

/-- Two threads with their sections in turns: each looks a type up before the other one has
changed the row of another type. -/
def inTurns : List (Act 2) :=
  [.subscribe 0 twoTasks 0 5, .subscribe 1 twoTasks 1 6, .update 0, .update 1,
    .subscribe 0 twoTasks 1 5, .unSubscribe 1 twoTasks 1 6, .update 1, .update 0]

/-- Both tasks are subscribed to type `5` in the end, and the row of type `6` is free again. -/
theorem consistent_of_lookupCurrent_inTurns :
    ∃ s, (machine 2 2 2).run (initial 2 2) inTurns = some s ∧
      (machine 2 2 2).ReachWhen LookupCurrent s ∧
      s.subs 5 0 = true ∧ s.subs 5 1 = true ∧ s.subs 6 1 = false ∧ Consistent s := by
  have hrun : (machine 2 2 2).runWhen (fun s a => decide (LookupCurrent s a)) (initial 2 2)
      inTurns = some _ := rfl
  have hreach : (machine 2 2 2).ReachWhen LookupCurrent _ :=
    Machine.reachWhen_of_runWhen (fun _ _ => of_decide_eq_true) _ (.init rfl) hrun
  exact ⟨_, Machine.run_of_runWhen _ hrun, hreach, rfl, rfl, rfl,
    consistent_of_lookupCurrent 2 2 2 hreach⟩

/-- Two tasks subscribe to type `5` at the same time: both lookups find no row, so
both update sections take one, and the table has two rows of type `5`. -/
theorem not_consistent_of_race :
    ∃ s, (machine 2 2 2).Reach s ∧
      (s.tab 0).msgType = 5 ∧ (s.tab 1).msgType = 5 ∧ ¬ Consistent s := by
  refine ⟨_, Machine.reach_of_run
    [.subscribe 0 twoTasks 0 5, .subscribe 1 twoTasks 1 5, .update 0, .update 1]
    rfl rfl, rfl, rfl, ?_⟩
  intro hcons
  have hrows := hcons.oneRow 0 1 (by decide) rfl
  exact absurd hrows (by decide)

end SubConcurrent
end Msg
end AndroidLinux
