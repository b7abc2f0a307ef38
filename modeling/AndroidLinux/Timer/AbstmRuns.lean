import AndroidLinux.Timer.Abstm

/-!
# What absolute timers do

A scan that is late looks at several seconds for each timer.  After a callback the loop over
the seconds goes on, although a one-shoot timer has left the list and an auto-free timer is
freed.  `SafeFor` is the condition under which this does no harm: a one-shoot timer matches
one of the seconds at most, and an auto-free timer only the last one.  Then the loop does to
a timer what `settle` says (`triggerATimer_eq`), and a scan does so to all active timers
(`Scanned`).
-/

namespace AndroidLinux
namespace Timer

open Lib

section

variable (localtime : Int → Tm) (secs : List Int)

/-- The seconds that match the pattern of a timer. -/
def AbsTimer.due (cb : AbsTimer) : List Int :=
  secs.filter fun second => cb.tm.matchesTime (localtime second)

/-- The timer is not active any more after a callback. -/
def AbsTimer.ends (cb : AbsTimer) : Bool := cb.autoFree || cb.oneShoot

/-- The seconds of its callbacks: those that match while it is active. -/
def AbsTimer.activeSeconds (cb : AbsTimer) : List Int :=
  if cb.ends then (cb.due localtime secs).take 1 else cb.due localtime secs

structure AbsTimer.SafeFor (cb : AbsTimer) : Prop where
  once : cb.oneShoot = true → (cb.due localtime secs).length ≤ 1
  last : cb.autoFree = true → ∀ second ∈ secs.dropLast,
    cb.tm.matchesTime (localtime second) = false

/-- The callbacks of a timer that is scanned. -/
def Abstm.callsOf (s : Abstm) (timer : TimerId) : List Callback :=
  (s.timers timer).elim [] fun cb => (cb.due localtime secs).map fun second =>
    ⟨timer, cb.arg, second⟩

/-- What a scan does to one timer. -/
def Abstm.settle (s : Abstm) (timer : TimerId) (cb : AbsTimer) : Abstm :=
  { s with
    timers := if cb.autoFree ∧ cb.due localtime secs ≠ [] then
        Function.update s.timers timer none
      else s.timers
    activateTimers := if cb.ends ∧ cb.due localtime secs ≠ [] then s.activateTimers.erase timer
      else s.activateTimers
    callbacks := s.callbacks ++ (cb.due localtime secs).map fun second =>
      ⟨timer, cb.arg, second⟩
    fired := Function.update s.fired timer (s.fired timer + (cb.due localtime secs).length) }

end

variable {localtime : Int → Tm} {secs : List Int} {s s' : Abstm} {timer : TimerId}
  {cb : AbsTimer}

/-! ## One timer -/

/-- Seconds that do not match are passed over. -/
theorem triggerATimer_append (hcb : s.timers timer = some cb) {before : List Int}
    (hno : ∀ second ∈ before, cb.tm.matchesTime (localtime second) = false) (rest : List Int) :
    s.triggerATimer localtime timer (before ++ rest) = s.triggerATimer localtime timer rest := by
  induction before with
  | nil => rfl
  | cons second before ih =>
      rw [List.cons_append, Abstm.triggerATimer, hcb]
      dsimp only
      rw [if_neg (by simp [hno second List.mem_cons_self])]
      exact ih fun x hx => hno x (List.mem_cons_of_mem second hx)

theorem triggerATimer_none (hcb : s.timers timer = some cb)
    (hno : ∀ second ∈ secs, cb.tm.matchesTime (localtime second) = false) :
    s.triggerATimer localtime timer secs = s := by
  have happend := triggerATimer_append hcb hno []
  rw [List.append_nil] at happend
  exact happend

theorem settle_none (hdue : cb.due localtime secs = []) :
    s.settle localtime secs timer cb = s := by
  unfold Abstm.settle
  simp [hdue]

/-- A timer that stays active. -/
theorem triggerATimer_periodic (hcb : s.timers timer = some cb) (hends : cb.ends = false) :
    s.triggerATimer localtime timer secs = s.settle localtime secs timer cb := by
  obtain ⟨hfree, hshoot⟩ : cb.autoFree = false ∧ cb.oneShoot = false := by
    simpa [AbsTimer.ends] using hends
  induction secs generalizing s with
  | nil => exact (settle_none rfl).symm
  | cons second rest ih =>
      rw [Abstm.triggerATimer, hcb]
      dsimp only
      by_cases hmatch : cb.tm.matchesTime (localtime second) = true
      · have hdue : cb.due localtime (second :: rest) = second :: cb.due localtime rest :=
          List.filter_cons_of_pos hmatch
        rw [if_pos hmatch, if_neg (by simp [hfree]), if_neg (by simp [hshoot]),
          ih (s := s.call timer cb second) hcb]
        have hcount : s.fired timer + 1 + (cb.due localtime rest).length =
            s.fired timer + ((cb.due localtime rest).length + 1) := by omega
        simp [Abstm.settle, Abstm.call, hdue, hfree, hends, hcount]
      · have hdue : cb.due localtime (second :: rest) = cb.due localtime rest :=
          List.filter_cons_of_neg hmatch
        rw [if_neg hmatch, ih hcb]
        simp only [Abstm.settle, hdue]

/-- A timer that ends with the only second that matches. -/
theorem triggerATimer_ends {before rest : List Int} {second : Int}
    (hcb : s.timers timer = some cb) (hends : cb.ends = true)
    (hbefore : ∀ x ∈ before, cb.tm.matchesTime (localtime x) = false)
    (hmatch : cb.tm.matchesTime (localtime second) = true)
    (hrest : ∀ x ∈ rest, cb.tm.matchesTime (localtime x) = false)
    (hlast : cb.autoFree = true → rest = []) :
    s.triggerATimer localtime timer (before ++ second :: rest) =
      s.settle localtime (before ++ second :: rest) timer cb := by
  have hdue : cb.due localtime (before ++ second :: rest) = [second] := by
    have hb : cb.due localtime before = [] :=
      List.filter_eq_nil_iff.mpr fun x hx => by simp [hbefore x hx]
    have hr : cb.due localtime rest = [] :=
      List.filter_eq_nil_iff.mpr fun x hx => by simp [hrest x hx]
    unfold AbsTimer.due at *
    rw [List.filter_append, hb, List.filter_cons, if_pos hmatch, hr]
    rfl
  rw [triggerATimer_append hcb hbefore, Abstm.triggerATimer, hcb]
  dsimp only
  rw [if_pos hmatch]
  by_cases hfree : cb.autoFree = true
  · have hrm : (s.call timer cb second).rmTimer timer =
        { (s.call timer cb second).leaveQueue timer with
          timers := Function.update s.timers timer none } := by
      unfold Abstm.rmTimer
      rw [show (s.call timer cb second).timers timer = some cb from hcb]
      rfl
    rw [hlast hfree] at hdue
    rw [if_pos hfree, hlast hfree, Abstm.triggerATimer, hrm]
    simp [Abstm.settle, Abstm.call, Abstm.leaveQueue, hdue, hfree, hends]
  · have hshoot : cb.oneShoot = true := by
      simpa [AbsTimer.ends, hfree] using hends
    have hleft : ((s.call timer cb second).leaveQueue timer).timers timer = some cb := hcb
    rw [if_neg hfree, if_pos hshoot, triggerATimer_none hleft hrest]
    simp [Abstm.settle, Abstm.call, Abstm.leaveQueue, hdue, hfree, hends]

/-- The loop over the seconds under the condition. -/
theorem triggerATimer_eq (hcb : s.timers timer = some cb)
    (hsafe : cb.SafeFor localtime secs) :
    s.triggerATimer localtime timer secs = s.settle localtime secs timer cb := by
  by_cases hends : cb.ends = true
  · by_cases hnone : ∀ second ∈ secs, cb.tm.matchesTime (localtime second) = false
    · have hdue : cb.due localtime secs = [] :=
        List.filter_eq_nil_iff.mpr fun x hx => by simp [hnone x hx]
      rw [triggerATimer_none hcb hnone, settle_none hdue]
    · push Not at hnone
      obtain ⟨second, hsecond, hmatch⟩ := hnone
      have hmatch : cb.tm.matchesTime (localtime second) = true := by simpa using hmatch
      obtain ⟨before, rest, rfl⟩ := List.append_of_mem hsecond
      by_cases hfree : cb.autoFree = true
      · -- only the last second matches
        have hlast := hsafe.last hfree
        have hrest : rest = [] := by
          by_contra hsome
          have hmem : second ∈ (before ++ second :: rest).dropLast := by
            rw [List.dropLast_append_of_ne_nil (List.cons_ne_nil _ _),
              List.dropLast_cons_of_ne_nil hsome]
            simp
          rw [hlast second hmem] at hmatch
          cases hmatch
        subst hrest
        refine triggerATimer_ends hcb hends (fun x hx => hlast x ?_) hmatch
          (fun x hx => absurd hx List.not_mem_nil) fun _ => rfl
        rw [List.dropLast_concat]
        exact hx
      · have hshoot : cb.oneShoot = true := by simpa [AbsTimer.ends, hfree] using hends
        have honce := hsafe.once hshoot
        rw [AbsTimer.due, List.filter_append, List.filter_cons, if_pos hmatch,
          List.length_append, List.length_cons] at honce
        have hb : cb.due localtime before = [] := List.length_eq_zero_iff.mp (by
          show (before.filter _).length = 0
          omega)
        have hr : cb.due localtime rest = [] := List.length_eq_zero_iff.mp (by
          show (rest.filter _).length = 0
          omega)
        refine triggerATimer_ends hcb hends (fun x hx => ?_) hmatch (fun x hx => ?_)
          fun h => absurd h hfree
        · simpa using List.filter_eq_nil_iff.mp hb x hx
        · simpa using List.filter_eq_nil_iff.mp hr x hx
  · exact triggerATimer_periodic hcb (Bool.eq_false_iff.mpr hends)

/-! ## All active timers -/

/-- What a scan of the timers `list` does. -/
structure Scanned (localtime : Int → Tm) (secs : List Int) (list : List TimerId)
    (s s' : Abstm) : Prop where
  fault : s'.fault = s.fault
  absTsklets : s'.absTsklets = s.absTsklets
  lastTv : s'.lastTv = s.lastTv
  callbacks : s'.callbacks = s.callbacks ++ list.flatMap (s.callsOf localtime secs)
  others : ∀ timer ∉ list, s'.timers timer = s.timers timer ∧ s'.fired timer = s.fired timer ∧
    (timer ∈ s'.activateTimers ↔ timer ∈ s.activateTimers)
  scanned : ∀ timer ∈ list, ∀ cb, s.timers timer = some cb →
    s'.timers timer = (if cb.autoFree ∧ cb.due localtime secs ≠ [] then none else some cb) ∧
    s'.fired timer = s.fired timer + (cb.due localtime secs).length ∧
    (timer ∈ s'.activateTimers ↔ timer ∈ s.activateTimers ∧
      ¬ (cb.ends ∧ cb.due localtime secs ≠ []))
  nodup : s'.activateTimers.Nodup

/-- One timer. -/
theorem settle_scanned (hcb : s.timers timer = some cb) (hnodup : s.activateTimers.Nodup) :
    Scanned localtime secs [timer] s (s.settle localtime secs timer cb) := by
  refine ⟨rfl, rfl, rfl, ?_, fun other hother => ?_, fun x hx cb' hcb' => ?_, ?_⟩
  · show s.callbacks ++ _ = s.callbacks ++ _
    rw [List.flatMap_singleton, Abstm.callsOf, hcb]
    rfl
  · have hne : other ≠ timer := fun h => hother (h ▸ List.mem_singleton_self _)
    refine ⟨?_, Function.update_of_ne hne .., ?_⟩
    · show (if _ then _ else _ : TimerId → Option AbsTimer) other = _
      split
      · exact Function.update_of_ne hne ..
      · rfl
    · show other ∈ (if _ then _ else _ : List TimerId) ↔ _
      split
      · exact List.mem_erase_of_ne hne
      · rfl
  · obtain rfl := List.mem_singleton.mp hx
    obtain rfl := Option.some.inj (hcb.symm.trans hcb')
    refine ⟨?_, Function.update_self .., ?_⟩
    · show (if _ then _ else _ : TimerId → Option AbsTimer) x = _
      split
      · exact Function.update_self ..
      · exact hcb
    · show x ∈ (if _ then _ else _ : List TimerId) ↔ _
      split
      · rename_i hgone
        refine iff_of_false (fun hmem => ?_) fun h => h.2 hgone
        exact (List.Nodup.mem_erase_iff hnodup).mp hmem |>.1 rfl
      · rename_i hstay
        exact ⟨fun h => ⟨h, hstay⟩, And.left⟩
  · show (if _ then _ else _ : List TimerId).Nodup
    split
    · exact hnodup.erase _
    · exact hnodup

/-- A scan of further timers. -/
theorem Scanned.cons {list : List TimerId} {m : Abstm} (hfirst : Scanned localtime secs [timer] s m)
    (hrest : Scanned localtime secs list m s') (hnot : timer ∉ list) :
    Scanned localtime secs (timer :: list) s s' := by
  -- the timers of the rest are as they were
  have hsame : ∀ x ∈ list, m.timers x = s.timers x ∧ m.fired x = s.fired x ∧
      (x ∈ m.activateTimers ↔ x ∈ s.activateTimers) := fun x hx =>
    hfirst.others x fun h => hnot (List.mem_singleton.mp h ▸ hx)
  refine ⟨hrest.fault.trans hfirst.fault, hrest.absTsklets.trans hfirst.absTsklets,
    hrest.lastTv.trans hfirst.lastTv, ?_, fun x hx => ?_, fun x hx cb hcb => ?_, hrest.nodup⟩
  · have hcalls : list.flatMap (m.callsOf localtime secs) =
        list.flatMap (s.callsOf localtime secs) := by
      refine List.flatMap_congr fun x hx => ?_
      rw [Abstm.callsOf, Abstm.callsOf, (hsame x hx).1]
    rw [hrest.callbacks, hfirst.callbacks, hcalls, List.flatMap_singleton, List.flatMap_cons,
      List.append_assoc]
  · rw [List.mem_cons, not_or] at hx
    have h₁ := hfirst.others x fun h => hx.1 (List.mem_singleton.mp h)
    have h₂ := hrest.others x hx.2
    exact ⟨h₂.1.trans h₁.1, h₂.2.1.trans h₁.2.1, h₂.2.2.trans h₁.2.2⟩
  · rcases List.mem_cons.mp hx with rfl | hx
    · obtain ⟨ht, hf, ha⟩ := hfirst.scanned x (List.mem_singleton_self x) cb hcb
      have h₂ := hrest.others x hnot
      exact ⟨h₂.1.trans ht, h₂.2.1.trans hf, h₂.2.2.trans ha⟩
    · obtain ⟨ht, hf, ha⟩ := hsame x hx
      obtain ⟨ht', hf', ha'⟩ := hrest.scanned x hx cb (ht.trans hcb)
      exact ⟨ht', by rw [hf', hf], by rw [ha', ha]⟩

/-- The loop over a list of timers. -/
theorem scanLoop_scanned {list : List TimerId} (hfault : s.fault = false)
    (hlist : list.Nodup) (hnodup : s.activateTimers.Nodup)
    (hlive : ∀ timer ∈ list, ∃ cb, s.timers timer = some cb ∧ cb.SafeFor localtime secs) :
    Scanned localtime secs list s (list.foldl
      (fun s timer => if s.fault then s else s.triggerATimer localtime timer secs) s) := by
  induction list generalizing s with
  | nil =>
      exact ⟨rfl, rfl, rfl, (List.append_nil _).symm, fun _ _ => ⟨rfl, rfl, Iff.rfl⟩,
        fun x hx => absurd hx List.not_mem_nil, hnodup⟩
  | cons timer rest ih =>
      obtain ⟨hnot, hrest⟩ := List.nodup_cons.mp hlist
      obtain ⟨cb, hcb, hsafe⟩ := hlive timer List.mem_cons_self
      have hfirst : Scanned localtime secs [timer] s (s.settle localtime secs timer cb) :=
        settle_scanned hcb hnodup
      rw [List.foldl_cons, if_neg (by simp [hfault]), triggerATimer_eq hcb hsafe]
      refine hfirst.cons (ih hfault hrest hfirst.nodup fun x hx => ?_) hnot
      have hother := hfirst.others x fun h => hnot (List.mem_singleton.mp h ▸ hx)
      rw [hother.1]
      exact hlive x (List.mem_cons_of_mem timer hx)

/-! ## Tasklets -/

/-- The invariant of the timer thread.  A timer that ends with a callback has not fired
since its start while it is active. -/
structure Abstm.WF (s : Abstm) : Prop where
  fault : s.fault = false
  nodup : s.activateTimers.Nodup
  live : ∀ timer ∈ s.activateTimers, ∃ cb, s.timers timer = some cb
  once : ∀ timer cb, s.timers timer = some cb → cb.ends = true →
    s.fired timer ≤ 1 ∧ (timer ∈ s.activateTimers → s.fired timer = 0)

/-- The tasklets name timers that have not been freed when they are executed. -/
def LiveTasks : (TimerId → Prop) → List AbsTask → Prop
  | _, [] => True
  | live, .rm timer :: rest => live timer ∧ LiveTasks (fun x => live x ∧ x ≠ timer) rest
  | live, task :: rest => live task.timer ∧ LiveTasks live rest

/-- Tasklets leave the record of the callbacks and the clock alone. -/
structure Undisturbing (s s' : Abstm) : Prop where
  callbacks : s'.callbacks = s.callbacks
  lastTv : s'.lastTv = s.lastTv

theorem Abstm.WF.leaveQueue (h : s.WF) (timer : TimerId) : (s.leaveQueue timer).WF where
  fault := h.fault
  nodup := h.nodup.erase timer
  live x hx := h.live x (List.mem_of_mem_erase hx)
  once x cb hcb hends :=
    ⟨(h.once x cb hcb hends).1, fun hx => (h.once x cb hcb hends).2 (List.mem_of_mem_erase hx)⟩

theorem Abstm.WF.startTimer (h : s.WF) (hcb : s.timers timer = some cb) (tm : Tm) (arg : Nat) :
    (s.startTimer timer tm arg).WF ∧ Undisturbing s (s.startTimer timer tm arg) ∧
      ∀ x, s.timers x ≠ none → (s.startTimer timer tm arg).timers x ≠ none := by
  unfold Abstm.startTimer
  rw [hcb]
  dsimp only
  have hmem : ∀ x, x ∈ (if timer ∈ s.activateTimers then s.activateTimers
      else timer :: s.activateTimers) ↔ x = timer ∨ x ∈ s.activateTimers := by
    intro x
    split
    · rename_i hin
      exact ⟨Or.inr, fun h => h.elim (fun heq => heq ▸ hin) id⟩
    · exact List.mem_cons
  refine ⟨⟨h.fault, ?_, fun x hx => ?_, fun x cb' hcb' hends => ?_⟩, ⟨rfl, rfl⟩, fun x hx => ?_⟩
  · split
    · exact h.nodup
    · rename_i hnot
      exact List.nodup_cons.mpr ⟨hnot, h.nodup⟩
  · by_cases heq : x = timer
    · subst heq
      exact ⟨_, Function.update_self ..⟩
    · dsimp only
      rw [Function.update_of_ne heq]
      exact h.live x (((hmem x).mp hx).resolve_left heq)
  · by_cases heq : x = timer
    · subst heq
      dsimp only
      rw [Function.update_self]
      exact ⟨Nat.zero_le 1, fun _ => rfl⟩
    · dsimp only at hcb' ⊢
      rw [Function.update_of_ne heq] at hcb' ⊢
      have hold := h.once x cb' hcb' hends
      exact ⟨hold.1, fun hx => hold.2 (((hmem x).mp hx).resolve_left heq)⟩
  · by_cases heq : x = timer
    · subst heq
      rw [Function.update_self]
      exact Option.some_ne_none _
    · rwa [Function.update_of_ne heq]

theorem Abstm.WF.rmTimer (h : s.WF) (hcb : s.timers timer = some cb) :
    (s.rmTimer timer).WF ∧ Undisturbing s (s.rmTimer timer) ∧
      ∀ x, s.timers x ≠ none ∧ x ≠ timer → (s.rmTimer timer).timers x ≠ none := by
  unfold Abstm.rmTimer
  rw [hcb]
  dsimp only
  have hleft := h.leaveQueue timer
  refine ⟨⟨h.fault, hleft.nodup, fun x hx => ?_, fun x cb' hcb' hends => ?_⟩, ⟨rfl, rfl⟩,
    fun x hx => ?_⟩
  · have hne : x ≠ timer := ((List.Nodup.mem_erase_iff h.nodup).mp hx).1
    dsimp only
    rw [Function.update_of_ne hne]
    exact hleft.live x hx
  · by_cases heq : x = timer
    · subst heq
      dsimp only at hcb'
      rw [Function.update_self] at hcb'
      cases hcb'
    · dsimp only at hcb'
      rw [Function.update_of_ne heq] at hcb'
      exact hleft.once x cb' hcb' hends
  · rw [Function.update_of_ne hx.2]
    exact hx.1

/-- `tsklet_invokeall` with tasklets of live timers. -/
theorem invokeLoop_wf {tasks : List AbsTask} {live : TimerId → Prop} (h : s.WF)
    (hlive : ∀ x, live x → s.timers x ≠ none) (htasks : LiveTasks live tasks) :
    (tasks.foldl (fun s task => if s.fault then s else s.invoke task) s).WF ∧
      Undisturbing s (tasks.foldl (fun s task => if s.fault then s else s.invoke task) s) := by
  induction tasks generalizing s live with
  | nil => exact ⟨h, rfl, rfl⟩
  | cons task rest ih =>
      rw [List.foldl_cons, if_neg (by simp [h.fault])]
      -- the rest is executed in the state behind the first one
      have hnext : ∀ {live' : TimerId → Prop} {m : Abstm}, m.WF → Undisturbing s m →
          (∀ x, live' x → m.timers x ≠ none) → LiveTasks live' rest →
          (rest.foldl (fun s task => if s.fault then s else s.invoke task) m).WF ∧
            Undisturbing s
              (rest.foldl (fun s task => if s.fault then s else s.invoke task) m) := by
        intro live' m hm hsm hlive' hrest
        obtain ⟨hwf, hquiet⟩ := ih hm hlive' hrest
        exact ⟨hwf, hquiet.callbacks.trans hsm.callbacks, hquiet.lastTv.trans hsm.lastTv⟩
      cases task with
      | start timer tm arg =>
          obtain ⟨cb, hcb⟩ := Option.ne_none_iff_exists'.mp (hlive timer htasks.1)
          obtain ⟨hwf, hquiet, htimers⟩ := h.startTimer hcb tm arg
          exact hnext hwf hquiet (fun x hx => htimers x (hlive x hx)) htasks.2
      | stop timer =>
          obtain ⟨cb, hcb⟩ := Option.ne_none_iff_exists'.mp (hlive timer htasks.1)
          have hstop : s.invoke (.stop timer) = s.leaveQueue timer := by
            rw [Abstm.invoke, Abstm.stopTimer, hcb]
          rw [hstop]
          exact hnext (h.leaveQueue timer) ⟨rfl, rfl⟩ hlive htasks.2
      | rm timer =>
          obtain ⟨cb, hcb⟩ := Option.ne_none_iff_exists'.mp (hlive timer htasks.1)
          obtain ⟨hwf, hquiet, htimers⟩ := h.rmTimer hcb
          exact hnext hwf hquiet (fun x hx => htimers x ⟨hlive x hx.1, hx.2⟩) htasks.2

theorem invokeAll_wf (h : s.WF) (htasks : LiveTasks (fun x => s.timers x ≠ none) s.absTsklets) :
    s.invokeAll.WF ∧ Undisturbing s s.invokeAll := by
  have hwf : Abstm.WF { s with absTsklets := [] } := ⟨h.fault, h.nodup, h.live, h.once⟩
  obtain ⟨hwf', hquiet⟩ := invokeLoop_wf hwf (fun x hx => hx) htasks
  exact ⟨hwf', hquiet.callbacks, hquiet.lastTv⟩

/-! ## Runs -/

theorem AbsTimer.SafeFor.length_le (h : cb.SafeFor localtime secs) (hends : cb.ends = true) :
    (cb.due localtime secs).length ≤ 1 := by
  by_cases hfree : cb.autoFree = true
  · by_cases hnil : secs = []
    · rw [hnil]
      exact Nat.zero_le 1
    · have hlast : cb.due localtime secs.dropLast = [] :=
        List.filter_eq_nil_iff.mpr fun x hx => by simp [h.last hfree x hx]
      have hsplit : cb.due localtime secs = cb.due localtime secs.dropLast ++
          cb.due localtime [secs.getLast hnil] := by
        unfold AbsTimer.due
        rw [← List.filter_append, List.dropLast_append_getLast]
      rw [hsplit, hlast, List.nil_append]
      exact (List.length_filter_le _ _).trans le_rfl
  · exact h.once (by simpa [AbsTimer.ends, hfree] using hends)

theorem AbsTimer.SafeFor.activeSeconds_eq (h : cb.SafeFor localtime secs) :
    cb.activeSeconds localtime secs = cb.due localtime secs := by
  unfold AbsTimer.activeSeconds
  split
  · rename_i hends
    exact List.take_of_length_le (h.length_le hends)
  · rfl

/-- The seconds since the previous reading; at the first one there is only the current
second. -/
def Abstm.since (s : Abstm) (now : Int) : Int :=
  if s.lastTv = -1 then s.scanFrom now else s.lastTv

/-- At most a minute between readings of the clock, and tasklets of timers that have not been
freed. -/
structure Regular (s : Abstm) (now : Int) : Prop where
  tasks : LiveTasks (fun x => s.timers x ≠ none) s.absTsklets
  steady : s.lastTv = -1 ∨ 0 ≤ now - s.lastTv ∧ now - s.lastTv ≤ 60

/-- No active timer matches a second too many. -/
structure Punctual (localtime : Int → Tm) (s : Abstm) (now : Int) : Prop
    extends Regular s now where
  safe : ∀ timer ∈ s.invokeAll.activateTimers, ∀ cb, s.invokeAll.timers timer = some cb →
    cb.SafeFor localtime (Abstm.seconds (s.since now) now)

/-- The callbacks of a timer that are due at a reading of the clock. -/
def Abstm.expected (localtime : Int → Tm) (s : Abstm) (now : Int) (timer : TimerId) :
    List Callback :=
  if timer ∈ s.invokeAll.activateTimers then
    (s.invokeAll.timers timer).elim [] fun cb =>
      (cb.activeSeconds localtime (seconds (s.since now) now)).map fun second =>
        ⟨timer, cb.arg, second⟩
  else []

/-- What is said of the timers: no timer is accessed after it has been freed, a one-shoot timer
fires once since its start, and a reading of the clock calls back what is due. -/
structure AbsOk (localtime : Int → Tm) (allowed : Int → Prop) (s : Abstm) : Prop where
  fault : s.fault = false
  once : ∀ timer cb, s.timers timer = some cb → cb.oneShoot = true → s.fired timer ≤ 1
  exact : ∀ now s', allowed now → s.abstmTrigger localtime now = some s' →
    s'.fault = false ∧ ∃ fresh, s'.callbacks = s.callbacks ++ fresh ∧
      ∀ timer, fresh.filter (fun c => c.timer = timer) = s.expected localtime now timer

theorem scanFrom_eq {m : Abstm} {now : Int} (hlast : m.lastTv = s.lastTv)
    (hsteady : s.lastTv = -1 ∨ 0 ≤ now - s.lastTv ∧ now - s.lastTv ≤ 60) :
    m.scanFrom now = s.since now := by
  have hsame : m.scanFrom now = s.scanFrom now := by
    rw [Abstm.scanFrom, Abstm.scanFrom, Abstm.resets, Abstm.resets, hlast]
  rw [hsame]
  unfold Abstm.since
  split
  · rfl
  · rename_i hfirst
    have hnear := hsteady.resolve_left hfirst
    have hdiff : (now - s.lastTv).bmod (2 ^ 32) = now - s.lastTv :=
      Int.bmod_eq_of_le (by omega) (by omega)
    rw [Abstm.scanFrom, Abstm.resets, hdiff, if_neg]
    simp only [decide_eq_true_eq]
    omega

/-- The callbacks of one timer in a scan. -/
theorem filter_callsOf (s : Abstm) {list : List TimerId} (hnodup : list.Nodup)
    (timer : TimerId) :
    (list.flatMap (s.callsOf localtime secs)).filter (fun c => c.timer = timer) =
      if timer ∈ list then s.callsOf localtime secs timer else [] := by
  have hown : ∀ x, (s.callsOf localtime secs x).filter (fun c => c.timer = timer) =
      if x = timer then s.callsOf localtime secs x else [] := by
    intro x
    have hall : ∀ c ∈ s.callsOf localtime secs x, c.timer = x := by
      intro c hc
      unfold Abstm.callsOf at hc
      cases hx : s.timers x with
      | none =>
          rw [hx] at hc
          exact absurd hc List.not_mem_nil
      | some cb =>
          rw [hx] at hc
          obtain ⟨second, -, rfl⟩ := List.mem_map.mp hc
          rfl
    split
    · rename_i heq
      exact List.filter_eq_self.mpr fun c hc => decide_eq_true ((hall c hc).trans heq)
    · rename_i hne
      exact List.filter_eq_nil_iff.mpr fun c hc h =>
        hne ((hall c hc).symm.trans (of_decide_eq_true h))
  induction list with
  | nil => rfl
  | cons x rest ih =>
      obtain ⟨hnot, hrest⟩ := List.nodup_cons.mp hnodup
      rw [List.flatMap_cons, List.filter_append, hown, ih hrest]
      by_cases heq : x = timer
      · subst heq
        rw [if_pos rfl, if_neg hnot, if_pos List.mem_cons_self, List.append_nil]
      · rw [if_neg heq, List.nil_append]
        have hiff : timer ∈ x :: rest ↔ timer ∈ rest := by
          rw [List.mem_cons]
          exact ⟨fun h => h.resolve_left fun h => heq h.symm, Or.inr⟩
        simp only [hiff]

/-- A reading of the clock under the condition. -/
theorem trigger_spec {now : Int} (h : s.WF) (hpunctual : Punctual localtime s now)
    (htrigger : s.abstmTrigger localtime now = some s') :
    s'.WF ∧ ∃ fresh, s'.callbacks = s.callbacks ++ fresh ∧
      ∀ timer, fresh.filter (fun c => c.timer = timer) = s.expected localtime now timer := by
  obtain ⟨hwf, hquiet⟩ := invokeAll_wf h hpunctual.tasks
  have hfrom : s.invokeAll.scanFrom now = s.since now :=
    scanFrom_eq hquiet.lastTv hpunctual.steady
  unfold Abstm.abstmTrigger at htrigger
  dsimp only at htrigger
  rw [if_neg (by simp [hwf.fault]), hfrom] at htrigger
  split at htrigger
  · cases htrigger
  obtain rfl := Option.some.inj htrigger
  have hscan : Scanned localtime (Abstm.seconds (s.since now) now) s.invokeAll.activateTimers
      s.invokeAll (s.invokeAll.scan localtime (Abstm.seconds (s.since now) now)) := by
    refine scanLoop_scanned hwf.fault hwf.nodup hwf.nodup fun timer htimer => ?_
    obtain ⟨cb, hcb⟩ := hwf.live timer htimer
    exact ⟨cb, hcb, hpunctual.safe timer htimer cb hcb⟩
  refine ⟨⟨hscan.fault.trans hwf.fault, hscan.nodup, fun timer htimer => ?_,
    fun timer cb hcb hends => ?_⟩, s.invokeAll.activateTimers.flatMap
      (s.invokeAll.callsOf localtime (Abstm.seconds (s.since now) now)), ?_, fun timer => ?_⟩
  · -- what is still active has not been freed
    by_cases hlist : timer ∈ s.invokeAll.activateTimers
    · obtain ⟨cb, hcb⟩ := hwf.live timer hlist
      obtain ⟨htimers, -, hactive⟩ := hscan.scanned timer hlist cb hcb
      have hstay := (hactive.mp htimer).2
      refine ⟨cb, htimers.trans (if_neg fun hgone => hstay ⟨?_, hgone.2⟩)⟩
      simp [AbsTimer.ends, hgone.1]
    · exact absurd ((hscan.others timer hlist).2.2.mp htimer) hlist
  · by_cases hlist : timer ∈ s.invokeAll.activateTimers
    · obtain ⟨cb', hcb'⟩ := hwf.live timer hlist
      obtain ⟨htimers, hfired, hactive⟩ := hscan.scanned timer hlist cb' hcb'
      -- the scan has kept the timer
      have hsame : cb' = cb := by
        have hboth := htimers.symm.trans hcb
        split at hboth
        · cases hboth
        · exact Option.some.inj hboth
      subst hsame
      have hzero := (hwf.once timer cb' hcb' hends).2 hlist
      have hle := (hpunctual.safe timer hlist cb' hcb').length_le hends
      refine ⟨by rw [hfired, hzero]; omega, fun hin => ?_⟩
      have hnone : cb'.due localtime (Abstm.seconds (s.since now) now) = [] := by
        by_contra hsome
        exact (hactive.mp hin).2 ⟨hends, hsome⟩
      rw [hfired, hzero, hnone]
      rfl
    · obtain ⟨htimers, hfired, hactive⟩ := hscan.others timer hlist
      have hold := hwf.once timer cb (htimers.symm.trans hcb) hends
      exact ⟨hfired.trans_le hold.1, fun hin => hfired.trans (hold.2 (hactive.mp hin))⟩
  · rw [← hquiet.callbacks]
    exact hscan.callbacks
  · rw [filter_callsOf _ hwf.nodup]
    unfold Abstm.expected Abstm.callsOf
    by_cases hlist : timer ∈ s.invokeAll.activateTimers
    · obtain ⟨cb, hcb⟩ := hwf.live timer hlist
      rw [if_pos hlist, if_pos hlist, hcb]
      dsimp only [Option.elim_some]
      rw [(hpunctual.safe timer hlist cb hcb).activeSeconds_eq]
    · rw [if_neg hlist, if_neg hlist]

/-- The condition on the steps of a run. -/
def InTime (localtime : Int → Tm) (s : Abstm) : AbsAction → Prop
  | .trigger now => Punctual localtime s now
  | _ => True

theorem wf_of_inTime (hreach : (abstmMachine localtime).ReachWhen (InTime localtime) s) :
    s.WF := by
  refine hreach.invariant (I := Abstm.WF) ?_ ?_
  · rintro _ rfl
    exact ⟨rfl, List.nodup_nil, fun x hx => absurd hx List.not_mem_nil,
      fun _ _ hcb => by cases hcb⟩
  · intro s action s' h hguard hstep
    simp only [abstmMachine] at hstep
    rw [if_neg (by simp [h.fault])] at hstep
    cases action with
    | create timer flag =>
        dsimp only at hstep
        split at hstep
        · rename_i hfree
          obtain rfl := Option.some.inj hstep
          have hnot : timer ∉ s.activateTimers := fun hin => by
            obtain ⟨cb, hcb⟩ := h.live timer hin
            rw [hfree] at hcb
            cases hcb
          refine ⟨h.fault, h.nodup, fun x hx => ?_, fun x cb hcb hends => ?_⟩
          · have hne : x ≠ timer := fun heq => hnot (heq ▸ hx)
            dsimp only
            rw [Function.update_of_ne hne]
            exact h.live x hx
          · by_cases heq : x = timer
            · subst heq
              dsimp only
              rw [Function.update_self]
              exact ⟨Nat.zero_le 1, fun _ => rfl⟩
            · dsimp only at hcb ⊢
              rw [Function.update_of_ne heq] at hcb ⊢
              exact h.once x cb hcb hends
        · cases hstep
    | post task =>
        obtain rfl := Option.some.inj hstep
        exact ⟨h.fault, h.nodup, h.live, h.once⟩
    | trigger now => exact (trigger_spec h hguard hstep).1

/-- In every run whose readings of the clock meet the condition. -/
theorem absOk_of_inTime (localtime : Int → Tm) {s : Abstm}
    (hreach : (abstmMachine localtime).ReachWhen (InTime localtime) s) :
    AbsOk localtime (Punctual localtime s) s := by
  have h := wf_of_inTime hreach
  refine ⟨h.fault, fun timer cb hcb hshoot => ?_, fun now s' hpunctual htrigger => ?_⟩
  · exact (h.once timer cb hcb (by simp [AbsTimer.ends, hshoot])).1
  · obtain ⟨hwf, hfresh⟩ := trigger_spec h hpunctual htrigger
    exact ⟨hwf.fault, hfresh⟩

/-- `localtime_r` on the first day, in UTC. -/
def firstDay (t : Int) : Tm := ⟨t % 60, t / 60 % 60, t / 3600 % 24, 1, 0, 70⟩

/-- A one-shoot timer has been created, and a tasklet will start it with a pattern that every
second matches. -/
def everySecond (lastTv : Int) : Abstm :=
  ⟨Function.update (fun _ => none) 0 (some ⟨1, Tm.zero, 0⟩), [],
    [.start 0 ⟨-1, -1, -1, -1, -1, -1⟩ 7], lastTv, false, [], Function.update (fun _ => 0) 0 0⟩

theorem liveTasks_everySecond (lastTv : Int) :
    LiveTasks (fun x => (everySecond lastTv).timers x ≠ none) (everySecond lastTv).absTsklets :=
  ⟨Option.some_ne_none _, trivial⟩

section Decide

variable {localtime : Int → Tm} {s : Abstm} {now : Int}

instance {secs : List Int} {cb : AbsTimer} : Decidable (cb.SafeFor localtime secs) :=
  decidable_of_iff ((cb.oneShoot = true → (cb.due localtime secs).length ≤ 1) ∧
    (cb.autoFree = true → ∀ second ∈ secs.dropLast,
      cb.tm.matchesTime (localtime second) = false))
    ⟨fun h => ⟨h.1, h.2⟩, fun h => ⟨h.once, h.last⟩⟩

instance LiveTasks.decide : (live : TimerId → Prop) → [DecidablePred live] →
    (tasks : List AbsTask) → Decidable (LiveTasks live tasks)
  | _, _, [] => .isTrue trivial
  | live, _, .rm timer :: rest =>
      have := LiveTasks.decide (fun x => live x ∧ x ≠ timer) rest
      inferInstanceAs (Decidable (live timer ∧ _))
  | live, _, .start timer _ _ :: rest =>
      have := LiveTasks.decide live rest
      inferInstanceAs (Decidable (live timer ∧ _))
  | live, _, .stop timer :: rest =>
      have := LiveTasks.decide live rest
      inferInstanceAs (Decidable (live timer ∧ _))

instance : Decidable (Punctual localtime s now) :=
  decidable_of_iff ((LiveTasks (fun x => s.timers x ≠ none) s.absTsklets ∧
    (s.lastTv = -1 ∨ 0 ≤ now - s.lastTv ∧ now - s.lastTv ≤ 60)) ∧
    ∀ timer ∈ s.invokeAll.activateTimers, ∀ cb ∈ s.invokeAll.timers timer,
      cb.SafeFor localtime (Abstm.seconds (s.since now) now))
    ⟨fun h => ⟨⟨h.1.1, h.1.2⟩, h.2⟩, fun h => ⟨⟨h.tasks, h.steady⟩, h.safe⟩⟩

/-- A test for the condition. -/
def inTime (localtime : Int → Tm) (s : Abstm) : AbsAction → Bool
  | .trigger now => decide (Punctual localtime s now)
  | _ => true

theorem inTime_of_test (action : AbsAction) (htest : inTime localtime s action = true) :
    InTime localtime s action := by
  cases action with
  | trigger now =>
      simp only [inTime, decide_eq_true_eq] at htest
      exact htest
  | _ => trivial

end Decide

/-- Timer `0` is called back in every second, and the one-shoot timer `1` in second 40 of a
minute.  The clock is read three times. -/
def twoTimers : List AbsAction :=
  [.create 0 0, .create 1 1, .post (.start 0 ⟨-1, -1, -1, -1, -1, -1⟩ 7),
    .post (.start 1 ⟨40, -1, -1, -1, -1, -1⟩ 8), .trigger 99, .trigger 101, .post (.stop 0),
    .trigger 161]

/-- The state behind this run. -/
def readThrice : Abstm :=
  ((abstmMachine firstDay).runWhen (inTime firstDay)
    ⟨fun _ => none, [], [], -1, false, [], fun _ => 0⟩ twoTimers).get (by decide +kernel)

theorem absOk_twoTimers : (abstmMachine firstDay).ReachWhen (InTime firstDay) readThrice ∧
    readThrice.callbacks = [⟨0, 7, 99⟩, ⟨1, 8, 100⟩, ⟨0, 7, 100⟩, ⟨0, 7, 101⟩] ∧
    AbsOk firstDay (Punctual firstDay readThrice) readThrice := by
  have hreach : (abstmMachine firstDay).ReachWhen (InTime firstDay) readThrice :=
    Machine.reachWhen_of_runWhen (fun _ => inTime_of_test) twoTimers (.init rfl)
      (Option.some_get _).symm
  exact ⟨hreach, by decide +kernel, absOk_of_inTime firstDay hreach⟩

/-- At most a minute between the readings of a run. -/
def InRange (s : Abstm) : AbsAction → Prop
  | .trigger now => Regular s now
  | _ => True

/-- The timer is started after a reading of the clock and the next reading is two seconds
later: it is called back for both of them. -/
theorem oneShoot_fires_twice :
    ¬ ∀ s, (abstmMachine firstDay).ReachWhen InRange s → AbsOk firstDay (Regular s) s := by
  intro hall
  have hposted : (abstmMachine firstDay).ReachWhen InRange (everySecond 99) :=
    .step (a := .post (.start 0 ⟨-1, -1, -1, -1, -1, -1⟩ 7))
      (.step (a := .trigger 99) (.step (a := .create 0 1) (.init rfl) trivial rfl)
        ⟨trivial, Or.inl rfl⟩ rfl) trivial rfl
  have hregular : Regular (everySecond 99) 101 :=
    ⟨liveTasks_everySecond _, Or.inr (by decide)⟩
  have hguard : InRange (everySecond 99) (.trigger 101) := hregular
  have hreach := Machine.ReachWhen.step hposted hguard rfl
  have honce := (hall _ hreach).once 0 ⟨1, ⟨-1, -1, -1, -1, -1, -1⟩, 7⟩ rfl rfl
  exact absurd honce (by decide)

end Timer
end AndroidLinux
