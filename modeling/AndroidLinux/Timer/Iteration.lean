import AndroidLinux.Timer.Schedule

/-!
# One iteration of the timer thread

The loops of `_reltm_trigger` over the bucket of `_tick_last` trigger exactly the timers
that are due in this iteration and leave the due iteration of every other timer as it
was (`Core.iterated`).  Between iterations `Reltm.WF` holds, whatever is called and
posted (`wf_of_reach`).
-/

namespace AndroidLinux
namespace Timer

open Lib

/-- A call of the interface that posts a tasklet for an existing timer. -/
def Request.Names (timer : TimerId) : Request → Prop
  | .start t _ _ _ _ => t = timer
  | .stop t _ _ => t = timer
  | .free t _ => t = timer
  | .create _ _ _ => False
  | .startSimple _ _ _ _ _ _ => False

/-- A callback of the iteration posts a tasklet for the timer. -/
def TickEnv.Names (env : TickEnv) (timer : TimerId) : Prop :=
  ∃ t, ∃ r ∈ env.callback t, r.Names timer

/-- `PETF_AUTO_RESTART`: none of the flags is set. -/
def TmCb.AutoRestart (cb : TmCb) : Prop :=
  cb.mode &&& petfAutoFree = 0 ∧ cb.mode &&& petfOneShoot = 0

namespace Reltm

variable {s s' : Reltm} {timer : TimerId}

/-! ## Calls of the interface -/

/-- Tasklets are posted only for the timers in `named` and for timers that did not exist
beforehand. -/
def PostsFor (named : TimerId → Prop) (s s' : Reltm) : Prop :=
  ∃ posts, s'.relTsklets = s.relTsklets ++ posts
    ∧ ∀ task ∈ posts, named task.timer ∨ s.nextTimer ≤ task.timer

theorem PostsFor.of_eq (named : TimerId → Prop) (heq : s'.relTsklets = s.relTsklets) :
    PostsFor named s s' :=
  ⟨[], by rw [heq, List.append_nil], fun _ hmem => (List.not_mem_nil hmem).elim⟩

theorem PostsFor.trans {named : TimerId → Prop} {s₁ s₂ : Reltm} (h₁ : PostsFor named s s₁)
    (h₂ : PostsFor named s₁ s₂) (hnext : s.nextTimer ≤ s₁.nextTimer) :
    PostsFor named s s₂ := by
  obtain ⟨posts₁, heq₁, hnamed₁⟩ := h₁
  obtain ⟨posts₂, heq₂, hnamed₂⟩ := h₂
  refine ⟨posts₁ ++ posts₂, by rw [heq₂, heq₁, List.append_assoc], ?_⟩
  intro task hmem
  cases List.mem_append.mp hmem with
  | inl hfirst => exact hnamed₁ task hfirst
  | inr hsecond => exact (hnamed₂ task hsecond).imp_right hnext.trans

/-- A timer that exists and is not named gets no tasklet. -/
theorem PostsFor.unnamed {named : TimerId → Prop} (h : PostsFor named s s')
    (hold : timer < s.nextTimer) (hnot : ¬ named timer)
    (hqueue : ∀ task ∈ s.relTsklets, task.timer ≠ timer) :
    ∀ task ∈ s'.relTsklets, task.timer ≠ timer := by
  obtain ⟨posts, heq, hposts⟩ := h
  intro task hmem htimer
  rw [heq, List.mem_append] at hmem
  cases hmem with
  | inl hthere => exact hqueue task hthere htimer
  | inr hpost =>
      cases hposts task hpost with
      | inl hnamed => exact hnot (htimer ▸ hnamed)
      | inr hnew => exact Nat.not_le_of_lt hold (htimer ▸ hnew)

/-- What calls of the interface may change; `named` are the timers they name. -/
structure Posted (named : TimerId → Prop) (s s' : Reltm) : Prop where
  rest : s' = { s with
    timers := s'.timers, nextTimer := s'.nextTimer, relTsklets := s'.relTsklets }
  timers : ∀ t, t < s.nextTimer → s'.timers t = s.timers t
  next : s.nextTimer ≤ s'.nextTimer
  fresh : (∀ t, s.nextTimer ≤ t → s.timers t = none) →
    ∀ t, s'.nextTimer ≤ t → s'.timers t = none
  posts : PostsFor named s s'

theorem Posted.refl (named : TimerId → Prop) (s : Reltm) : Posted named s s where
  rest := rfl
  timers := fun _ _ => rfl
  next := Nat.le_refl _
  fresh := id
  posts := .of_eq named rfl

theorem Posted.trans {named : TimerId → Prop} {s₁ s₂ : Reltm} (h₁ : Posted named s s₁)
    (h₂ : Posted named s₁ s₂) : Posted named s s₂ where
  rest := by
    rw [h₂.rest, h₁.rest]
  timers := by
    intro t ht
    rw [h₂.timers t (Nat.lt_of_lt_of_le ht h₁.next), h₁.timers t ht]
  next := h₁.next.trans h₂.next
  fresh := fun h => h₂.fresh (h₁.fresh h)
  posts := h₁.posts.trans h₂.posts h₁.next

section Kept

variable {named : TimerId → Prop} (h : Posted named s s')

include h

theorem Posted.iteration : s'.iteration = s.iteration := by
  rw [h.rest]

theorem Posted.tickLast : s'.tickLast = s.tickLast := by
  rw [h.rest]

theorem Posted.tmHash : s'.tmHash = s.tmHash := by
  rw [h.rest]

theorem Posted.expiries : s'.expiries = s.expiries := by
  rw [h.rest]

theorem Posted.relInterTsklets : s'.relInterTsklets = s.relInterTsklets := by
  rw [h.rest]

end Kept

/-- Only the timers that exist beforehand have to be named. -/
theorem Posted.mono {named named' : TimerId → Prop} (h : Posted named s s')
    (himp : ∀ t, named t → named' t ∨ s.nextTimer ≤ t) : Posted named' s s' where
  rest := h.rest
  timers := h.timers
  next := h.next
  fresh := h.fresh
  posts := by
    obtain ⟨posts, heq, hnamed⟩ := h.posts
    exact ⟨posts, heq, fun task hmem => (hnamed task hmem).elim (himp _) .inr⟩

theorem post_posted (s : Reltm) (task : Tasklet) (malloc : Bool) {named : TimerId → Prop}
    (hnamed : named task.timer ∨ s.nextTimer ≤ task.timer) :
    Posted named s (s.post task malloc).1 := by
  cases malloc with
  | false => exact .refl named s
  | true =>
      refine ⟨rfl, fun _ _ => rfl, Nat.le_refl _, id, [task], rfl, ?_⟩
      intro other hmem
      rw [List.mem_singleton] at hmem
      exact hmem ▸ hnamed

theorem create_posted (s : Reltm) (timeout : Option Nat) (mode : UInt32) (malloc : Bool)
    (named : TimerId → Prop) :
    Posted named s (s.petimerCreateReltimer timeout mode malloc).1 := by
  cases timeout with
  | none => exact .refl named s
  | some f =>
      cases malloc with
      | false => exact .refl named s
      | true =>
          refine ⟨rfl, ?_, Nat.le_succ _, ?_, .of_eq named rfl⟩
          · intro t ht
            exact Function.update_of_ne (Nat.ne_of_lt ht) _ _
          · intro hfresh t ht
            have hlt : s.nextTimer < t := ht
            have hsame : Function.update s.timers s.nextTimer _ t = s.timers t :=
              Function.update_of_ne (Nat.ne_of_gt hlt) (some ⟨0, f, 0, mode.toUInt8⟩) _
            exact hsame.trans (hfresh t (Nat.le_of_lt hlt))

theorem start_posted (s : Reltm) (timer : TimerId) (msec : UInt32) (arg : Nat)
    (mallocInfo malloc : Bool) {named : TimerId → Prop}
    (hnamed : named timer ∨ s.nextTimer ≤ timer) :
    Posted named s (s.petimerStartReltimer timer msec arg mallocInfo malloc).1 := by
  cases mallocInfo with
  | false => exact .refl named s
  | true => exact post_posted s (.doStartTm timer msec arg) malloc hnamed

theorem request_posted (s : Reltm) (r : Request) :
    Posted (fun t => r.Names t) s (s.request r) := by
  cases r with
  | create timeout mode malloc => exact create_posted s timeout mode malloc _
  | start timer msec arg mallocInfo malloc =>
      exact start_posted s timer msec arg mallocInfo malloc (.inl rfl)
  | stop timer mallocInfo malloc =>
      cases mallocInfo with
      | false => exact .refl _ s
      | true => exact post_posted s (.doStopTm timer) malloc (.inl rfl)
  | free timer malloc => exact post_posted s (.doFreeTm timer) malloc (.inl rfl)
  | startSimple msec timeout arg mallocTimer mallocInfo malloc =>
      have hcreate := create_posted s timeout petfAutoFree.toUInt32 mallocTimer
        (· = s.nextTimer)
      rw [request, petimerStartReltimerSimple]
      -- the timer that is started is the one just created
      cases timeout with
      | none => exact .refl _ s
      | some f =>
          cases mallocTimer with
          | false => exact .refl _ s
          | true =>
              refine Posted.mono (hcreate.trans
                (start_posted _ s.nextTimer msec arg mallocInfo malloc (.inl rfl))) ?_
              intro t ht
              exact .inr (Nat.le_of_eq ht.symm)

theorem foldl_request_posted (s : Reltm) (requests : List Request) :
    Posted (fun t => ∃ r ∈ requests, r.Names t) s (requests.foldl request s) := by
  induction requests generalizing s with
  | nil => exact .refl _ s
  | cons r rest ih =>
      refine Posted.trans ((request_posted s r).mono fun t ht => ?_)
        ((ih (s.request r)).mono fun t ht => ?_)
      · exact .inl ⟨r, List.mem_cons_self, ht⟩
      · obtain ⟨other, hmem, hnames⟩ := ht
        exact .inl ⟨other, List.mem_cons_of_mem _ hmem, hnames⟩

/-! ## Triggering timers -/

/-- What triggering the timers of a list changes, apart from the wheel. -/
structure Fired (env : TickEnv) (timers : List TimerId) (s s' : Reltm) : Prop where
  tickLast : s'.tickLast = s.tickLast
  iteration : s'.iteration = s.iteration
  next : s.nextTimer ≤ s'.nextTimer
  fresh : (∀ t, s.nextTimer ≤ t → s.timers t = none) →
    ∀ t, s'.nextTimer ≤ t → s'.timers t = none
  others : ∀ t, t < s.nextTimer → t ∉ timers → s'.timers t = s.timers t
  expiries : ∃ new, s'.expiries = s.expiries ++ new ∧ new.map Expiry.timer = timers
    ∧ ∀ e ∈ new, e.iteration = s.iteration
  restarts : ∃ again, s'.relInterTsklets = s.relInterTsklets ++ again
    ∧ again.Sublist timers ∧ ∀ t ∈ again, s'.timers t = s.timers t
  rearmed : ∀ t ∈ timers, ∀ cb, s.timers t = some cb → cb.AutoRestart → env.malloc t = true →
    t ∈ s'.relInterTsklets ∧ s'.timers t = some cb
  posts : PostsFor env.Names s s'
  quiet : (∀ t, env.callback t = []) → s'.relTsklets = s.relTsklets

theorem Fired.nil (env : TickEnv) (s : Reltm) : Fired env [] s s where
  tickLast := rfl
  iteration := rfl
  next := Nat.le_refl _
  fresh := id
  others := fun _ _ _ => rfl
  expiries := ⟨[], by simp⟩
  restarts := ⟨[], by simp⟩
  rearmed := fun _ h => (List.not_mem_nil h).elim
  posts := .of_eq _ rfl
  quiet := fun _ => rfl

theorem Fired.append {env : TickEnv} {l₁ l₂ : List TimerId} {s₁ s₂ : Reltm}
    (h₁ : Fired env l₁ s s₁) (h₂ : Fired env l₂ s₁ s₂) (hdisj : l₁.Disjoint l₂)
    (hold : ∀ t ∈ l₁ ++ l₂, t < s.nextTimer) : Fired env (l₁ ++ l₂) s s₂ where
  tickLast := h₂.tickLast.trans h₁.tickLast
  iteration := h₂.iteration.trans h₁.iteration
  next := h₁.next.trans h₂.next
  fresh := fun h => h₂.fresh (h₁.fresh h)
  others := by
    intro t ht hnot
    rw [List.mem_append, not_or] at hnot
    rw [h₂.others t (Nat.lt_of_lt_of_le ht h₁.next) hnot.2, h₁.others t ht hnot.1]
  expiries := by
    obtain ⟨new₁, heq₁, htimers₁, hiter₁⟩ := h₁.expiries
    obtain ⟨new₂, heq₂, htimers₂, hiter₂⟩ := h₂.expiries
    refine ⟨new₁ ++ new₂, by rw [heq₂, heq₁, List.append_assoc],
      by rw [List.map_append, htimers₁, htimers₂], ?_⟩
    intro e hmem
    cases List.mem_append.mp hmem with
    | inl hfirst => exact hiter₁ e hfirst
    | inr hsecond => exact (hiter₂ e hsecond).trans h₁.iteration
  restarts := by
    obtain ⟨again₁, heq₁, hsub₁, hsame₁⟩ := h₁.restarts
    obtain ⟨again₂, heq₂, hsub₂, hsame₂⟩ := h₂.restarts
    refine ⟨again₁ ++ again₂, by rw [heq₂, heq₁, List.append_assoc], hsub₁.append hsub₂, ?_⟩
    intro t hmem
    -- no timer is triggered in both parts, so the other part leaves it as it is
    cases List.mem_append.mp hmem with
    | inl hfirst =>
        have hin := hsub₁.subset hfirst
        have hlt := hold t (List.mem_append_left _ hin)
        rw [h₂.others t (Nat.lt_of_lt_of_le hlt h₁.next) (hdisj hin), hsame₁ t hfirst]
    | inr hsecond =>
        have hin := hsub₂.subset hsecond
        have hlt := hold t (List.mem_append_right _ hin)
        rw [hsame₂ t hsecond, h₁.others t hlt fun h => hdisj h hin]
  rearmed := by
    intro t hmem cb hcb hmode hmalloc
    have hlt := hold t hmem
    cases List.mem_append.mp hmem with
    | inl hin =>
        obtain ⟨hqueue, hsame⟩ := h₁.rearmed t hin cb hcb hmode hmalloc
        obtain ⟨again₂, heq₂, _⟩ := h₂.restarts
        rw [heq₂, h₂.others t (Nat.lt_of_lt_of_le hlt h₁.next) (hdisj hin)]
        exact ⟨List.mem_append_left _ hqueue, hsame⟩
    | inr hin =>
        rw [← h₁.others t hlt fun h => hdisj h hin] at hcb
        exact h₂.rearmed t hin cb hcb hmode hmalloc
  posts := h₁.posts.trans h₂.posts h₁.next
  quiet := fun h => (h₂.quiet h).trans (h₁.quiet h)

/-- The wheel plays no part in it. -/
theorem Fired.of_setHash {env : TickEnv} {l : List TimerId} {i : Fin tmHashLen} {b : TmHash}
    (h : Fired env l (s.setHash i b) s') : Fired env l s s' :=
  ⟨h.tickLast, h.iteration, h.next, h.fresh, h.others, h.expiries, h.restarts, h.rearmed,
    h.posts, h.quiet⟩

theorem Fired.setHash {env : TickEnv} {l : List TimerId} {i : Fin tmHashLen} {b : TmHash}
    (h : Fired env l s s') : Fired env l s (s'.setHash i b) :=
  ⟨h.tickLast, h.iteration, h.next, h.fresh, h.others, h.expiries, h.restarts, h.rearmed,
    h.posts, h.quiet⟩

theorem triggerATimer_spec (env : TickEnv) (hold : timer < s.nextTimer)
    (halive : (s.timers timer).isSome) :
    ∃ s', s.triggerATimer env timer = some s' ∧ Fired env [timer] s s'
      ∧ s'.tmHash = s.tmHash := by
  obtain ⟨cb, hcb⟩ := Option.isSome_iff_exists.mp halive
  rw [triggerATimer, hcb]
  dsimp only
  generalize hs₀ : ({ s with
    expiries := s.expiries ++ [⟨timer, cb.timeout, cb.arg, s.iteration⟩] } : Reltm) = s₀
  generalize hs₁ : (env.callback timer).foldl request s₀ = s₁
  have hposted : Posted env.Names s₀ s₁ := by
    rw [← hs₁]
    exact (foldl_request_posted s₀ (env.callback timer)).mono fun t ht => .inl ⟨timer, ht⟩
  have hrest := hposted.rest
  subst hs₀
  have hvoid : ¬ (cb.AutoRestart ∧ env.malloc timer = true) → ∀ r : Reltm, ∀ t ∈ [timer],
      ∀ cb', s.timers t = some cb' → cb'.AutoRestart → env.malloc t = true →
      t ∈ r.relInterTsklets ∧ r.timers t = some cb' := by
    intro hnot r t ht cb' hcb' hmode hmalloc
    rw [List.mem_singleton] at ht
    subst ht
    rw [hcb, Option.some.injEq] at hcb'
    exact (hnot ⟨hcb' ▸ hmode, hmalloc⟩).elim
  -- without a restart; the two other outcomes differ from it in the timer or in the queue
  have hbase : ¬ (cb.AutoRestart ∧ env.malloc timer = true) → Fired env [timer] s s₁ := by
    intro hnot
    refine ⟨by rw [hrest], by rw [hrest], hposted.next, hposted.fresh,
      fun t ht _ => hposted.timers t ht,
      ⟨_, by rw [hrest], rfl, by simp⟩, ⟨[], by rw [hrest]; simp, by simp, by simp⟩,
      hvoid hnot s₁, hposted.posts, fun hquiet => ?_⟩
    rw [← hs₁, hquiet timer]
    rfl
  have hhash : s₁.tmHash = s.tmHash := by
    rw [hrest]
  split
  · rename_i hfree
    have hnot : ¬ (cb.AutoRestart ∧ env.malloc timer = true) := fun h => hfree h.1.1
    have hbase := hbase hnot
    refine ⟨_, rfl, { hbase with
      fresh := ?_, others := ?_, restarts := ?_, rearmed := hvoid hnot _ }, hhash⟩
    · intro hfresh t ht
      by_cases heq : t = timer
      · subst heq
        exact Function.update_self _ _ _
      · exact (Function.update_of_ne heq _ _).trans (hbase.fresh hfresh t ht)
    · intro t ht hnot
      rw [List.mem_singleton] at hnot
      exact (Function.update_of_ne hnot _ _).trans (hposted.timers t ht)
    · refine ⟨[], ?_, by simp, by simp⟩
      show s₁.relInterTsklets = _
      rw [hrest, List.append_nil]
  · split
    · cases hmalloc : env.malloc timer with
      | false =>
          refine ⟨s₁, rfl, hbase fun h => ?_, hhash⟩
          rw [hmalloc] at h
          cases h.2
      | true =>
          have hqueue : s₁.relInterTsklets = s.relInterTsklets := by
            rw [hrest]
          have hlog : s₁.expiries = s.expiries
              ++ [⟨timer, cb.timeout, cb.arg, s.iteration⟩] := by
            rw [hrest]
          refine ⟨_, rfl, ⟨by rw [hrest], by rw [hrest], hposted.next, hposted.fresh,
            fun t ht _ => hposted.timers t ht, ⟨_, hlog, rfl, by simp⟩,
            ⟨[timer], ?_, List.Sublist.refl _, ?_⟩, ?_, hposted.posts, fun hquiet => ?_⟩, hhash⟩
          · show s₁.relInterTsklets ++ [timer] = _
            rw [hqueue]
          · intro t ht
            rw [List.mem_singleton.mp ht]
            exact hposted.timers timer hold
          · intro t ht cb' hcb' _ _
            rw [List.mem_singleton] at ht
            subst ht
            refine ⟨List.mem_append_right _ (List.mem_singleton_self t), ?_⟩
            exact (hposted.timers t hold).trans hcb'
          · show s₁.relTsklets = s.relTsklets
            rw [← hs₁, hquiet timer]
            rfl
    · rename_i hshoot
      exact ⟨s₁, rfl, hbase fun h => hshoot h.1.2, hhash⟩

/-! ## The two loops -/

/-- The timers of a list can be triggered one after the other. -/
structure Ready (s : Reltm) (timers : List TimerId) : Prop where
  nodup : timers.Nodup
  old : ∀ t ∈ timers, t < s.nextTimer
  alive : ∀ t ∈ timers, (s.timers t).isSome

theorem Ready.setHash {timers : List TimerId} {i : Fin tmHashLen} {b : TmHash}
    (h : s.Ready timers) : (s.setHash i b).Ready timers :=
  ⟨h.nodup, h.old, h.alive⟩

theorem Ready.left {l₁ l₂ : List TimerId} (h : s.Ready (l₁ ++ l₂)) : s.Ready l₁ :=
  ⟨h.nodup.of_append_left, fun t ht => h.old t (List.mem_append_left _ ht),
    fun t ht => h.alive t (List.mem_append_left _ ht)⟩

/-- Triggering the first part leaves the second part ready. -/
theorem Ready.right {env : TickEnv} {l₁ l₂ : List TimerId} (h : s.Ready (l₁ ++ l₂))
    (hfired : Fired env l₁ s s') : s'.Ready l₂ := by
  have hdisj := List.disjoint_of_nodup_append h.nodup
  refine ⟨h.nodup.of_append_right, fun t ht => ?_, fun t ht => ?_⟩
  · exact Nat.lt_of_lt_of_le (h.old t (List.mem_append_right _ ht)) hfired.next
  · rw [hfired.others t (h.old t (List.mem_append_right _ ht)) fun hmem => hdisj hmem ht]
    exact h.alive t (List.mem_append_right _ ht)

theorem Ready.fired {env : TickEnv} {l₁ l₂ : List TimerId} {s₁ : Reltm}
    (h : s.Ready (l₁ ++ l₂)) (hfirst : Fired env l₁ s s₁) (hrest : Fired env l₂ s₁ s') :
    Fired env (l₁ ++ l₂) s s' :=
  hfirst.append hrest (List.disjoint_of_nodup_append h.nodup) h.old

theorem travelZero_spec (env : TickEnv) (i : Fin tmHashLen) (link : List Entry)
    (hlink : (s.tmHash i).zeroLink = link) (hready : s.Ready (link.map Entry.timer)) :
    ∃ s', travelZero env i link s = some s' ∧ Fired env (link.map Entry.timer) s s'
      ∧ s'.tmHash = Function.update s.tmHash i { s.tmHash i with zeroLink := [] } := by
  induction link generalizing s with
  | nil =>
      refine ⟨s, rfl, .nil env s, ?_⟩
      rw [← hlink]
      exact (Function.update_eq_self i s.tmHash).symm
  | cons item rest ih =>
      have hsplit : s.Ready ([item.timer] ++ rest.map Entry.timer) := hready
      obtain ⟨s₁, htrigger, hfirst, hhash⟩ := triggerATimer_spec env
        (hready.old item.timer (by simp)) (hready.alive item.timer (by simp))
      obtain ⟨s₂, htravel, hrest, hhash₂⟩ :=
        ih (s := s₁.setHash i { s₁.tmHash i with zeroLink := rest }) (by simp [setHash])
          (hsplit.right hfirst).setHash
      refine ⟨s₂, ?_, hsplit.fired hfirst hrest.of_setHash, ?_⟩
      · rw [travelZero, htrigger]
        exact htravel
      · rw [hhash₂, ← hhash]
        simp [setHash]

theorem travelSorted_spec (env : TickEnv) (i : Fin tmHashLen) (link : List Entry)
    (hlink : (s.tmHash i).sortedLink = link) (hready : s.Ready (leave link)) :
    ∃ s', travelSorted env i link s = some s' ∧ Fired env (leave link) s s'
      ∧ s'.tmHash = Function.update s.tmHash i { s.tmHash i with sortedLink := stay link } := by
  induction link generalizing s with
  | nil =>
      refine ⟨s, rfl, .nil env s, ?_⟩
      rw [stay, ← hlink]
      exact (Function.update_eq_self i s.tmHash).symm
  | cons item rest ih =>
      rw [leave] at hready ⊢
      rw [travelSorted, stay]
      by_cases hlt : item.ticksLeft < 1024
      · simp only [if_pos hlt] at hready ⊢
        have hsplit : s.Ready ([item.timer] ++ leave rest) := hready
        obtain ⟨s₁, htrigger, hfirst, hhash⟩ := triggerATimer_spec env
          (hready.old item.timer (by simp)) (hready.alive item.timer (by simp))
        obtain ⟨s₂, htravel, hrest, hhash₂⟩ :=
          ih (s := s₁.setHash i { s₁.tmHash i with sortedLink := rest }) (by simp [setHash])
            (hsplit.right hfirst).setHash
        refine ⟨s₂, ?_, hsplit.fired hfirst hrest.of_setHash, ?_⟩
        · rw [htrigger]
          exact htravel
        · rw [hhash₂, ← hhash]
          simp [setHash]
      · simp only [if_neg hlt]
        exact ⟨_, rfl, (Fired.nil env s).setHash, rfl⟩

theorem Core.ready_fired (hs : s.Core) (i : Fin tmHashLen) : s.Ready (s.tmHash i).fired := by
  have hkeys := TmHash.fired_append_timers (hs.buckets i)
  have halive : ∀ t ∈ (s.tmHash i).fired, (s.timers t).isSome := by
    intro t ht
    refine hs.alive t ⟨i, ?_⟩
    rw [← hkeys]
    exact List.mem_append_left _ ht
  refine ⟨?_, fun t ht => hs.lt_nextTimer (halive t ht), halive⟩
  have hnodup := (hs.buckets i).nodup
  rw [← hkeys] at hnodup
  exact hnodup.of_append_left

theorem travel_spec (env : TickEnv) (hs : s.Core) :
    ∃ s', s.travel env = some s'
      ∧ Fired env (s.tmHash (bucket s.tickLast)).fired s s'
      ∧ s'.tmHash = Function.update s.tmHash (bucket s.tickLast)
        (s.tmHash (bucket s.tickLast)).turned := by
  have hready := hs.ready_fired (bucket s.tickLast)
  rw [TmHash.fired] at hready ⊢
  rw [travel]
  generalize bucket s.tickLast = i at hready ⊢
  obtain ⟨s₁, hzero, hfired₁, hhash₁⟩ := travelZero_spec env i _ rfl hready.left
  have hlink : (s₁.tmHash i).sortedLink = (s.tmHash i).sortedLink := by
    rw [hhash₁, Function.update_self]
  obtain ⟨s₂, hsorted, hfired₂, hhash₂⟩ := travelSorted_spec env i _ hlink
    (hready.right hfired₁)
  refine ⟨s₂, ?_, hready.fired hfired₁ hfired₂, ?_⟩
  · simp only [hzero, hlink, hsorted]
  · rw [hhash₂, hhash₁, Function.update_idem, Function.update_self]
    rfl

/-! ## The whole iteration -/

/-- What holds between two iterations. -/
structure WF (s : Reltm) : Prop where
  core : s.Core
  waiting : s.Waiting s.relInterTsklets
  past : ∀ e ∈ s.expiries, e.iteration < s.iteration

/-- The effect of an iteration after its tasklets: `m` is the state before the loops. -/
structure Iterated (env : TickEnv) (m s' : Reltm) : Prop where
  wf : s'.WF
  iteration : s'.iteration = m.iteration + 1
  next : m.nextTimer ≤ s'.nextTimer
  due : ∀ t d, s'.Due t d ↔ m.Due t d ∧ d ≠ m.iteration
  expiries : ∃ new, s'.expiries = m.expiries ++ new
    ∧ (∀ t, t ∈ new.map Expiry.timer ↔ m.Due t m.iteration)
    ∧ ∀ e ∈ new, e.iteration = m.iteration
  others : ∀ t, t < m.nextTimer → ¬ m.Due t m.iteration → s'.timers t = m.timers t
  rearmed : ∀ t cb, m.Due t m.iteration → m.timers t = some cb → cb.AutoRestart →
    env.malloc t = true → t ∈ s'.relInterTsklets ∧ s'.timers t = some cb
  posts : PostsFor env.Names m s'
  quiet : (∀ t, env.callback t = []) → s'.relTsklets = m.relTsklets

section Loops

variable {m : Reltm} (hm : m.Core)

include hm

theorem Core.val_bucket_tickLast : (bucket m.tickLast).val = m.iteration % 1024 := by
  rw [val_bucket, hm.tick]
  omega

/-- The bucket of this iteration is the only one that is visited now. -/
theorem Core.visit_eq_iff {i : Fin tmHashLen} :
    visit m.iteration i = m.iteration ↔ i = bucket m.tickLast := by
  rw [Fin.ext_iff, hm.val_bucket_tickLast, visit]
  have hi : i.val < 1024 := i.isLt
  omega

/-- A timer is triggered in the iteration in which it is due. -/
theorem Core.mem_fired_iff_due {t : TimerId} :
    t ∈ (m.tmHash (bucket m.tickLast)).fired ↔ m.Due t m.iteration := by
  rw [TmHash.mem_fired_iff (hm.buckets _)]
  constructor
  · intro hmem
    refine ⟨_, 0, hmem, ?_⟩
    rw [hm.visit_eq_iff.mpr rfl]
    omega
  · intro hdue
    obtain ⟨i, turns, hmem, hd⟩ := hdue
    have hle := le_visit m.iteration i
    have hturns : turns = 0 := by omega
    have hi : i = bucket m.tickLast := hm.visit_eq_iff.mp (by omega)
    rw [← hi, ← hturns]
    exact hmem

/-- Every other timer stays due when it was, although the bucket has been turned. -/
theorem Core.due_turned {s' : Reltm} (hiter : s'.iteration = m.iteration + 1)
    (hhash : s'.tmHash = Function.update m.tmHash (bucket m.tickLast)
      (m.tmHash (bucket m.tickLast)).turned) {t : TimerId} {d : Nat} :
    s'.Due t d ↔ m.Due t d ∧ d ≠ m.iteration := by
  have hval := hm.val_bucket_tickLast
  have hother : ∀ i, i ≠ bucket m.tickLast →
      visit (m.iteration + 1) i = visit m.iteration i ∧ visit m.iteration i ≠ m.iteration := by
    intro i hi
    refine ⟨?_, fun h => hi (hm.visit_eq_iff.mp h)⟩
    rw [ne_eq, Fin.ext_iff, hval] at hi
    have hlt : i.val < 1024 := i.isLt
    rw [visit, visit]
    omega
  have hself : visit (m.iteration + 1) (bucket m.tickLast) = m.iteration + 1024 := by
    rw [visit, hval]
    omega
  constructor
  · intro hdue
    obtain ⟨i, turns, hmem, hd⟩ := hdue
    rw [hiter] at hd
    rw [hhash] at hmem
    by_cases hi : i = bucket m.tickLast
    · subst hi
      rw [Function.update_self, TmHash.mem_pending_turned (hm.buckets _)] at hmem
      rw [hself] at hd
      refine ⟨⟨_, turns + 1, hmem, ?_⟩, by omega⟩
      rw [hm.visit_eq_iff.mpr rfl]
      omega
    · rw [Function.update_of_ne hi] at hmem
      obtain ⟨hsame, hne⟩ := hother i hi
      have hle := le_visit m.iteration i
      rw [hsame] at hd
      exact ⟨⟨i, turns, hmem, hd⟩, by omega⟩
  · intro h
    obtain ⟨⟨i, turns, hmem, hd⟩, hne⟩ := h
    by_cases hi : i = bucket m.tickLast
    · subst hi
      rw [hm.visit_eq_iff.mpr rfl] at hd
      -- one turn of the bucket is used up
      have hturns : turns = turns - 1 + 1 := by omega
      refine ⟨bucket m.tickLast, turns - 1, ?_, ?_⟩
      · rw [hhash, Function.update_self, TmHash.mem_pending_turned (hm.buckets _), ← hturns]
        exact hmem
      · rw [hiter, hself]
        omega
    · refine ⟨i, turns, ?_, ?_⟩
      · rw [hhash, Function.update_of_ne hi]
        exact hmem
      · rw [hiter, (hother i hi).1]
        exact hd

/-- A triggered timer has left the wheel. -/
theorem Core.not_linked_of_fired {s' : Reltm}
    (hhash : s'.tmHash = Function.update m.tmHash (bucket m.tickLast)
      (m.tmHash (bucket m.tickLast)).turned) {t : TimerId}
    (ht : t ∈ (m.tmHash (bucket m.tickLast)).fired) : ¬ s'.Linked t := by
  have hkeys := TmHash.fired_append_timers (hm.buckets (bucket m.tickLast))
  have hnodup := (hm.buckets (bucket m.tickLast)).nodup
  rw [← hkeys] at hnodup
  intro hlinked
  obtain ⟨i, hi⟩ := hlinked
  rw [hhash] at hi
  by_cases heq : i = bucket m.tickLast
  · subst heq
    rw [Function.update_self] at hi
    exact List.disjoint_of_nodup_append hnodup ht hi
  · rw [Function.update_of_ne heq] at hi
    refine heq (hm.once i _ t hi ?_)
    rw [← hkeys]
    exact List.mem_append_left _ ht

/-- The invariant after the loops, from what they do to the wheel and to the rest. -/
theorem Core.turned {env : TickEnv} {s₁ s' : Reltm}
    (hfired : Fired env (m.tmHash (bucket m.tickLast)).fired m s₁)
    (hhash : s₁.tmHash = Function.update m.tmHash (bucket m.tickLast)
      (m.tmHash (bucket m.tickLast)).turned)
    (hs' : s' = { s₁ with tickLast := s₁.tickLast + 1, iteration := s₁.iteration + 1 }) :
    s'.Core := by
  have hkeys := TmHash.fired_append_timers (hm.buckets (bucket m.tickLast))
  -- the wheel alone first, with the clock and the timers of `m`
  have hwheel : (m.setHash (bucket m.tickLast)
      (m.tmHash (bucket m.tickLast)).turned).Core := by
    refine hm.setHash (hm.buckets _).turned fun t ht => .inl ?_
    rw [← hkeys]
    exact List.mem_append_right _ ht
  have hhash' : s'.tmHash = (m.setHash (bucket m.tickLast)
      (m.tmHash (bucket m.tickLast)).turned).tmHash := by
    rw [hs']
    exact hhash
  refine ⟨?_, ?_, ?_, ?_, ?_⟩
  · rw [hs']
    show (s₁.tickLast + 1).toNat = (s₁.iteration + 1) % 2 ^ 32
    rw [UInt32.toNat_add, hfired.tickLast, hfired.iteration, hm.tick]
    show (m.iteration % 2 ^ 32 + 1) % 2 ^ 32 = _
    omega
  · rw [hhash']
    exact hwheel.buckets
  · rw [hhash']
    exact hwheel.once
  · intro t hlinked
    have hnot : t ∉ (m.tmHash (bucket m.tickLast)).fired :=
      fun hmem => hm.not_linked_of_fired (hhash'.trans rfl) hmem hlinked
    have halive : (m.timers t).isSome := by
      refine hwheel.alive t ?_
      obtain ⟨i, hi⟩ := hlinked
      exact ⟨i, hhash' ▸ hi⟩
    have hsame := hfired.others t (hm.lt_nextTimer halive) hnot
    rw [hs']
    show (s₁.timers t).isSome
    rw [hsame]
    exact halive
  · rw [hs']
    exact hfired.fresh hm.fresh

theorem Core.iterated (env : TickEnv) (hpast : ∀ e ∈ m.expiries, e.iteration < m.iteration)
    (hinter : m.relInterTsklets = []) :
    ∃ s', (m.travel env).map
        (fun s => { s with tickLast := s.tickLast + 1, iteration := s.iteration + 1 })
        = some s' ∧ Iterated env m s' := by
  obtain ⟨s₁, htravel, hfired, hhash⟩ := travel_spec env hm
  have hnext : ({ s₁ with tickLast := s₁.tickLast + 1, iteration := s₁.iteration + 1 }
      : Reltm).iteration = m.iteration + 1 := by
    rw [← hfired.iteration]
  rw [htravel]
  refine ⟨_, rfl, ⟨hm.turned hfired hhash rfl, ?_, ?_⟩, ?_, hfired.next, ?_, ?_, ?_, ?_,
    hfired.posts, hfired.quiet⟩
  · obtain ⟨again, heq, hsub, hsame⟩ := hfired.restarts
    rw [hinter, List.nil_append] at heq
    have hready := hm.ready_fired (bucket m.tickLast)
    show Waiting _ s₁.relInterTsklets
    rw [heq]
    refine ⟨hready.nodup.sublist hsub, fun t ht => ?_, fun t ht => ?_⟩
    · show (s₁.timers t).isSome
      rw [hsame t ht]
      exact hready.alive t (hsub.subset ht)
    · exact hm.not_linked_of_fired hhash (hsub.subset ht)
  · obtain ⟨new, heq, _, hiter⟩ := hfired.expiries
    intro e hmem
    show e.iteration < s₁.iteration + 1
    rw [hfired.iteration]
    rw [show _ = m.expiries ++ new from heq, List.mem_append] at hmem
    cases hmem with
    | inl hold => exact Nat.lt_succ_of_lt (hpast e hold)
    | inr hnew => exact Nat.lt_succ_of_le (Nat.le_of_eq (hiter e hnew))
  · exact hnext
  · intro t d
    exact hm.due_turned hnext hhash
  · obtain ⟨new, heq, htimers, hiter⟩ := hfired.expiries
    refine ⟨new, heq, fun t => ?_, hiter⟩
    rw [htimers]
    exact hm.mem_fired_iff_due
  · intro t ht hnot
    exact hfired.others t ht fun hmem => hnot (hm.mem_fired_iff_due.mp hmem)
  · intro t cb hdue
    exact hfired.rearmed t (hm.mem_fired_iff_due.mpr hdue) cb

end Loops

/-! ## Every run -/

theorem invokeRelInter_spec (hs : s.WF) :
    ∃ s₁, s.invokeRelInter = some s₁
      ∧ Executed (· ∈ s.relInterTsklets) { s with relInterTsklets := [] } s₁
      ∧ s₁.timers = s.timers
      ∧ ∀ t ∈ s.relInterTsklets, ∀ cb, s.timers t = some cb →
        s₁.Due t (s.iteration + delay cb.msec) := by
  obtain ⟨s₀, hfold, hexec, htimers, hdue⟩ :=
    foldlM_doRestartTm_spec hs.core s.relInterTsklets hs.waiting
  have hqueue : s₀.relTsklets = s.relTsklets := hexec.relTsklets
  rw [invokeRelInter, hfold]
  refine ⟨_, rfl, ?_, htimers, hdue⟩
  show Executed _ _ { s₀ with relTsklets := s₀.relTsklets, relInterTsklets := [] }
  rw [hqueue]
  exact hexec.setQueues s.relTsklets []

theorem invokeRel_spec (hs : s.Core) (hinvoke : s.invokeRel = some s') :
    Executed (fun t => ∃ task ∈ s.relTsklets, task.timer = t) { s with relTsklets := [] } s' := by
  obtain ⟨s₀, hfold, heq⟩ := Option.map_eq_some_iff.mp hinvoke
  have hexec := foldlM_execute_spec hs s.relTsklets hfold
  have hinter : s₀.relInterTsklets = s.relInterTsklets := hexec.relInterTsklets
  subst heq
  show Executed _ _ { s₀ with relTsklets := [], relInterTsklets := s₀.relInterTsklets }
  rw [hinter]
  exact hexec.setQueues [] s.relInterTsklets

/-- The timers that the tasklets of an iteration work on. -/
def Touched (s : Reltm) (timer : TimerId) : Prop :=
  timer ∈ s.relInterTsklets ∨ ∃ task ∈ s.relTsklets, task.timer = timer

theorem invokeTsklets_spec (hs : s.WF) (hinvoke : s.invokeTsklets = some s') :
    Executed s.Touched { s with relTsklets := [], relInterTsklets := [] } s' := by
  obtain ⟨s₁, hinter, hexec₁, _⟩ := invokeRelInter_spec hs
  rw [invokeTsklets, hinter, Option.bind_some] at hinvoke
  have hexec₂ := invokeRel_spec hexec₁.core hinvoke
  have hrest := hexec₁.rest
  have hqueue : s₁.relTsklets = s.relTsklets := by
    rw [hrest]
  refine ⟨hexec₂.core, ?_, fun t ht => ?_, fun t ht d => ?_⟩
  · rw [hexec₂.rest, hrest]
  · have h₁ := hexec₁.timers t fun h => ht (.inl h)
    have h₂ := hexec₂.timers t fun h => ht (.inr (hqueue ▸ h))
    exact h₂.trans h₁
  · have h₁ := hexec₁.due t (fun h => ht (.inl h)) d
    have h₂ := hexec₂.due t (fun h => ht (.inr (hqueue ▸ h))) d
    exact h₂.trans h₁

/-- Once its tasklets can be executed an iteration goes through. -/
theorem reltmTrigger_spec (hs : s.WF) (env : TickEnv) {m : Reltm}
    (hinvoke : s.invokeTsklets = some m) :
    ∃ s', s.reltmTrigger env = some s' ∧ Iterated env m s' := by
  have hexec := invokeTsklets_spec hs hinvoke
  have hrest := hexec.rest
  have hpast : ∀ e ∈ m.expiries, e.iteration < m.iteration := by
    rw [hrest]
    exact hs.past
  have hinter : m.relInterTsklets = [] := by
    rw [hrest]
  rw [reltmTrigger, hinvoke]
  exact hexec.core.iterated env hpast hinter

/-- Inversion of an iteration. -/
theorem reltmTrigger_cases (hs : s.WF) {env : TickEnv}
    (htick : s.reltmTrigger env = some s') :
    ∃ m, s.invokeTsklets = some m
      ∧ Executed s.Touched { s with relTsklets := [], relInterTsklets := [] } m
      ∧ Iterated env m s' := by
  cases hinvoke : s.invokeTsklets with
  | none => simp [reltmTrigger, hinvoke] at htick
  | some m =>
      obtain ⟨s₂, hsome, hiter⟩ := reltmTrigger_spec hs env hinvoke
      rw [hsome, Option.some.injEq] at htick
      exact ⟨m, rfl, invokeTsklets_spec hs hinvoke, htick ▸ hiter⟩

theorem Posted.due_iff {named : TimerId → Prop} (h : Posted named s s') {t : TimerId}
    {d : Nat} : s'.Due t d ↔ s.Due t d := by
  rw [h.rest]
  rfl

section Posts

variable {named : TimerId → Prop} (h : Posted named s s')

include h

theorem Posted.linked_iff {t : TimerId} : s'.Linked t ↔ s.Linked t := by
  rw [h.rest]
  rfl

theorem Posted.alive (hs : s.Core) {t : TimerId} (ht : (s.timers t).isSome) :
    (s'.timers t).isSome := by
  rw [h.timers t (hs.lt_nextTimer ht)]
  exact ht

theorem Core.posted (hs : s.Core) : s'.Core := by
  have hrest := h.rest
  have hhash : s'.tmHash = s.tmHash := by
    rw [hrest]
  refine ⟨?_, ?_, ?_, ?_, h.fresh hs.fresh⟩
  · rw [hrest]
    exact hs.tick
  · rw [hhash]
    exact hs.buckets
  · rw [hhash]
    exact hs.once
  · intro t ht
    exact h.alive hs (hs.alive t (h.linked_iff.mp ht))

theorem Waiting.posted (hs : s.Core) {queue : List TimerId} (hwait : s.Waiting queue) :
    s'.Waiting queue where
  nodup := hwait.nodup
  alive := fun t ht => h.alive hs (hwait.alive t ht)
  free := fun t ht hlinked => hwait.free t ht (h.linked_iff.mp hlinked)

theorem WF.posted (hs : s.WF) : s'.WF := by
  have hrest := h.rest
  have hinter : s'.relInterTsklets = s.relInterTsklets := by
    rw [hrest]
  refine ⟨hs.core.posted h, ?_, ?_⟩
  · rw [hinter]
    exact hs.waiting.posted h hs.core
  · rw [hrest]
    exact hs.past

end Posts

theorem wf_initReltm : initReltm.WF where
  core :=
    { tick := rfl
      buckets := fun i => ⟨by simp [initReltm, InBucket], by simp [initReltm, TmHash.pending,
        DeltaList.absolute], by simp [initReltm, TmHash.timers, TmHash.pending,
        DeltaList.absolute]⟩
      once := by
        intro i j t hi
        simp [initReltm, TmHash.timers, TmHash.pending, DeltaList.absolute] at hi
      alive := by
        intro t hlinked
        obtain ⟨i, hi⟩ := hlinked
        simp [initReltm, TmHash.timers, TmHash.pending, DeltaList.absolute] at hi
      fresh := fun _ _ => rfl }
  waiting := ⟨List.nodup_nil, fun _ h => (List.not_mem_nil h).elim,
    fun _ h => (List.not_mem_nil h).elim⟩
  past := fun _ h => (List.not_mem_nil h).elim

theorem WF.step (hs : s.WF) {a : Action} (hstep : reltmMachine.step s a = some s') :
    s'.WF := by
  cases a with
  | request r =>
      have heq : s.request r = s' := Option.some.inj hstep
      exact heq ▸ hs.posted (request_posted s r)
  | tick env =>
      obtain ⟨m, _, _, hiter⟩ := reltmTrigger_cases hs hstep
      exact hiter.wf

theorem wf_of_reach (hreach : reltmMachine.Reach s) : s.WF := by
  refine Machine.ReachWhen.invariant ?_ ?_ hreach
  · intro s₀ hinit
    rw [show s₀ = initReltm from hinit]
    exact wf_initReltm
  · intro s₀ a s₁ hs _ hstep
    exact hs.step hstep

end Reltm
end Timer
end AndroidLinux
