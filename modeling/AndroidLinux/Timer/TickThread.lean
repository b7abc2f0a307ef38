import AndroidLinux.Timer.Iteration

/-!
# The timer thread step by step

`reltmTrigger` is a whole iteration.  Other threads do not wait for its end: they call the
interface while the timer thread executes tasklets, looks through a bucket or is in a
callback, and a callback calls the interface itself.  Here the timer thread executes one
tasklet, calls one callback, returns from one callback or ends an iteration in a step, and
calls of the interface stand between any two steps.  Only the lock of `rel_tsklets` keeps
them out, which `tsklet_invokeall` holds while it executes the queue.

`Turn` says what a step of the timer thread can be, and `TickThread.WF` is what holds
before and after every step.
-/

namespace AndroidLinux
namespace Timer

open Lib

/-- `RELTM_LINK_ZERO` or `RELTM_LINK_SORTED`: the list of a bucket. -/
inductive Link
  | zero
  | sorted
deriving DecidableEq

/-- Where the timer thread is in `_reltm_trigger`. -/
inductive Phase
  /-- in `tsklet_invokeall` of `rel_inter_tsklets`, or before an iteration -/
  | restarting
  /-- in `tsklet_invokeall` of `rel_tsklets` -/
  | executing
  /-- in the loop over a list of the bucket -/
  | scanning (link : Link)
  /-- in the callback of a timer, without the lock -/
  | calling (link : Link) (timer : TimerId)
deriving DecidableEq

def TmHash.link (b : TmHash) : Link → List Entry
  | .zero => b.zeroLink
  | .sorted => b.sortedLink

/-- `list_remove` of the list item of a timer, in the list it is linked in. -/
def TmHash.listRemove (b : TmHash) (timer : TimerId) : Link → TmHash
  | .zero => { b with zeroLink := b.zeroLink.eraseP (fun e => e.timer == timer) }
  | .sorted => { b with sortedLink := b.sortedLink.eraseP (fun e => e.timer == timer) }

namespace Reltm

/-- The bucket of `_tick_last`. -/
def current (s : Reltm) : TmHash :=
  s.tmHash (bucket s.tickLast)

/-- `_trigger_a_timer` after the callback has returned. -/
def returnOf (s : Reltm) (link : Link) (timer : TimerId) (malloc : Bool) : Option Reltm :=
  match s.timers timer with
  | none => none
  | some cb =>
      let s := s.setHash (bucket s.tickLast) (s.current.listRemove timer link)
      if cb.mode &&& petfAutoFree ≠ 0 then
        some (s.setTimer timer none)
      else if cb.mode &&& petfOneShoot = 0 then
        match tskletInvokelater s.relInterTsklets timer malloc with
        | .ok queue => some { s with relInterTsklets := queue }
        | .error _ => some s
      else
        some s

/-- The end of the loop over the `sorted_link`, which leaves `link` in the list, and of the
iteration. -/
def nextTick (s : Reltm) (link : List Entry) : Reltm :=
  let s := s.setHash (bucket s.tickLast) { s.current with sortedLink := link }
  { s with tickLast := s.tickLast + 1, iteration := s.iteration + 1 }

end Reltm

/-- A call of a callback, and the tasklets of `rel_tsklets` executed before it. -/
structure Call where
  timer : TimerId
  before : List Tasklet
deriving DecidableEq

/-- The timer thread in the middle of an iteration.  `posted` lists the tasklets posted on
`rel_tsklets` so far, `executed` those that have been executed, and `calls` the callbacks
that have been called. -/
structure TickThread where
  reltm : Reltm
  phase : Phase
  posted : List Tasklet
  executed : List Tasklet
  calls : List Call

/-- A call that takes the lock of `rel_tsklets`. -/
def Request.posts : Request → Bool
  | .create _ _ _ => false
  | .start _ _ _ _ _ => true
  | .stop _ _ _ => true
  | .free _ _ => true
  | .startSimple _ _ _ _ _ _ => true

/-- A call of the interface by any thread, or a step of the timer thread; `malloc` tells
whether the restart of a timer can be posted. -/
inductive Move
  | request (r : Request)
  | advance (malloc : Bool)

namespace TickThread

/-- The timer thread calls the callback of a timer. -/
def call (s : TickThread) (link : Link) (timer : TimerId) : Option TickThread :=
  match s.reltm.timers timer with
  | none => none
  | some cb =>
      some { s with
        reltm := { s.reltm with
          expiries := s.reltm.expiries ++ [⟨timer, cb.timeout, cb.arg, s.reltm.iteration⟩] }
        phase := .calling link timer
        calls := s.calls ++ [⟨timer, s.executed⟩] }

/-- A step of the timer thread.  The loops over the lists of a bucket take every timer they
have been at out of its list, and so they go on at the head. -/
def advance (s : TickThread) (malloc : Bool) : Option TickThread :=
  match s.phase with
  | .restarting =>
      match s.reltm.relInterTsklets with
      | [] => some { s with phase := .executing }
      | timer :: rest =>
          (s.reltm.doRestartTm timer).map
            (fun r => { s with reltm := { r with relInterTsklets := rest } })
  | .executing =>
      match s.reltm.relTsklets with
      | [] => some { s with phase := .scanning .zero }
      | task :: rest =>
          (s.reltm.execute task).map
            (fun r => { s with
              reltm := { r with relTsklets := rest }
              executed := s.executed ++ [task] })
  | .scanning .zero =>
      match s.reltm.current.zeroLink with
      | [] => some { s with phase := .scanning .sorted }
      | item :: _ => s.call .zero item.timer
  | .scanning .sorted =>
      match s.reltm.current.sortedLink with
      | [] => some { s with reltm := s.reltm.nextTick [], phase := .restarting }
      | item :: rest =>
          if item.ticksLeft < 1024 then
            s.call .sorted item.timer
          else
            some { s with
              reltm := s.reltm.nextTick
                ({ item with ticksLeft := item.ticksLeft - 1024 } :: rest)
              phase := .restarting }
  | .calling link timer =>
      (s.reltm.returnOf link timer malloc).map
        (fun r => { s with reltm := r, phase := .scanning link })

def step (s : TickThread) : Move → Option TickThread
  | .request r =>
      if s.phase = .executing ∧ r.posts = true then
        none
      else
        some { s with
          reltm := s.reltm.request r
          posted := s.posted
            ++ (s.reltm.request r).relTsklets.drop s.reltm.relTsklets.length }
  | .advance malloc => s.advance malloc

end TickThread

/-- The state after `init_reltm`. -/
def initTickThread : TickThread where
  reltm := initReltm
  phase := .restarting
  posted := []
  executed := []
  calls := []

def tickMachine : Machine TickThread Move where
  init s := s = initTickThread
  step := TickThread.step

/-! ## What a step can be -/

/-- The steps of the timer thread. -/
inductive Turn (s : TickThread) : TickThread → Prop
  | restart {timer : TimerId} {rest : List TimerId} {r : Reltm}
      (hphase : s.phase = .restarting) (hqueue : s.reltm.relInterTsklets = timer :: rest)
      (hrestart : s.reltm.doRestartTm timer = some r) :
      Turn s { s with reltm := { r with relInterTsklets := rest } }
  | restarted (hphase : s.phase = .restarting) (hqueue : s.reltm.relInterTsklets = []) :
      Turn s { s with phase := .executing }
  | execute {task : Tasklet} {rest : List Tasklet} {r : Reltm}
      (hphase : s.phase = .executing) (hqueue : s.reltm.relTsklets = task :: rest)
      (hexec : s.reltm.execute task = some r) :
      Turn s { s with
        reltm := { r with relTsklets := rest }
        executed := s.executed ++ [task] }
  | executed (hphase : s.phase = .executing) (hqueue : s.reltm.relTsklets = []) :
      Turn s { s with phase := .scanning .zero }
  | call {link : Link} {item : Entry} {rest : List Entry} {cb : TmCb}
      (hphase : s.phase = .scanning link) (hhead : s.reltm.current.link link = item :: rest)
      (hnow : link = .sorted → item.ticksLeft < 1024)
      (hcb : s.reltm.timers item.timer = some cb) :
      Turn s { s with
        reltm := { s.reltm with
          expiries := s.reltm.expiries
            ++ [⟨item.timer, cb.timeout, cb.arg, s.reltm.iteration⟩] }
        phase := .calling link item.timer
        calls := s.calls ++ [⟨item.timer, s.executed⟩] }
  | scanned (hphase : s.phase = .scanning .zero) (hempty : s.reltm.current.zeroLink = []) :
      Turn s { s with phase := .scanning .sorted }
  | returned {link : Link} {timer : TimerId} {malloc : Bool} {r : Reltm}
      (hphase : s.phase = .calling link timer)
      (hreturn : s.reltm.returnOf link timer malloc = some r) :
      Turn s { s with reltm := r, phase := .scanning link }
  | ended (hphase : s.phase = .scanning .sorted)
      (hstay : leave s.reltm.current.sortedLink = []) :
      Turn s { s with
        reltm := s.reltm.nextTick (stay s.reltm.current.sortedLink)
        phase := .restarting }

namespace TickThread

variable {s s' : TickThread}

theorem turn_of_call {link : Link} {item : Entry} {rest : List Entry}
    (hphase : s.phase = .scanning link) (hhead : s.reltm.current.link link = item :: rest)
    (hnow : link = .sorted → item.ticksLeft < 1024)
    (hcall : s.call link item.timer = some s') : Turn s s' := by
  rw [call] at hcall
  cases hcb : s.reltm.timers item.timer with
  | none => simp [hcb] at hcall
  | some cb =>
      rw [hcb] at hcall
      cases hcall
      exact .call hphase hhead hnow hcb

theorem turn_of_advance {malloc : Bool} (h : s.advance malloc = some s') : Turn s s' := by
  rw [advance] at h
  cases hphase : s.phase with
  | restarting =>
      rw [hphase] at h
      cases hqueue : s.reltm.relInterTsklets with
      | nil =>
          simp only [hqueue, Option.some.injEq] at h
          exact h ▸ .restarted hphase hqueue
      | cons timer rest =>
          simp only [hqueue] at h
          obtain ⟨r, hrestart, heq⟩ := Option.map_eq_some_iff.mp h
          rw [← heq, ← hphase]
          exact .restart hphase hqueue hrestart
  | executing =>
      rw [hphase] at h
      cases hqueue : s.reltm.relTsklets with
      | nil =>
          simp only [hqueue, Option.some.injEq] at h
          exact h ▸ .executed hphase hqueue
      | cons task rest =>
          simp only [hqueue] at h
          obtain ⟨r, hexec, heq⟩ := Option.map_eq_some_iff.mp h
          rw [← heq, ← hphase]
          exact .execute hphase hqueue hexec
  | scanning link =>
      cases link with
      | zero =>
          rw [hphase] at h
          cases hlink : s.reltm.current.zeroLink with
          | nil =>
              simp only [hlink, Option.some.injEq] at h
              exact h ▸ .scanned hphase hlink
          | cons item rest =>
              simp only [hlink] at h
              exact turn_of_call hphase hlink (fun hzero => by cases hzero) h
      | sorted =>
          rw [hphase] at h
          have hended := Turn.ended hphase
          cases hlink : s.reltm.current.sortedLink with
          | nil =>
              simp only [hlink, Option.some.injEq] at h
              rw [hlink] at hended
              exact h ▸ hended rfl
          | cons item rest =>
              simp only [hlink] at h
              rw [hlink, leave, stay] at hended
              -- the list is sorted, so the scan stops at the first item that is not due
              by_cases hlt : item.ticksLeft < 1024
              · rw [if_pos hlt] at h
                exact turn_of_call hphase hlink (fun _ => hlt) h
              · rw [if_neg hlt, Option.some.injEq] at h
                rw [if_neg hlt, if_neg hlt] at hended
                exact h ▸ hended rfl
  | calling link timer =>
      rw [hphase] at h
      obtain ⟨r, hreturn, heq⟩ := Option.map_eq_some_iff.mp h
      exact heq ▸ .returned hphase hreturn

/-- The steps of the system. -/
theorem step_cases {a : Move} (hstep : tickMachine.step s a = some s') :
    (∃ r, a = .request r ∧ s' = { s with
        reltm := s.reltm.request r
        posted := s.posted
          ++ (s.reltm.request r).relTsklets.drop s.reltm.relTsklets.length })
      ∨ (∃ malloc, a = .advance malloc) ∧ Turn s s' := by
  cases a with
  | request r =>
      change (if s.phase = .executing ∧ r.posts = true then none else some _) = some s' at hstep
      split at hstep
      · cases hstep
      · cases hstep
        exact .inl ⟨r, rfl, rfl⟩
  | advance malloc => exact .inr ⟨⟨malloc, rfl⟩, turn_of_advance hstep⟩

end TickThread

/-! ## Returning from a callback -/

/-- The timer at the head of a list expires in the iteration that looks at the bucket. -/
structure Expired (b : TmHash) (link : Link) (timer : TimerId) : Prop where
  zero : link = .sorted → b.zeroLink = []
  head : ∃ item rest, b.link link = item :: rest ∧ item.timer = timer
    ∧ (link = .sorted → item.ticksLeft < 1024)

theorem TmHash.pending_listRemove {b : TmHash} {link : Link} {timer : TimerId}
    (h : Expired b link timer) : b.pending = (timer, 0) :: (b.listRemove timer link).pending
      ∧ (b.listRemove timer link).sortedLink ⊆ b.sortedLink := by
  obtain ⟨item, rest, hlink, rfl, hnow⟩ := h.head
  cases link with
  | zero =>
      have hzero : b.zeroLink = item :: rest := hlink
      refine ⟨?_, fun e he => he⟩
      simp [TmHash.pending, TmHash.listRemove, hzero]
  | sorted =>
      have hsorted : b.sortedLink = item :: rest := hlink
      have hturns : item.ticksLeft.toNat / 1024 = 0 := by
        have hlt := UInt32.lt_iff_toNat_lt.mp (hnow rfl)
        exact Nat.div_eq_of_lt hlt
      constructor
      · simp [TmHash.pending, TmHash.listRemove, hsorted, h.zero rfl, DeltaList.absolute,
          hturns]
      · intro e he
        simp only [TmHash.listRemove, hsorted, BEq.rfl, List.eraseP_cons_of_pos] at he
        rw [hsorted]
        exact List.mem_cons_of_mem _ he

namespace Reltm

variable {s s' : Reltm} {timer : TimerId} {link : Link}

theorem Core.due_of_expired (hs : s.Core) (h : Expired s.current link timer) :
    s.Due timer s.iteration := by
  rw [← hs.mem_fired_iff_due, TmHash.mem_fired_iff (hs.buckets _)]
  change (timer, 0) ∈ s.current.pending
  rw [(TmHash.pending_listRemove h).1]
  exact List.mem_cons_self

/-- What the return from the callback of a timer changes. -/
structure Returned (timer : TimerId) (s s' : Reltm) : Prop where
  core : s'.Core
  waiting : s'.Waiting s'.relInterTsklets
  due : ∀ t d, s'.Due t d ↔ t ≠ timer ∧ s.Due t d
  rest : s' = { s with
    timers := s'.timers, tmHash := s'.tmHash, relInterTsklets := s'.relInterTsklets }
  inter : ∀ t ∈ s'.relInterTsklets, t ∈ s.relInterTsklets ∨ t = timer
  zero : s.current.zeroLink = [] → s'.current.zeroLink = []

section Kept

variable (h : Returned timer s s')

include h

theorem Returned.iteration : s'.iteration = s.iteration := by
  rw [h.rest]

theorem Returned.expiries : s'.expiries = s.expiries := by
  rw [h.rest]

theorem Returned.relTsklets : s'.relTsklets = s.relTsklets := by
  rw [h.rest]

theorem Returned.linked {t : TimerId} (ht : s'.Linked t) : s.Linked t := by
  obtain ⟨d, hd⟩ := linked_iff_due.mp ht
  exact ((h.due t d).mp hd).2.linked

end Kept

/-- `list_remove` of an expired timer leaves the deltas of the other timers as they are. -/
theorem returned_listRemove (hs : s.Core) (hwait : s.Waiting s.relInterTsklets)
    (hexp : Expired s.current link timer) :
    Returned timer s (s.setHash (bucket s.tickLast) (s.current.listRemove timer link)) := by
  obtain ⟨hpending, hsub⟩ := TmHash.pending_listRemove hexp
  have hb := hs.buckets (bucket s.tickLast)
  have hlow : InBucket (bucket s.tickLast) (s.current.listRemove timer link).sortedLink :=
    fun e he => hb.low e (hsub he)
  have hin : timer ∈ s.current.timers := by
    rw [TmHash.timers, hpending]
    exact List.mem_cons_self
  obtain ⟨hwf, hmem⟩ := hb.of_perm_uncons hlow (List.Perm.of_eq hpending)
  obtain ⟨hcore, hdue⟩ := hs.removed hin hwf hmem
  refine ⟨hcore, ⟨hwait.nodup, hwait.alive, fun t ht hlinked => ?_⟩, hdue, rfl,
    fun t ht => .inl ht, fun hempty => ?_⟩
  · obtain ⟨d, hd⟩ := linked_iff_due.mp hlinked
    exact hwait.free t ht ((hdue t d).mp hd).2.linked
  · simp only [current, setHash, Function.update_self]
    cases link with
    | zero =>
        change s.current.zeroLink.eraseP _ = []
        rw [hempty]
        rfl
    | sorted => exact hempty

theorem returnOf_spec (hs : s.Core) (hwait : s.Waiting s.relInterTsklets)
    (hexp : Expired s.current link timer) {malloc : Bool}
    (hreturn : s.returnOf link timer malloc = some s') : Returned timer s s' := by
  have hlinked : s.Linked timer := (hs.due_of_expired hexp).linked
  have hnew : timer ∉ s.relInterTsklets := fun h => hwait.free timer h hlinked
  have halive := hs.alive timer hlinked
  obtain ⟨cb, hcb⟩ := Option.isSome_iff_exists.mp halive
  have hplain := returned_listRemove hs hwait hexp
  rw [returnOf, hcb] at hreturn
  dsimp only at hreturn
  have hinter : (s.setHash (bucket s.tickLast) (s.current.listRemove timer link)).relInterTsklets
      = s.relInterTsklets := rfl
  have htimers : (s.setHash (bucket s.tickLast) (s.current.listRemove timer link)).timers
      = s.timers := rfl
  generalize s.setHash (bucket s.tickLast) (s.current.listRemove timer link) = r at *
  have hfree : ¬ r.Linked timer := by
    intro h
    obtain ⟨d, hd⟩ := linked_iff_due.mp h
    exact ((hplain.due timer d).mp hd).1 rfl
  have hrest := hplain.rest
  have halive' : (r.timers timer).isSome := by
    rw [htimers]
    exact halive
  rw [← hinter] at hnew
  -- the ends of the function differ from `r` in the timer or in the queue only
  split at hreturn
  · cases hreturn
    refine ⟨hplain.core.setTimer halive' hfree none, hplain.waiting.setTimer hnew none,
      hplain.due, ?_, hplain.inter, hplain.zero⟩
    rw [hrest]
    rfl
  · split at hreturn
    · cases malloc with
      | false =>
          cases hreturn
          exact hplain
      | true =>
          cases hreturn
          have hcore := hplain.core
          have hqueue := hplain.waiting.concat halive' hfree hnew
          refine ⟨⟨hcore.tick, hcore.buckets, hcore.once, hcore.alive, hcore.fresh⟩,
            ⟨hqueue.nodup, hqueue.alive, hqueue.free⟩, hplain.due, ?_, fun t ht => ?_,
            hplain.zero⟩
          · rw [hrest]
          · change t ∈ r.relInterTsklets ++ [timer] at ht
            rw [hinter, List.mem_append, List.mem_singleton] at ht
            exact ht
    · cases hreturn
      exact hplain

/-! ## The end of an iteration -/

theorem nextTick_spec (hs : s.Core) (hzero : s.current.zeroLink = [])
    (hleave : leave s.current.sortedLink = []) :
    (s.nextTick (stay s.current.sortedLink)).Core
      ∧ (∀ t, ¬ s.Due t s.iteration)
      ∧ (s.nextTick (stay s.current.sortedLink)).tmHash
        = Function.update s.tmHash (bucket s.tickLast) s.current.turned
      ∧ ∀ t d, (s.nextTick (stay s.current.sortedLink)).Due t d ↔ s.Due t d := by
  have hfired : (s.tmHash (bucket s.tickLast)).fired = [] := by
    change s.current.fired = []
    rw [TmHash.fired, hzero, hleave]
    rfl
  have hnone : ∀ t, ¬ s.Due t s.iteration := by
    intro t hdue
    rw [← hs.mem_fired_iff_due, hfired] at hdue
    cases hdue
  have hhash : (s.nextTick (stay s.current.sortedLink)).tmHash
      = Function.update s.tmHash (bucket s.tickLast) s.current.turned := by
    rw [TmHash.turned, ← hzero]
    rfl
  refine ⟨?_, hnone, hhash, fun t d => ?_⟩
  · have hfire := (Fired.nil ⟨fun _ => [], fun _ => true⟩ s).setHash
      (i := bucket s.tickLast) (b := s.current.turned)
    rw [← hfired] at hfire
    refine hs.turned hfire rfl ?_
    rw [TmHash.turned, ← hzero]
    rfl
  · rw [hs.due_turned rfl hhash]
    refine and_iff_left_of_imp fun hdue => ?_
    intro heq
    exact hnone t (heq ▸ hdue)

end Reltm

/-! ## The invariant -/

/-- What the timer thread knows of the wheel at each place. -/
def Phase.Ok (r : Reltm) : Phase → Prop
  | .restarting => True
  | .executing => r.relInterTsklets = []
  | .scanning link => link = .sorted → r.current.zeroLink = []
  | .calling link timer => Expired r.current link timer

/-- What holds before and after every step. -/
structure TickThread.WF (s : TickThread) : Prop where
  core : s.reltm.Core
  waiting : s.reltm.Waiting s.reltm.relInterTsklets
  phase : s.phase.Ok s.reltm

/-- Neither the queues nor the log play a part in it. -/
theorem Reltm.Core.setRest {r : Reltm} (hr : r.Core) (rel : List Tasklet)
    (inter : List TimerId) (expiries : List Expiry) :
    Reltm.Core { r with
      relTsklets := rel, relInterTsklets := inter, expiries := expiries } :=
  ⟨hr.tick, hr.buckets, hr.once, hr.alive, hr.fresh⟩

theorem Reltm.Waiting.setRest {r : Reltm} {queue : List TimerId} (hr : r.Waiting queue)
    (rel : List Tasklet) (inter : List TimerId) (expiries : List Expiry) :
    Reltm.Waiting { r with
      relTsklets := rel, relInterTsklets := inter, expiries := expiries } queue :=
  ⟨hr.nodup, hr.alive, hr.free⟩

namespace TickThread

variable {s s' : TickThread}

theorem WF.restart (hs : s.WF) {timer : TimerId} {rest : List TimerId} {r : Reltm}
    (hqueue : s.reltm.relInterTsklets = timer :: rest)
    (hrestart : s.reltm.doRestartTm timer = some r) :
    Reltm.Executed (· = timer) s.reltm r ∧ r.Waiting rest := by
  have hwait := hs.waiting
  rw [hqueue] at hwait
  obtain ⟨r', _, hsome, _, hexec, hrest, _⟩ := Reltm.doRestartTm_spec hs.core hwait
  rw [hrestart, Option.some.injEq] at hsome
  subst hsome
  exact ⟨hexec, hrest⟩

theorem WF.turn (hs : s.WF) (hturn : Turn s s') : s'.WF := by
  have hok := hs.phase
  cases hturn with
  | restart hphase hqueue hrestart =>
      obtain ⟨hexec, hwait⟩ := hs.restart hqueue hrestart
      refine ⟨hexec.core.setRest _ _ _, hwait.setRest _ _ _, ?_⟩
      change s.phase.Ok _
      rw [hphase]
      trivial
  | restarted hphase hqueue => exact ⟨hs.core, hs.waiting, hqueue⟩
  | execute hphase hqueue hexec =>
      have hspec := Reltm.execute_spec hs.core hexec
      rw [hphase] at hok
      rename_i r
      have hinter : r.relInterTsklets = [] := hspec.relInterTsklets.trans hok
      refine ⟨hspec.core.setRest _ _ _, ?_, ?_⟩
      · change Reltm.Waiting _ r.relInterTsklets
        rw [hinter]
        exact ⟨List.nodup_nil, fun _ h => (List.not_mem_nil h).elim,
          fun _ h => (List.not_mem_nil h).elim⟩
      · change s.phase.Ok _
        rw [hphase]
        exact hinter
  | executed hphase hqueue =>
      refine ⟨hs.core, hs.waiting, fun hsorted => ?_⟩
      cases hsorted
  | call hphase hhead hnow hcb =>
      rw [hphase] at hok
      exact ⟨hs.core.setRest _ _ _, hs.waiting.setRest _ _ _,
        ⟨hok, _, _, hhead, rfl, hnow⟩⟩
  | scanned hphase hempty => exact ⟨hs.core, hs.waiting, fun _ => hempty⟩
  | returned hphase hreturn =>
      rw [hphase] at hok
      have hspec := Reltm.returnOf_spec hs.core hs.waiting hok hreturn
      exact ⟨hspec.core, hspec.waiting, fun hsorted => hspec.zero (hok.zero hsorted)⟩
  | ended hphase hstay =>
      rw [hphase] at hok
      obtain ⟨hcore, _, _, hdue⟩ := Reltm.nextTick_spec hs.core (hok rfl) hstay
      refine ⟨hcore, ⟨hs.waiting.nodup, hs.waiting.alive, fun t ht hlinked => ?_⟩, trivial⟩
      obtain ⟨d, hd⟩ := Reltm.linked_iff_due.mp hlinked
      exact hs.waiting.free t ht ((hdue t d).mp hd).linked

/-- Calls of the interface leave the wheel alone. -/
theorem WF.request (hs : s.WF) (r : Request) (posted : List Tasklet) :
    WF { s with reltm := s.reltm.request r, posted := posted } := by
  have hposted := Reltm.request_posted s.reltm r
  have hinter : (s.reltm.request r).relInterTsklets = s.reltm.relInterTsklets :=
    hposted.relInterTsklets
  have hcurrent : (s.reltm.request r).current = s.reltm.current := by
    rw [hposted.rest]
    rfl
  refine ⟨hs.core.posted hposted, ?_, ?_⟩
  · change Reltm.Waiting _ (s.reltm.request r).relInterTsklets
    rw [hinter]
    exact hs.waiting.posted hposted hs.core
  · have hok := hs.phase
    change s.phase.Ok (s.reltm.request r)
    cases hphase : s.phase with
    | restarting => trivial
    | executing =>
        rw [hphase] at hok
        exact hinter.trans hok
    | scanning link =>
        rw [hphase] at hok
        rw [Phase.Ok, hcurrent]
        exact hok
    | calling link timer =>
        rw [hphase] at hok
        rw [Phase.Ok, hcurrent]
        exact hok

theorem WF.step (hs : s.WF) {a : Move} (hstep : tickMachine.step s a = some s') : s'.WF := by
  cases step_cases hstep with
  | inl hrequest =>
      obtain ⟨r, _, rfl⟩ := hrequest
      exact hs.request r _
  | inr hadvance => exact hs.turn hadvance.2

theorem wf_of_reach (hreach : tickMachine.Reach s) : s.WF := by
  refine Machine.ReachWhen.invariant ?_ ?_ hreach
  · intro s₀ hinit
    rw [show s₀ = initTickThread from hinit]
    have hwf := Reltm.wf_initReltm
    exact ⟨hwf.core, hwf.waiting, trivial⟩
  · intro s₀ a s₁ hs _ hstep
    exact hs.step hstep

end TickThread
end Timer
end AndroidLinux
