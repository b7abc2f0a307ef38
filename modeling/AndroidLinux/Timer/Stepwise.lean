import AndroidLinux.Timer.TickThread

/-!
# A whole iteration as a run of steps

`reltmMachine` takes an iteration of `_reltm_trigger` as one step and has the calls of the
interface between iterations or in callbacks.  Every state it reaches is a state of
`tickMachine` in front of an iteration (`reaches_of_reach`), so that what holds in all
states of the finer machine holds there too.

`Reaches r phase` hides the history.  It has a rule for each step of the timer thread, and
each loop of `_reltm_trigger` follows from the rules by induction on its list.
-/

namespace AndroidLinux
namespace Timer

open Lib

theorem TmHash.listRemove_zero {b : TmHash} {item : Entry} {rest : List Entry}
    (hhead : b.zeroLink = item :: rest) :
    b.listRemove item.timer .zero = ⟨rest, b.sortedLink⟩ := by
  simp [TmHash.listRemove, hhead]

theorem TmHash.listRemove_sorted {b : TmHash} {item : Entry} {rest : List Entry}
    (hhead : b.sortedLink = item :: rest) :
    b.listRemove item.timer .sorted = ⟨b.zeroLink, rest⟩ := by
  simp [TmHash.listRemove, hhead]

/-- The timer thread can be at this place of `_reltm_trigger` with this state. -/
def Reaches (r : Reltm) (phase : Phase) : Prop :=
  ∃ s, tickMachine.Reach s ∧ s.reltm = r ∧ s.phase = phase

namespace Reaches

variable {r r' : Reltm}

theorem core {phase : Phase} (h : Reaches r phase) : r.Core := by
  obtain ⟨s, hreach, rfl, rfl⟩ := h
  exact (TickThread.wf_of_reach hreach).core

/-! ## One step -/

/-- What the timer thread can do in a reachable state. -/
theorem of_advance {s s' : TickThread} (hreach : tickMachine.Reach s) {malloc : Bool}
    (hadvance : s.advance malloc = some s') : Reaches s'.reltm s'.phase :=
  ⟨s', .step hreach trivial (show tickMachine.step s (.advance malloc) = some s' from hadvance),
    rfl, rfl⟩

theorem request {phase : Phase} (h : Reaches r phase) (hphase : phase ≠ .executing)
    (q : Request) : Reaches (r.request q) phase := by
  obtain ⟨s, hreach, rfl, rfl⟩ := h
  have hfree : ¬ (s.phase = .executing ∧ q.posts = true) := fun hblocked => hphase hblocked.1
  have hstep : tickMachine.step s (.request q) = some _ := if_neg hfree
  exact ⟨_, .step hreach trivial hstep, rfl, rfl⟩

theorem requests {phase : Phase} (h : Reaches r phase) (hphase : phase ≠ .executing)
    (qs : List Request) : Reaches (qs.foldl Reltm.request r) phase := by
  induction qs generalizing r with
  | nil => exact h
  | cons q rest ih => exact ih (h.request hphase q)

theorem restart {timer : TimerId} {rest : List TimerId} (h : Reaches r .restarting)
    (hqueue : r.relInterTsklets = timer :: rest) (hrestart : r.doRestartTm timer = some r') :
    Reaches { r' with relInterTsklets := rest } .restarting := by
  obtain ⟨s, hreach, rfl, hphase⟩ := h
  have hadvance : s.advance true
      = some { s with reltm := { r' with relInterTsklets := rest } } := by
    simp [TickThread.advance, hphase, hqueue, hrestart]
  exact hphase ▸ of_advance hreach hadvance

theorem restarted (h : Reaches r .restarting) (hqueue : r.relInterTsklets = []) :
    Reaches r .executing := by
  obtain ⟨s, hreach, rfl, hphase⟩ := h
  have hadvance : s.advance true = some { s with phase := .executing } := by
    simp [TickThread.advance, hphase, hqueue]
  exact of_advance hreach hadvance

theorem execute {task : Tasklet} {rest : List Tasklet} (h : Reaches r .executing)
    (hqueue : r.relTsklets = task :: rest) (hexec : r.execute task = some r') :
    Reaches { r' with relTsklets := rest } .executing := by
  obtain ⟨s, hreach, rfl, hphase⟩ := h
  have hadvance : s.advance true
      = some { s with
        reltm := { r' with relTsklets := rest }
        executed := s.executed ++ [task] } := by
    simp [TickThread.advance, hphase, hqueue, hexec]
  exact hphase ▸ of_advance hreach hadvance

theorem executed (h : Reaches r .executing) (hqueue : r.relTsklets = []) :
    Reaches r (.scanning .zero) := by
  obtain ⟨s, hreach, rfl, hphase⟩ := h
  have hadvance : s.advance true = some { s with phase := .scanning .zero } := by
    simp [TickThread.advance, hphase, hqueue]
  exact of_advance hreach hadvance

theorem call {link : Link} {item : Entry} {rest : List Entry} {cb : TmCb}
    (h : Reaches r (.scanning link)) (hhead : r.current.link link = item :: rest)
    (hnow : link = .sorted → item.ticksLeft < 1024)
    (hcb : r.timers item.timer = some cb) :
    Reaches { r with
      expiries := r.expiries ++ [⟨item.timer, cb.timeout, cb.arg, r.iteration⟩] }
      (.calling link item.timer) := by
  obtain ⟨s, hreach, rfl, hphase⟩ := h
  have hadvance : s.advance true = s.call link item.timer := by
    cases link with
    | zero =>
        rw [TmHash.link] at hhead
        simp [TickThread.advance, hphase, hhead]
    | sorted =>
        rw [TmHash.link] at hhead
        simp [TickThread.advance, hphase, hhead, hnow]
  rw [TickThread.call, hcb] at hadvance
  exact of_advance hreach hadvance

theorem scanned (h : Reaches r (.scanning .zero)) (hempty : r.current.zeroLink = []) :
    Reaches r (.scanning .sorted) := by
  obtain ⟨s, hreach, rfl, hphase⟩ := h
  have hadvance : s.advance true = some { s with phase := .scanning .sorted } := by
    simp [TickThread.advance, hphase, hempty]
  exact of_advance hreach hadvance

theorem returned {link : Link} {timer : TimerId} (h : Reaches r (.calling link timer))
    (malloc : Bool) (hreturn : r.returnOf link timer malloc = some r') :
    Reaches r' (.scanning link) := by
  obtain ⟨s, hreach, rfl, hphase⟩ := h
  have hadvance : s.advance malloc
      = some { s with reltm := r', phase := .scanning link } := by
    simp [TickThread.advance, hphase, hreturn]
  exact of_advance hreach hadvance

theorem ended (h : Reaches r (.scanning .sorted))
    (hleave : leave r.current.sortedLink = []) :
    Reaches (r.nextTick (stay r.current.sortedLink)) .restarting := by
  obtain ⟨s, hreach, rfl, hphase⟩ := h
  have hadvance : s.advance true
      = some { s with
        reltm := s.reltm.nextTick (stay s.reltm.current.sortedLink)
        phase := .restarting } := by
    cases hlink : s.reltm.current.sortedLink with
    | nil => simp [TickThread.advance, hphase, hlink, stay]
    | cons item rest =>
        have hlate : ¬ item.ticksLeft < 1024 := by
          intro hlt
          rw [hlink, leave, if_pos hlt] at hleave
          cases hleave
        simp [TickThread.advance, hphase, hlink, stay, hlate]
  exact of_advance hreach hadvance

end Reaches

/-! ## The tasklets of an iteration

`tsklet_invokeall` takes a tasklet off its queue after it has been executed, which no
tasklet sees. -/

namespace Reltm

/-- `_add2hash` does not look at what `f` changes. -/
theorem add2hash_map (r : Reltm) (timer : TimerId) (f : Reltm → Reltm)
    (htimers : (f r).timers = r.timers) (htick : (f r).tickLast = r.tickLast)
    (hhash : (f r).tmHash = r.tmHash)
    (hset : ∀ i b, (f r).setHash i b = f (r.setHash i b)) :
    (f r).add2hash timer = (r.add2hash timer).map f := by
  rw [add2hash, add2hash, htimers, htick, hhash]
  cases r.timers timer with
  | none => rfl
  | some cb =>
      dsimp only
      by_cases hlong : 1024 < ttick cb.msec
      · rw [if_pos hlong, if_pos hlong, hset]
        rfl
      · rw [if_neg hlong, if_neg hlong, hset]
        rfl

theorem locate_setRel (r : Reltm) (timer : TimerId) (queue : List Tasklet) :
    locate { r with relTsklets := queue } timer = r.locate timer := by
  unfold locate
  rfl

theorem unlink_setRel (r : Reltm) (timer : TimerId) (queue : List Tasklet) :
    unlink { r with relTsklets := queue } timer
      = (r.unlink timer).map (fun r' => { r' with relTsklets := queue }) := by
  rw [unlink, unlink, listIsinqueue, listIsinqueue, delFromHash, delFromHash, locate_setRel]
  cases r.locate timer with
  | none => rfl
  | some i =>
      simp only [Option.isSome_some, if_true]
      by_cases hany : (r.tmHash i).zeroLink.any (fun e => e.timer == timer) = true
      · rw [if_pos hany, if_pos hany]
        rfl
      · rw [if_neg hany, if_neg hany, Option.map_map]
        rfl

theorem execute_setRel (r : Reltm) (task : Tasklet) (queue : List Tasklet) :
    execute { r with relTsklets := queue } task
      = (r.execute task).map (fun r' => { r' with relTsklets := queue }) := by
  cases task with
  | doStartTm timer msec arg =>
      rw [execute, execute, doStartTm, doStartTm, unlink_setRel]
      cases r.timers timer with
      | none => rfl
      | some cb =>
          cases r.unlink timer with
          | none => rfl
          | some r₁ =>
              exact add2hash_map
                (r₁.setTimer timer (some { cb with msec := msec, arg := arg })) timer
                (fun r' => { r' with relTsklets := queue }) rfl rfl rfl fun _ _ => rfl
  | doStopTm timer =>
      rw [execute, execute, doStopTm, doStopTm, unlink_setRel]
      cases r.timers timer with
      | none => rfl
      | some cb => rfl
  | doFreeTm timer =>
      rw [execute, execute, doFreeTm, doFreeTm, unlink_setRel]
      cases r.timers timer with
      | none => rfl
      | some cb =>
          dsimp only
          rw [Option.map_map, Option.map_map]
          rfl

end Reltm

namespace Reaches

variable {r r' : Reltm}

theorem restarts (queue : List TimerId)
    (h : Reaches { r with relInterTsklets := queue } .restarting)
    (hfold : queue.foldlM Reltm.doRestartTm r = some r') :
    Reaches { r' with relInterTsklets := [] } .executing := by
  induction queue generalizing r with
  | nil =>
      simp only [List.foldlM_nil, Option.pure_def, Option.some.injEq] at hfold
      exact hfold ▸ h.restarted rfl
  | cons timer rest ih =>
      rw [List.foldlM_cons] at hfold
      obtain ⟨r₁, hfirst, hrest⟩ := Option.bind_eq_some_iff.mp hfold
      have hstep : Reltm.doRestartTm { r with relInterTsklets := timer :: rest } timer
          = some { r₁ with relInterTsklets := timer :: rest } := by
        have hmap := Reltm.add2hash_map r timer
          (fun r' => { r' with relInterTsklets := timer :: rest }) rfl rfl rfl fun _ _ => rfl
        rw [show r.add2hash timer = some r₁ from hfirst] at hmap
        exact hmap
      have hnext := h.restart rfl hstep
      exact ih (r := r₁) hnext hrest

theorem executes (queue : List Tasklet)
    (h : Reaches { r with relTsklets := queue } .executing)
    (hfold : queue.foldlM Reltm.execute r = some r') :
    Reaches { r' with relTsklets := [] } (.scanning .zero) := by
  induction queue generalizing r with
  | nil =>
      simp only [List.foldlM_nil, Option.pure_def, Option.some.injEq] at hfold
      exact hfold ▸ h.executed rfl
  | cons task rest ih =>
      rw [List.foldlM_cons] at hfold
      obtain ⟨r₁, hfirst, hrest⟩ := Option.bind_eq_some_iff.mp hfold
      have hstep := Reltm.execute_setRel r task (task :: rest)
      rw [hfirst, Option.map_some] at hstep
      have hnext := h.execute rfl hstep
      exact ih (r := r₁) hnext hrest

theorem invokeTsklets (h : Reaches r .restarting) (hinvoke : r.invokeTsklets = some r') :
    Reaches r' (.scanning .zero) := by
  rw [Reltm.invokeTsklets] at hinvoke
  obtain ⟨r₁, hinter, hrel⟩ := Option.bind_eq_some_iff.mp hinvoke
  obtain ⟨r₂, hfold, rfl⟩ := Option.map_eq_some_iff.mp hinter
  obtain ⟨r₃, hfold', rfl⟩ := Option.map_eq_some_iff.mp hrel
  exact (h.restarts r.relInterTsklets hfold).executes _ hfold'

/-! ## The loops over the bucket -/

/-- `_trigger_a_timer` is a call, the calls of the interface in the callback and a return. -/
theorem trigger {env : TickEnv} {link : Link} {item : Entry} {rest : List Entry}
    (h : Reaches r (.scanning link)) (hhead : r.current.link link = item :: rest)
    (hnow : link = .sorted → item.ticksLeft < 1024)
    (htrigger : r.triggerATimer env item.timer = some r') :
    Reaches (r'.setHash (bucket r.tickLast) (r.current.listRemove item.timer link))
        (.scanning link)
      ∧ r'.tickLast = r.tickLast ∧ r'.tmHash = r.tmHash := by
  cases hcb : r.timers item.timer with
  | none => simp [Reltm.triggerATimer, hcb] at htrigger
  | some cb =>
      have halive : (r.timers item.timer).isSome := by simp [hcb]
      have hold : item.timer < r.nextTimer := h.core.lt_nextTimer halive
      obtain ⟨r₀, hsome, hfired, hhash⟩ := Reltm.triggerATimer_spec env hold halive
      rw [htrigger, Option.some.injEq] at hsome
      subst hsome
      refine ⟨?_, hfired.tickLast, hhash⟩
      -- the requests of the callback only append tasklets, so the scan finds the timer again
      have hcalled := (h.call hhead hnow hcb).requests (fun heq => by cases heq)
        (env.callback item.timer)
      simp only [Reltm.triggerATimer, hcb] at htrigger
      have hposted := Reltm.foldl_request_posted { r with
        expiries := r.expiries ++ [⟨item.timer, cb.timeout, cb.arg, r.iteration⟩] }
        (env.callback item.timer)
      generalize List.foldl Reltm.request _ (env.callback item.timer) = r₁
        at htrigger hcalled hposted
      have hcb₁ : r₁.timers item.timer = some cb := (hposted.timers _ hold).trans hcb
      have htick : r₁.tickLast = r.tickLast := hposted.tickLast
      have hcurrent : r₁.current = r.current := by
        rw [hposted.rest]
        rfl
      refine hcalled.returned (env.malloc item.timer) ?_
      rw [Reltm.returnOf, hcb₁, htick, hcurrent]
      dsimp only
      by_cases hfree : cb.mode &&& petfAutoFree ≠ 0
      · rw [if_pos hfree, Option.some.injEq] at htrigger
        rw [if_pos hfree, ← htrigger]
        rfl
      · rw [if_neg hfree] at htrigger ⊢
        by_cases hshoot : cb.mode &&& petfOneShoot = 0
        · rw [if_pos hshoot] at htrigger ⊢
          cases hmalloc : env.malloc item.timer with
          | false =>
              rw [hmalloc] at htrigger
              cases htrigger
              rfl
          | true =>
              rw [hmalloc] at htrigger
              cases htrigger
              rfl
        · rw [if_neg hshoot, Option.some.injEq] at htrigger
          rw [if_neg hshoot, htrigger]

theorem travelZero {env : TickEnv} (link : List Entry) (h : Reaches r (.scanning .zero))
    (hlink : r.current.zeroLink = link)
    (htravel : Reltm.travelZero env (bucket r.tickLast) link r = some r') :
    Reaches r' (.scanning .sorted) ∧ r'.tickLast = r.tickLast := by
  induction link generalizing r with
  | nil =>
      cases htravel
      exact ⟨h.scanned hlink, rfl⟩
  | cons item rest ih =>
      rw [Reltm.travelZero] at htravel
      cases htrigger : r.triggerATimer env item.timer with
      | none => simp [htrigger] at htravel
      | some r₁ =>
          obtain ⟨hnext, htick, hhash⟩ :=
            h.trigger hlink (fun heq => by cases heq) htrigger
          rw [TmHash.listRemove_zero hlink, Reltm.current] at hnext
          simp only [htrigger, hhash] at htravel
          rw [← htick] at hnext htravel ⊢
          have hrest := ih hnext (by simp [Reltm.current, Reltm.setHash]) htravel
          exact hrest

theorem travelSorted {env : TickEnv} (link : List Entry) (h : Reaches r (.scanning .sorted))
    (hlink : r.current.sortedLink = link)
    (htravel : Reltm.travelSorted env (bucket r.tickLast) link r = some r') :
    Reaches { r' with tickLast := r'.tickLast + 1, iteration := r'.iteration + 1 }
      .restarting := by
  induction link generalizing r with
  | nil =>
      have heq : r = r' := Option.some.inj htravel
      subst heq
      have hended := h.ended (by rw [hlink]; rfl)
      have hsame : r.setHash (bucket r.tickLast) { r.current with sortedLink := [] } = r := by
        rw [← hlink]
        simp [Reltm.setHash, Reltm.current]
      rw [Reltm.nextTick, hlink, stay, hsame] at hended
      exact hended
  | cons item rest ih =>
      rw [Reltm.travelSorted] at htravel
      by_cases hlt : item.ticksLeft < 1024
      · rw [if_pos hlt] at htravel
        cases htrigger : r.triggerATimer env item.timer with
        | none => simp [htrigger] at htravel
        | some r₁ =>
            obtain ⟨hnext, htick, hhash⟩ := h.trigger hlink (fun _ => hlt) htrigger
            rw [TmHash.listRemove_sorted hlink, Reltm.current] at hnext
            simp only [htrigger, hhash] at htravel
            rw [← htick] at hnext htravel
            exact ih hnext (by simp [Reltm.current, Reltm.setHash]) htravel
      · rw [if_neg hlt, Option.some.injEq] at htravel
        have hended := h.ended (by rw [hlink, leave, if_neg hlt])
        rw [hlink, stay, if_neg hlt] at hended
        rw [← htravel]
        exact hended

/-- An iteration is a run of steps of the timer thread. -/
theorem reltmTrigger {env : TickEnv} (h : Reaches r .restarting)
    (htick : r.reltmTrigger env = some r') : Reaches r' .restarting := by
  rw [Reltm.reltmTrigger] at htick
  cases hinvoke : r.invokeTsklets with
  | none => simp [hinvoke] at htick
  | some m =>
      simp only [hinvoke] at htick
      obtain ⟨r₂, htravel, rfl⟩ := Option.map_eq_some_iff.mp htick
      rw [Reltm.travel] at htravel
      cases hzero : Reltm.travelZero env (bucket m.tickLast)
          (m.tmHash (bucket m.tickLast)).zeroLink m with
      | none => simp [hzero] at htravel
      | some r₁ =>
          simp only [hzero] at htravel
          obtain ⟨hsorted, heq⟩ := (h.invokeTsklets hinvoke).travelZero _ rfl hzero
          rw [← heq] at htravel
          exact hsorted.travelSorted _ rfl htravel

end Reaches

/-- What `reltmMachine` reaches, the timer thread reaches step by step. -/
theorem reaches_of_reach {r : Reltm} (hreach : reltmMachine.Reach r) :
    Reaches r .restarting := by
  refine Machine.ReachWhen.invariant (I := fun r => Reaches r .restarting) ?_ ?_ hreach
  · intro r₀ hinit
    rw [show r₀ = initReltm from hinit]
    exact ⟨initTickThread, .init rfl, rfl, rfl⟩
  · intro r₀ a r₁ h _ hstep
    cases a with
    | request q =>
        have heq : r₀.request q = r₁ := Option.some.inj hstep
        exact heq ▸ h.request (fun hphase => by cases hphase) q
    | tick env => exact h.reltmTrigger hstep

end Timer
end AndroidLinux
