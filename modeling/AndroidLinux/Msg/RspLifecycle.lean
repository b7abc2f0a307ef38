import AndroidLinux.Msg.RspProtocol

/-!
# The lifecycle of a response slot

A slot that a call owns is never free and has no other owner (`owned_of_reach`); this
much holds in every run.  The converse does not: a response that comes after its sender
has given up finds the slot free, is stored all the same and leaves the slot active
without an owner, so that `MSG_RSPMNG_New` never finds it again
(`slot_lost_of_late_reply`).

As long as every response that passes the checks of `MSG_RSPMNG_PutData` finds its slot
idle, the slots that are not free are exactly the owned ones.
-/

namespace AndroidLinux
namespace Msg

open Lib

namespace SynSys

/-- A response that passes the checks finds its slot idle. -/
def PutsOnIdle (s : SynSys) : SynAct → Prop
  | .reply _ c pMsgResp => ∀ pMsg i, s.requests c = some pMsg →
      s.mng.putCheck pMsg.hdr.privData (respInner pMsg pMsgResp s.counterMsgId) = .ok i →
      (s.mng.slot i).enState = .idle
  | _ => True

/-- Owned slots are not free, and have one owner. -/
structure Owned (s : SynSys) : Prop where
  inited : s.mng.inited = true
  nonFree : ∀ c i, (s.sender c).owns = some i → (s.mng.slot i).enState ≠ .free
  exclusive : ∀ c c' i, (s.sender c).owns = some i → (s.sender c').owns = some i → c = c'

/-! ## Ownership -/

theorem owns_move (s : SynSys) (c c' : Nat) (sender : Sender) :
    ((s.move c sender).sender c').owns =
      if c' = c then sender.owns else (s.sender c').owns := by
  unfold move
  by_cases hc : c' = c
  · simp [hc]
  · simp [hc]

/-- A call that keeps what it owns. -/
theorem owns_move_same {s : SynSys} {c : Nat} {sender : Sender}
    (hsame : sender.owns = (s.sender c).owns) (c' : Nat) :
    ((s.move c sender).sender c').owns = (s.sender c').owns := by
  rw [owns_move]
  split
  · rename_i hc
    rw [hc, hsame]
  · rfl

/-- A call that gets no slot. -/
theorem owns_move_ready {s : SynSys} {c : Nat} (hready : s.sender c = .ready) (msgID : MsgId)
    (result : Except MsgErr Response) (c' : Nat) :
    ((s.move c (.returned msgID result)).sender c').owns = (s.sender c').owns := by
  refine owns_move_same ?_ c'
  rw [hready]
  rfl

/-- A call that goes on with its slot. -/
theorem owns_move_running {s : SynSys} {c : Nat} {i : Fin maxMsgRspNum} {request : MsgData}
    {phase : Phase} (hsender : s.sender c = .running i request phase) (phase' : Phase)
    (c' : Nat) :
    ((s.move c (.running i request phase')).sender c').owns = (s.sender c').owns := by
  refine owns_move_same ?_ c'
  rw [hsender]
  rfl

/-- No owner changes and no slot becomes free. -/
theorem Owned.keep {s s' : SynSys} (hs : Owned s) (hinited : s'.mng.inited = s.mng.inited)
    (howns : ∀ c, (s'.sender c).owns = (s.sender c).owns)
    (hfree : ∀ i, (s'.mng.slot i).enState = .free → (s.mng.slot i).enState = .free) :
    Owned s' where
  inited := hinited.trans hs.inited
  nonFree := by
    intro c i hown hstate
    rw [howns] at hown
    exact hs.nonFree c i hown (hfree i hstate)
  exclusive := by
    intro c c' i hc hc'
    rw [howns] at hc hc'
    exact hs.exclusive c c' i hc hc'

/-- A call takes a free slot. -/
theorem Owned.take {s s' : SynSys} (hs : Owned s) {c : Nat} {i : Fin maxMsgRspNum}
    (hfree : (s.mng.slot i).enState = .free) (hinited : s'.mng.inited = s.mng.inited)
    (howns : ∀ c', (s'.sender c').owns = if c' = c then some i else (s.sender c').owns)
    (hself : (s'.mng.slot i).enState ≠ .free)
    (hother : ∀ j, j ≠ i → (s'.mng.slot j).enState = (s.mng.slot j).enState) :
    Owned s' where
  inited := hinited.trans hs.inited
  nonFree := by
    intro c' j hown
    by_cases hj : j = i
    · exact hj ▸ hself
    · rw [hother j hj]
      rw [howns] at hown
      split at hown
      · exact absurd (Option.some.inj hown).symm hj
      · exact hs.nonFree c' j hown
  exclusive := by
    -- nobody owned the slot, since it was free
    have hnone : ∀ c', (s.sender c').owns ≠ some i := fun c' h => hs.nonFree c' i h hfree
    intro c₁ c₂ j h₁ h₂
    rw [howns] at h₁ h₂
    split at h₁
    · rename_i hc₁
      split at h₂
      · rename_i hc₂
        exact hc₁.trans hc₂.symm
      · exact absurd (h₁ ▸ h₂) (hnone c₂)
    · split at h₂
      · exact absurd (h₂ ▸ h₁) (hnone c₁)
      · exact hs.exclusive c₁ c₂ j h₁ h₂

/-- A call gives its slot back. -/
theorem Owned.give {s s' : SynSys} (hs : Owned s) {c : Nat} {i : Fin maxMsgRspNum}
    (hown : (s.sender c).owns = some i) (hinited : s'.mng.inited = s.mng.inited)
    (howns : ∀ c', (s'.sender c').owns = if c' = c then none else (s.sender c').owns)
    (hother : ∀ j, j ≠ i → (s'.mng.slot j).enState = (s.mng.slot j).enState) :
    Owned s' where
  inited := hinited.trans hs.inited
  nonFree := by
    intro c' j hown'
    rw [howns] at hown'
    split at hown'
    · cases hown'
    · rename_i hc
      have hj : j ≠ i := by
        intro heq
        subst heq
        exact hc (hs.exclusive c' c j hown' hown)
      rw [hother j hj]
      exact hs.nonFree c' j hown'
  exclusive := by
    intro c₁ c₂ j h₁ h₂
    rw [howns] at h₁ h₂
    split at h₁
    · cases h₁
    · split at h₂
      · cases h₂
      · exact hs.exclusive c₁ c₂ j h₁ h₂

/-- The only slot a store changes becomes active. -/
theorem state_store (s : SynSys) (c : Nat) (i j : Fin maxMsgRspNum) (pInnerMsg : MsgData) :
    ((s.store c i pInnerMsg).mng.slot j).enState =
      if j = i then .active else (s.mng.slot j).enState := by
  unfold store RspMng.store
  by_cases hj : j = i
  · subst hj
    simp
  · simp only [RspMng.setSlot_ne _ _ hj, if_neg hj]

theorem free_of_store {s : SynSys} {c : Nat} {i j : Fin maxMsgRspNum} {pInnerMsg : MsgData}
    (hfree : ((s.store c i pInnerMsg).mng.slot j).enState = .free) :
    (s.mng.slot j).enState = .free := by
  rw [state_store] at hfree
  split at hfree
  · cases hfree
  · exact hfree

theorem Owned.step {s s' : SynSys} {a : SynAct} (hs : Owned s) (hstep : SynStep s a s') :
    Owned s' := by
  cases hstep with
  | refused hready =>
      exact hs.keep rfl (owns_move_ready (s := s.count) hready _ _) (fun _ h => h)
  | @started c pMsg timeout i hready hfree =>
      refine hs.take hfree rfl (owns_move _ c · _) ?_ ?_
      · show ((s.mng.setSlot i _).slot i).enState ≠ .free
        rw [RspMng.setSlot_self]
        exact fun h => by cases h
      · intro j hj
        show ((s.mng.setSlot i _).slot j).enState = _
        rw [RspMng.setSlot_ne _ _ hj]
  | queued hsender => exact hs.keep rfl (owns_move_running hsender _) (fun _ h => h)
  | moved hsender hphase => exact hs.keep rfl (owns_move_running hsender _) (fun _ h => h)
  | waited => exact hs
  | @closed c i request result hsender =>
      refine hs.give (c := c) (i := i) (by rw [hsender]; rfl) rfl (owns_move _ c · _) ?_
      intro j hj
      show ((s.mng.setSlot i _).slot j).enState = _
      rw [RspMng.setSlot_ne _ _ hj]
  | rejected hrequest => exact hs.keep rfl (fun _ => rfl) (fun _ h => h)
  | stored hrequest hcheck hidle =>
      exact hs.keep rfl (fun _ => rfl) (fun j h => free_of_store (s := s.replied _ _) h)
  | postponed hrequest hcheck hidle => exact hs.keep rfl (fun _ => rfl) (fun _ h => h)
  | @tail d p hresponder =>
      exact hs.keep rfl (fun _ => rfl) (fun j h => free_of_store (s := s) (c := p.call) h)

theorem owned_initial : Owned initial where
  inited := rfl
  nonFree := fun _ _ h => (by cases h)
  exclusive := fun _ _ _ h => (by cases h)

/-- An owned slot is never free and has one owner, in every run. -/
theorem owned_of_reach {guard : SynSys → SynAct → Prop} {s : SynSys}
    (hreach : machine.ReachWhen guard s) : Owned s := by
  refine hreach.invariant (I := Owned) ?_
    (fun s a s' hs _ hstep => hs.step (step_cases hs.inited hstep))
  rintro s rfl
  exact owned_initial

/-! ## Slots without an owner -/

/-- A slot that is not free has an owner, and no response waits to be stored without
the lock. -/
structure Lifecycle (s : SynSys) : Prop where
  owned : ∀ i, (s.mng.slot i).enState ≠ .free → ∃ c, (s.sender c).owns = some i
  noTail : ∀ d, s.responder d = none

/-- No owner changes and no free slot is touched. -/
theorem Lifecycle.keep {s s' : SynSys} (hs : Lifecycle s)
    (howns : ∀ c, (s'.sender c).owns = (s.sender c).owns)
    (hfree : ∀ i, (s.mng.slot i).enState = .free → (s'.mng.slot i).enState = .free)
    (hresponder : s'.responder = s.responder) : Lifecycle s' where
  owned := by
    intro i hstate
    obtain ⟨c, hown⟩ := hs.owned i (fun h => hstate (hfree i h))
    exact ⟨c, (howns c).trans hown⟩
  noTail := by
    rw [hresponder]
    exact hs.noTail

theorem Lifecycle.step {s s' : SynSys} {a : SynAct} (hs : Lifecycle s)
    (hguard : PutsOnIdle s a) (hstep : SynStep s a s') : Lifecycle s' := by
  cases hstep with
  | refused hready =>
      exact hs.keep (owns_move_ready (s := s.count) hready _ _) (fun _ h => h) rfl
  | @started c pMsg timeout i hready hfree =>
      refine ⟨?_, hs.noTail⟩
      intro j hstate
      by_cases hj : j = i
      · refine ⟨c, ?_⟩
        rw [owns_move, if_pos rfl, hj]
        rfl
      · change ((s.mng.setSlot i _).slot j).enState ≠ .free at hstate
        rw [RspMng.setSlot_ne _ _ hj] at hstate
        obtain ⟨c', hown⟩ := hs.owned j hstate
        have hc : c' ≠ c := by
          intro heq
          subst heq
          rw [hready] at hown
          cases hown
        refine ⟨c', ?_⟩
        rw [owns_move, if_neg hc]
        exact hown
  | queued hsender => exact hs.keep (owns_move_running hsender _) (fun _ h => h) rfl
  | moved hsender hphase => exact hs.keep (owns_move_running hsender _) (fun _ h => h) rfl
  | waited => exact hs
  | @closed c i request result hsender =>
      refine ⟨?_, hs.noTail⟩
      intro j hstate
      change ((s.mng.setSlot i _).slot j).enState ≠ .free at hstate
      have hj : j ≠ i := by
        intro heq
        subst heq
        rw [RspMng.setSlot_self] at hstate
        exact hstate rfl
      rw [RspMng.setSlot_ne _ _ hj] at hstate
      obtain ⟨c', hown⟩ := hs.owned j hstate
      have hc : c' ≠ c := by
        intro heq
        subst heq
        rw [hsender] at hown
        exact hj (Option.some.inj hown).symm
      refine ⟨c', ?_⟩
      rw [owns_move, if_neg hc]
      exact hown
  | rejected hrequest => exact hs.keep (fun _ => rfl) (fun _ h => h) rfl
  | @stored d c pMsg pMsgResp i hrequest hcheck hidle =>
      refine hs.keep (fun _ => rfl) ?_ rfl
      intro j hfree
      have hj : j ≠ i := by
        intro heq
        subst heq
        rw [hidle] at hfree
        cases hfree
      rw [state_store, if_neg hj]
      exact hfree
  | postponed hrequest hcheck hidle =>
      -- the error branch of `MSG_RSPMNG_PutData`, which the condition excludes
      exact absurd (hguard _ _ hrequest hcheck) hidle
  | tail hresponder =>
      rw [hs.noTail] at hresponder
      cases hresponder

theorem lifecycle_initial : Lifecycle initial where
  owned := fun _ h => absurd rfl h
  noTail := fun _ => rfl

theorem lifecycle_of_reach {s : SynSys} (hreach : machine.ReachWhen PutsOnIdle s) :
    Owned s ∧ Lifecycle s := by
  refine hreach.invariant (I := fun s => Owned s ∧ Lifecycle s) ?_ ?_
  · rintro s rfl
    exact ⟨owned_initial, lifecycle_initial⟩
  · intro s a s' hs hguard hstep
    have hcases := step_cases hs.1.inited hstep
    exact ⟨hs.1.step hcases, hs.2.step hguard hcases⟩

/-- A response for a slot that is not idle is rejected only by the checks. -/
theorem putData_rejected {m : RspMng} {handle : Int} {pInnerMsg : MsgData}
    (hreject : ∀ i, m.putCheck handle pInnerMsg ≠ .ok i) :
    ∃ e, m.putData handle pInnerMsg = (.err e, m) := by
  rw [RspMng.putData_eq]
  cases hcheck : m.putCheck handle pInnerMsg with
  | error e => exact ⟨e, rfl⟩
  | ok i => exact absurd hcheck (hreject i)

theorem checkHandle_of_putCheck {m : RspMng} {handle : Int} {pInnerMsg : MsgData}
    {i : Fin maxMsgRspNum} (hcheck : m.putCheck handle pInnerMsg = .ok i) :
    checkHandle handle = some i := by
  unfold RspMng.putCheck at hcheck
  split at hcheck
  · cases hcheck
  split at hcheck
  · cases hcheck
  · rename_i j hhandle
    split at hcheck
    · cases hcheck
    · rw [hhandle, Except.ok.inj hcheck]

/-- In every run in which each response that passes the checks finds its slot idle, the
slots that are not free are exactly the owned ones, a response for a slot that is not
idle fails and changes nothing, and all slots are free when no call is in progress. -/
theorem lifecycle_of_putsOnIdle (s : SynSys) (hreach : machine.ReachWhen PutsOnIdle s) :
    (∀ i, (s.mng.slot i).enState ≠ .free ↔ ∃ c, (s.sender c).owns = some i) ∧
    (∀ d c pMsg pMsgResp i, PutsOnIdle s (.reply d c pMsgResp) →
      s.requests c = some pMsg → checkHandle pMsg.hdr.privData = some i →
      (s.mng.slot i).enState ≠ .idle →
      ∃ e, s.mng.putData pMsg.hdr.privData (respInner pMsg pMsgResp s.counterMsgId) =
        (.err e, s.mng)) ∧
    ((∀ c, (s.sender c).owns = none) → ∀ i, (s.mng.slot i).enState = .free) := by
  obtain ⟨howned, hlife⟩ := lifecycle_of_reach hreach
  refine ⟨?_, ?_, ?_⟩
  · intro i
    constructor
    · exact hlife.owned i
    · intro hgiven
      obtain ⟨c, hown⟩ := hgiven
      exact howned.nonFree c i hown
  · intro d c pMsg pMsgResp i hguard hrequest hhandle hidle
    refine putData_rejected ?_
    intro j hcheck
    have hij : i = j := Option.some.inj (hhandle.symm.trans (checkHandle_of_putCheck hcheck))
    exact hidle (hij ▸ hguard pMsg j hrequest hcheck)
  · intro hnone i
    by_contra hstate
    obtain ⟨c, hown⟩ := hlife.owned i hstate
    rw [hnone c] at hown
    cases hown

/-! ## Schedules -/

/-- A message without a body. -/
def blankMsg : MsgData :=
  ⟨zeroInnerBlock, fun _ => 0⟩

/-- A test for the condition. -/
def putsOnIdle (s : SynSys) : SynAct → Bool
  | .reply _ c pMsgResp =>
      match s.requests c with
      | none => true
      | some pMsg =>
          match s.mng.putCheck pMsg.hdr.privData (respInner pMsg pMsgResp s.counterMsgId) with
          | .error _ => true
          | .ok i => decide ((s.mng.slot i).enState = .idle)
  | _ => true

theorem putsOnIdle_sound (s : SynSys) (a : SynAct) (hpass : s.putsOnIdle a = true) :
    PutsOnIdle s a := by
  cases a with
  | reply d c pMsgResp =>
      intro pMsg i hrequest hcheck
      simpa only [putsOnIdle, hrequest, hcheck, decide_eq_true_eq] using hpass
  | _ => trivial

/-- The response to the first call has come. -/
def answered : SynSys :=
  (machine.runWhen putsOnIdle initial
    [.call 0 blankMsg (-1), .queued 0 .ok, .poll 0 false, .reply 0 0 blankMsg]).get
    (by decide +kernel)

theorem answered_owned :
    (answered.mng.slot 0).enState = .active ∧ ∃ c, (answered.sender c).owns = some 0 := by
  have hactive : (answered.mng.slot 0).enState = .active := by decide +kernel
  refine ⟨hactive, ((lifecycle_of_putsOnIdle answered ?_).1 0).mp ?_⟩
  · exact Machine.reachWhen_of_runWhen putsOnIdle_sound _ (.init rfl) (Option.some_get _).symm
  · rw [hactive]
    exact fun h => by cases h

/-- The first call has given up before the response to it came. -/
def lateReply : SynSys :=
  (machine.run initial [.call 0 blankMsg 0, .queued 0 .ok, .poll 0 false, .delete 0,
    .reply 0 0 blankMsg, .tail 0]).get (by decide +kernel)

/-- A slot that is not free although no call is in progress can be reached. -/
theorem slot_lost_of_late_reply :
    machine.Reach lateReply ∧ (∀ c, (lateReply.sender c).owns = none) ∧
      (lateReply.mng.slot 0).enState = .active := by
  refine ⟨Machine.reach_of_run _ rfl (Option.some_get _).symm, ?_, by decide +kernel⟩
  intro c
  obtain ⟨x, y, z, hsender⟩ : ∃ x y z, lateReply.sender = Function.update (Function.update
      (Function.update (Function.update (fun _ => .ready) 0 x) 0 y) 0 z) 0
      (.returned 0 (.error .respTimeout)) := by
    -- the search for a free slot unfolds to one test per slot
    set_option maxRecDepth 8000 in
    exact ⟨_, _, _, rfl⟩
  by_cases hc : c = 0
  · rw [hsender, hc]
    rfl
  · rw [hsender]
    simp [hc, Sender.owns]

end SynSys
end Msg
end AndroidLinux
