import AndroidLinux.Msg.RspLifecycle

/-!
# Agreement of requests and responses

A response names the slot of the request it answers and not the request itself, and
`MSG_RSPMNG_New` reuses a slot as soon as its owner has given up.  So a response that
comes late is found by the next owner of the slot, which returns it as the response to
its own request (`handed_to_another`).

In the runs in which a response is never stored in a slot that another call owns, a
call that returns success returns a response that was built for its own request.
-/

namespace AndroidLinux
namespace Msg

open Lib

namespace SynSys

/-- A response is not stored in a slot that another call owns. -/
def AnswersOwner (s : SynSys) : SynAct → Prop
  | .reply _ c pMsgResp => ∀ pMsg i, s.requests c = some pMsg →
      s.mng.putCheck pMsg.hdr.privData (respInner pMsg pMsgResp s.counterMsgId) = .ok i →
      (s.mng.slot i).enState = .idle → ∀ c', (s.sender c').owns = some i → c' = c
  | .tail d => ∀ p, s.responder d = some p →
      ∀ c', (s.sender c').owns = some p.slot → c' = p.call
  | _ => True

/-- A message that was built as the response to call `c`. -/
def Answers (replies : List (Nat × MsgData)) (c origin : Nat) (msg : MsgData) : Prop :=
  origin = c ∧ ∃ m, (c, m) ∈ replies ∧ msg.content = m.content

/-- Every response in the hands of a call, or in a slot it owns, was built for it. -/
structure Agreed (s : SynSys) : Prop where
  request : ∀ c m, s.requests c = some m → (s.sender c).msgID = some m.hdr.msg.msgID
  replies : ∀ c m, (c, m) ∈ s.replies →
    ∃ req, s.requests c = some req ∧ m.hdr.resp2id = req.hdr.msg.msgID
  pending : ∀ d p, s.responder d = some p → (p.call, p.pInnerMsg) ∈ s.replies
  stored : ∀ c i, (s.sender c).owns = some i → (s.mng.slot i).enState = .active →
    Answers s.replies c (s.origin i) (s.mng.read i)
  copying : ∀ c i req, s.sender c = .running i req .copying → (s.mng.slot i).enState = .active
  result : ∀ c resp, (s.sender c).response = some resp →
    Answers s.replies c resp.origin resp.msg

theorem Answers.mono {replies replies' : List (Nat × MsgData)} {c origin : Nat} {msg : MsgData}
    (h : Answers replies c origin msg) (hsub : replies ⊆ replies') :
    Answers replies' c origin msg := by
  obtain ⟨horigin, m, hm, hcontent⟩ := h
  exact ⟨horigin, m, hsub hm, hcontent⟩

/-- The responses of a request carry its id. -/
theorem Agreed.resp2id {s : SynSys} (hs : Agreed s) {c : Nat} {resp : Response} {msgID : MsgId}
    (hresp : (s.sender c).response = some resp) (hid : (s.sender c).msgID = some msgID) :
    resp.msg.hdr.resp2id = msgID := by
  obtain ⟨-, m, hm, hcontent⟩ := hs.result c resp hresp
  obtain ⟨req, hreq, hresp2id⟩ := hs.replies c m hm
  have hhdr : resp.msg.hdr.withBody .null = m.hdr.withBody .null := congrArg Prod.fst hcontent
  have hsame := congrArg InnerBlock.resp2id hhdr
  calc resp.msg.hdr.resp2id = m.hdr.resp2id := hsame
    _ = req.hdr.msg.msgID := hresp2id
    _ = msgID := Option.some.inj ((hs.request c req hreq).symm.trans hid)

/-! ## Steps -/

/-- A response is built. -/
theorem Agreed.replied {s : SynSys} (hs : Agreed s) {c : Nat} {pMsg pInnerMsg : MsgData}
    (hrequest : s.requests c = some pMsg)
    (hid : pInnerMsg.hdr.resp2id = pMsg.hdr.msg.msgID) : Agreed (s.replied c pInnerMsg) := by
  have hsub : s.replies ⊆ (s.replied c pInnerMsg).replies := List.subset_cons_self _ _
  refine ⟨hs.request, ?_, fun d p hp => hsub (hs.pending d p hp),
    fun c' i hown hactive => (hs.stored c' i hown hactive).mono hsub, hs.copying,
    fun c' resp hresp => (hs.result c' resp hresp).mono hsub⟩
  intro c' m hm
  rcases List.mem_cons.mp hm with heq | hm
  · cases heq
    exact ⟨pMsg, hrequest, hid⟩
  · exact hs.replies c' m hm

/-- A response is stored in a slot that no other call owns. -/
theorem Agreed.store {s : SynSys} (hs : Agreed s) {c : Nat} {i : Fin maxMsgRspNum}
    {pInnerMsg : MsgData} (hbuilt : (c, pInnerMsg) ∈ s.replies)
    (howner : ∀ c', (s.sender c').owns = some i → c' = c) :
    Agreed (s.store c i pInnerMsg) := by
  refine ⟨hs.request, hs.replies, hs.pending, ?_, ?_, hs.result⟩
  · intro c' j hown hactive
    by_cases hj : j = i
    · subst hj
      refine ⟨?_, pInnerMsg, ?_, RspMng.content_read_store s.mng j pInnerMsg⟩
      · rw [howner c' hown]
        simp [SynSys.store]
      · rw [howner c' hown]
        exact hbuilt
    · rw [state_store, if_neg hj] at hactive
      have hread : (s.store c i pInnerMsg).mng.read j = s.mng.read j := by
        simp only [SynSys.store, RspMng.store, RspMng.read, RspMng.setSlot_ne _ _ hj]
      have horigin : (s.store c i pInnerMsg).origin j = s.origin j := by
        simp [SynSys.store, hj]
      rw [hread, horigin]
      exact hs.stored c' j hown hactive
  · intro c' j req hcopy
    rw [state_store]
    split
    · rfl
    · exact hs.copying c' j req hcopy

/-- A call moves; the slots it touches are its own. -/
theorem Agreed.move {s s' : SynSys} {c : Nat} {sender : Sender} (hs : Agreed s)
    (hsender : s'.sender = Function.update s.sender c sender)
    (hrequest : ∀ m, s'.requests c = some m → sender.msgID = some m.hdr.msg.msgID)
    (hrequests : ∀ c', c' ≠ c → s'.requests c' = s.requests c')
    (hbuilt : ∀ m, s.requests c = some m →
      ∃ req, s'.requests c = some req ∧ req.hdr.msg.msgID = m.hdr.msg.msgID)
    (hresponder : s'.responder = s.responder) (hreplies : s'.replies = s.replies)
    (horigin : s'.origin = s.origin)
    (hslots : ∀ c' i, c' ≠ c → (s.sender c').owns = some i → s'.mng.slot i = s.mng.slot i)
    (hstored : ∀ i, sender.owns = some i → (s'.mng.slot i).enState = .active →
      Answers s.replies c (s.origin i) (s'.mng.read i))
    (hcopying : ∀ i req, sender = .running i req .copying →
      (s'.mng.slot i).enState = .active)
    (hresult : ∀ resp, sender.response = some resp →
      Answers s.replies c resp.origin resp.msg) : Agreed s' where
  request := by
    intro c' m hm
    rw [hsender]
    by_cases hc : c' = c
    · subst hc
      rw [Function.update_self]
      exact hrequest m hm
    · rw [Function.update_of_ne hc]
      rw [hrequests c' hc] at hm
      exact hs.request c' m hm
  replies := by
    intro c' m hm
    rw [hreplies] at hm
    obtain ⟨req, hreq, hid⟩ := hs.replies c' m hm
    by_cases hc : c' = c
    · subst hc
      obtain ⟨req', hreq', hid'⟩ := hbuilt req hreq
      exact ⟨req', hreq', hid.trans hid'.symm⟩
    · exact ⟨req, (hrequests c' hc).trans hreq, hid⟩
  pending := by
    rw [hresponder, hreplies]
    exact hs.pending
  stored := by
    intro c' i hown hactive
    rw [hsender] at hown
    rw [hreplies, horigin]
    by_cases hc : c' = c
    · subst hc
      rw [Function.update_self] at hown
      exact hstored i hown hactive
    · rw [Function.update_of_ne hc] at hown
      -- the slot of another call is not touched
      have hslot := hslots c' i hc hown
      have hread : s'.mng.read i = s.mng.read i := by
        unfold RspMng.read
        rw [hslot]
      rw [hread]
      exact hs.stored c' i hown (hslot ▸ hactive)
  copying := by
    intro c' i req hcopy
    rw [hsender] at hcopy
    by_cases hc : c' = c
    · subst hc
      rw [Function.update_self] at hcopy
      exact hcopying i req hcopy
    · rw [Function.update_of_ne hc] at hcopy
      rw [hslots c' i hc (by rw [hcopy]; rfl)]
      exact hs.copying c' i req hcopy
  result := by
    intro c' resp hresp
    rw [hsender] at hresp
    rw [hreplies]
    by_cases hc : c' = c
    · subst hc
      rw [Function.update_self] at hresp
      exact hresult resp hresp
    · rw [Function.update_of_ne hc] at hresp
      exact hs.result c' resp hresp

/-- A call that only moves on. -/
theorem Agreed.moved {s : SynSys} (hs : Agreed s) {c : Nat} {i : Fin maxMsgRspNum}
    {request : MsgData} {phase phase' : Phase} (hsender : s.sender c = .running i request phase)
    (hphase : PhaseStep s i phase phase') : Agreed (s.move c (.running i request phase')) := by
  have hown : (s.sender c).owns = some i := by rw [hsender]; rfl
  refine hs.move rfl ?_ (fun _ _ => rfl) (fun m hm => ⟨m, hm, rfl⟩) rfl rfl rfl
    (fun _ _ _ _ => rfl) ?_ ?_ ?_
  · intro m hm
    have hid := hs.request c m hm
    rw [hsender] at hid
    exact hid
  · rintro _ ⟨⟩ hactive
    exact hs.stored c i hown hactive
  · intro j req hcopy
    cases hphase with
    | found timeout hactive =>
        cases hcopy
        exact hactive
    | _ => cases hcopy
  · intro resp hresp
    cases hphase with
    | copied =>
        -- the slot has been active since the response was found
        cases hresp
        have hanswer := hs.stored c i hown (hs.copying c i request hsender)
        obtain ⟨horigin, m, hm, hcontent⟩ := hanswer
        exact ⟨horigin, m, hm, (content_respCopy _).trans hcontent⟩
    | _ => cases hresp

theorem Agreed.step {s s' : SynSys} {a : SynAct} (howned : Owned s) (hs : Agreed s)
    (hguard : AnswersOwner s a) (hstep : SynStep s a s') : Agreed s' := by
  cases hstep with
  | @refused c pMsg timeout hready =>
      -- a sender that is ready has no open request
      have hnone : ∀ m, s.requests c ≠ some m := by
        intro m hm
        have hid := hs.request c m hm
        rw [hready] at hid
        cases hid
      exact hs.move (c := c) rfl (fun m hm => absurd hm (hnone m)) (fun _ _ => rfl)
        (fun m hm => absurd hm (hnone m)) rfl rfl rfl (fun _ _ _ _ => rfl)
        (fun _ h => by cases h) (fun _ _ h => by cases h) (fun _ h => by cases h)
  | @started c pMsg timeout i hready hfree =>
      have hnone : ∀ m, s.requests c ≠ some m := by
        intro m hm
        have hid := hs.request c m hm
        rw [hready] at hid
        cases hid
      refine hs.move (c := c) rfl (fun m hm => absurd hm (hnone m)) (fun _ _ => rfl)
        (fun m hm => absurd hm (hnone m)) rfl rfl rfl ?_ ?_ (fun _ _ h => by cases h)
        (fun _ h => by cases h)
      · intro c' j _ hown
        have hj : j ≠ i := by
          intro heq
          subst heq
          exact howned.nonFree c' j hown hfree
        exact RspMng.setSlot_ne _ _ hj
      · -- the slot is idle, so nothing can be found in it yet
        rintro _ ⟨⟩ hactive
        change ((s.mng.setSlot i _).slot i).enState = .active at hactive
        rw [RspMng.setSlot_self] at hactive
        cases hactive
  | @queued c i request timeout hsender =>
      have hown : (s.sender c).owns = some i := by rw [hsender]; rfl
      refine hs.move (c := c) rfl ?_ (fun _ hc => Function.update_of_ne hc _ _) ?_ rfl rfl rfl
        (fun _ _ _ _ => rfl) ?_ (fun _ _ h => by cases h) (fun _ h => by cases h)
      · intro m hm
        change Function.update s.requests c (some request) c = some m at hm
        rw [Function.update_self] at hm
        cases hm
        rfl
      · intro m hm
        refine ⟨request, Function.update_self _ _ _, ?_⟩
        have hid := hs.request c m hm
        rw [hsender] at hid
        exact Option.some.inj hid
      · rintro _ ⟨⟩ hactive
        exact hs.stored c i hown hactive
  | moved hsender hphase => exact hs.moved hsender hphase
  | waited => exact hs
  | @closed c i request result hsender =>
      have hown : (s.sender c).owns = some i := by rw [hsender]; rfl
      refine hs.move (c := c) rfl ?_ (fun _ _ => rfl) (fun m hm => ⟨m, hm, rfl⟩) rfl rfl rfl ?_
        (fun _ h => by cases h) (fun _ _ h => by cases h) ?_
      · intro m hm
        have hid := hs.request c m hm
        rw [hsender] at hid
        exact hid
      · intro c' j hc hown'
        have hj : j ≠ i := by
          intro heq
          subst heq
          exact hc (howned.exclusive c' c j hown' hown)
        exact RspMng.setSlot_ne _ _ hj
      · intro resp hresp
        refine hs.result c resp ?_
        rw [hsender]
        cases result with
        | error e => cases hresp
        | ok response => exact hresp
  | rejected hrequest => exact hs.replied hrequest rfl
  | stored hrequest hcheck hidle =>
      exact (hs.replied hrequest rfl).store List.mem_cons_self (hguard _ _ hrequest hcheck hidle)
  | @postponed d c pMsg pMsgResp i hrequest hcheck hidle =>
      have hbuilt : Agreed (s.replied c (respInner pMsg pMsgResp s.counterMsgId)) :=
        hs.replied hrequest rfl
      refine { hbuilt with pending := ?_ }
      intro d' p hp
      change Function.update s.responder d _ d' = some p at hp
      by_cases hd : d' = d
      · subst hd
        rw [Function.update_self] at hp
        cases hp
        exact List.mem_cons_self
      · rw [Function.update_of_ne hd] at hp
        exact hbuilt.pending d' p hp
  | @tail d p hresponder =>
      -- the guard says that the slot still belongs to the request that is answered
      have hstored := hs.store (hs.pending d p hresponder) (hguard p hresponder)
      refine { hstored with pending := ?_ }
      intro d' p' hp'
      change Function.update s.responder d none d' = some p' at hp'
      by_cases hd : d' = d
      · subst hd
        rw [Function.update_self] at hp'
        cases hp'
      · rw [Function.update_of_ne hd] at hp'
        exact hs.pending d' p' hp'

theorem agreed_initial : Agreed initial where
  request := fun _ _ h => by cases h
  replies := fun _ _ h => by cases h
  pending := fun _ _ h => by cases h
  stored := fun _ _ h => by cases h
  copying := fun _ _ _ h => by cases h
  result := fun _ _ h => by cases h

/-- In every run in which a response is never stored in a slot that another call owns, a
call that returned success returned a response that `VTOP_MSG_SendResp` built for its
own request, and that names it. -/
theorem agreement_of_answersOwner (s : SynSys) (hreach : machine.ReachWhen AnswersOwner s)
    (c : Nat) (msgID : MsgId) (resp : Response)
    (hreturned : s.sender c = .returned msgID (.ok resp)) :
    resp.origin = c ∧ resp.msg.hdr.resp2id = msgID ∧
      ∃ m, (c, m) ∈ s.replies ∧ resp.msg.content = m.content := by
  have hs : Owned s ∧ Agreed s := by
    refine hreach.invariant (I := fun s => Owned s ∧ Agreed s) ?_ ?_
    · rintro s rfl
      exact ⟨owned_initial, agreed_initial⟩
    · intro s a s' hs hguard hstep
      have hcases := step_cases hs.1.inited hstep
      exact ⟨hs.1.step hcases, hs.2.step hs.1 hguard hcases⟩
  have hresp : (s.sender c).response = some resp := by rw [hreturned]; rfl
  obtain ⟨horigin, hbuilt⟩ := hs.2.result c resp hresp
  exact ⟨horigin, hs.2.resp2id hresp (by rw [hreturned]; rfl), hbuilt⟩

/-! ## Schedules -/

/-- A test for the steps that store nothing. -/
def storesNothing (_ : SynSys) : SynAct → Bool
  | .reply _ _ _ => false
  | .tail _ => false
  | _ => true

theorem answersOwner_of_storesNothing (s : SynSys) (a : SynAct)
    (hpass : storesNothing s a = true) : AnswersOwner s a := by
  cases a with
  | reply d c pMsgResp => cases hpass
  | tail d => cases hpass
  | _ => trivial

/-- The first request is in the queue of its receiver. -/
def requested : SynSys :=
  (machine.runWhen storesNothing initial [.call 0 blankMsg (-1), .queued 0 .ok]).get
    (by decide +kernel)

/-- The response to it has come. -/
def responded : SynSys :=
  (machine.step requested (.reply 0 0 blankMsg)).get (by decide +kernel)

/-- The first call has returned. -/
def succeeded : SynSys :=
  (machine.runWhen storesNothing responded [.poll 0 false, .copy 0 true, .delete 0]).get
    (by decide +kernel)

theorem succeeded_agreement : ∃ msgID resp,
    succeeded.sender 0 = .returned msgID (.ok resp) ∧ resp.msg.hdr.resp2id = msgID := by
  have hrequested : machine.ReachWhen AnswersOwner requested :=
    Machine.reachWhen_of_runWhen answersOwner_of_storesNothing _ (.init rfl)
      (Option.some_get _).symm
  have hguard : AnswersOwner requested (.reply 0 0 blankMsg) := by
    intro pMsg i hrequest hcheck _ c' hown
    have hslot : (requested.sender 0).owns = some i := by
      have hhandle := checkHandle_of_putCheck hcheck
      have hpriv : (requested.requests 0).map (fun m => checkHandle m.hdr.privData) =
          some (requested.sender 0).owns := by decide +kernel
      rw [hrequest] at hpriv
      exact (Option.some.inj hpriv).symm.trans hhandle
    exact (owned_of_reach hrequested).exclusive c' 0 i hown hslot
  have hresponded : machine.ReachWhen AnswersOwner responded :=
    .step hrequested hguard (Option.some_get _).symm
  have hreach : machine.ReachWhen AnswersOwner succeeded :=
    Machine.reachWhen_of_runWhen answersOwner_of_storesNothing _ hresponded
      (Option.some_get _).symm
  obtain ⟨msgID, resp, hreturned⟩ : ∃ msgID resp,
      succeeded.sender 0 = .returned msgID (.ok resp) := by
    set_option maxRecDepth 8000 in
    exact ⟨_, _, rfl⟩
  exact ⟨msgID, resp, hreturned, (agreement_of_answersOwner succeeded hreach 0 msgID resp
    hreturned).2.1⟩

/-- The first call has given up, the second has got the same slot, and then the
response to the first has come. -/
def handedOver : SynSys :=
  (machine.run initial [.call 0 blankMsg 0, .queued 0 .ok, .poll 0 false, .delete 0,
    .call 1 blankMsg (-1), .queued 1 .ok, .reply 0 0 blankMsg, .poll 1 false, .copy 1 true,
    .delete 1]).get (by decide +kernel)

/-- A call can return the response to the request of another call. -/
theorem handed_to_another : machine.Reach handedOver ∧ ∃ resp,
    handedOver.sender 1 = .returned 1 (.ok resp) ∧ resp.origin = 0 ∧
      resp.msg.hdr.resp2id = 0 := by
  refine ⟨Machine.reach_of_run _ rfl (Option.some_get _).symm, ?_⟩
  obtain ⟨resp, hreturned⟩ : ∃ resp, handedOver.sender 1 = .returned 1 (.ok resp) := by
    set_option maxRecDepth 8000 in
    exact ⟨_, rfl⟩
  have hresp : (handedOver.sender 1).response.map (fun r => (r.origin, r.msg.hdr.resp2id)) =
      some (0, 0) := by decide +kernel
  rw [hreturned] at hresp
  have hpair : (resp.origin, resp.msg.hdr.resp2id) = (0, 0) := Option.some.inj hresp
  exact ⟨resp, hreturned, congrArg Prod.fst hpair, congrArg Prod.snd hpair⟩

end SynSys
end Msg
end AndroidLinux
