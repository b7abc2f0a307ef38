import AndroidLinux.Msg.RspAgreement

/-!
# The way of a response

A response is copied three times on its way: `MSG_SendSyncRsp` builds the inner message,
`MSG_RSPMNG_PutData` copies it to the slot of the request and `MSG_SendSyncMsg` copies it
to the block it returns.  `VTOP_MSG_SendResp` takes bodies of up to
`VTOP_MSG_MAX_MSG_SIZE` bytes, but the buffer of a slot has only `MAX_MSG_RSP_SIZE`, and
`MSG_RSPMNG_PutData` refuses what is longer (`put_refuses_513`).

Everything here is about one call `c`.  As long as nothing else is stored in the slot that
it owns, the first response to its request comes back to it exactly when it fits the
slot (`roundTrips_iff`).
-/

namespace AndroidLinux
namespace Msg

open Lib

namespace SynSys

/-- While the call `c` owns a slot, `MSG_RSPMNG_PutData` stores only a response to `c` in
it, and only when the slot is idle. -/
def Undisturbed (c : Nat) (s : SynSys) : SynAct → Prop
  | .reply _ c' pMsgResp => ∀ pMsg i, s.requests c' = some pMsg →
      s.mng.putCheck pMsg.hdr.privData (respInner pMsg pMsgResp s.counterMsgId) = .ok i →
      (s.sender c).owns = some i → (s.mng.slot i).enState = .idle → c' = c
  | .tail d => ∀ p, s.responder d = some p → (s.sender c).owns ≠ some p.slot
  | _ => True

/-- The block carries the response back to the sender of the request. -/
structure Carries (request pMsgResp block : MsgData) : Prop where
  ulMsgLen : block.hdr.msg.ulMsgLen = pMsgResp.hdr.msg.ulMsgLen
  body : ∀ n, n < pMsgResp.hdr.len → block.body n = pMsgResp.body n
  sndTaskId : block.hdr.msg.sndTaskId = request.hdr.msg.rcvTaskId
  rcvTaskId : block.hdr.msg.rcvTaskId = request.hdr.msg.sndTaskId
  msgType : block.hdr.msg.msgType = request.hdr.msg.msgType

/-- `MSG_RSPMNG_PutData` accepts the response, the call can return with a block at once,
and whenever it returns, it returns a block that carries the response, or has found no
memory for it. -/
structure RoundTrips (s : SynSys) (d c : Nat) (request pMsgResp : MsgData) : Prop where
  accepted : (s.mng.putData request.hdr.privData
    (respInner request pMsgResp s.counterMsgId)).1 = .ok
  returned : ∃ s', s.step (.reply d c pMsgResp) = some s' ∧
    (∃ s'' msgID resp, machine.run s' [.poll c false, .copy c true, .delete c] = some s'' ∧
      s''.sender c = .returned msgID (.ok resp)) ∧
    ∀ s'', (machine.resume s').ReachWhen (Undisturbed c) s'' →
      ∀ msgID result, s''.sender c = .returned msgID result →
        result = .error .nomem ∨ ∃ resp, result = .ok resp ∧ Carries request pMsgResp resp.msg

theorem Carries.of_content {request pMsgResp block : MsgData} {msgID : MsgId}
    (hcontent : block.content = (respInner request pMsgResp msgID).content) :
    Carries request pMsgResp block := by
  have hhdr := congrArg Prod.fst hcontent
  have hbody := congrArg Prod.snd hcontent
  have hlen : block.hdr.msg.ulMsgLen = pMsgResp.hdr.msg.ulMsgLen :=
    congrArg (fun h => h.msg.ulMsgLen) hhdr
  refine ⟨hlen, ?_, congrArg (fun h => h.msg.sndTaskId) hhdr,
    congrArg (fun h => h.msg.rcvTaskId) hhdr, congrArg (fun h => h.msg.msgType) hhdr⟩
  intro n hn
  have hsame : block.hdr.len = pMsgResp.hdr.len := by
    unfold InnerBlock.len
    rw [hlen]
  have hmap : (List.range pMsgResp.hdr.len).map block.body =
      (List.range pMsgResp.hdr.len).map pMsgResp.body := by
    change (List.range block.hdr.len).map block.body = _ at hbody
    rw [hsame] at hbody
    exact hbody
  exact List.map_inj_left.mp hmap n (List.mem_range.mpr hn)

/-! ## What a call sees of a step -/

/-- What a step does to the call `c`, to its request and to the slot it owns. -/
inductive Seen (c : Nat) (s s' : SynSys) : Prop
  | apart (hsender : s'.sender c = s.sender c) (hrequests : s'.requests c = s.requests c)
      (hslot : ∀ i, (s.sender c).owns = some i → s'.mng.slot i = s.mng.slot i)
      (hreplies : s.replies ⊆ s'.replies)
  | refused (msgID : MsgId) (hready : s.sender c = .ready)
      (hsender : s'.sender c = .returned msgID (.error .nomem))
  | started (i : Fin maxMsgRspNum) (pMsg : MsgData) (msgID : MsgId) (timeout : Int)
      (hready : s.sender c = .ready)
      (hsender : s'.sender c =
        .running i (syncInner pMsg msgID (i : Nat)) (.queueing timeout))
      (hidle : (s'.mng.slot i).enState = .idle)
  | queued (i : Fin maxMsgRspNum) (request : MsgData) (timeout : Int)
      (hbefore : s.sender c = .running i request (.queueing timeout))
      (hsender : s'.sender c = .running i request (.polling timeout))
      (hrequests : s'.requests c = some request) (hmng : s'.mng = s.mng)
      (hreplies : s'.replies = s.replies)
  | moved (i : Fin maxMsgRspNum) (request : MsgData) (phase phase' : Phase)
      (hbefore : s.sender c = .running i request phase) (hphase : PhaseStep s i phase phase')
      (hsender : s'.sender c = .running i request phase') (hmng : s'.mng = s.mng)
      (hreplies : s'.replies = s.replies)
  | closed (i : Fin maxMsgRspNum) (request : MsgData) (result : Except MsgErr Response)
      (hbefore : s.sender c = .running i request (.closing result))
      (hsender : s'.sender c = .returned request.hdr.msg.msgID result)
  | answered (i : Fin maxMsgRspNum) (hown : (s.sender c).owns = some i)
      (hidle : (s.mng.slot i).enState = .idle) (hsender : s'.sender c = s.sender c)
      (hrequests : s'.requests c = s.requests c) (hreplied : ∃ m, (c, m) ∈ s'.replies)

@[simp] theorem sender_move_self (s : SynSys) (c : Nat) (sender : Sender) :
    (s.move c sender).sender c = sender := by
  unfold move
  exact Function.update_self _ _ _

theorem sender_move_ne (s : SynSys) {c c' : Nat} (sender : Sender) (hne : c ≠ c') :
    (s.move c' sender).sender c = s.sender c := by
  unfold move
  exact Function.update_of_ne hne _ _

/-- Storing a response leaves the other slots as they are. -/
theorem slot_store_ne (s : SynSys) (c : Nat) {i j : Fin maxMsgRspNum} (pInnerMsg : MsgData)
    (hne : j ≠ i) : (s.store c i pInnerMsg).mng.slot j = s.mng.slot j := by
  unfold store RspMng.store
  exact RspMng.setSlot_ne _ _ hne

theorem seen_of_step {c : Nat} {s s' : SynSys} {a : SynAct} (howned : Owned s)
    (hguard : Undisturbed c s a) (hstep : SynStep s a s') : Seen c s s' := by
  -- a step of another call changes neither this call nor the slot that it owns
  cases hstep with
  | @refused c' pMsg timeout hready =>
      by_cases hc : c = c'
      · subst hc
        exact .refused _ hready (sender_move_self _ _ _)
      · exact .apart (sender_move_ne _ _ hc) rfl (fun _ _ => rfl) (fun _ h => h)
  | @started c' pMsg timeout i hready hfree =>
      by_cases hc : c = c'
      · subst hc
        refine .started i pMsg _ timeout hready (sender_move_self _ _ _) ?_
        change ((s.mng.setSlot i _).slot i).enState = .idle
        rw [RspMng.setSlot_self]
      · refine .apart (sender_move_ne _ _ hc) rfl ?_ (fun _ h => h)
        intro j hown
        have hj : j ≠ i := by
          intro heq
          subst heq
          exact howned.nonFree c j hown hfree
        exact RspMng.setSlot_ne _ _ hj
  | @queued c' i request timeout hsender =>
      by_cases hc : c = c'
      · subst hc
        exact .queued i request timeout hsender (sender_move_self _ _ _)
          (Function.update_self _ _ _) rfl rfl
      · exact .apart (sender_move_ne _ _ hc) (Function.update_of_ne hc _ _) (fun _ _ => rfl)
          (fun _ h => h)
  | @moved _ c' i request phase phase' hsender hphase =>
      by_cases hc : c = c'
      · subst hc
        exact .moved i request phase phase' hsender hphase (sender_move_self _ _ _) rfl rfl
      · exact .apart (sender_move_ne _ _ hc) rfl (fun _ _ => rfl) (fun _ h => h)
  | waited => exact .apart rfl rfl (fun _ _ => rfl) (fun _ h => h)
  | @closed c' i request result hsender =>
      by_cases hc : c = c'
      · subst hc
        exact .closed i request result hsender (sender_move_self _ _ _)
      · refine .apart (sender_move_ne _ _ hc) rfl ?_ (fun _ h => h)
        intro j hown
        have hj : j ≠ i := by
          intro heq
          subst heq
          exact hc (howned.exclusive c c' j hown (by rw [hsender]; rfl))
        exact RspMng.setSlot_ne _ _ hj
  | rejected hrequest =>
      exact .apart rfl rfl (fun _ _ => rfl) (List.subset_cons_self _ _)
  | @stored d c' pMsg pMsgResp i hrequest hcheck hidle =>
      by_cases hown : (s.sender c).owns = some i
      · have hc : c' = c := hguard pMsg i hrequest hcheck hown hidle
        subst hc
        exact .answered i hown hidle rfl rfl ⟨_, List.mem_cons_self⟩
      · refine .apart rfl rfl ?_ (List.subset_cons_self _ _)
        intro j hown'
        have hj : j ≠ i := by
          intro heq
          subst heq
          exact hown hown'
        exact slot_store_ne (s.replied c' _) c' _ hj
  | postponed hrequest hcheck hidle =>
      exact .apart rfl rfl (fun _ _ => rfl) (List.subset_cons_self _ _)
  | @tail d p hresponder =>
      refine .apart rfl rfl ?_ (fun _ h => h)
      intro j hown
      have hj : j ≠ p.slot := by
        intro heq
        subst heq
        exact hguard p hresponder hown
      exact slot_store_ne s p.call _ hj

/-! ## Before the first response -/

/-- What a call knows of its request and of its slot. -/
structure Asked (c : Nat) (s : SynSys) : Prop where
  privData : ∀ i request phase, s.sender c = .running i request phase →
    request.hdr.privData = (i : Nat) ∧ request.hdr.msg.ulFlag &&& vtopMsgFlgSync ≠ 0
  queued : ∀ i request timeout, s.sender c = .running i request (.polling timeout) →
    s.requests c = some request
  answered : ∀ i, (s.sender c).owns = some i → (s.mng.slot i).enState = .active →
    ∃ m, (c, m) ∈ s.replies

theorem syncInner_isSync (pMsg : MsgData) (msgID : MsgId) (rspHandle : Int) :
    (syncInner pMsg msgID rspHandle).hdr.msg.ulFlag &&& vtopMsgFlgSync ≠ 0 := by
  change (0 ||| vtopMsgFlgSync ||| vtopMsgFlgP2P ||| vtopMsgFlgDscSnd) &&& vtopMsgFlgSync ≠ 0
  decide

/-- A call that has returned. -/
theorem Asked.of_returned {c : Nat} {s : SynSys} {msgID : MsgId}
    {result : Except MsgErr Response} (hsender : s.sender c = .returned msgID result) :
    Asked c s := by
  have hnot : ∀ i request phase, s.sender c ≠ .running i request phase := by
    intro i request phase h
    rw [hsender] at h
    cases h
  refine ⟨fun i request phase h => absurd h (hnot i request phase),
    fun i request timeout h => absurd h (hnot i request _), ?_⟩
  intro i hown
  rw [hsender] at hown
  cases hown

/-- A call that does not move. -/
theorem Asked.still {c : Nat} {s s' : SynSys} (hs : Asked c s)
    (hsender : s'.sender c = s.sender c) (hrequests : s'.requests c = s.requests c)
    (hanswered : ∀ i, (s.sender c).owns = some i → (s'.mng.slot i).enState = .active →
      ∃ m, (c, m) ∈ s'.replies) : Asked c s' where
  privData := by
    rw [hsender]
    exact hs.privData
  queued := by
    rw [hsender, hrequests]
    exact hs.queued
  answered := by
    rw [hsender]
    exact hanswered

/-- A call that goes on with its slot. -/
theorem Asked.goOn {c : Nat} {s s' : SynSys} (hs : Asked c s) {i : Fin maxMsgRspNum}
    {request : MsgData} {phase phase' : Phase} (hbefore : s.sender c = .running i request phase)
    (hsender : s'.sender c = .running i request phase')
    (hqueued : ∀ timeout, phase' = .polling timeout → s'.requests c = some request)
    (hmng : s'.mng = s.mng) (hreplies : s'.replies = s.replies) : Asked c s' := by
  refine ⟨?_, ?_, ?_⟩
  · intro j request' phase'' h
    rw [hsender] at h
    cases h
    exact hs.privData i request phase hbefore
  · intro j request' timeout h
    rw [hsender] at h
    cases h
    exact hqueued timeout rfl
  · intro j hown hactive
    rw [hsender] at hown
    cases hown
    rw [hmng] at hactive
    rw [hreplies]
    exact hs.answered i (by rw [hbefore]; rfl) hactive

theorem Asked.step {c : Nat} {s s' : SynSys} (hs : Asked c s) (hseen : Seen c s s') :
    Asked c s' := by
  cases hseen with
  | apart hsender hrequests hslot hreplies =>
      apply hs.still hsender hrequests
      intro i hown hactive
      rw [hslot i hown] at hactive
      obtain ⟨m, hm⟩ := hs.answered i hown hactive
      exact ⟨m, hreplies hm⟩
  | refused msgID hready hsender => exact .of_returned hsender
  | started i pMsg msgID timeout hready hsender hidle =>
      refine ⟨?_, ?_, ?_⟩
      · intro j request phase h
        rw [hsender] at h
        cases h
        exact ⟨rfl, syncInner_isSync _ _ _⟩
      · intro j request timeout' h
        rw [hsender] at h
        cases h
      · intro j hown hactive
        rw [hsender] at hown
        cases hown
        rw [hidle] at hactive
        cases hactive
  | queued i request timeout hbefore hsender hrequests hmng hreplies =>
      exact hs.goOn hbefore hsender (fun _ _ => hrequests) hmng hreplies
  | moved i request phase phase' hbefore hphase hsender hmng hreplies =>
      apply hs.goOn hbefore hsender _ hmng hreplies
      -- no call goes back to waiting
      rintro timeout rfl
      cases hphase
  | closed i request result hbefore hsender => exact .of_returned hsender
  | answered i hown hidle hsender hrequests hreplied =>
      exact hs.still hsender hrequests (fun _ _ _ => hreplied)

theorem asked_initial (c : Nat) : Asked c initial where
  privData := fun _ _ _ h => by cases h
  queued := fun _ _ _ h => by cases h
  answered := fun _ h => by cases h

theorem asked_of_reach {c : Nat} {s : SynSys} (hreach : machine.ReachWhen (Undisturbed c) s) :
    Owned s ∧ Asked c s := by
  refine hreach.invariant (I := fun s => Owned s ∧ Asked c s) ?_ ?_
  · rintro s rfl
    exact ⟨owned_initial, asked_initial c⟩
  · intro s a s' hs hguard hstep
    have hcases := step_cases hs.1.inited hstep
    exact ⟨hs.1.step hcases, hs.2.step (seen_of_step hs.1 hguard hcases)⟩

/-- The slot of a call that waits for the first response is idle. -/
theorem Asked.idle {c : Nat} {s : SynSys} (howned : Owned s) (hs : Asked c s)
    {i : Fin maxMsgRspNum} {request : MsgData} {phase : Phase}
    (hsender : s.sender c = .running i request phase) (hfirst : ∀ m, (c, m) ∉ s.replies) :
    (s.mng.slot i).enState = .idle := by
  have hown : (s.sender c).owns = some i := by rw [hsender]; rfl
  cases hstate : (s.mng.slot i).enState with
  | free => exact absurd hstate (howned.nonFree c i hown)
  | idle => rfl
  | active =>
      obtain ⟨m, hm⟩ := hs.answered i hown hstate
      exact absurd hm (hfirst m)

/-! ## After it -/

/-- The result of a call whose response was `m`. -/
def Delivers (m : MsgData) (result : Except MsgErr Response) : Prop :=
  result = .error .nomem ∨ ∃ resp, result = .ok resp ∧ resp.msg.content = m.content

/-- The response `m` is in the slot of the call, or has been copied out of it. -/
def Kept (mng : RspMng) (m : MsgData) : Sender → Prop
  | .running i _ (.polling _) | .running i _ .copying =>
      (mng.slot i).enState = .active ∧ (mng.read i).content = m.content
  | .running _ _ (.closing result) | .returned _ result => Delivers m result
  | _ => False

/-- Only the slot of the call matters. -/
theorem Kept.congr {mng mng' : RspMng} {m : MsgData} {sender : Sender}
    (hslot : ∀ i, sender.owns = some i → mng'.slot i = mng.slot i)
    (hkept : Kept mng m sender) : Kept mng' m sender := by
  cases sender with
  | ready => exact hkept
  | returned msgID result => exact hkept
  | running i request phase =>
      have hsame := hslot i rfl
      cases phase with
      | queueing timeout => exact hkept
      | closing result => exact hkept
      | polling timeout =>
          simp only [Kept, RspMng.read, hsame] at hkept ⊢
          exact hkept
      | copying =>
          simp only [Kept, RspMng.read, hsame] at hkept ⊢
          exact hkept

/-- A call that goes on does so with the response in its slot. -/
theorem Kept.phase {s : SynSys} {m request : MsgData} {i : Fin maxMsgRspNum}
    {phase phase' : Phase} (hkept : Kept s.mng m (.running i request phase))
    (hphase : PhaseStep s i phase phase') : Kept s.mng m (.running i request phase') := by
  cases hphase with
  | unqueued timeout e => exact absurd hkept id
  | found timeout hactive => exact hkept
  | gaveUp timeout hempty => exact absurd hkept.1 hempty
  | noCopy => exact Or.inl rfl
  | copied => exact Or.inr ⟨_, rfl, (content_respCopy _).trans hkept.2⟩

/-- When the slot of the call is idle, the response has left it. -/
theorem Kept.of_idle {mng mng' : RspMng} {m : MsgData} {sender : Sender}
    {i : Fin maxMsgRspNum} (hkept : Kept mng m sender) (hown : sender.owns = some i)
    (hidle : (mng.slot i).enState = .idle) : Kept mng' m sender := by
  have hnot : (mng.slot i).enState ≠ .active := by
    rw [hidle]
    intro h
    cases h
  cases sender with
  | ready => cases hown
  | returned msgID result => cases hown
  | running j request phase =>
      cases hown
      cases phase with
      | queueing timeout => exact hkept
      | closing result => exact hkept
      | polling timeout => exact absurd hkept.1 hnot
      | copying => exact absurd hkept.1 hnot

theorem Kept.step {c : Nat} {s s' : SynSys} {m : MsgData} (hkept : Kept s.mng m (s.sender c))
    (hseen : Seen c s s') : Kept s'.mng m (s'.sender c) := by
  cases hseen with
  | apart hsender hrequests hslot hreplies =>
      rw [hsender]
      exact hkept.congr hslot
  | refused msgID hready hsender =>
      rw [hready] at hkept
      exact absurd hkept id
  | started i pMsg msgID timeout hready hsender hidle =>
      rw [hready] at hkept
      exact absurd hkept id
  | queued i request timeout hbefore hsender hrequests hmng hreplies =>
      rw [hbefore] at hkept
      exact absurd hkept id
  | moved i request phase phase' hbefore hphase hsender hmng hreplies =>
      rw [hbefore] at hkept
      rw [hsender, hmng]
      exact hkept.phase hphase
  | closed i request result hbefore hsender =>
      rw [hbefore] at hkept
      rw [hsender]
      exact hkept
  | answered i hown hidle hsender hrequests hreplied =>
      rw [hsender]
      exact hkept.of_idle hown hidle

/-- However the run goes on, the call keeps the response. -/
theorem Kept.of_reach {c : Nat} {s s' : SynSys} {m : MsgData} (howned : Owned s)
    (hkept : Kept s.mng m (s.sender c))
    (hreach : (machine.resume s).ReachWhen (Undisturbed c) s') :
    Kept s'.mng m (s'.sender c) := by
  have hs : Owned s' ∧ Kept s'.mng m (s'.sender c) := by
    refine hreach.invariant (I := fun s' => Owned s' ∧ Kept s'.mng m (s'.sender c)) ?_ ?_
    · rintro s' rfl
      exact ⟨howned, hkept⟩
    · intro s₁ a s₂ hs hguard hstep
      have hcases := step_cases hs.1.inited hstep
      exact ⟨hs.1.step hcases, hs.2.step (seen_of_step hs.1 hguard hcases)⟩
  exact hs.2

/-- A call that finds the response can return it. -/
theorem exists_return {c : Nat} {s : SynSys} {i : Fin maxMsgRspNum} {request : MsgData}
    {timeout : Int} (hsender : s.sender c = .running i request (.polling timeout))
    (hactive : (s.mng.slot i).enState = .active) :
    ∃ s' msgID resp, machine.run s [.poll c false, .copy c true, .delete c] = some s' ∧
      s'.sender c = .returned msgID (.ok resp) := by
  set result : Except MsgErr Response := .ok ⟨respCopy (s.mng.read i), s.origin i⟩
    with hresult
  have hpoll : s.step (.poll c false) = some (s.move c (.running i request .copying)) := by
    simp only [step, hsender, RspMng.getData_coe, hactive, if_true]
  obtain ⟨s₂, hcopy, hsender₂⟩ : ∃ s₂, (s.move c (.running i request .copying)).step
      (.copy c true) = some s₂ ∧ s₂.sender c = .running i request (.closing result) := by
    simp only [step, sender_move_self, if_true]
    exact ⟨_, rfl, sender_move_self _ _ _⟩
  obtain ⟨s₃, hdelete, hsender₃⟩ : ∃ s₃, s₂.step (.delete c) = some s₃ ∧
      s₃.sender c = .returned request.hdr.msg.msgID result := by
    simp only [step, hsender₂]
    exact ⟨_, rfl, sender_move_self _ _ _⟩
  refine ⟨s₃, request.hdr.msg.msgID, _, ?_, hsender₃⟩
  simp only [Machine.run, machine, hpoll, hcopy, hdelete]

/-! ## The round trip -/

theorem respInner_len (pMsg pMsgResp : MsgData) (msgID : MsgId) :
    (respInner pMsg pMsgResp msgID).hdr.len = pMsgResp.hdr.len := rfl

/-- The checks of `MSG_RSPMNG_PutData` for a handle in range. -/
theorem putCheck_coe {m : RspMng} (hinit : m.inited = true) (i : Fin maxMsgRspNum)
    (pInnerMsg : MsgData) :
    m.putCheck (i : Nat) pInnerMsg =
      if maxMsgRspSize < pInnerMsg.hdr.len then .error .msgSize else .ok i := by
  simp [RspMng.putCheck, hinit]

/-- A response that is too long for the slot is refused. -/
theorem putData_tooLong {m : RspMng} (hinit : m.inited = true) (i : Fin maxMsgRspNum)
    {pInnerMsg : MsgData} (hlen : maxMsgRspSize < pInnerMsg.hdr.len) :
    m.putData (i : Nat) pInnerMsg = (.err .msgSize, m) := by
  rw [RspMng.putData_eq, putCheck_coe hinit, if_pos hlen]

/-- The first response to a waiting call, when it fits the slot. -/
theorem reply_stored {c d : Nat} {s : SynSys} {i : Fin maxMsgRspNum}
    {request pMsgResp : MsgData} {timeout : Int} (howned : Owned s) (hs : Asked c s)
    (hsender : s.sender c = .running i request (.polling timeout))
    (hfirst : ∀ m, (c, m) ∉ s.replies) (hresponder : s.responder d = none)
    (hbody : checkMsgBody pMsgResp vtopMsgMaxMsgSize = none)
    (hlen : pMsgResp.hdr.len ≤ maxMsgRspSize) :
    s.step (.reply d c pMsgResp) =
      some ((s.replied c (respInner request pMsgResp s.counterMsgId)).store c i
        (respInner request pMsgResp s.counterMsgId)) := by
  obtain ⟨hpriv, hsync⟩ := hs.privData i request _ hsender
  have hrequest := hs.queued i request timeout hsender
  have hidle := hs.idle howned hsender hfirst
  have hcheck : s.mng.putCheck (respInner request pMsgResp s.counterMsgId).hdr.privData
      (respInner request pMsgResp s.counterMsgId) = .ok i := by
    change s.mng.putCheck request.hdr.privData _ = _
    rw [hpriv, putCheck_coe howned.inited, respInner_len, if_neg (Nat.not_lt.mpr hlen)]
  simp only [step, hresponder, hrequest, hsync, if_false, hbody, Option.isSome_none,
    Bool.false_eq_true, hcheck, RspMng.putDataLocked, hidle, if_true]

/-- In every run in which nothing else is stored in the slot that a call owns, the first
response to its request comes back to it exactly when it fits the slot. -/
theorem roundTrips_iff (s : SynSys) (c d : Nat)
    (hreach : machine.ReachWhen (Undisturbed c) s) (i : Fin maxMsgRspNum) (request : MsgData)
    (timeout : Int) (hsender : s.sender c = .running i request (.polling timeout))
    (hfirst : ∀ m, (c, m) ∉ s.replies) (hresponder : s.responder d = none)
    (pMsgResp : MsgData) (hbody : checkMsgBody pMsgResp vtopMsgMaxMsgSize = none) :
    RoundTrips s d c request pMsgResp ↔ pMsgResp.hdr.len ≤ maxMsgRspSize := by
  obtain ⟨howned, hs⟩ := asked_of_reach hreach
  have hpriv := (hs.privData i request _ hsender).1
  constructor
  · intro htrip
    by_contra hlen
    have haccepted := htrip.accepted
    -- the response is as long in the slot as it was sent
    have htoo : maxMsgRspSize < (respInner request pMsgResp s.counterMsgId).hdr.len := by
      rw [respInner_len]
      exact Nat.not_le.mp hlen
    rw [hpriv, putData_tooLong howned.inited i htoo] at haccepted
    cases haccepted
  · intro hlen
    set m := respInner request pMsgResp s.counterMsgId with hm
    have hstep := reply_stored howned hs hsender hfirst hresponder hbody hlen
    rw [← hm] at hstep
    have howned' := howned.step (step_cases howned.inited hstep)
    have hactive : (((s.replied c m).store c i m).mng.slot i).enState = .active := by
      rw [state_store, if_pos rfl]
    refine ⟨?_, _, hstep, exists_return hsender hactive, ?_⟩
    · rw [hpriv, RspMng.putData_eq, putCheck_coe howned.inited, respInner_len,
        if_neg (Nat.not_lt.mpr hlen)]
    · intro s'' hreach' msgID result hreturned
      -- from here on nothing else is stored in the slot
      have hkept : Kept ((s.replied c m).store c i m).mng m
          (((s.replied c m).store c i m).sender c) := by
        change Kept _ m (s.sender c)
        rw [hsender]
        exact ⟨hactive, RspMng.content_read_store s.mng i m⟩
      have hresult := hkept.of_reach howned' hreach'
      rw [hreturned] at hresult
      rcases hresult with hnomem | ⟨resp, hok, hcontent⟩
      · exact Or.inl hnomem
      · exact Or.inr ⟨resp, hok, .of_content hcontent⟩

/-! ## Schedules -/

theorem undisturbed_of_storesNothing (c : Nat) (s : SynSys) (a : SynAct)
    (hpass : storesNothing s a = true) : Undisturbed c s a := by
  cases a with
  | reply d c' pMsgResp => cases hpass
  | tail d => cases hpass
  | _ => trivial

/-- A message with a body of 513 bytes. -/
def longMsg : MsgData :=
  { blankMsg with
    hdr := { blankMsg.hdr with
      msg := { blankMsg.hdr.msg with ulMsgLen := 513, pMsgBody := .ext 0 } } }

/-- The first call waits for the response to its request. -/
theorem requested_waits : ∃ request,
    requested.sender 0 = .running 0 request (.polling (-1)) ∧ requested.replies = [] ∧
      requested.responder 0 = none := by
  set_option maxRecDepth 8000 in
  exact ⟨_, rfl, rfl, rfl⟩

theorem requested_undisturbed : machine.ReachWhen (Undisturbed 0) requested :=
  Machine.reachWhen_of_runWhen (undisturbed_of_storesNothing 0) _ (.init rfl)
    (Option.some_get _).symm

/-- A message with the three bytes `1`, `2` and `3`. -/
def shortMsg : MsgData where
  hdr := { blankMsg.hdr with
    msg := { blankMsg.hdr.msg with ulMsgLen := 3, pMsgBody := .ext 0 } }
  body i := (i + 1).toUInt8

theorem shortMsg_roundTrips : shortMsg.content.2 = [1, 2, 3] ∧ ∃ request,
    requested.sender 0 = .running 0 request (.polling (-1)) ∧
      RoundTrips requested 0 0 request shortMsg := by
  refine ⟨by decide, ?_⟩
  obtain ⟨request, hsender, hreplies, hresponder⟩ := requested_waits
  refine ⟨request, hsender, (roundTrips_iff requested 0 0 requested_undisturbed 0 request (-1)
    hsender ?_ hresponder shortMsg (by decide)).mpr (by decide)⟩
  rw [hreplies]
  exact fun _ => List.not_mem_nil

/-- A response of 513 bytes is accepted by `VTOP_MSG_SendResp` and refused by
`MSG_RSPMNG_PutData`. -/
theorem put_refuses_513 : machine.Reach requested ∧
    checkMsgBody longMsg vtopMsgMaxMsgSize = none ∧ longMsg.hdr.len = 513 ∧
    ∃ request, requested.sender 0 = .running 0 request (.polling (-1)) ∧
      requested.replies = [] ∧
      requested.mng.putData request.hdr.privData
        (respInner request longMsg requested.counterMsgId) = (.err .msgSize, requested.mng) ∧
      ¬ RoundTrips requested 0 0 request longMsg := by
  refine ⟨requested_undisturbed.mono (fun _ _ _ => trivial), by decide, by decide, ?_⟩
  obtain ⟨request, hsender, hreplies, -⟩ := requested_waits
  obtain ⟨howned, hs⟩ := asked_of_reach requested_undisturbed
  have hput : requested.mng.putData request.hdr.privData
      (respInner request longMsg requested.counterMsgId) = (.err .msgSize, requested.mng) := by
    rw [(hs.privData 0 request _ hsender).1]
    exact putData_tooLong howned.inited 0 (by rw [respInner_len]; decide)
  refine ⟨request, hsender, hreplies, hput, ?_⟩
  intro htrip
  have haccepted := htrip.accepted
  rw [hput] at haccepted
  cases haccepted

end SynSys
end Msg
end AndroidLinux
