import AndroidLinux.Fifo.Conservation

/-!
# What a message queue guarantees to its threads

The consequences of the invariant for the interface, and the calls that time out: a run
in which a call of `HI_MsgClaim` or `HI_MsgReceive` returns a null pointer is, without
the steps of this call, a run to the same state.
-/

namespace AndroidLinux
namespace Fifo

open Lib

variable {ι : Type*} [DecidableEq ι]

/-- The thread is inside `HI_MsgClaim` or `HI_MsgReceive` and has not got the semaphore. -/
def Pc.waiting : Pc → Prop
  | .semWait _ => True
  | .semTryWait _ _ _ => True
  | .returning UsrMessage => UsrMessage = 0
  | _ => False

namespace Run

variable {cfg : Config} {s s' : Run ι} {t : ι}

@[simp] theorem setPc_setPc (s : Run ι) (t : ι) (p p' : Pc) :
    (s.setPc t p).setPc t p' = s.setPc t p' := by
  simp [setPc]

@[simp] theorem setPc_pc (s : Run ι) (t : ι) (p : Pc) : (s.setPc t p).pc t = p := by
  simp [setPc]

theorem setPc_eq_self {p : Pc} (h : s.pc t = p) : s.setPc t p = s := by
  subst h
  simp [setPc]

theorem setPc_comm (s : Run ι) {u : ι} (hne : u ≠ t) (p p' : Pc) :
    (s.setPc t p).setPc u p' = (s.setPc u p').setPc t p := by
  simp only [setPc, Function.update_comm hne.symm]

theorem setPc_pc_of_ne (s : Run ι) {u : ι} (hne : u ≠ t) (p : Pc) :
    (s.setPc t p).pc u = s.pc u := by
  simp [setPc, hne]

/-- The steps of a thread do not depend on where another one is. -/
theorem step_setPc (s : Run ι) {a : Act ι} (hne : a.thread ≠ t) (p : Pc) :
    (s.setPc t p).step a = (s.step a).map (·.setPc t p) := by
  cases a with
  | call u c =>
      have hne : u ≠ t := hne
      simp only [step, Run.call, setPc_pc_of_ne s hne]
      by_cases hidle : s.pc u = .idle
      · simp only [hidle, ne_eq, not_true_eq_false, if_false]
        cases c.given with
        | none => simp only [Option.map_some, setPc_comm s hne]
        | some m =>
            by_cases hm : m ∈ s.held u
            · simp [setPc, hm, Function.update_comm hne.symm]
            · simp [setPc, hm]
      · simp only [ne_eq, hidle, not_false_eq_true, if_true, Option.map_none]
  | advance u =>
      have hne : u ≠ t := hne
      simp only [step, Run.advance, setPc_pc_of_ne s hne]
      cases hpc : s.pc u with
      | idle => rfl
      | fault => rfl
      | semWait k =>
          by_cases hvalue : (s.q.half k).messageHalfSem = 0
          · simp [setPc, hvalue]
          · simp [setPc, hvalue, Function.update_comm hne.symm]
      | semTryWait k timeOut timeOutMs =>
          by_cases hvalue : (s.q.half k).messageHalfSem = 0
          · simp [setPc, hvalue, Function.update_comm hne.symm]
          · simp [setPc, hvalue, Function.update_comm hne.symm]
      | lockRemove k =>
          cases hsec : s.q.removeSection k with
          | none => simp [setPc, hsec, Function.update_comm hne.symm]
          | some r => simp [setPc, hsec, Function.update_comm hne.symm]
      | returning m => simp [setPc, Function.update_comm hne.symm]
      | lockAdd k m =>
          cases hsec : s.q.addSection k (m - messageHdrSize) with
          | none => simp [setPc, hsec, Function.update_comm hne.symm]
          | some q => simp [setPc, hsec, Function.update_comm hne.symm]
      | semPost k => simp [setPc, Function.update_comm hne.symm]

/-- A step leaves the other threads where they are. -/
theorem step_pc_of_ne {a : Act ι} (hstep : s.step a = some s') (hne : a.thread ≠ t) :
    s'.pc t = s.pc t := by
  have hsame := step_setPc s hne (s.pc t)
  rw [setPc_eq_self rfl, hstep] at hsame
  have heq : s' = s'.setPc t (s.pc t) := Option.some.inj hsame
  rw [heq, setPc_pc]

/-- A step of a thread after which it waits has changed nothing but its place, and it was
waiting before. -/
theorem advance_waiting (hreach : (machine ι cfg).Reach s) (hstep : s.advance t = some s')
    (hwait : (s'.pc t).waiting) : (s.pc t).waiting ∧ s' = s.setPc t (s'.pc t) := by
  obtain ⟨L, own, h⟩ := books_of_reach hreach
  unfold Run.advance at hstep
  split at hstep
  · cases hstep
  · cases hstep
  · rename_i k hpc
    dsimp only at hstep
    split at hstep
    · cases hstep
    · obtain rfl := Option.some.inj hstep
      simp [Pc.waiting] at hwait
  · rename_i k timeOut timeOutMs hpc
    dsimp only at hstep
    split at hstep
    · obtain rfl := Option.some.inj hstep
      exact ⟨by rw [hpc]; trivial, by rw [setPc_pc]⟩
    · obtain rfl := Option.some.inj hstep
      simp [Pc.waiting] at hwait
  · -- the element of a thread that has got the semaphore is not a null pointer
    rename_i k hpc
    obtain ⟨e, xs, q', hL, hq', -⟩ := h.remove hpc
    rw [hq'] at hstep
    obtain rfl := Option.some.inj hstep
    have hmem : s.At L e (.half k) := by
      rw [At, hL]
      exact List.mem_cons_self
    simp only [setPc_pc, Pc.waiting] at hwait
    exact absurd hwait (cfg.message_ne_zero (h.mem_elements hmem))
  · obtain rfl := Option.some.inj hstep
    simp [Pc.waiting] at hwait
  · rename_i k m hpc
    obtain ⟨q', hq', -⟩ := h.add hpc
    dsimp only at hstep
    rw [hq'] at hstep
    obtain rfl := Option.some.inj hstep
    simp [Pc.waiting] at hwait
  · obtain rfl := Option.some.inj hstep
    simp [Pc.waiting] at hwait

/-- While a thread waits, the run is the same without its steps. -/
theorem run_waiting (hidle : s.pc t = .idle) {p : Pc}
    (hs' : (machine ι cfg).Reach (s.setPc t p)) (rest : List (Act ι))
    (hrest : ∀ a ∈ rest, a.thread = t → a = .advance t)
    (hrun : (machine ι cfg).run (s.setPc t p) rest = some s') (hwait : (s'.pc t).waiting) :
    (machine ι cfg).run s (rest.filter (fun a => a.thread ≠ t)) = some (s'.setPc t .idle) := by
  induction rest using List.reverseRecOn generalizing s' with
  | nil =>
      obtain rfl := Option.some.inj hrun
      rw [setPc_setPc, setPc_eq_self hidle]
      rfl
  | append_singleton rest a ih =>
      rw [Machine.run_concat] at hrun
      obtain ⟨mid, hmid, hstep⟩ := Option.bind_eq_some_iff.mp hrun
      have hrest' : ∀ b ∈ rest, b.thread = t → b = .advance t :=
        fun b hb => hrest b (List.mem_append_left [a] hb)
      by_cases ha : a.thread = t
      · obtain rfl := hrest a (by simp) ha
        obtain ⟨hw, heq⟩ := advance_waiting (hs'.run rest hmid) hstep hwait
        rw [List.filter_append, List.filter_singleton]
        simp only [ne_eq, ha, not_true_eq_false, decide_false, Bool.cond_false, List.append_nil]
        rw [heq, setPc_setPc]
        exact ih hrest' hmid hw
      · have hsame : s'.pc t = mid.pc t := step_pc_of_ne hstep ha
        rw [List.filter_append, List.filter_singleton]
        simp only [ne_eq, ha, not_false_eq_true, decide_true, Bool.cond_true]
        rw [Machine.run_concat, ih hrest' hmid (hsame ▸ hwait), Option.bind_some]
        change (mid.setPc t .idle).step a = _
        rw [step_setPc mid ha]
        have hstep : mid.step a = some s' := hstep
        rw [hstep]
        rfl

/-- A call that is about to return a null pointer has left no trace: without its steps
the run leads to the same state. -/
theorem run_timedOut (hreach : (machine ι cfg).Reach s) (hidle : s.pc t = .idle) {c : Call}
    (hgiven : c.given = none) (rest : List (Act ι))
    (hrest : ∀ a ∈ rest, a.thread = t → a = .advance t)
    (hrun : (machine ι cfg).run s (.call t c :: rest) = some s') (hout : s'.pc t = .returning 0) :
    (machine ι cfg).run s (rest.filter (fun a => a.thread ≠ t)) = some (s'.setPc t .idle) ∧
      (machine ι cfg).step s' (.advance t) = some (s'.setPc t .idle) := by
  have hcall : (machine ι cfg).step s (.call t c) = some (s.setPc t c.entry) := by
    change Run.call s t c = _
    rw [Run.call, if_neg (not_not.mpr hidle), hgiven]
  rw [Machine.run, hcall] at hrun
  refine ⟨?_, ?_⟩
  · exact run_waiting hidle (hreach.step trivial hcall) rest hrest hrun
      (by rw [hout]; rfl)
  · change Run.advance s' t = _
    simp [Run.advance, hout]

/-! ## The guarantees -/

/-- What a half holds: the headers met from its head on. -/
def contents (cfg : Config) (s : Run ι) (k : Half) : List UInt32 :=
  follow 0 s.q.messageHdrNext cfg.Messages.toNat (s.q.half k).messageHalfHead

/-- No element is lost or doubled, no thread finds an empty half, messages are received in
the order in which they are sent, and `HI_MsgGetAmount` promises no more than there is. -/
structure Conserves (cfg : Config) (s : Run ι) : Prop where
  onePlace : ∀ e ∈ cfg.elements, ∃! p, s.At (s.contents cfg) e p
  known : ∀ e p, s.At (s.contents cfg) e p → e ∈ cfg.elements
  lists : ∀ k, Chain 0 s.q.messageHdrNext (s.q.half k).messageHalfHead (s.contents cfg k) ∧
    (s.contents cfg k).Nodup
  held : ∀ t, (s.held t).Nodup
  found : ∀ t k, s.pc t = .lockRemove k → (s.q.half k).messageHalfHead ≠ 0
  order : s.sent = s.received ++ s.contents cfg .queue
  amount : s.q.hiMsgGetAmount ≤ (s.contents cfg .queue).length

omit [DecidableEq ι] in
/-- The list of the invariant is what the half holds. -/
theorem Books.contents_eq {L : Half → List UInt32} {own : UInt32 → Place ι}
    (h : s.Books cfg L own) : s.contents cfg = L := by
  funext k
  refine (h.holds k).chain.follow_eq ?_
  rw [← cfg.length_elements]
  refine ((h.holds k).nodup.subperm ?_).length_le
  intro e he
  exact h.mem_elements (x := .half k) he

omit [DecidableEq ι] in
theorem Books.conserves {L : Half → List UInt32} {own : UInt32 → Place ι}
    (h : s.Books cfg L own) : s.Conserves cfg where
  onePlace := by
    intro e he
    rw [h.contents_eq]
    exact ⟨own e, (h.place e _).mpr ⟨he, rfl⟩, fun p hp => ((h.place e p).mp hp).2.symm⟩
  known := by
    rw [h.contents_eq]
    exact fun e p hp => h.mem_elements hp
  lists := by
    rw [h.contents_eq]
    exact fun k => ⟨(h.holds k).chain, (h.holds k).nodup⟩
  held := h.nodup
  found := by
    intro t k hpc hzero
    exact h.counted.ne_nil hpc ((h.holds k).chain.eq_nil_iff.mp hzero)
  order := by
    rw [h.contents_eq]
    exact h.order
  amount := by
    rw [h.contents_eq]
    obtain ⟨takers, givers, -, -, hlen⟩ := h.counted .queue
    have hvalue : (s.q.half .queue).messageHalfSem ≤ (L .queue).length := by omega
    exact Int.ofNat_le.mpr hvalue

/-- Elements are conserved and messages keep their order in every state that any number
of threads reach, and a call that times out changes nothing. -/
theorem conserves_of_reach (cfg : Config) :
    (∀ s : Run ι, (machine ι cfg).Reach s → s.Conserves cfg) ∧
      ∀ (s s' : Run ι) (t : ι) (c : Call) (rest : List (Act ι)), (machine ι cfg).Reach s →
        s.pc t = .idle → c.given = none → (∀ a ∈ rest, a.thread = t → a = .advance t) →
        (machine ι cfg).run s (.call t c :: rest) = some s' → s'.pc t = .returning 0 →
        (machine ι cfg).run s (rest.filter (fun a => a.thread ≠ t)) = some (s'.setPc t .idle) ∧
          (machine ι cfg).step s' (.advance t) = some (s'.setPc t .idle) := by
  refine ⟨fun s hreach => ?_, ?_⟩
  · obtain ⟨L, own, h⟩ := books_of_reach hreach
    exact h.conserves
  · intro s s' t c rest hreach hidle hgiven hrest hrun hout
    exact run_timedOut hreach hidle hgiven rest hrest hrun hout

/-- Two elements of eight bytes. -/
def sampleConfig : Config where
  MessageSize := 8
  Messages := 2
  memory := 0x1000
  messages_pos := by decide
  fits := by decide
  memory_ne := by decide
  area := by decide

/-- Memory that is all zero. -/
def sampleArea : MessageQueue :=
  ⟨⟨0, 0, 0⟩, ⟨0, 0, 0⟩, 0, fun _ => 0⟩

/-- A new queue and two threads. -/
def sampleRun : Run Bool where
  q := sampleArea.messageInitGeneric 0x1000 8 2
  pc _ := .idle
  held _ := []
  sent := []
  received := []

/-- One thread claims both elements and sends them, and the other one receives the first. -/
def twoSent : List (Act Bool) :=
  .call false (.claim 0) :: List.replicate 3 (.advance false) ++
    .call false (.send 0x1004) :: List.replicate 2 (.advance false) ++
    .call false (.claim 5) :: List.replicate 3 (.advance false) ++
    .call true (.receive 0) :: List.replicate 3 (.advance true) ++
    .call false (.send 0x1010) :: List.replicate 2 (.advance false)

/-- The thread with the first message waits 5 ms for a free element in vain, while the
other one receives the second message. -/
def receivedMeanwhile : List (Act Bool) :=
  [.call true (.claim 5), .call false (.receive 0), .advance false, .advance true,
    .advance false, .advance false]

theorem receivedMeanwhile_conserves :
    ∃ s s', (machine Bool sampleConfig).run sampleRun twoSent = some s ∧
      (machine Bool sampleConfig).run s receivedMeanwhile = some s' ∧
      s'.Conserves sampleConfig ∧ s'.sent = [0x1000, 0x100c] ∧ s'.received = s'.sent ∧
      s'.held true = [0x1004] ∧ s'.held false = [0x1010] ∧
      (machine Bool sampleConfig).run s
          [.call false (.receive 0), .advance false, .advance false, .advance false] =
        some (s'.setPc true .idle) := by
  have hinit : (machine Bool sampleConfig).Reach sampleRun :=
    .init ⟨⟨some sampleArea, rfl⟩, rfl, rfl, rfl, rfl⟩
  obtain ⟨hconserves, htimedOut⟩ := conserves_of_reach (ι := Bool) sampleConfig
  have htwo : (machine Bool sampleConfig).Reach _ := hinit.run twoSent rfl
  refine ⟨_, _, rfl, rfl, hconserves _ (htwo.run receivedMeanwhile rfl), rfl, rfl, rfl, rfl, ?_⟩
  refine (htimedOut _ _ true (.claim 5) receivedMeanwhile.tail htwo rfl rfl ?_ rfl rfl).1
  simp [receivedMeanwhile, Act.thread]

end Run
end Fifo
end AndroidLinux
