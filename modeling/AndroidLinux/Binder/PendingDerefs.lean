import AndroidLinux.Binder.CommandLoop

/-!
# Dereference requests of the driver

`pending` are the requests that the vectors hold and the loops have not come to.  Each
request is performed once or pending as long as a loop of `processPendingDerefs` is not
disturbed: the vector that it goes through does not grow, and the code that it calls
returns with `mIn` read to its end.  The vector is cleared after the loop, with everything
that was pushed meanwhile.
-/

namespace AndroidLinux
namespace Binder

open Lib

namespace IPCThread

def weakDone : Base → Nat
  | .weakDerefs i _ => i
  | _ => 0

def strongDone : Base → Nat
  | .strongDerefs i _ => i
  | _ => 0

/-- The requests that are still to be performed. -/
def pending (s : IPCThread) : List Deref :=
  (s.mPendingWeakDerefs.drop (weakDone s.base)).map .weak ++
    (s.mPendingStrongDerefs.drop (strongDone s.base)).map .strong

/-- Every request leads to one `decWeak` or `decStrong`, and none of these is made while
there are commands to read. -/
structure Exact (s : IPCThread) : Prop where
  once : s.derefs.Perm (s.performed ++ s.pending)
  timely : s.nested = [] → s.base ≠ .pool → s.mIn = []

/-- A step that does not disturb a loop of `processPendingDerefs`. -/
def Undisturbed (s : IPCThread) : Action → Prop
  | .read =>
      (∀ i n, s.base = .weakDerefs i n → Br.ofCode s.readInt32.1 ≠ some .decrefs) ∧
        ∀ i n, s.base = .strongDerefs i n → Br.ofCode s.readInt32.1 ≠ some .release
  | .ret => s.nested.length = 1 → s.base ≠ .pool → s.mIn = []
  | _ => True

/-! ## What a step does to the requests -/

/-- `t` has the loops and requests of `s`, and those that the command asks for. -/
structure Asks (cmd : Option Br) (s t : IPCThread) : Prop where
  base : t.base = s.base
  performed : t.performed = s.performed
  asked : ∃ ws ss : List UInt32, t.mPendingWeakDerefs = s.mPendingWeakDerefs ++ ws ∧
    t.mPendingStrongDerefs = s.mPendingStrongDerefs ++ ss ∧
      t.derefs = s.derefs ++ (ws.map .weak ++ ss.map .strong) ∧
        (cmd ≠ some .decrefs → ws = []) ∧ (cmd ≠ some .release → ss = [])

/-- Nothing is asked for. -/
theorem Asks.nothing {cmd : Option Br} {s t : IPCThread} (hbase : t.base = s.base)
    (hperformed : t.performed = s.performed)
    (hweak : t.mPendingWeakDerefs = s.mPendingWeakDerefs)
    (hstrong : t.mPendingStrongDerefs = s.mPendingStrongDerefs)
    (hderefs : t.derefs = s.derefs) : Asks cmd s t where
  base := hbase
  performed := hperformed
  asked := ⟨[], [], by rw [hweak, List.append_nil], by rw [hstrong, List.append_nil],
    by rw [hderefs, List.map_nil, List.map_nil, List.append_nil, List.append_nil],
    fun _ => rfl, fun _ => rfl⟩

theorem asks_executeCommand (s : IPCThread) (cmd : Option Br) :
    Asks cmd s (s.executeCommand cmd).2 := by
  have hsame : ∀ t : IPCThread, t.base = s.base → t.performed = s.performed →
      t.mPendingWeakDerefs = s.mPendingWeakDerefs →
        t.mPendingStrongDerefs = s.mPendingStrongDerefs → t.derefs = s.derefs →
          Asks cmd s t := fun _ h1 h2 h3 h4 h5 => .nothing h1 h2 h3 h4 h5
  cases cmd with
  | none => exact hsame _ rfl rfl rfl rfl rfl
  | some c =>
      cases c with
      | release =>
          exact ⟨rfl, rfl, [], _, (List.append_nil _).symm, rfl, rfl, fun _ => rfl,
            fun hne => absurd rfl hne⟩
      | decrefs =>
          refine ⟨rfl, rfl, _, [], rfl, (List.append_nil _).symm, ?_, fun hne => absurd rfl hne,
            fun _ => rfl⟩
          rw [List.map_nil, List.append_nil]
          rfl
      | transaction =>
          show Asks _ s (if s.mIn.length < 10 then (true, s)
            else (false, s.transactionCommand (s.mIn.take 10))).2
          split
          · exact hsame _ rfl rfl rfl rfl rfl
          · exact hsame _ rfl rfl rfl rfl rfl
      | _ => exact hsame _ rfl rfl rfl rfl rfl

theorem Asks.note {cmd : Option Br} {s t u : IPCThread} (h : Asks cmd s t) :
    Asks cmd s (u.note t) :=
  ⟨h.base, h.performed, h.asked⟩

theorem Asks.pop {cmd : Option Br} {s t : IPCThread} (h : Asks cmd s t) : Asks cmd s t.pop :=
  ⟨h.base, h.performed, h.asked⟩

theorem asks_response (s : IPCThread) (reply : Bool) (cmd : Option Br) :
    Asks cmd s (s.response reply cmd).2 := by
  have hsame : ∀ t : IPCThread, t.base = s.base → t.performed = s.performed →
      t.mPendingWeakDerefs = s.mPendingWeakDerefs →
        t.mPendingStrongDerefs = s.mPendingStrongDerefs → t.derefs = s.derefs →
          Asks cmd s t := fun _ h1 h2 h3 h4 h5 => .nothing h1 h2 h3 h4 h5
  cases cmd with
  | none => exact asks_executeCommand s none
  | some c =>
      cases c with
      | transactionComplete => exact hsame _ rfl rfl rfl rfl rfl
      | deadReply => exact hsame _ rfl rfl rfl rfl rfl
      | failedReply => exact hsame _ rfl rfl rfl rfl rfl
      | acquireResult => exact hsame _ rfl rfl rfl rfl rfl
      | reply =>
          unfold response
          dsimp only
          split
          · exact hsame _ rfl rfl rfl rfl rfl
          · split
            · dsimp only
              split
              · exact hsame _ rfl rfl rfl rfl rfl
              · exact hsame _ rfl rfl rfl rfl rfl
            · exact hsame _ rfl rfl rfl rfl rfl
      | _ => exact asks_executeCommand s _

theorem asks_readCommand (s : IPCThread) :
    Asks (Br.ofCode s.readInt32.1) s s.readCommand := by
  have h := asks_executeCommand s.readInt32.2 (Br.ofCode s.readInt32.1)
  exact .note ⟨h.base, h.performed, h.asked⟩

theorem asks_readResponse (s : IPCThread) (reply : Bool) :
    Asks (Br.ofCode s.readInt32.1) s (s.readResponse reply) := by
  have h := asks_response s.readInt32.2 reply (Br.ofCode s.readInt32.1)
  have hasks : Asks (Br.ofCode s.readInt32.1) s
      (s.readInt32.2.response reply (Br.ofCode s.readInt32.1)).2 :=
    ⟨h.base, h.performed, h.asked⟩
  unfold readResponse
  dsimp only
  split
  · exact hasks.pop.note
  · exact hasks.note

/-! ## Calls -/

/-- Below every `waitForResponse` is code that has called it. -/
def Called (nested : List Frame) : Prop :=
  ∀ r, nested.getLast? ≠ some (.waiting r)

theorem Called.tail {nested : List Frame} (h : Called nested) : Called nested.tail := by
  cases nested with
  | nil => exact h
  | cons f rest =>
      cases rest with
      | nil => exact fun r hr => (nomatch hr)
      | cons g rest => exact fun r hr => h r ((List.getLast?_cons_cons ..).trans hr)

theorem Called.push {nested : List Frame} (h : Called nested) {f : Frame}
    (hf : nested ≠ [] ∨ ∀ r, f ≠ .waiting r) : Called (f :: nested) := by
  cases nested with
  | nil =>
      rcases hf with hne | hf
      · exact absurd rfl hne
      · exact fun r hr => hf r (Option.some.inj hr)
  | cons g rest => exact fun r hr => h r ((List.getLast?_cons_cons ..).symm.trans hr)

theorem Called.ne_nil {reply : Bool} {rest : List Frame}
    (h : Called (.waiting reply :: rest)) : rest ≠ [] := by
  rintro rfl
  exact h reply rfl

/-- The calls of `t` are those of `s`, or one more that is not a `waitForResponse`. -/
def Calls (s t : IPCThread) : Prop :=
  t.nested = s.nested ∨ ∃ f, (∀ r, f ≠ .waiting r) ∧ t.nested = f :: s.nested

theorem calls_executeCommand (s : IPCThread) (cmd : Option Br) :
    Calls s (s.executeCommand cmd).2 := by
  cases cmd with
  | none => exact .inl rfl
  | some c =>
      cases c with
      | acquire => exact .inr ⟨.code _, fun _ hne => (nomatch hne), rfl⟩
      | increfs => exact .inr ⟨.code _, fun _ hne => (nomatch hne), rfl⟩
      | attemptAcquire => exact .inr ⟨.code _, fun _ hne => (nomatch hne), rfl⟩
      | deadBinder => exact .inr ⟨.code _, fun _ hne => (nomatch hne), rfl⟩
      | clearDeathNotificationDone => exact .inr ⟨.code _, fun _ hne => (nomatch hne), rfl⟩
      | transaction =>
          show Calls s (if s.mIn.length < 10 then (true, s)
            else (false, s.transactionCommand (s.mIn.take 10))).2
          split
          · exact .inl rfl
          · exact .inr ⟨.handler _, fun _ hne => (nomatch hne), rfl⟩
      | _ => exact .inl rfl

theorem calls_response (s : IPCThread) (reply : Bool) (cmd : Option Br) :
    Calls s (s.response reply cmd).2 := by
  cases cmd with
  | none => exact .inl rfl
  | some c =>
      cases c with
      | reply =>
          unfold response
          dsimp only
          split
          · exact .inl rfl
          · split
            · dsimp only
              split
              · exact .inl rfl
              · exact .inl rfl
            · exact .inl rfl
      | transactionComplete => exact .inl rfl
      | deadReply => exact .inl rfl
      | failedReply => exact .inl rfl
      | acquireResult => exact .inl rfl
      | _ => exact calls_executeCommand s _

/-- A command that is read outside of calls. -/
theorem called_readCommand {s : IPCThread} (h : Called s.nested) :
    Called s.readCommand.nested := by
  rcases calls_executeCommand s.readInt32.2 (Br.ofCode s.readInt32.1) with hsame | ⟨f, hf, hpush⟩
  · show Called (s.readInt32.2.executeCommand _).2.nested
    rw [hsame]
    exact h
  · show Called (s.readInt32.2.executeCommand _).2.nested
    rw [hpush]
    exact Called.push h (.inr hf)

/-- A command that is read by a `waitForResponse`. -/
theorem called_readResponse {s : IPCThread} (h : Called s.nested) {reply : Bool}
    {rest : List Frame} (hnested : s.nested = .waiting reply :: rest) :
    Called (s.readResponse reply).nested ∧ (s.readResponse reply).nested ≠ [] := by
  have hrest : rest ≠ [] := (hnested ▸ h).ne_nil
  have hcalls := calls_response s.readInt32.2 reply (Br.ofCode s.readInt32.1)
  unfold readResponse
  dsimp only
  generalize s.readInt32.2.response reply (Br.ofCode s.readInt32.1) = r at hcalls ⊢
  have hnested' : s.readInt32.2.nested = .waiting reply :: rest := hnested
  have hcalled : Called r.2.nested ∧ r.2.nested ≠ [] ∧ r.2.nested.tail ≠ [] := by
    rcases hcalls with hsame | ⟨f, hf, hpush⟩
    · rw [hsame, hnested']
      exact ⟨hnested ▸ h, List.cons_ne_nil _ _, hrest⟩
    · rw [hpush, hnested']
      exact ⟨Called.push (hnested ▸ h) (.inr hf), List.cons_ne_nil _ _, List.cons_ne_nil _ _⟩
  split
  · exact ⟨hcalled.1.tail, hcalled.2.2⟩
  · exact ⟨hcalled.1, hcalled.2.1⟩

/-! ## Runs -/

structure Inv (s : IPCThread) : Prop where
  exact : s.Exact
  weak : ∀ i n, s.base = .weakDerefs i n → i ≤ n ∧ n = s.mPendingWeakDerefs.length
  strong : ∀ i n, s.base = .strongDerefs i n → i ≤ n ∧ n = s.mPendingStrongDerefs.length
  called : Called s.nested

/-- The requests and loops are the same. -/
theorem Inv.same {s t : IPCThread} (h : s.Inv) (hasks : Asks none s t)
    (htimely : t.nested = [] → t.base ≠ .pool → t.mIn = [])
    (hcalled : Called t.nested) : t.Inv := by
  obtain ⟨hbase, hperformed, ws, ss, hweak, hstrong, hderefs, hws, hss⟩ := hasks
  obtain rfl := hws (fun hne => (nomatch hne))
  obtain rfl := hss (fun hne => (nomatch hne))
  rw [List.append_nil] at hweak hstrong
  rw [List.map_nil, List.map_nil, List.append_nil, List.append_nil] at hderefs
  refine ⟨⟨?_, htimely⟩, ?_, ?_, hcalled⟩
  · unfold pending
    rw [hbase, hperformed, hweak, hstrong, hderefs]
    exact h.exact.once
  · rw [hbase, hweak]
    exact h.weak
  · rw [hbase, hstrong]
    exact h.strong

/-- A command is read. -/
theorem Inv.read {s t : IPCThread} (h : s.Inv) {cmd : Option Br} (hasks : Asks cmd s t)
    (hcmd : (∀ i n, s.base = .weakDerefs i n → cmd ≠ some .decrefs) ∧
      ∀ i n, s.base = .strongDerefs i n → cmd ≠ some .release)
    (htimely : t.nested = [] → t.base ≠ .pool → t.mIn = [])
    (hcalled : Called t.nested) : t.Inv := by
  obtain ⟨hbase, hperformed, ws, ss, hweak, hstrong, hderefs, hws, hss⟩ := hasks
  have hweakLoop : ∀ i n, s.base = .weakDerefs i n → ws = [] :=
    fun i n hloop => hws (hcmd.1 i n hloop)
  have hstrongLoop : ∀ i n, s.base = .strongDerefs i n → ss = [] :=
    fun i n hloop => hss (hcmd.2 i n hloop)
  have hdropWeak : (s.mPendingWeakDerefs ++ ws).drop (weakDone s.base) =
      s.mPendingWeakDerefs.drop (weakDone s.base) ++ ws := by
    refine List.drop_append_of_le_length ?_
    cases hloop : s.base with
    | weakDerefs i n =>
        obtain ⟨hle, hn⟩ := h.weak i n hloop
        exact hle.trans hn.le
    | _ => exact Nat.zero_le _
  have hdropStrong : (s.mPendingStrongDerefs ++ ss).drop (strongDone s.base) =
      s.mPendingStrongDerefs.drop (strongDone s.base) ++ ss := by
    refine List.drop_append_of_le_length ?_
    cases hloop : s.base with
    | strongDerefs i n =>
        obtain ⟨hle, hn⟩ := h.strong i n hloop
        exact hle.trans hn.le
    | _ => exact Nat.zero_le _
  refine ⟨⟨?_, htimely⟩, fun i n hloop => ?_, fun i n hloop => ?_, hcalled⟩
  · have hpending :
        (s.pending ++ (ws.map Deref.weak ++ ss.map Deref.strong)).Perm t.pending := by
      unfold pending
      rw [hbase, hweak, hstrong, hdropWeak, hdropStrong, List.map_append, List.map_append]
      generalize (s.mPendingWeakDerefs.drop _).map Deref.weak = a
      generalize (s.mPendingStrongDerefs.drop _).map Deref.strong = b
      rw [List.append_assoc, List.append_assoc]
      refine List.Perm.append_left a ?_
      rw [← List.append_assoc, ← List.append_assoc]
      exact List.Perm.append_right _ List.perm_append_comm
    rw [hderefs, hperformed]
    refine (h.exact.once.append_right _).trans ?_
    rw [List.append_assoc]
    exact hpending.append_left _
  · rw [hbase] at hloop
    rw [hweak, hweakLoop i n hloop, List.append_nil]
    exact h.weak i n hloop
  · rw [hbase] at hloop
    rw [hstrong, hstrongLoop i n hloop, List.append_nil]
    exact h.strong i n hloop

theorem drop_eq_getD_cons {l : List UInt32} {i : Nat} (hlt : i < l.length) :
    l.drop i = l.getD i 0 :: l.drop (i + 1) := by
  rw [List.drop_eq_getElem_cons hlt, List.getD_eq_getElem?_getD, List.getElem?_eq_getElem hlt,
    Option.getD_some]

/-- A round of the loops. -/
theorem Inv.derefStep {s t : IPCThread} (h : s.Inv) (hnested : s.nested = [])
    (hstep : s.derefStep = some t) : t.Inv := by
  have honce := h.exact.once
  unfold IPCThread.derefStep at hstep
  cases hbase : s.base with
  | pool => simp only [hbase, reduceCtorEq] at hstep
  | weakDerefs i n =>
      obtain ⟨hle, hn⟩ := h.weak i n hbase
      have hread := h.exact.timely hnested (by rw [hbase]; exact fun hne => (nomatch hne))
      simp only [hbase] at hstep
      unfold pending at honce
      rw [hbase] at honce
      dsimp only [weakDone, strongDone] at honce
      split at hstep
      · rename_i hlt
        cases hstep
        refine ⟨⟨?_, fun hne => (nomatch hne)⟩, ?_, ?_, ?_⟩
        · -- the first reference that is left moves to the performed ones
          rw [drop_eq_getD_cons (hn ▸ hlt), List.map_cons, List.cons_append] at honce
          show s.derefs.Perm ((s.performed ++ [_]) ++ (_ ++ _))
          rw [List.append_assoc]
          exact honce
        · rintro _ _ ⟨⟩
          exact ⟨hlt, hn⟩
        · rintro _ _ ⟨⟩
        · exact h.called.push (.inr fun _ hne => (nomatch hne))
      · rename_i hend
        cases hstep
        refine ⟨⟨?_, fun _ _ => hread⟩, ?_, ?_, h.called⟩
        · have hall : s.mPendingWeakDerefs.drop i = [] :=
            List.drop_eq_nil_of_le (hn ▸ Nat.le_of_not_lt hend)
          rw [hall] at honce
          exact honce
        · rintro _ _ ⟨⟩
        · rintro _ _ ⟨⟩
          exact ⟨Nat.zero_le _, rfl⟩
  | strongDerefs i n =>
      obtain ⟨hle, hn⟩ := h.strong i n hbase
      simp only [hbase] at hstep
      unfold pending at honce
      rw [hbase] at honce
      dsimp only [weakDone, strongDone] at honce
      rw [List.drop_zero] at honce
      split at hstep
      · rename_i hlt
        cases hstep
        refine ⟨⟨?_, fun hne => (nomatch hne)⟩, ?_, ?_, ?_⟩
        · rw [drop_eq_getD_cons (hn ▸ hlt), List.map_cons] at honce
          show s.derefs.Perm ((s.performed ++ [_]) ++ (List.map _ (List.drop 0 _) ++ _))
          rw [List.append_assoc, List.drop_zero]
          -- here it stands behind the weak ones of the list
          exact honce.trans (List.Perm.append_left _ List.perm_middle)
        · rintro _ _ ⟨⟩
        · rintro _ _ ⟨⟩
          exact ⟨hlt, hn⟩
        · exact h.called.push (.inr fun _ hne => (nomatch hne))
      · rename_i hend
        cases hstep
        refine ⟨⟨?_, fun _ hne => absurd rfl hne⟩, ?_, ?_, h.called⟩
        · have hall : s.mPendingStrongDerefs.drop i = [] :=
            List.drop_eq_nil_of_le (hn ▸ Nat.le_of_not_lt hend)
          rw [hall] at honce
          exact honce
        · rintro _ _ ⟨⟩
        · rintro _ _ ⟨⟩

/-- Calls of code return only when everything is read, if a loop goes on then. -/
theorem Inv.ret {s t : IPCThread} (h : s.Inv)
    (hread : s.nested.length = 1 → s.base ≠ .pool → s.mIn = [])
    (hstep : s.nested.head?.bind s.returned = some t) : t.Inv := by
  obtain ⟨f, hf, hreturned⟩ := Option.bind_eq_some_iff.mp hstep
  obtain ⟨rest, hnested⟩ : ∃ rest, s.nested = f :: rest := by
    cases hn : s.nested with
    | nil =>
        rw [hn] at hf
        cases hf
    | cons g rest =>
        rw [hn] at hf
        cases hf
        exact ⟨rest, rfl⟩
  have htail : s.nested.tail = [] → s.base ≠ .pool → s.mIn = [] := by
    intro hnil hloop
    rw [hnested, List.tail_cons] at hnil
    exact hread (by rw [hnested, hnil]; rfl) hloop
  have hsame : Asks none s s := .nothing rfl rfl rfl rfl rfl
  cases f with
  | waiting reply => cases hreturned
  | code after =>
      cases hreturned
      exact h.same ⟨rfl, rfl, hsame.asked⟩ htail h.called.tail
  | replied hd =>
      cases hreturned
      exact h.same ⟨rfl, rfl, hsame.asked⟩ htail h.called.tail
  | handler hd =>
      obtain ⟨-, ⟨⟩⟩ | ⟨-, ⟨⟩⟩ := ite_eq_iff.mp hreturned
      · exact h.same ⟨rfl, rfl, hsame.asked⟩ htail h.called.tail
      · refine h.same ⟨rfl, rfl, hsame.asked⟩ (fun hne => (nomatch hne)) ?_
        exact (h.called.tail.push (f := .replied hd) (.inr fun _ hne => (nomatch hne))).push
          (.inl (List.cons_ne_nil _ _))

/-- Code makes the step. -/
theorem ne_nil_of_inCode {s : IPCThread} (h : s.inCode = true) : s.nested ≠ [] := by
  intro hnil
  unfold inCode at h
  rw [hnil] at h
  cases h

theorem Inv.talk {s t : IPCThread} (h : s.Inv) {answer : Option (List Return)}
    (hstep : s.step (.talk answer) = some t) : t.Inv := by
  obtain ⟨hin, hstep⟩ := Option.ite_none_right_eq_some.mp hstep
  have hsame : Asks none s s := .nothing rfl rfl rfl rfl rfl
  cases hnested : s.nested with
  | nil =>
      rw [hnested] at hstep
      cases answer with
      | none =>
          obtain ⟨-, ⟨⟩⟩ := Option.ite_none_right_eq_some.mp hstep
          exact h
      | some cmds =>
          obtain ⟨hpool, ⟨⟩⟩ := Option.ite_none_right_eq_some.mp hstep
          exact h.same ⟨rfl, rfl, hsame.asked⟩ (fun _ hne => absurd hpool hne) h.called
  | cons f rest =>
      rw [hnested] at hstep
      have hcalled := h.called
      rw [hnested] at hcalled
      cases f with
      | waiting reply =>
          cases answer with
          | none =>
              cases hstep
              refine h.same ⟨rfl, rfl, hsame.asked⟩ (fun hnil => ?_) h.called.tail
              have hrest : s.nested.tail = [] := hnil
              rw [hnested, List.tail_cons] at hrest
              exact absurd hrest hcalled.ne_nil
          | some cmds =>
              cases hstep
              refine h.same ⟨rfl, rfl, hsame.asked⟩ (fun hnil => ?_) h.called
              have hrest : s.nested = [] := hnil
              rw [hnested] at hrest
              cases hrest
      | code after => cases hstep
      | handler hd => cases hstep
      | replied hd => cases hstep

theorem Inv.readStep {s t : IPCThread} (h : s.Inv) (hguard : s.Undisturbed .read)
    (hstep : s.step .read = some t) : t.Inv := by
  obtain ⟨-, hstep⟩ := Option.ite_none_right_eq_some.mp hstep
  cases hnested : s.nested with
  | nil =>
      rw [hnested] at hstep
      obtain ⟨hpool, ⟨⟩⟩ := Option.ite_none_right_eq_some.mp hstep
      have hasks := asks_readCommand s
      refine h.read hasks hguard (fun _ hne => ?_) (called_readCommand h.called)
      exact absurd (hasks.base.trans hpool) hne
  | cons f rest =>
      rw [hnested] at hstep
      cases f with
      | waiting reply =>
          cases hstep
          obtain ⟨hcalled, hne⟩ := called_readResponse h.called hnested
          exact h.read (asks_readResponse s reply) hguard (fun hnil => absurd hnil hne) hcalled
      | code after => cases hstep
      | handler hd => cases hstep
      | replied hd => cases hstep

theorem Inv.step {s t : IPCThread} {a : Action} (h : s.Inv) (hguard : s.Undisturbed a)
    (hstep : s.step a = some t) : t.Inv := by
  have hsame : Asks none s s := .nothing rfl rfl rfl rfl rfl
  cases a with
  | talk answer => exact h.talk hstep
  | flush =>
      obtain ⟨-, ⟨⟩⟩ := Option.ite_none_right_eq_some.mp hstep
      exact h.same ⟨rfl, rfl, hsame.asked⟩ h.exact.timely h.called
  | read => exact h.readStep hguard hstep
  | processPendingDerefs =>
      obtain ⟨⟨hnested, hpool, hin⟩, ⟨⟩⟩ := Option.ite_none_right_eq_some.mp hstep
      have honce := h.exact.once
      unfold pending at honce
      rw [hpool] at honce
      refine ⟨⟨honce, fun _ _ => hin⟩, ?_, ?_, h.called⟩
      · rintro _ _ ⟨⟩
        exact ⟨Nat.zero_le _, rfl⟩
      · rintro _ _ ⟨⟩
  | deref =>
      obtain ⟨hnested, hstep⟩ := Option.ite_none_right_eq_some.mp hstep
      exact h.derefStep hnested hstep
  | call =>
      obtain ⟨-, ⟨⟩⟩ := Option.ite_none_right_eq_some.mp hstep
      exact h.same ⟨rfl, rfl, hsame.asked⟩ (fun hne => (nomatch hne))
        (h.called.push (.inr fun _ => Frame.noConfusion))
  | transact oneWay =>
      obtain ⟨hcode, ⟨⟩⟩ := Option.ite_none_right_eq_some.mp hstep
      exact h.same ⟨rfl, rfl, hsame.asked⟩ (fun hne => (nomatch hne))
        (h.called.push (.inl (ne_nil_of_inCode hcode)))
  | setCaller caller =>
      obtain ⟨-, ⟨⟩⟩ := Option.ite_none_right_eq_some.mp hstep
      exact h.same ⟨rfl, rfl, hsame.asked⟩ h.exact.timely h.called
  | writeOther =>
      obtain ⟨-, ⟨⟩⟩ := Option.ite_none_right_eq_some.mp hstep
      exact h.same ⟨rfl, rfl, hsame.asked⟩ h.exact.timely h.called
  | ret => exact h.ret hguard hstep

theorem Inv.initial (caller : Caller) : (IPCThread.initial caller).Inv where
  exact := ⟨List.Perm.nil, fun _ _ => rfl⟩
  weak := by rintro _ _ ⟨⟩
  strong := by rintro _ _ ⟨⟩
  called := fun _ hne => (nomatch hne)

def decrefs (refs : UInt32) : Return := ⟨.decrefs, [refs, 1], rfl⟩

def release (obj : UInt32) : Return := ⟨.release, [1, obj], rfl⟩

def aReply : Return := ⟨.reply, [0, 0, 0, 0, 0, 0, 0, 0, 0x2000, 0], rfl⟩

def ownCaller : Caller := ⟨100, 1000, 0, 0⟩

end IPCThread
end Binder
end AndroidLinux
