import AndroidLinux.Binder.PendingDerefs

/-!
# The command streams of a thread

Whatever is nested in what, the commands of the driver are read one after the other, what
the driver has consumed of `mOut` is the front of what was written, every transaction is
answered once and the caller is restored.  The exception are the commands whose argument is
not read as it was sent: `BR_ATTEMPT_ACQUIRE`, which has a priority in front of its two
pointers, and the two commands that only `waitForResponse` knows.
-/

namespace AndroidLinux
namespace Binder

open Lib

theorem Br.ofCode_code (c : Br) : Br.ofCode c.code = some c := by
  cases c <;> decide

namespace IPCThread

def handled : Frame → Option Nat
  | .handler h => some h.n
  | _ => none

/-- The transactions whose handlers are running. -/
def active (s : IPCThread) : List Nat :=
  s.nested.filterMap handled

structure Ordered (s : IPCThread) : Prop where
  /-- What was interpreted and what is unread are the commands that were received. -/
  input : ∃ unread : List Return, s.mIn = unread.flatMap Return.toWords ∧
    s.received.map Return.toWords = s.interpreted ++ unread.map Return.toWords
  output : s.written = s.consumed ++ s.mOut
  /-- A handler that has returned has sent its reply, once, unless it is one-way. -/
  replies : ∀ n oneWay, s.transactions[n]? = some oneWay →
    s.written.count (.reply n) = if oneWay = true ∨ n ∈ s.active then 0 else 1
  /-- When `executeCommand` returns the caller is the one of its start. -/
  restored : ∀ h t, s.nested.head? = some (.replied h) ∨
      s.nested.head? = some (.handler h) ∧ h.oneWay = true →
    s.step .ret = some t → t.caller = h.started

/-- A step that does not read a command which the code takes apart wrongly. -/
def Readable (s : IPCThread) : Action → Prop
  | .read => Br.ofCode s.readInt32.1 ≠ some .attemptAcquire ∧
      (s.nested = [] → Br.ofCode s.readInt32.1 ≠ some .reply ∧
        Br.ofCode s.readInt32.1 ≠ some .acquireResult)
  | _ => True

/-! ## Reading -/

theorem tail_tail {α : Type} (l : List α) : l.tail.tail = l.drop 2 := by
  cases l with
  | nil => rfl
  | cons a l => exact List.drop_one.symm

/-- `executeCommand` reads the argument. -/
theorem mIn_executeCommand (s : IPCThread) {c : Br} (hlen : c.words ≤ s.mIn.length)
    (hattempt : c ≠ .attemptAcquire) (hreply : c ≠ .reply) (hresult : c ≠ .acquireResult) :
    (s.executeCommand (some c)).2.mIn = s.mIn.drop c.words := by
  cases c with
  | attemptAcquire => exact absurd rfl hattempt
  | reply => exact absurd rfl hreply
  | acquireResult => exact absurd rfl hresult
  | error => exact List.drop_one.symm
  | deadBinder => exact List.drop_one.symm
  | clearDeathNotificationDone => exact List.drop_one.symm
  | acquire => exact tail_tail _
  | release => exact tail_tail _
  | increfs => exact tail_tail _
  | decrefs => exact tail_tail _
  | transaction =>
      have hten : ¬ s.mIn.length < 10 := Nat.not_lt.mpr hlen
      show (if s.mIn.length < 10 then (true, s)
        else (false, s.transactionCommand (s.mIn.take 10))).2.mIn = _
      rw [if_neg hten]
      rfl
  | _ => rfl

/-- `waitForResponse` reads the argument. -/
theorem mIn_response (s : IPCThread) {c : Br} (hlen : c.words ≤ s.mIn.length)
    (hattempt : c ≠ .attemptAcquire) (reply : Bool) :
    (s.response reply (some c)).2.mIn = s.mIn.drop c.words := by
  cases c with
  | attemptAcquire => exact absurd rfl hattempt
  | acquireResult => exact List.drop_one.symm
  | reply =>
      have hten : ¬ s.mIn.length < 10 := Nat.not_lt.mpr hlen
      unfold response
      dsimp only
      rw [if_neg hten]
      cases reply with
      | false => rfl
      | true =>
          rw [if_pos rfl]
          dsimp only
          split <;> rfl
  | transactionComplete => rfl
  | deadReply => rfl
  | failedReply => rfl
  | _ =>
      exact mIn_executeCommand s hlen (fun h => (nomatch h)) (fun h => (nomatch h))
        (fun h => (nomatch h))

/-- What is unread is a sequence of whole commands. -/
def Whole (s : IPCThread) : Prop :=
  ∃ unread : List Return, s.mIn = unread.flatMap Return.toWords ∧
    s.received.map Return.toWords = s.interpreted ++ unread.map Return.toWords

/-- The first command is read whole. -/
theorem Whole.note {s t : IPCThread} {r : Return} {unread : List Return}
    (hin : s.mIn = (r :: unread).flatMap Return.toWords)
    (hreceived : s.received.map Return.toWords =
      s.interpreted ++ (r :: unread).map Return.toWords)
    (hread : t.mIn = s.mIn.tail.drop r.cmd.words) (hkept : t.received = s.received)
    (hnoted : t.interpreted = s.interpreted) : (s.note t).Whole := by
  have hwords : s.mIn = r.toWords ++ unread.flatMap Return.toWords := hin
  have htail : s.mIn.tail = r.args ++ unread.flatMap Return.toWords := by
    rw [hwords]
    rfl
  have hrest : t.mIn = unread.flatMap Return.toWords := by
    rw [hread, htail, ← r.fits, List.drop_left]
  have hlen : s.mIn.length - t.mIn.length = r.toWords.length := by
    rw [hrest, hwords, List.length_append]
    exact Nat.add_sub_cancel _ _
  refine ⟨unread, hrest, ?_⟩
  show t.received.map _ = t.interpreted ++ [s.mIn.take (s.mIn.length - t.mIn.length)] ++ _
  rw [hkept, hnoted, hlen, hwords, List.take_left, hreceived, List.append_assoc]
  rfl

/-- Where there is something to read, it is a command. -/
theorem Whole.first {s : IPCThread} (h : s.Whole) (hne : s.mIn ≠ []) :
    ∃ (r : Return) (unread : List Return), s.mIn = (r :: unread).flatMap Return.toWords ∧
      s.received.map Return.toWords = s.interpreted ++ (r :: unread).map Return.toWords ∧
        Br.ofCode s.readInt32.1 = some r.cmd ∧ r.cmd.words ≤ s.mIn.tail.length := by
  obtain ⟨unread, hin, hreceived⟩ := h
  cases unread with
  | nil => exact absurd hin hne
  | cons r unread =>
      refine ⟨r, unread, hin, hreceived, ?_, ?_⟩
      · have hcode : s.readInt32.1 = r.cmd.code := by
          show s.mIn.headD 0 = _
          rw [hin]
          rfl
        rw [hcode, Br.ofCode_code]
      · rw [hin]
        show _ ≤ (r.args ++ unread.flatMap Return.toWords).length
        rw [List.length_append, r.fits]
        exact Nat.le_add_right _ _

theorem Whole.same {s t : IPCThread} (h : s.Whole) (hin : t.mIn = s.mIn)
    (hreceived : t.received = s.received) (hinterpreted : t.interpreted = s.interpreted) :
    t.Whole := by
  unfold Whole
  rw [hin, hreceived, hinterpreted]
  exact h

/-! ## What a command does besides -/

/-- A call that is not a transaction in progress, and has no reply to write. -/
def Plain : Frame → Prop
  | .waiting _ => True
  | .code after => ∀ n, Bc.reply n ∉ after
  | _ => False

/-- `t` has the transactions of `s`; it may have written commands that are not replies, and
made calls that are not handlers. -/
structure Quiet (s t : IPCThread) : Prop where
  transactions : t.transactions = s.transactions
  out : ∃ data, t.written = s.written ++ data ∧ t.mOut = s.mOut ++ data ∧
    ∀ n, Bc.reply n ∉ data
  consumed : t.consumed = s.consumed
  active : t.active = s.active
  frames : ∀ f ∈ t.nested, f ∈ s.nested ∨ Plain f

/-- No call is made and nothing is written. -/
theorem Quiet.of_same {s t : IPCThread} (htransactions : t.transactions = s.transactions)
    (hwritten : t.written = s.written) (hmOut : t.mOut = s.mOut)
    (hconsumed : t.consumed = s.consumed) (hnested : t.nested = s.nested) :
    Quiet s t where
  transactions := htransactions
  out := ⟨[], by rw [hwritten, List.append_nil], by rw [hmOut, List.append_nil],
    fun _ => List.not_mem_nil⟩
  consumed := hconsumed
  active := by
    show List.filterMap _ t.nested = List.filterMap _ s.nested
    rw [hnested]
  frames f hf := .inl (hnested ▸ hf)

theorem Quiet.refl (s : IPCThread) : Quiet s s :=
  .of_same rfl rfl rfl rfl rfl

theorem Quiet.push {s t : IPCThread} (h : Quiet s t) {f : Frame} (hf : Plain f) :
    Quiet s (t.push f) where
  transactions := h.transactions
  out := h.out
  consumed := h.consumed
  active := by
    have hnone : (t.push f).active = t.active := by
      cases f with
      | waiting reply => rfl
      | code after => rfl
      | handler h => exact hf.elim
      | replied h => exact hf.elim
    rw [hnone, h.active]
  frames g hg := by
    rcases List.mem_cons.mp hg with rfl | hg
    · exact .inr hf
    · exact h.frames g hg

theorem Quiet.write {s t : IPCThread} (h : Quiet s t) {cmds : List Bc}
    (hcmds : ∀ n, Bc.reply n ∉ cmds) : Quiet s (t.write cmds) where
  transactions := h.transactions
  out := by
    obtain ⟨data, hwritten, hmOut, hdata⟩ := h.out
    refine ⟨data ++ cmds, ?_, ?_, fun n hn => ?_⟩
    · show t.written ++ cmds = _
      rw [hwritten, List.append_assoc]
    · show t.mOut ++ cmds = _
      rw [hmOut, List.append_assoc]
    · rcases List.mem_append.mp hn with hn | hn
      · exact hdata n hn
      · exact hcmds n hn
  consumed := h.consumed
  active := h.active
  frames := h.frames

/-- The innermost call returns, which is not a handler. -/
theorem Quiet.pop {s t : IPCThread} (h : Quiet s t)
    (htop : ∀ hd, t.nested.head? ≠ some (.handler hd)) : Quiet s t.pop where
  transactions := h.transactions
  out := h.out
  consumed := h.consumed
  active := by
    have hnone : t.pop.active = t.active := by
      unfold IPCThread.active IPCThread.pop
      cases hnested : t.nested with
      | nil => rfl
      | cons f rest =>
          cases f with
          | handler hd => exact absurd (by rw [hnested]; rfl) (htop hd)
          | waiting reply => rfl
          | code after => rfl
          | replied hd => rfl
    rw [hnone, h.active]
  frames f hf := h.frames f (List.mem_of_mem_tail hf)

theorem quiet_readInt32 (s : IPCThread) : Quiet s s.readInt32.2 :=
  .of_same rfl rfl rfl rfl rfl

theorem quiet_acquireCommand (s : IPCThread) {after : UInt32 → UInt32 → List Bc}
    (hafter : ∀ refs obj n, Bc.reply n ∉ after refs obj) : Quiet s (s.acquireCommand after) :=
  have hread : Quiet s s.readInt32.2.readInt32.2 := .of_same rfl rfl rfl rfl rfl
  hread.push (f := .code _) (hafter _ _)

theorem quiet_proxyCommand (s : IPCThread) {after : UInt32 → List Bc}
    (hafter : ∀ proxy n, Bc.reply n ∉ after proxy) : Quiet s (s.proxyCommand after) :=
  s.quiet_readInt32.push (f := .code _) (hafter _)

/-- Only `BR_TRANSACTION` calls a handler. -/
theorem executeCommand_cases (s : IPCThread) (cmd : Option Br) :
    Quiet s (s.executeCommand cmd).2 ∨
      cmd = some .transaction ∧
        s.executeCommand cmd = (false, s.transactionCommand (s.mIn.take 10)) := by
  have hsame : ∀ t : IPCThread, t.transactions = s.transactions → t.written = s.written →
      t.mOut = s.mOut → t.consumed = s.consumed → t.nested = s.nested → Quiet s t :=
    fun _ h1 h2 h3 h4 h5 => .of_same h1 h2 h3 h4 h5
  cases cmd with
  | none => exact .inl (.refl s)
  | some c =>
      cases c with
      | acquire =>
          refine .inl ?_
          show Quiet s (s.acquireCommand fun refs obj => [.acquireDone refs obj])
          refine s.quiet_acquireCommand fun refs obj n hn => ?_
          cases List.mem_singleton.mp hn
      | increfs =>
          refine .inl ?_
          show Quiet s (s.acquireCommand fun refs obj => [.increfsDone refs obj])
          refine s.quiet_acquireCommand fun refs obj n hn => ?_
          cases List.mem_singleton.mp hn
      | attemptAcquire =>
          refine .inl ?_
          show Quiet s (s.acquireCommand fun _ _ => [.acquireResult])
          refine s.quiet_acquireCommand fun refs obj n hn => ?_
          cases List.mem_singleton.mp hn
      | deadBinder =>
          refine .inl ?_
          show Quiet s (s.proxyCommand fun proxy => [.deadBinderDone proxy])
          refine s.quiet_proxyCommand fun proxy n hn => ?_
          cases List.mem_singleton.mp hn
      | clearDeathNotificationDone =>
          refine .inl ?_
          show Quiet s (s.proxyCommand fun _ => [])
          exact s.quiet_proxyCommand fun _ _ hn => absurd hn List.not_mem_nil
      | transaction =>
          by_cases hten : s.mIn.length < 10
          · refine .inl ?_
            show Quiet s (if s.mIn.length < 10 then (true, s)
              else (false, s.transactionCommand (s.mIn.take 10))).2
            rw [if_pos hten]
            exact .refl s
          · exact .inr ⟨rfl, if_neg hten⟩
      | _ => exact .inl (hsame _ rfl rfl rfl rfl rfl)

theorem response_cases (s : IPCThread) (reply : Bool) (cmd : Option Br) :
    Quiet s (s.response reply cmd).2 ∨
      cmd = some .transaction ∧
        s.response reply cmd = (false, s.transactionCommand (s.mIn.take 10)) := by
  have hfree : ∀ data n, Bc.reply n ∉ [Bc.freeBuffer data] :=
    fun _ _ hn => (nomatch List.mem_singleton.mp hn)
  cases cmd with
  | none => exact .inl (.refl s)
  | some c =>
      cases c with
      | transactionComplete => exact .inl (.refl s)
      | deadReply => exact .inl (.refl s)
      | failedReply => exact .inl (.refl s)
      | acquireResult => exact .inl s.quiet_readInt32
      | reply =>
          refine .inl ?_
          have hdropped : Quiet s { s with mIn := s.mIn.drop 10 } :=
            .of_same rfl rfl rfl rfl rfl
          unfold response
          dsimp only
          split
          · exact .refl s
          · split
            · dsimp only
              split
              · exact hdropped
              · exact hdropped.write (hfree _)
            · exact hdropped.write (hfree _)
      | _ => exact s.executeCommand_cases _

/-- What has been received and interpreted is recorded elsewhere. -/
theorem kept_executeCommand (s : IPCThread) (cmd : Option Br) :
    (s.executeCommand cmd).2.received = s.received ∧
      (s.executeCommand cmd).2.interpreted = s.interpreted := by
  cases cmd with
  | none => exact ⟨rfl, rfl⟩
  | some c =>
      cases c with
      | transaction =>
          unfold executeCommand
          dsimp only
          split
          · exact ⟨rfl, rfl⟩
          · exact ⟨rfl, rfl⟩
      | _ => exact ⟨rfl, rfl⟩

theorem kept_response (s : IPCThread) (reply : Bool) (cmd : Option Br) :
    (s.response reply cmd).2.received = s.received ∧
      (s.response reply cmd).2.interpreted = s.interpreted := by
  cases cmd with
  | none => exact ⟨rfl, rfl⟩
  | some c =>
      cases c with
      | reply =>
          unfold response
          dsimp only
          split
          · exact ⟨rfl, rfl⟩
          · split
            · dsimp only
              split
              · exact ⟨rfl, rfl⟩
              · exact ⟨rfl, rfl⟩
            · exact ⟨rfl, rfl⟩
      | transactionComplete => exact ⟨rfl, rfl⟩
      | deadReply => exact ⟨rfl, rfl⟩
      | failedReply => exact ⟨rfl, rfl⟩
      | acquireResult => exact ⟨rfl, rfl⟩
      | _ => exact s.kept_executeCommand _

/-! ## Runs -/

structure Books (s : IPCThread) : Prop where
  whole : s.Whole
  output : s.written = s.consumed ++ s.mOut
  replies : ∀ n oneWay, s.transactions[n]? = some oneWay →
    s.written.count (.reply n) = if oneWay = true ∨ n ∈ s.active then 0 else 1
  fresh : ∀ n, s.transactions.length ≤ n → s.written.count (.reply n) = 0
  numbered : ∀ h, .handler h ∈ s.nested → s.transactions[h.n]? = some h.oneWay
  nodup : s.active.Nodup
  orig : ∀ h, .handler h ∈ s.nested ∨ .replied h ∈ s.nested → h.orig = h.started
  plain : ∀ after, .code after ∈ s.nested → ∀ n, Bc.reply n ∉ after

theorem count_append_of_notMem {xs data : List Bc} {c : Bc} (h : c ∉ data) :
    (xs ++ data).count c = xs.count c := by
  rw [List.count_append, List.count_eq_zero_of_not_mem h, Nat.add_zero]

theorem Books.quiet {s t : IPCThread} (h : s.Books) (hquiet : Quiet s t) (hwhole : t.Whole) :
    t.Books := by
  obtain ⟨data, hwritten, hmOut, hdata⟩ := hquiet.out
  refine ⟨hwhole, ?_, fun n oneWay hn => ?_, fun n hn => ?_, fun hd hmem => ?_, ?_,
    fun hd hmem => ?_, fun after hmem => ?_⟩
  · rw [hwritten, hmOut, hquiet.consumed, h.output, List.append_assoc]
  · rw [hwritten, count_append_of_notMem (hdata n), hquiet.active]
    exact h.replies n oneWay (hquiet.transactions ▸ hn)
  · rw [hwritten, count_append_of_notMem (hdata n)]
    exact h.fresh n (hquiet.transactions ▸ hn)
  · rw [hquiet.transactions]
    rcases hquiet.frames _ hmem with hold | hplain
    · exact h.numbered hd hold
    · exact hplain.elim
  · rw [hquiet.active]
    exact h.nodup
  · rcases hmem with hmem | hmem
    · rcases hquiet.frames _ hmem with hold | hplain
      · exact h.orig hd (.inl hold)
      · exact hplain.elim
    · rcases hquiet.frames _ hmem with hold | hplain
      · exact h.orig hd (.inr hold)
      · exact hplain.elim
  · rcases hquiet.frames _ hmem with hold | hplain
    · exact h.plain after hold
    · exact hplain

theorem Books.caller {s : IPCThread} (h : s.Books) (caller : Caller) :
    Books { s with caller := caller } :=
  ⟨h.whole, h.output, h.replies, h.fresh, h.numbered, h.nodup, h.orig, h.plain⟩

/-- The driver consumes `mOut`. -/
theorem Books.consume {s : IPCThread} (h : s.Books) : s.consume.Books where
  whole := h.whole
  output := by
    show s.written = (s.consumed ++ s.mOut) ++ []
    rw [List.append_nil]
    exact h.output
  replies := h.replies
  fresh := h.fresh
  numbered := h.numbered
  nodup := h.nodup
  orig := h.orig
  plain := h.plain

theorem Books.talked {s : IPCThread} (h : s.Books) (hin : s.mIn = []) (cmds : List Return) :
    (s.talked cmds).Books := by
  have hconsumed := h.consume
  refine ⟨⟨cmds, rfl, ?_⟩, hconsumed.output, hconsumed.replies, hconsumed.fresh,
    hconsumed.numbered, hconsumed.nodup, hconsumed.orig, hconsumed.plain⟩
  obtain ⟨unread, hunread, hreceived⟩ := h.whole
  have hnone : unread = [] := by
    cases unread with
    | nil => rfl
    | cons r unread =>
        rw [hin] at hunread
        cases hunread
  rw [hnone, List.map_nil, List.append_nil] at hreceived
  show (s.received ++ cmds).map _ = s.interpreted ++ _
  rw [List.map_append, hreceived]

/-- A transaction begins. -/
theorem Books.transactionCommand {s t : IPCThread} (h : s.Books) (hquiet : Quiet s t)
    (tr : List UInt32) {u : IPCThread} (hwhole : (u.note (t.transactionCommand tr)).Whole) :
    (u.note (t.transactionCommand tr)).Books := by
  obtain ⟨data, hwritten, hmOut, hdata⟩ := hquiet.out
  have hlen := congrArg List.length hquiet.transactions
  -- active transactions have old numbers, and the new one the next
  have hlt : ∀ n ∈ s.active, n < s.transactions.length := by
    intro n hn
    obtain ⟨f, hf, hfn⟩ := List.mem_filterMap.mp hn
    cases f with
    | handler hd =>
        cases hfn
        exact (List.getElem?_eq_some_iff.mp (h.numbered hd hf)).1
    | waiting reply => cases hfn
    | code after => cases hfn
    | replied hd => cases hfn
  have hactive : (u.note (t.transactionCommand tr)).active =
      s.transactions.length :: s.active := by
    show t.transactions.length :: t.active = _
    rw [hlen, hquiet.active]
  -- nothing that is written on the way is a reply
  have hold : ∀ n, (t.written).count (.reply n) = s.written.count (.reply n) := by
    intro n
    rw [hwritten, count_append_of_notMem (hdata n)]
  refine ⟨hwhole, ?_, fun n oneWay hn => ?_, fun n hn => ?_, fun hd hmem => ?_, ?_,
    fun hd hmem => ?_, fun after hmem => ?_⟩
  · show t.written = t.consumed ++ t.mOut
    rw [hwritten, hmOut, hquiet.consumed, h.output, List.append_assoc]
  · show t.written.count _ = _
    have hn' : (s.transactions ++ [decide (tr.getD 3 0 &&& 1 = 1)])[n]? = some oneWay := by
      rw [← hquiet.transactions]
      exact hn
    rw [hold, hactive]
    rcases Nat.lt_or_ge n s.transactions.length with hlt' | hge
    · rw [List.getElem?_append_left hlt'] at hn'
      have hmem : n ∈ s.transactions.length :: s.active ↔ n ∈ s.active := by
        rw [List.mem_cons]
        exact or_iff_right hlt'.ne
      simp only [hmem]
      exact h.replies n oneWay hn'
    · have heq : n = s.transactions.length := by
        have hbound := (List.getElem?_eq_some_iff.mp hn').1
        rw [List.length_append, List.length_singleton] at hbound
        omega
      rw [h.fresh n hge, if_pos (.inr (heq ▸ List.mem_cons_self))]
  · show t.written.count _ = _
    rw [hold]
    refine h.fresh n (le_trans ?_ hn)
    show _ ≤ (t.transactions ++ [_]).length
    rw [List.length_append, hlen]
    exact Nat.le_add_right _ _
  · show (t.transactions ++ [_])[hd.n]? = _
    rw [hquiet.transactions]
    rcases List.mem_cons.mp hmem with heq | hmem
    · cases heq
      show (s.transactions ++ [_])[t.transactions.length]? = _
      rw [hlen, List.getElem?_append_right le_rfl, Nat.sub_self]
      rfl
    · rcases hquiet.frames _ hmem with hmem | hplain
      · have hnumber := h.numbered hd hmem
        rw [List.getElem?_append_left (List.getElem?_eq_some_iff.mp hnumber).1]
        exact hnumber
      · exact hplain.elim
  · rw [hactive, List.nodup_cons]
    exact ⟨fun hmem => absurd (hlt _ hmem) (lt_irrefl _), h.nodup⟩
  · have hnew : ∀ f ∈ t.nested, f = .handler hd ∨ f = .replied hd → hd.orig = hd.started := by
      intro f hf heq
      rcases hquiet.frames f hf with hmem | hplain
      · rcases heq with rfl | rfl
        · exact h.orig hd (.inl hmem)
        · exact h.orig hd (.inr hmem)
      · rcases heq with rfl | rfl
        · exact hplain.elim
        · exact hplain.elim
    rcases hmem with hmem | hmem
    · rcases List.mem_cons.mp hmem with heq | hmem
      · cases heq
        rfl
      · exact hnew _ hmem (.inl rfl)
    · rcases List.mem_cons.mp hmem with heq | hmem
      · cases heq
      · exact hnew _ hmem (.inr rfl)
  · rcases List.mem_cons.mp hmem with heq | hmem
    · cases heq
    · rcases hquiet.frames _ hmem with hold | hplain
      · exact h.plain after hold
      · exact hplain

theorem Quiet.note {s t : IPCThread} (h : Quiet s t) : Quiet s (s.note t) :=
  ⟨h.transactions, h.out, h.consumed, h.active, h.frames⟩

/-- A command is read outside of calls. -/
theorem Books.readCommand {s : IPCThread} (h : s.Books) (hne : s.mIn ≠ [])
    (hguard : s.Readable .read) (hnested : s.nested = []) : s.readCommand.Books := by
  obtain ⟨r, unread, hin, hreceived, hcode, hlen⟩ := h.whole.first hne
  obtain ⟨hattempt, hcalls⟩ := hguard
  obtain ⟨hreply, hresult⟩ := hcalls hnested
  rw [hcode] at hattempt hreply hresult
  have hread := mIn_executeCommand s.readInt32.2 hlen (fun heq => hattempt (congrArg some heq))
    (fun heq => hreply (congrArg some heq)) (fun heq => hresult (congrArg some heq))
  obtain ⟨hkept, hnoted⟩ := s.readInt32.2.kept_executeCommand (some r.cmd)
  have hwhole := Whole.note hin hreceived hread hkept hnoted
  unfold IPCThread.readCommand
  rw [hcode]
  rcases s.readInt32.2.executeCommand_cases (some r.cmd) with hquiet | ⟨-, heq⟩
  · have hfrom : Quiet s (s.readInt32.2.executeCommand (some r.cmd)).2 :=
      ⟨hquiet.transactions, hquiet.out, hquiet.consumed, hquiet.active, hquiet.frames⟩
    exact h.quiet hfrom.note hwhole
  · rw [heq] at hwhole ⊢
    exact h.transactionCommand s.quiet_readInt32 _ hwhole

/-- A command is read by a `waitForResponse`. -/
theorem Books.readResponse {s : IPCThread} (h : s.Books) (hne : s.mIn ≠ [])
    (hguard : s.Readable .read) {reply : Bool} {rest : List Frame}
    (hnested : s.nested = .waiting reply :: rest) : (s.readResponse reply).Books := by
  obtain ⟨r, unread, hin, hreceived, hcode, hlen⟩ := h.whole.first hne
  have hattempt := hguard.1
  rw [hcode] at hattempt
  have hread := mIn_response s.readInt32.2 hlen (fun heq => hattempt (congrArg some heq)) reply
  obtain ⟨hkept, hnoted⟩ := s.readInt32.2.kept_response reply (some r.cmd)
  unfold IPCThread.readResponse
  rw [hcode]
  dsimp only
  rcases s.readInt32.2.response_cases reply (some r.cmd) with hquiet | ⟨-, heq⟩
  · have hfrom : Quiet s (s.readInt32.2.response reply (some r.cmd)).2 :=
      ⟨hquiet.transactions, hquiet.out, hquiet.consumed, hquiet.active, hquiet.frames⟩
    have htop : ∀ hd, (s.readInt32.2.response reply (some r.cmd)).2.nested.head? ≠
        some (.handler hd) := by
      intro hd hhead
      rcases calls_response s.readInt32.2 reply (some r.cmd) with hsame | ⟨f, -, hpush⟩
      · rw [hsame, show s.readInt32.2.nested = s.nested from rfl, hnested] at hhead
        cases hhead
      · rw [hpush] at hhead
        cases hhead
        have hactive := congrArg List.length hquiet.active
        unfold active at hactive
        have hcons : (Frame.handler hd :: s.readInt32.2.nested).filterMap handled =
            hd.n :: s.readInt32.2.nested.filterMap handled := rfl
        rw [hpush, hcons, List.length_cons] at hactive
        omega
    split
    · exact h.quiet (hfrom.pop htop).note (Whole.note hin hreceived hread hkept hnoted)
    · exact h.quiet hfrom.note (Whole.note hin hreceived hread hkept hnoted)
  · rw [heq] at hread hkept hnoted ⊢
    rw [if_neg Bool.false_ne_true]
    exact h.transactionCommand s.quiet_readInt32 _
      (Whole.note hin hreceived hread hkept hnoted)

/-- A handler returns; `data` has its reply unless the transaction is one-way. -/
theorem Books.left {s t : IPCThread} (h : s.Books) {hd : Handling} {rest : List Frame}
    (hnested : s.nested = .handler hd :: rest) (data : List Bc)
    (htransactions : t.transactions = s.transactions)
    (hwritten : t.written = s.written ++ data) (hmOut : t.mOut = s.mOut ++ data)
    (hconsumed : t.consumed = s.consumed)
    (hdata : ∀ n, data.count (.reply n) = if n = hd.n ∧ hd.oneWay = false then 1 else 0)
    (hactive : s.active = hd.n :: t.active)
    (hframes : ∀ f ∈ t.nested, f ∈ rest ∨ Plain f ∨ f = .replied hd)
    (hwhole : t.Whole) : t.Books := by
  have hmem : Frame.handler hd ∈ s.nested := hnested ▸ List.mem_cons_self
  have hnumber := h.numbered hd hmem
  have hlt := (List.getElem?_eq_some_iff.mp hnumber).1
  have hnodup := h.nodup
  rw [hactive, List.nodup_cons] at hnodup
  have hrest : ∀ f ∈ rest, f ∈ s.nested := fun f hf => hnested ▸ List.mem_cons_of_mem _ hf
  -- only the reply of this transaction is added
  have hcount : ∀ n, t.written.count (.reply n) = s.written.count (.reply n) +
      if n = hd.n ∧ hd.oneWay = false then 1 else 0 := by
    intro n
    rw [hwritten, List.count_append, hdata]
  refine ⟨hwhole, ?_, fun n oneWay hn => ?_, fun n hn => ?_, fun hd' hmem' => ?_, hnodup.2,
    fun hd' hmem' => ?_, fun after hmem' => ?_⟩
  · rw [hwritten, hmOut, hconsumed, h.output, List.append_assoc]
  · rw [htransactions] at hn
    have hreplies := h.replies n oneWay hn
    rw [hcount, hreplies, hactive]
    by_cases heq : n = hd.n
    · subst heq
      have hone : oneWay = hd.oneWay := Option.some.inj (hn.symm.trans hnumber)
      rw [if_pos (.inr List.mem_cons_self), hone]
      cases hd.oneWay with
      | true => simp
      | false => simp [hnodup.1]
    · simp [heq]
  · rw [htransactions] at hn
    rw [hcount, h.fresh n hn, if_neg fun hn' => (hlt.trans_le hn).ne' hn'.1]
  · rw [htransactions]
    rcases hframes _ hmem' with hold | hplain | heq
    · exact h.numbered hd' (hrest _ hold)
    · exact hplain.elim
    · cases heq
  · rcases hmem' with hmem' | hmem'
    · rcases hframes _ hmem' with hold | hplain | heq
      · exact h.orig hd' (.inl (hrest _ hold))
      · exact hplain.elim
      · cases heq
    · rcases hframes _ hmem' with hold | hplain | heq
      · exact h.orig hd' (.inr (hrest _ hold))
      · exact hplain.elim
      · cases heq
        exact h.orig hd (.inl hmem)
  · rcases hframes _ hmem' with hold | hplain | heq
    · exact h.plain after (hrest _ hold)
    · exact hplain
    · cases heq

/-- The innermost code returns. -/
theorem Books.ret {s t : IPCThread} (h : s.Books)
    (hstep : s.nested.head?.bind s.returned = some t) : t.Books := by
  obtain ⟨f, hf, hreturned⟩ := Option.bind_eq_some_iff.mp hstep
  have hmem : f ∈ s.nested := List.mem_of_head? hf
  -- `BC_FREE_BUFFER` is not a reply
  have hfree : ∀ data n, Bc.reply n ∉ [Bc.freeBuffer data] := by
    intro data n hn
    cases List.mem_singleton.mp hn
  cases f with
  | waiting reply => cases hreturned
  | code after =>
      cases hreturned
      have hpop : Quiet s s.pop := (Quiet.refl s).pop fun hd heq => by
        rw [hf] at heq
        cases heq
      exact h.quiet (hpop.write (h.plain after hmem)) (h.whole.same rfl rfl rfl)
  | replied hd =>
      cases hreturned
      have hpop : Quiet s s.pop := (Quiet.refl s).pop fun hd heq => by
        rw [hf] at heq
        cases heq
      exact (h.quiet (hpop.write (hfree hd.buffer)) (h.whole.same rfl rfl rfl)).caller hd.orig
  | handler hd =>
      obtain ⟨rest, hnested⟩ : ∃ rest, s.nested = .handler hd :: rest :=
        List.head?_eq_some_iff.mp hf
      have hactive : s.active = hd.n :: rest.filterMap handled := by
        unfold active
        rw [hnested]
        rfl
      have htail : s.nested.tail = rest := by
        rw [hnested]
        rfl
      obtain ⟨honeWay, ⟨⟩⟩ | ⟨hreply, ⟨⟩⟩ := ite_eq_iff.mp hreturned
      · refine h.left hnested [.freeBuffer hd.buffer] rfl rfl rfl rfl (fun n => ?_)
          ?_ (fun f hf => ?_) (h.whole.same rfl rfl rfl)
        · rw [if_neg fun hn => (by rw [hn.2] at honeWay; cases honeWay)]
          exact List.count_eq_zero_of_not_mem (hfree _ n)
        · rw [hactive]
          show _ = hd.n :: s.nested.tail.filterMap _
          rw [htail]
        · exact .inl (htail ▸ hf)
      · refine h.left hnested [.reply hd.n] rfl rfl rfl rfl (fun n => ?_) ?_
          (fun f hf => ?_) (h.whole.same rfl rfl rfl)
        · have hone : hd.oneWay = false := Bool.eq_false_of_not_eq_true hreply
          by_cases heq : n = hd.n
          · rw [heq, if_pos ⟨rfl, hone⟩]
            exact List.count_singleton_self
          · rw [if_neg fun hn => heq hn.1]
            refine List.count_eq_zero_of_not_mem fun hmem => heq ?_
            cases List.mem_singleton.mp hmem
            rfl
        · rw [hactive]
          show _ = hd.n :: s.nested.tail.filterMap _
          rw [htail]
        · rcases List.mem_cons.mp hf with rfl | hf
          · exact .inr (.inl trivial)
          · rcases List.mem_cons.mp hf with rfl | hf
            · exact .inr (.inr rfl)
            · exact .inl (htail ▸ hf)

theorem quiet_derefStep {s t : IPCThread} (hstep : s.derefStep = some t) :
    Quiet s t ∧ t.mIn = s.mIn ∧ t.received = s.received ∧ t.interpreted = s.interpreted := by
  have hsame : Quiet s { s with base := .pool } := .of_same rfl rfl rfl rfl rfl
  have hplain : Plain (.code []) := fun _ => List.not_mem_nil
  have hcalled := hsame.push hplain
  unfold derefStep at hstep
  cases hbase : s.base with
  | pool => simp only [hbase, reduceCtorEq] at hstep
  | weakDerefs i n =>
      simp only [hbase] at hstep
      split at hstep
      · cases hstep
        exact ⟨⟨rfl, hcalled.out, rfl, rfl, hcalled.frames⟩, rfl, rfl, rfl⟩
      · cases hstep
        exact ⟨⟨rfl, hsame.out, rfl, rfl, hsame.frames⟩, rfl, rfl, rfl⟩
  | strongDerefs i n =>
      simp only [hbase] at hstep
      split at hstep
      · cases hstep
        exact ⟨⟨rfl, hcalled.out, rfl, rfl, hcalled.frames⟩, rfl, rfl, rfl⟩
      · cases hstep
        exact ⟨⟨rfl, hsame.out, rfl, rfl, hsame.frames⟩, rfl, rfl, rfl⟩

theorem Books.step {s t : IPCThread} {a : Action} (h : s.Books) (hguard : s.Readable a)
    (hstep : s.step a = some t) : t.Books := by
  cases a with
  | talk answer =>
      -- `talkWithDriver` runs at the bottom or in `waitForResponse`
      obtain ⟨hin, hstep⟩ := Option.ite_none_right_eq_some.mp hstep
      cases hnested : s.nested with
      | nil =>
          rw [hnested] at hstep
          cases answer with
          | none =>
              obtain ⟨-, ⟨⟩⟩ := Option.ite_none_right_eq_some.mp hstep
              exact h
          | some cmds =>
              obtain ⟨-, ⟨⟩⟩ := Option.ite_none_right_eq_some.mp hstep
              exact h.talked hin cmds
      | cons f rest =>
          rw [hnested] at hstep
          cases f with
          | waiting reply =>
              cases answer with
              | none =>
                  cases hstep
                  refine h.quiet ((Quiet.refl s).pop fun hd heq => ?_) (h.whole.same rfl rfl rfl)
                  rw [hnested] at heq
                  cases heq
              | some cmds =>
                  cases hstep
                  exact h.talked hin cmds
          | code after => cases hstep
          | handler hd => cases hstep
          | replied hd => cases hstep
  | flush =>
      obtain ⟨-, ⟨⟩⟩ := Option.ite_none_right_eq_some.mp hstep
      exact h.consume
  | read =>
      obtain ⟨hne, hstep⟩ := Option.ite_none_right_eq_some.mp hstep
      cases hnested : s.nested with
      | nil =>
          rw [hnested] at hstep
          obtain ⟨-, ⟨⟩⟩ := Option.ite_none_right_eq_some.mp hstep
          exact h.readCommand hne hguard hnested
      | cons f rest =>
          rw [hnested] at hstep
          cases f with
          | waiting reply =>
              cases hstep
              exact h.readResponse hne hguard hnested
          | code after => cases hstep
          | handler hd => cases hstep
          | replied hd => cases hstep
  | processPendingDerefs =>
      obtain ⟨-, ⟨⟩⟩ := Option.ite_none_right_eq_some.mp hstep
      exact ⟨h.whole, h.output, h.replies, h.fresh, h.numbered, h.nodup, h.orig, h.plain⟩
  | deref =>
      obtain ⟨-, hstep⟩ := Option.ite_none_right_eq_some.mp hstep
      obtain ⟨hquiet, hin, hreceived, hinterpreted⟩ := quiet_derefStep hstep
      exact h.quiet hquiet (h.whole.same hin hreceived hinterpreted)
  | call =>
      obtain ⟨-, ⟨⟩⟩ := Option.ite_none_right_eq_some.mp hstep
      have hplain : Plain (.code []) := fun _ => List.not_mem_nil
      exact h.quiet ((Quiet.refl s).push hplain) (h.whole.same rfl rfl rfl)
  | transact oneWay =>
      obtain ⟨-, ⟨⟩⟩ := Option.ite_none_right_eq_some.mp hstep
      have hwritten : Quiet s (s.write [.transaction]) := (Quiet.refl s).write fun n hn => by
        cases List.mem_singleton.mp hn
      exact h.quiet (hwritten.push (f := .waiting (!oneWay)) trivial) (h.whole.same rfl rfl rfl)
  | setCaller caller =>
      obtain ⟨-, ⟨⟩⟩ := Option.ite_none_right_eq_some.mp hstep
      exact h.caller caller
  | writeOther =>
      obtain ⟨-, ⟨⟩⟩ := Option.ite_none_right_eq_some.mp hstep
      refine h.quiet ((Quiet.refl s).write fun n hn => ?_) (h.whole.same rfl rfl rfl)
      cases List.mem_singleton.mp hn
  | ret => exact h.ret hstep

theorem Books.initial (caller : Caller) : (IPCThread.initial caller).Books where
  whole := ⟨[], rfl, rfl⟩
  output := rfl
  replies := fun _ _ hn => (nomatch hn)
  fresh := fun _ _ => rfl
  numbered := fun _ hmem => (nomatch hmem)
  nodup := List.nodup_nil
  orig := by
    rintro _ (hmem | hmem)
    · cases hmem
    · cases hmem
  plain := fun _ hmem => (nomatch hmem)

theorem Books.ordered {s : IPCThread} (h : s.Books) : s.Ordered where
  input := h.whole
  output := h.output
  replies := h.replies
  restored := by
    intro hd t hhead hstep
    have hbind : s.nested.head?.bind s.returned = some t := hstep
    rcases hhead with hreplied | ⟨hhandler, honeWay⟩
    · have horig := h.orig hd (.inr (List.mem_of_head? hreplied))
      rw [hreplied] at hbind
      cases hbind
      exact horig
    · have horig := h.orig hd (.inl (List.mem_of_head? hhandler))
      rw [hhandler] at hbind
      have hreturned : (if hd.oneWay then some (s.pop.restore hd) else _) = some t := hbind
      rw [if_pos honeWay] at hreturned
      cases hreturned
      exact horig

/-- The streams are in order, every transaction is answered once and the caller is restored
in every run in which each command that is read is one whose argument the code reads as it
was sent. -/
theorem ordered_of_readable {s : IPCThread} (h : machine.ReachWhen Readable s) : s.Ordered := by
  refine (Machine.ReachWhen.invariant (I := Books) ?_
    (fun s a s' hs hguard hstep => hs.step hguard hstep) h).ordered
  rintro s ⟨caller, rfl⟩
  exact Books.initial caller

/-- A test for `Readable`. -/
def testReadable (s : IPCThread) : Action → Bool
  | .read => Br.ofCode s.readInt32.1 ≠ some .attemptAcquire ∧
      (s.nested = [] → Br.ofCode s.readInt32.1 ≠ some .reply ∧
        Br.ofCode s.readInt32.1 ≠ some .acquireResult)
  | _ => true

theorem testReadable_sound (s : IPCThread) (a : Action) (h : s.testReadable a = true) :
    s.Readable a := by
  cases a with
  | read =>
      unfold testReadable at h
      have hpass := of_decide_eq_true h
      exact hpass
  | _ => trivial

def aTransaction : Return := ⟨.transaction, [1, 2, 3, 0, 77, 1077, 0, 0, 0x3000, 0], rfl⟩

/-- The application makes a transaction; while it waits, a handler clears the calling identity and
makes a transaction of its own. -/
theorem clearedIdentity_ordered :
    ((machine.runWhen testReadable (initial ownCaller) [.call, .transact false,
      .talk (some [aTransaction]), .read, .setCaller ⟨100, 1000, 5, 0⟩, .transact false,
      .talk (some [aReply]), .read, .ret, .talk (some [⟨.transactionComplete, [], rfl⟩]), .read,
      .ret, .talk (some [aReply]), .read, .ret]).get (by decide)).Ordered :=
  ordered_of_readable (Machine.reachWhen_of_runWhen testReadable_sound _
    (.init ⟨ownCaller, rfl⟩) (Option.some_get _).symm)

/-- The words of `BR_ATTEMPT_ACQUIRE` are a priority and two pointers; the second pointer is
left in `mIn` and taken for a command. -/
theorem pointer_interpreted : ∃ s, machine.Reach s ∧
    s.received.map Return.toWords = [[Br.attemptAcquire.code, 0, 16, 32]] ∧
      s.interpreted = [[Br.attemptAcquire.code, 0, 16], [32]] ∧ ¬ s.Ordered := by
  refine ⟨(machine.run (initial ownCaller) [.talk (some [⟨.attemptAcquire, [0, 16, 32], rfl⟩]),
      .read, .ret, .read]).get (by decide),
    Machine.reach_of_run _ ⟨ownCaller, rfl⟩ (Option.some_get _).symm,
    by decide, by decide, fun h => ?_⟩
  obtain ⟨unread, -, hreceived⟩ := h.input
  have hlen := congrArg List.length hreceived
  rw [List.length_append] at hlen
  exact absurd (Nat.le.intro hlen.symm) (by decide)

end IPCThread
end Binder
end AndroidLinux
