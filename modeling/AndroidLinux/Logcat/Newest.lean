import AndroidLinux.Logcat.Merging

/-!
# What logcat prints

Without `-t` every entry read is printed once, a time-out prints a sorted batch, and the
entries of a device that arrive in the order of their time stamps are printed in that
order (`InTurn`).  With `-t n` an entry is skipped only when at least `n` entries behind it
are queued, so that a dump prints the `n` newest entries (`Newest`).
-/

namespace AndroidLinux
namespace Logcat

open Lib

variable {s s' : ReadState} {dev : Nat} {head : QueuedEntry} {tailLines : Int}

/-! ## The invariant over a run -/

theorem Merged.drainLoop (h : Merged s) (tailLines : Int) (fuel : Nat) :
    Merged (s.drainLoop tailLines fuel) :=
  drainLoop_invariant (I := Merged) tailLines (fun _ _ _ h hchoose _ => h.print hchoose)
    (fun _ _ _ h hchoose _ _ => h.skip hchoose) fuel h

theorem Merged.flags (h : Merged s) (sleep exited : Bool) :
    Merged { s with sleep := sleep, exited := exited } :=
  ⟨h.lines, h.ordered, h.serial_lt, h.serials, h.account⟩

/-- A property that is kept by receiving entries and by printing and skipping the first of
the queued ones is kept by a round of reads. -/
theorem reads_invariant {I : ReadState → Prop} (tailLines : Int)
    (hflags : ∀ s sleep exited, I s → I { s with sleep := sleep, exited := exited })
    (hprint : ∀ s dev head, Merged s → I s → chooseFirst s.devices = some (dev, head) →
      tailLines = 0 → I (s.print dev head))
    (hskip : ∀ s dev head, Merged s → I s → chooseFirst s.devices = some (dev, head) →
      tailLines ≠ 0 → tailLines < s.queuedLines → I (s.skip dev head))
    (results : List (Option ReadResult)) (h : Merged s) (hI : I (s.receive results)) :
    Merged (s.reads tailLines results) ∧ I (s.reads tailLines results) := by
  obtain ⟨hmerged, -, -⟩ := h.receive results
  rcases s.reads_cases tailLines results with ⟨exited, heq⟩ | heq
  · rw [heq]
    exact ⟨hmerged.flags _ _, hflags _ (s.receive results).sleep _ hI⟩
  · rw [heq]
    have hloop := earlyLoop_invariant (I := fun s => Merged s ∧ I s) tailLines
      (fun s dev head h hchoose htail =>
        ⟨h.1.print hchoose, hprint s dev head h.1 h.2 hchoose htail⟩)
      (fun s dev head h hchoose htail hmany =>
        ⟨h.1.skip hchoose, hskip s dev head h.1 h.2 hchoose htail hmany⟩)
      (s.receive results).queued.length ⟨hmerged, hI⟩
    exact ⟨hloop.1.flags _ _, hflags _ _ _ hloop.2⟩

/-- After a time-out nothing is queued. -/
theorem Merged.drainLoop_empty (h : Merged s) {fuel : Nat} (hfuel : s.queued.length ≤ fuel) :
    (s.drainLoop tailLines fuel).queued = [] := by
  induction fuel generalizing s with
  | zero => exact List.length_eq_zero_iff.mp (Nat.le_zero.mp hfuel)
  | succ fuel ih =>
      rw [ReadState.drainLoop]
      cases hchoose : chooseFirst s.devices with
      | none => exact chooseLoop_none hchoose
      | some p =>
          obtain ⟨dev, head⟩ := p
          have hlength := (h.take hchoose).1.length_eq
          rw [List.length_cons] at hlength
          have hless : (s.takeNext dev).queued.length ≤ fuel := by omega
          dsimp only
          split
          · exact ih (h.print hchoose) hless
          · exact ih (h.skip hchoose) hless

/-! ## In turn -/

/-- The entries of a device arrive in the order of their time stamps. -/
def ArrivesInOrder (arrived : List QueuedEntry) (d : Nat) : Prop :=
  ∀ a ∈ arrived, ∀ b ∈ arrived, a.dev = d → b.dev = d → a.serial < b.serial →
    a.time ≤ b.time

structure InTurn (s : ReadState) (d : Nat) : Prop where
  ahead : ∀ p ∈ s.printed, ∀ q ∈ s.queued, p.dev = d → q.dev = d → p.serial < q.serial
  turn : s.printed.Pairwise fun a b => a.dev = d → b.dev = d → a.serial < b.serial

/-- The first of the queued entries arrived before the others of its device. -/
theorem Merged.serial_head (h : Merged s) {d : Nat} (horder : ArrivesInOrder s.arrived d)
    (hchoose : chooseFirst s.devices = some (dev, head)) {q : QueuedEntry}
    (hq : q ∈ (s.takeNext dev).queued) (hhead : head.dev = d) (hqd : q.dev = d) :
    head.serial < q.serial := by
  obtain ⟨hperm, hbefore⟩ := h.take hchoose
  have hlt := hbefore q hq
  have hheadArrived := h.mem_arrived (hperm.mem_iff.mpr List.mem_cons_self)
  have hqArrived := h.mem_arrived (hperm.mem_iff.mpr (List.mem_cons_of_mem head hq))
  rcases Nat.lt_trichotomy head.serial q.serial with hless | heq | hgreater
  · exact hless
  · rw [h.serial_inj hheadArrived hqArrived heq] at hlt
    exact absurd hlt hlt.asymm
  · have hle := horder q hqArrived head hheadArrived hqd hhead hgreater
    unfold Before at hlt
    omega

theorem InTurn.print {d : Nat} (hturn : InTurn s d) (h : Merged s)
    (horder : ArrivesInOrder s.arrived d)
    (hchoose : chooseFirst s.devices = some (dev, head)) : InTurn (s.print dev head) d := by
  obtain ⟨hperm, -⟩ := h.take hchoose
  constructor
  · intro p hp q hq hpd hqd
    rcases List.mem_append.mp hp with hp | hp
    · exact hturn.ahead p hp q (hperm.mem_iff.mpr (List.mem_cons_of_mem head hq)) hpd hqd
    · rw [List.mem_singleton] at hp
      subst hp
      exact h.serial_head horder hchoose hq hpd hqd
  · refine List.pairwise_append.mpr ⟨hturn.turn, List.pairwise_singleton _ _, ?_⟩
    intro p hp q hq
    rw [List.mem_singleton] at hq
    subst hq
    exact hturn.ahead p hp q (hperm.mem_iff.mpr List.mem_cons_self)

theorem InTurn.receive {d : Nat} (hturn : InTurn s d) (h : Merged s)
    (results : List (Option ReadResult)) : InTurn (s.receive results) d := by
  obtain ⟨-, hperm, hnew⟩ := h.receive results
  refine ⟨fun p hp q hq hpd hqd => ?_, hturn.turn⟩
  rcases List.mem_append.mp (hperm.mem_iff.mp hq) with hq | hq
  · have harrived : p ∈ s.arrived :=
      h.account.mem_iff.mpr (List.mem_append_left _ (List.mem_append_left _ hp))
    have hlt := h.serial_lt p harrived
    have hle := hnew q hq
    omega
  · exact hturn.ahead p hp q hq hpd hqd

/-- `InTurn` for the devices whose entries arrive in order. -/
def AllInTurn (s : ReadState) : Prop := ∀ d, ArrivesInOrder s.arrived d → InTurn s d

/-! ## The newest -/

/-- Skipped entries have at least `n` entries behind them; the printed ones are sorted and
stand in front of the queued ones. -/
structure Newest (n : Int) (s : ReadState) : Prop where
  later : ∀ e ∈ s.skipped, n ≤ ((s.printed ++ s.queued).countP fun x => decide (Before e x))
  phase : s.printed ≠ [] → s.queuedLines + s.printed.length ≤ n
  sorted : s.printed.Pairwise Before
  ahead : ∀ p ∈ s.printed, ∀ q ∈ s.queued, Before p q

variable {n : Int}

theorem Newest.flags (h : Newest n s) (sleep exited : Bool) :
    Newest n { s with sleep := sleep, exited := exited } :=
  ⟨h.later, h.phase, h.sorted, h.ahead⟩

theorem Newest.print (hnew : Newest n s) (h : Merged s)
    (hchoose : chooseFirst s.devices = some (dev, head)) (hfew : s.queuedLines ≤ n) :
    Newest n (s.print dev head) := by
  obtain ⟨hperm, hbefore⟩ := h.take hchoose
  have hsame : (s.printed ++ s.queued).Perm
      (s.printed ++ [head] ++ (s.takeNext dev).queued) := by
    rw [List.append_assoc]
    exact hperm.append_left _
  refine ⟨fun e he => ?_, fun _ => ?_, ?_, ?_⟩
  · have hcount := hnew.later e he
    rw [hsame.countP_eq] at hcount
    exact hcount
  · show s.queuedLines - 1 + ((s.printed ++ [head]).length : Int) ≤ n
    rw [List.length_append, List.length_singleton]
    by_cases hnone : s.printed = []
    · rw [hnone]
      simp only [List.length_nil]
      omega
    · have hphase := hnew.phase hnone
      omega
  · refine List.pairwise_append.mpr ⟨hnew.sorted, List.pairwise_singleton _ _, ?_⟩
    intro p hp q hq
    rw [List.mem_singleton] at hq
    subst hq
    exact hnew.ahead p hp q (hperm.mem_iff.mpr List.mem_cons_self)
  · intro p hp q hq
    rcases List.mem_append.mp hp with hp | hp
    · exact hnew.ahead p hp q (hperm.mem_iff.mpr (List.mem_cons_of_mem head hq))
    · rw [List.mem_singleton] at hp
      subst hp
      exact hbefore q hq

/-- Skipping the first of more than `n` queued entries. -/
theorem Newest.skip (hnew : Newest n s) (h : Merged s)
    (hchoose : chooseFirst s.devices = some (dev, head)) (hmany : n < s.queuedLines) :
    Newest n (s.skip dev head) := by
  obtain ⟨hperm, hbefore⟩ := h.take hchoose
  have hlines := h.takeNext_lines hperm
  have hnone : s.printed = [] := by
    by_contra hsome
    have hphase := hnew.phase hsome
    omega
  -- an entry that the skipped one follows has all others behind it
  have hall : ∀ e, e = head ∨ Before e head →
      n ≤ ((s.takeNext dev).queued.countP fun x => decide (Before e x)) := by
    intro e he
    have hevery : ∀ x ∈ (s.takeNext dev).queued, decide (Before e x) = true := by
      intro x hx
      rcases he with rfl | he
      · exact decide_eq_true (hbefore x hx)
      · exact decide_eq_true (he.trans (hbefore x hx))
    rw [List.countP_eq_length.mpr hevery]
    omega
  refine ⟨fun e he => ?_, fun hsome => absurd hnone hsome, hnew.sorted, fun p hp => ?_⟩
  · show n ≤ ((s.printed ++ (s.takeNext dev).queued).countP _ : Nat)
    rw [hnone, List.nil_append]
    rcases List.mem_append.mp he with he | he
    · by_cases hhead : Before e head
      · exact hall e (Or.inr hhead)
      · have hcount := hnew.later e he
        rw [hnone, List.nil_append, hperm.countP_eq,
          List.countP_cons_of_neg (by simpa using hhead)] at hcount
        exact hcount
    · rw [List.mem_singleton] at he
      exact hall e (Or.inl he)
  · rw [show (s.skip dev head).printed = [] from hnone] at hp
    exact absurd hp List.not_mem_nil

theorem Newest.receive (hnew : Newest n s) (h : Merged s) (hnone : s.printed = [])
    (results : List (Option ReadResult)) : Newest n (s.receive results) := by
  obtain ⟨-, hperm, -⟩ := h.receive results
  refine ⟨fun e he => ?_, fun hsome => absurd hnone hsome, hnew.sorted, fun p hp => ?_⟩
  · have hcount := hnew.later e he
    show n ≤ ((s.printed ++ (s.receive results).queued).countP _ : Nat)
    rw [hnone, List.nil_append] at hcount ⊢
    rw [hperm.countP_eq, List.countP_append]
    push_cast
    omega
  · rw [show (s.receive results).printed = [] from hnone] at hp
    exact absurd hp List.not_mem_nil

/-! ## Runs -/

section Runs

variable {devCount : Nat} {nonblock : Bool}

theorem merged_init (devCount : Nat) :
    Merged ⟨List.replicate devCount [], 0, true, false, [], [], []⟩ := by
  have hempty : (List.replicate devCount ([] : List QueuedEntry)).flatten = [] := by
    induction devCount with
    | zero => rfl
    | succ n ih => exact ih
  refine ⟨?_, ordered_replicate devCount 0, fun e he => absurd he List.not_mem_nil,
    List.Pairwise.nil, ?_⟩
  · rw [ReadState.queued, hempty]
    rfl
  · rw [ReadState.queued, hempty]
    exact List.Perm.refl _

/-- The invariant rule for runs: what holds at the start and is kept by rounds of reads and
by time-outs. -/
theorem runs_invariant {I : ReadState → Prop}
    (hinit : I ⟨List.replicate devCount [], 0, true, false, [], [], []⟩)
    (hreads : ∀ s results, Merged s → I s → s.exited = false →
      I (s.reads tailLines results))
    (htimeOut : ∀ s, Merged s → I s → I (s.timeOut tailLines nonblock))
    (hreach : (readLogLines devCount tailLines nonblock).Reach s) : Merged s ∧ I s := by
  refine hreach.invariant (I := fun s => Merged s ∧ I s) ?_ ?_
  · rintro _ rfl
    exact ⟨merged_init devCount, hinit⟩
  · rintro s action s' ⟨h, hI⟩ - hstep
    simp only [readLogLines] at hstep
    split at hstep
    · cases hstep
    rename_i hexited
    cases action with
    | failed =>
        obtain rfl := Option.some.inj hstep
        exact ⟨h, hI⟩
    | ready results =>
        obtain rfl := Option.some.inj hstep
        have hmerged := reads_invariant (I := fun _ => True) tailLines
          (fun _ _ _ _ => trivial) (fun _ _ _ _ _ _ _ => trivial)
          (fun _ _ _ _ _ _ _ _ => trivial) results h trivial
        exact ⟨hmerged.1, hreads s results h hI (Bool.eq_false_iff.mpr hexited)⟩
    | timeOut =>
        dsimp only at hstep
        split at hstep
        · cases hstep
        obtain rfl := Option.some.inj hstep
        exact ⟨(h.drainLoop _ _).flags _ _, htimeOut s h hI⟩

theorem merged_of_reach (hreach : (readLogLines devCount tailLines nonblock).Reach s) :
    Merged s :=
  (runs_invariant (I := fun _ => True) trivial (fun _ _ _ _ _ => trivial)
    (fun _ _ _ => trivial) hreach).1

/-- A time-out step. -/
theorem timeOut_of_step
    (hstep : (readLogLines devCount tailLines nonblock).step s .timeOut = some s') :
    s.exited = false ∧ s' = s.timeOut tailLines nonblock := by
  simp only [readLogLines] at hstep
  split at hstep
  · cases hstep
  rename_i hexited
  split at hstep
  · cases hstep
  · exact ⟨Bool.eq_false_iff.mpr hexited, (Option.some.inj hstep).symm⟩

/-- Without `-t`. -/
def PrintsAll (s : ReadState) : Prop := s.skipped = [] ∧ AllInTurn s

theorem printsAll_of_reach (hreach : (readLogLines devCount 0 nonblock).Reach s) :
    PrintsAll s := by
  have hflags : ∀ s sleep exited, PrintsAll s →
      PrintsAll { s with sleep := sleep, exited := exited } :=
    fun s sleep exited h =>
      ⟨h.1, fun d horder => ⟨(h.2 d horder).ahead, (h.2 d horder).turn⟩⟩
  have hprint : ∀ s dev head, Merged s → PrintsAll s →
      chooseFirst s.devices = some (dev, head) → PrintsAll (s.print dev head) :=
    fun s dev head h hall hchoose =>
      ⟨hall.1, fun d horder => (hall.2 d horder).print h horder hchoose⟩
  refine (runs_invariant (I := PrintsAll) ⟨rfl, fun d _ => ⟨fun p hp =>
    absurd hp List.not_mem_nil, List.Pairwise.nil⟩⟩ ?_ ?_ hreach).2
  · intro s results h hall _
    refine (reads_invariant 0 hflags
      (fun s dev head h hI hchoose _ => hprint s dev head h hI hchoose)
      (fun _ _ _ _ _ _ htail _ => absurd rfl htail) results h ⟨hall.1, fun d horder => ?_⟩).2
    have hbefore : ArrivesInOrder s.arrived d := fun a ha b hb =>
      horder a (List.mem_append_left _ ha) b (List.mem_append_left _ hb)
    exact (hall.2 d hbefore).receive h results
  · intro s h hall
    have hloop := drainLoop_invariant (I := fun s => Merged s ∧ PrintsAll s) 0
      (fun s dev head h hchoose _ => ⟨h.1.print hchoose, hprint s dev head h.1 h.2 hchoose⟩)
      (fun _ _ _ _ _ htail _ => absurd rfl htail) s.queued.length ⟨h, hall⟩
    exact hflags _ _ _ hloop.2

/-- The batch of a time-out without `-t`. -/
theorem batch_of_timeOut (h : Merged s) (nonblock : Bool) :
    ∃ batch, (s.timeOut 0 nonblock).printed = s.printed ++ batch ∧ batch.Pairwise Before := by
  have hloop := drainLoop_invariant (s := s)
    (I := fun s₁ => Merged s₁ ∧ ∃ batch, s₁.printed = s.printed ++ batch ∧
      batch.Pairwise Before ∧ ∀ p ∈ batch, ∀ q ∈ s₁.queued, Before p q) 0
    (fun s₁ dev head ⟨h₁, batch, hprinted, hsorted, hahead⟩ hchoose _ => by
      obtain ⟨hperm, hbefore⟩ := h₁.take hchoose
      refine ⟨h₁.print hchoose, batch ++ [head], ?_, ?_, fun p hp q hq => ?_⟩
      · show s₁.printed ++ [head] = _
        rw [hprinted, List.append_assoc]
      · refine List.pairwise_append.mpr ⟨hsorted, List.pairwise_singleton _ _, ?_⟩
        intro p hp q hq
        rw [List.mem_singleton] at hq
        subst hq
        exact hahead p hp q (hperm.mem_iff.mpr List.mem_cons_self)
      · rcases List.mem_append.mp hp with hp | hp
        · exact hahead p hp q (hperm.mem_iff.mpr (List.mem_cons_of_mem head hq))
        · rw [List.mem_singleton] at hp
          subst hp
          exact hbefore q hq)
    (fun _ _ _ _ _ htail _ => absurd rfl htail) s.queued.length
    ⟨h, [], (List.append_nil _).symm, List.Pairwise.nil, fun p hp => absurd hp List.not_mem_nil⟩
  obtain ⟨-, batch, hprinted, hsorted, -⟩ := hloop
  exact ⟨batch, hprinted, hsorted⟩

/-- With `-t n`, before the first time-out. -/
def Dumping (n : Int) (s : ReadState) : Prop :=
  Newest n s ∧ (s.exited = false → s.printed = [])

variable {n : Int}

theorem dumping_of_reach (hn : 1 ≤ n) (hreach : (readLogLines devCount n true).Reach s) :
    Dumping n s := by
  refine (runs_invariant (I := Dumping n) ⟨⟨fun e he => absurd he List.not_mem_nil,
    fun hsome => absurd rfl hsome, List.Pairwise.nil, fun p hp => absurd hp List.not_mem_nil⟩,
    fun _ => rfl⟩ ?_ ?_ hreach).2
  · intro s results h hdump hexited
    have hnone := hdump.2 hexited
    have hreads := reads_invariant (I := fun s => Newest n s ∧ s.printed = []) n
      (fun s sleep exited hI => ⟨hI.1.flags sleep exited, hI.2⟩)
      (fun _ _ _ _ _ _ htail => by omega)
      (fun s dev head h hI hchoose _ hmany => ⟨hI.1.skip h hchoose hmany, hI.2⟩)
      results h ⟨hdump.1.receive h hnone results, hnone⟩
    exact ⟨hreads.2.1, fun _ => hreads.2.2⟩
  · intro s h hdump
    have hloop := drainLoop_invariant (I := fun s => Merged s ∧ Newest n s) n
      (fun s dev head h hchoose hcond =>
        ⟨h.1.print hchoose, h.2.print h.1 hchoose (by omega)⟩)
      (fun s dev head h hchoose _ hmany =>
        ⟨h.1.skip hchoose, h.2.skip h.1 hchoose hmany⟩)
      s.queued.length ⟨h, hdump.1⟩
    exact ⟨hloop.2.flags _ _, fun hfalse => by cases hfalse⟩

/-- At most `n` entries are printed, and `n` when some are skipped. -/
theorem Newest.length (hnew : Newest n s) (h : Merged s) (hn : 1 ≤ n) (hempty : s.queued = []) :
    (s.printed.length : Int) ≤ n ∧
      ∀ e ∈ s.skipped, s.printed.length = n ∧ ∀ x ∈ s.printed, Before e x := by
  have hfew : (s.printed.length : Int) ≤ n := by
    by_cases hnone : s.printed = []
    · rw [hnone]
      simp only [List.length_nil]
      omega
    · have hphase := hnew.phase hnone
      rw [h.lines, hempty] at hphase
      simpa using hphase
  refine ⟨hfew, fun e he => ?_⟩
  have hcount := hnew.later e he
  rw [hempty, List.append_nil] at hcount
  have hle := List.countP_le_length (p := fun x => decide (Before e x)) (l := s.printed)
  refine ⟨by omega, fun x hx => of_decide_eq_true ?_⟩
  exact List.countP_eq_length.mp (le_antisymm hle (by omega)) x hx

/-- When nothing is queued any more, the printed entries are the last `n` of all. -/
theorem Newest.last (hnew : Newest n s) (h : Merged s) (hn : 1 ≤ n) (hempty : s.queued = [])
    {all : List QueuedEntry} (hall : all.Perm s.arrived) (hsorted : all.Pairwise Before) :
    s.printed = all.drop (all.length - n.toNat) := by
  have haccount := hall.trans h.account
  rw [hempty, List.append_nil] at haccount
  obtain ⟨hfew, hlater⟩ := hnew.length h hn hempty
  classical
  -- the skipped entries in their order
  let old := all.filter fun e => decide (e ∈ s.skipped)
  have hold : old.Perm s.skipped := by
    have hnodup := haccount.nodup_iff.mp ((h.serials.imp fun {a b} hlt heq => by
      rw [heq] at hlt
      exact Nat.lt_irrefl _ hlt).perm hall.symm fun hne => hne.symm)
    have hprinted : s.printed.filter (fun e => decide (e ∈ s.skipped)) = [] :=
      List.filter_eq_nil_iff.mpr fun e he hskipped =>
        (List.disjoint_of_nodup_append hnodup) he (of_decide_eq_true hskipped)
    have hskipped : s.skipped.filter (fun e => decide (e ∈ s.skipped)) = s.skipped :=
      List.filter_eq_self.mpr fun e he => decide_eq_true he
    have hfilter := haccount.filter fun e => decide (e ∈ s.skipped)
    rw [List.filter_append, hprinted, hskipped] at hfilter
    exact hfilter
  have hsplit : all = old ++ s.printed := by
    have hasymm : ∀ a b, a ∈ all → b ∈ old ++ s.printed → Before a b → Before b a → a = b :=
      fun a b _ _ hab hba => absurd hba hab.asymm
    refine List.Perm.eq_of_pairwise hasymm hsorted ?_ ?_
    · exact List.pairwise_append.mpr ⟨hsorted.filter _, hnew.sorted,
        fun e he => (hlater e (hold.mem_iff.mp he)).2⟩
    · exact haccount.trans (List.perm_append_comm.trans (hold.symm.append_right _))
  have hlength := congrArg List.length hsplit
  rw [List.length_append] at hlength
  have hdrop : all.length - n.toNat = old.length := by
    by_cases hnone : s.skipped = []
    · have hzero := hold.length_eq
      rw [hnone] at hzero
      simp only [List.length_nil] at hzero
      omega
    · obtain ⟨e, he⟩ := List.exists_mem_of_ne_nil _ hnone
      have hnumber := (hlater e he).1
      omega
  rw [hdrop, hsplit, List.drop_left]

/-! ## Every run -/

/-- What holds in every state: the count, and the queues, each sorted by time stamp and
then by arrival. -/
structure QueuesOk (s : ReadState) : Prop where
  lines : s.queuedLines = s.queued.length
  sorted : ∀ queue ∈ s.devices, queue.Pairwise fun a b =>
    a.time < b.time ∨ a.time = b.time ∧ a.serial < b.serial

theorem Ordered.sorted {start : Nat} {devices : List (List QueuedEntry)}
    (h : Ordered start devices) : ∀ queue ∈ devices, queue.Pairwise fun a b =>
      a.time < b.time ∨ a.time = b.time ∧ a.serial < b.serial := by
  induction devices generalizing start with
  | nil => exact fun queue hqueue => absurd hqueue List.not_mem_nil
  | cons first rest ih =>
      obtain ⟨hsorted, hdev, hrest⟩ := h
      intro queue hqueue
      rcases List.mem_cons.mp hqueue with rfl | hqueue
      · refine hsorted.imp_of_mem fun {a b} ha hb hbefore => ?_
        have had := hdev a ha
        have hbd := hdev b hb
        unfold Before at hbefore
        omega
      · exact ih hrest queue hqueue

/-- Without `-t`: each entry read is printed or still queued, once; a time-out prints all
that is queued, in the order of the time stamps; and the entries of a device that arrive in
that order are printed in it. -/
structure AllPrinted (devCount : Nat) (nonblock : Bool) (s : ReadState) : Prop where
  once : s.arrived.Perm (s.printed ++ s.queued)
  batch : ∀ s', (readLogLines devCount 0 nonblock).step s .timeOut = some s' →
    s'.queued = [] ∧ ∃ batch, s'.printed = s.printed ++ batch ∧
      batch.Pairwise fun a b => a.time ≤ b.time
  inTurn : ∀ d, ArrivesInOrder s.arrived d →
    (s.printed.filter fun e => e.dev = d).Pairwise fun a b => a.serial < b.serial

/-- With `-t n`, behind the time-out that ends the dump: the printed entries are the last
`n` of all entries in their order, of which there may be fewer. -/
structure NewestPrinted (n : Int) (s : ReadState) : Prop where
  number : s.printed.length = min n.toNat s.arrived.length
  last : ∃ all : List QueuedEntry, all.Perm s.arrived ∧ all.Pairwise Before ∧
    s.printed = all.drop (all.length - n.toNat)

theorem allPrinted_of_reach (hreach : (readLogLines devCount 0 nonblock).Reach s) :
    AllPrinted devCount nonblock s := by
  have h := merged_of_reach hreach
  obtain ⟨hskipped, hturn⟩ := printsAll_of_reach hreach
  refine ⟨?_, fun s' hstep => ?_, fun d horder => ?_⟩
  · have haccount := h.account
    rwa [hskipped, List.append_nil] at haccount
  · obtain ⟨-, rfl⟩ := timeOut_of_step hstep
    obtain ⟨batch, hprinted, hsorted⟩ := batch_of_timeOut h nonblock
    exact ⟨h.drainLoop_empty le_rfl, batch, hprinted, hsorted.imp Before.time_le⟩
  · rw [List.pairwise_filter]
    exact (hturn d horder).turn.imp fun {a b} hab ha hb =>
      hab (of_decide_eq_true ha) (of_decide_eq_true hb)

/-- The entries in the order of `Before`. -/
theorem exists_sorted {arrived : List QueuedEntry}
    (hserials : arrived.Pairwise fun a b => a.serial < b.serial) :
    ∃ all : List QueuedEntry, all.Perm arrived ∧ all.Pairwise Before := by
  let le (a b : QueuedEntry) : Bool := decide (¬ Before b a)
  have hperm := List.mergeSort_perm arrived le
  refine ⟨arrived.mergeSort le, hperm, ?_⟩
  have hsorted : (arrived.mergeSort le).Pairwise fun a b => le a b = true := by
    refine List.pairwise_mergeSort ?_ ?_ arrived
    · intro a b c hab hbc
      simp only [le, decide_eq_true_eq] at hab hbc ⊢
      unfold Before at *
      omega
    · intro a b
      simp only [le, Bool.or_eq_true, decide_eq_true_eq]
      unfold Before
      omega
  have hdistinct : (arrived.mergeSort le).Pairwise fun a b => a.serial ≠ b.serial :=
    (hserials.imp Nat.ne_of_lt).perm hperm.symm fun hne => hne.symm
  refine (hsorted.and hdistinct).imp fun {a b} hab => ?_
  obtain ⟨hle, hne⟩ := hab
  simp only [le, decide_eq_true_eq] at hle
  unfold Before at *
  omega

theorem newestPrinted_of_timeOut (hn : 1 ≤ n) (hreach : (readLogLines devCount n true).Reach s)
    (hstep : (readLogLines devCount n true).step s .timeOut = some s') :
    NewestPrinted n s' := by
  have hreach' : (readLogLines devCount n true).Reach s' := .step hreach trivial hstep
  have h := merged_of_reach hreach'
  have hnew := (dumping_of_reach hn hreach').1
  have hempty : s'.queued = [] := by
    obtain ⟨-, rfl⟩ := timeOut_of_step hstep
    exact (merged_of_reach hreach).drainLoop_empty le_rfl
  obtain ⟨all, hall, hsorted⟩ := exists_sorted h.serials
  have hlast := hnew.last h hn hempty hall hsorted
  refine ⟨?_, all, hall, hsorted, hlast⟩
  rw [hlast, List.length_drop, hall.length_eq]
  omega

end Runs

/-- `readLogLines` for any devices and any schedule. -/
theorem logcat_merges (devCount : Nat) :
    (∀ tailLines nonblock s, (readLogLines devCount tailLines nonblock).Reach s →
      QueuesOk s) ∧
    (∀ nonblock s, (readLogLines devCount 0 nonblock).Reach s →
      AllPrinted devCount nonblock s) ∧
    ∀ n : Int, 1 ≤ n → ∀ s s', (readLogLines devCount n true).Reach s →
      (readLogLines devCount n true).step s .timeOut = some s' → NewestPrinted n s' := by
  refine ⟨fun tailLines nonblock s hreach => ?_, fun nonblock s hreach => ?_,
    fun n hn s s' hreach hstep => newestPrinted_of_timeOut hn hreach hstep⟩
  · have h := merged_of_reach hreach
    exact ⟨h.lines, h.ordered.sorted⟩
  · exact allPrinted_of_reach hreach

theorem early_sec (sec : Fin 8) : 0 ≤ (sec.val : Int) ∧ (sec.val : Int) < 2 ^ 31 := by
  omega

theorem zero_nsec : 0 ≤ (0 : Int) ∧ (0 : Int) < 10 ^ 9 := by
  decide

/-- An entry of one of the first seconds. -/
def entryAt (sec : Fin 8) : TimedEntry :=
  ⟨⟨0, 1, 1, sec.val, 0, []⟩, early_sec sec, zero_nsec⟩

/-- Two devices, of which the second delivers the older entry, and a dump of the newest. -/
theorem logcat_merges_two : ∃ s s',
    (readLogLines 2 1 true).run ⟨List.replicate 2 [], 0, true, false, [], [], []⟩
      [.ready [some (.entry (entryAt 5)), some (.entry (entryAt 3))]] = some s ∧
    (readLogLines 2 1 true).step s .timeOut = some s' ∧ NewestPrinted 1 s' := by
  have hrun : (readLogLines 2 1 true).run
      ⟨List.replicate 2 [], 0, true, false, [], [], []⟩
      [.ready [some (.entry (entryAt 5)), some (.entry (entryAt 3))]] = some
        (ReadState.reads ⟨List.replicate 2 [], 0, true, false, [], [], []⟩ 1
          [some (.entry (entryAt 5)), some (.entry (entryAt 3))]) := rfl
  exact ⟨_, _, hrun, rfl, (logcat_merges 2).2.2 1 (by decide) _ _
    (Machine.reach_of_run _ rfl hrun) rfl⟩

end Logcat
end AndroidLinux
