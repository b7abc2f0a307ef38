import AndroidLinux.Logcat.Choice

/-!
# Merging loses nothing

`Merged` is the invariant of `readLogLines`: the count of queued lines is right, the queues
are sorted, and the entries read are those printed, skipped and queued.  Every loop prints
or skips the first of all queued entries (`Merged.take`), so that a property is kept by a
loop if printing and skipping that entry keep it (`drainLoop_invariant`,
`earlyLoop_invariant`).  Two further invariants follow that pattern: `InTurn` for the order
of the entries of one device, and `Newest` for the entries that `-t` leaves.
-/

namespace AndroidLinux
namespace Logcat

open Lib

/-! ## Loops -/

section Loops

variable {I : ReadState → Prop} (tailLines : Int)

theorem drainLoop_invariant
    (hprint : ∀ s dev head, I s → chooseFirst s.devices = some (dev, head) →
      tailLines = 0 ∨ s.queuedLines ≤ tailLines → I (s.print dev head))
    (hskip : ∀ s dev head, I s → chooseFirst s.devices = some (dev, head) →
      tailLines ≠ 0 → tailLines < s.queuedLines → I (s.skip dev head))
    (fuel : Nat) {s : ReadState} (h : I s) : I (s.drainLoop tailLines fuel) := by
  induction fuel generalizing s with
  | zero => exact h
  | succ fuel ih =>
      rw [ReadState.drainLoop]
      cases hchoose : chooseFirst s.devices with
      | none => exact h
      | some p =>
          dsimp only
          split
          · rename_i hcond
            exact ih (hprint s p.1 p.2 h hchoose hcond)
          · rename_i hcond
            exact ih (hskip s p.1 p.2 h hchoose (by omega) (by omega))

theorem earlyLoop_invariant
    (hprint : ∀ s dev head, I s → chooseFirst s.devices = some (dev, head) →
      tailLines = 0 → I (s.print dev head))
    (hskip : ∀ s dev head, I s → chooseFirst s.devices = some (dev, head) →
      tailLines ≠ 0 → tailLines < s.queuedLines → I (s.skip dev head))
    (fuel : Nat) {s : ReadState} (h : I s) : I (s.earlyLoop tailLines fuel) := by
  induction fuel generalizing s with
  | zero => exact h
  | succ fuel ih =>
      rw [ReadState.earlyLoop]
      split
      · rename_i hcond
        cases hchoose : chooseFirst s.devices with
        | none => exact h
        | some p =>
            dsimp only
            split
            · exact h
            split
            · rename_i htail
              exact ih (hprint s p.1 p.2 h hchoose htail)
            · rename_i htail
              exact ih (hskip s p.1 p.2 h hchoose htail (by omega))
      · exact h

end Loops

/-! ## The invariant -/

structure Merged (s : ReadState) : Prop where
  lines : s.queuedLines = s.queued.length
  ordered : Ordered 0 s.devices
  serial_lt : ∀ e ∈ s.arrived, e.serial < s.arrived.length
  serials : s.arrived.Pairwise fun a b => a.serial < b.serial
  account : s.arrived.Perm (s.printed ++ s.skipped ++ s.queued)

variable {s s' : ReadState} {dev : Nat} {head : QueuedEntry} {tailLines : Int}

theorem Merged.nodup (h : Merged s) : (s.printed ++ s.skipped ++ s.queued).Nodup := by
  refine h.account.nodup_iff.mp (h.serials.imp ?_)
  intro a b hlt heq
  rw [heq] at hlt
  exact Nat.lt_irrefl _ hlt

theorem Merged.serial_inj (h : Merged s) {a b : QueuedEntry} (ha : a ∈ s.arrived)
    (hb : b ∈ s.arrived) (heq : a.serial = b.serial) : a = b := by
  have hnodup : (s.arrived.map QueuedEntry.serial).Nodup := by
    rw [List.Nodup, List.pairwise_map]
    exact h.serials.imp fun hlt => Nat.ne_of_lt hlt
  exact List.inj_on_of_nodup_map hnodup ha hb heq

theorem Merged.mem_arrived (h : Merged s) {e : QueuedEntry} (he : e ∈ s.queued) :
    e ∈ s.arrived :=
  h.account.mem_iff.mpr (List.mem_append_right _ he)

/-- The entry that is taken is the first of those in the queues. -/
theorem Merged.take (h : Merged s) (hchoose : chooseFirst s.devices = some (dev, head)) :
    s.queued.Perm (head :: (s.takeNext dev).queued) ∧
      ∀ e ∈ (s.takeNext dev).queued, Before head e := by
  obtain ⟨⟨queue, hqueue⟩, hall⟩ := chooseFirst_some h.ordered hchoose
  have hperm : s.queued.Perm (head :: (s.takeNext dev).queued) := flatten_modify hqueue
  refine ⟨hperm, fun e he => ?_⟩
  have hnodup := hperm.nodup_iff.mp h.nodup.of_append_right
  rcases hall e (hperm.mem_iff.mpr (List.mem_cons_of_mem head he)) with rfl | hbefore
  · exact absurd he (List.nodup_cons.mp hnodup).1
  · exact hbefore

theorem Merged.takeNext_lines (h : Merged s)
    (hperm : s.queued.Perm (head :: (s.takeNext dev).queued)) :
    s.queuedLines - 1 = (s.takeNext dev).queued.length := by
  have hlength := hperm.length_eq
  rw [List.length_cons] at hlength
  rw [h.lines]
  omega

theorem Merged.print (h : Merged s) (hchoose : chooseFirst s.devices = some (dev, head)) :
    Merged (s.print dev head) := by
  obtain ⟨hperm, -⟩ := h.take hchoose
  refine ⟨h.takeNext_lines hperm, h.ordered.modify, h.serial_lt, h.serials, ?_⟩
  refine h.account.trans ((hperm.append_left _).trans (List.perm_middle.trans ?_))
  show List.Perm _ (s.printed ++ [head] ++ s.skipped ++ (s.takeNext dev).queued)
  simp only [List.append_assoc, List.singleton_append]
  exact List.perm_middle.symm

theorem Merged.skip (h : Merged s) (hchoose : chooseFirst s.devices = some (dev, head)) :
    Merged (s.skip dev head) := by
  obtain ⟨hperm, -⟩ := h.take hchoose
  refine ⟨h.takeNext_lines hperm, h.ordered.modify, h.serial_lt, h.serials, ?_⟩
  refine h.account.trans ((hperm.append_left _).trans ?_)
  show List.Perm _ (s.printed ++ (s.skipped ++ [head]) ++ (s.takeNext dev).queued)
  rw [← List.append_assoc, List.append_assoc _ [head]]
  exact List.Perm.refl _

/-! ## Reading -/

theorem perm_append_left (a b c : List QueuedEntry) : (a ++ (b ++ c)).Perm (b ++ (a ++ c)) := by
  rw [← List.append_assoc, ← List.append_assoc]
  exact List.perm_append_comm.append_right c

/-- What the loop over the devices reads goes to the queues. -/
theorem readLoop_spec {dev serial : Nat} {devices : List (List QueuedEntry)}
    (results : List (Option ReadResult)) (hordered : Ordered dev devices)
    (hserial : ∀ e ∈ devices.flatten, e.serial < serial) :
    Ordered dev (readLoop dev serial devices results).1 ∧
      (readLoop dev serial devices results).1.flatten.Perm
        ((readLoop dev serial devices results).2.1 ++ devices.flatten) ∧
      ((readLoop dev serial devices results).2.1.Pairwise fun a b => a.serial < b.serial) ∧
      ∀ e ∈ (readLoop dev serial devices results).2.1, serial ≤ e.serial ∧
        e.serial < serial + (readLoop dev serial devices results).2.1.length := by
  -- nothing is read any more
  have hstop : ∀ {dev serial : Nat} {devices : List (List QueuedEntry)}, Ordered dev devices →
      Ordered dev devices ∧ devices.flatten.Perm ([] ++ devices.flatten) ∧
        (([] : List QueuedEntry).Pairwise fun a b => a.serial < b.serial) ∧
        ∀ e ∈ ([] : List QueuedEntry), serial ≤ e.serial ∧
          e.serial < serial + ([] : List QueuedEntry).length :=
    fun hordered => ⟨hordered, List.Perm.refl _, List.Pairwise.nil,
      fun e he => absurd he List.not_mem_nil⟩
  induction devices generalizing dev serial results with
  | nil => exact hstop hordered
  | cons queue rest ih =>
      obtain ⟨hsorted, hdev, hrest⟩ := hordered
      have hserialQueue : ∀ e ∈ queue, e.serial < serial := fun e he =>
        hserial e (List.mem_append_left _ he)
      have hserialRest : ∀ e ∈ rest.flatten, e.serial < serial := fun e he =>
        hserial e (List.mem_append_right _ he)
      cases results with
      | nil => exact hstop ⟨hsorted, hdev, hrest⟩
      | cons result results =>
          cases result with
          | none =>
              obtain ⟨ho, hperm, hpair, hrange⟩ := ih results hrest hserialRest
              refine ⟨⟨hsorted, hdev, ho⟩, ?_, hpair, hrange⟩
              exact (hperm.append_left queue).trans (perm_append_left ..)
          | some result =>
              cases result with
              | entry e =>
                  have hserialNext : ∀ x ∈ rest.flatten, x.serial < serial + 1 :=
                    fun x hx => Nat.lt_succ_of_lt (hserialRest x hx)
                  obtain ⟨ho, hperm, hpair, hrange⟩ := ih results hrest hserialNext
                  have hlast : ∀ x ∈ queue, x.dev = dev ∧ x.serial < serial := fun x hx =>
                    ⟨hdev x hx, hserialQueue x hx⟩
                  have hqueue := enqueueLoop_perm ⟨e, dev, serial⟩ queue
                  simp only [readLoop, enqueue_eq]
                  refine ⟨⟨enqueueLoop_sorted hsorted hlast, fun x hx => ?_, ho⟩, ?_,
                    ?_, ?_⟩
                  · rcases List.mem_cons.mp (hqueue.mem_iff.mp hx) with rfl | hx
                    · rfl
                    · exact hdev x hx
                  · rw [List.flatten_cons, List.flatten_cons, List.cons_append]
                    exact (hqueue.append hperm).trans (List.Perm.cons _ (perm_append_left ..))
                  · exact List.pairwise_cons.mpr
                      ⟨fun x hx => Nat.lt_of_succ_le (hrange x hx).1, hpair⟩
                  · intro x hx
                    rw [List.length_cons]
                    rcases List.mem_cons.mp hx with rfl | hx
                    · exact ⟨le_rfl, by show serial < _; omega⟩
                    · have hx := hrange x hx
                      omega
              | interrupted => exact hstop ⟨hsorted, hdev, hrest⟩
              | again => exact hstop ⟨hsorted, hdev, hrest⟩
              | failed => exact hstop ⟨hsorted, hdev, hrest⟩

/-- The state behind a round of reads, before anything is printed. -/
def ReadState.receive (s : ReadState) (results : List (Option ReadResult)) : ReadState :=
  let r := readLoop 0 s.arrived.length s.devices results
  { s with
    devices := r.1
    queuedLines := s.queuedLines + r.2.1.length
    arrived := s.arrived ++ r.2.1 }

theorem Merged.receive (h : Merged s) (results : List (Option ReadResult)) :
    Merged (s.receive results) ∧
      (s.receive results).queued.Perm
        ((readLoop 0 s.arrived.length s.devices results).2.1 ++ s.queued) ∧
      ∀ e ∈ (readLoop 0 s.arrived.length s.devices results).2.1,
        s.arrived.length ≤ e.serial := by
  obtain ⟨hordered, hperm, hpair, hrange⟩ := readLoop_spec results h.ordered
    fun e he => h.serial_lt e (h.mem_arrived he)
  have hqueued : (s.receive results).queued.Perm
      ((readLoop 0 s.arrived.length s.devices results).2.1 ++ s.queued) := hperm
  refine ⟨⟨?_, hordered, ?_, ?_, ?_⟩, hqueued, fun e he => (hrange e he).1⟩
  · show s.queuedLines + _ = _
    rw [hqueued.length_eq, List.length_append, h.lines]
    push_cast
    omega
  · intro e he
    show e.serial < (s.arrived ++ _).length
    rw [List.length_append]
    rcases List.mem_append.mp he with he | he
    · have hlt := h.serial_lt e he
      omega
    · exact (hrange e he).2
  · refine List.pairwise_append.mpr ⟨h.serials, hpair, fun a ha b hb => ?_⟩
    have hlt := h.serial_lt a ha
    have hle := (hrange b hb).1
    omega
  · show (s.arrived ++ _).Perm (s.printed ++ s.skipped ++ (s.receive results).queued)
    refine (h.account.append_right _).trans ?_
    rw [List.append_assoc]
    exact (List.perm_append_comm.trans hqueued.symm).append_left _

/-- A round of reads receives entries, and may print or skip some. -/
theorem ReadState.reads_cases (s : ReadState) (tailLines : Int)
    (results : List (Option ReadResult)) :
    (∃ exited, s.reads tailLines results =
      { s.receive results with exited := s.exited || exited }) ∨
    s.reads tailLines results =
      { earlyLoop tailLines (s.receive results).queued.length (s.receive results) with
        sleep := false } := by
  unfold ReadState.reads
  cases hend : (readLoop 0 s.arrived.length s.devices results).2.2 with
  | done =>
      refine Or.inr ?_
      simp only [hend]
      rfl
  | next =>
      refine Or.inl ⟨false, ?_⟩
      simp only [hend, Bool.or_false]
      rfl
  | exit =>
      refine Or.inl ⟨true, ?_⟩
      simp only [hend, Bool.or_true]
      rfl

end Logcat
end AndroidLinux
