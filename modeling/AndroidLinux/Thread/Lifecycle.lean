import AndroidLinux.Thread.Manager

/-!
# The life of a thread record

What a run does to one record is a sequence of stages (`Stage`), as long as the threads
keep an order that the code itself does not enforce (`Orderly`): a thread reads its id
from its record only after the creator has stored it there, an end procedure is not
registered for a thread that the running list does not show yet or any more and that has
not ended, and no thread with an end procedure is joined by `HI_PthreadMNG_Join`.  The
last part of the module has a run that does not keep it.
-/

namespace AndroidLinux
namespace Thread

open Lib

/-- The thread executes its function, or what `PthreadMng_PthreadProc` does around it up
to `HI_PthreadMNG_Del`. -/
def ThreadPc.working : ThreadPc → Prop
  | .start => True
  | .run => True
  | .read => True
  | _ => False

/-- The stages of the record `r`, with the lists that it is in. -/
inductive Stage (r : Nat) : (allocated running exited : Prop) → Slot → Prop
  | fresh : Stage r False False False Slot.blank
  | created : Stage r True True False
      ⟨some ⟨0, .init, none⟩, .create, .none, 0, .none, 0, [], [], []⟩
  | failed : Stage r True True False
      ⟨some ⟨0, .init, none⟩, .remove, .none, 0, .none, 0, [], [], []⟩
  | aborted : Stage r True False False
      ⟨none, .done, .none, 0, .none, 0, [], [], []⟩
  | unstored {id : UInt32} {status : Status} {pc : ThreadPc} (hid : id ≠ 0) (hpc : pc.working) :
      Stage r True True False
        ⟨some ⟨0, status, none⟩, .store id, pc, id, .none, 0, [], [], []⟩
  | running {id : UInt32} {status : Status} {e : Option EndProc} {pc : ThreadPc} (hid : id ≠ 0)
      (hpc : pc.working ∨ pc = .del id) :
      Stage r True True False
        ⟨some ⟨id, status, e⟩, .done, pc, id, .none, 0, e.toList, [], []⟩
  | exited {id : UInt32} {status : Status} {e : Option EndProc} {pc : ThreadPc}
      {registered called : List EndProc} (hid : id ≠ 0) (hpc : pc.finished)
      (hperm : registered.Perm (e.toList ++ called)) :
      Stage r True False True
        ⟨some ⟨id, status, e⟩, .done, pc, id, .none, 0, registered, called, [r]⟩
  | joining {id : UInt32} {status : Status} {pc : ThreadPc} {registered called : List EndProc}
      {movedBy : List Nat} (hid : id ≠ 0) (hpc : pc.working ∨ pc = .del id ∨ pc.finished)
      (hcalled : called ≠ [] → pc.finished) (hperm : registered.Perm called)
      (hmoved : ∀ y ∈ movedBy, y = r) :
      Stage r True False False
        ⟨some ⟨id, status, none⟩, .done, pc, id, .join id, 0, registered, called, movedBy⟩
  | joined {id : UInt32} {status : Status} {registered called : List EndProc}
      {movedBy : List Nat} (hperm : registered.Perm called) (hmoved : ∀ y ∈ movedBy, y = r) :
      Stage r True False False
        ⟨some ⟨id, status, none⟩, .done, .ended, id, .free, 1, registered, called, movedBy⟩
  | collected {id : UInt32} {joiner : JoinerPc} {registered called : List EndProc}
      {movedBy : List Nat} (hjoiner : joiner = .none ∨ joiner = .done)
      (hperm : registered.Perm called) (hmoved : ∀ y ∈ movedBy, y = r) :
      Stage r True False False
        ⟨none, .done, .ended, id, joiner, 1, registered, called, movedBy⟩

namespace TrdMng

/-- Whether a record has been allocated, and the lists that it is in. -/
structure Listed (s : TrdMng) (r : Nat) (allocated running exited : Prop) : Prop where
  allocated : r < s.next ↔ allocated
  running : r ∈ s.pthreadMng ↔ running
  exited : r ∈ s.pthreadMngExit ↔ exited

/-- The stage of a record in a state. -/
def InStage (s : TrdMng) (r : Nat) : Prop :=
  ∃ allocated running exited v, s.slots r = v ∧ s.Listed r allocated running exited ∧
    Stage r allocated running exited v

/-- Every record is in a stage, and the numbers of the threads that have not been joined
are different. -/
structure Inv (s : TrdMng) : Prop where
  stage : ∀ r, s.InStage r
  ids : ∀ x y, (s.slots x).Live → (s.slots y).Live → (s.slots x).tid = (s.slots y).tid → x = y
  nodup : s.pthreadMng.Nodup
  nodupExit : s.pthreadMngExit.Nodup
  pending : ∀ e ∈ s.immediate, ∀ y ∈ e.1, (s.slots y).thread.finished
  noFault : s.fault = false

variable {s s' : TrdMng} {r x : Nat} {v w : Slot} {id : UInt32}

theorem inv_start : start.Inv where
  stage _ := ⟨_, _, _, _, rfl, ⟨by simp [start], by simp [start], by simp [start]⟩, .fresh⟩
  ids x _ hx := absurd rfl hx.1
  nodup := List.nodup_nil
  nodupExit := List.nodup_nil
  pending e he := absurd he List.not_mem_nil
  noFault := rfl

/-! ## What the invariant says about one record -/

theorem Inv.lt_of_live (h : s.Inv) (hlive : (s.slots r).Live) : r < s.next := by
  obtain ⟨a, b, c, v, hv, hl, hstage⟩ := h.stage r
  rw [hl.allocated]
  cases hstage with
  | fresh => exact absurd (congrArg Slot.thread hv) hlive.1
  | _ => trivial

/-- A number stands for the thread that has it and has not been joined. -/
theorem Inv.target_eq (h : s.Inv) (hlive : (s.slots r).Live) (hid : (s.slots r).tid = id) :
    s.target id = some r := by
  have hfound : (s.target id).isSome := by
    rw [target, List.find?_isSome]
    exact ⟨r, List.mem_range.mpr (h.lt_of_live hlive), by simpa using ⟨hlive, hid⟩⟩
  obtain ⟨y, hy⟩ := Option.isSome_iff_exists.mp hfound
  have hprop := List.find?_some hy
  rw [decide_eq_true_eq] at hprop
  rw [hy, h.ids y r hprop.1 hlive (hprop.2.trans hid.symm)]

theorem target_some (hy : s.target id = some r) : (s.slots r).Live ∧ (s.slots r).tid = id := by
  have hprop := List.find?_some hy
  rwa [decide_eq_true_eq] at hprop

/-- A record of the running list with the number `id`, when it is not 0, is the record of
the thread that has it. -/
theorem Inv.lookup_running (h : s.Inv) (hid : id ≠ 0)
    (hfind : s.lookup s.pthreadMng id = some r) :
    s.Listed r True True False ∧ ∃ status e pc, (pc.working ∨ pc = .del id) ∧ s.slots r =
      ⟨some ⟨id, status, e⟩, .done, pc, id, .none, 0, e.toList, [], []⟩ := by
  have hmem := List.mem_of_find?_eq_some hfind
  have hprop := List.find?_some hfind
  obtain ⟨a, b, c, v, hv, hl, hstage⟩ := h.stage r
  rw [hl.running] at hmem
  rw [hv] at hprop
  cases hstage with
  | created => simp at hprop; exact absurd hprop.symm hid
  | failed => simp at hprop; exact absurd hprop.symm hid
  | unstored hid' hpc => simp at hprop; exact absurd hprop.symm hid
  | running hid' hpc =>
      simp only [Option.elim_some, decide_eq_true_eq] at hprop
      subst hprop
      exact ⟨hl, _, _, _, hpc, hv⟩
  | _ => exact hmem.elim

/-- Likewise in the list of the exited threads. -/
theorem Inv.lookup_exited (h : s.Inv) (hfind : s.lookup s.pthreadMngExit id = some r) :
    s.Listed r True False True ∧ id ≠ 0 ∧ ∃ status e pc registered called,
      ThreadPc.finished pc ∧ registered.Perm (e.toList ++ called) ∧ s.slots r =
        ⟨some ⟨id, status, e⟩, .done, pc, id, .none, 0, registered, called, [r]⟩ := by
  have hmem := List.mem_of_find?_eq_some hfind
  have hprop := List.find?_some hfind
  obtain ⟨a, b, c, v, hv, hl, hstage⟩ := h.stage r
  rw [hl.exited] at hmem
  rw [hv] at hprop
  cases hstage with
  | exited hid hpc hperm =>
      simp only [Option.elim_some, decide_eq_true_eq] at hprop
      subst hprop
      exact ⟨hl, hid, _, _, _, _, _, hpc, hperm, hv⟩
  | _ => exact hmem.elim

/-! ## Steps on one record -/

theorem Listed.congr {a b c : Prop} (h : s.Listed r a b c) (hnext : r < s'.next ↔ r < s.next)
    (hrun : r ∈ s'.pthreadMng ↔ r ∈ s.pthreadMng)
    (hexit : r ∈ s'.pthreadMngExit ↔ r ∈ s.pthreadMngExit) : s'.Listed r a b c :=
  ⟨hnext.trans h.allocated, hrun.trans h.running, hexit.trans h.exited⟩

/-- A step that changes one record and its place in the lists. -/
theorem Inv.update (h : s.Inv) (hold : s.slots r = w)
    (hslots : s'.slots = Function.update s.slots r v)
    (hothers : ∀ u ≠ r, (u < s'.next ↔ u < s.next) ∧ (u ∈ s'.pthreadMng ↔ u ∈ s.pthreadMng) ∧
      (u ∈ s'.pthreadMngExit ↔ u ∈ s.pthreadMngExit))
    (hstage : ∃ a b c, s'.Listed r a b c ∧ Stage r a b c v)
    (hids : v.Live → ∀ u ≠ r, (s.slots u).Live → (s.slots u).tid ≠ v.tid)
    (hnodup : s'.pthreadMng.Nodup) (hnodupExit : s'.pthreadMngExit.Nodup)
    (hfinished : w.thread.finished → v.thread.finished)
    (hpending : ∀ e ∈ s'.immediate, e ∈ s.immediate ∨ ∀ y ∈ e.1, (s.slots y).thread.finished)
    (hfault : s'.fault = s.fault) : s'.Inv where
  stage u := by
    by_cases hu : u = r
    · subst hu
      obtain ⟨a, b, c, hl, hst⟩ := hstage
      exact ⟨a, b, c, v, by rw [hslots, Function.update_self], hl, hst⟩
    · obtain ⟨a, b, c, w, hw, hl, hst⟩ := h.stage u
      obtain ⟨hnext, hrun, hexit⟩ := hothers u hu
      exact ⟨a, b, c, w, by rw [hslots, Function.update_of_ne hu, hw],
        hl.congr hnext hrun hexit, hst⟩
  ids x y := by
    rw [hslots]
    intro hx hy hxy
    by_cases hxr : x = r
    · subst hxr
      by_contra hne
      rw [Function.update_self] at hx hxy
      rw [Function.update_of_ne (Ne.symm hne)] at hy hxy
      exact hids hx y (Ne.symm hne) hy hxy.symm
    · rw [Function.update_of_ne hxr] at hx hxy
      by_cases hyr : y = r
      · subst hyr
        rw [Function.update_self] at hy hxy
        exact absurd hxy (hids hy x hxr hx)
      · rw [Function.update_of_ne hyr] at hy hxy
        exact h.ids x y hx hy hxy
  nodup := hnodup
  nodupExit := hnodupExit
  pending e he y hy := by
    have hy' : (s.slots y).thread.finished := by
      rcases hpending e he with hmem | hall
      · exact h.pending e hmem y hy
      · exact hall y hy
    rw [hslots]
    by_cases hyr : y = r
    · subst hyr
      rw [Function.update_self]
      exact hfinished (hold ▸ hy')
    · rw [Function.update_of_ne hyr]
      exact hy'
  noFault := hfault.trans h.noFault

/-- A step that changes one record and no list. -/
theorem Inv.setSlot (h : s.Inv) (hold : s.slots r = w) {a b c : Prop} (hl : s.Listed r a b c)
    (hstage : Stage r a b c v) (hlive : v.Live → w.Live ∧ w.tid = v.tid)
    (hfinished : w.thread.finished → v.thread.finished) : (s.setSlot r v).Inv := by
  refine h.update hold rfl (fun u _ => ⟨Iff.rfl, Iff.rfl, Iff.rfl⟩)
    ⟨a, b, c, hl.congr Iff.rfl Iff.rfl Iff.rfl, hstage⟩ ?_ h.nodup h.nodupExit hfinished
    (fun e he => .inl he) rfl
  intro hv u hu hulive heq
  obtain ⟨hrlive, htid⟩ := hlive hv
  rw [← hold] at hrlive htid
  exact hu (h.ids u r hulive hrlive (heq.trans htid.symm))

theorem Inv.addRecord (h : s.Inv) : s.addRecord.Inv := by
  have hfresh : s.slots s.next = Slot.blank ∧ s.next ∉ s.pthreadMng ∧
      s.next ∉ s.pthreadMngExit := by
    obtain ⟨a, b, c, v, hv, hl, hstage⟩ := h.stage s.next
    have hnot := hl.allocated.not.mp (lt_irrefl s.next)
    have hrun := hl.running
    have hexit := hl.exited
    cases hstage with
    | fresh => exact ⟨hv, hrun.not.mpr not_false, hexit.not.mpr not_false⟩
    | _ => exact absurd trivial hnot
  obtain ⟨hblank, hrun, hexit⟩ := hfresh
  refine h.update hblank rfl ?_ ⟨_, _, _, ?_, .created⟩ (fun hlive => absurd rfl hlive.1) ?_
    h.nodupExit (fun hf => hf.elim) (fun e he => .inl he) rfl
  · intro u hu
    refine ⟨?_, ?_, Iff.rfl⟩
    · change u < s.next + 1 ↔ u < s.next
      omega
    · simp [TrdMng.addRecord, hu]
  · exact ⟨by simp [TrdMng.addRecord], by simp [TrdMng.addRecord], iff_of_false hexit not_false⟩
  · change (s.pthreadMng ++ [s.next]).Nodup
    rw [List.nodup_append]
    refine ⟨h.nodup, List.nodup_singleton _, ?_⟩
    intro x hx y hy hxy
    rw [List.mem_singleton] at hy
    exact hrun (hy ▸ hxy ▸ hx)

theorem Inv.createThread (h : s.Inv) {u32Threadp : Option UInt32}
    (hstep : s.createThread r u32Threadp = some s') : s'.Inv := by
  obtain ⟨a, b, c, v, hv, hl, hstage⟩ := h.stage r
  unfold TrdMng.createThread at hstep
  rw [hv] at hstep
  cases hstage with
  | created =>
      cases u32Threadp with
      | none =>
          obtain rfl := Option.some.inj hstep
          exact h.setSlot hv hl .failed (fun hlive => absurd rfl hlive.1) id
      | some id =>
          dsimp only at hstep
          split at hstep
          · cases hstep
          · rename_i hnew
            rw [not_or] at hnew
            obtain rfl := Option.some.inj hstep
            refine h.update hv rfl (fun u _ => ⟨Iff.rfl, Iff.rfl, Iff.rfl⟩)
              ⟨_, _, _, hl.congr Iff.rfl Iff.rfl Iff.rfl, .unstored hnew.1 trivial⟩ ?_ h.nodup
              h.nodupExit (fun hf => hf.elim) (fun e he => .inl he) rfl
            intro _ u _ hulive hid
            exact hnew.2 (by rw [h.target_eq hulive hid]; rfl)
  | unstored => cases u32Threadp <;> cases hstep
  | _ => cases u32Threadp <;> cases hstep

theorem Inv.storeThread (h : s.Inv) (hstep : s.storeThread r = some s') : s'.Inv := by
  obtain ⟨a, b, c, v, hv, hl, hstage⟩ := h.stage r
  unfold TrdMng.storeThread at hstep
  rw [hv] at hstep
  cases hstage with
  | unstored hid hpc =>
      obtain rfl := Option.some.inj hstep
      rw [access, hv]
      exact h.setSlot hv hl (.running hid (.inl hpc)) (fun hlive => ⟨hlive, rfl⟩)
        id
  | _ => cases hstep

theorem Inv.removeFailed (h : s.Inv) (hstep : s.removeFailed r = some s') : s'.Inv := by
  obtain ⟨a, b, c, v, hv, hl, hstage⟩ := h.stage r
  unfold TrdMng.removeFailed at hstep
  rw [hv] at hstep
  cases hstage with
  | failed =>
      obtain rfl := Option.some.inj hstep
      rw [access, hv]
      refine h.update hv rfl ?_ ⟨_, _, _, ?_, .aborted⟩ (fun hlive => absurd rfl hlive.1)
        (h.nodup.erase r) (h.nodupExit.erase r) id (fun e he => .inl he) rfl
      · intro u hu
        exact ⟨Iff.rfl, List.mem_erase_of_ne hu, List.mem_erase_of_ne hu⟩
      · exact ⟨hl.allocated, iff_of_false h.nodup.not_mem_erase not_false,
          iff_of_false h.nodupExit.not_mem_erase not_false⟩
  | _ => cases hstep

/-- The thread of a working record writes its status. -/
theorem Inv.writeStatus (h : s.Inv) {pc pc' : ThreadPc} (status : Status)
    (hpc : (s.slots r).thread = pc) (hworking : pc.working) (hworking' : pc'.working) :
    (s.writeStatus r status pc').Inv := by
  have hnf : ¬ pc.finished := by cases pc <;> first | exact hworking.elim | exact id
  have hnn : pc ≠ .none := by rintro rfl; exact hworking
  obtain ⟨a, b, c, v, hv, hl, hstage⟩ := h.stage r
  rw [hv] at hpc
  subst hpc
  unfold TrdMng.writeStatus
  rw [access, hv]
  cases hstage with
  | unstored hid _ =>
      exact h.setSlot hv hl (.unstored hid hworking') (fun _ => ⟨⟨hnn, rfl⟩, rfl⟩)
        (fun hf => absurd hf hnf)
  | running hid _ =>
      exact h.setSlot hv hl (.running hid (.inl hworking')) (fun _ => ⟨⟨hnn, rfl⟩, rfl⟩)
        (fun hf => absurd hf hnf)
  | joining hid _ hcalled hperm hmoved =>
      refine h.setSlot hv hl (.joining hid (.inl hworking') ?_ hperm hmoved)
        (fun _ => ⟨⟨hnn, rfl⟩, rfl⟩) (fun hf => absurd hf hnf)
      exact fun hne => absurd (hcalled hne) hnf
  | exited _ hf => exact absurd hf hnf
  | joined => exact absurd trivial hnf
  | collected => exact absurd trivial hnf
  | _ => exact absurd rfl hnn

/-- The thread reads its id, which its creator has stored. -/
theorem Inv.readThread (h : s.Inv)
    (hstored : ∀ rec, (s.slots r).record = some rec → rec.u32Thread ≠ 0)
    (hstep : s.readThread r = some s') : s'.Inv := by
  obtain ⟨a, b, c, v, hv, hl, hstage⟩ := h.stage r
  unfold TrdMng.readThread at hstep
  rw [hv] at hstep hstored
  cases hstage with
  | unstored => exact absurd rfl (hstored _ rfl)
  | @running id status e pc hid hpc =>
      cases pc with
      | read =>
          obtain rfl := Option.some.inj hstep
          rw [access, hv]
          exact h.setSlot hv hl (.running hid (.inr rfl)) (fun _ => ⟨⟨by simp, rfl⟩, rfl⟩)
            (fun hf => hf.elim)
      | _ => cases hstep
  | @joining id status pc registered called movedBy hid hpc hcalled hperm hmoved =>
      cases pc with
      | read =>
          obtain rfl := Option.some.inj hstep
          rw [access, hv]
          exact h.setSlot hv hl (.joining hid (.inr (.inl rfl)) (fun hne => (hcalled hne).elim)
            hperm hmoved) (fun _ => ⟨⟨by simp, rfl⟩, rfl⟩) (fun hf => hf.elim)
      | _ => cases hstep
  | @exited id status e pc registered called hid hpc hperm =>
      cases pc <;> first | exact hpc.elim | cases hstep
  | _ => cases hstep

theorem Inv.terminate (h : s.Inv) (hpc : (s.slots r).thread = .ret) :
    (s.setThread r .ended).Inv := by
  obtain ⟨a, b, c, v, hv, hl, hstage⟩ := h.stage r
  unfold setThread
  rw [hv] at hpc ⊢
  cases hstage with
  | unstored _ hw =>
      obtain rfl := hpc
      exact hw.elim
  | running _ hw =>
      obtain rfl := hpc
      rcases hw with hw | hw
      · exact hw.elim
      · cases hw
  | exited hid hf hperm =>
      obtain rfl := hpc
      exact h.setSlot hv hl (.exited hid trivial hperm) (fun _ => ⟨⟨by simp, rfl⟩, rfl⟩)
        (fun _ => trivial)
  | joining hid _ hcalled hperm hmoved =>
      obtain rfl := hpc
      exact h.setSlot hv hl (.joining hid (.inr (.inr trivial)) (fun _ => trivial) hperm hmoved)
        (fun _ => ⟨⟨by simp, rfl⟩, rfl⟩) (fun _ => trivial)
  | _ => cases hpc

/-- A thread whose record is in the running list finds it there. -/
theorem Inv.lookup_self (h : s.Inv) (hid : id ≠ 0) (hmem : r ∈ s.pthreadMng)
    (hlive : (s.slots r).Live) (htid : (s.slots r).tid = id) {rec : PthreadMngThread}
    (hrec : (s.slots r).record = some rec) (hrid : rec.u32Thread = id) :
    s.lookup s.pthreadMng id = some r := by
  have hfound : (s.lookup s.pthreadMng id).isSome := by
    rw [lookup, List.find?_isSome]
    exact ⟨r, hmem, by simp [hrec, hrid]⟩
  obtain ⟨y, hy⟩ := Option.isSome_iff_exists.mp hfound
  obtain ⟨-, status, e, pc, hpc, hslot⟩ := h.lookup_running hid hy
  have hylive : (s.slots y).Live := by
    rw [hslot]
    refine ⟨?_, rfl⟩
    rintro rfl
    simp [ThreadPc.working] at hpc
  rw [hy, h.ids y r hylive hlive (by rw [hslot, htid])]

/-- A thread that is found in the running list is the one that has the number. -/
theorem Inv.lookup_target (h : s.Inv) (hid : id ≠ 0)
    (hfind : s.lookup s.pthreadMng id = some r) : s.target id = some r := by
  obtain ⟨-, status, e, pc, hpc, hslot⟩ := h.lookup_running hid hfind
  refine h.target_eq ?_ (by rw [hslot])
  rw [hslot]
  refine ⟨?_, rfl⟩
  rintro rfl
  simp [ThreadPc.working] at hpc

/-- The end of a thread moves its own record, if it is still in the running list. -/
theorem Inv.del (h : s.Inv) (hstep : s.hiPthreadMngDel r = some s') : s'.Inv := by
  obtain ⟨a, b, c, v, hv, hl, hstage⟩ := h.stage r
  unfold hiPthreadMngDel at hstep
  rw [hv] at hstep
  cases hstage with
  | unstored _ hw =>
      rename_i pc _
      cases pc <;> first | exact hw.elim | cases hstep
  | @running id status e pc hid hpc =>
      cases pc with
      | del id' =>
          obtain rfl : id' = id := by simpa [ThreadPc.working] using hpc
          obtain rfl := Option.some.inj hstep
          have hmem : r ∈ s.pthreadMng := hl.running.mpr trivial
          have hnot : r ∉ s.pthreadMngExit := hl.exited.not.mpr not_false
          -- the record is found in the running list and goes to the other one
          have hself : s.lookup s.pthreadMng id' = some r :=
            h.lookup_self hid hmem (by rw [hv]; exact ⟨by simp, rfl⟩) (by rw [hv]) (by rw [hv]) rfl
          rw [hself, Option.elim_some]
          refine h.update
            (v := ⟨some ⟨id', status, e⟩, .done, .ret, id', .none, 0, e.toList, [], [r]⟩)
            hv ?_ ?_ ⟨_, _, _, ?_, .exited hid trivial (by simp)⟩ ?_ (h.nodup.erase r) ?_
            (fun _ => trivial) (fun e he => .inl he) rfl
          · simp [setThread, moveToExit, TrdMng.setSlot, hv]
          · intro u hu
            refine ⟨Iff.rfl, List.mem_erase_of_ne hu, ?_⟩
            simp [setThread, moveToExit, TrdMng.setSlot, hu]
          · refine ⟨hl.allocated, iff_of_false h.nodup.not_mem_erase not_false, ?_⟩
            simp [setThread, moveToExit, TrdMng.setSlot]
          · intro _ u hu hulive heq
            refine hu (h.ids u r hulive ?_ (by rw [heq, hv]))
            rw [hv]
            exact ⟨by simp, rfl⟩
          · change (s.pthreadMngExit ++ [r]).Nodup
            rw [List.nodup_append]
            refine ⟨h.nodupExit, List.nodup_singleton _, ?_⟩
            intro x hx y hy hxy
            rw [List.mem_singleton] at hy
            exact hnot (hy ▸ hxy ▸ hx)
      | _ => cases hstep
  | @joining id status pc registered called movedBy hid hpc hcalled hperm hmoved =>
      cases pc with
      | del id' =>
          obtain rfl : id' = id := by simpa [ThreadPc.working, ThreadPc.finished] using hpc
          obtain rfl := Option.some.inj hstep
          -- a join has moved the record before; nothing is found
          have hnone : s.lookup s.pthreadMng id' = none := by
            cases hfind : s.lookup s.pthreadMng id' with
            | none => rfl
            | some x =>
                have htarget := h.lookup_target hid hfind
                have hself : s.target id' = some r :=
                  h.target_eq (by rw [hv]; exact ⟨by simp, rfl⟩) (by rw [hv])
                obtain rfl : r = x := Option.some.inj (hself.symm.trans htarget)
                exact (hl.running.mp (List.mem_of_find?_eq_some hfind)).elim
          rw [hnone, Option.elim_none, setThread, hv]
          exact h.setSlot hv hl (.joining hid (.inr (.inr trivial)) (fun _ => trivial) hperm hmoved)
            (fun _ => ⟨⟨by simp, rfl⟩, rfl⟩) (fun _ => trivial)
      | _ => cases hstep
  | @exited id status e pc registered called hid hpc hperm =>
      cases pc <;> first | exact hpc.elim | cases hstep
  | _ => cases hstep

/-- Only the list of the calls that are about to be made changes. -/
theorem Inv.setImmediate (h : s.Inv) {l : List (Option Nat × EndProc)}
    (hl : ∀ e ∈ l, e ∈ s.immediate ∨ ∀ y ∈ e.1, (s.slots y).thread.finished) :
    Inv { s with immediate := l } where
  stage u := by
    obtain ⟨a, b, c, v, hv, hl, hst⟩ := h.stage u
    exact ⟨a, b, c, v, hv, hl.congr Iff.rfl Iff.rfl Iff.rfl, hst⟩
  ids := h.ids
  nodup := h.nodup
  nodupExit := h.nodupExit
  pending e he y hy := by
    rcases hl e he with hmem | hall
    · exact h.pending e hmem y hy
    · exact hall y hy
  noFault := h.noFault

/-- An end procedure that is registered and called at once. -/
theorem noteCalled_noteRegistered (s : TrdMng) (y : Nat) (p : EndProc) :
    (s.noteRegistered (some y) p).noteCalled (some y) p =
      s.setSlot y { s.slots y with
        registered := (s.slots y).registered ++ [p], called := (s.slots y).called ++ [p] } := by
  simp [noteRegistered, noteCalled, TrdMng.setSlot]

theorem Inv.callNow (h : s.Inv) {i : Nat} (hstep : s.callNow i = some s') : s'.Inv := by
  obtain ⟨⟨y, p⟩, he, rfl⟩ := Option.map_eq_some_iff.mp hstep
  have h' : Inv { s with immediate := s.immediate.eraseIdx i } :=
    h.setImmediate fun e he => .inl (List.mem_of_mem_eraseIdx he)
  cases y with
  | none => exact h'
  | some y =>
      have hfin := h.pending (some y, p) (List.mem_of_getElem? he) y rfl
      rw [noteCalled_noteRegistered]
      obtain ⟨a, b, c, v, hv, hl, hstage⟩ := h'.stage y
      have hv' : s.slots y = v := hv
      simp only [hv'] at hfin ⊢
      cases hstage with
      | unstored _ hw =>
          rename_i pc _
          cases pc <;> first | exact hw.elim | exact hfin.elim
      | @running _ _ _ pc _ hw =>
          cases pc <;> first | exact hfin.elim | simp [ThreadPc.working] at hw
      | exited hid hpc hperm =>
          refine h'.setSlot hv hl (.exited hid hpc ?_) (fun hlive => ⟨hlive, rfl⟩) id
          rw [← List.append_assoc]
          exact hperm.append_right [p]
      | joining hid hpc hcalled hperm hmoved =>
          exact h'.setSlot hv hl (.joining hid hpc (fun _ => hfin) (hperm.append_right [p]) hmoved)
            (fun hlive => ⟨hlive, rfl⟩) id
      | joined hperm hmoved =>
          exact h'.setSlot hv hl (.joined (hperm.append_right [p]) hmoved)
            (fun hlive => ⟨hlive, rfl⟩) id
      | collected hjoiner hperm hmoved =>
          exact h'.setSlot hv hl (.collected hjoiner (hperm.append_right [p]) hmoved)
            (fun hlive => ⟨hlive, rfl⟩) id
      | _ => exact hfin.elim

/-! ## Requests for a thread -/

/-- No record in a list whose number has not been stored is taken for that of the thread. -/
def Stored (s : TrdMng) (u32Thread : UInt32) : Prop :=
  ∀ x ∈ s.pthreadMng ++ s.pthreadMngExit, ∀ rec, (s.slots x).record = some rec →
    rec.u32Thread = u32Thread → u32Thread ≠ 0

/-- The thread has no end procedure. -/
def NoEndProc (s : TrdMng) (y : Nat) : Prop :=
  ∀ rec, (s.slots y).record = some rec → rec.endProc = none

/-- The running list shows the thread with its number. -/
def Shown (s : TrdMng) (y : Nat) : Prop :=
  y ∈ s.pthreadMng ∧ ∃ rec, (s.slots y).record = some rec ∧ rec.u32Thread = (s.slots y).tid

theorem Stored.lookup_ne_zero (h : s.Stored id) {l : List Nat}
    (hl : ∀ x ∈ l, x ∈ s.pthreadMng ++ s.pthreadMngExit) (hfind : s.lookup l id = some r) :
    id ≠ 0 := by
  have hprop := List.find?_some hfind
  cases hrec : (s.slots r).record with
  | none => simp [hrec] at hprop
  | some rec =>
      rw [hrec, Option.elim_some, decide_eq_true_eq] at hprop
      exact h r (hl r (List.mem_of_find?_eq_some hfind)) rec hrec hprop

theorem Inv.registerEndProc (h : s.Inv) {p : EndProc} (hstored : s.Stored id)
    (htarget : ∀ y, s.target id = some y →
      (s.slots y).thread.finished ∨ s.Shown y ∧ s.NoEndProc y) :
    (s.hiPthreadMngRegisterEndProc id p).Inv := by
  unfold hiPthreadMngRegisterEndProc
  cases hfind : s.lookup s.pthreadMng id with
  | none =>
      refine h.setImmediate fun e he => ?_
      rcases List.mem_append.mp he with he | he
      · exact .inl he
      · rw [List.mem_singleton] at he
        subst he
        refine .inr fun y hy => ?_
        rcases htarget y hy with hfin | ⟨⟨hmem, rec, hrec, hid⟩, -⟩
        · exact hfin
        · -- a thread that the list shows would have been found
          have hnot := List.find?_eq_none.mp hfind y hmem
          simp [hrec, hid, (target_some hy).2] at hnot
  | some x =>
      have hid := hstored.lookup_ne_zero (fun y hy => List.mem_append_left _ hy) hfind
      have hx := h.lookup_target hid hfind
      obtain ⟨hl, status, e, pc, hpc, hslot⟩ := h.lookup_running hid hfind
      have hnf : ¬ pc.finished := by
        rintro hf
        cases pc <;> first | exact hf.elim | simp [ThreadPc.working] at hpc
      have hnone : e = none := by
        rcases htarget x hx with hfin | ⟨-, hno⟩
        · rw [hslot] at hfin
          exact absurd hfin hnf
        · exact hno ⟨id, status, e⟩ (by rw [hslot])
      subst hnone
      simp only [hx, access, hslot, Option.elim_some, noteRegistered, TrdMng.setSlot,
        Function.update_self, Function.update_idem]
      exact h.setSlot hslot hl (.running hid hpc) (fun hlive => ⟨hlive, rfl⟩) (fun hf => hf)

/-- A record that `HI_PthreadMNG_Join` takes out of its list. -/
theorem Inv.takeOut (h : s.Inv) (hslot : s.slots r = w) {a b c : Prop} (hl : s.Listed r a b c)
    (hstage : Stage r a False False { w with joiner := .join id }) :
    Inv { s.setSlot r { w with joiner := .join id } with
      pthreadMng := s.pthreadMng.erase r, pthreadMngExit := s.pthreadMngExit.erase r } := by
  refine h.update hslot rfl
    (fun u hu => ⟨Iff.rfl, List.mem_erase_of_ne hu, List.mem_erase_of_ne hu⟩)
    ⟨a, False, False, ⟨hl.allocated, iff_of_false h.nodup.not_mem_erase not_false,
      iff_of_false h.nodupExit.not_mem_erase not_false⟩, hstage⟩ ?_ (h.nodup.erase r)
    (h.nodupExit.erase r) (fun hf => hf) (fun e he => .inl he) rfl
  intro hlive u hu hulive heq
  exact hu (h.ids u r hulive (hslot ▸ hlive) (heq.trans (by rw [hslot])))

theorem Inv.join (h : s.Inv) (hstored : s.Stored id)
    (htarget : ∀ y, s.target id = some y → s.NoEndProc y) : (s.hiPthreadMngJoin id).Inv := by
  unfold hiPthreadMngJoin
  cases hfind : s.lookup s.pthreadMng id with
  | some x =>
      have hid := hstored.lookup_ne_zero (fun y hy => List.mem_append_left _ hy) hfind
      obtain ⟨hl, status, e, pc, hpc, hslot⟩ := h.lookup_running hid hfind
      obtain rfl : e = none :=
        htarget x (h.lookup_target hid hfind) ⟨id, status, e⟩ (by rw [hslot])
      simp only [Option.some_or, Option.elim_some, hslot]
      refine h.takeOut hslot hl (.joining hid ?_ (fun hne => absurd rfl hne) (.refl _)
        (fun y hy => absurd hy List.not_mem_nil))
      exact hpc.imp_right .inl
  | none =>
      cases hexit : s.lookup s.pthreadMngExit id with
      | none => exact h
      | some x =>
          obtain ⟨hl, hid, status, e, pc, registered, called, hpc, hperm, hslot⟩ :=
            h.lookup_exited hexit
          have hlive : (s.slots x).Live := by
            rw [hslot]
            exact ⟨by rintro rfl; exact hpc, rfl⟩
          obtain rfl : e = none :=
            htarget x (h.target_eq hlive (by rw [hslot])) ⟨id, status, e⟩ (by rw [hslot])
          simp only [Option.none_or, Option.elim_some, hslot]
          refine h.takeOut hslot hl (.joining hid (.inr (.inr hpc)) (fun _ => hpc) hperm ?_)
          intro y hy
          exact List.mem_singleton.mp hy

/-- `HI_PthreadMNG_Join` waits for the end of the thread whose record it has taken. -/
theorem Inv.joinTaken (h : s.Inv) (hstep : s.joinTaken r = some s') : s'.Inv := by
  obtain ⟨a, b, c, v, hv, hl, hstage⟩ := h.stage r
  unfold TrdMng.joinTaken at hstep
  rw [hv] at hstep
  cases hstage with
  | @joining id status pc registered called movedBy hid hpc hcalled hperm hmoved =>
      have hlive : (s.slots r).Live := by
        rw [hv]
        refine ⟨?_, rfl⟩
        rintro rfl
        simp [ThreadPc.working, ThreadPc.finished] at hpc
      dsimp only at hstep
      rw [TrdMng.pthreadJoin, h.target_eq hlive (by rw [hv]), Option.elim_some, hv] at hstep
      dsimp only at hstep
      split at hstep
      · rename_i hended
        subst hended
        simp only [Option.map_some, Option.some.injEq, TrdMng.setSlot, Function.update_self,
          Function.update_idem] at hstep
        subst hstep
        exact h.setSlot hv hl (.joined hperm hmoved) (fun hlive => absurd hlive.2 (by simp))
          (fun hf => hf)
      · cases hstep
  | @collected id joiner registered called movedBy hjoiner =>
      rcases hjoiner with rfl | rfl <;> cases hstep
  | _ => cases hstep

theorem Inv.freeJoined (h : s.Inv) (hstep : s.freeJoined r = some s') : s'.Inv := by
  obtain ⟨a, b, c, v, hv, hl, hstage⟩ := h.stage r
  unfold TrdMng.freeJoined at hstep
  rw [hv] at hstep
  cases hstage with
  | joined hperm hmoved =>
      obtain rfl := Option.some.inj hstep
      rw [access, hv]
      exact h.setSlot hv hl (.collected (.inr rfl) hperm hmoved)
        (fun hlive => absurd hlive.2 (by simp)) (fun hf => hf)
  | @collected id joiner registered called movedBy hjoiner =>
      rcases hjoiner with rfl | rfl <;> cases hstep
  | _ => cases hstep

/-- One pass of `PthreadMNG_Wait` collects one thread and calls its end procedure. -/
theorem Inv.waitOne (h : s.Inv) (hmem : r ∈ s.pthreadMngExit) (hstep : s.waitOne r = some s') :
    s'.Inv ∧ s'.pthreadMngExit = s.pthreadMngExit.erase r := by
  obtain ⟨a, b, c, v, hv, hl, hstage⟩ := h.stage r
  rw [hl.exited] at hmem
  unfold TrdMng.waitOne at hstep
  rw [hv] at hstep
  cases hstage with
  | @exited id status e pc registered called hid hpc hperm =>
      have hlive : (s.slots r).Live := by
        rw [hv]
        exact ⟨by rintro rfl; exact hpc, rfl⟩
      rw [Option.elim_some, TrdMng.pthreadJoin, h.target_eq hlive (by rw [hv]), Option.elim_some,
        hv] at hstep
      dsimp only at hstep
      split at hstep
      · rename_i hended
        subst hended
        simp only [Option.map_some, Option.some.injEq, TrdMng.setSlot, Function.update_self,
          Function.update_idem] at hstep
        subst hstep
        refine ⟨?_, rfl⟩
        refine h.update hv rfl (fun u hu => ⟨Iff.rfl, Iff.rfl, List.mem_erase_of_ne hu⟩)
          ⟨_, _, _, ⟨hl.allocated, hl.running, ?_⟩, .collected (.inl rfl) ?_ ?_⟩
          (fun hlive => absurd hlive.2 (by simp)) h.nodup (h.nodupExit.erase r) (fun hf => hf)
          (fun e he => .inl he) rfl
        · exact iff_of_false h.nodupExit.not_mem_erase not_false
        · exact hperm.trans List.perm_append_comm
        · exact fun y hy => List.mem_singleton.mp hy
      · cases hstep
  | _ => exact hmem.elim

/-- The loop of `PthreadMNG_Wait`. -/
theorem Inv.waitLoop (h : s.Inv) {l : List Nat} (hl : ∀ r ∈ l, r ∈ s.pthreadMngExit)
    (hnodup : l.Nodup) (hstep : l.foldlM TrdMng.waitOne s = some s') : s'.Inv := by
  induction l generalizing s with
  | nil =>
      obtain rfl := Option.some.inj hstep
      exact h
  | cons r l ih =>
      rw [List.foldlM_cons] at hstep
      obtain ⟨mid, hmid, hrest⟩ := Option.bind_eq_some_iff.mp hstep
      obtain ⟨hinv, hlist⟩ := h.waitOne (hl r List.mem_cons_self) hmid
      obtain ⟨hr, hnodup⟩ := List.nodup_cons.mp hnodup
      refine ih hinv ?_ hnodup hrest
      intro x hx
      have hne : x ≠ r := by
        rintro rfl
        exact hr hx
      rw [hlist, List.mem_erase_of_ne hne]
      exact hl x (List.mem_cons_of_mem r hx)

/-! ## Runs -/

/-- A thread reads its id after the creator has stored it; an end procedure is registered
for a thread that has ended, or that the running list shows and that has none yet; a
thread with an end procedure is not joined by `HI_PthreadMNG_Join`; and the number of a
request is not that of a record whose id has not been stored. -/
def Orderly (s : TrdMng) : Act → Prop
  | .readThread r => ∀ rec, (s.slots r).record = some rec → rec.u32Thread ≠ 0
  | .registerEndProc u32Thread _ => s.Stored u32Thread ∧ ∀ y, s.target u32Thread = some y →
      (s.slots y).thread.finished ∨ s.Shown y ∧ s.NoEndProc y
  | .join u32Thread => s.Stored u32Thread ∧ ∀ y, s.target u32Thread = some y → s.NoEndProc y
  | _ => True

theorem inv_step (h : s.Inv) {a : Act} (horderly : s.Orderly a) (hstep : s.step a = some s') :
    s'.Inv := by
  cases a with
  | addRecord =>
      obtain rfl := Option.some.inj hstep
      exact h.addRecord
  | createThread r u32Threadp => exact h.createThread hstep
  | storeThread r => exact h.storeThread hstep
  | removeFailed r => exact h.removeFailed hstep
  | start r =>
      simp only [step] at hstep
      split at hstep
      · rename_i hpc
        obtain rfl := Option.some.inj hstep
        exact h.writeStatus .start hpc trivial trivial
      · cases hstep
  | stop r =>
      simp only [step] at hstep
      split at hstep
      · rename_i hpc
        obtain rfl := Option.some.inj hstep
        exact h.writeStatus .stop hpc trivial trivial
      · cases hstep
  | readThread r => exact h.readThread horderly hstep
  | del r => exact h.del hstep
  | terminate r =>
      simp only [step] at hstep
      split at hstep
      · rename_i hpc
        obtain rfl := Option.some.inj hstep
        exact h.terminate hpc
      · cases hstep
  | registerEndProc u32Thread p =>
      obtain rfl := Option.some.inj hstep
      exact h.registerEndProc horderly.1 horderly.2
  | callNow i => exact h.callNow hstep
  | join u32Thread =>
      obtain rfl := Option.some.inj hstep
      exact h.join horderly.1 horderly.2
  | pthreadJoin r => exact h.joinTaken hstep
  | freeJoined r => exact h.freeJoined hstep
  | wait => exact h.waitLoop (fun _ hr => hr) h.nodupExit hstep

theorem inv_of_reach (hreach : machine.ReachWhen Orderly s) : s.Inv := by
  refine hreach.invariant ?_ fun s a s' h hord hstep => inv_step h hord hstep
  rintro s rfl
  exact inv_start

/-- The record of the thread is in the list of the exited ones, under the thread's id. -/
def Eligible (s : TrdMng) (x : Nat) : Prop :=
  x ∈ s.pthreadMngExit ∧
    ∃ rec, (s.slots x).record = some rec ∧ rec.u32Thread = (s.slots x).tid

/-- Only the end of a thread moves its record; a thread that has ended waits under its id
for the one join that it gets, unless `HI_PthreadMNG_Join` has taken it, and the way to
its end is free; the end procedures registered for a thread are called when it has ended,
each at most once, and exactly once when it has been joined; no freed record is used. -/
structure Lifecycle (s : TrdMng) : Prop where
  moved : ∀ x, ∀ y ∈ (s.slots x).movedBy, y = x
  exits : ∀ x ∈ s.pthreadMngExit, (s.slots x).thread.finished ∧ (s.slots x).movedBy = [x]
  oneEntry : s.pthreadMngExit.Nodup
  ended : ∀ x, (s.slots x).thread.finished →
    (s.slots x).joins = 1 ∧ x ∉ s.pthreadMng ∧ x ∉ s.pthreadMngExit ∨
      (s.slots x).joins = 0 ∧ (s.Eligible x ∨ (s.slots x).joiner = .join (s.slots x).tid)
  oneJoin : ∀ x, (s.slots x).joins = 0 ∨ (s.slots x).joins = 1 ∧ (s.slots x).thread = .ended
  unblocked : ∀ x, ((s.slots x).thread = .read → (s.readThread x).isSome) ∧
    ∀ id, (s.slots x).thread = .del id → (s.hiPthreadMngDel x).isSome
  afterEnd : ∀ x, (s.slots x).called ≠ [] → (s.slots x).thread.finished
  atMostOnce : ∀ x, (s.slots x).called.Subperm (s.slots x).registered
  once : ∀ x, (s.slots x).joins = 1 → (s.slots x).called.Perm (s.slots x).registered
  intact : s.fault = false

theorem readThread_isSome (hpc : (s.slots r).thread = .read) : (s.readThread r).isSome := by
  simp [TrdMng.readThread, hpc]

theorem del_isSome (hpc : (s.slots r).thread = .del id) : (s.hiPthreadMngDel r).isSome := by
  simp [hiPthreadMngDel, hpc]

/-- What the stages say about the moves and the joins. -/
theorem Inv.joins (h : s.Inv) (x : Nat) :
    (∀ y ∈ (s.slots x).movedBy, y = x) ∧
      (x ∈ s.pthreadMngExit → (s.slots x).thread.finished ∧ (s.slots x).movedBy = [x]) ∧
      ((s.slots x).thread.finished →
        (s.slots x).joins = 1 ∧ x ∉ s.pthreadMng ∧ x ∉ s.pthreadMngExit ∨
          (s.slots x).joins = 0 ∧ (s.Eligible x ∨ (s.slots x).joiner = .join (s.slots x).tid)) ∧
      ((s.slots x).joins = 0 ∨ (s.slots x).joins = 1 ∧ (s.slots x).thread = .ended) := by
  obtain ⟨a, b, c, v, hv, hl, hstage⟩ := h.stage x
  have hrun := hl.running
  have hexit := hl.exited
  unfold Eligible
  rw [hv]
  cases hstage with
  | fresh => simp [Slot.blank, hexit, ThreadPc.finished]
  | created => simp [hexit, ThreadPc.finished]
  | failed => simp [hexit, ThreadPc.finished]
  | aborted => simp [hexit, ThreadPc.finished]
  | @unstored id status pc hid hw =>
      have hnf : ¬ pc.finished := by cases pc <;> first | exact hw.elim | exact fun hf => hf
      simp [hexit, hnf]
  | @running id status e pc hid hw =>
      have hnf : ¬ pc.finished := by
        intro hf
        cases pc <;> first | exact hf.elim | simp [ThreadPc.working] at hw
      simp [hexit, hnf]
  | exited hid hf hperm => simp [hexit, hf]
  | joining hid hpc hcalled hperm hmoved => simpa [hexit] using hmoved
  | joined hperm hmoved => simpa [hexit, hrun] using hmoved
  | collected hjoiner hperm hmoved => simpa [hexit, hrun] using hmoved

/-- What the stages say about the end procedures. -/
theorem Inv.calls (h : s.Inv) (x : Nat) :
    ((s.slots x).called ≠ [] → (s.slots x).thread.finished) ∧
      (s.slots x).called.Subperm (s.slots x).registered ∧
      ((s.slots x).joins = 1 → (s.slots x).called.Perm (s.slots x).registered) := by
  obtain ⟨a, b, c, v, hv, hl, hstage⟩ := h.stage x
  rw [hv]
  cases hstage with
  | exited hid hf hperm =>
      refine ⟨fun _ => hf, ?_, fun hjoins => absurd hjoins (by simp)⟩
      exact (List.sublist_append_right _ _).subperm.trans hperm.symm.subperm
  | joining hid hpc hcalled hperm hmoved =>
      exact ⟨hcalled, hperm.symm.subperm, fun _ => hperm.symm⟩
  | joined hperm hmoved => exact ⟨fun _ => trivial, hperm.symm.subperm, fun _ => hperm.symm⟩
  | collected hjoiner hperm hmoved =>
      exact ⟨fun _ => trivial, hperm.symm.subperm, fun _ => hperm.symm⟩
  | _ =>
      exact ⟨fun hne => absurd rfl hne, List.nil_subperm,
        fun hjoins => absurd hjoins (by simp [Slot.blank])⟩

/-- In every run that keeps the order each thread record has its lifecycle. -/
theorem lifecycle_of_orderly (s : TrdMng) (hreach : machine.ReachWhen Orderly s) :
    s.Lifecycle := by
  have h := inv_of_reach hreach
  exact {
    moved := fun x => (h.joins x).1
    exits := fun x => (h.joins x).2.1
    oneEntry := h.nodupExit
    ended := fun x => (h.joins x).2.2.1
    oneJoin := fun x => (h.joins x).2.2.2
    unblocked := fun x => ⟨readThread_isSome, fun _ => del_isSome⟩
    afterEnd := fun x => (h.calls x).1
    atMostOnce := fun x => (h.calls x).2.1
    once := fun x => (h.calls x).2.2
    intact := h.noFault }

def sampleEndProc : EndProc :=
  ⟨0x8000, 0⟩

/-- A thread is created, gets an end procedure, runs to its end and is collected by
`PthreadMNG_Wait`. -/
theorem waitedFor_lifecycle :
    ∃ s : TrdMng, s.Lifecycle ∧ (s.slots 0).joins = 1 ∧
      (s.slots 0).called = [sampleEndProc] := by
  refine ⟨_, lifecycle_of_orderly _ (.step (a := .wait) (.step (a := .terminate 0)
    (.step (a := .del 0) (.step (a := .readThread 0) (.step (a := .stop 0) (.step (a := .start 0)
      (.step (a := .registerEndProc 5 sampleEndProc) (.step (a := .storeThread 0)
        (.step (a := .createThread 0 (some 5)) (.step (a := .addRecord) (.init rfl) trivial rfl)
          trivial rfl) trivial rfl) ⟨?_, ?_⟩ rfl) trivial rfl) trivial rfl) ?_ rfl)
      trivial rfl) trivial rfl) trivial rfl), rfl, rfl⟩
  · intro _ _ _ _ _
    decide
  · intro y hy
    obtain rfl : 0 = y := Option.some.inj hy
    refine .inr ⟨⟨List.mem_singleton.mpr rfl, _, rfl, rfl⟩, ?_⟩
    rintro _ ⟨⟩
    rfl
  · rintro _ ⟨⟩
    decide

/-- The thread is joined by `HI_PthreadMNG_Join` instead. -/
def joinedInstead : List Act :=
  [.addRecord, .createThread 0 (some 5), .storeThread 0, .registerEndProc 5 sampleEndProc,
    .start 0, .stop 0, .readThread 0, .del 0, .terminate 0, .join 5, .pthreadJoin 0,
    .freeJoined 0]

/-- Its end procedure is never called. -/
theorem endProc_lost : ∃ s, machine.Reach s ∧ ¬ s.Lifecycle := by
  refine ⟨_, Machine.reach_of_run joinedInstead (s := start) rfl rfl, fun hlife => ?_⟩
  have honce := hlife.once 0 rfl
  cases honce.length_eq

end TrdMng
end Thread
end AndroidLinux
