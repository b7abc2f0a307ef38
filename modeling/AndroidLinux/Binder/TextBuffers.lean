import AndroidLinux.Binder.TextOutput

/-!
# Every output has its own buffer

`Private` says that the `getBuffer` calls of one output return one state, which no other
output gets, with the text that the operations on this output have made.  It holds along
all runs in which an output is only called while its index is its sequence number, because the
stored number is the index.

The invariant compares the vector of the thread with the calls: it holds a state for an
index if and only if the output of that number has got it.
-/

namespace AndroidLinux
namespace Binder

open Lib

theorem slot_ofNat {n : Nat} (h : n < 2 ^ 32) : slot (Int32.ofNat n) = n := by
  rw [slot, ← UInt32.toInt32_ofNat', UInt32.toUInt32_toInt32]
  exact UInt32.toNat_ofNat_of_lt' h

/-- The free list from `a` on: a negative index ends it. -/
def FreeList (bufs : List Int32) : Int32 → List Nat → Prop
  | a, [] => a < 0
  | a, k :: l => 0 ≤ a ∧ slot a = k ∧ FreeList bufs (bufs.getD k 0) l

theorem FreeList.congr {bufs bufs' : List Int32} {a : Int32} {l : List Nat}
    (h : FreeList bufs a l) (hsame : ∀ k ∈ l, bufs'.getD k 0 = bufs.getD k 0) :
    FreeList bufs' a l := by
  induction l generalizing a with
  | nil => exact h
  | cons k l ih =>
      obtain ⟨hpos, hk, hrest⟩ := h
      refine ⟨hpos, hk, ?_⟩
      rw [hsame k List.mem_cons_self]
      exact ih hrest fun j hj => hsame j (List.mem_cons_of_mem k hj)

theorem getD_set_of_ne {bufs : List Int32} {k j : Nat} {a : Int32} (h : k ≠ j) :
    (bufs.set k a).getD j 0 = bufs.getD j 0 := by
  rw [List.getD_eq_getElem?_getD, List.getElem?_set_ne h, List.getD_eq_getElem?_getD]

namespace TextSystem

/-- Each output has a state of its own, with the text of its own operations. -/
structure Private (s : TextSystem) : Prop where
  same : ∀ x ∈ s.log, ∀ y ∈ s.log, x.1 = y.1 ↔ x.2 = y.2
  kept : ∀ x ∈ s.log, (s.heap[x.2]?).map BufferState.text = some (s.text x.1)
  distinct : ∀ o o' out out', s.outputs o = some out → s.outputs o' = some out' → o ≠ o' →
    out.mIndex ≠ out'.mIndex

/-- The calls are on outputs whose index is their sequence number, and the sequence has
not come round. -/
def IndexIsSeq (s : TextSystem) : Action → Prop
  | .construct _ => s.made < 2 ^ 32
  | .destroy _ => True
  | .call o _ => ∀ out, s.outputs o = some out → out.multithreaded → out.mSeq = out.mIndex

/-- The indices of the live outputs and the free ones are different. -/
structure Indexed (s : TextSystem) (l : List Nat) : Prop where
  live : ∀ o out, s.outputs o = some out → slot out.mIndex < s.gTextBuffers.length
  distinct : ∀ o o' out out', s.outputs o = some out → s.outputs o' = some out' →
    slot out.mIndex = slot out'.mIndex → o = o'
  free : FreeList s.gTextBuffers s.gFreeBufferIndex l
  nodup : l.Nodup
  inside : ∀ k ∈ l, k < s.gTextBuffers.length
  apart : ∀ k ∈ l, ∀ o out, s.outputs o = some out → slot out.mIndex ≠ k

structure Inv (s : TextSystem) : Prop where
  few : s.made ≤ 2 ^ 32
  seq : s.gSequence = Int32.ofNat s.made
  size : s.gTextBuffers.length ≤ s.made
  indexed : ∃ l, s.Indexed l
  numbered : ∀ o out, s.outputs o = some out → o < s.made ∧ out.mSeq = Int32.ofNat o
  state : ∀ k b, s.states[k]? = some (some b) ↔ (k, b) ∈ s.log
  got : ∀ x ∈ s.log, x.1 < s.made ∧ s.heap[x.2]? = some ⟨Int32.ofNat x.1, s.text x.1⟩
  global : ∀ o out, s.outputs o = some out →
    out.mGlobalState < s.heap.length ∧ ∀ x ∈ s.log, x.2 ≠ out.mGlobalState
  unread : ∀ o, (∀ b, (o, b) ∉ s.log) → s.text o = .fresh

theorem inv_initial : initial.Inv where
  few := by decide
  seq := rfl
  size := Nat.le_refl 0
  indexed := ⟨[], {
    live := fun o out h => nomatch h
    distinct := fun o o' out out' h => nomatch h
    free := (by decide : (-1 : Int32) < 0)
    nodup := List.nodup_nil
    inside := fun k hk => absurd hk List.not_mem_nil
    apart := fun k hk => absurd hk List.not_mem_nil }⟩
  numbered o out h := nomatch h
  state k b := by simp [initial]
  got x hx := absurd hx List.not_mem_nil
  global o out h := nomatch h
  unread o _ := rfl

/-! ## Indices -/

theorem allocBufferIndex_eq (s : TextSystem) :
    s.allocBufferIndex.2 = { s with
      gFreeBufferIndex := s.allocBufferIndex.2.gFreeBufferIndex
      gTextBuffers := s.allocBufferIndex.2.gTextBuffers } := by
  unfold allocBufferIndex
  split <;> rfl

/-- A new index is free, and in use from then on. -/
theorem Indexed.alloc {s : TextSystem} {l : List Nat} (h : s.Indexed l)
    (hsize : s.gTextBuffers.length < 2 ^ 32) :
    ∃ l', s.allocBufferIndex.2.Indexed l' ∧
      slot s.allocBufferIndex.1 < s.allocBufferIndex.2.gTextBuffers.length ∧
      slot s.allocBufferIndex.1 ∉ l' ∧
      (∀ o out, s.outputs o = some out → slot out.mIndex ≠ slot s.allocBufferIndex.1) ∧
      s.allocBufferIndex.2.gTextBuffers.length ≤ s.gTextBuffers.length + 1 := by
  unfold allocBufferIndex
  by_cases hpos : 0 ≤ s.gFreeBufferIndex
  · rw [if_pos hpos]
    cases l with
    | nil =>
        have hneg : s.gFreeBufferIndex < 0 := h.free
        exact absurd hneg (Int32.not_lt.mpr hpos)
    | cons k l =>
        -- the head of the free list is taken
        obtain ⟨-, hk, hrest⟩ := h.free
        obtain ⟨hnotin, hnodup⟩ := List.nodup_cons.mp h.nodup
        dsimp only
        rw [hk]
        refine ⟨l, ?_, ?_, hnotin, h.apart k List.mem_cons_self, ?_⟩
        · refine {
            live := fun o out hout => ?_, distinct := h.distinct, free := ?_, nodup := hnodup,
            inside := fun j hj => ?_,
            apart := fun j hj => h.apart j (List.mem_cons_of_mem k hj) }
          · rw [List.length_set]
            exact h.live o out hout
          · refine hrest.congr fun j hj => getD_set_of_ne ?_
            rintro rfl
            exact hnotin hj
          · rw [List.length_set]
            exact h.inside j (List.mem_cons_of_mem k hj)
        · rw [List.length_set]
          exact h.inside k List.mem_cons_self
        · rw [List.length_set]
          exact Nat.le_succ _
  · rw [if_neg hpos]
    -- a new slot behind the others; the free list stays empty
    have hslot : slot (Int32.ofNat s.gTextBuffers.length) = s.gTextBuffers.length :=
      slot_ofNat hsize
    dsimp only
    rw [hslot, List.length_append, List.length_singleton]
    refine ⟨[], ?_, Nat.lt_succ_self _, List.not_mem_nil,
      fun o out hout => (h.live o out hout).ne, le_rfl⟩
    refine {
      live := fun o out hout => ?_, distinct := h.distinct, free := Int32.not_le.mp hpos,
      nodup := List.nodup_nil, inside := fun j hj => absurd hj List.not_mem_nil,
      apart := fun j hj => absurd hj List.not_mem_nil }
    rw [List.length_append]
    exact Nat.lt_add_right _ (h.live o out hout)

/-- The index of a destroyed output becomes free. -/
theorem Indexed.destroy {s : TextSystem} {l : List Nat} (h : s.Indexed l) {o : Nat}
    {out : BufferedTextOutput} (hout : s.outputs o = some out) :
    ∃ l', (s.destroy o out).Indexed l' := by
  have hlive : ∀ o' out', (s.destroy o out).outputs o' = some out' →
      o' ≠ o ∧ s.outputs o' = some out' := by
    intro o' out' hout'
    by_cases heq : o' = o
    · subst heq
      simp [TextSystem.destroy] at hout'
    · refine ⟨heq, ?_⟩
      simpa [TextSystem.destroy, freeBufferIndex, Function.update_of_ne heq] using hout'
  -- the index is in use, so it is not on the free list yet
  have hnotin : slot out.mIndex ∉ l := fun hin => h.apart _ hin o out hout rfl
  have hbufs : (s.destroy o out).gTextBuffers =
      s.gTextBuffers.set (slot out.mIndex) s.gFreeBufferIndex := rfl
  have hhead : (s.destroy o out).gFreeBufferIndex = out.mIndex := rfl
  have hrest : FreeList (s.destroy o out).gTextBuffers s.gFreeBufferIndex l := by
    rw [hbufs]
    refine h.free.congr fun j hj => getD_set_of_ne ?_
    rintro rfl
    exact hnotin hj
  have hcommon : ∀ o' out', (s.destroy o out).outputs o' = some out' →
      slot out'.mIndex < (s.destroy o out).gTextBuffers.length := by
    intro o' out' hout'
    rw [hbufs, List.length_set]
    exact h.live o' out' (hlive o' out' hout').2
  have hdistinct : ∀ o₁ o₂ out₁ out₂, (s.destroy o out).outputs o₁ = some out₁ →
      (s.destroy o out).outputs o₂ = some out₂ → slot out₁.mIndex = slot out₂.mIndex →
        o₁ = o₂ :=
    fun o₁ o₂ out₁ out₂ h₁ h₂ => h.distinct o₁ o₂ out₁ out₂ (hlive _ _ h₁).2 (hlive _ _ h₂).2
  -- a negative index would end the free list
  by_cases hpos : 0 ≤ out.mIndex
  · refine ⟨slot out.mIndex :: l, {
      live := hcommon, distinct := hdistinct, free := ⟨hpos, rfl, ?_⟩,
      nodup := List.nodup_cons.mpr ⟨hnotin, h.nodup⟩, inside := ?_, apart := ?_ }⟩
    · have hhead' : (s.destroy o out).gTextBuffers.getD (slot out.mIndex) 0 =
          s.gFreeBufferIndex := by
        rw [hbufs, List.getD_eq_getElem?_getD, List.getElem?_set_self (h.live o out hout)]
        rfl
      rw [hhead']
      exact hrest
    · intro k hk
      rw [hbufs, List.length_set]
      rcases List.mem_cons.mp hk with rfl | hk
      · exact h.live o out hout
      · exact h.inside k hk
    · intro k hk o' out' hout'
      obtain ⟨hne, hsame⟩ := hlive o' out' hout'
      rcases List.mem_cons.mp hk with rfl | hk
      · exact fun heq => hne (h.distinct o' o out' out hsame hout heq)
      · exact h.apart k hk o' out' hsame
  · exact ⟨[], {
      live := hcommon, distinct := hdistinct, free := Int32.not_le.mp hpos,
      nodup := List.nodup_nil, inside := fun j hj => absurd hj List.not_mem_nil,
      apart := fun j hj => absurd hj List.not_mem_nil }⟩

/-! ## The states of the thread -/

theorem Inv.construct {s : TextSystem} (h : s.Inv) (hfew : s.made < 2 ^ 32)
    (multithreaded : Bool) : (s.construct multithreaded).Inv := by
  obtain ⟨l, hindexed⟩ := h.indexed
  obtain ⟨l', hindexed', hslot, hnotin, hne, hlength⟩ :=
    hindexed.alloc (lt_of_le_of_lt h.size hfew)
  have halloc := allocBufferIndex_eq s
  -- the new output has the number `made`; the others stay
  have houtputs : ∀ o out, (s.construct multithreaded).outputs o = some out →
      o = s.made ∧ out = ⟨multithreaded, s.gSequence, s.allocBufferIndex.1, s.heap.length⟩ ∨
        o ≠ s.made ∧ s.outputs o = some out := by
    intro o out hout
    by_cases heq : o = s.made
    · subst heq
      simp only [TextSystem.construct, Function.update_self, Option.some.injEq] at hout
      exact .inl ⟨rfl, hout.symm⟩
    · simp only [TextSystem.construct, Function.update_of_ne heq] at hout
      exact .inr ⟨heq, hout⟩
  have hbufs : (s.construct multithreaded).gTextBuffers = s.allocBufferIndex.2.gTextBuffers := rfl
  have hlog : (s.construct multithreaded).log = s.log := by
    show s.allocBufferIndex.2.log = s.log
    rw [halloc]
  have hstates : (s.construct multithreaded).states = s.states := by
    show s.allocBufferIndex.2.states = s.states
    rw [halloc]
  have hheap : (s.construct multithreaded).heap = s.heap ++ [⟨s.gSequence, .fresh⟩] := by
    show s.allocBufferIndex.2.heap ++ [⟨s.gSequence, .fresh⟩] = _
    rw [halloc]
  have hmade : (s.construct multithreaded).made = s.made + 1 := rfl
  have htext : (s.construct multithreaded).text = Function.update s.text s.made .fresh := rfl
  have houtputs' : s.allocBufferIndex.2.outputs = s.outputs := by rw [halloc]
  refine {
    few := hfew, seq := ?_, size := ?_, indexed := ⟨l', ?_⟩, numbered := fun o out hout => ?_,
    state := fun k b => ?_, got := fun x hx => ?_, global := fun o out hout => ?_,
    unread := fun o ho => ?_ }
  · show s.gSequence + 1 = Int32.ofNat (s.made + 1)
    rw [h.seq, Int32.ofNat_add]
    rfl
  · rw [hbufs, hmade]
    have hsize := h.size
    omega
  · refine {
      live := fun o out hout => ?_, distinct := fun o o' out out' hout hout' heq => ?_,
      free := hindexed'.free, nodup := hindexed'.nodup, inside := hindexed'.inside,
      apart := fun k hk o out hout => ?_ }
    · rw [hbufs]
      rcases houtputs o out hout with ⟨-, rfl⟩ | ⟨-, hsame⟩
      · exact hslot
      · exact hindexed'.live o out (by rw [houtputs']; exact hsame)
    · rcases houtputs o out hout with ⟨ho, rfl⟩ | ⟨-, hsame⟩
      · rcases houtputs o' out' hout' with ⟨ho', -⟩ | ⟨-, hsame'⟩
        · rw [ho, ho']
        · exact absurd heq.symm (hne o' out' hsame')
      · rcases houtputs o' out' hout' with ⟨-, rfl⟩ | ⟨-, hsame'⟩
        · exact absurd heq (hne o out hsame)
        · exact hindexed.distinct o o' out out' hsame hsame' heq
    · rcases houtputs o out hout with ⟨-, rfl⟩ | ⟨-, hsame⟩
      · exact fun heq => hnotin (heq ▸ hk)
      · exact hindexed'.apart k hk o out (by rw [houtputs']; exact hsame)
  · rw [hmade]
    rcases houtputs o out hout with ⟨rfl, rfl⟩ | ⟨-, hsame⟩
    · exact ⟨Nat.lt_succ_self _, h.seq⟩
    · obtain ⟨hlt, hseq⟩ := h.numbered o out hsame
      exact ⟨Nat.lt_succ_of_lt hlt, hseq⟩
  · rw [hstates, hlog]
    exact h.state k b
  · rw [hlog] at hx
    obtain ⟨hlt, hgot⟩ := h.got x hx
    have hb : x.2 < s.heap.length := (List.getElem?_eq_some_iff.mp hgot).1
    rw [hmade, hheap, htext, List.getElem?_append_left hb, Function.update_of_ne hlt.ne]
    exact ⟨Nat.lt_succ_of_lt hlt, hgot⟩
  · rw [hheap, hlog, List.length_append, List.length_singleton]
    rcases houtputs o out hout with ⟨-, rfl⟩ | ⟨-, hsame⟩
    · refine ⟨Nat.lt_succ_self _, fun x hx => ?_⟩
      have hgot := (h.got x hx).2
      exact (List.getElem?_eq_some_iff.mp hgot).1.ne
    · obtain ⟨hlt, hglobal⟩ := h.global o out hsame
      exact ⟨Nat.lt_succ_of_lt hlt, hglobal⟩
  · rw [hlog] at ho
    rw [htext]
    by_cases heq : o = s.made
    · rw [heq, Function.update_self]
    · rw [Function.update_of_ne heq]
      exact h.unread o ho

theorem Inv.destroy {s : TextSystem} (h : s.Inv) {o : Nat} {out : BufferedTextOutput}
    (hout : s.outputs o = some out) : (s.destroy o out).Inv := by
  obtain ⟨l, hindexed⟩ := h.indexed
  obtain ⟨l', hindexed'⟩ := hindexed.destroy hout
  have hlive : ∀ o' out', (s.destroy o out).outputs o' = some out' →
      s.outputs o' = some out' := by
    intro o' out' hout'
    by_cases heq : o' = o
    · subst heq
      simp [TextSystem.destroy] at hout'
    · simpa [TextSystem.destroy, freeBufferIndex, Function.update_of_ne heq] using hout'
  exact {
    few := h.few
    seq := h.seq
    size := by
      show (s.gTextBuffers.set _ _).length ≤ s.made
      rw [List.length_set]
      exact h.size
    indexed := ⟨l', hindexed'⟩
    numbered := fun o' out' hout' => h.numbered o' out' (hlive o' out' hout')
    state := h.state
    got := h.got
    global := fun o' out' hout' => h.global o' out' (hlive o' out' hout')
    unread := h.unread }

theorem Inv.same {s : TextSystem} (h : s.Inv) :
    ∀ x ∈ s.log, ∀ y ∈ s.log, x.1 = y.1 ↔ x.2 = y.2 := by
  intro x hx y hy
  constructor
  · intro heq
    have hstate := (h.state x.1 x.2).mpr hx
    have hstate' := (h.state y.1 y.2).mpr hy
    rw [heq, hstate'] at hstate
    exact (Option.some.inj (Option.some.inj hstate)).symm
  · intro heq
    obtain ⟨hlt, hgot⟩ := h.got x hx
    obtain ⟨hlt', hgot'⟩ := h.got y hy
    have hfew := h.few
    rw [heq, hgot'] at hgot
    have hseq : Int32.ofNat y.1 = Int32.ofNat x.1 :=
      congrArg BufferState.seq (Option.some.inj hgot)
    have hslot := congrArg slot hseq
    rw [slot_ofNat (by omega), slot_ofNat (by omega)] at hslot
    exact hslot.symm

theorem Inv.private {s : TextSystem} (h : s.Inv) : s.Private where
  same := h.same
  kept x hx := by
    rw [(h.got x hx).2]
    rfl
  distinct o o' out out' hout hout' hne heq := by
    obtain ⟨l, hindexed⟩ := h.indexed
    exact hne (hindexed.distinct o o' out out' hout hout' (congrArg slot heq))

/-- The state that an output gets is noted. -/
def noteGot (s : TextSystem) (o b : Nat) : TextSystem :=
  { s with log := (o, b) :: s.log }

theorem heap_edit_of_ne {s : TextSystem} {b c : Nat} (f : TextBuffer → TextBuffer) (hne : b ≠ c) :
    (s.edit b f).heap[c]? = s.heap[c]? := by
  show (s.heap.modify b _)[c]? = s.heap[c]?
  rw [List.getElem?_modify]
  simp only [if_neg hne]
  cases s.heap[c]? <;> rfl

/-- An operation on the state of an output. -/
theorem Inv.edit {s : TextSystem} (h : s.Inv) {o b : Nat} (hb : (o, b) ∈ s.log)
    (f : TextBuffer → TextBuffer) :
    Inv { s.edit b f with text := Function.update s.text o (f (s.text o)) } where
  few := h.few
  seq := h.seq
  size := h.size
  indexed := h.indexed.imp fun l hl =>
    ⟨hl.live, hl.distinct, hl.free, hl.nodup, hl.inside, hl.apart⟩
  numbered := h.numbered
  state := h.state
  got x hx := by
    obtain ⟨hlt, hgot⟩ := h.got x hx
    refine ⟨hlt, ?_⟩
    dsimp only
    by_cases heq : x.1 = o
    · have hx2 : x.2 = b := (h.same x hx (o, b) hb).mp heq
      show (s.heap.modify b _)[x.2]? = _
      rw [← hx2, List.getElem?_modify, hgot, ← heq, Function.update_self]
      simp only [if_true]
      rfl
    · have hne : b ≠ x.2 := fun hbx => heq ((h.same x hx (o, b) hb).mpr hbx.symm)
      rw [heap_edit_of_ne f hne, Function.update_of_ne heq]
      exact hgot
  global o' out' hout' := by
    obtain ⟨hlt, hglobal⟩ := h.global o' out' hout'
    refine ⟨?_, hglobal⟩
    show out'.mGlobalState < (s.heap.modify b _).length
    rw [List.length_modify]
    exact hlt
  unread o' ho' := by
    have hne : o' ≠ o := by
      rintro rfl
      exact ho' b hb
    dsimp only
    rw [Function.update_of_ne hne]
    exact h.unread o' ho'

/-- An operation on the state of an output that is not multithreaded. -/
theorem Inv.editGlobal {s : TextSystem} (h : s.Inv) {o : Nat} {out : BufferedTextOutput}
    (hout : s.outputs o = some out) (f : TextBuffer → TextBuffer) :
    (s.edit out.mGlobalState f).Inv where
  few := h.few
  seq := h.seq
  size := h.size
  indexed := h.indexed.imp fun l hl =>
    ⟨hl.live, hl.distinct, hl.free, hl.nodup, hl.inside, hl.apart⟩
  numbered := h.numbered
  state := h.state
  got x hx := by
    obtain ⟨hlt, hgot⟩ := h.got x hx
    refine ⟨hlt, ?_⟩
    rw [heap_edit_of_ne f ((h.global o out hout).2 x hx).symm]
    exact hgot
  global o' out' hout' := by
    obtain ⟨hlt, hglobal⟩ := h.global o' out' hout'
    refine ⟨?_, hglobal⟩
    show out'.mGlobalState < (s.heap.modify _ _).length
    rw [List.length_modify]
    exact hlt
  unread := h.unread

theorem getElem?_pad (states : List (Option Nat)) (n k b : Nat) :
    (states ++ List.replicate n none)[k]? = some (some b) ↔ states[k]? = some (some b) := by
  by_cases hk : k < states.length
  · rw [List.getElem?_append_left hk]
  · rw [List.getElem?_append_right (Nat.le_of_not_lt hk), List.getElem?_replicate,
      List.getElem?_eq_none (Nat.le_of_not_lt hk)]
    split <;> simp

/-- What is found for an output whose index is its number. -/
theorem Inv.found_eq {s : TextSystem} (h : s.Inv) {o : Nat} {out : BufferedTextOutput}
    (hseq : out.mSeq = Int32.ofNat o) (hslot : slot out.mIndex = o) (b : Nat) :
    s.found out = some b ↔ (o, b) ∈ s.log := by
  unfold found
  rw [hslot, Option.filter_eq_some_iff, List.getD_eq_getElem?_getD]
  constructor
  · rintro ⟨hstate, -⟩
    refine (h.state o b).mp ?_
    cases hentry : s.states[o]? with
    | none =>
        rw [hentry] at hstate
        cases hstate
    | some c =>
        rw [hentry] at hstate
        rw [← hstate]
        rfl
  · intro hin
    rw [(h.state o b).mpr hin]
    refine ⟨rfl, ?_⟩
    have hgot := (h.got (o, b) hin).2
    simp only [List.getElem?_map, hgot, hseq]
    simp

theorem Inv.getBuffer {s : TextSystem} (h : s.Inv) {o : Nat} {out : BufferedTextOutput}
    (hout : s.outputs o = some out) (hmulti : out.multithreaded = true)
    (hindex : out.mSeq = out.mIndex) :
    ((s.getBuffer out).2.noteGot o (s.getBuffer out).1).Inv := by
  obtain ⟨hlt, hseq⟩ := h.numbered o out hout
  have hfew := h.few
  have hslot : slot out.mIndex = o := by
    rw [← hindex, hseq]
    exact slot_ofNat (by omega)
  unfold TextSystem.getBuffer
  rw [if_pos hmulti]
  dsimp only
  cases hfound : s.found out with
  | some b =>
      -- the thread has a state for this output; logging it again adds nothing
      have hin := (h.found_eq hseq hslot b).mp hfound
      have hlog : ∀ x, x ∈ (o, b) :: s.log ↔ x ∈ s.log :=
        fun x => ⟨fun hx => (List.mem_cons.mp hx).elim (fun heq => heq ▸ hin) id,
          List.mem_cons_of_mem _⟩
      exact {
        few := h.few
        seq := h.seq
        size := h.size
        indexed := h.indexed.imp fun l hl =>
          ⟨hl.live, hl.distinct, hl.free, hl.nodup, hl.inside, hl.apart⟩
        numbered := h.numbered
        state := fun k c => (getElem?_pad _ _ k c).trans ((h.state k c).trans (hlog (k, c)).symm)
        got := fun x hx => h.got x ((hlog x).mp hx)
        global := fun o' out' hout' =>
          ⟨(h.global o' out' hout').1, fun x hx => (h.global o' out' hout').2 x ((hlog x).mp hx)⟩
        unread := fun o' ho' => h.unread o' fun c hc => ho' c ((hlog (o', c)).mpr hc) }
  | none =>
      -- a new state goes into the slot of the output
      have hnew : ∀ b, (o, b) ∉ s.log := by
        intro b hb
        rw [(h.found_eq hseq hslot b).mpr hb] at hfound
        cases hfound
      have hlength : s.heap.length < (s.newState out.mIndex).heap.length := by
        show s.heap.length < (s.heap ++ _).length
        rw [List.length_append, List.length_singleton]
        exact Nat.lt_succ_self _
      refine {
        few := h.few, seq := h.seq, size := h.size,
        indexed := h.indexed.imp fun l hl =>
          ⟨hl.live, hl.distinct, hl.free, hl.nodup, hl.inside, hl.apart⟩,
        numbered := h.numbered, state := fun k c => ?_, got := fun x hx => ?_,
        global := fun o' out' hout' => ?_, unread := fun o' ho' => ?_ }
      · show ((s.states ++ List.replicate _ none).set (slot out.mIndex) (some s.heap.length))[k]? =
          some (some c) ↔ (k, c) ∈ (o, s.heap.length) :: s.log
        have hroom : o < (s.states ++ List.replicate (slot out.mIndex + 1 - s.states.length)
            (none : Option Nat)).length := by
          rw [List.length_append, List.length_replicate, hslot]
          omega
        rw [List.mem_cons, Prod.mk.injEq]
        by_cases hk : k = o
        · subst hk
          rw [hslot] at hroom ⊢
          rw [List.getElem?_set_self hroom, Option.some.injEq, Option.some.injEq]
          exact ⟨fun heq => .inl ⟨rfl, heq.symm⟩,
            fun hin => hin.elim (fun heq => heq.2.symm) fun hin => absurd hin (hnew c)⟩
        · rw [hslot, List.getElem?_set_ne (Ne.symm hk), getElem?_pad, h.state]
          exact ⟨.inr, fun hin => hin.elim (fun heq => absurd heq.1 hk) id⟩
      · rcases List.mem_cons.mp hx with rfl | hx
        · refine ⟨hlt, ?_⟩
          show (s.heap ++ _)[s.heap.length]? = some ⟨Int32.ofNat o, s.text o⟩
          rw [List.getElem?_concat_length, h.unread o hnew, ← hseq, hindex]
        · obtain ⟨hltx, hgot⟩ := h.got x hx
          refine ⟨hltx, ?_⟩
          show (s.heap ++ _)[x.2]? = _
          rw [List.getElem?_append_left (List.getElem?_eq_some_iff.mp hgot).1]
          exact hgot
      · obtain ⟨hltg, hglobal⟩ := h.global o' out' hout'
        refine ⟨hltg.trans hlength, fun x hx => ?_⟩
        rcases List.mem_cons.mp hx with rfl | hx
        · exact hltg.ne'
        · exact hglobal x hx
      · exact h.unread o' fun c hc => ho' c (List.mem_cons_of_mem _ hc)

theorem inv_step {s s' : TextSystem} {a : Action} (h : s.Inv) (hguard : s.IndexIsSeq a)
    (hstep : s.step a = some s') : s'.Inv := by
  cases a with
  | construct multithreaded =>
      obtain rfl := Option.some.inj hstep
      exact h.construct hguard multithreaded
  | destroy o =>
      obtain ⟨out, hout, rfl⟩ := Option.map_eq_some_iff.mp hstep
      exact h.destroy hout
  | call o op =>
      obtain ⟨out, hout, rfl⟩ := Option.map_eq_some_iff.mp hstep
      unfold TextSystem.call
      dsimp only
      cases hmulti : out.multithreaded with
      | true =>
          have hgot := h.getBuffer hout hmulti (hguard out hout hmulti)
          rw [if_pos rfl]
          exact hgot.edit List.mem_cons_self op.apply
      | false =>
          have hglobal : s.getBuffer out = (out.mGlobalState, s) := by
            unfold TextSystem.getBuffer
            rw [if_neg (by rw [hmulti]; exact Bool.false_ne_true)]
          rw [if_neg Bool.false_ne_true, hglobal]
          exact h.editGlobal hout op.apply

/-- In every run in which outputs are only called while their index is their sequence
number, every output has a buffer of its own. -/
theorem private_of_indexIsSeq {s : TextSystem} (h : machine.ReachWhen IndexIsSeq s) :
    s.Private :=
  (h.invariant (fun _ hs => hs ▸ inv_initial)
    fun _ _ _ hinv hguard hstep => inv_step hinv hguard hstep).private

/-- The test of the condition. -/
def indexIsSeq (s : TextSystem) : Action → Bool
  | .construct _ => s.made < 2 ^ 32
  | .destroy _ => true
  | .call o _ => (s.outputs o).all fun out => !out.multithreaded || out.mSeq = out.mIndex

theorem indexIsSeq_sound (s : TextSystem) (a : Action) (h : s.indexIsSeq a = true) :
    s.IndexIsSeq a := by
  cases a with
  | construct multithreaded => exact (decide_eq_true_iff.mp h : s.made < 2 ^ 32)
  | destroy o => trivial
  | call o op =>
      intro out hout hmulti
      simpa [indexIsSeq, hout, hmulti] using h

/-- Two outputs, of which the first is called again. -/
def twoOutputs : List Action :=
  [.construct true, .construct true, .call 0 .pushBundle, .call 1 .pushBundle,
    .call 0 (.moveIndent 2)]

theorem twoOutputs_private :
    ((machine.runWhen indexIsSeq initial twoOutputs).get (by decide)).Private :=
  private_of_indexIsSeq
    (Machine.reachWhen_of_runWhen indexIsSeq_sound _ (.init rfl) (Option.some_get _).symm)

/-- An output with the index of a destroyed one, which is called twice. -/
def indexUsedAgain : List Action :=
  [.construct true, .construct true, .destroy 0, .construct true, .call 2 (.moveIndent 2),
    .call 2 .pushBundle]

/-- The second call gets another state, without the indentation. -/
theorem indentation_lost :
    machine.Reach ((machine.run initial indexUsedAgain).get (by decide)) ∧
      ¬ ((machine.run initial indexUsedAgain).get (by decide)).Private := by
  refine ⟨Machine.reach_of_run indexUsedAgain rfl (Option.some_get _).symm, fun h => ?_⟩
  have hlog : ((machine.run initial indexUsedAgain).get (by decide)).log = [(2, 4), (2, 3)] := by
    decide
  have hsame := h.same
  rw [hlog] at hsame
  exact absurd ((hsame (2, 4) (by decide) (2, 3) (by decide)).mp rfl) (by decide)

end TextSystem
end Binder
end AndroidLinux
