import AndroidLinux.Lib.Transition
import AndroidLinux.Msg.Buffer

/-!
# Accounting of a buffer pool

Runs of `MB_Alloc` and `MB_Free` on one pool of `msg_buffer.c`.  Beside the pool the
state keeps the pointers that were handed out and not given back, so that `MB_Free`
is only called on a block in use.

`MbPool.WF` ties the three records of what is in use to each other: the flags in the
block heads, the counter of each level, and the pointers the callers hold.  It also
keeps the level number that `MB_Init` wrote in each head, from which `MB_Free` finds
the counter to decrement.
-/

namespace AndroidLinux
namespace Msg

open Lib

namespace MbContext

/-- The number of blocks of a level whose flag is set. -/
def flagged (c : MbContext) (i : Nat) : Nat :=
  ((Finset.range (c.mb i).blocknum).filter fun j => (c.head (c.addr i j)).flag = 1).card

/-- `MB_GetUsed`. -/
def mbGetUsed (c : MbContext) (bufferId : Nat) : UInt32 :=
  (List.range (c.mb bufferId).blocknum).foldl
    (fun used i => if (c.head (c.addr bufferId i)).flag = 1 then used + 1 else used) 0

/-- `MB_GetTotalUsed`. -/
def mbGetTotalUsed (c : MbContext) : UInt32 :=
  (List.range vtopMsgBlButt).foldl
    (fun total i => if 0 < (c.mb i).buffersize then total + (c.mb i).used else total) 0

end MbContext

/-- A pool and the pointers that were handed out and not freed yet. -/
structure MbPool where
  ctx : MbContext
  live : List Nat

/-- The calls on a pool.  `size` is a `size_t`. -/
inductive MbCall
  | alloc (size : UInt32)
  | free (p : Nat)

/-- Runs of a pool from `MB_Init` on.  A failed `MB_Alloc` returns `NULL` and writes
nothing. -/
def mbPoolMachine (b : VtopMsgBuffer) (malloc : MbMalloc → Bool) :
    Machine MbPool MbCall where
  init s := mbInit b malloc = .ok s.ctx ∧ s.live = []
  step s
    | .alloc size =>
        match s.ctx.mbAlloc size.toNat with
        | none => some s
        | some (p, c') => some ⟨c', p :: s.live⟩
    | .free p =>
        if p ∈ s.live then (s.ctx.mbFree p).map fun c' => ⟨c', s.live.erase p⟩ else none

namespace VtopMsgBuffer

/-- A level with blocks. -/
def Enabled (b : VtopMsgBuffer) (i : Nat) : Prop :=
  i < b.bufLevel ∧ 0 < b.blockNum i

/-- The lowest enabled level whose payload is at least `size`. -/
structure LowestFor (b : VtopMsgBuffer) (size i : Nat) : Prop where
  enabled : b.Enabled i
  payload : size ≤ b.blockSize i
  lowest : ∀ k, k < i → b.Enabled k → b.blockSize k < size

end VtopMsgBuffer

namespace MbPool

/-- Every block of the level is in use. -/
def LevelFull (s : MbPool) (b : VtopMsgBuffer) (i : Nat) : Prop :=
  ∀ j, j < b.blockNum i → (s.ctx.head (s.ctx.addr i j)).flag = 1

/-- `MB_Alloc(size)` hands out a free block of the lowest enabled level whose payload
is at least `size`, and returns `NULL` exactly when there is no such level or all its
blocks are in use. -/
structure AllocMeets (s : MbPool) (b : VtopMsgBuffer) (size : Nat) : Prop where
  block : ∀ p c', s.ctx.mbAlloc size = some (p, c') → ∃ i j, b.LowestFor size i ∧
    j < b.blockNum i ∧ (s.ctx.head (s.ctx.addr i j)).flag = 0 ∧
    p = s.ctx.addr i j + mbHeadLen ∧ p ∉ s.live ∧ c' = s.ctx.taken i (s.ctx.addr i j)
  null : s.ctx.mbAlloc size = none ↔ ∀ i, b.LowestFor size i → s.LevelFull b i

/-- What `MB_Init` fixes for the configuration `b` and no later call changes. -/
structure Shape (b : VtopMsgBuffer) (c : MbContext) : Prop where
  accepted : b.accepted = true
  layout : c.Layout
  num : c.mbNum = b.bufLevel
  totalNum : c.totalNum = ((List.range b.bufLevel).map b.blockNum).sum
  blocknum : ∀ i, (c.mb i).blocknum = if i < b.bufLevel then b.blockNum i else 0
  buffersize : ∀ i, 0 < (c.mb i).buffersize ↔ 0 < (c.mb i).blocknum
  blocksize : ∀ i, i < b.bufLevel → (c.mb i).blocksize = mbHeadLen + b.blockSize i

/-- The records of a pool agree. -/
structure WF (b : VtopMsgBuffer) (s : MbPool) : Prop where
  shape : Shape b s.ctx
  ids : ∀ i j, s.ctx.IsBlock i j → (s.ctx.head (s.ctx.addr i j)).bufferId = i
  flags : ∀ a, (s.ctx.head a).flag = 0 ∨ (s.ctx.head a).flag = 1
  used : ∀ i, (s.ctx.mb i).used.toNat = s.ctx.flagged i
  held : ∀ p, p ∈ s.live ↔ ∃ i j, s.ctx.IsBlock i j ∧
    (s.ctx.head (s.ctx.addr i j)).flag = 1 ∧ p = s.ctx.addr i j + mbHeadLen
  nodup : s.live.Nodup

/-! ## The fixed part -/

namespace Shape

variable {b : VtopMsgBuffer} {c : MbContext}

theorem isBlock_iff (h : Shape b c) (i j : Nat) : c.IsBlock i j ↔ j < (c.mb i).blocknum := by
  unfold MbContext.IsBlock
  constructor
  · rintro ⟨-, -, hj⟩
    exact hj
  · intro hj
    have hpos : 0 < (c.mb i).blocknum := by omega
    refine ⟨?_, (h.buffersize i).mpr hpos, hj⟩
    have hnum := h.blocknum i
    split at hnum
    · rw [h.num]
      assumption
    · omega

theorem enabled_iff (h : Shape b c) (i : Nat) : b.Enabled i ↔ 0 < (c.mb i).blocknum := by
  rw [h.blocknum i]
  unfold VtopMsgBuffer.Enabled
  split
  · simp [*]
  · simp [*]

theorem blocknum_eq (h : Shape b c) {i : Nat} (hi : b.Enabled i) :
    (c.mb i).blocknum = b.blockNum i := by
  rw [h.blocknum i, if_pos hi.1]

theorem blocknum_le (h : Shape b c) (i : Nat) : (c.mb i).blocknum ≤ msgMaxBlkNum := by
  have hacc := h.accepted
  simp only [VtopMsgBuffer.accepted, Bool.and_eq_true, List.all_eq_true, List.mem_range,
    decide_eq_true_eq] at hacc
  rw [h.blocknum i]
  split
  · apply hacc.1.1.1.1.1 i
    have := VtopMsgBuffer.bufLevel_le b
    omega
  · exact Nat.zero_le _

theorem addr_inj (h : Shape b c) {i j i' j' : Nat} (hb : c.IsBlock i j)
    (hb' : c.IsBlock i' j') (heq : c.addr i j = c.addr i' j') : i = i' ∧ j = j' := by
  by_contra hne
  have hpair : (i, j) ≠ (i', j') := by
    intro he
    exact hne (Prod.mk.inj he)
  have hdisj := h.layout.disjoint i j i' j' hb hb' hpair
  have hhead := h.layout.headFits i j hb
  have hhead' := h.layout.headFits i' j' hb'
  unfold mbHeadLen at hhead hhead'
  omega

theorem setHead (h : Shape b c) (a : Nat) (head : MbHead) : Shape b (c.setHead a head) where
  accepted := h.accepted
  layout := h.layout.setHead a head
  num := h.num
  totalNum := h.totalNum
  blocknum := h.blocknum
  buffersize := h.buffersize
  blocksize := h.blocksize

theorem setUsed (h : Shape b c) (i : Nat) (used : UInt32) : Shape b (c.setUsed i used) where
  accepted := h.accepted
  layout := h.layout.setUsed i used
  num := h.num
  totalNum := h.totalNum
  blocknum := by
    intro k
    rw [(MbContext.setUsed_level c i k used).2.2.1]
    exact h.blocknum k
  buffersize := by
    intro k
    rw [(MbContext.setUsed_level c i k used).2.2.1, (MbContext.setUsed_level c i k used).2.2.2]
    exact h.buffersize k
  blocksize := by
    intro k hk
    rw [MbContext.setUsed_blocksize]
    exact h.blocksize k hk

theorem taken (h : Shape b c) (i a : Nat) : Shape b (c.taken i a) :=
  (h.setHead a _).setUsed i _

theorem released (h : Shape b c) (a : Nat) : Shape b (c.released a) :=
  (h.setHead a _).setUsed _ _

end Shape

/-! ## Counting the flags -/

section Counting

variable {b : VtopMsgBuffer} {c : MbContext}

theorem flagged_le (c : MbContext) (i : Nat) : c.flagged i ≤ (c.mb i).blocknum := by
  have := Finset.card_filter_le (Finset.range (c.mb i).blocknum)
    fun j => (c.head (c.addr i j)).flag = 1
  rwa [Finset.card_range] at this

theorem flagged_setUsed (i k : Nat) (used : UInt32) :
    (c.setUsed i used).flagged k = c.flagged k := by
  simp [MbContext.flagged, (MbContext.setUsed_level c i k used).2.2.1]

/-- A block whose flag is clear is not among the counted ones, and setting the flag
adds it. -/
theorem flagged_setHead_of_set (h : Shape b c) {i j : Nat} (hij : c.IsBlock i j)
    (hclear : (c.head (c.addr i j)).flag = 0) (head : MbHead)
    (hset : head.flag = 1) (k : Nat) :
    (c.setHead (c.addr i j) head).flagged k = if k = i then c.flagged k + 1 else c.flagged k := by
  have hother : ∀ k j', c.IsBlock k j' → ¬ (k = i ∧ j' = j) →
      ((c.setHead (c.addr i j) head).head (c.addr k j')).flag = (c.head (c.addr k j')).flag := by
    intro k j' hb hne
    rw [MbContext.setHead_head_ne]
    intro heq
    exact hne (h.addr_inj hb hij heq)
  split
  · rename_i hk
    subst hk
    have hmem : (Finset.range (c.mb k).blocknum).filter (fun j' =>
        ((c.setHead (c.addr k j) head).head (c.addr k j')).flag = 1) =
        insert j ((Finset.range (c.mb k).blocknum).filter fun j' =>
          (c.head (c.addr k j')).flag = 1) := by
      ext j'
      simp only [Finset.mem_filter, Finset.mem_range, Finset.mem_insert]
      by_cases hj : j' = j
      · subst hj
        have := (h.isBlock_iff k j').mp hij
        simp [hset, this]
      · constructor
        · rintro ⟨hlt, hflag⟩
          rw [hother k j' ((h.isBlock_iff k j').mpr hlt) (fun e => hj e.2)] at hflag
          exact Or.inr ⟨hlt, hflag⟩
        · rintro (he | ⟨hlt, hflag⟩)
          · exact absurd he hj
          · rw [hother k j' ((h.isBlock_iff k j').mpr hlt) (fun e => hj e.2)]
            exact ⟨hlt, hflag⟩
    have hnot : j ∉ (Finset.range (c.mb k).blocknum).filter fun j' =>
        (c.head (c.addr k j')).flag = 1 := by
      simp [hclear]
    change (Finset.filter _ _).card = (Finset.filter _ _).card + 1
    rw [← Finset.card_insert_of_notMem hnot, ← hmem]
    rfl
  · rename_i hk
    change (Finset.filter _ _).card = (Finset.filter _ _).card
    congr 1
    apply Finset.filter_congr
    intro j' hj'
    have hb := (h.isBlock_iff k j').mpr (Finset.mem_range.mp hj')
    rw [MbContext.setHead_addr, hother k j' hb (fun e => hk e.1)]

/-- Clearing a flag is undone by setting it again. -/
theorem flagged_setHead_of_clear (h : Shape b c) {i j : Nat} (hij : c.IsBlock i j)
    (hset : (c.head (c.addr i j)).flag = 1) (head : MbHead)
    (hclear : head.flag = 0) (k : Nat) :
    c.flagged k = if k = i then (c.setHead (c.addr i j) head).flagged k + 1
      else (c.setHead (c.addr i j) head).flagged k := by
  have hback : (c.setHead (c.addr i j) head).setHead (c.addr i j) (c.head (c.addr i j)) = c := by
    simp [MbContext.setHead]
  have hcount := flagged_setHead_of_set (h.setHead (c.addr i j) head) (i := i) (j := j) hij
    (by simpa using hclear) _ hset k
  rw [MbContext.setHead_addr, hback] at hcount
  exact hcount

/-- `MB_GetUsed` counts the flags. -/
theorem mbGetUsed_eq (c : MbContext) (i : Nat) :
    c.mbGetUsed i = UInt32.ofNat (c.flagged i) := by
  have hfold : ∀ (l : List Nat) (u : UInt32),
      l.foldl (fun used j => if (c.head (c.addr i j)).flag = 1 then used + 1 else used) u =
        u + UInt32.ofNat (l.filter fun j => (c.head (c.addr i j)).flag = 1).length := by
    intro l
    induction l with
    | nil => simp
    | cons j l ih =>
        intro u
        rw [List.foldl_cons, ih]
        by_cases hj : (c.head (c.addr i j)).flag = 1
        · simp [hj, UInt32.add_assoc, UInt32.add_comm]
        · simp [hj]
  have hcount := hfold (List.range (c.mb i).blocknum) 0
  rw [UInt32.zero_add] at hcount
  exact hcount

end Counting

/-! ## The two calls keep the records in step -/

section Calls

variable {b : VtopMsgBuffer} {s : MbPool}

/-- What one call changes besides the list of pointers: the head of one block, whose
level stays, and the counter of that level. -/
theorem WF.update (h : WF b s) {i j : Nat} (hij : s.ctx.IsBlock i j) {head : MbHead}
    (hid : head.bufferId = (s.ctx.head (s.ctx.addr i j)).bufferId)
    (hflag : head.flag = 0 ∨ head.flag = 1) {used : UInt32} {live : List Nat}
    (hused : used.toNat = (s.ctx.setHead (s.ctx.addr i j) head).flagged i)
    (hframe : ∀ k, k ≠ i → (s.ctx.setHead (s.ctx.addr i j) head).flagged k = s.ctx.flagged k)
    (hheld : ∀ p, p ∈ live ↔ (p ∈ s.live ∧ p ≠ s.ctx.addr i j + mbHeadLen) ∨
      (head.flag = 1 ∧ p = s.ctx.addr i j + mbHeadLen))
    (hnodup : live.Nodup) :
    WF b ⟨(s.ctx.setHead (s.ctx.addr i j) head).setUsed i used, live⟩ := by
  -- two blocks have different addresses, so the other heads stay
  have hother : ∀ i' j', s.ctx.IsBlock i' j' → ¬ (i' = i ∧ j' = j) →
      (s.ctx.setHead (s.ctx.addr i j) head).head (s.ctx.addr i' j') =
        s.ctx.head (s.ctx.addr i' j') := by
    intro i' j' hb hne
    apply MbContext.setHead_head_ne
    intro heq
    exact hne (h.shape.addr_inj hb hij heq)
  constructor
  · exact (h.shape.setHead _ head).setUsed i used
  · intro i' j' hb
    simp only [MbContext.setUsed_isBlock, MbContext.setHead_isBlock, MbContext.setUsed_head,
      MbContext.setUsed_addr, MbContext.setHead_addr] at hb ⊢
    by_cases heq : i' = i ∧ j' = j
    · obtain ⟨rfl, rfl⟩ := heq
      rw [MbContext.setHead_head_self, hid]
      exact h.ids i' j' hij
    · rw [hother i' j' hb heq]
      exact h.ids i' j' hb
  · intro a
    simp only [MbContext.setUsed_head]
    by_cases ha : a = s.ctx.addr i j
    · rw [ha, MbContext.setHead_head_self]
      exact hflag
    · rw [MbContext.setHead_head_ne _ _ ha]
      exact h.flags a
  · intro k
    rw [flagged_setUsed]
    by_cases hk : k = i
    · subst hk
      simpa [MbContext.setUsed] using hused
    · rw [hframe k hk]
      simpa [MbContext.setUsed, hk] using h.used k
  · intro p
    simp only [MbContext.setUsed_isBlock, MbContext.setHead_isBlock, MbContext.setUsed_head,
      MbContext.setUsed_addr, MbContext.setHead_addr]
    rw [hheld p, h.held p]
    constructor
    · rintro (⟨⟨i', j', hb, hset, rfl⟩, hne⟩ | ⟨hset, rfl⟩)
      · refine ⟨i', j', hb, ?_, rfl⟩
        rw [hother i' j' hb]
        · exact hset
        · rintro ⟨rfl, rfl⟩
          exact hne rfl
      · exact ⟨i, j, hij, by rwa [MbContext.setHead_head_self], rfl⟩
    · rintro ⟨i', j', hb, hset, rfl⟩
      by_cases heq : i' = i ∧ j' = j
      · obtain ⟨rfl, rfl⟩ := heq
        rw [MbContext.setHead_head_self] at hset
        exact Or.inr ⟨hset, rfl⟩
      · rw [hother i' j' hb heq] at hset
        refine Or.inl ⟨⟨i', j', hb, hset, rfl⟩, ?_⟩
        intro hp
        exact heq (h.shape.addr_inj hb hij (Nat.add_right_cancel hp))
  · exact hnodup

theorem WF.notMem_of_clear (h : WF b s) {i j : Nat} (hij : s.ctx.IsBlock i j)
    (hclear : (s.ctx.head (s.ctx.addr i j)).flag = 0) :
    s.ctx.addr i j + mbHeadLen ∉ s.live := by
  rw [h.held]
  rintro ⟨i', j', hb, hset, heq⟩
  obtain ⟨rfl, rfl⟩ := h.shape.addr_inj hij hb (Nat.add_right_cancel heq)
  rw [hclear] at hset
  exact absurd hset (by decide)

theorem WF.alloc (h : WF b s) {size p : Nat} {c' : MbContext}
    (hs : s.ctx.mbAlloc size = some (p, c')) : WF b ⟨c', p :: s.live⟩ := by
  obtain ⟨i, j, hij, hclear, -, rfl, rfl⟩ := MbContext.mbAlloc_eq_some hs
  have hcount := flagged_setHead_of_set h.shape hij hclear
    { s.ctx.head (s.ctx.addr i j) with flag := 1 } rfl
  have hnot := h.notMem_of_clear hij hclear
  apply h.update hij
  · rfl
  · exact Or.inr rfl
  · rw [hcount i, if_pos rfl, UInt32.toNat_add, h.used i]
    have hle := flagged_le (s.ctx.setHead (s.ctx.addr i j)
      { s.ctx.head (s.ctx.addr i j) with flag := 1 }) i
    rw [hcount i, if_pos rfl] at hle
    have hmax := h.shape.blocknum_le i
    apply Nat.mod_eq_of_lt
    simp only [MbContext.setHead_mb] at hle
    unfold msgMaxBlkNum at hmax
    have hone : (1 : UInt32).toNat = 1 := rfl
    omega
  · intro k hk
    rw [hcount k, if_neg hk]
  · intro p
    rw [List.mem_cons]
    constructor
    · rintro (rfl | hp)
      · exact Or.inr ⟨rfl, rfl⟩
      · refine Or.inl ⟨hp, ?_⟩
        rintro rfl
        exact hnot hp
    · rintro (⟨hp, -⟩ | ⟨-, rfl⟩)
      · exact Or.inr hp
      · exact Or.inl rfl
  · exact List.nodup_cons.mpr ⟨hnot, h.nodup⟩

/-- `MB_Free` of a pointer in use passes its assertion, decrements the counter of the
level the block belongs to and keeps the records in step. -/
theorem WF.free (h : WF b s) {p : Nat} (hp : p ∈ s.live) :
    ∃ c', s.ctx.mbFree p = some c' ∧ WF b ⟨c', s.live.erase p⟩ := by
  obtain ⟨i, j, hij, hset, rfl⟩ := (h.held p).mp hp
  refine ⟨_, MbContext.mbFree_eq hset, ?_⟩
  have hcount := flagged_setHead_of_clear h.shape hij hset
    { s.ctx.head (s.ctx.addr i j) with flag := 0 } rfl
  have hid := h.ids i j hij
  unfold MbContext.released
  rw [hid]
  apply h.update hij
  · rfl
  · exact Or.inl rfl
  · have hi := hcount i
    rw [if_pos rfl, ← h.used i] at hi
    have hone : (1 : UInt32) ≤ (s.ctx.mb i).used := by
      rw [UInt32.le_iff_toNat_le, hi]
      exact Nat.le_add_left _ _
    rw [UInt32.toNat_sub_of_le _ _ hone, hi]
    rfl
  · intro k hk
    rw [hcount k, if_neg hk]
  · intro q
    rw [h.nodup.mem_erase_iff]
    constructor
    · rintro ⟨hne, hq⟩
      exact Or.inl ⟨hq, hne⟩
    · rintro (⟨hq, hne⟩ | ⟨hflag, -⟩)
      · exact ⟨hne, hq⟩
      · simp at hflag
  · exact h.nodup.erase _

end Calls

/-! ## A fresh pool -/

theorem mem_blocks_iff {b : VtopMsgBuffer} {i j : Nat} :
    (i, j) ∈ b.blocks ↔ i < b.bufLevel ∧ 0 < b.eachMbSize i ∧ j < b.blockNum i := by
  unfold VtopMsgBuffer.blocks
  rw [List.mem_flatMap]
  constructor
  · rintro ⟨k, hk, hmem⟩
    split at hmem
    · simp only [List.mem_map, List.mem_range, Prod.mk.injEq] at hmem
      obtain ⟨j', hj', rfl, rfl⟩ := hmem
      exact ⟨List.mem_range.mp hk, by assumption, hj'⟩
    · simp at hmem
  · rintro ⟨hi, hsize, hj⟩
    refine ⟨i, List.mem_range.mpr hi, ?_⟩
    simpa [hsize] using hj

/-- `MB_Init` writes in each block head the level of the block. -/
theorem initHeads_bufferId {b : VtopMsgBuffer}
    (hinj : ∀ x ∈ b.blocks, ∀ y ∈ b.blocks,
      (b.level x.1).pMsg x.2 = (b.level y.1).pMsg y.2 → x = y)
    {x : Nat × Nat} (hx : x ∈ b.blocks) :
    (b.initHeads ((b.level x.1).pMsg x.2)).bufferId = x.1 := by
  unfold VtopMsgBuffer.initHeads
  generalize b.blocks = l at hinj hx
  -- from the end of the loop: the last write to the head of a block is its own
  induction l using List.reverseRecOn with
  | nil => simp at hx
  | append_singleton l y ih =>
      rw [List.foldl_append, List.foldl_cons, List.foldl_nil]
      by_cases haddr : (b.level x.1).pMsg x.2 = (b.level y.1).pMsg y.2
      · have hxy := hinj x hx y (by simp) haddr
        subst hxy
        simp
      · simp only [Function.update_of_ne haddr]
        have hmem : x ∈ l := by
          rcases List.mem_append.mp hx with hmem | hmem
          · exact hmem
          · rw [List.mem_singleton] at hmem
            subst hmem
            exact absurd rfl haddr
        apply ih _ hmem
        intro u hu v hv
        exact hinj u (List.mem_append_left _ hu) v (List.mem_append_left _ hv)

section Fresh

variable {b : VtopMsgBuffer} {malloc : MbMalloc → Bool} {c : MbContext}
  (hinit : mbInit b malloc = .ok c) (hfit : b.exactHead b.bufLevel < sizeTBound)
include hinit hfit

theorem shape_of_init : Shape b c := by
  obtain ⟨hacc, hlevel, hrest, -, htotal, hnum, -⟩ := inited_of_mbInit hinit
  refine ⟨hacc, mbInit_layout hinit hfit, hnum, htotal, ?_, ?_, ?_⟩
  · intro i
    split
    · rename_i hi
      rw [hlevel i hi]
      rfl
    · rename_i hi
      rw [hrest i (Nat.not_lt.mp hi)]
  · intro i
    by_cases hi : i < b.bufLevel
    · rw [hlevel i hi]
      change 0 < b.eachMbSize i ↔ 0 < b.blockNum i
      rw [VtopMsgBuffer.eachMbSize_eq hacc hfit hi]
      constructor
      · exact fun hpos => Nat.pos_of_mul_pos_right hpos
      · intro hpos
        apply Nat.mul_pos hpos
        unfold mbHeadLen
        omega
    · rw [hrest i (Nat.not_lt.mp hi)]
  · intro i hi
    rw [hlevel i hi]
    exact VtopMsgBuffer.mbBlockSize_of_accepted hacc hi

theorem wf_of_init : WF b ⟨c, []⟩ := by
  have hshape := shape_of_init hinit hfit
  obtain ⟨hacc, hlevel, hrest, -, -, hnum, hheads⟩ := inited_of_mbInit hinit
  have hclear : ∀ a, (c.head a).flag = 0 := by
    intro a
    rw [hheads]
    exact VtopMsgBuffer.initHeads_flag b a
  have haddr : ∀ i j, (i, j) ∈ b.blocks → c.IsBlock i j ∧ (b.level i).pMsg j = c.addr i j := by
    intro i j hmem
    obtain ⟨hi, -, hj⟩ := mem_blocks_iff.mp hmem
    constructor
    · rw [hshape.isBlock_iff, hshape.blocknum i, if_pos hi]
      exact hj
    · unfold MbContext.addr
      rw [hlevel i hi]
  refine ⟨hshape, ?_, fun a => Or.inl (hclear a), ?_, ?_, List.nodup_nil⟩
  · intro i j hij
    have hmem : (i, j) ∈ b.blocks := by
      have hi : i < b.bufLevel := hnum ▸ hij.1
      obtain ⟨-, hsize, hj⟩ := hij
      rw [hlevel i hi] at hsize hj
      exact mem_blocks_iff.mpr ⟨hi, hsize, hj⟩
    -- no later head is at the same address
    have hid := initHeads_bufferId (x := (i, j)) ?_ hmem
    · change (c.head (c.addr i j)).bufferId = i
      rw [hheads, ← (haddr i j hmem).2]
      exact hid
    · rintro ⟨i₁, j₁⟩ h₁ ⟨i₂, j₂⟩ h₂ heq
      rw [(haddr i₁ j₁ h₁).2, (haddr i₂ j₂ h₂).2] at heq
      have := hshape.addr_inj (haddr i₁ j₁ h₁).1 (haddr i₂ j₂ h₂).1 heq
      exact Prod.ext this.1 this.2
  · intro i
    have hzero : c.flagged i = 0 := by
      unfold MbContext.flagged
      rw [Finset.card_eq_zero, Finset.filter_eq_empty_iff]
      intro j _
      rw [hclear]
      decide
    rw [hzero]
    by_cases hi : i < b.bufLevel
    · rw [hlevel i hi]
      rfl
    · rw [hrest i (Nat.not_lt.mp hi)]
      rfl
  · intro p
    simp [hclear]

end Fresh

theorem wf_of_reach {b : VtopMsgBuffer} {malloc : MbMalloc → Bool} {s : MbPool}
    (hfit : b.exactHead b.bufLevel < sizeTBound) (hreach : (mbPoolMachine b malloc).Reach s) :
    WF b s := by
  induction hreach with
  | @init s hinit =>
      obtain ⟨ctx, live⟩ := s
      obtain ⟨hctx, rfl⟩ := hinit
      exact wf_of_init hctx hfit
  | @step s s' a _ _ hs ih =>
      cases a with
      | alloc size =>
          simp only [mbPoolMachine] at hs
          cases halloc : s.ctx.mbAlloc size.toNat with
          | none =>
              rw [halloc] at hs
              exact Option.some.inj hs ▸ ih
          | some r =>
              rw [halloc] at hs
              exact Option.some.inj hs ▸ ih.alloc halloc
      | free p =>
          simp only [mbPoolMachine] at hs
          split at hs
          · rename_i hp
            obtain ⟨c', hfree, hwf⟩ := ih.free hp
            rw [hfree] at hs
            exact Option.some.inj hs ▸ hwf
          · cases hs

/-! ## Which block `MB_Alloc` hands out -/

section Choice

variable {b : VtopMsgBuffer} {c : MbContext}

/-- `MB_Alloc` compares the sum with the head length modulo the size of a `size_t`, so
that it searches for a level as if it were called with this size. -/
def soughtSize (size : Nat) : Nat :=
  (size + mbHeadLen) % sizeTBound - mbHeadLen

theorem soughtSize_of_fits {size : Nat} (h : size + mbHeadLen < sizeTBound) :
    soughtSize size = size := by
  unfold soughtSize
  rw [Nat.mod_eq_of_lt h]
  omega

theorem soughtSize_of_wraps {size : Nat} (hlt : size < sizeTBound)
    (h : ¬ size + mbHeadLen < sizeTBound) : soughtSize size = 0 := by
  have hmod : (size + mbHeadLen) % sizeTBound < mbHeadLen := by
    rw [Nat.mod_eq_sub_mod (Nat.not_lt.mp h)]
    apply lt_of_le_of_lt (Nat.mod_le _ _)
    omega
  unfold soughtSize
  omega

theorem Shape.fits_iff (h : Shape b c) (size i : Nat) (hi : i < b.bufLevel) :
    c.fits size i = true ↔ b.Enabled i ∧ soughtSize size ≤ b.blockSize i := by
  unfold MbContext.fits soughtSize
  rw [Bool.and_eq_true, decide_eq_true_eq, decide_eq_true_eq, h.buffersize, h.enabled_iff,
    h.blocksize i hi]
  constructor
  · rintro ⟨hpos, hle⟩
    exact ⟨hpos, by omega⟩
  · rintro ⟨hpos, hle⟩
    exact ⟨hpos, by omega⟩

theorem Shape.matchLevel_eq_some_iff (h : Shape b c) (size i : Nat) :
    c.matchLevel size = some i ↔ b.LowestFor (soughtSize size) i := by
  unfold MbContext.matchLevel
  rw [List.find?_range_eq_some, h.num, List.mem_range]
  constructor
  · rintro ⟨hfits, hi, hlow⟩
    obtain ⟨hen, hle⟩ := (h.fits_iff size i hi).mp hfits
    refine ⟨hen, hle, ?_⟩
    intro k hk hkEn
    by_contra hge
    have hfit := (h.fits_iff size k (by omega)).mpr ⟨hkEn, Nat.not_lt.mp hge⟩
    have := hlow k hk
    simp [hfit] at this
  · rintro ⟨hen, hle, hlow⟩
    refine ⟨(h.fits_iff size i hen.1).mpr ⟨hen, hle⟩, hen.1, ?_⟩
    intro k hk
    have hkLt : k < b.bufLevel := hk.trans hen.1
    by_contra hfits
    have hfit : c.fits size k = true := by simpa using hfits
    obtain ⟨hkEn, hkLe⟩ := (h.fits_iff size k hkLt).mp hfit
    have := hlow k hk hkEn
    omega

theorem freeBlock_eq_none_iff (i : Nat) :
    c.freeBlock i = none ↔ ∀ j, j < (c.mb i).blocknum → (c.head (c.addr i j)).flag ≠ 0 := by
  unfold MbContext.freeBlock
  rw [List.find?_range_eq_none]
  simp

/-- Everything `MB_Alloc` does, with the level in terms of the configuration. -/
theorem Shape.mbAlloc_eq_some (h : Shape b c) {size p : Nat} {c' : MbContext}
    (hs : c.mbAlloc size = some (p, c')) :
    ∃ i j, b.LowestFor (soughtSize size) i ∧ j < b.blockNum i ∧
      (c.head (c.addr i j)).flag = 0 ∧ p = c.addr i j + mbHeadLen ∧
      c' = c.taken i (c.addr i j) := by
  unfold MbContext.mbAlloc at hs
  cases hi : c.matchLevel size with
  | none => simp [hi] at hs
  | some i =>
      cases hj : c.freeBlock i with
      | none => simp [hi, hj] at hs
      | some j =>
          simp only [hi, hj, Option.some.injEq, Prod.mk.injEq] at hs
          obtain ⟨rfl, rfl⟩ := hs
          have hlow := (h.matchLevel_eq_some_iff size i).mp hi
          have hmem := List.mem_range.mp (List.mem_of_find?_eq_some hj)
          rw [h.blocknum_eq hlow.enabled] at hmem
          have hflag := List.find?_some hj
          exact ⟨i, j, hlow, hmem, by simpa using hflag, rfl, rfl⟩

theorem Shape.mbAlloc_eq_none_iff (h : Shape b c) (size : Nat) :
    c.mbAlloc size = none ↔ ∀ i, b.LowestFor (soughtSize size) i →
      ∀ j, j < b.blockNum i → (c.head (c.addr i j)).flag ≠ 0 := by
  unfold MbContext.mbAlloc
  constructor
  · intro hnone i hlow j hj
    rw [(h.matchLevel_eq_some_iff size i).mpr hlow] at hnone
    cases hfree : c.freeBlock i with
    | none =>
        apply (freeBlock_eq_none_iff i).mp hfree
        rw [h.blocknum_eq hlow.enabled]
        exact hj
    | some j => simp [hfree] at hnone
  · intro hfull
    cases hi : c.matchLevel size with
    | none => rfl
    | some i =>
        have hlow := (h.matchLevel_eq_some_iff size i).mp hi
        have hfree : c.freeBlock i = none := by
          rw [freeBlock_eq_none_iff, h.blocknum_eq hlow.enabled]
          exact hfull i hlow
        simp [hfree]

end Choice

section Meets

variable {b : VtopMsgBuffer} {s : MbPool}

theorem WF.levelFull_iff (h : WF b s) (i : Nat) :
    s.LevelFull b i ↔ ∀ j, j < b.blockNum i → (s.ctx.head (s.ctx.addr i j)).flag ≠ 0 := by
  unfold LevelFull
  constructor
  · intro hfull j hj
    rw [hfull j hj]
    decide
  · intro hne j hj
    exact (h.flags _).resolve_left (hne j hj)

/-- No payload is as large as a size whose sum with the head length wraps. -/
theorem WF.not_lowestFor_of_wraps (h : WF b s) {size i : Nat}
    (hwrap : ¬ size + mbHeadLen < sizeTBound) : ¬ b.LowestFor size i := by
  intro hlow
  have hmax := VtopMsgBuffer.blockSize_le_of_accepted h.shape.accepted hlow.enabled.1
  have hpay := hlow.payload
  unfold msgMaxBlkSize at hmax
  unfold mbHeadLen sizeTBound at hwrap
  omega

theorem WF.allocMeets_iff (h : WF b s) {size : Nat} (hsize : size < sizeTBound) :
    s.AllocMeets b size ↔
      size + mbHeadLen < sizeTBound ∨ ∀ i, b.LowestFor 0 i → s.LevelFull b i := by
  by_cases hwrap : size + mbHeadLen < sizeTBound
  · have hsought := soughtSize_of_fits hwrap
    refine ⟨fun _ => Or.inl hwrap, fun _ => ⟨?_, ?_⟩⟩
    · intro p c' hs
      obtain ⟨i, j, hlow, hj, hclear, rfl, rfl⟩ := h.shape.mbAlloc_eq_some hs
      rw [hsought] at hlow
      refine ⟨i, j, hlow, hj, hclear, rfl, ?_, rfl⟩
      apply h.notMem_of_clear _ hclear
      rw [h.shape.isBlock_iff, h.shape.blocknum_eq hlow.enabled]
      exact hj
    · rw [h.shape.mbAlloc_eq_none_iff, hsought]
      simp only [h.levelFull_iff]
  · -- the wrapped size is searched for as zero, and no level has room for the real one
    have hnull : s.ctx.mbAlloc size = none ↔ ∀ i, b.LowestFor 0 i → s.LevelFull b i := by
      rw [h.shape.mbAlloc_eq_none_iff, soughtSize_of_wraps hsize hwrap]
      simp only [h.levelFull_iff]
    constructor
    · intro hmeets
      right
      apply hnull.mp
      apply hmeets.null.mpr
      intro i hlow
      exact absurd hlow (h.not_lowestFor_of_wraps hwrap)
    · rintro (hfits | hfull)
      · exact absurd hfits hwrap
      · have hnone := hnull.mpr hfull
        refine ⟨?_, ?_⟩
        · intro p c' hs
          rw [hnone] at hs
          cases hs
        · refine ⟨fun _ i hlow => ?_, fun _ => hnone⟩
          exact absurd hlow (h.not_lowestFor_of_wraps hwrap)

end Meets

/-! ## The counters -/

section Totals

variable {b : VtopMsgBuffer} {s : MbPool}

theorem WF.used_eq_ofNat (h : WF b s) (i : Nat) :
    (s.ctx.mb i).used = UInt32.ofNat (s.ctx.flagged i) := by
  rw [← h.used i, UInt32.ofNat_toNat]

theorem Shape.sum_blocknum {c : MbContext} (h : Shape b c) :
    ∑ i ∈ Finset.range vtopMsgBlButt, (c.mb i).blocknum = c.totalNum := by
  have hsub : Finset.range b.bufLevel ⊆ Finset.range vtopMsgBlButt :=
    Finset.range_subset_range.mpr (VtopMsgBuffer.bufLevel_le b)
  rw [h.totalNum, ← Finset.sum_subset hsub]
  · change _ = ∑ i ∈ Finset.range b.bufLevel, b.blockNum i
    apply Finset.sum_congr rfl
    intro i hi
    rw [h.blocknum i, if_pos (Finset.mem_range.mp hi)]
  · intro i _ hi
    rw [h.blocknum i, if_neg]
    simpa using hi

theorem WF.sum_flagged_le (h : WF b s) :
    ∑ i ∈ Finset.range vtopMsgBlButt, s.ctx.flagged i ≤ s.ctx.totalNum := by
  rw [← h.shape.sum_blocknum]
  exact Finset.sum_le_sum fun i _ => flagged_le s.ctx i

theorem WF.totalNum_lt (h : WF b s) : s.ctx.totalNum < 2 ^ 32 := by
  rw [← h.shape.sum_blocknum]
  have hle : ∑ i ∈ Finset.range vtopMsgBlButt, (s.ctx.mb i).blocknum ≤
      ∑ _i ∈ Finset.range vtopMsgBlButt, msgMaxBlkNum :=
    Finset.sum_le_sum fun i _ => h.shape.blocknum_le i
  rw [Finset.sum_const, Finset.card_range] at hle
  unfold vtopMsgBlButt msgMaxBlkNum at hle
  norm_num at hle ⊢
  exact lt_of_le_of_lt hle (by decide)

/-- `MB_GetTotalUsed` adds up the counters; a level without blocks has nothing in
use. -/
theorem WF.mbGetTotalUsed_eq (h : WF b s) :
    s.ctx.mbGetTotalUsed =
      UInt32.ofNat (∑ i ∈ Finset.range vtopMsgBlButt, s.ctx.flagged i) := by
  have hfold : ∀ (l : List Nat) (u : UInt32),
      l.foldl (fun total i =>
        if 0 < (s.ctx.mb i).buffersize then total + (s.ctx.mb i).used else total) u =
        u + UInt32.ofNat (l.map s.ctx.flagged).sum := by
    intro l
    induction l with
    | nil => simp
    | cons i l ih =>
        intro u
        rw [List.foldl_cons, ih, List.map_cons, List.sum_cons, UInt32.ofNat_add,
          ← UInt32.add_assoc]
        split
        · rw [h.used_eq_ofNat]
        · rename_i hempty
          rw [h.shape.buffersize] at hempty
          have := flagged_le s.ctx i
          have hzero : s.ctx.flagged i = 0 := by omega
          rw [hzero]
          simp
  have htotal := hfold (List.range vtopMsgBlButt) 0
  rw [UInt32.zero_add] at htotal
  exact htotal

end Totals

end MbPool

/-- In every state of a pool the counters agree with the flags, and `MB_Alloc` serves a
size from the lowest level with room for it exactly when the size does not wrap, or
nothing is left in the level a wrapped size would be served from. -/
theorem mbAlloc_meets_iff {b : VtopMsgBuffer} {malloc : MbMalloc → Bool} {s : MbPool}
    (hfit : b.exactHead b.bufLevel < sizeTBound) (hreach : (mbPoolMachine b malloc).Reach s) :
    (∀ i, i < vtopMsgBlButt → (s.ctx.mb i).used.toNat = s.ctx.flagged i ∧
      s.ctx.mbGetUsed i = (s.ctx.mb i).used) ∧
    s.ctx.mbGetTotalUsed.toNat = ∑ i ∈ Finset.range vtopMsgBlButt, (s.ctx.mb i).used.toNat ∧
    s.ctx.mbGetTotalUsed.toNat ≤ s.ctx.totalNum ∧
    ∀ size : UInt32, (s.AllocMeets b size.toNat ∧
        (s.ctx.mbAlloc size.toNat = none →
          (mbPoolMachine b malloc).step s (.alloc size) = some s)) ↔
      size.toNat + mbHeadLen < sizeTBound ∨ ∀ i, b.LowestFor 0 i → s.LevelFull b i := by
  have h := MbPool.wf_of_reach hfit hreach
  have htotal : s.ctx.mbGetTotalUsed.toNat =
      ∑ i ∈ Finset.range vtopMsgBlButt, s.ctx.flagged i := by
    rw [h.mbGetTotalUsed_eq, UInt32.toNat_ofNat']
    exact Nat.mod_eq_of_lt (lt_of_le_of_lt h.sum_flagged_le h.totalNum_lt)
  refine ⟨?_, ?_, ?_, ?_⟩
  · intro i _
    exact ⟨h.used i, by rw [MbPool.mbGetUsed_eq, h.used_eq_ofNat]⟩
  · rw [htotal]
    exact Finset.sum_congr rfl fun i _ => (h.used i).symm
  · rw [htotal]
    exact h.sum_flagged_le
  · intro size
    rw [← h.allocMeets_iff size.toNat_lt]
    constructor
    · exact fun hmeets => hmeets.1
    · intro hmeets
      refine ⟨hmeets, fun hnone => ?_⟩
      simp [mbPoolMachine, hnone]

/-- One level with one block of 16 bytes. -/
def oneBlock : VtopMsgBuffer where
  blockNum := fun i => if i = 0 then 1 else 0
  blockSize := fun i => if i = 0 then 16 else 0

theorem oneBlock_fresh : ∃ s, (mbPoolMachine oneBlock fun _ => true).Reach s ∧
    (∀ a, (s.ctx.head a).flag = 0) := by
  obtain ⟨c, hc⟩ : ∃ c, mbInit oneBlock (fun _ => true) = .ok c := ⟨_, rfl⟩
  refine ⟨⟨c, []⟩, .init ⟨hc, rfl⟩, ?_⟩
  intro a
  rw [(inited_of_mbInit hc).head]
  exact VtopMsgBuffer.initHeads_flag oneBlock a

/-- Two blocks of 16 bytes and one of 64. -/
def twoLevels : VtopMsgBuffer where
  blockNum := fun i => if i = 0 then 2 else if i = 1 then 1 else 0
  blockSize := fun i => if i = 0 then 16 else if i = 1 then 64 else 0

def freshTwoLevels : MbPool :=
  ⟨(mbInit twoLevels fun _ => true).toOption.get (by decide +kernel), []⟩

/-- The large block and the second small one are in use; the first one was freed. -/
def usedTwoLevels : MbPool :=
  ((mbPoolMachine twoLevels fun _ => true).run freshTwoLevels
    [.alloc 16, .alloc 20, .alloc 8, .free (freshTwoLevels.ctx.addr 0 0 + mbHeadLen)]).get
    (by decide +kernel)

/-- The two blocks are counted; the next small block is the freed one, and there is no
large block left. -/
theorem mbAlloc_meets_twoLevels : usedTwoLevels.live.length = 2 ∧
    usedTwoLevels.ctx.mbGetTotalUsed.toNat =
      ∑ i ∈ Finset.range vtopMsgBlButt, (usedTwoLevels.ctx.mb i).used.toNat ∧
    (∀ i < 2, (usedTwoLevels.ctx.mb i).used.toNat = 1 ∧ usedTwoLevels.ctx.flagged i = 1) ∧
    usedTwoLevels.AllocMeets twoLevels (UInt32.toNat 16) ∧
    usedTwoLevels.AllocMeets twoLevels (UInt32.toNat 17) ∧
    usedTwoLevels.ctx.mbAlloc 17 = none := by
  have hinit : (mbPoolMachine twoLevels fun _ => true).init freshTwoLevels := ⟨rfl, rfl⟩
  have hreach : (mbPoolMachine twoLevels fun _ => true).Reach usedTwoLevels :=
    Machine.reach_of_run _ hinit (Option.some_get _).symm
  obtain ⟨hused, htotal, -, hmeets⟩ := mbAlloc_meets_iff (by decide) hreach
  have hone : ∀ i < 2, (usedTwoLevels.ctx.mb i).used.toNat = 1 := by decide +kernel
  have hlevels : ∀ i < 2, i < vtopMsgBlButt := by decide
  refine ⟨by decide +kernel, htotal, ?_, ?_, ?_, by decide +kernel⟩
  · intro i hi
    exact ⟨hone i hi, (hused i (hlevels i hi)).1.symm.trans (hone i hi)⟩
  · exact ((hmeets 16).mpr (Or.inl (by decide))).1
  · exact ((hmeets 17).mpr (Or.inl (by decide))).1

/-- `MB_Alloc(0xFFFFFFFF)` returns the 16-byte block. -/
theorem mbAlloc_wraps : ¬ ∀ (b : VtopMsgBuffer) (malloc : MbMalloc → Bool) (s : MbPool),
    b.exactHead b.bufLevel < sizeTBound → (mbPoolMachine b malloc).Reach s →
      ∀ size : UInt32, s.AllocMeets b size.toNat := by
  intro hall
  obtain ⟨s, hreach, hclear⟩ := oneBlock_fresh
  have hfit : oneBlock.exactHead oneBlock.bufLevel < sizeTBound := by decide
  have hmeets := hall oneBlock _ s hfit hreach 0xFFFFFFFF
  rw [(MbPool.wf_of_reach hfit hreach).allocMeets_iff (UInt32.toNat_lt _)] at hmeets
  rcases hmeets with hfits | hfull
  · revert hfits
    decide
  · have hlow : oneBlock.LowestFor 0 0 := by
      refine ⟨⟨by decide, by decide⟩, Nat.zero_le _, ?_⟩
      intro k hk
      omega
    have := hfull 0 hlow 0 (by decide)
    rw [hclear] at this
    exact absurd this (by decide)

end Msg
end AndroidLinux
