import AndroidLinux.Xmem.Integrity

/-!
# Defragmentation

`defrag_content` joins a freed node with the first neighbour it meets in the free list
and stops.  A node with a free neighbour on one side leaves no two free nodes that
touch; a node with free neighbours on both sides always does (`noAdjacent_freeContent_iff`).

Where two free nodes never touch, freeing everything gives the whole buffer back.
-/

namespace AndroidLinux
namespace Xmem

open Lib

/-- No free node ends where another one starts. -/
def NoAdjacent (o : AllocObj) : Prop :=
  ∀ a ∈ o.freeList, ∀ b ∈ o.freeList, o.areaEnd a ≠ b

/-- The node has a free neighbour on either side. -/
def BothFree (o : AllocObj) (node : Nat) : Prop :=
  (∃ list ∈ o.freeList, o.areaEnd list = node) ∧ o.areaEnd node ∈ o.freeList

/-- The free memory is not fragmented: no two free nodes touch, and with nothing in use
the whole buffer is one free node again. -/
structure Defragmented (bufLen : UInt32) (s : State) : Prop where
  noAdjacent : NoAdjacent s.obj
  single : s.live = [] → s.obj.freeList = [0] ∧ s.obj.len 0 = bufLen - contentSize
  info : s.live = [] → s.obj.xGetFreeMemInfo = (bufLen - contentSize, 1)
  allocs : s.live = [] → (s.obj.xAlloc (bufLen - contentSize)).1 ≠ none

/-- A free does not find free neighbours on both sides. -/
def OneSided (s : State) : Act → Prop
  | .alloc _ => True
  | .free addr => ¬ BothFree s.obj (addr - contentSize.toNat)

/-! ## One call -/

section Calls

variable {o : AllocObj} {used : List Nat}

theorem areaEnd_gt (o : AllocObj) (node : Nat) : node < o.areaEnd node := by
  unfold AllocObj.areaEnd
  rw [contentSize_toNat]
  omega

theorem areaEnd_joinLeft (h : o.Tiled used) (hbuf : o.bufLen.toNat < 2 ^ 31) {node list : Nat}
    (hnode : node ∈ o.freeList ++ used) (htouch : o.areaEnd list = node) (c : Nat) :
    (joinLeft o node list).areaEnd c = if c = list then o.areaEnd node else o.areaEnd c := by
  have hlen := joined_length h hbuf hnode htouch
  rw [AllocObj.areaEnd_eq] at htouch
  simp only [AllocObj.areaEnd_eq, joinLeft_nodeSize]
  split
  · omega
  · rfl

theorem areaEnd_joinRight (h : o.Tiled used) (hbuf : o.bufLen.toNat < 2 ^ 31) {node list : Nat}
    (hlist : list ∈ o.freeList ++ used) (htouch : o.areaEnd node = list) (xs ys : List Nat)
    (c : Nat) : (joinRight o node list xs ys).areaEnd c =
      if c = node then o.areaEnd list else o.areaEnd c := by
  have hlen := joined_length h hbuf hlist htouch
  rw [AllocObj.areaEnd_eq] at htouch
  simp only [AllocObj.areaEnd_eq, joinRight_nodeSize]
  split
  · omega
  · rfl

/-- Freeing a node leaves no two free nodes that touch exactly when it has no free
neighbour on one of its sides. -/
theorem noAdjacent_freeContent_iff (h : o.Tiled used) (hbuf : o.bufLen.toNat < 2 ^ 31)
    (hno : NoAdjacent o) {node : Nat} (hnode : node ∈ used) :
    NoAdjacent (o.freeContent node) ↔ ¬ BothFree o node := by
  have hin : node ∈ o.freeList ++ used := List.mem_append_right _ hnode
  have hused : node ∉ o.freeList := fun hfree =>
    List.disjoint_of_nodup_append h.nodup hfree hnode
  rcases freeContent_cases o node with ⟨heq, hall⟩ | ⟨list, hmem, htouch, heq⟩ |
      ⟨xs, list, ys, hfree, htouch, heq⟩
  · -- no neighbour is free
    rw [heq]
    constructor
    · rintro - ⟨⟨list, hlist, hend⟩, -⟩
      exact (hall list hlist).1 hend
    · intro _ a ha b hb
      rcases List.mem_cons.mp ha with rfl | hold
      · rcases List.mem_cons.mp hb with rfl | hb'
        · exact Nat.ne_of_gt (areaEnd_gt o b)
        · exact (hall b hb').2
      · rcases List.mem_cons.mp hb with rfl | hb'
        · exact (hall a hold).1
        · exact hno a hold b hb'
  · -- joined with the one on the left; the one on the right stays as it is
    have hend := areaEnd_joinLeft h hbuf hin htouch
    rw [heq]
    constructor
    · rintro hno' ⟨-, hright⟩
      apply hno' list hmem (o.areaEnd node) hright
      rw [hend, if_pos rfl]
    · intro hone a ha b hb
      rw [hend]
      split
      · rintro rfl
        exact hone ⟨⟨list, hmem, htouch⟩, hb⟩
      · exact hno a ha b hb
  · -- joined with the one on the right, as no left one was found before it
    have hlist : list ∈ o.freeList := by
      rw [hfree]
      simp
    have hend := areaEnd_joinRight h hbuf (List.mem_append_left used hlist) htouch xs ys
    have hold : ∀ c ∈ xs ++ node :: ys, c = node ∨ (c ∈ o.freeList ∧ c ≠ node) := by
      intro c hc
      by_cases hcn : c = node
      · exact Or.inl hcn
      · refine Or.inr ⟨?_, hcn⟩
        rw [hfree]
        simp only [List.mem_append, List.mem_cons, hcn, false_or] at hc ⊢
        tauto
    rw [heq]
    constructor
    · rintro hno' ⟨⟨left, hleft, hleftEnd⟩, -⟩
      have hne : left ≠ list := by
        have := areaEnd_gt o left
        have := areaEnd_gt o node
        omega
      have hmem : left ∈ xs ++ node :: ys := by
        rw [hfree] at hleft
        simp only [List.mem_append, List.mem_cons] at hleft ⊢
        tauto
      have hleftNe : left ≠ node := fun e => hused (e ▸ hleft)
      apply hno' left hmem node (by simp [joinRight])
      rw [hend, if_neg hleftNe, hleftEnd]
    · intro hone a ha b hb
      rw [hend]
      rcases hold a ha with rfl | ⟨ha', hane⟩
      · rw [if_pos rfl]
        rcases hold b hb with rfl | ⟨hb', -⟩
        · have := areaEnd_gt o list
          have := areaEnd_gt o b
          omega
        · exact hno list hlist b hb'
      · rw [if_neg hane]
        rcases hold b hb with rfl | ⟨hb', -⟩
        · intro htouch'
          exact hone ⟨⟨a, ha', htouch'⟩, by rw [htouch]; exact hlist⟩
        · exact hno a ha' b hb'

/-- Taking memory never makes two free nodes touch. -/
theorem noAdjacent_allocContent (h : o.Tiled used) (hbuf : o.bufLen.toNat < 2 ^ 31)
    (hno : NoAdjacent o) {len : UInt32} {node : Nat} {o' : AllocObj}
    (halloc : o.allocContent len = some (node, o')) : NoAdjacent o' := by
  rcases allocContent_cases o len with ⟨hnone, -⟩ | ⟨a, hmem, hlen, heq | ⟨hdiv, heq⟩⟩
  · rw [hnone] at halloc
    cases halloc
  · rw [heq, Option.some.injEq, Prod.mk.injEq] at halloc
    obtain ⟨rfl, rfl⟩ := halloc
    intro b hb c hc
    exact hno b (List.mem_of_mem_erase hb) c (List.mem_of_mem_erase hc)
  · have htiled := (tiled_divide h hbuf hmem hlen hdiv).1
    rw [heq, Option.some.injEq] at halloc
    rw [halloc] at htiled
    have hnode : node = a + (contentSize.toNat +
        (o.len a - memAlignSize (len + contentSize)).toNat) := congrArg Prod.fst halloc.symm
    have ho' := congrArg Prod.snd halloc.symm
    change o' = _ at ho'
    have hfree : o'.freeList = o.freeList := by
      rw [ho']
      rfl
    -- the new node lies behind the one it was cut from, and is not free
    have hnew : node ∉ o.freeList := by
      rw [← hfree]
      intro hin
      exact List.disjoint_of_nodup_append htiled.nodup hin List.mem_cons_self
    have hend : ∀ c ∈ o.freeList, o'.areaEnd c = if c = a then node else o.areaEnd c := by
      intro c hc
      have hcn : c ≠ node := fun e => hnew (e ▸ hc)
      unfold AllocObj.areaEnd
      rw [ho']
      simp only [AllocObj.divide, ← hnode, Function.update_of_ne hcn]
      split
      · rename_i hca
        subst hca
        rw [Function.update_self]
        exact hnode.symm
      · rename_i hca
        rw [Function.update_of_ne hca]
    intro b hb c hc
    rw [hfree] at hb hc
    rw [hend b hb]
    split
    · rintro rfl
      exact hnew hc
    · exact hno b hb c hc

end Calls

/-! ## Runs -/

section Runs

variable {bufLen : UInt32} {s : State}

theorem Inv.noAdjacent_step (hbuf : bufLen.toNat < 2 ^ 31) (hinv : Inv bufLen s)
    (hno : NoAdjacent s.obj) {a : Act} {s' : State} (hguard : OneSided s a)
    (hstep : step s a = some s') : NoAdjacent s'.obj := by
  obtain ⟨size, rfl, halloc, rfl⟩ | ⟨size, node, o', rfl, halloc, rfl⟩ | ⟨addr, rfl, hmem, rfl⟩ :=
    step_cases hstep
  · exact hno
  · have hno' : NoAdjacent o' :=
      noAdjacent_allocContent hinv.tiled (hinv.small hbuf) hno halloc
    exact hno'
  · have hnode : addr - contentSize.toNat ∈ s.used := List.mem_map_of_mem hmem
    exact (noAdjacent_freeContent_iff hinv.tiled (hinv.small hbuf) hno hnode).mpr hguard

/-- With nothing in use and no two free nodes that touch, the buffer is one node. -/
theorem Inv.single (hinv : Inv bufLen s) (hno : NoAdjacent s.obj) (hlive : s.live = []) :
    s.obj.freeList = [0] ∧ s.obj.nodeSize 0 = bufLen.toNat := by
  have htiled := hinv.tiled
  unfold AllocObj.Tiled State.used at htiled
  rw [hlive, List.map_nil, List.append_nil, hinv.bufLen_eq] at htiled
  have hpos : 0 < bufLen.toNat := by
    have := hinv.room
    rw [contentSize_toNat] at this
    omega
  obtain ⟨a, ha, hle, -⟩ := htiled.covered 0 hpos
  obtain rfl : a = 0 := by omega
  have hwhole : 0 + s.obj.nodeSize 0 = bufLen.toNat := by
    refine (htiled.next ha).resolve_right ?_
    intro hnext
    exact hno 0 ha _ hnext rfl
  rw [Nat.zero_add] at hwhole
  refine ⟨?_, hwhole⟩
  have honly : ∀ b ∈ s.obj.freeList, b = 0 := by
    intro b hb
    by_contra hne
    have hdisj := htiled.disjoint_of_mem hb ha hne
    have hin := htiled.inside b hb
    have := htiled.pos b hb
    omega
  have hnodup := htiled.nodup
  cases hlist : s.obj.freeList with
  | nil =>
      rw [hlist] at ha
      cases ha
  | cons b rest =>
      rw [hlist] at honly hnodup
      obtain rfl := honly b List.mem_cons_self
      cases rest with
      | nil => rfl
      | cons c rest =>
          have hc := honly c (by simp)
          simp [hc] at hnodup

theorem Inv.defragmented (hbuf : bufLen.toNat < 2 ^ 31) (hinv : Inv bufLen s)
    (hno : NoAdjacent s.obj) : Defragmented bufLen s := by
  have hlen : s.live = [] → s.obj.freeList = [0] ∧ s.obj.len 0 = bufLen - contentSize := by
    intro hlive
    obtain ⟨hfree, hsize⟩ := hinv.single hno hlive
    refine ⟨hfree, ?_⟩
    apply UInt32.toNat_inj.mp
    rw [UInt32.toNat_sub_of_le _ _ (UInt32.le_iff_toNat_le.mpr hinv.room)]
    unfold AllocObj.nodeSize at hsize
    omega
  refine ⟨hno, hlen, ?_, ?_⟩
  · intro hlive
    obtain ⟨hfree, hlen0⟩ := hlen hlive
    simp [AllocObj.xGetFreeMemInfo, hfree, hlen0]
  · intro hlive hnull
    obtain ⟨hfree, hlen0⟩ := hlen hlive
    have hshort := (hinv.allocSpec hbuf _).null.mp hnull 0 (by simp [hfree])
    rw [hlen0] at hshort
    exact absurd hshort (UInt32.lt_irrefl _)

end Runs

/-- Along every run in which no freed node has free neighbours on both sides, the free
memory is never fragmented. -/
theorem defragmented_of_oneSided {bufLen : UInt32} (hbuf : bufLen.toNat < 2 ^ 31) {s : State}
    (hreach : (machine bufLen).ReachWhen OneSided s) : Defragmented bufLen s := by
  have hinv : Inv bufLen s ∧ NoAdjacent s.obj := by
    induction hreach with
    | @init s hs =>
        refine ⟨inv_init hs, ?_⟩
        obtain ⟨⟨mallocObj, mallocBuf, hinit⟩, -⟩ := hs
        unfold xInitMem at hinit
        split at hinit
        · cases hinit
        split at hinit
        · cases hinit
        split at hinit
        · cases hinit
        have hobj := Option.some.inj hinit
        intro a ha b hb
        rw [← hobj, List.mem_singleton] at ha hb
        rw [ha, hb]
        exact Nat.ne_of_gt (areaEnd_gt s.obj 0)
    | step _ hguard hstep ih =>
        exact ⟨inv_step hbuf ih.1 hstep, ih.1.noAdjacent_step hbuf ih.2 hguard hstep⟩
  exact hinv.1.defragmented hbuf hinv.2

theorem xInitMem_granted : (xInitMem 256 true true).isSome = true := by
  decide

/-- A fresh allocator for 256 bytes. -/
def fresh : State :=
  ⟨(xInitMem 256 true true).get xInitMem_granted, []⟩

theorem fresh_init : (machine 256).init fresh :=
  ⟨⟨true, true, (Option.some_get xInitMem_granted).symm⟩, rfl⟩

/-- One block is taken and given back. -/
theorem defragmented_one : ∃ s, (machine 256).ReachWhen OneSided s ∧ s.obj.freeTimes = 1 ∧
    Defragmented 256 s := by
  have hreach : (machine 256).ReachWhen OneSided
      ⟨(fresh.obj.xAlloc 40).2.xFree 216, []⟩ := by
    refine .step (a := .free 216) (.step (a := .alloc 40) (.init fresh_init) trivial rfl) ?_ rfl
    rintro ⟨-, hright⟩
    revert hright
    decide +kernel
  exact ⟨_, hreach, by decide +kernel, defragmented_of_oneSided (by decide) hreach⟩

/-- Three blocks are freed, the one in the middle last: the buffer stays in two pieces
that touch. -/
theorem fragments_remain : ¬ ∀ (bufLen : UInt32) (s : State), bufLen.toNat < 2 ^ 31 →
    (machine bufLen).Reach s → Defragmented bufLen s := by
  intro hall
  have hrun : ((machine 256).run fresh [.alloc 40, .alloc 40, .alloc 40, .free 216, .free 120,
      .free 168]).map (fun s => (s.obj.freeList, s.live)) = some ([160, 0], []) := by
    decide +kernel
  obtain ⟨s, hs, hview⟩ := Option.map_eq_some_iff.mp hrun
  have hdef := hall 256 s (by decide) (Machine.reach_of_run _ fresh_init hs)
  obtain ⟨hfree, hlive⟩ := Prod.mk.inj hview
  have hone := (hdef.single hlive).1
  rw [hfree] at hone
  cases hone

end Xmem
end AndroidLinux
