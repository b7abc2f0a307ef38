import AndroidLinux.Mem.MemMng

/-!
# The accounts of the memory manager

The counters of a slot follow its list, the lists hold every block once, and the record
of a block has the size that was last requested for it.  The label `u32ModId` of a slot
is its own id, except after `HI_MemMng_ReallocD` has moved a block for a module that is
not registered: it stores the module id of its caller in the slot of `HI_MOD_ID_NULL`.
-/

namespace AndroidLinux
namespace Mem

open Lib

namespace MemmngQueue

variable {q : MemmngQueue} {info : MemmngAllocInfo} {a area size id : UInt32}

/-- The addresses recorded in a slot. -/
def addrs (q : MemmngQueue) : List UInt32 :=
  q.stListHead.map (·.pvMemAddr)

/-- The sum of the sizes of some records. -/
def totalSize (l : List MemmngAllocInfo) : Nat :=
  (l.map (fun info => info.u32MemSize.toNat)).sum

/-- The counters of a slot are those of its list, modulo `2 ^ 32`. -/
structure Counts (q : MemmngQueue) : Prop where
  num : q.u32AllocNum = UInt32.ofNat q.stListHead.length
  size : q.u32MemSize = UInt32.ofNat (totalSize q.stListHead)

/-- Where the loops find a record, and that the edits leave the rest of the list alone. -/
theorem find_split (hfind : q.find a = some info) :
    ∃ xs ys, q.stListHead = xs ++ info :: ys ∧ info.pvMemAddr = a ∧
      (q.release info).stListHead = xs ++ ys ∧
      ∀ area size id, (q.move info area size id).stListHead =
        xs ++ { info with pvMemAddr := area, u32MemSize := size } :: ys := by
  obtain ⟨hinfo, xs, ys, hlist, hxs⟩ := List.find?_eq_some_iff_append.mp hfind
  obtain rfl : info.pvMemAddr = a := by simpa using hinfo
  refine ⟨xs, ys, hlist, rfl, ?_, ?_⟩
  · rw [release, hlist, List.eraseP_append_right _ (by simpa using hxs)]
    simp
  · intro area size id
    simp only [move]
    rw [hlist]
    clear hlist hfind
    induction xs with
    | nil => simp [moveFirst]
    | cons x xs ih =>
        have hx : x.pvMemAddr ≠ info.pvMemAddr := by simpa using hxs x List.mem_cons_self
        rw [List.cons_append, moveFirst, if_neg hx,
          ih (fun y hy => hxs y (List.mem_cons_of_mem x hy)), List.cons_append]

theorem find_isSome_iff : (q.find a).isSome ↔ a ∈ q.addrs := by
  simp [find, addrs, List.find?_isSome]

theorem mem_addrs_of_find (hfind : q.find a = some info) : a ∈ q.addrs :=
  find_isSome_iff.mp (by rw [hfind]; rfl)

theorem totalSize_append (xs ys : List MemmngAllocInfo) :
    totalSize (xs ++ ys) = totalSize xs + totalSize ys := by
  simp [totalSize]

theorem totalSize_cons (info : MemmngAllocInfo) (l : List MemmngAllocInfo) :
    totalSize (info :: l) = info.u32MemSize.toNat + totalSize l := by
  simp [totalSize]

theorem Counts.record (h : q.Counts) : (q.record info id).Counts where
  num := by
    simp only [MemmngQueue.record, h.num, List.length_cons, UInt32.ofNat_add]
    rfl
  size := by
    simp only [MemmngQueue.record, h.size, totalSize_cons, UInt32.ofNat_add,
      UInt32.ofNat_toNat, UInt32.add_comm]

theorem Counts.move (h : q.Counts) (hfind : q.find a = some info) :
    (q.move info area size id).Counts := by
  obtain ⟨xs, ys, hlist, -, -, hmove⟩ := find_split hfind
  constructor
  · rw [hmove, MemmngQueue.move, h.num, hlist]
    simp
  · rw [hmove, MemmngQueue.move, h.size, hlist]
    simp only [totalSize_append, totalSize_cons, UInt32.ofNat_add, UInt32.ofNat_toNat]
    grind

theorem Counts.release (h : q.Counts) (hfind : q.find a = some info) :
    (q.release info).Counts := by
  obtain ⟨xs, ys, hlist, -, hrelease, -⟩ := find_split hfind
  constructor
  · rw [hrelease, MemmngQueue.release, h.num, hlist]
    simp only [List.length_append, List.length_cons, UInt32.ofNat_add]
    have hone : UInt32.ofNat 1 = 1 := rfl
    rw [hone]
    grind
  · rw [hrelease, MemmngQueue.release, h.size, hlist]
    simp only [totalSize_append, totalSize_cons, UInt32.ofNat_add, UInt32.ofNat_toNat]
    grind

/-! ### What the edits do to the records -/

@[simp] theorem addrs_record (info : MemmngAllocInfo) :
    (q.record info id).addrs = info.pvMemAddr :: q.addrs :=
  rfl

theorem addrs_of_split {xs ys : List MemmngAllocInfo}
    (hlist : q.stListHead = xs ++ info :: ys) :
    q.addrs = xs.map (·.pvMemAddr) ++ info.pvMemAddr :: ys.map (·.pvMemAddr) := by
  simp [addrs, hlist]

/-- A slot that holds every block once, after one of them has been moved. -/
theorem addrs_move (hnodup : q.addrs.Nodup) (hfind : q.find a = some info)
    (size id : UInt32) (harea : area ∈ q.addrs → area = a) :
    (q.move info area size id).addrs.Nodup ∧
      ∀ b, b ∈ (q.move info area size id).addrs ↔ b = area ∨ b ∈ q.addrs ∧ b ≠ a := by
  obtain ⟨xs, ys, hlist, rfl, -, hmove⟩ := find_split hfind
  have hmoved : (q.move info area size id).addrs =
      xs.map (·.pvMemAddr) ++ area :: ys.map (·.pvMemAddr) := by
    simp [addrs, hmove]
  rw [addrs_of_split hlist] at hnodup harea
  rw [hmoved, addrs_of_split hlist]
  obtain ⟨hnotin, hrest⟩ := List.nodup_cons.mp (List.perm_middle.nodup_iff.mp hnodup)
  constructor
  · refine List.perm_middle.nodup_iff.mpr (List.nodup_cons.mpr ⟨fun hmem => hnotin ?_, hrest⟩)
    have heq : area = info.pvMemAddr := by
      apply harea
      rw [List.perm_middle.mem_iff]
      exact List.mem_cons_of_mem _ hmem
    exact heq ▸ hmem
  · intro b
    rw [List.perm_middle.mem_iff, List.perm_middle.mem_iff, List.mem_cons, List.mem_cons]
    constructor
    · rintro (rfl | hmem)
      · exact .inl rfl
      · exact .inr ⟨.inr hmem, fun heq => hnotin (heq ▸ hmem)⟩
    · rintro (rfl | ⟨rfl | hmem, hne⟩)
      · exact .inl rfl
      · exact absurd rfl hne
      · exact .inr hmem

/-- A slot that holds every block once, after one of them has been freed. -/
theorem addrs_release (hnodup : q.addrs.Nodup) (hfind : q.find a = some info) :
    (q.release info).addrs.Nodup ∧
      ∀ b, b ∈ (q.release info).addrs ↔ b ∈ q.addrs ∧ b ≠ a := by
  obtain ⟨xs, ys, hlist, rfl, hrelease, -⟩ := find_split hfind
  have hfreed : (q.release info).addrs = xs.map (·.pvMemAddr) ++ ys.map (·.pvMemAddr) := by
    simp [addrs, hrelease]
  rw [addrs_of_split hlist] at hnodup
  rw [hfreed, addrs_of_split hlist]
  obtain ⟨hnotin, hrest⟩ := List.nodup_cons.mp (List.perm_middle.nodup_iff.mp hnodup)
  refine ⟨hrest, fun b => ?_⟩
  rw [List.perm_middle.mem_iff, List.mem_cons]
  constructor
  · intro hmem
    exact ⟨.inr hmem, fun heq => hnotin (heq ▸ hmem)⟩
  · rintro ⟨rfl | hmem, hne⟩
    · exact absurd rfl hne
    · exact hmem

/-- The records of the other blocks stay when one is moved. -/
theorem mem_move_of_ne {other : MemmngAllocInfo} (hfind : q.find a = some info)
    (hother : other ∈ q.stListHead) (hne : other.pvMemAddr ≠ a) :
    other ∈ (q.move info area size id).stListHead := by
  obtain ⟨xs, ys, hlist, rfl, -, hmove⟩ := find_split hfind
  rw [hmove]
  rw [hlist] at hother
  rcases List.mem_append.mp hother with hmem | hmem
  · exact List.mem_append_left _ hmem
  · rcases List.mem_cons.mp hmem with rfl | hmem
    · exact absurd rfl hne
    · exact List.mem_append_right _ (List.mem_cons_of_mem _ hmem)

theorem mem_move_self (hfind : q.find a = some info) :
    { info with pvMemAddr := area, u32MemSize := size } ∈
      (q.move info area size id).stListHead := by
  obtain ⟨xs, ys, -, -, -, hmove⟩ := find_split hfind
  rw [hmove]
  exact List.mem_append_right _ List.mem_cons_self

theorem mem_release_of_ne {other : MemmngAllocInfo} (hfind : q.find a = some info)
    (hother : other ∈ q.stListHead) (hne : other.pvMemAddr ≠ a) :
    other ∈ (q.release info).stListHead := by
  obtain ⟨xs, ys, hlist, rfl, hrelease, -⟩ := find_split hfind
  rw [hrelease]
  rw [hlist] at hother
  rcases List.mem_append.mp hother with hmem | hmem
  · exact List.mem_append_left _ hmem
  · rcases List.mem_cons.mp hmem with rfl | hmem
    · exact absurd rfl hne
    · exact List.mem_append_right _ hmem

end MemmngQueue

/-! ## The invariant of the manager -/

namespace MemMng

variable {ids : ModIds} {s : MemMng} {t a area size id : UInt32} {info : MemmngAllocInfo}

/-- The slots of the manager and the areas of the C library. -/
structure Inv (ids : ModIds) (s : MemMng) : Prop where
  named : s.mods.NullNamed ids
  fresh : s.bMemMngInit = false → ∀ i, s.memInfo i = MemmngQueue.zeroed
  counts : ∀ i, (s.memInfo i).Counts
  nodup : ∀ i, (s.memInfo i).addrs.Nodup
  apart : ∀ i j a, a ∈ (s.memInfo i).addrs → a ∈ (s.memInfo j).addrs → i = j
  heap : ∀ i a, a ∈ (s.memInfo i).addrs → a ∈ s.heap
  heapNodup : s.heap.Nodup
  nonzero : 0 ∉ s.heap

theorem inv_zeroed : Inv ids zeroed where
  named h := by cases h
  fresh _ _ := rfl
  counts _ := ⟨rfl, rfl⟩
  nodup _ := List.nodup_nil
  apart i j a h := by cases h
  heap i a h := by cases h
  heapNodup := List.nodup_nil
  nonzero := List.not_mem_nil

/-- The invariant does not depend on the rest of the registry. -/
theorem Inv.setMods (h : s.Inv ids) {mods : ModReg} (hnamed : mods.NullNamed ids) :
    Inv ids { s with mods := mods } :=
  ⟨hnamed, h.fresh, h.counts, h.nodup, h.apart, h.heap, h.heapNodup, h.nonzero⟩

theorem Inv.askName (h : s.Inv ids) : (s.askName ids).Inv ids :=
  h.setMods h.named.modInit

@[simp] theorem memmngInitStruct_bMemMngInit : (s.memmngInitStruct ids).bMemMngInit = true := by
  unfold memmngInitStruct
  split
  · assumption
  · rfl

/-- The lists of all slots are empty before `MEMMNG_InitStruct`. -/
theorem Inv.stListHead_initStruct (h : s.Inv ids) (i : UInt32) :
    ((s.memmngInitStruct ids).memInfo i).stListHead = (s.memInfo i).stListHead := by
  unfold memmngInitStruct
  split
  · rfl
  · rename_i hinit
    have hzero := h.fresh (by simpa using hinit) i
    simp only
    split
    · rw [hzero]
      rfl
    · rfl

theorem Inv.initStruct (h : s.Inv ids) : (s.memmngInitStruct ids).Inv ids := by
  by_cases hinit : s.bMemMngInit = true
  · simpa [memmngInitStruct, hinit] using h
  · have haddrs : ∀ i, ((s.memmngInitStruct ids).memInfo i).addrs = (s.memInfo i).addrs :=
      fun i => congrArg (List.map MemmngAllocInfo.pvMemAddr) (h.stListHead_initStruct i)
    have hrest : (s.memmngInitStruct ids).mods = s.mods ∧
        (s.memmngInitStruct ids).heap = s.heap := by
      simp [memmngInitStruct, hinit]
    constructor
    · rw [hrest.1]
      exact h.named
    · intro hfresh
      simp at hfresh
    · intro i
      have hslot : (s.memmngInitStruct ids).memInfo i = MemmngQueue.inited ∨
          (s.memmngInitStruct ids).memInfo i = s.memInfo i := by
        by_cases hi : i < ids.modMaxNum <;> simp [memmngInitStruct, hinit, hi]
      rcases hslot with heq | heq <;> rw [heq]
      · exact ⟨rfl, rfl⟩
      · exact h.counts i
    · intro i
      rw [haddrs]
      exact h.nodup i
    · intro i j a
      rw [haddrs, haddrs]
      exact h.apart i j a
    · intro i a
      rw [haddrs, hrest.2]
      exact h.heap i a
    · rw [hrest.2]
      exact h.heapNodup
    · rw [hrest.2]
      exact h.nonzero

/-- An edit of one slot keeps the invariant if the new blocks of the slot are new in the
heap, and the heap keeps the blocks of the other slots. -/
theorem Inv.setSlot (h : s.Inv ids) (hinit : s.bMemMngInit = true) {q : MemmngQueue}
    {heap : List UInt32} (hcounts : q.Counts) (hnodup : q.addrs.Nodup)
    (hnew : ∀ a ∈ q.addrs, a ∈ heap ∧ (a ∈ (s.memInfo t).addrs ∨ a ∉ s.heap))
    (hold : ∀ i a, i ≠ t → a ∈ (s.memInfo i).addrs → a ∈ heap)
    (hheap : heap.Nodup) (hzero : 0 ∉ heap) :
    Inv ids { s with memInfo := Function.update s.memInfo t q, heap := heap } := by
  constructor
  · exact h.named
  · intro hfresh
    change s.bMemMngInit = false at hfresh
    rw [hinit] at hfresh
    cases hfresh
  · intro i
    by_cases hi : i = t
    · simpa [hi] using hcounts
    · simpa [hi] using h.counts i
  · intro i
    by_cases hi : i = t
    · simpa [hi] using hnodup
    · simpa [hi] using h.nodup i
  · intro i j a hai haj
    by_cases hi : i = t <;> by_cases hj : j = t
    · rw [hi, hj]
    · simp only [hi, Function.update_self, ne_eq, hj, not_false_eq_true,
        Function.update_of_ne] at hai haj
      rcases (hnew a hai).2 with hat | hnot
      · exact absurd (h.apart j t a haj hat) hj
      · exact absurd (h.heap j a haj) hnot
    · simp only [hj, Function.update_self, ne_eq, hi, not_false_eq_true,
        Function.update_of_ne] at hai haj
      rcases (hnew a haj).2 with hat | hnot
      · exact absurd (h.apart i t a hai hat) hi
      · exact absurd (h.heap i a hai) hnot
    · simp only [ne_eq, hi, hj, not_false_eq_true, Function.update_of_ne] at hai haj
      exact h.apart i j a hai haj
  · intro i a ha
    by_cases hi : i = t
    · simp only [hi, Function.update_self] at ha
      exact (hnew a ha).1
    · simp only [ne_eq, hi, not_false_eq_true, Function.update_of_ne] at ha
      exact hold i a hi ha
  · exact hheap
  · exact hzero

theorem Inv.adopt (h : s.Inv ids) (hinit : s.bMemMngInit = true)
    (hnew : info.pvMemAddr ∉ s.heap) (hzero : info.pvMemAddr ≠ 0) :
    (s.adopt t info).Inv ids := by
  apply h.setSlot hinit (h.counts t).record
  · rw [MemmngQueue.addrs_record]
    exact List.nodup_cons.mpr ⟨fun hmem => hnew (h.heap t _ hmem), h.nodup t⟩
  · intro a ha
    rw [MemmngQueue.addrs_record, List.mem_cons] at ha
    rcases ha with rfl | ha
    · exact ⟨List.mem_cons_self, .inr hnew⟩
    · exact ⟨List.mem_cons_of_mem _ (h.heap t a ha), .inl ha⟩
  · exact fun i a _ ha => List.mem_cons_of_mem _ (h.heap i a ha)
  · exact List.nodup_cons.mpr ⟨hnew, h.heapNodup⟩
  · simp [h.nonzero, hzero.symm]

theorem Inv.relocate (h : s.Inv ids) (hinit : s.bMemMngInit = true)
    (hfind : (s.memInfo t).find a = some info) (hnew : area ∉ s.heap ∨ area = a)
    (hzero : area ≠ 0) : (s.relocate t info area size id).Inv ids := by
  obtain ⟨-, -, -, hinfo, -, -⟩ := MemmngQueue.find_split hfind
  have ha := MemmngQueue.mem_addrs_of_find hfind
  have harea : area ∈ (s.memInfo t).addrs → area = a := by
    intro hmem
    rcases hnew with hnot | heq
    · exact absurd (h.heap t area hmem) hnot
    · exact heq
  obtain ⟨hnodup, hmem⟩ := MemmngQueue.addrs_move (h.nodup t) hfind size id harea
  have hheap : area ∉ s.heap.erase a := by
    rcases hnew with hnot | rfl
    · exact fun hin => hnot (List.mem_of_mem_erase hin)
    · exact h.heapNodup.not_mem_erase
  unfold MemMng.relocate
  rw [hinfo]
  apply h.setSlot hinit ((h.counts t).move hfind) hnodup
  · intro b hb
    rcases (hmem b).mp hb with rfl | ⟨hb, hne⟩
    · refine ⟨List.mem_cons_self, ?_⟩
      rcases hnew with hnot | rfl
      · exact .inr hnot
      · exact .inl ha
    · exact ⟨List.mem_cons_of_mem _ ((List.mem_erase_of_ne hne).mpr (h.heap t b hb)), .inl hb⟩
  · intro i b hi hb
    have hne : b ≠ a := by
      rintro rfl
      exact hi (h.apart i t b hb ha)
    exact List.mem_cons_of_mem _ ((List.mem_erase_of_ne hne).mpr (h.heap i b hb))
  · exact List.nodup_cons.mpr ⟨hheap, h.heapNodup.erase a⟩
  · simp only [List.mem_cons, not_or]
    exact ⟨hzero.symm, fun hin => h.nonzero (List.mem_of_mem_erase hin)⟩

theorem Inv.drop (h : s.Inv ids) (hinit : s.bMemMngInit = true)
    (hfind : (s.memInfo t).find a = some info) : (s.drop t info).Inv ids := by
  obtain ⟨-, -, -, hinfo, -, -⟩ := MemmngQueue.find_split hfind
  have ha := MemmngQueue.mem_addrs_of_find hfind
  obtain ⟨hnodup, hmem⟩ := MemmngQueue.addrs_release (h.nodup t) hfind
  unfold MemMng.drop
  rw [hinfo]
  apply h.setSlot hinit ((h.counts t).release hfind) hnodup
  · intro b hb
    obtain ⟨hb, hne⟩ := (hmem b).mp hb
    exact ⟨(List.mem_erase_of_ne hne).mpr (h.heap t b hb), .inl hb⟩
  · intro i b hi hb
    have hne : b ≠ a := by
      rintro rfl
      exact hi (h.apart i t b hb ha)
    exact (List.mem_erase_of_ne hne).mpr (h.heap i b hb)
  · exact h.heapNodup.erase a
  · exact fun hin => h.nonzero (List.mem_of_mem_erase hin)

/-- A slot has fewer records than there are addresses. -/
theorem Inv.length_lt (h : s.Inv ids) (i : UInt32) :
    (s.memInfo i).stListHead.length < 2 ^ 32 := by
  have hzero : 0 ∉ (s.memInfo i).addrs := fun hmem => h.nonzero (h.heap i 0 hmem)
  have hnodup : (((0 : UInt32) :: (s.memInfo i).addrs).map UInt32.toFin).Nodup :=
    (List.nodup_cons.mpr ⟨hzero, h.nodup i⟩).map fun _ _ heq => UInt32.toFin_inj.mp heq
  have hcard := hnodup.length_le_card
  simp only [List.map_cons, List.length_cons, List.length_map, MemmngQueue.addrs,
    Fintype.card_fin] at hcard
  exact hcard

/-! ### What the calls do -/

/-- The manager as the calls find it once they look at their slot. -/
def ready (ids : ModIds) (s : MemMng) : MemMng :=
  (s.askName ids).memmngInitStruct ids

@[simp] theorem ready_bMemMngInit : (s.ready ids).bMemMngInit = true :=
  memmngInitStruct_bMemMngInit

theorem ready_heap : (s.ready ids).heap = s.heap := by
  unfold ready memmngInitStruct
  split <;> rfl

theorem Inv.ready (h : s.Inv ids) : (s.ready ids).Inv ids :=
  h.askName.initStruct

theorem Inv.stListHead_ready (h : s.Inv ids) (i : UInt32) :
    ((s.ready ids).memInfo i).stListHead = (s.memInfo i).stListHead :=
  h.askName.stListHead_initStruct i

theorem Inv.find_ready (h : s.Inv ids) (i a : UInt32) :
    ((s.ready ids).memInfo i).find a = (s.memInfo i).find a := by
  simp only [MemmngQueue.find, h.stListHead_ready]

@[simp] theorem askName_askName : (s.askName ids).askName ids = s.askName ids := by
  simp [askName]

/-- The slot of a module is its own or that of `HI_MOD_ID_NULL`, whose slot is its own. -/
theorem tempModId_tempModId (h : s.Inv ids) :
    (s.askName ids).tempModId ids (s.tempModId ids id) = s.tempModId ids id := by
  simp only [tempModId, askName, ModReg.unregistered_modInit]
  split
  · rw [if_neg (by simp [ModReg.registered_null h.named])]
  · rfl

theorem tempModId_lt (hid : id < ids.modMaxNum) : s.tempModId ids id < ids.modMaxNum := by
  unfold tempModId
  split
  · exact ModReg.modIdNull_lt ids
  · exact hid

/-- The outcomes of `HI_MemMng_MallocD`. -/
theorem hiMemMngMallocD_cases (ids : ModIds) (s : MemMng) (id size : UInt32) (file : Option CString)
    (line : UInt32) (rec : Bool) (area : UInt32) :
    ((s.hiMemMngMallocD ids id size file line rec area).1 = 0 ∧
      ((s.hiMemMngMallocD ids id size file line rec area).2 = s ∨
        (s.hiMemMngMallocD ids id size file line rec area).2 = s.askName ids)) ∨
    (area ≠ 0 ∧ id < ids.modMaxNum ∧
      s.hiMemMngMallocD ids id size file line rec area =
        (area, (s.ready ids).adopt (s.tempModId ids id)
          ⟨area, memmngGetActualAllocSize size, file, line⟩)) := by
  unfold hiMemMngMallocD
  by_cases hargs : ids.modMaxNum ≤ id ∨ size = 0
  · rw [if_pos hargs]
    exact .inl ⟨rfl, .inl rfl⟩
  · rw [if_neg hargs]
    cases rec with
    | false => exact .inl ⟨rfl, .inr rfl⟩
    | true =>
        by_cases harea : area = 0
        · subst harea
          exact .inl ⟨rfl, .inr rfl⟩
        · simp only [Bool.true_eq_false, if_false, if_neg harea]
          rw [not_or] at hargs
          exact .inr ⟨harea, UInt32.not_le.mp hargs.1, rfl⟩

/-- `HI_MemMng_ReallocD` of an address looks in the slot of the module. -/
theorem hiMemMngReallocD_eq (h : s.Inv ids) {src : UInt32} (hid : id < ids.modMaxNum)
    (hsize : size ≠ 0) (hsrc : src ≠ 0) (file : Option CString) (line : UInt32) (rec : Bool)
    (area : UInt32) :
    s.hiMemMngReallocD ids id src size file line rec area =
      ((s.memInfo (s.tempModId ids id)).find src).elim (0, s.ready ids) fun info =>
        if area = 0 then (0, s.ready ids)
        else (area, (s.ready ids).relocate (s.tempModId ids id) info area
          (memmngGetActualAllocSize size) id) := by
  have hargs : ¬ (ids.modMaxNum ≤ id ∨ size = 0) :=
    not_or.mpr ⟨UInt32.not_le.mpr hid, hsize⟩
  have hfind := h.find_ready (s.tempModId ids id) src
  unfold hiMemMngReallocD
  rw [if_neg hargs]
  simp only [if_neg hsrc]
  have hready : (s.askName ids).memmngInitStruct ids = s.ready ids := rfl
  rw [hready, hfind]
  cases (s.memInfo (s.tempModId ids id)).find src <;> rfl

/-- The outcomes of `HI_MemMng_ReallocD`. -/
theorem hiMemMngReallocD_cases (h : s.Inv ids) (id src size : UInt32)
    (file : Option CString) (line : UInt32) (rec : Bool) (area : UInt32) :
    ((s.hiMemMngReallocD ids id src size file line rec area).1 = 0 ∧
      ((s.hiMemMngReallocD ids id src size file line rec area).2 = s ∨
        (s.hiMemMngReallocD ids id src size file line rec area).2 = s.askName ids ∨
        (s.hiMemMngReallocD ids id src size file line rec area).2 = s.ready ids)) ∨
    (src = 0 ∧ area ≠ 0 ∧ id < ids.modMaxNum ∧
      s.hiMemMngReallocD ids id src size file line rec area =
        (area, (s.ready ids).adopt (s.tempModId ids id)
          ⟨area, memmngGetActualAllocSize size, file, line⟩)) ∨
    (src ≠ 0 ∧ area ≠ 0 ∧ id < ids.modMaxNum ∧ size ≠ 0 ∧
      ∃ info, (s.memInfo (s.tempModId ids id)).find src = some info ∧
        s.hiMemMngReallocD ids id src size file line rec area =
          (area, (s.ready ids).relocate (s.tempModId ids id) info area
            (memmngGetActualAllocSize size) id)) := by
  by_cases hargs : ids.modMaxNum ≤ id ∨ size = 0
  · unfold hiMemMngReallocD
    rw [if_pos hargs]
    exact .inl ⟨rfl, .inl rfl⟩
  · obtain ⟨hid, hsize⟩ := not_or.mp hargs
    rw [UInt32.not_le] at hid
    by_cases hsrc : src = 0
    · unfold hiMemMngReallocD
      rw [if_neg hargs]
      simp only [if_pos hsrc]
      rcases hiMemMngMallocD_cases ids (s.askName ids) (s.tempModId ids id) size file
        line rec area with ⟨hres, hmng⟩ | ⟨harea, -, heq⟩
      · rw [askName_askName, or_self] at hmng
        exact .inl ⟨hres, .inr (.inl hmng)⟩
      · refine .inr (.inl ⟨hsrc, harea, hid, ?_⟩)
        rw [heq, tempModId_tempModId h, ready, askName_askName]
        rfl
    · rw [hiMemMngReallocD_eq h hid hsize hsrc]
      cases hinfo : (s.memInfo (s.tempModId ids id)).find src with
      | none => exact .inl ⟨rfl, .inr (.inr rfl)⟩
      | some info =>
          by_cases harea : area = 0
          · subst harea
            exact .inl ⟨rfl, .inr (.inr rfl)⟩
          · simp only [if_neg harea]
            exact .inr (.inr ⟨hsrc, harea, hid, hsize, info, rfl, rfl⟩)

/-- `HI_MemMng_Free` of an address looks in the slot of the module. -/
theorem hiMemMngFree_eq (hinit : s.bMemMngInit = true) {addr : UInt32}
    (hid : id < ids.modMaxNum) (haddr : addr ≠ 0) :
    s.hiMemMngFree ids id addr =
      ((s.memInfo (s.tempModId ids id)).find addr).elim (.failure, s.askName ids) fun info =>
        (.success, (s.askName ids).drop (s.tempModId ids id) info) := by
  have hfind : ((s.askName ids).memInfo (s.tempModId ids id)).find addr =
      (s.memInfo (s.tempModId ids id)).find addr := rfl
  unfold hiMemMngFree
  rw [if_neg (by simp [hinit]), if_neg (UInt32.not_le.mpr hid)]
  simp only [if_neg haddr]
  rw [hfind]
  cases (s.memInfo (s.tempModId ids id)).find addr <;> rfl

/-- The outcomes of `HI_MemMng_Free`. -/
theorem hiMemMngFree_cases (ids : ModIds) (s : MemMng) (id addr : UInt32) :
    ((s.hiMemMngFree ids id addr).1 ≠ .success ∧
      ((s.hiMemMngFree ids id addr).2 = s ∨ (s.hiMemMngFree ids id addr).2 = s.askName ids)) ∨
    (addr = 0 ∧ s.hiMemMngFree ids id addr = (.success, s.askName ids)) ∨
    (s.bMemMngInit = true ∧ addr ≠ 0 ∧ id < ids.modMaxNum ∧
      ∃ info, (s.memInfo (s.tempModId ids id)).find addr = some info ∧
        s.hiMemMngFree ids id addr =
          (.success, (s.askName ids).drop (s.tempModId ids id) info)) := by
  by_cases hinit : s.bMemMngInit = true
  · by_cases hid : id < ids.modMaxNum
    · by_cases haddr : addr = 0
      · have hres : s.hiMemMngFree ids id addr = (.success, s.askName ids) := by
          simp [hiMemMngFree, hinit, haddr, UInt32.not_le.mpr hid]
        exact .inr (.inl ⟨haddr, hres⟩)
      · rw [hiMemMngFree_eq hinit hid haddr]
        cases hinfo : (s.memInfo (s.tempModId ids id)).find addr with
        | none => exact .inl ⟨by simp, .inr rfl⟩
        | some info => exact .inr (.inr ⟨hinit, haddr, hid, info, rfl, rfl⟩)
    · have hres : s.hiMemMngFree ids id addr = (.epaerm, s) := by
        simp [hiMemMngFree, hinit, UInt32.not_lt.mp hid]
      rw [hres]
      exact .inl ⟨by simp, .inl rfl⟩
  · have hres : s.hiMemMngFree ids id addr = (.failure, s) := by
      simp [hiMemMngFree, hinit]
    rw [hres]
    exact .inl ⟨by simp, .inl rfl⟩

end MemMng

/-! ## Runs -/

namespace MemRun

variable {ids : ModIds} {s s' : MemRun} {a : Act}

/-- The slot that holds the record of a block. -/
def slot (ids : ModIds) (b : Block) : UInt32 :=
  if b.registered then b.modId else ids.modIdNull

/-- The manager and the blocks in the hands of the callers. -/
structure Inv (ids : ModIds) (s : MemRun) : Prop where
  mng : s.mng.Inv ids
  blocksNodup : (s.blocks.map Block.addr).Nodup
  recorded : ∀ b ∈ s.blocks, ∃ info ∈ (s.mng.memInfo (slot ids b)).stListHead,
    info.pvMemAddr = b.addr ∧ info.u32MemSize = memmngGetActualAllocSize b.size
  known : ∀ i a, a ∈ (s.mng.memInfo i).addrs → ∃ b ∈ s.blocks, b.addr = a

theorem slot_block (addr size id : UInt32) :
    slot ids (s.block ids addr size id) = s.mng.tempModId ids id := by
  cases hreg : s.mng.mods.unregistered ids id <;> simp [slot, block, MemMng.tempModId, hreg]

theorem Inv.addr_mem (h : s.Inv ids) {b : Block} (hb : b ∈ s.blocks) :
    b.addr ∈ (s.mng.memInfo (slot ids b)).addrs := by
  obtain ⟨info, hinfo, haddr, -⟩ := h.recorded b hb
  exact List.mem_map.mpr ⟨info, hinfo, haddr⟩

theorem Inv.addr_mem_heap (h : s.Inv ids) {b : Block} (hb : b ∈ s.blocks) :
    b.addr ∈ s.mng.heap :=
  h.mng.heap _ _ (h.addr_mem hb)

theorem mem_others {addr : UInt32} {b : Block} :
    b ∈ s.others addr ↔ b ∈ s.blocks ∧ b.addr ≠ addr := by
  simp [others]

/-- No block is at an address that is not in the heap. -/
theorem Inv.others_eq (h : s.Inv ids) {addr : UInt32} (haddr : addr ∉ s.mng.heap) :
    s.others addr = s.blocks := by
  rw [others, List.filter_eq_self]
  intro b hb
  have hne : b.addr ≠ addr := by
    rintro rfl
    exact haddr (h.addr_mem_heap hb)
  simpa using hne

/-- The same lists, for the same blocks. -/
theorem Inv.of_lists (h : s.Inv ids) {mng : MemMng} (hmng : mng.Inv ids)
    (hlists : ∀ i, (mng.memInfo i).stListHead = (s.mng.memInfo i).stListHead) :
    Inv ids ⟨mng, s.blocks⟩ := by
  refine ⟨hmng, h.blocksNodup, fun b hb => ?_, fun i a ha => ?_⟩
  · rw [hlists]
    exact h.recorded b hb
  · apply h.known i a
    simpa only [MemmngQueue.addrs, hlists] using ha

theorem Inv.askName (h : s.Inv ids) : Inv ids ⟨s.mng.askName ids, s.blocks⟩ :=
  h.of_lists h.mng.askName fun _ => rfl

theorem Inv.ready (h : s.Inv ids) : Inv ids ⟨s.mng.ready ids, s.blocks⟩ :=
  h.of_lists h.mng.ready h.mng.stListHead_ready

/-- Any manager that a call leaves with the lists it found. -/
theorem Inv.unchanged (h : s.Inv ids) {mng : MemMng}
    (hmng : mng = s.mng ∨ mng = s.mng.askName ids ∨ mng = s.mng.ready ids) :
    Inv ids ⟨mng, s.blocks⟩ := by
  rcases hmng with rfl | rfl | rfl
  · exact h
  · exact h.askName
  · exact h.ready

theorem Inv.adopt (h : s.Inv ids) (hinit : s.mng.bMemMngInit = true) {addr size id : UInt32}
    {file : Option CString} {line : UInt32} {b : Block} (haddr : b.addr = addr)
    (hsize : b.size = size) (hslot : slot ids b = id) (hnew : addr ∉ s.mng.heap)
    (hzero : addr ≠ 0) :
    Inv ids ⟨s.mng.adopt id ⟨addr, memmngGetActualAllocSize size, file, line⟩,
      b :: s.blocks⟩ := by
  subst haddr hsize hslot
  refine ⟨h.mng.adopt hinit hnew hzero, ?_, ?_, ?_⟩
  · refine List.nodup_cons.mpr ⟨fun hmem => ?_, h.blocksNodup⟩
    obtain ⟨other, hother, heq⟩ := List.mem_map.mp hmem
    exact hnew (heq ▸ h.addr_mem_heap hother)
  · intro other hother
    rcases List.mem_cons.mp hother with rfl | hother
    · exact ⟨⟨other.addr, memmngGetActualAllocSize other.size, file, line⟩,
        by simp [MemMng.adopt, MemmngQueue.record], rfl, rfl⟩
    · obtain ⟨info, hinfo, hfacts⟩ := h.recorded other hother
      refine ⟨info, ?_, hfacts⟩
      by_cases hs : slot ids other = slot ids b
      · rw [hs] at hinfo ⊢
        simp [MemMng.adopt, MemmngQueue.record, hinfo]
      · simpa [MemMng.adopt, hs] using hinfo
  · intro i a ha
    by_cases hi : i = slot ids b
    · subst hi
      simp only [MemMng.adopt, Function.update_self, MemmngQueue.addrs_record,
        List.mem_cons] at ha
      rcases ha with rfl | ha
      · exact ⟨b, List.mem_cons_self, rfl⟩
      · obtain ⟨other, hother, heq⟩ := h.known _ a ha
        exact ⟨other, List.mem_cons_of_mem _ hother, heq⟩
    · simp only [MemMng.adopt, ne_eq, hi, not_false_eq_true, Function.update_of_ne] at ha
      obtain ⟨other, hother, heq⟩ := h.known i a ha
      exact ⟨other, List.mem_cons_of_mem _ hother, heq⟩

theorem Inv.nodup_others (h : s.Inv ids) (addr : UInt32) :
    ((s.others addr).map Block.addr).Nodup :=
  h.blocksNodup.sublist (List.filter_sublist.map _)

theorem Inv.relocate (h : s.Inv ids) (hinit : s.mng.bMemMngInit = true)
    {src area size t id : UInt32} {info : MemmngAllocInfo} {b : Block}
    (hfind : (s.mng.memInfo t).find src = some info) (haddr : b.addr = area)
    (hsize : b.size = size) (hslot : slot ids b = t)
    (hnew : area ∉ s.mng.heap ∨ area = src) (hzero : area ≠ 0) :
    Inv ids ⟨s.mng.relocate t info area (memmngGetActualAllocSize size) id,
      b :: s.others src⟩ := by
  subst haddr hsize hslot
  have hsrc := MemmngQueue.mem_addrs_of_find hfind
  refine ⟨h.mng.relocate hinit hfind hnew hzero, ?_, ?_, ?_⟩
  · refine List.nodup_cons.mpr ⟨fun hmem => ?_, h.nodup_others src⟩
    obtain ⟨other, hother, heq⟩ := List.mem_map.mp hmem
    obtain ⟨hother, hne⟩ := mem_others.mp hother
    rcases hnew with hnot | hsame
    · exact hnot (heq ▸ h.addr_mem_heap hother)
    · exact hne (heq.trans hsame)
  · intro other hother
    rcases List.mem_cons.mp hother with rfl | hother
    · refine ⟨{ info with
        pvMemAddr := other.addr, u32MemSize := memmngGetActualAllocSize other.size }, ?_, rfl, rfl⟩
      simp only [MemMng.relocate, Function.update_self]
      exact MemmngQueue.mem_move_self hfind
    · obtain ⟨hother, hne⟩ := mem_others.mp hother
      obtain ⟨rec, hrec, hfacts⟩ := h.recorded other hother
      refine ⟨rec, ?_, hfacts⟩
      by_cases hs : slot ids other = slot ids b
      · rw [hs] at hrec ⊢
        simp only [MemMng.relocate, Function.update_self]
        exact MemmngQueue.mem_move_of_ne hfind hrec (hfacts.1 ▸ hne)
      · simpa [MemMng.relocate, hs] using hrec
  · intro i a ha
    have hold : ∀ c, c ∈ (s.mng.memInfo i).addrs → c ≠ src →
        ∃ other ∈ b :: s.others src, other.addr = c := by
      intro c hc hne
      obtain ⟨other, hother, rfl⟩ := h.known i c hc
      exact ⟨other, List.mem_cons_of_mem _ (mem_others.mpr ⟨hother, hne⟩), rfl⟩
    by_cases hi : i = slot ids b
    · subst hi
      have harea : b.addr ∈ (s.mng.memInfo (slot ids b)).addrs → b.addr = src := by
        intro hmem
        rcases hnew with hnot | hsame
        · exact absurd (h.mng.heap _ _ hmem) hnot
        · exact hsame
      simp only [MemMng.relocate, Function.update_self] at ha
      rcases ((MemmngQueue.addrs_move (h.mng.nodup _) hfind _ _ harea).2 a).mp ha with
        rfl | ⟨ha, hne⟩
      · exact ⟨b, List.mem_cons_self, rfl⟩
      · exact hold a ha hne
    · simp only [MemMng.relocate, ne_eq, hi, not_false_eq_true, Function.update_of_ne] at ha
      apply hold a ha
      rintro rfl
      exact hi (h.mng.apart i _ a ha hsrc)

theorem Inv.drop (h : s.Inv ids) (hinit : s.mng.bMemMngInit = true) {addr t : UInt32}
    {info : MemmngAllocInfo} (hfind : (s.mng.memInfo t).find addr = some info) :
    Inv ids ⟨s.mng.drop t info, s.others addr⟩ := by
  have haddr := MemmngQueue.mem_addrs_of_find hfind
  refine ⟨h.mng.drop hinit hfind, h.nodup_others addr, ?_, ?_⟩
  · intro other hother
    obtain ⟨hother, hne⟩ := mem_others.mp hother
    obtain ⟨rec, hrec, hfacts⟩ := h.recorded other hother
    refine ⟨rec, ?_, hfacts⟩
    by_cases hs : slot ids other = t
    · rw [hs] at hrec ⊢
      simp only [MemMng.drop, Function.update_self]
      exact MemmngQueue.mem_release_of_ne hfind hrec (hfacts.1 ▸ hne)
    · simpa [MemMng.drop, hs] using hrec
  · intro i a ha
    have hold : a ∈ (s.mng.memInfo i).addrs ∧ a ≠ addr := by
      by_cases hi : i = t
      · subst hi
        simp only [MemMng.drop, Function.update_self] at ha
        exact ((MemmngQueue.addrs_release (h.mng.nodup _) hfind).2 a).mp ha
      · simp only [MemMng.drop, ne_eq, hi, not_false_eq_true, Function.update_of_ne] at ha
        refine ⟨ha, ?_⟩
        rintro rfl
        exact hi (h.mng.apart i _ a ha haddr)
    obtain ⟨other, hother, rfl⟩ := h.known i a hold.1
    exact ⟨other, mem_others.mpr ⟨hother, hold.2⟩, rfl⟩

/-- What one call does: the lists stay, or one of the three edits is made. -/
theorem step_cases (h : s.Inv ids) (hstep : s.step ids a = some s') :
    (∃ id name,
      s' = ⟨{ s.mng with mods := (s.mng.mods.hiModRegister ids id name).2 }, s.blocks⟩) ∨
    (∃ mng, (mng = s.mng ∨ mng = s.mng.askName ids ∨ mng = s.mng.ready ids) ∧
      s' = ⟨mng, s.blocks⟩) ∨
    (∃ id size file line area, area ∉ s.mng.heap ∧ area ≠ 0 ∧ id < ids.modMaxNum ∧
      s' = ⟨(s.mng.ready ids).adopt (s.mng.tempModId ids id)
          ⟨area, memmngGetActualAllocSize size, file, line⟩,
        s.block ids area size id :: s.blocks⟩) ∨
    (∃ id src size file line rec area info,
      a = .reallocD id src size file line rec area ∧ id < ids.modMaxNum ∧ size ≠ 0 ∧
      (area ∉ s.mng.heap ∨ area = src) ∧ area ≠ 0 ∧
      (s.mng.memInfo (s.mng.tempModId ids id)).find src = some info ∧
      s' = ⟨(s.mng.ready ids).relocate (s.mng.tempModId ids id) info area
          (memmngGetActualAllocSize size) id,
        s.block ids area size id :: s.others src⟩) ∨
    (∃ id addr info, s.mng.bMemMngInit = true ∧ id < ids.modMaxNum ∧
      (s.mng.memInfo (s.mng.tempModId ids id)).find addr = some info ∧
      s' = ⟨(s.mng.askName ids).drop (s.mng.tempModId ids id) info, s.others addr⟩) := by
  cases a with
  | register id name =>
      obtain rfl := Option.some.inj hstep
      exact .inl ⟨id, name, rfl⟩
  | mallocD id size file line rec area =>
      simp only [step] at hstep
      split at hstep
      · cases hstep
      · rename_i hnew
        obtain rfl := Option.some.inj hstep
        rcases MemMng.hiMemMngMallocD_cases ids s.mng id size file line rec area with
          ⟨hres, hmng⟩ | ⟨harea, hid, heq⟩
        · rw [hres, if_pos rfl]
          refine .inr (.inl ⟨_, ?_, rfl⟩)
          exact hmng.imp_right .inl
        · rw [heq, if_neg harea]
          exact .inr (.inr (.inl ⟨id, size, file, line, area, hnew, harea, hid, rfl⟩))
  | reallocD id src size file line rec area =>
      simp only [step] at hstep
      split at hstep
      · cases hstep
      · rename_i hnew
        have hnew : area ∉ s.mng.heap ∨ area = src := by
          by_contra hboth
          exact hnew ⟨by tauto, by tauto⟩
        obtain rfl := Option.some.inj hstep
        rcases MemMng.hiMemMngReallocD_cases h.mng id src size file line rec area with
          ⟨hres, hmng⟩ | ⟨hsrc, harea, hid, heq⟩ | ⟨-, harea, hid, hsize, info, hfind, heq⟩
        · rw [hres, if_pos rfl]
          exact .inr (.inl ⟨_, hmng, rfl⟩)
        · -- a null `pSrcMem` is an allocation, and no block is at the null address
          have hfresh : area ∉ s.mng.heap := hnew.resolve_right (hsrc ▸ harea)
          rw [heq, if_neg harea, hsrc, h.others_eq h.mng.nonzero]
          exact .inr (.inr (.inl ⟨id, size, file, line, area, hfresh, harea, hid, rfl⟩))
        · rw [heq, if_neg harea]
          exact .inr (.inr (.inr (.inl ⟨id, src, size, file, line, rec, area, info, rfl, hid,
            hsize, hnew, harea, hfind, rfl⟩)))
  | free id addr =>
      simp only [step] at hstep
      obtain rfl := Option.some.inj hstep
      rcases MemMng.hiMemMngFree_cases ids s.mng id addr with
        ⟨hres, hmng⟩ | ⟨haddr, heq⟩ | ⟨hinit, -, hid, info, hfind, heq⟩
      · rw [if_neg hres]
        exact .inr (.inl ⟨_, hmng.imp_right .inl, rfl⟩)
      · rw [heq, if_pos rfl, haddr, h.others_eq h.mng.nonzero]
        exact .inr (.inl ⟨_, .inr (.inl rfl), rfl⟩)
      · rw [heq, if_pos rfl]
        exact .inr (.inr (.inr (.inr ⟨id, addr, info, hinit, hid, hfind, rfl⟩)))

theorem inv_step (h : s.Inv ids) (hstep : s.step ids a = some s') : s'.Inv ids := by
  rcases step_cases h hstep with ⟨id, name, rfl⟩ | ⟨mng, hmng, rfl⟩ |
    ⟨id, size, file, line, area, hnew, harea, -, rfl⟩ |
    ⟨id, src, size, file, line, rec, area, info, -, -, -, hnew, harea, hfind, rfl⟩ |
    ⟨id, addr, info, hinit, -, hfind, rfl⟩
  · exact h.of_lists (h.mng.setMods (h.mng.named.hiModRegister id name)) fun _ => rfl
  · exact h.unchanged hmng
  · have hready := h.ready
    exact hready.adopt MemMng.ready_bMemMngInit rfl rfl (slot_block area size id)
      (by rwa [MemMng.ready_heap]) harea
  · have hready := h.ready
    refine hready.relocate MemMng.ready_bMemMngInit ?_ rfl rfl (slot_block area size id)
      (by rwa [MemMng.ready_heap]) harea
    rw [h.mng.find_ready]
    exact hfind
  · exact h.askName.drop hinit hfind

theorem inv_of_reach (hreach : (machine ids).Reach s) : s.Inv ids := by
  refine hreach.invariant (I := Inv ids) ?_ fun s a s' h _ hstep => inv_step h hstep
  rintro s rfl
  constructor
  · exact MemMng.inv_zeroed
  · exact List.nodup_nil
  · intro b hb
    cases hb
  · intro i a ha
    cases ha

/-! ### The labels of the slots -/

/-- Every slot is labelled with its own id, or not yet labelled. -/
def Labelled (ids : ModIds) (mng : MemMng) : Prop :=
  ∀ i < ids.modMaxNum, (mng.memInfo i).u32ModId = modInvalidId ∨ (mng.memInfo i).u32ModId = i

/-- The call is no `HI_MemMng_ReallocD` that moves a block of the slot of
`HI_MOD_ID_NULL` for a module that is not registered. -/
def KeepsLabel (ids : ModIds) (s : MemRun) : Act → Prop
  | .reallocD id src size _ _ _ area =>
      ¬ (s.mng.mods.unregistered ids id = true ∧ id < ids.modMaxNum ∧ size ≠ 0 ∧ area ≠ 0 ∧
        src ∈ (s.mng.memInfo ids.modIdNull).addrs)
  | _ => True

theorem Labelled.setSlot {mng : MemMng} {t : UInt32} {q : MemmngQueue} {heap : List UInt32}
    (h : Labelled ids mng) (hq : q.u32ModId = modInvalidId ∨ q.u32ModId = t) :
    Labelled ids { mng with memInfo := Function.update mng.memInfo t q, heap := heap } := by
  intro i hi
  by_cases hit : i = t
  · simpa [hit] using hq
  · simpa [hit] using h i hi

theorem labelled_ready {mng : MemMng} (h : mng.bMemMngInit = true → Labelled ids mng) :
    Labelled ids (mng.ready ids) := by
  intro i hi
  by_cases hinit : mng.bMemMngInit = true
  · simpa [MemMng.ready, MemMng.memmngInitStruct, MemMng.askName, hinit] using h hinit i hi
  · simp [MemMng.ready, MemMng.memmngInitStruct, MemMng.askName, hinit, hi,
      MemmngQueue.inited]

/-- The labels through one call. -/
theorem labelled_step (h : s.Inv ids)
    (hlabelled : s.mng.bMemMngInit = true → Labelled ids s.mng) (hkeeps : KeepsLabel ids s a)
    (hstep : s.step ids a = some s') : s'.mng.bMemMngInit = true → Labelled ids s'.mng := by
  have hready := labelled_ready hlabelled
  rcases step_cases h hstep with ⟨id, name, rfl⟩ | ⟨mng, hmng, rfl⟩ |
    ⟨id, size, file, line, area, -, -, -, rfl⟩ |
    ⟨id, src, size, file, line, rec, area, info, rfl, hid, hsize, -, harea, hfind, rfl⟩ |
    ⟨id, addr, info, hinit, hid, -, rfl⟩
  · exact hlabelled
  · rcases hmng with rfl | rfl | rfl
    · exact hlabelled
    · exact hlabelled
    · exact fun _ => hready
  · exact fun _ => hready.setSlot (.inr rfl)
  · refine fun _ => hready.setSlot (.inr ?_)
    -- an unregistered module would have found the block in the slot of `HI_MOD_ID_NULL`
    unfold MemMng.tempModId at hfind ⊢
    split at hfind
    · rename_i hreg
      exact absurd ⟨hreg, hid, hsize, harea, MemmngQueue.mem_addrs_of_find hfind⟩ hkeeps
    · rename_i hreg
      rw [if_neg hreg]
      rfl
  · have hasked : Labelled ids (s.mng.askName ids) := hlabelled hinit
    exact fun _ => hasked.setSlot (hasked _ (MemMng.tempModId_lt hid))

/-- A call keeps the labels exactly if it is not such a `HI_MemMng_ReallocD`. -/
theorem labelled_step_iff (h : s.Inv ids)
    (hlabelled : s.mng.bMemMngInit = true → Labelled ids s.mng)
    (hstep : s.step ids a = some s') :
    (s'.mng.bMemMngInit = true → Labelled ids s'.mng) ↔ KeepsLabel ids s a := by
  refine ⟨fun hnext => ?_, fun hkeeps => labelled_step h hlabelled hkeeps hstep⟩
  cases a with
  | reallocD id src size file line rec area =>
      rintro ⟨hreg, hid, hsize, harea, hsrc⟩
      have hslot : s.mng.tempModId ids id = ids.modIdNull := if_pos hreg
      have hne : id ≠ ids.modIdNull := by
        rintro rfl
        rw [ModReg.registered_null h.mng.named] at hreg
        cases hreg
      have hzero : src ≠ 0 := by
        rintro rfl
        exact h.mng.nonzero (h.mng.heap _ _ hsrc)
      obtain ⟨info, hfind⟩ := Option.isSome_iff_exists.mp (MemmngQueue.find_isSome_iff.mpr hsrc)
      have hmoved := MemMng.hiMemMngReallocD_eq h.mng hid hsize hzero file line rec area
      simp only [hslot, hfind, Option.elim_some, if_neg harea] at hmoved
      simp only [step, hmoved] at hstep
      split at hstep
      · cases hstep
      · obtain rfl := Option.some.inj hstep
        have hlabel := hnext MemMng.ready_bMemMngInit ids.modIdNull (ModReg.modIdNull_lt ids)
        simp only [MemMng.relocate, Function.update_self, MemmngQueue.move] at hlabel
        rcases hlabel with heq | heq
        · exact ModReg.ne_modInvalidId hid heq
        · exact hne heq
  | _ => trivial

/-! ### The accounts -/

/-- The accounts of all slots. -/
structure Accounts (ids : ModIds) (s : MemRun) : Prop where
  num : ∀ i < ids.modMaxNum,
    (s.mng.memInfo i).u32AllocNum.toNat = (s.mng.memInfo i).stListHead.length
  size : ∀ i < ids.modMaxNum, (s.mng.memInfo i).u32MemSize.toNat =
    ((s.mng.memInfo i).stListHead.map (fun info => info.u32MemSize.toNat)).sum % 2 ^ 32
  sizes : ∀ i < ids.modMaxNum, ∀ info ∈ (s.mng.memInfo i).stListHead,
    ∃ b ∈ s.blocks, b.addr = info.pvMemAddr ∧
      info.u32MemSize = memmngGetActualAllocSize b.size
  once : ∀ i < ids.modMaxNum, ((s.mng.memInfo i).stListHead.map (·.pvMemAddr)).Nodup
  apart : ∀ i < ids.modMaxNum, ∀ j < ids.modMaxNum, i ≠ j →
    ∀ info ∈ (s.mng.memInfo i).stListHead, ∀ info' ∈ (s.mng.memInfo j).stListHead,
      info.pvMemAddr ≠ info'.pvMemAddr
  label : ∀ i < ids.modMaxNum, (s.mng.memInfo i).u32ModId = modInvalidId ∨
    (s.mng.memInfo i).u32ModId = i

/-- The record of a block in the slot that holds it, and no other record of its address. -/
theorem Inv.sizes (h : s.Inv ids) {i : UInt32} {info : MemmngAllocInfo}
    (hinfo : info ∈ (s.mng.memInfo i).stListHead) :
    ∃ b ∈ s.blocks, b.addr = info.pvMemAddr ∧
      info.u32MemSize = memmngGetActualAllocSize b.size := by
  have haddr : info.pvMemAddr ∈ (s.mng.memInfo i).addrs := List.mem_map_of_mem hinfo
  obtain ⟨b, hb, heq⟩ := h.known i _ haddr
  obtain ⟨info', hinfo', haddr', hsize⟩ := h.recorded b hb
  have hi : i = slot ids b := h.mng.apart i _ _ haddr (heq ▸ h.addr_mem hb)
  subst hi
  have hsame : info' = info :=
    List.inj_on_of_nodup_map (h.mng.nodup _) hinfo' hinfo (haddr'.trans heq)
  exact ⟨b, hb, heq, hsame ▸ hsize⟩

theorem labelled_of_reach (hreach : (machine ids).ReachWhen (KeepsLabel ids) s) :
    s.mng.bMemMngInit = true → Labelled ids s.mng := by
  have hboth : s.Inv ids ∧ (s.mng.bMemMngInit = true → Labelled ids s.mng) := by
    refine hreach.invariant
      (I := fun s => s.Inv ids ∧ (s.mng.bMemMngInit = true → Labelled ids s.mng)) ?_ ?_
    · rintro s rfl
      refine ⟨inv_of_reach (.init rfl), fun hinit => ?_⟩
      cases hinit
    · intro s a s' hs hkeeps hstep
      exact ⟨inv_step hs.1 hstep, labelled_step hs.1 hs.2 hkeeps hstep⟩
  exact hboth.2

/-- In every run without such a `HI_MemMng_ReallocD`, the accounts are right from
`MEMMNG_InitStruct` on. -/
theorem accounts_iff (ids : ModIds) (s : MemRun)
    (hreach : (machine ids).ReachWhen (KeepsLabel ids) s) :
    Accounts ids s ↔ s.mng.bMemMngInit = true := by
  have hs : s.Inv ids := inv_of_reach (hreach.mono fun _ _ _ => trivial)
  constructor
  · intro haccounts
    by_contra hinit
    -- the label of slot 1 is still zero
    have hone : (1 : UInt32) < ids.modMaxNum := by
      have hbound := ids.bound
      rw [UInt32.lt_iff_toNat_lt, ModIds.modMaxNum, UInt32.toNat_add]
      have hhundred : (100 : UInt32).toNat = 100 := rfl
      have hone : (1 : UInt32).toNat = 1 := rfl
      omega
    have hlabel := haccounts.label 1 hone
    rw [hs.mng.fresh (by simpa using hinit)] at hlabel
    revert hlabel
    decide
  · intro hinit
    refine ⟨?_, ?_, ?_, ?_, ?_, labelled_of_reach hreach hinit⟩
    · intro i _
      rw [(hs.mng.counts i).num, UInt32.toNat_ofNat', Nat.mod_eq_of_lt (hs.mng.length_lt i)]
    · intro i _
      rw [(hs.mng.counts i).size, UInt32.toNat_ofNat']
      rfl
    · exact fun i _ info hinfo => hs.sizes hinfo
    · exact fun i _ => hs.mng.nodup i
    · intro i _ j _ hne info hinfo info' hinfo' heq
      apply hne
      exact hs.mng.apart i j _ (List.mem_map_of_mem hinfo)
        (List.mem_map.mpr ⟨info', hinfo', heq.symm⟩)

/-- The ids of the older interface. -/
def sampleIds : ModIds :=
  ⟨0xB0, by decide⟩

/-- Module 176 allocates eight bytes, moves them and frees them. -/
def movedAndFreed : List Act :=
  [.mallocD 0xB0 8 none 1 true 0x1000, .reallocD 0xB0 0x1000 16 none 2 true 0x2000,
    .free 0xB0 0x2000]

theorem accounts_movedAndFreed :
    ∃ s, (machine sampleIds).run ⟨MemMng.zeroed, []⟩ movedAndFreed = some s ∧
      Accounts sampleIds s := by
  refine ⟨_, rfl, (accounts_iff sampleIds _ ?_).mpr rfl⟩
  have hstart : (machine sampleIds).ReachWhen (KeepsLabel sampleIds) ⟨MemMng.zeroed, []⟩ :=
    .init rfl
  refine .step (a := .free 0xB0 0x2000)
    (.step (a := .reallocD 0xB0 0x1000 16 none 2 true 0x2000)
      (.step (a := .mallocD 0xB0 8 none 1 true 0x1000) hstart trivial rfl) ?_ rfl) trivial rfl
  rintro ⟨hreg, -⟩
  revert hreg
  decide

/-- Module 5 is not registered; it allocates eight bytes and moves them. -/
def movedUnregistered : List Act :=
  [.mallocD 5 8 none 1 true 0x1000, .reallocD 5 0x1000 16 none 2 true 0x2000]

/-- The slot of `HI_MOD_ID_NULL` is labelled 5 then. -/
theorem label_lost :
    ∃ s, (machine sampleIds).Reach s ∧ s.mng.bMemMngInit = true ∧ ¬ Accounts sampleIds s := by
  refine ⟨_, Machine.reach_of_run movedUnregistered
    (s := MemRun.mk MemMng.zeroed []) rfl rfl, rfl, fun haccounts => ?_⟩
  have hlabel := haccounts.label 0xB0 (by decide)
  revert hlabel
  decide

end MemRun
end Mem
end AndroidLinux
