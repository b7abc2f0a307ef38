import AndroidLinux.Mem.Accounting

/-!
# Freeing what a module has allocated

A block is recorded in the slot of its module if the module was registered when the block
was returned, and else in the slot of `HI_MOD_ID_NULL`.  `HI_MemMng_Free` and
`HI_MemMng_ReallocD` look in the one or the other slot by what the registry says when
they are called, so that a registration in between hides the block from its own module.
-/

namespace AndroidLinux
namespace Mem

open Lib

namespace MemMng

variable {ids : ModIds} {s : MemMng} {m : UInt32}

@[simp] theorem unregistered_askName :
    (s.askName ids).mods.unregistered ids m = s.mods.unregistered ids m :=
  ModReg.unregistered_modInit

@[simp] theorem unregistered_ready :
    (s.ready ids).mods.unregistered ids m = s.mods.unregistered ids m := by
  have hmods : (s.ready ids).mods = s.mods.modInit ids := by
    unfold ready memmngInitStruct
    split <;> rfl
  rw [hmods, ModReg.unregistered_modInit]

end MemMng

namespace MemRun

variable {ids : ModIds} {s s' : MemRun} {a : Act} {b : Block}

/-- `HI_MemMng_Free` releases the block to the module it was returned to. -/
def Freeable (ids : ModIds) (s : MemRun) (b : Block) : Prop :=
  (s.mng.hiMemMngFree ids b.modId b.addr).1 = .success ∧
    b.addr ∉ (s.mng.hiMemMngFree ids b.modId b.addr).2.heap

/-- `HI_MemMng_ReallocD` finds the block for the module it was returned to: it returns
what `realloc` returns. -/
def Reallocable (ids : ModIds) (s : MemRun) (b : Block) : Prop :=
  ∀ size ≠ 0, ∀ file line rec area, area ≠ 0 →
    (s.mng.hiMemMngReallocD ids b.modId b.addr size file line rec area).1 = area

/-- What the registry knew of a module when it got a block, it still knows. -/
structure Dated (ids : ModIds) (s : MemRun) (b : Block) : Prop where
  lt : b.modId < ids.modMaxNum
  kept : b.registered = true → s.mng.mods.unregistered ids b.modId = false
  other : b.registered = false → b.modId ≠ ids.modIdNull

theorem Dated.mono (h : Dated ids s b)
    (hregs : s.mng.mods.unregistered ids b.modId = false →
      s'.mng.mods.unregistered ids b.modId = false) : Dated ids s' b :=
  ⟨h.lt, fun hreg => hregs (h.kept hreg), h.other⟩

/-- The block that a call returns is dated by that call. -/
theorem dated_block (h : s.Inv ids) {addr size id : UInt32} (hid : id < ids.modMaxNum) :
    Dated ids s (s.block ids addr size id) := by
  refine ⟨hid, ?_, ?_⟩
  · intro hreg
    simpa [block] using hreg
  · intro hreg
    rintro rfl
    simp [block, ModReg.registered_null h.mng.named] at hreg

/-- A call takes no registration away and dates the block it returns. -/
theorem dated_step (h : s.Inv ids) (hdated : ∀ b ∈ s.blocks, Dated ids s b)
    (hstep : s.step ids a = some s') : ∀ b ∈ s'.blocks, Dated ids s' b := by
  rcases step_cases h hstep with ⟨id, name, rfl⟩ | ⟨mng, hmng, rfl⟩ |
    ⟨id, size, file, line, area, -, -, hid, rfl⟩ |
    ⟨id, src, size, file, line, rec, area, info, -, hid, -, -, -, -, rfl⟩ |
    ⟨id, addr, info, -, -, -, rfl⟩
  · intro b hb
    exact (hdated b hb).mono (ModReg.registered_of_registered id name)
  · intro b hb
    apply (hdated b hb).mono
    rcases hmng with rfl | rfl | rfl <;> simp
  · intro b hb
    rcases List.mem_cons.mp hb with rfl | hb
    · exact (dated_block h hid).mono (by simp [MemMng.adopt])
    · exact (hdated b hb).mono (by simp [MemMng.adopt])
  · intro b hb
    rcases List.mem_cons.mp hb with rfl | hb
    · exact (dated_block h hid).mono (by simp [MemMng.relocate])
    · exact (hdated b (mem_others.mp hb).1).mono (by simp [MemMng.relocate])
  · intro b hb
    exact (hdated b (mem_others.mp hb).1).mono (by simp [MemMng.drop])

theorem dated_of_reach (hreach : (machine ids).Reach s) : ∀ b ∈ s.blocks, Dated ids s b := by
  have hboth : s.Inv ids ∧ ∀ b ∈ s.blocks, Dated ids s b := by
    refine hreach.invariant (I := fun s => s.Inv ids ∧ ∀ b ∈ s.blocks, Dated ids s b) ?_ ?_
    · rintro s rfl
      refine ⟨inv_of_reach (.init rfl), fun b hb => ?_⟩
      cases hb
    · intro s a s' hs _ hstep
      exact ⟨inv_step hs.1 hstep, dated_step hs.1 hs.2 hstep⟩
  exact hboth.2

theorem Inv.bMemMngInit (h : s.Inv ids) (hb : b ∈ s.blocks) : s.mng.bMemMngInit = true := by
  by_contra hinit
  have haddr := h.addr_mem hb
  rw [h.mng.fresh (by simpa using hinit)] at haddr
  cases haddr

/-- A module whose registration has not changed is sent to the slot of its block. -/
theorem Dated.slot_eq (hdate : Dated ids s b) :
    s.mng.tempModId ids b.modId = slot ids b ↔
      s.mng.mods.unregistered ids b.modId = !b.registered := by
  unfold MemMng.tempModId slot
  cases hreg : b.registered with
  | true => simp [hdate.kept hreg]
  | false =>
      cases hnow : s.mng.mods.unregistered ids b.modId with
      | true => simp
      | false => simpa using hdate.other hreg

/-- The block is found in the slot the module is sent to exactly if that is its slot. -/
theorem Inv.find_isSome_iff (h : s.Inv ids) (hb : b ∈ s.blocks) (i : UInt32) :
    ((s.mng.memInfo i).find b.addr).isSome ↔ i = slot ids b := by
  rw [MemmngQueue.find_isSome_iff]
  constructor
  · intro hmem
    exact h.mng.apart _ _ _ hmem (h.addr_mem hb)
  · rintro rfl
    exact h.addr_mem hb

/-- A module can free and reallocate what it got exactly if it is as registered as it was
when it got it. -/
theorem freeable_iff (ids : ModIds) (s : MemRun) (hreach : (machine ids).Reach s) (b : Block)
    (hb : b ∈ s.blocks) :
    Freeable ids s b ∧ Reallocable ids s b ↔
      s.mng.mods.unregistered ids b.modId = !b.registered := by
  have h := inv_of_reach hreach
  have hdate := dated_of_reach hreach b hb
  have hinit := h.bMemMngInit hb
  have hzero : b.addr ≠ 0 := by
    intro heq
    exact h.mng.nonzero (heq ▸ h.addr_mem_heap hb)
  rw [← hdate.slot_eq, ← h.find_isSome_iff hb]
  constructor
  · rintro ⟨⟨hsucc, -⟩, -⟩
    rw [MemMng.hiMemMngFree_eq hinit hdate.lt hzero] at hsucc
    cases hfind : (s.mng.memInfo (s.mng.tempModId ids b.modId)).find b.addr with
    | none => simp [hfind] at hsucc
    | some info => rfl
  · intro hsome
    obtain ⟨info, hfind⟩ := Option.isSome_iff_exists.mp hsome
    obtain ⟨-, -, -, hinfo, -, -⟩ := MemmngQueue.find_split hfind
    refine ⟨⟨?_, ?_⟩, ?_⟩
    · rw [MemMng.hiMemMngFree_eq hinit hdate.lt hzero, hfind]
      rfl
    · rw [MemMng.hiMemMngFree_eq hinit hdate.lt hzero, hfind]
      simp only [Option.elim_some, MemMng.drop, hinfo]
      exact h.mng.heapNodup.not_mem_erase
    · intro size hsize file line rec area harea
      rw [MemMng.hiMemMngReallocD_eq h.mng hdate.lt hsize hzero, hfind]
      simp [harea]

/-- Module 200 registers and then allocates eight bytes. -/
def registeredFirst : List Act :=
  [.register 200 (some ModReg.modNullName), .mallocD 200 8 none 1 true 0x1000]

theorem freeable_registeredFirst :
    ∃ s, (machine sampleIds).run ⟨MemMng.zeroed, []⟩ registeredFirst = some s ∧
      Freeable sampleIds s ⟨0x1000, 8, 200, true⟩ ∧
        Reallocable sampleIds s ⟨0x1000, 8, 200, true⟩ := by
  refine ⟨_, rfl, (freeable_iff sampleIds _ ?_ _ ?_).mpr ?_⟩
  · exact Machine.reach_of_run registeredFirst (s := MemRun.mk MemMng.zeroed []) rfl rfl
  · exact List.mem_cons_self
  · decide

/-- Module 200 allocates eight bytes and then registers. -/
def registeredLater : List Act :=
  [.mallocD 200 8 none 1 true 0x1000, .register 200 (some ModReg.modNullName)]

/-- It cannot free them any more. -/
theorem not_freeable_registeredLater :
    ∃ s, (machine sampleIds).Reach s ∧ ⟨0x1000, 8, 200, false⟩ ∈ s.blocks ∧
      ¬ Freeable sampleIds s ⟨0x1000, 8, 200, false⟩ := by
  refine ⟨_, Machine.reach_of_run registeredLater
    (s := MemRun.mk MemMng.zeroed []) rfl rfl, List.mem_cons_self, fun hfree => ?_⟩
  have hsucc := hfree.1
  revert hsucc
  decide

end MemRun
end Mem
end AndroidLinux
