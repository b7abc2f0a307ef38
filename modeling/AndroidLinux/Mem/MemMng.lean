import AndroidLinux.Lib.Transition
import AndroidLinux.Mem.ModReg

/-!
# The memory manager of `hi_adp_memmng.c`

`HI_MemMng_MallocD`, `HI_MemMng_ReallocD` and `HI_MemMng_Free` keep a record of every
block in the list of its module.  A module that is not registered at the time of the
call is replaced by `HI_MOD_ID_NULL` in each of them.

Addresses are 32-bit numbers and the null pointer is 0.  What `malloc` and `realloc`
return is an argument of the calls; `heap` holds the areas that the C library has handed
out to the manager and not got back.  In a run every call is one step, because each call
holds the mutex of the one slot it works on, and `malloc` and `realloc` return a null
pointer or an area that is not in use (`realloc` possibly the old one).
-/

namespace AndroidLinux
namespace Mem

open Lib

/-- `MEMMNG_ALLOC_INFO`. -/
structure MemmngAllocInfo where
  pvMemAddr : UInt32
  u32MemSize : UInt32
  pszFileName : Option CString
  u32Line : UInt32

/-- `MEMMNG_QUEUE_S`; the list stands in the order of `stListHead`. -/
structure MemmngQueue where
  u32ModId : UInt32
  u32MemSize : UInt32
  u32AllocNum : UInt32
  u32AllocTimes : UInt32
  stListHead : List MemmngAllocInfo

namespace MemmngQueue

/-- The zeroed slot of a program that starts. -/
def zeroed : MemmngQueue :=
  ⟨0, 0, 0, 0, []⟩

/-- A slot after `MEMMNG_InitStruct`. -/
def inited : MemmngQueue :=
  ⟨modInvalidId, 0, 0, 0, []⟩

/-- The edit of `HI_MemMng_MallocD`. -/
def record (q : MemmngQueue) (info : MemmngAllocInfo) (u32TempModId : UInt32) :
    MemmngQueue where
  stListHead := info :: q.stListHead
  u32MemSize := q.u32MemSize + info.u32MemSize
  u32AllocNum := q.u32AllocNum + 1
  u32AllocTimes := q.u32AllocTimes + 1
  u32ModId := u32TempModId

/-- The record of an address, as the loops find it. -/
def find (q : MemmngQueue) (addr : UInt32) : Option MemmngAllocInfo :=
  q.stListHead.find? (fun info => info.pvMemAddr == addr)

/-- Give the first record of `addr` another address and size. -/
def moveFirst (addr area size : UInt32) : List MemmngAllocInfo → List MemmngAllocInfo
  | [] => []
  | info :: rest =>
      if info.pvMemAddr = addr then
        { info with pvMemAddr := area, u32MemSize := size } :: rest
      else
        info :: moveFirst addr area size rest

/-- The edit of `HI_MemMng_ReallocD`.  It stores the module id of the call, where
`HI_MemMng_MallocD` stores the id of the slot. -/
def move (q : MemmngQueue) (info : MemmngAllocInfo) (area size u32ModId : UInt32) :
    MemmngQueue where
  stListHead := moveFirst info.pvMemAddr area size q.stListHead
  u32MemSize := q.u32MemSize - info.u32MemSize + size
  u32AllocNum := q.u32AllocNum
  u32AllocTimes := q.u32AllocTimes
  u32ModId := u32ModId

/-- The edit of `HI_MemMng_Free`. -/
def release (q : MemmngQueue) (info : MemmngAllocInfo) : MemmngQueue where
  stListHead := q.stListHead.eraseP (fun other => other.pvMemAddr == info.pvMemAddr)
  u32MemSize := q.u32MemSize - info.u32MemSize
  u32AllocNum := q.u32AllocNum - 1
  u32AllocTimes := q.u32AllocTimes
  u32ModId := q.u32ModId

end MemmngQueue

/-- `s_bMemMng_init`, `s_astMEMMNG_MEMINFO`, the module registry and the areas of the
C library. -/
structure MemMng where
  bMemMngInit : Bool
  memInfo : UInt32 → MemmngQueue
  mods : ModReg
  heap : List UInt32

/-- `MEMMNG_GetActualAllocSize`. -/
def memmngGetActualAllocSize (u32AllocSize : UInt32) : UInt32 :=
  let u32AtActualAllocSize := u32AllocSize + 4
  if u32AllocSize + 4 ≤ 16 then 16
  else u32AtActualAllocSize + 8 - u32AtActualAllocSize % 8

namespace MemMng

/-- The manager of a program that starts. -/
def zeroed : MemMng where
  bMemMngInit := false
  memInfo _ := MemmngQueue.zeroed
  mods := ModReg.zeroed
  heap := []

variable (ids : ModIds)

/-- `MEMMNG_InitStruct`. -/
def memmngInitStruct (s : MemMng) : MemMng :=
  if s.bMemMngInit then
    s
  else
    { s with
      bMemMngInit := true
      memInfo := fun i =>
        if i < ids.modMaxNum then MemmngQueue.inited else s.memInfo i }

/-- `u32TempModId`: the slot that a call for a module works on. -/
def tempModId (s : MemMng) (u32ModId : UInt32) : UInt32 :=
  if s.mods.unregistered ids u32ModId then ids.modIdNull else u32ModId

/-- Record a new block in a slot. -/
def adopt (s : MemMng) (u32TempModId : UInt32) (info : MemmngAllocInfo) : MemMng :=
  { s with
    memInfo := Function.update s.memInfo u32TempModId
      ((s.memInfo u32TempModId).record info u32TempModId)
    heap := info.pvMemAddr :: s.heap }

/-- Store what `realloc` returned for a block of a slot. -/
def relocate (s : MemMng) (u32TempModId : UInt32) (info : MemmngAllocInfo)
    (area size u32ModId : UInt32) : MemMng :=
  { s with
    memInfo := Function.update s.memInfo u32TempModId
      ((s.memInfo u32TempModId).move info area size u32ModId)
    heap := area :: s.heap.erase info.pvMemAddr }

/-- Free a block of a slot. -/
def drop (s : MemMng) (u32TempModId : UInt32) (info : MemmngAllocInfo) : MemMng :=
  { s with
    memInfo := Function.update s.memInfo u32TempModId
      ((s.memInfo u32TempModId).release info)
    heap := s.heap.erase info.pvMemAddr }

/-- The registry as `HI_MOD_GetNameById` leaves it. -/
def askName (s : MemMng) : MemMng :=
  { s with mods := s.mods.modInit ids }

/-- `HI_MemMng_MallocD`; `info` says whether the record can be allocated, `area` is what
`malloc(u32Size)` returns. -/
def hiMemMngMallocD (s : MemMng) (u32ModId u32Size : UInt32) (pszFileName : Option CString)
    (u32LineNo : UInt32) (info : Bool) (area : UInt32) : UInt32 × MemMng :=
  if ids.modMaxNum ≤ u32ModId ∨ u32Size = 0 then (0, s)
  else
    let u32TempModId := s.tempModId ids u32ModId
    let s := s.askName ids
    if info = false then (0, s)
    else if area = 0 then (0, s)
    else
      let pstMemInfo : MemmngAllocInfo :=
        ⟨area, memmngGetActualAllocSize u32Size, pszFileName, u32LineNo⟩
      let s := s.memmngInitStruct ids
      (pstMemInfo.pvMemAddr, s.adopt u32TempModId pstMemInfo)

/-- `HI_MemMng_ReallocD`; `area` is what `realloc` returns, or `malloc` for a null
`pSrcMem`. -/
def hiMemMngReallocD (s : MemMng) (u32ModId pSrcMem u32Size : UInt32)
    (pszFileName : Option CString) (u32LineNo : UInt32) (info : Bool) (area : UInt32) :
    UInt32 × MemMng :=
  if ids.modMaxNum ≤ u32ModId ∨ u32Size = 0 then (0, s)
  else
    let u32TempModId := s.tempModId ids u32ModId
    let s := s.askName ids
    if pSrcMem = 0 then
      s.hiMemMngMallocD ids u32TempModId u32Size pszFileName u32LineNo info area
    else
      let s := s.memmngInitStruct ids
      match (s.memInfo u32TempModId).find pSrcMem with
      | none => (0, s)
      | some pstMemInfo =>
          if area = 0 then (0, s)
          else
            (area, s.relocate u32TempModId pstMemInfo area
              (memmngGetActualAllocSize u32Size) u32ModId)

/-- `HI_MemMng_Free`. -/
def hiMemMngFree (s : MemMng) (u32ModId pvMemAddr : UInt32) : HiRet × MemMng :=
  if s.bMemMngInit = false then (.failure, s)
  else if ids.modMaxNum ≤ u32ModId then (.epaerm, s)
  else
    let u32TempModId := s.tempModId ids u32ModId
    let s := s.askName ids
    if pvMemAddr = 0 then (.success, s)
    else
      match (s.memInfo u32TempModId).find pvMemAddr with
      | none => (.failure, s)
      | some pstMemInfo =>
          (.success, s.drop u32TempModId pstMemInfo)

end MemMng

/-! ## Runs -/

/-- A block in the hands of the caller: the size last requested for it, the module it was
last requested for, and whether that module was registered then. -/
structure Block where
  addr : UInt32
  size : UInt32
  modId : UInt32
  registered : Bool

/-- The manager, with the blocks that calls have returned and that have been neither
freed nor reallocated since. -/
structure MemRun where
  mng : MemMng
  blocks : List Block

/-- The calls, with what the C library answers them. -/
inductive Act
  | register (u32ModId : UInt32) (pszModName : Option CString)
  | mallocD (u32ModId u32Size : UInt32) (pszFileName : Option CString) (u32LineNo : UInt32)
      (info : Bool) (area : UInt32)
  | reallocD (u32ModId pSrcMem u32Size : UInt32) (pszFileName : Option CString)
      (u32LineNo : UInt32) (info : Bool) (area : UInt32)
  | free (u32ModId pvMemAddr : UInt32)

namespace MemRun

variable (ids : ModIds)

/-- The block that a call returns. -/
def block (s : MemRun) (addr size modId : UInt32) : Block :=
  ⟨addr, size, modId, !s.mng.mods.unregistered ids modId⟩

/-- The blocks other than the one at `addr`. -/
def others (s : MemRun) (addr : UInt32) : List Block :=
  s.blocks.filter (fun b => b.addr ≠ addr)

/-- One call. -/
def step (s : MemRun) : Act → Option MemRun
  | .register id name =>
      some { s with mng := { s.mng with mods := (s.mng.mods.hiModRegister ids id name).2 } }
  | .mallocD id size file line info area =>
      if area ∈ s.mng.heap then none
      else
        let (addr, mng) := s.mng.hiMemMngMallocD ids id size file line info area
        some ⟨mng, if addr = 0 then s.blocks else s.block ids addr size id :: s.blocks⟩
  | .reallocD id src size file line info area =>
      if area ∈ s.mng.heap ∧ area ≠ src then none
      else
        let (addr, mng) := s.mng.hiMemMngReallocD ids id src size file line info area
        some ⟨mng, if addr = 0 then s.blocks else s.block ids addr size id :: s.others src⟩
  | .free id addr =>
      let (ret, mng) := s.mng.hiMemMngFree ids id addr
      some ⟨mng, if ret = .success then s.others addr else s.blocks⟩

/-- The runs of a program, from its start. -/
def machine : Machine MemRun Act where
  init s := s = ⟨MemMng.zeroed, []⟩
  step := step ids

end MemRun
end Mem
end AndroidLinux
