import AndroidLinux.Lib.Packing
import Mathlib.Tactic

/-!
# The block of the message tables

`SHM_Init` allocates one block for its header, the task table and the table of the
subscriptions, and computes its length from the two numbers of the configuration with
`unsigned int`s, which no check bounds.  `TASK_TAB_Init` and `SUBUnit` compute the
addresses in the block again from the header.  Addresses are offsets in the block, with
the 32 bits of an `unsigned int`.
-/

namespace AndroidLinux
namespace Msg

open Lib

/-- The two numbers of a `VTOP_MSG_S_Config` that size the block. -/
structure VtopMsgConfig where
  ulMaxTask : UInt32
  ulMaxSub : UInt32

/-- `VTOP_MSG_DEFAULT_MAX_TASK`. -/
def vtopMsgDefaultMaxTask : UInt32 := 32

/-- `VTOP_MSG_DEFAULT_MAX_SUB`. -/
def vtopMsgDefaultMaxSub : UInt32 := 64

/-- `GET_VALUE`. -/
def getValue (a b : UInt32) : UInt32 :=
  if a ≠ 0 then a else b

/-- `sizeof(MSG_SHM_S)`: seven words and the version. -/
def msgShmSize : UInt32 := 60

/-- `sizeof(MSG_TAB_TASK_S)`: the name and four words. -/
def msgTabTaskSize : UInt32 := 32

/-- `TASK_TAB_CalcSize`. -/
def taskTabCalcSize (maxTask : UInt32) : UInt32 :=
  if maxTask = 0 then 0 else maxTask * msgTabTaskSize

/-- `SUBTABCalcUnitSize`. -/
def subTabCalcUnitSize (maxTaskInSub : UInt32) : UInt32 :=
  4 + 4 + 4 * maxTaskInSub

/-- `SUB_TAB_CalcSize`. -/
def subTabCalcSize (maxSub maxTaskInSub : UInt32) : UInt32 :=
  if maxSub = 0 ∨ maxTaskInSub = 0 then 0 else maxSub * subTabCalcUnitSize maxTaskInSub

/-- `MSG_SHM_S`, as far as it says where the tables are. -/
structure MsgShm where
  maxTaskNum : UInt32
  maxSubNum : UInt32
  maxTaskNumInSub : UInt32
  taskTabPos : UInt32
  subTabPos : UInt32

/-- The block at `g_MsgShmAddr`: its header and the length that was allocated. -/
structure ShmBlock where
  shm : MsgShm
  shmLen : UInt32

/-- `SHM_Init`, with the block it leaves; `malloc` says which lengths are allocated.  It
returns 0 also when there is no memory, and then leaves no block. -/
def shmInit (config : VtopMsgConfig) (malloc : UInt32 → Bool) : Option ShmBlock :=
  let maxTaskNum := getValue config.ulMaxTask vtopMsgDefaultMaxTask
  let maxSubNum := getValue config.ulMaxSub vtopMsgDefaultMaxSub
  let maxTaskNumInSub := maxTaskNum
  let ttSize := taskTabCalcSize maxTaskNum
  let stSize := subTabCalcSize maxSubNum maxTaskNumInSub
  let shmLen := msgShmSize + ttSize + stSize
  let taskTabPos := msgShmSize
  let subTabPos := taskTabPos + ttSize
  if malloc shmLen then
    some ⟨⟨maxTaskNum, maxSubNum, maxTaskNumInSub, taskTabPos, subTabPos⟩, shmLen⟩
  else
    none

/-- `&pTaskTab[index]`. -/
def MsgShm.taskUnit (shm : MsgShm) (index : UInt32) : UInt32 :=
  shm.taskTabPos + index * msgTabTaskSize

/-- `SUBUnit`. -/
def MsgShm.subUnit (shm : MsgShm) (index : UInt32) : UInt32 :=
  shm.subTabPos + index * subTabCalcUnitSize shm.maxTaskNumInSub

/-! ## The parts of the block -/

/-- What the block holds: the header, an entry of the task table, or a row of the table of
subscriptions. -/
inductive ShmPart
  | head
  | task (index : Nat)
  | row (index : Nat)
  deriving DecidableEq

namespace MsgShm

variable (shm : MsgShm)

/-- Where a part starts. -/
def start : ShmPart → Nat
  | .head => 0
  | .task index => (shm.taskUnit (.ofNat index)).toNat
  | .row index => (shm.subUnit (.ofNat index)).toNat

/-- The bytes of a part.  A row has its type, its pointer and all its slots. -/
def length : ShmPart → Nat
  | .head => msgShmSize.toNat
  | .task _ => msgTabTaskSize.toNat
  | .row _ => 8 + 4 * shm.maxTaskNumInSub.toNat

/-- The header and the entries of both tables. -/
def parts : Finset ShmPart :=
  {.head} ∪ (Finset.range shm.maxTaskNum.toNat).image .task ∪
    (Finset.range shm.maxSubNum.toNat).image .row

/-- The bytes of all parts. -/
def bytes : Nat :=
  60 + shm.maxTaskNum.toNat * 32 + shm.maxSubNum.toNat * (8 + 4 * shm.maxTaskNumInSub.toNat)

theorem sum_length : ∑ p ∈ shm.parts, shm.length p = shm.bytes := by
  have hrows : Disjoint ({.head} ∪ (Finset.range shm.maxTaskNum.toNat).image ShmPart.task)
      ((Finset.range shm.maxSubNum.toNat).image ShmPart.row) := by
    simp [Finset.disjoint_left]
  have htasks : Disjoint {ShmPart.head}
      ((Finset.range shm.maxTaskNum.toNat).image ShmPart.task) := by
    simp
  rw [parts, Finset.sum_union hrows, Finset.sum_union htasks, Finset.sum_singleton,
    Finset.sum_image (by simp), Finset.sum_image (by simp)]
  simp [length, bytes, msgShmSize, msgTabTaskSize]

end MsgShm

/-- The parts lie inside the block and apart from each other. -/
def ShmBlock.Sound (b : ShmBlock) : Prop :=
  Packed b.shm.parts b.shm.start b.shm.length b.shmLen.toNat

/-- The numbers of tasks and of subscriptions of a configuration. -/
def VtopMsgConfig.maxTaskNum (config : VtopMsgConfig) : Nat :=
  (getValue config.ulMaxTask vtopMsgDefaultMaxTask).toNat

def VtopMsgConfig.maxSubNum (config : VtopMsgConfig) : Nat :=
  (getValue config.ulMaxSub vtopMsgDefaultMaxSub).toNat

/-- The bytes that a configuration needs, counted without a wrap. -/
def VtopMsgConfig.bytes (config : VtopMsgConfig) : Nat :=
  60 + config.maxTaskNum * 32 + config.maxSubNum * (8 + 4 * config.maxTaskNum)

/-! ## The layout -/

section Init

variable {config : VtopMsgConfig} {malloc : UInt32 → Bool} {b : ShmBlock}

/-- What `SHM_Init` leaves. -/
theorem shmInit_cases (h : shmInit config malloc = some b) :
    b.shm.maxTaskNum = getValue config.ulMaxTask vtopMsgDefaultMaxTask ∧
      b.shm.maxSubNum = getValue config.ulMaxSub vtopMsgDefaultMaxSub ∧
      b.shm.maxTaskNumInSub = b.shm.maxTaskNum ∧ b.shm.taskTabPos = msgShmSize ∧
      b.shm.subTabPos = msgShmSize + taskTabCalcSize b.shm.maxTaskNum ∧
      b.shmLen = msgShmSize + taskTabCalcSize b.shm.maxTaskNum +
        subTabCalcSize b.shm.maxSubNum b.shm.maxTaskNum := by
  unfold shmInit at h
  simp only at h
  split at h
  · cases h
    exact ⟨rfl, rfl, rfl, rfl, rfl, rfl⟩
  · cases h

theorem taskTabCalcSize_eq (maxTask : UInt32) : taskTabCalcSize maxTask = maxTask * 32 := by
  unfold taskTabCalcSize
  split
  · next hzero => simp [hzero]
  · rfl

theorem getValue_ne_zero {a b : UInt32} (hb : b ≠ 0) : getValue a b ≠ 0 := by
  unfold getValue
  split
  · assumption
  · exact hb

theorem bytes_eq (h : shmInit config malloc = some b) : b.shm.bytes = config.bytes := by
  obtain ⟨htask, hsub, hin, -⟩ := shmInit_cases h
  rw [MsgShm.bytes, hin, htask, hsub]
  rfl

/-- The counts and positions without a wrap. -/
theorem positions_of_fits (h : shmInit config malloc = some b)
    (hfit : config.bytes < 2 ^ 32) :
    b.shm.taskTabPos.toNat = 60 ∧
      b.shm.subTabPos.toNat = 60 + b.shm.maxTaskNum.toNat * 32 ∧
      (subTabCalcUnitSize b.shm.maxTaskNum).toNat = 8 + 4 * b.shm.maxTaskNum.toNat ∧
      b.shmLen.toNat = b.shm.bytes := by
  have hbytes := bytes_eq h
  obtain ⟨htask, hsub, hin, hpos, hsubPos, hlen⟩ := shmInit_cases h
  have htaskNe : b.shm.maxTaskNum ≠ 0 := by
    rw [htask]
    exact getValue_ne_zero (by decide)
  have hsubNe : b.shm.maxSubNum ≠ 0 := by
    rw [hsub]
    exact getValue_ne_zero (by decide)
  have hsubPositive : 0 < b.shm.maxSubNum.toNat := by
    rcases Nat.eq_zero_or_pos b.shm.maxSubNum.toNat with hzero | hpositive
    · exact absurd (UInt32.toNat_inj.mp hzero) hsubNe
    · exact hpositive
  -- a row is not longer than the table of the rows
  have hrow := Nat.le_mul_of_pos_left (8 + 4 * b.shm.maxTaskNum.toNat) hsubPositive
  rw [← hbytes, MsgShm.bytes, hin] at hfit
  have hunit : (subTabCalcUnitSize b.shm.maxTaskNum).toNat =
      8 + 4 * b.shm.maxTaskNum.toNat := by
    simp only [subTabCalcUnitSize, UInt32.toNat_add, UInt32.toNat_mul, UInt32.toNat_ofNat]
    omega
  have hsubTab : (subTabCalcSize b.shm.maxSubNum b.shm.maxTaskNum).toNat =
      b.shm.maxSubNum.toNat * (8 + 4 * b.shm.maxTaskNum.toNat) := by
    rw [subTabCalcSize, if_neg (by simp [htaskNe, hsubNe]), UInt32.toNat_mul, hunit]
    exact Nat.mod_eq_of_lt (by omega)
  rw [taskTabCalcSize_eq] at hsubPos hlen
  refine ⟨by rw [hpos]; rfl, ?_, hunit, ?_⟩
  · rw [hsubPos]
    simp only [msgShmSize, UInt32.toNat_add, UInt32.toNat_mul, UInt32.toNat_ofNat]
    omega
  · rw [hlen, MsgShm.bytes, hin, UInt32.toNat_add, hsubTab]
    simp only [msgShmSize, UInt32.toNat_add, UInt32.toNat_mul, UInt32.toNat_ofNat]
    omega

/-- Parts that do not overlap leave no room for a length beyond 32 bits. -/
theorem fits_of_sound (h : shmInit config malloc = some b) (hsound : b.Sound) :
    config.bytes < 2 ^ 32 := by
  calc config.bytes
      = ∑ p ∈ b.shm.parts, b.shm.length p := by rw [b.shm.sum_length, bytes_eq h]
    _ ≤ b.shmLen.toNat := hsound.sum_le
    _ < 2 ^ 32 := b.shmLen.toNat_lt

theorem start_task (h : shmInit config malloc = some b) (hfit : config.bytes < 2 ^ 32) {i : Nat}
    (hi : i < b.shm.maxTaskNum.toNat) : b.shm.start (.task i) = 60 + i * 32 := by
  obtain ⟨hpos, -⟩ := positions_of_fits h hfit
  have hlt := b.shm.maxTaskNum.toNat_lt
  rw [← bytes_eq h, MsgShm.bytes] at hfit
  simp only [MsgShm.start, MsgShm.taskUnit, msgTabTaskSize, UInt32.toNat_add, UInt32.toNat_mul,
    UInt32.toNat_ofNat, UInt32.toNat_ofNat', hpos]
  omega

theorem start_row (h : shmInit config malloc = some b) (hfit : config.bytes < 2 ^ 32) {i : Nat}
    (hi : i < b.shm.maxSubNum.toNat) :
    b.shm.start (.row i) =
      60 + b.shm.maxTaskNum.toNat * 32 + i * (8 + 4 * b.shm.maxTaskNum.toNat) := by
  have hin := (shmInit_cases h).2.2.1
  obtain ⟨-, hsubPos, hunit, -⟩ := positions_of_fits h hfit
  have hlt := b.shm.maxSubNum.toNat_lt
  rw [← bytes_eq h, MsgShm.bytes, hin] at hfit
  have hrow : i * (8 + 4 * b.shm.maxTaskNum.toNat) ≤
      b.shm.maxSubNum.toNat * (8 + 4 * b.shm.maxTaskNum.toNat) :=
    Nat.mul_le_mul_right _ hi.le
  have hindex : i % 2 ^ 32 = i := Nat.mod_eq_of_lt (by omega)
  simp only [MsgShm.start, MsgShm.subUnit, hin, UInt32.toNat_add, UInt32.toNat_mul,
    UInt32.toNat_ofNat', hunit, hsubPos, hindex]
  omega

/-- Without a wrap the tables lie one behind the other. -/
theorem sound_of_fits (h : shmInit config malloc = some b) (hfit : config.bytes < 2 ^ 32) :
    b.Sound := by
  have hin := (shmInit_cases h).2.2.1
  obtain ⟨hpos, hsubPos, hunit, hlen⟩ := positions_of_fits h hfit
  have hbytes : b.shmLen.toNat = 60 + b.shm.maxTaskNum.toNat * 32 +
      b.shm.maxSubNum.toNat * (8 + 4 * b.shm.maxTaskNum.toNat) := by
    rw [hlen, MsgShm.bytes, hin]
  -- the header, the tasks and the rows, each part behind the one before
  have hhead : Packed {ShmPart.head} b.shm.start b.shm.length 60 := by
    constructor
    · simp [MsgShm.start, MsgShm.length, msgShmSize]
    · simp
  have htasks : Packed ((Finset.range b.shm.maxTaskNum.toNat).image ShmPart.task)
      b.shm.start b.shm.length (60 + b.shm.maxTaskNum.toNat * 32) := by
    refine Packed.image _ ((packed_consecutive 60 le_rfl).congr (fun i hi => ?_) fun i _ => rfl)
    exact start_task h hfit (Finset.mem_range.mp hi)
  have hrows : Packed ((Finset.range b.shm.maxSubNum.toNat).image ShmPart.row)
      b.shm.start b.shm.length b.shmLen.toNat := by
    refine Packed.image _ ((packed_consecutive (60 + b.shm.maxTaskNum.toNat * 32)
      hbytes.ge).congr (fun i hi => ?_) fun i _ => ?_)
    · exact start_row h hfit (Finset.mem_range.mp hi)
    · simp [MsgShm.length, hin]
  have htables := hhead.append htasks (by
    intro p hp
    obtain ⟨i, hi, rfl⟩ := Finset.mem_image.mp hp
    rw [start_task h hfit (Finset.mem_range.mp hi)]
    omega) (by omega)
  exact htables.append hrows (by
    intro p hp
    obtain ⟨i, hi, rfl⟩ := Finset.mem_image.mp hp
    rw [start_row h hfit (Finset.mem_range.mp hi)]
    omega) (by omega)

/-- The header, the tasks and the rows of the subscriptions are packed in the block exactly
if the bytes they need are counted in 32 bits without a wrap. -/
theorem shmInit_sound_iff (h : shmInit config malloc = some b) :
    b.Sound ↔ config.bytes < 2 ^ 32 :=
  ⟨fits_of_sound h, sound_of_fits h⟩

end Init

/-- The default configuration. -/
def defaultConfig : VtopMsgConfig := ⟨0, 0⟩

/-- The block that `SHM_Init` leaves for it. -/
def defaultBlock : ShmBlock := ⟨⟨32, 64, 32, 60, 1084⟩, 9788⟩

theorem shmInit_sound_default : defaultBlock.Sound ↔ defaultConfig.bytes < 2 ^ 32 :=
  shmInit_sound_iff (show shmInit defaultConfig (fun _ => true) = some defaultBlock from rfl)

/-- As many tasks and as many subscriptions as make the rows four gigabytes long. -/
def wideConfig : VtopMsgConfig := ⟨32768, 32768⟩

/-- The block that `SHM_Init` leaves for it. -/
def wideBlock : ShmBlock := ⟨⟨32768, 32768, 32768, 60, 1048636⟩, 1310780⟩

theorem wideBlock_not_sound :
    shmInit wideConfig (fun _ => true) = some wideBlock ∧ ¬ wideBlock.Sound := by
  have hinit : shmInit wideConfig (fun _ => true) = some wideBlock := rfl
  refine ⟨hinit, fun hsound => ?_⟩
  exact absurd (fits_of_sound hinit hsound) (by decide)

end Msg
end AndroidLinux
