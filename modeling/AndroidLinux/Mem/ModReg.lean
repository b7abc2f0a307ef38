import AndroidLinux.Lib.CString

/-!
# The module registry of `hi_ref_mod.c`

A table with one row for every module id below `HI_MOD_MAX_NUM`.  A module counts as
registered when its name is not empty; the memory manager asks for nothing else.  The
table is filled by `MOD_Init` on first use.  Ids below `HI_MOD_ID_NULL` are left zero by
it, so that `HI_MOD_Register` takes them for registered and stores no name.
-/

namespace AndroidLinux
namespace Mem

open Lib

/-- `HI_MOD_ID_NULL`, which depends on the version of the unified interface.  The ids
are 32-bit numbers and `HI_MOD_INVALID_ID` is none of them. -/
structure ModIds where
  modIdNull : UInt32
  bound : modIdNull.toNat + 100 < 2 ^ 32

/-- `HI_MOD_MAX_NUM`. -/
def ModIds.modMaxNum (ids : ModIds) : UInt32 :=
  ids.modIdNull + 100

/-- `HI_MOD_INVALID_ID`, as a `HI_U32`. -/
def modInvalidId : UInt32 := 0xFFFFFFFF

/-- `HI_MOD_NAME_LEN`. -/
def modNameLen : Nat := 32

/-- The results of the calls. -/
inductive HiRet
  | success
  | failure
  | einval
  | epaerm
  deriving DecidableEq, Repr

/-- `MOD_INFO_S`.  The name is what stands before the first NUL of `aszModName`, or all
of it. -/
structure ModInfo where
  u32ModId : UInt32
  aszModName : CString

/-- `s_bMode_init` and `s_astModInfo`. -/
structure ModReg where
  bModeInit : Bool
  modInfo : UInt32 → ModInfo

namespace ModReg

/-- The zeroed table of a program that starts. -/
def zeroed : ModReg where
  bModeInit := false
  modInfo _ := ⟨0, CString.empty⟩

/-- `"MOD_NULL"`. -/
def modNullName : CString :=
  ⟨[77, 79, 68, 95, 78, 85, 76, 76], by decide⟩

/-- `MOD_Init`. -/
def modInit (ids : ModIds) (reg : ModReg) : ModReg :=
  if reg.bModeInit then
    reg
  else
    { bModeInit := true
      modInfo := fun i =>
        if i = ids.modIdNull then ⟨ids.modIdNull, modNullName⟩
        else if ids.modIdNull ≤ i ∧ i < ids.modMaxNum then ⟨modInvalidId, CString.empty⟩
        else ⟨0, CString.empty⟩ }

/-- `HI_MOD_GetNameById`. -/
def hiModGetNameById (ids : ModIds) (reg : ModReg) (u32ModId : UInt32) : CString × ModReg :=
  let reg := reg.modInit ids
  (if ids.modMaxNum ≤ u32ModId then CString.empty else (reg.modInfo u32ModId).aszModName, reg)

/-- Fill the row of a module. -/
def storeRow (reg : ModReg) (u32ModId : UInt32) (name : CString) : ModReg :=
  { reg with modInfo := Function.update reg.modInfo u32ModId ⟨u32ModId, name⟩ }

/-- `HI_MOD_Register`; `none` is a null pointer. -/
def hiModRegister (ids : ModIds) (reg : ModReg) (u32ModId : UInt32)
    (pszModName : Option CString) : HiRet × ModReg :=
  if ids.modMaxNum ≤ u32ModId then (.einval, reg)
  else
    match pszModName with
    | none => (.failure, reg)
    | some name =>
        if CString.strncmpEq modNameLen name CString.empty then (.failure, reg)
        else if modNameLen < name.strlen then (.failure, reg)
        else
          let reg := reg.modInit ids
          if (reg.modInfo u32ModId).u32ModId ≠ modInvalidId then (.success, reg)
          else
            (.success, reg.storeRow u32ModId name)

/-- The test of the memory manager: `!strncmp(HI_MOD_GetNameById(u32ModId), "", 1)`. -/
def unregistered (ids : ModIds) (reg : ModReg) (u32ModId : UInt32) : Bool :=
  CString.strncmpEq 1 (reg.hiModGetNameById ids u32ModId).1 CString.empty

variable {ids : ModIds} {reg : ModReg} {m : UInt32}

theorem strncmpEq_empty {n : Nat} (hn : 0 < n) (name : CString) :
    CString.strncmpEq n name CString.empty = true ↔ name.bytes = [] := by
  simp only [CString.strncmpEq, CString.empty, List.take_nil, beq_iff_eq, List.take_eq_nil_iff]
  constructor
  · rintro (h | h)
    · omega
    · exact h
  · exact Or.inr

@[simp] theorem modInit_modInit : (reg.modInit ids).modInit ids = reg.modInit ids := by
  unfold modInit
  split <;> simp_all

@[simp] theorem unregistered_modInit :
    (reg.modInit ids).unregistered ids m = reg.unregistered ids m := by
  simp only [unregistered, hiModGetNameById, modInit_modInit]

/-- What the rest of the development needs of the registry: `HI_MOD_ID_NULL` has its
name once the table is filled. -/
def NullNamed (ids : ModIds) (reg : ModReg) : Prop :=
  reg.bModeInit = true → (reg.modInfo ids.modIdNull).aszModName.bytes ≠ []

theorem NullNamed.modInit (h : reg.NullNamed ids) : (reg.modInit ids).NullNamed ids := by
  unfold ModReg.modInit
  split
  · exact h
  · intro _
    simp [modNullName]

theorem modMaxNum_toNat (ids : ModIds) : ids.modMaxNum.toNat = ids.modIdNull.toNat + 100 := by
  have hhundred : (100 : UInt32).toNat = 100 := rfl
  rw [ModIds.modMaxNum, UInt32.toNat_add, hhundred, Nat.mod_eq_of_lt ids.bound]

theorem modIdNull_lt (ids : ModIds) : ids.modIdNull < ids.modMaxNum := by
  rw [UInt32.lt_iff_toNat_lt, modMaxNum_toNat]
  omega

theorem ne_modInvalidId (hm : m < ids.modMaxNum) : m ≠ modInvalidId := by
  rintro rfl
  have hbound := ids.bound
  have hinvalid : modInvalidId.toNat = 2 ^ 32 - 1 := rfl
  rw [UInt32.lt_iff_toNat_lt, modMaxNum_toNat] at hm
  omega

@[simp] theorem modInit_bModeInit : (reg.modInit ids).bModeInit = true := by
  unfold modInit
  split
  · assumption
  · rfl

theorem modInit_eq_self (h : reg.bModeInit = true) : reg.modInit ids = reg := by
  simp [modInit, h]

/-- A module is registered when its row has a name. -/
theorem unregistered_eq_false_iff :
    reg.unregistered ids m = false ↔
      m < ids.modMaxNum ∧ ((reg.modInit ids).modInfo m).aszModName.bytes ≠ [] := by
  rw [← Bool.not_eq_true, unregistered, strncmpEq_empty (by decide), hiModGetNameById]
  by_cases hm : ids.modMaxNum ≤ m
  · simp [hm, UInt32.not_lt.mpr hm, CString.empty]
  · simp [hm, UInt32.not_le.mp hm]

/-- `HI_MOD_ID_NULL` is registered from the start. -/
theorem registered_null (h : reg.NullNamed ids) :
    reg.unregistered ids ids.modIdNull = false :=
  unregistered_eq_false_iff.mpr ⟨modIdNull_lt ids, h.modInit modInit_bModeInit⟩

/-- What a registration does to the table: at most it stores a name. -/
theorem hiModRegister_cases (ids : ModIds) (reg : ModReg) (id : UInt32) (name : Option CString) :
    (reg.hiModRegister ids id name).2 = reg ∨
      (reg.hiModRegister ids id name).2 = reg.modInit ids ∨
      ∃ name', name'.bytes ≠ [] ∧
        (reg.hiModRegister ids id name).2 = (reg.modInit ids).storeRow id name' := by
  unfold hiModRegister
  split
  · exact .inl rfl
  · cases name with
    | none => exact .inl rfl
    | some name =>
        simp only
        split
        · exact .inl rfl
        · rename_i hne
          rw [strncmpEq_empty (by decide)] at hne
          split
          · exact .inl rfl
          · split
            · exact .inr (.inl rfl)
            · exact .inr (.inr ⟨name, hne, rfl⟩)

/-- A registration takes no name away. -/
theorem registered_of_registered (id : UInt32) (name : Option CString)
    (h : reg.unregistered ids m = false) :
    (reg.hiModRegister ids id name).2.unregistered ids m = false := by
  rcases hiModRegister_cases ids reg id name with
    heq | heq | ⟨name', hname, heq⟩
  · rw [heq]
    exact h
  · rw [heq, unregistered_modInit]
    exact h
  · rw [heq]
    obtain ⟨hm, hnamed⟩ := unregistered_eq_false_iff.mp h
    refine unregistered_eq_false_iff.mpr ⟨hm, ?_⟩
    have hinit : ((reg.modInit ids).storeRow id name').bModeInit = true := modInit_bModeInit
    rw [modInit_eq_self hinit]
    by_cases hid : m = id
    · simpa [storeRow, hid] using hname
    · simpa [storeRow, hid] using hnamed

theorem NullNamed.hiModRegister (h : reg.NullNamed ids) (id : UInt32)
    (name : Option CString) : (reg.hiModRegister ids id name).2.NullNamed ids := by
  intro hinit
  have hreg := registered_of_registered id name (registered_null h)
  have hnamed := (unregistered_eq_false_iff.mp hreg).2
  rwa [modInit_eq_self hinit] at hnamed

end ModReg
end Mem
end AndroidLinux
