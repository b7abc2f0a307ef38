import AndroidLinux.Mem.ModTable

/-!
# The byte table and the registry of strings

The memory manager asks the registry only whether a module has a name, for which the
strings of `ModReg` are enough.  `Refines` relates the table with all its bytes to them.
Every call keeps it and has the same result on both sides, so that after any registrations
the memory manager gets the same answers from both (`unregistered_registerAll`).
-/

namespace AndroidLinux
namespace Mem

open Lib

/-- The row of the table that holds a row of the registry: the name, and zeros behind it. -/
def ModInfo.row (r : ModInfo) : ModRow :=
  ⟨r.u32ModId.toNat, copyName r.aszModName.bytes zeroName⟩

/-- Some calls of `HI_MOD_Register`. -/
def ModReg.registerAll (ids : ModIds) (reg : ModReg) (calls : List (UInt32 × Option CString)) :
    ModReg :=
  calls.foldl (fun reg c => (reg.hiModRegister ids c.1 c.2).2) reg

namespace ModTable

/-- The same calls on the table. -/
def registerAll (ids : ModIds) (t : ModTable) (calls : List (UInt32 × Option CString)) :
    ModTable :=
  calls.foldl (fun t c => (t.hiModRegister ids c.1.toNat c.2).2) t

/-- The test of the memory manager, `!strncmp(HI_MOD_GetNameById(u32ModId), "", 1)`. -/
def unregistered (ids : ModIds) (t : ModTable) (u32ModId : Nat) : Bool :=
  match t.hiModGetNameById ids u32ModId with
  | (none, _) => true
  | (some a, t) => strncmpBytes (t.byte ids) a 1 []

/-- The rows of the table hold those of the registry, in which a free row has no name. -/
structure Refines (ids : ModIds) (t : ModTable) (reg : ModReg) : Prop where
  bModeInit : t.bModeInit = reg.bModeInit
  row : t.bModeInit = true → ∀ m : UInt32, m < ids.modMaxNum →
    t.row m.toNat = (reg.modInfo m).row
  free : t.bModeInit = true → ∀ m : UInt32, m < ids.modMaxNum →
    (reg.modInfo m).u32ModId = modInvalidId → (reg.modInfo m).aszModName = CString.empty

variable {ids : ModIds} {t : ModTable} {reg : ModReg}

theorem lt_maxNum_iff (ids : ModIds) (m : UInt32) :
    m < ids.modMaxNum ↔ m.toNat < ids.maxNum := by
  rw [UInt32.lt_iff_toNat_lt, ModReg.modMaxNum_toNat]
  rfl

theorem maxNum_le_iff (ids : ModIds) (m : UInt32) :
    ids.modMaxNum ≤ m ↔ ids.maxNum ≤ m.toNat := by
  rw [← UInt32.not_lt, lt_maxNum_iff, Nat.not_lt]

theorem invalidId_iff (m : UInt32) : m.toNat = invalidId ↔ m = modInvalidId := by
  rw [← UInt32.toNat_inj]
  rfl

/-- Before `MOD_Init` nothing is asked of the rows. -/
theorem refines_of_fresh (ht : t.bModeInit = false) (hreg : reg.bModeInit = false) :
    Refines ids t reg where
  bModeInit := ht.trans hreg.symm
  row h := absurd (ht.symm.trans h) (by decide)
  free h := absurd (ht.symm.trans h) (by decide)

theorem Refines.modInit (h : Refines ids t reg) :
    Refines ids (t.modInit ids) (reg.modInit ids) := by
  cases hinit : t.bModeInit with
  | true =>
      rw [modInit_eq_self hinit, ModReg.modInit_eq_self (h.bModeInit ▸ hinit)]
      exact h
  | false =>
      have hinit' : reg.bModeInit = false := h.bModeInit ▸ hinit
      refine ⟨by simp, fun _ m hm => ?_, fun _ m hm hfree => ?_⟩
      · have hnull : m.toNat = ids.firstId ↔ m = ids.modIdNull := UInt32.toNat_inj
        have hlow : ids.firstId ≤ m.toNat ↔ ids.modIdNull ≤ m := UInt32.le_iff_toNat_le.symm
        simp only [ModTable.modInit, ModReg.modInit, hinit, hinit', Bool.false_eq_true, if_false,
          hnull, hlow, ← lt_maxNum_iff, printName_zeroName, ModInfo.row]
        -- the three kinds of rows
        by_cases hfirst : m = ids.modIdNull
        · rw [if_pos hfirst, if_pos hfirst]
          rfl
        · rw [if_neg hfirst, if_neg hfirst]
          split <;> rfl
      · simp only [ModReg.modInit, hinit', Bool.false_eq_true, if_false] at hfree ⊢
        split at hfree
        · exact absurd hfree (ModReg.ne_modInvalidId (ModReg.modIdNull_lt ids))
        · next hfirst =>
            rw [if_neg hfirst]
            split <;> rfl

theorem Refines.storeRow (h : Refines ids t reg) (hinit : t.bModeInit = true) {m : UInt32}
    (hm : m < ids.modMaxNum) (hfree : (reg.modInfo m).u32ModId = modInvalidId) (name : CString) :
    Refines ids (t.storeRow m.toNat name) (reg.storeRow m name) := by
  have hrow : t.row m.toNat = ⟨invalidId, copyName CString.empty.bytes zeroName⟩ := by
    rw [h.row hinit m hm, ModInfo.row, h.free hinit m hm hfree, hfree]
    rfl
  refine ⟨h.bModeInit, fun _ m' hm' => ?_, fun _ m' hm' hfree' => ?_⟩
  · simp only [ModTable.storeRow, ModReg.storeRow]
    by_cases hsame : m' = m
    · subst hsame
      rw [Function.update_self, Function.update_self, hrow]
      rfl
    · rw [Function.update_of_ne hsame, Function.update_of_ne (mt UInt32.toNat_inj.mp hsame)]
      exact h.row hinit m' hm'
  · simp only [ModReg.storeRow] at hfree' ⊢
    by_cases hsame : m' = m
    · subst hsame
      rw [Function.update_self] at hfree'
      exact absurd hfree' (ModReg.ne_modInvalidId hm)
    · rw [Function.update_of_ne hsame] at hfree' ⊢
      exact h.free hinit m' hm' hfree'

/-- `HI_MOD_Register` returns the same and keeps the rows together. -/
theorem Refines.hiModRegister (h : Refines ids t reg) (m : UInt32) (pszModName : Option CString) :
    (t.hiModRegister ids m.toNat pszModName).1 = (reg.hiModRegister ids m pszModName).1 ∧
      Refines ids (t.hiModRegister ids m.toNat pszModName).2
        (reg.hiModRegister ids m pszModName).2 := by
  simp only [ModTable.hiModRegister, ModReg.hiModRegister, ge_iff_le, ← maxNum_le_iff]
  by_cases hm : ids.modMaxNum ≤ m
  · rw [if_pos hm, if_pos hm]
    exact ⟨rfl, h⟩
  rw [if_neg hm, if_neg hm]
  have hlt : m < ids.modMaxNum := UInt32.not_le.mp hm
  cases pszModName with
  | none => exact ⟨rfl, h⟩
  | some name =>
      simp only
      by_cases hempty : CString.strncmpEq modNameLen name CString.empty
      · rw [if_pos hempty, if_pos hempty]
        exact ⟨rfl, h⟩
      rw [if_neg hempty, if_neg hempty]
      by_cases hlong : modNameLen < name.strlen
      · rw [if_pos hlong, if_pos hlong]
        exact ⟨rfl, h⟩
      rw [if_neg hlong, if_neg hlong]
      have hinit : (t.modInit ids).bModeInit = true := modInit_bModeInit ids t
      have hrow := congrArg ModRow.u32ModId (h.modInit.row hinit m hlt)
      rw [hrow]
      by_cases hfree : ((reg.modInit ids).modInfo m).u32ModId = modInvalidId
      · have hfree' : ((reg.modInit ids).modInfo m).row.u32ModId = invalidId :=
          (invalidId_iff _).mpr hfree
        rw [if_neg (not_not.mpr hfree'.symm), if_neg (not_not.mpr hfree)]
        exact ⟨rfl, h.modInit.storeRow hinit hlt hfree name⟩
      · have hfree' : ((reg.modInit ids).modInfo m).row.u32ModId ≠ invalidId :=
          mt (invalidId_iff _).mp hfree
        rw [if_pos hfree'.symm, if_pos hfree]
        exact ⟨rfl, h.modInit⟩

/-- The memory manager gets the same answer from both. -/
theorem Refines.unregistered (h : Refines ids t reg) (m : UInt32) :
    t.unregistered ids m.toNat = reg.unregistered ids m := by
  rw [Bool.eq_iff_iff, ModReg.unregistered, ModReg.strncmpEq_empty (by decide)]
  simp only [ModTable.unregistered, hiModGetNameById, ModReg.hiModGetNameById, ge_iff_le,
    ← maxNum_le_iff]
  by_cases hm : ids.modMaxNum ≤ m
  · rw [if_pos hm, if_pos hm]
    exact iff_of_true rfl rfl
  rw [if_neg hm, if_neg hm]
  have hlt : m < ids.modMaxNum := UInt32.not_le.mp hm
  have hrow := h.modInit.row (modInit_bModeInit ids t) m hlt
  -- the byte that is read is the first one of the name
  have hbyte : (t.modInit ids).byte ids (nameAddr m.toNat) =
      ((reg.modInit ids).modInfo m).aszModName.bytes.getD 0 0 := by
    have hfield := byte_name (t := t.modInit ids) ((lt_maxNum_iff ids m).mp hlt)
      (k := 0) (by decide)
    rw [Nat.add_zero, hrow] at hfield
    exact hfield
  simp only [strncmpBytes, hbyte, beq_iff_eq]
  constructor
  · intro hzero
    by_contra hne
    exact getD_ne_zero _ (List.length_pos_iff.mpr hne) hzero
  · intro hnil
    rw [hnil]
    rfl

/-- Registrations keep the rows together. -/
theorem Refines.registerAll (h : Refines ids t reg) (calls : List (UInt32 × Option CString)) :
    Refines ids (t.registerAll ids calls) (reg.registerAll ids calls) := by
  induction calls generalizing t reg with
  | nil => exact h
  | cons c calls ih => exact ih (h.hiModRegister c.1 c.2).2

/-- After any registrations of a program that starts, the memory manager gets the same
answers from both. -/
theorem unregistered_registerAll (ids : ModIds) (ht : t.bModeInit = false)
    (calls : List (UInt32 × Option CString)) (m : UInt32) :
    (t.registerAll ids calls).unregistered ids m.toNat =
      (ModReg.zeroed.registerAll ids calls).unregistered ids m :=
  ((refines_of_fresh ht rfl).registerAll calls).unregistered m

end ModTable
end Mem
end AndroidLinux
