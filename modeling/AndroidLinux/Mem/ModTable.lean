import Mathlib.Data.List.GetD
import AndroidLinux.Lib.Transition
import AndroidLinux.Mem.ModReg

/-!
# The bytes of the module registry

`ModReg` takes the name of a row for a string.  In `s_astModInfo` it is a field of
`HI_MOD_NAME_LEN` bytes, and `HI_MOD_Register` copies a name of up to that length without
its NUL.  A caller that reads the name which `HI_MOD_GetNameById` returns reads on in the
next row when the field has no NUL.  `ModTable` is the table with all its bytes.

Ids are the numbers below `2 ^ 32`, and addresses are offsets in `s_astModInfo`.
-/

namespace AndroidLinux
namespace Mem

open Lib

/-- `HI_MOD_ID_NULL`, as a number. -/
def ModIds.firstId (ids : ModIds) : Nat :=
  ids.modIdNull.toNat

/-- `HI_MOD_MAX_NUM`, as a number. -/
def ModIds.maxNum (ids : ModIds) : Nat :=
  ids.firstId + 100

/-- `HI_MOD_INVALID_ID`, as a `HI_U32`. -/
def invalidId : Nat := 0xFFFFFFFF

/-- `MOD_INFO_S`. -/
structure ModRow where
  u32ModId : Nat
  aszModName : Nat → UInt8

/-- `sizeof(MOD_INFO_S)`. -/
def modInfoSize : Nat := 36

/-- A field of zeros. -/
def zeroName : Nat → UInt8 :=
  fun _ => 0

/-- `memcpy` of some bytes to the front of a field. -/
def copyName (bytes : List UInt8) (field : Nat → UInt8) : Nat → UInt8 :=
  fun k => bytes.getD k (field k)

/-- `snprintf` with `"%s"`, of a string that fits. -/
def printName (name : CString) (field : Nat → UInt8) : Nat → UInt8 :=
  copyName (name.bytes ++ [0]) field

/-- The bytes of a row, the id in front. -/
def ModRow.byte (r : ModRow) (k : Nat) : UInt8 :=
  if k < 4 then UInt8.ofNat (r.u32ModId / 256 ^ k) else r.aszModName (k - 4)

/-- `!strncmp(s, name, n)` for the bytes of `name`, none of which is NUL. -/
def strncmpBytes (mem : Nat → UInt8) : Nat → Nat → List UInt8 → Bool
  | _, 0, _ => true
  | s, _ + 1, [] => mem s == 0
  | s, n + 1, b :: bs => mem s == b && strncmpBytes mem (s + 1) n bs

/-- `s_bMode_init`, `s_astModInfo` and the memory behind it. -/
structure ModTable where
  bModeInit : Bool
  row : Nat → ModRow
  behind : Nat → UInt8

namespace ModTable

/-- The byte at an address. -/
def byte (ids : ModIds) (t : ModTable) (a : Nat) : UInt8 :=
  if a < ids.maxNum * modInfoSize then (t.row (a / modInfoSize)).byte (a % modInfoSize)
  else t.behind (a - ids.maxNum * modInfoSize)

/-- The address of `s_astModInfo[i].aszModName`. -/
def nameAddr (i : Nat) : Nat :=
  i * modInfoSize + 4

/-- `MOD_Init`. -/
def modInit (ids : ModIds) (t : ModTable) : ModTable :=
  if t.bModeInit then t
  else
    { t with
      bModeInit := true
      row := fun i =>
        if i = ids.firstId then ⟨ids.firstId, printName ModReg.modNullName zeroName⟩
        else if ids.firstId ≤ i ∧ i < ids.maxNum then
          ⟨invalidId, printName CString.empty zeroName⟩
        -- the loop does not come to the rows in front of `HI_MOD_ID_NULL`
        else ⟨0, zeroName⟩ }

/-- `HI_MOD_GetNameById`: an address in the table, or `none` for the literal `""`. -/
def hiModGetNameById (ids : ModIds) (t : ModTable) (u32ModID : Nat) : Option Nat × ModTable :=
  let t := t.modInit ids
  (if u32ModID ≥ ids.maxNum then none else some (nameAddr u32ModID), t)

/-- The test of the loop of `HI_MOD_GetIdByName`. -/
def found (ids : ModIds) (t : ModTable) (name : CString) (i : Nat) : Bool :=
  (t.row i).u32ModId != invalidId &&
    strncmpBytes (t.byte ids) (nameAddr i) modNameLen name.bytes

/-- `HI_MOD_GetIdByName`: its result and what it stores in `*pu32ModId`. -/
def hiModGetIdByName (ids : ModIds) (t : ModTable) (pszModName : Option CString) :
    (HiRet × Option Nat) × ModTable :=
  match pszModName with
  | none => ((.failure, none), t)
  | some name =>
      let t := t.modInit ids
      match (List.range ids.maxNum).find? (t.found ids name) with
      | some i => ((.success, some i), t)
      | none => ((.failure, some ids.firstId), t)

/-- Fill the row of a module: its id, and the bytes of the name without the NUL. -/
def storeRow (t : ModTable) (u32ModId : Nat) (name : CString) : ModTable :=
  { t with
    row := Function.update t.row u32ModId
      ⟨u32ModId, copyName name.bytes (t.row u32ModId).aszModName⟩ }

/-- `HI_MOD_Register`; `none` is a null pointer. -/
def hiModRegister (ids : ModIds) (t : ModTable) (u32ModId : Nat)
    (pszModName : Option CString) : HiRet × ModTable :=
  if u32ModId ≥ ids.maxNum then (.einval, t)
  else
    match pszModName with
    | none => (.failure, t)
    | some name =>
        if CString.strncmpEq modNameLen name CString.empty then (.failure, t)
        else if modNameLen < name.strlen then (.failure, t)
        else
          let t := t.modInit ids
          if invalidId ≠ (t.row u32ModId).u32ModId then (.success, t)
          else (.success, t.storeRow u32ModId name)

/-- A caller that reads from `a` on reads the string `s`. -/
def IsString (ids : ModIds) (t : ModTable) (a : Nat) (s : CString) : Prop :=
  ∀ k, k ≤ s.strlen → t.byte ids (a + k) = s.bytes.getD k 0

/-! ## The fields -/

variable {ids : ModIds} {t : ModTable} {name : CString} {i : Nat}

@[simp] theorem modInit_bModeInit (ids : ModIds) (t : ModTable) :
    (t.modInit ids).bModeInit = true := by
  unfold modInit
  split
  · assumption
  · rfl

theorem modInit_eq_self (h : t.bModeInit = true) : t.modInit ids = t := by
  simp [modInit, h]

@[simp] theorem modInit_modInit : (t.modInit ids).modInit ids = t.modInit ids :=
  modInit_eq_self (modInit_bModeInit ids t)

/-- A byte of a name field. -/
theorem byte_name (hi : i < ids.maxNum) {k : Nat} (hk : k < modNameLen) :
    t.byte ids (nameAddr i + k) = (t.row i).aszModName k := by
  unfold modNameLen at hk
  have haddr : nameAddr i + k < ids.maxNum * modInfoSize := by
    unfold nameAddr modInfoSize
    omega
  have hrow : (nameAddr i + k) / modInfoSize = i := by
    unfold nameAddr modInfoSize
    omega
  have hbyte : (nameAddr i + k) % modInfoSize = k + 4 := by
    unfold nameAddr modInfoSize
    omega
  rw [byte, if_pos haddr, hrow, hbyte, ModRow.byte, if_neg (by omega), Nat.add_sub_cancel]

/-- The byte behind a name field is the first one of the next row. -/
theorem byte_behind (hi : i + 1 < ids.maxNum) :
    t.byte ids (nameAddr i + modNameLen) = (t.row (i + 1)).byte 0 := by
  have haddr : nameAddr i + modNameLen < ids.maxNum * modInfoSize := by
    unfold nameAddr modInfoSize modNameLen
    omega
  have hrow : (nameAddr i + modNameLen) / modInfoSize = i + 1 := by
    unfold nameAddr modInfoSize modNameLen
    omega
  have hbyte : (nameAddr i + modNameLen) % modInfoSize = 0 := by
    unfold nameAddr modInfoSize modNameLen
    omega
  rw [byte, if_pos haddr, hrow, hbyte]

theorem printName_zeroName (name : CString) :
    printName name zeroName = copyName name.bytes zeroName := by
  funext k
  simp only [printName, copyName, zeroName, List.getD_eq_getElem?_getD, List.getElem?_append]
  split
  · rfl
  · next hk =>
      rw [List.getElem?_eq_none (Nat.le_of_not_lt hk)]
      rcases Nat.eq_zero_or_pos (k - name.bytes.length) with hzero | hpos
      · simp [hzero]
      · rw [List.getElem?_eq_none (by simp only [List.length_singleton]; omega)]

/-- `strncmp` compares up to and with the NUL of the name. -/
theorem strncmpBytes_iff (mem : Nat → UInt8) (s n : Nat) (bs : List UInt8) :
    strncmpBytes mem s n bs = true ↔
      ∀ k, k < n → k ≤ bs.length → mem (s + k) = bs.getD k 0 := by
  induction n generalizing s bs with
  | zero => simp [strncmpBytes]
  | succ n ih =>
      cases bs with
      | nil =>
          simp only [strncmpBytes, beq_iff_eq]
          constructor
          · intro h k _ hk
            have hzero : k = 0 := by simpa using hk
            simp [hzero, h]
          · intro h
            simpa using h 0 (by omega) (by simp)
      | cons b bs =>
          simp only [strncmpBytes, Bool.and_eq_true, beq_iff_eq, ih]
          constructor
          · rintro ⟨hfirst, hrest⟩ k hk hlen
            cases k with
            | zero => simpa using hfirst
            | succ k =>
                have hbyte := hrest k (by omega) (by simpa using hlen)
                rw [Nat.add_right_comm, Nat.add_assoc] at hbyte
                simpa using hbyte
          · intro h
            refine ⟨by simpa using h 0 (by omega) (by simp), fun k hk hlen => ?_⟩
            have hbyte := h (k + 1) (by omega) (by simpa using hlen)
            rw [Nat.add_right_comm, Nat.add_assoc]
            simpa using hbyte

theorem getD_ne_zero (name : CString) {k : Nat} (hk : k < name.strlen) :
    name.bytes.getD k 0 ≠ 0 := by
  unfold CString.strlen at hk
  rw [List.getD_eq_getElem _ _ hk]
  intro hzero
  exact name.noNul (hzero ▸ List.getElem_mem hk)

/-- Two names of which neither is longer than the field are told apart by `strncmp`. -/
theorem eq_of_getD {a b : CString} (ha : a.strlen ≤ modNameLen) (hb : b.strlen ≤ modNameLen)
    (h : ∀ k, k < modNameLen → k ≤ b.strlen → a.bytes.getD k 0 = b.bytes.getD k 0) : a = b := by
  -- the NUL of a shorter name would be a byte of the longer one
  have hge : b.strlen ≤ a.strlen := by
    by_contra hlt
    have hbyte := h a.strlen (by omega) (by omega)
    rw [List.getD_eq_default _ _ (Nat.le_refl a.strlen)] at hbyte
    exact getD_ne_zero b (by omega) hbyte.symm
  have hle : a.strlen ≤ b.strlen := by
    by_contra hlt
    have hbyte := h b.strlen (by omega) (Nat.le_refl _)
    rw [List.getD_eq_default b.bytes _ (Nat.le_refl b.strlen)] at hbyte
    exact getD_ne_zero a (by omega) hbyte
  refine CString.ext_bytes (List.ext_getElem (Nat.le_antisymm hle hge) fun k hka hkb => ?_)
  have hbyte := h k (lt_of_lt_of_le hkb hb) (Nat.le_of_lt hkb)
  rwa [List.getD_eq_getElem _ _ hka, List.getD_eq_getElem _ _ hkb] at hbyte

/-- What a call of `HI_MOD_Register` does: it is refused, it finds the row taken, or it
fills the row. -/
theorem hiModRegister_cases (ids : ModIds) (t : ModTable) (id : Nat) (pszModName : Option CString) :
    ((t.hiModRegister ids id pszModName).1 ≠ .success ∧
        (t.hiModRegister ids id pszModName).2 = t) ∨
      ∃ name, pszModName = some name ∧ id < ids.maxNum ∧ name.bytes ≠ [] ∧
        name.strlen ≤ modNameLen ∧ (t.hiModRegister ids id pszModName).1 = .success ∧
        (((t.modInit ids).row id).u32ModId ≠ invalidId ∧
            (t.hiModRegister ids id pszModName).2 = t.modInit ids ∨
          ((t.modInit ids).row id).u32ModId = invalidId ∧
            (t.hiModRegister ids id pszModName).2 = (t.modInit ids).storeRow id name) := by
  unfold hiModRegister
  split
  · exact .inl ⟨by simp, rfl⟩
  · next hid =>
      cases pszModName with
      | none => exact .inl ⟨by simp, rfl⟩
      | some name =>
          simp only
          split
          · exact .inl ⟨by simp, rfl⟩
          · next hne =>
              rw [ModReg.strncmpEq_empty (by decide)] at hne
              split
              · exact .inl ⟨by simp, rfl⟩
              · next hlen =>
                  right
                  refine ⟨name, rfl, Nat.lt_of_not_ge hid, hne, Nat.le_of_not_lt hlen, ?_⟩
                  split
                  · next htaken => exact ⟨rfl, .inl ⟨htaken.symm, rfl⟩⟩
                  · next hfree => exact ⟨rfl, .inr ⟨(not_not.mp hfree).symm, rfl⟩⟩

end ModTable
end Mem
end AndroidLinux
