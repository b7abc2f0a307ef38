import AndroidLinux.Mem.ModTable

/-!
# The names of the modules

A run of calls on the module registry, with the name under which each id was registered
first as history.  `HI_MOD_GetNameById` and `HI_MOD_GetIdByName` are the map of this history
as long as no call registers an id below `HI_MOD_ID_NULL`, for which nothing is stored, and
every name that fills its field has a zero byte behind it.
-/

namespace AndroidLinux
namespace Mem

open Lib

/-- The registry, and the name under which each id was registered first. -/
structure ModRun where
  table : ModTable
  named : Nat → Option CString

/-- The calls of the interface. -/
inductive ModCall
  | register (u32ModId : Nat) (pszModName : Option CString)
  | getNameById (u32ModID : Nat)
  | getIdByName (pszModName : Option CString)

namespace ModRun

variable (ids : ModIds)

/-- One call.  A call that returns `HI_SUCCESS` for an id without a name names it. -/
def step (s : ModRun) : ModCall → ModRun
  | .register id pszModName =>
      let r := s.table.hiModRegister ids id pszModName
      { table := r.2
        named :=
          if r.1 = .success ∧ s.named id = none then Function.update s.named id pszModName
          else s.named }
  | .getNameById id => { s with table := (s.table.hiModGetNameById ids id).2 }
  | .getIdByName pszModName => { s with table := (s.table.hiModGetIdByName ids pszModName).2 }

/-- The runs of a program: `HI_MOD_ID_NULL` has its name from the start. -/
def machine : Machine ModRun ModCall where
  init s := s.table.bModeInit = false ∧
    s.named = Function.update (fun _ => none) ids.firstId (some ModReg.modNullName)
  step s c := some (s.step ids c)

/-- The registry is the map of the names. -/
structure IsMap (s : ModRun) : Prop where
  nameById : ∀ id name, s.named id = some name →
    ∃ a, (s.table.hiModGetNameById ids id).1 = some a ∧
      (s.table.hiModGetNameById ids id).2.IsString ids a name
  idByName : ∀ id name, s.named id = some name →
    (∀ id', s.named id' = some name → id' = id) →
    (s.table.hiModGetIdByName ids (some name)).1 = (.success, some id)
  /-- What is registered stays. -/
  stays : ∀ c id name, s.named id = some name → (s.step ids c).named id = some name

/-- The byte behind the name field of a row is zero, in a registered row. -/
def NulBehind (t : ModTable) (id : Nat) : Prop :=
  id + 1 < ids.maxNum ∧ (t.row (id + 1)).byte 0 = 0

/-- A call that names an id does so for an id from `HI_MOD_ID_NULL` on, and with a name
that leaves a byte of its field or has a zero byte behind the field. -/
def Kept (s : ModRun) : ModCall → Prop
  | .register id (some name) =>
      id < ids.maxNum → name.bytes ≠ [] → name.strlen ≤ modNameLen → s.named id = none →
        ids.firstId ≤ id ∧
          (name.strlen = modNameLen → NulBehind ids (s.table.modInit ids) id)
  | _ => True

/-- The row of an id, from its name. -/
def rowOf (named : Nat → Option CString) (id : Nat) : ModRow :=
  if id < ids.firstId then ⟨0, zeroName⟩
  else
    match named id with
    | none => ⟨invalidId, zeroName⟩
    | some name => ⟨id, copyName name.bytes zeroName⟩

/-- A name fits in its field, and there is a NUL in or behind the field. -/
structure Fits (t : ModTable) (id : Nat) (name : CString) : Prop where
  low : ids.firstId ≤ id
  high : id < ids.maxNum
  nonempty : name.bytes ≠ []
  length : name.strlen ≤ modNameLen
  behind : name.strlen = modNameLen → NulBehind ids t id

/-- The table is determined by the names. -/
structure Inv (s : ModRun) : Prop where
  row : ∀ id, id < ids.maxNum → (s.table.modInit ids).row id = rowOf ids s.named id
  fits : ∀ id name, s.named id = some name → Fits ids (s.table.modInit ids) id name

variable {ids} {s : ModRun}

theorem maxNum_le (ids : ModIds) : ids.maxNum ≤ invalidId := by
  have hbound := ids.bound
  unfold ModIds.maxNum ModIds.firstId invalidId
  omega

theorem rowOf_some {named : Nat → Option CString} {id : Nat} {name : CString}
    (hlow : ids.firstId ≤ id) (hnamed : named id = some name) :
    rowOf ids named id = ⟨id, copyName name.bytes zeroName⟩ := by
  simp [rowOf, Nat.not_lt.mpr hlow, hnamed]

theorem rowOf_none {named : Nat → Option CString} {id : Nat}
    (hlow : ids.firstId ≤ id) (hnamed : named id = none) :
    rowOf ids named id = ⟨invalidId, zeroName⟩ := by
  simp [rowOf, Nat.not_lt.mpr hlow, hnamed]

theorem inv_init (h : (machine ids).init s) : Inv ids s := by
  obtain ⟨hinit, hnamed⟩ := h
  constructor
  · intro id hid
    simp only [ModTable.modInit, hinit, Bool.false_eq_true, if_false, hnamed, rowOf,
      ModTable.printName_zeroName]
    -- the row of `HI_MOD_ID_NULL`, a zeroed row, or a free one
    by_cases hnull : id = ids.firstId
    · subst hnull
      simp
    · rw [Function.update_of_ne hnull]
      by_cases hlow : id < ids.firstId
      · simp [hnull, hlow, Nat.not_le.mpr hlow]
      · rw [if_neg hnull, if_neg hlow, if_pos ⟨Nat.le_of_not_lt hlow, hid⟩]
        rfl
  · intro id name hname
    rw [hnamed] at hname
    by_cases hnull : id = ids.firstId
    · subst hnull
      rw [Function.update_self, Option.some.injEq] at hname
      subst hname
      exact ⟨Nat.le_refl _, by unfold ModIds.maxNum; omega, by decide, by decide,
        fun h => absurd h (by decide)⟩
    · rw [Function.update_of_ne hnull] at hname
      cases hname

/-- The first byte of a free row is not zero. -/
theorem byte_invalid (field : Nat → UInt8) : (ModRow.mk invalidId field).byte 0 ≠ 0 := by
  rw [ModRow.byte, if_pos (by decide)]
  simp only [invalidId]
  decide

/-- A row whose id has no name is not behind a name that fills its field. -/
theorem Inv.nulBehind_storeRow (h : Inv ids s) {id id' : Nat} {name : CString}
    (hid : ids.firstId ≤ id) (hfree : s.named id = none)
    (hnul : NulBehind ids (s.table.modInit ids) id') :
    NulBehind ids ((s.table.modInit ids).storeRow id name) id' := by
  obtain ⟨hlt, hbyte⟩ := hnul
  have hne : id' + 1 ≠ id := by
    rintro rfl
    rw [h.row _ hlt, rowOf_none hid hfree] at hbyte
    exact byte_invalid _ hbyte
  refine ⟨hlt, ?_⟩
  simp only [ModTable.storeRow, Function.update_of_ne hne]
  exact hbyte

theorem Inv.register (h : Inv ids s) (id : Nat) (pszModName : Option CString)
    (hkept : Kept ids s (.register id pszModName)) :
    Inv ids (s.step ids (.register id pszModName)) := by
  rcases ModTable.hiModRegister_cases ids s.table id pszModName with
    ⟨hret, htable⟩ | ⟨name, rfl, hid, hne, hlen, hret, hrow⟩
  · -- refused: nothing changes
    simp only [step, hret, htable, false_and, if_false]
    exact h
  · have hinvalid : id ≠ invalidId := Nat.ne_of_lt (lt_of_lt_of_le hid (maxNum_le ids))
    cases hnamed : s.named id with
    | some name' =>
        -- the id has its row already
        have hrowId := h.row id hid
        rw [rowOf_some (h.fits id name' hnamed).low hnamed] at hrowId
        have htable : (s.table.hiModRegister ids id (some name)).2 = s.table.modInit ids := by
          rcases hrow with ⟨-, htable⟩ | ⟨hfree, -⟩
          · exact htable
          · rw [hrowId] at hfree
            exact absurd hfree hinvalid
        simp only [step, htable, hnamed, reduceCtorEq, and_false, if_false]
        exact ⟨by simpa using h.row, by simpa using h.fits⟩
    | none =>
        obtain ⟨hlow, hnul⟩ := hkept hid hne hlen hnamed
        have hrowId := h.row id hid
        rw [rowOf_none hlow hnamed] at hrowId
        have htable : (s.table.hiModRegister ids id (some name)).2 =
            (s.table.modInit ids).storeRow id name := by
          rcases hrow with ⟨htaken, -⟩ | ⟨-, htable⟩
          · rw [hrowId] at htaken
            exact absurd rfl htaken
          · exact htable
        have hinit : ((s.table.modInit ids).storeRow id name).bModeInit = true :=
          ModTable.modInit_bModeInit ids s.table
        simp only [step, htable, hret, hnamed, and_self, if_true]
        constructor
        · intro id' hid'
          rw [ModTable.modInit_eq_self hinit]
          simp only [ModTable.storeRow]
          by_cases hsame : id' = id
          · subst hsame
            rw [Function.update_self, rowOf_some hlow (Function.update_self ..), hrowId]
          · rw [Function.update_of_ne hsame, h.row id' hid']
            simp only [rowOf, Function.update_of_ne hsame]
        · intro id' name' hname'
          change Function.update s.named id (some name) id' = some name' at hname'
          rw [ModTable.modInit_eq_self hinit]
          by_cases hsame : id' = id
          · subst hsame
            rw [Function.update_self, Option.some.injEq] at hname'
            subst hname'
            exact ⟨hlow, hid, hne, hlen, fun hfull =>
              h.nulBehind_storeRow hlow hnamed (hnul hfull)⟩
          · rw [Function.update_of_ne hsame] at hname'
            have hfits := h.fits id' name' hname'
            exact ⟨hfits.low, hfits.high, hfits.nonempty, hfits.length, fun hfull =>
              h.nulBehind_storeRow hlow hnamed (hfits.behind hfull)⟩

/-- A call that does no more than `MOD_Init`. -/
theorem Inv.modInit (h : Inv ids s) : Inv ids { s with table := s.table.modInit ids } :=
  ⟨by simpa using h.row, by simpa using h.fits⟩

theorem inv_step (c : ModCall) (h : Inv ids s) (hkept : Kept ids s c) :
    Inv ids (s.step ids c) := by
  cases c with
  | register id pszModName => exact h.register id pszModName hkept
  | getNameById id => exact h.modInit
  | getIdByName pszModName =>
      cases pszModName with
      | none => exact h
      | some name =>
          have htable : (s.table.hiModGetIdByName ids (some name)).2 = s.table.modInit ids := by
            simp only [ModTable.hiModGetIdByName]
            split <;> rfl
          simp only [step, htable]
          exact h.modInit

theorem inv_of_reach (hreach : (machine ids).ReachWhen (Kept ids) s) : Inv ids s := by
  refine hreach.invariant (I := Inv ids) (fun _ => inv_init) fun s c s' h hkept hstep => ?_
  cases hstep
  exact inv_step c h hkept

/-! ## What the interface returns -/

/-- The name field of a named row. -/
theorem Inv.byte_name (h : Inv ids s) {id : Nat} {name : CString}
    (hnamed : s.named id = some name) {k : Nat} (hk : k < modNameLen) :
    (s.table.modInit ids).byte ids (ModTable.nameAddr id + k) = name.bytes.getD k 0 := by
  have hfits := h.fits id name hnamed
  rw [ModTable.byte_name hfits.high hk, h.row id hfits.high, rowOf_some hfits.low hnamed]
  rfl

theorem Inv.isString (h : Inv ids s) {id : Nat} {name : CString}
    (hnamed : s.named id = some name) :
    (s.table.modInit ids).IsString ids (ModTable.nameAddr id) name := by
  have hfits := h.fits id name hnamed
  intro k hk
  rcases Nat.lt_or_ge k modNameLen with hin | hbehind
  · exact h.byte_name hnamed hin
  · -- the name fills its field, and `k` is the byte behind it
    have hlen := hfits.length
    have hfull : name.strlen = modNameLen := by omega
    obtain ⟨hlt, hzero⟩ := hfits.behind hfull
    have hk' : k = modNameLen := by omega
    subst hk'
    rw [ModTable.byte_behind hlt, hzero, List.getD_eq_default]
    exact Nat.le_of_eq hfull

/-- The loop of `HI_MOD_GetIdByName` stops at the rows with the name. -/
theorem Inv.found_iff (h : Inv ids s) {id : Nat} {name : CString} (hid : id < ids.maxNum)
    (hne : name.bytes ≠ []) (hlen : name.strlen ≤ modNameLen) :
    (s.table.modInit ids).found ids name id = true ↔ s.named id = some name := by
  have hpos : 0 < name.strlen := List.length_pos_iff.mpr hne
  have hmodNameLen : modNameLen = 32 := rfl
  simp only [ModTable.found, Bool.and_eq_true, bne_iff_ne, ModTable.strncmpBytes_iff]
  constructor
  · rintro ⟨hvalid, hbytes⟩
    have hrow := h.row id hid
    rcases Nat.lt_or_ge id ids.firstId with hlow | hlow
    · -- a row in front of `HI_MOD_ID_NULL` is zero
      have hfirst := hbytes 0 (by omega) (Nat.zero_le _)
      rw [ModTable.byte_name hid (by omega), hrow, rowOf, if_pos hlow] at hfirst
      exact absurd hfirst.symm (ModTable.getD_ne_zero name hpos)
    · cases hnamed : s.named id with
      | none =>
          rw [hrow, rowOf_none hlow hnamed] at hvalid
          exact absurd rfl hvalid
      | some name' =>
          congr 1
          refine ModTable.eq_of_getD (h.fits id name' hnamed).length hlen fun k hk hle => ?_
          rw [← h.byte_name hnamed hk]
          exact hbytes k hk hle
  · intro hnamed
    have hfits := h.fits id name hnamed
    constructor
    · rw [h.row id hid, rowOf_some hfits.low hnamed]
      exact Nat.ne_of_lt (lt_of_lt_of_le hid (maxNum_le ids))
    · exact fun k hk _ => h.byte_name hnamed hk

theorem stays_step (s : ModRun) (c : ModCall) {id : Nat} {name : CString}
    (hnamed : s.named id = some name) : (s.step ids c).named id = some name := by
  cases c with
  | register id' pszModName =>
      simp only [step]
      split
      · next hnew =>
          rw [Function.update_of_ne, hnamed]
          rintro rfl
          rw [hnamed] at hnew
          cases hnew.2
      · exact hnamed
  | getNameById _ => exact hnamed
  | getIdByName _ => exact hnamed

theorem Inv.isMap (h : Inv ids s) : IsMap ids s where
  nameById id name hnamed := by
    have hfits := h.fits id name hnamed
    refine ⟨ModTable.nameAddr id, ?_, h.isString hnamed⟩
    simp only [ModTable.hiModGetNameById, if_neg (Nat.not_le.mpr hfits.high)]
  idByName id name hnamed honly := by
    have hfits := h.fits id name hnamed
    -- the loop takes the first row with the name, and there is no other one
    have hfind : (List.range ids.maxNum).find? ((s.table.modInit ids).found ids name) =
        some id := by
      rw [List.find?_range_eq_some]
      refine ⟨(h.found_iff hfits.high hfits.nonempty hfits.length).mpr hnamed,
        List.mem_range.mpr hfits.high, fun j hj => ?_⟩
      rw [Bool.not_eq_true', ← Bool.not_eq_true,
        h.found_iff (hj.trans hfits.high) hfits.nonempty hfits.length]
      intro hnamed'
      exact Nat.ne_of_lt hj (honly j hnamed')
    simp only [ModTable.hiModGetIdByName, hfind]
  stays c id name := stays_step s c

/-- As long as every call that names an id keeps to the rows and fields of the table, the
registry is the map of the names. -/
theorem isMap_of_kept (hreach : (machine ids).ReachWhen (Kept ids) s) : IsMap ids s :=
  (inv_of_reach hreach).isMap

/-! ## Runs -/

theorem oldIds_bound : (0xB0 : UInt32).toNat + 100 < 2 ^ 32 := by
  decide

/-- `HI_MOD_ID_NULL` of the versions before 3.1. -/
def oldIds : ModIds where
  modIdNull := 0xB0
  bound := oldIds_bound

/-- A program that starts, with a zeroed table. -/
def startRun : ModRun where
  table := ⟨false, fun _ => ⟨0, zeroName⟩, fun _ => 0⟩
  named := Function.update (fun _ => none) oldIds.firstId (some ModReg.modNullName)

/-- `"cam"`. -/
def camName : CString :=
  ⟨[99, 97, 109], by decide⟩

/-- A name of `HI_MOD_NAME_LEN` bytes. -/
def fullName : CString :=
  ⟨List.replicate modNameLen 97, by decide⟩

/-- After one registration. -/
def oneCall (id : Nat) (name : CString) : ModRun :=
  startRun.step oldIds (.register id (some name))

/-- `"mic"`. -/
def micName : CString :=
  ⟨[109, 105, 99], by decide⟩

/-- After the registration of a camera and a microphone. -/
def twoCalls : ModRun :=
  (oneCall 0xB1 camName).step oldIds (.register 0xB2 (some micName))

/-- The names stay when the camera is registered again under another name. -/
theorem isMap_camera :
    let s := twoCalls.step oldIds (.register 0xB1 (some micName))
    s.named 0xB1 = some camName ∧ s.named 0xB2 = some micName ∧ IsMap oldIds s := by
  have hone : (machine oldIds).ReachWhen (Kept oldIds) (oneCall 0xB1 camName) := by
    refine .step (.init ⟨rfl, rfl⟩) ?_
      (show (machine oldIds).step startRun (.register 0xB1 (some camName)) = _ from rfl)
    exact fun _ _ _ _ => ⟨by decide, fun hfull => absurd hfull (by decide)⟩
  have htwo : (machine oldIds).ReachWhen (Kept oldIds) twoCalls := by
    refine .step hone ?_
      (show (machine oldIds).step _ (.register 0xB2 (some micName)) = some twoCalls from rfl)
    exact fun _ _ _ _ => ⟨by decide, fun hfull => absurd hfull (by decide)⟩
  refine ⟨rfl, rfl, isMap_of_kept (.step htwo ?_
    (show (machine oldIds).step twoCalls (.register 0xB1 (some micName)) = _ from rfl))⟩
  -- the camera has its name already
  intro _ _ _ hnew
  have hnamed : twoCalls.named 0xB1 = some camName := rfl
  rw [hnamed] at hnew
  cases hnew

/-- A name for an id below `HI_MOD_ID_NULL` is not stored, and a name that fills its field
runs on in the next row. -/
theorem names_lost :
    ((machine oldIds).Reach (oneCall 5 camName) ∧ ¬ IsMap oldIds (oneCall 5 camName)) ∧
      ((machine oldIds).Reach (oneCall 0xB1 fullName) ∧
        ¬ IsMap oldIds (oneCall 0xB1 fullName)) := by
  refine ⟨⟨.step (.init ⟨rfl, rfl⟩) trivial rfl, fun hmap => ?_⟩,
    ⟨.step (.init ⟨rfl, rfl⟩) trivial rfl, fun hmap => ?_⟩⟩
  · obtain ⟨a, haddr, hstring⟩ := hmap.nameById 5 camName rfl
    cases haddr
    exact absurd (hstring 0 (by decide)) (by decide)
  · obtain ⟨a, haddr, hstring⟩ := hmap.nameById 0xB1 fullName rfl
    cases haddr
    exact absurd (hstring 32 (by decide)) (by decide)

end ModRun
end Mem
end AndroidLinux
