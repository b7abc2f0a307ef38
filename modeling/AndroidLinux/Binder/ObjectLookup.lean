import AndroidLinux.Binder.ParcelRead

/-!
# The search for an object with a hint

`readObject` looks for the position among the objects from the hint on, and then back.
Neither loop leaves an entry out that may be the one: the first one stops at the end of the
list or at an entry that is not below the position, the second one passes only entries above
it.  So on an ascending list the hint is of no consequence.
-/

namespace AndroidLinux
namespace Binder

/-- An object that a writer has not put into the list. -/
def FlatBinderObject.isNull (o : FlatBinderObject) : Bool := o.cookie = 0 && o.binder = 0

namespace Parcel

/-! ## The two loops -/

/-- The entry at an index, as the loops read it. -/
def entry (objs : List UInt32) (i : Nat) : UInt32 := objs.getD i 0

theorem entry_eq {objs : List UInt32} {i : Nat} (hi : i < objs.length) :
    entry objs i = objs[i] := by
  rw [entry, List.getD_eq_getElem?_getD, List.getElem?_eq_getElem hi, Option.getD_some]

theorem entry_lt {objs : List UInt32} (hasc : objs.Pairwise (· < ·)) {i j : Nat} (hij : i < j)
    (hj : j < objs.length) : (entry objs i).toNat < (entry objs j).toNat := by
  have hi : i < objs.length := hij.trans hj
  rw [entry_eq hi, entry_eq hj]
  exact UInt32.lt_iff_toNat_lt.mp (List.pairwise_iff_getElem.mp hasc i j hi hj hij)

/-- The forward search stops at its last step or at an entry that is not below. -/
theorem searchForward_stops (objs : List UInt32) (dpos : UInt32) (fuel opos : Nat) :
    searchForward objs dpos fuel opos ≤ opos + fuel ∧
      (searchForward objs dpos fuel opos = opos + fuel ∨
        dpos.toNat ≤ (entry objs (searchForward objs dpos fuel opos)).toNat) := by
  induction fuel generalizing opos with
  | zero => exact ⟨le_rfl, .inl rfl⟩
  | succ fuel ih =>
      rw [searchForward]
      split
      · obtain ⟨hle, hstop⟩ := ih (opos + 1)
        refine ⟨by omega, hstop.imp_left fun heq => ?_⟩
        omega
      · rename_i hnot
        refine ⟨Nat.le_add_right opos _, .inr ?_⟩
        rw [UInt32.lt_iff_toNat_lt] at hnot
        exact Nat.le_of_not_lt hnot

/-- The backward search stops at the first entry or at one that is not above, and passes
entries above only. -/
theorem searchBackward_stops (objs : List UInt32) (dpos : UInt32) (opos : Nat) :
    searchBackward objs dpos opos ≤ opos ∧
      (searchBackward objs dpos opos = 0 ∨
        (entry objs (searchBackward objs dpos opos)).toNat ≤ dpos.toNat) ∧
      ∀ i, searchBackward objs dpos opos < i → i ≤ opos → dpos.toNat < (entry objs i).toNat := by
  induction opos with
  | zero =>
      refine ⟨le_rfl, .inl rfl, fun i hlo hhi => ?_⟩
      omega
  | succ opos ih =>
      rw [searchBackward]
      split
      · rename_i habove
        obtain ⟨hle, hstop, hpassed⟩ := ih
        refine ⟨by omega, hstop, fun i hlo hhi => ?_⟩
        rcases Nat.lt_or_eq_of_le hhi with hlt | rfl
        · exact hpassed i hlo (by omega)
        · exact UInt32.lt_iff_toNat_lt.mp habove
      · rename_i hnot
        rw [UInt32.lt_iff_toNat_lt] at hnot
        refine ⟨le_rfl, .inr (Nat.le_of_not_lt hnot), fun i hlo hhi => ?_⟩
        omega

/-- The index at which the forward search stops, or the last one for a hint beyond it. -/
def startOf (objs : List UInt32) (hint : Nat) (dpos : UInt32) : Nat :=
  if hint < objs.length then searchForward objs dpos (objs.length - 1 - hint) hint
  else objs.length - 1

theorem startOf_stops {objs : List UInt32} (hsome : objs ≠ []) (hint : Nat) (dpos : UInt32) :
    startOf objs hint dpos < objs.length ∧
      (startOf objs hint dpos = objs.length - 1 ∨
        dpos.toNat ≤ (entry objs (startOf objs hint dpos)).toNat) := by
  have hpos := List.length_pos_of_ne_nil hsome
  unfold startOf
  split
  · obtain ⟨hle, hstop⟩ := searchForward_stops objs dpos (objs.length - 1 - hint) hint
    refine ⟨by omega, hstop.imp_left fun heq => ?_⟩
    omega
  · exact ⟨by omega, .inl rfl⟩

theorem findObject_eq {objs : List UInt32} (hsome : objs ≠ []) (hint : Nat) (dpos : UInt32) :
    findObject objs hint dpos =
      if entry objs (startOf objs hint dpos) = dpos then some (startOf objs hint dpos)
      else if entry objs (searchBackward objs dpos (startOf objs hint dpos)) = dpos then
        some (searchBackward objs dpos (startOf objs hint dpos))
      else none := by
  rw [findObject, if_neg hsome]
  rfl

/-- What the search finds is there. -/
theorem mem_of_findObject {objs : List UInt32} {hint i : Nat} {dpos : UInt32}
    (h : findObject objs hint dpos = some i) : dpos ∈ objs := by
  have hsome : objs ≠ [] := by
    rintro rfl
    cases h
  have hmem : ∀ j, j < objs.length → entry objs j = dpos → dpos ∈ objs := fun j hj heq => by
    rw [← heq, entry_eq hj]
    exact List.getElem_mem hj
  have hstart := (startOf_stops hsome hint dpos).1
  have hback := (searchBackward_stops objs dpos (startOf objs hint dpos)).1
  rw [findObject_eq hsome] at h
  split at h
  · rename_i heq
    exact hmem _ hstart heq
  · split at h
    · rename_i heq
      exact hmem _ (by omega) heq
    · cases h

/-- A position in an ascending list is found with any hint. -/
theorem findObject_of_mem {objs : List UInt32} (hasc : objs.Pairwise (· < ·)) {dpos : UInt32}
    (hmem : dpos ∈ objs) (hint : Nat) : ∃ i, findObject objs hint dpos = some i := by
  have hsome : objs ≠ [] := List.ne_nil_of_mem hmem
  obtain ⟨k, hk, hentry⟩ := List.getElem_of_mem hmem
  rw [← entry_eq hk] at hentry
  obtain ⟨hstart, hstop⟩ := startOf_stops hsome hint dpos
  obtain ⟨hback, hstop', hpassed⟩ := searchBackward_stops objs dpos (startOf objs hint dpos)
  rw [findObject_eq hsome]
  split
  · exact ⟨_, rfl⟩
  · -- the entry is not behind the start, and the backward search does not pass it
    have hbefore : k ≤ startOf objs hint dpos := by
      by_contra hlt
      have hlt' := entry_lt hasc (Nat.lt_of_not_le hlt) hk
      rw [hentry] at hlt'
      omega
    have hreached : k ≤ searchBackward objs dpos (startOf objs hint dpos) := by
      by_contra hlt
      have habove := hpassed k (Nat.lt_of_not_le hlt) hbefore
      rw [hentry] at habove
      exact lt_irrefl _ habove
    have hhere : k = searchBackward objs dpos (startOf objs hint dpos) := by
      by_contra hne
      have hlt := entry_lt hasc (Nat.lt_of_le_of_ne hreached hne) (by omega)
      rw [hentry] at hlt
      omega
    rw [← hhere, if_pos hentry]
    exact ⟨k, rfl⟩

/-! ## Reading objects -/

/-- The calls between which the hint is kept. -/
inductive LookupCall
  | setDataPosition (pos : UInt32)
  | readObject (nullMetaData : Bool)

def LookupCall.run : LookupCall → Parcel → Parcel
  | .setDataPosition pos, p => p.setDataPosition pos
  | .readObject nullMetaData, p => (p.readObject nullMetaData).2

/-- Calls in their order. -/
def runLookups (calls : List LookupCall) (p : Parcel) : Parcel :=
  calls.foldl (fun q c => c.run q) p

/-- What reading leaves as it is. -/
structure SameContent (p q : Parcel) : Prop where
  bytes : q.bytes = p.bytes
  mObjects : q.mObjects = p.mObjects
  mDataSize : q.mDataSize = p.mDataSize

theorem SameContent.trans {p q r : Parcel} (h : SameContent p q) (h' : SameContent q r) :
    SameContent p r :=
  ⟨h'.bytes.trans h.bytes, h'.mObjects.trans h.mObjects, h'.mDataSize.trans h.mDataSize⟩

theorem sameContent_touch (p : Parcel) (limit off : UInt32) (n : Nat) :
    SameContent p (p.touch limit off n) := by
  unfold touch
  split <;> exact ⟨rfl, rfl, rfl⟩

theorem sameContent_readObject (p : Parcel) (nullMetaData : Bool) :
    SameContent p (p.readObject nullMetaData).2 := by
  obtain ⟨hbytes, hobjects, hsize⟩ := sameContent_touch p p.mDataSize p.mDataPos 16
  unfold readObject
  dsimp only
  split
  · split
    · exact ⟨hbytes, hobjects, hsize⟩
    · split <;> exact ⟨hbytes, hobjects, hsize⟩
  · exact ⟨rfl, rfl, rfl⟩

theorem sameContent_run (c : LookupCall) (p : Parcel) : SameContent p (c.run p) := by
  cases c with
  | setDataPosition pos => exact ⟨rfl, rfl, rfl⟩
  | readObject nullMetaData => exact sameContent_readObject p nullMetaData

theorem sameContent_runLookups (calls : List LookupCall) (p : Parcel) :
    SameContent p (runLookups calls p) := by
  induction calls generalizing p with
  | nil => exact ⟨rfl, rfl, rfl⟩
  | cons c calls ih => exact (sameContent_run c p).trans (ih (c.run p))

/-- Plain membership. -/
def Listed (p : Parcel) (nullMetaData : Bool) : Prop :=
  p.mDataPos ∈ p.mObjects ∨ nullMetaData = false ∧ (p.flatAt p.mDataPos).isNull = true

instance (p : Parcel) (nullMetaData : Bool) : Decidable (p.Listed nullMetaData) :=
  inferInstanceAs (Decidable (_ ∨ _))

/-- One call, with whatever hint. -/
theorem readObject_listed {p : Parcel} (hasc : p.mObjects.Pairwise (· < ·))
    (hwhole : p.mDataPos.toNat + 16 ≤ p.mDataSize.toNat) (nullMetaData : Bool) :
    (p.readObject nullMetaData).1 =
        (if p.Listed nullMetaData then some (p.flatAt p.mDataPos) else none) ∧
      (p.readObject nullMetaData).2.mDataPos.toNat = p.mDataPos.toNat + 16 := by
  have hpos : (p.mDataPos + 16).toNat = p.mDataPos.toNat + 16 := by
    have hlt := p.mDataSize.toNat_lt
    rw [UInt32.toNat_add]
    exact Nat.mod_eq_of_lt (by simp only [UInt32.toNat_ofNat]; omega)
  have hinside : p.mDataPos + 16 ≤ p.mDataSize := by
    rw [UInt32.le_iff_toNat_le, hpos]
    exact hwhole
  have hnull : (!nullMetaData && (p.flatAt p.mDataPos).cookie = 0 &&
      (p.flatAt p.mDataPos).binder = 0) = true ↔
      nullMetaData = false ∧ (p.flatAt p.mDataPos).isNull = true := by
    simp [FlatBinderObject.isNull, and_assoc]
  rw [readObject, if_pos hinside]
  dsimp only
  split
  · rename_i hnullObject
    exact ⟨(if_pos (.inr (hnull.mp hnullObject))).symm, hpos⟩
  · rename_i hother
    cases hfind : findObject p.mObjects p.mNextObjectHint.toNat p.mDataPos with
    | some opos => exact ⟨(if_pos (.inl (mem_of_findObject hfind))).symm, hpos⟩
    | none =>
        refine ⟨(if_neg ?_).symm, hpos⟩
        rintro (hmem | hlisted)
        · obtain ⟨i, hi⟩ := findObject_of_mem hasc hmem p.mNextObjectHint.toNat
          rw [hfind] at hi
          cases hi
        · exact hother (hnull.mpr hlisted)

/-- In every run of `setDataPosition` and `readObject` over an ascending list of objects, from
any hint, `readObject` at a position with a whole object left returns the object exactly when
it is listed, and moves on behind it. -/
theorem readObject_plain_membership (p : Parcel) (hasc : p.mObjects.Pairwise (· < ·))
    (calls : List LookupCall) (nullMetaData : Bool)
    (hwhole : (runLookups calls p).mDataPos.toNat + 16 ≤ (runLookups calls p).mDataSize.toNat) :
    let q := runLookups calls p
    (q.readObject nullMetaData).1 =
        (if q.mDataPos ∈ p.mObjects ∨ nullMetaData = false ∧ (p.flatAt q.mDataPos).isNull = true
          then some (p.flatAt q.mDataPos) else none) ∧
      (q.readObject nullMetaData).2.mDataPos.toNat = q.mDataPos.toNat + 16 := by
  have hsame := sameContent_runLookups calls p
  have hflat : ∀ off, (runLookups calls p).flatAt off = p.flatAt off := fun off => by
    rw [flatAt, flatAt, hsame.bytes]
  have hlisted := readObject_listed (hsame.mObjects.symm ▸ hasc) hwhole nullMetaData
  simp only [Listed, hsame.mObjects, hflat] at hlisted
  exact hlisted

/-- Three objects, with a hint behind the end of the list. -/
def threeObjects : Parcel :=
  { rawParcel roomyProcess with mDataSize := 64, mObjects := [0, 20, 40], mNextObjectHint := 9 }

def backAndForth : List LookupCall :=
  [.readObject true, .setDataPosition 40, .readObject true, .setDataPosition 20]

theorem readObject_plain_membership_threeObjects :
    (runLookups backAndForth threeObjects).mDataPos.toNat + 16 ≤ 64 ∧
      ((runLookups backAndForth threeObjects).readObject true).2.mDataPos.toNat =
        (runLookups backAndForth threeObjects).mDataPos.toNat + 16 :=
  ⟨by decide +kernel, (readObject_plain_membership threeObjects (by decide) backAndForth true
    (by decide +kernel)).2⟩

end Parcel
end Binder
end AndroidLinux
