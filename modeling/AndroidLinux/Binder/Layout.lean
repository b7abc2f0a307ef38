import AndroidLinux.Binder.Parts

/-!
# Where the parts of a write go

Whether a part finds room depends on the position, the sizes, the owner, the table and the
answers of the system, but not on bytes or references.  `Alike` says that two Parcels agree
in this.  `Part.after` is what a part that succeeds makes of a Parcel, up to `Alike`, so that
a condition on all parts of an operation is one on the Parcel in front of it.
-/

namespace AndroidLinux
namespace Binder

open Lib

namespace Parcel

variable {p q r : Parcel}

/-- Later writes find the same room in `q` as in `p`. -/
def Alike (p q : Parcel) : Prop :=
  q = { p with
    mError := q.mError
    bytes := q.bytes
    mNextObjectHint := q.mNextObjectHint
    mFdsKnown := q.mFdsKnown
    mHasFds := q.mHasFds
    extent := q.extent
    objectsExtent := q.objectsExtent
    proc := { q.proc with answers := p.proc.answers } }

theorem Alike.refl (p : Parcel) : Alike p p :=
  rfl

theorem Alike.trans (h : Alike p q) (h' : Alike q r) : Alike p r := by
  unfold Alike at h h' ⊢
  rw [h', h]

/-- The Parcel with room for `n` bytes at the position. -/
def readied (p : Parcel) (n : UInt32) : Parcel :=
  { p with
    mData := p.mData || p.Lacks n
    mDataPos := p.start
    mDataCapacity := if p.Lacks n then growSize p.mDataSize n else p.mDataCapacity
    mOwner := p.mOwner && !p.Lacks n
    mObjectsCapacity :=
      if p.Lacks n ∧ p.mOwner = true then UInt32.ofNat p.mObjects.length
      else p.mObjectsCapacity
    proc.answers := if p.Lacks n then p.grownAnswers else p.proc.answers }

/-- The Parcel with `n` bytes more. -/
def advanced (p : Parcel) (n : UInt32) : Parcel :=
  (p.readied n).finishWrite n

/-- The Parcel with an object more. -/
def withObject (p : Parcel) (val : FlatBinderObject) (nullMetaData : Bool) : Parcel :=
  ((p.tabled (p.readied 16)).listed val nullMetaData).finishWrite 16

theorem Alike.hasEntry (h : Alike p q) : q.HasEntry ↔ p.HasEntry := by
  rw [h]
  rfl

theorem Alike.advanced (h : Alike p q) (n : UInt32) : Alike (p.advanced n) (q.advanced n) := by
  rw [h]
  rfl

theorem Alike.finishWrite (h : Alike p q) (n : UInt32) :
    Alike (p.finishWrite n) (q.finishWrite n) := by
  rw [h]
  rfl

theorem Alike.growObjects (h : Alike p q) (newSize : UInt32) :
    Alike (p.growObjects newSize).2 (q.growObjects newSize).2 := by
  unfold Parcel.growObjects
  rw [h]
  dsimp only
  split <;> rfl

theorem Alike.tabled {r r' : Parcel} (h : Alike p q) (hr : Alike r r') :
    Alike (p.tabled r) (q.tabled r') := by
  have hsize : r'.mObjectsSize = r.mObjectsSize := by
    rw [hr]
    rfl
  unfold Parcel.tabled
  rw [hsize]
  by_cases hentry : p.HasEntry
  · rw [if_pos hentry, if_pos (h.hasEntry.mpr hentry)]
    exact hr
  · rw [if_neg hentry, if_neg fun hq => hentry (h.hasEntry.mp hq)]
    exact hr.growObjects _

theorem Alike.listed (h : Alike p q) (val : FlatBinderObject) (nullMetaData : Bool) :
    Alike (p.listed val nullMetaData) (q.listed val nullMetaData) := by
  rw [h]
  unfold Parcel.listed
  split
  · unfold acquireObject pushObject
    dsimp only
    cases val.ref _ <;> rfl
  · rfl

theorem Alike.withObject (h : Alike p q) (val : FlatBinderObject) (nullMetaData : Bool) :
    Alike (p.withObject val nullMetaData) (q.withObject val nullMetaData) := by
  have hready : Alike (p.readied 16) (q.readied 16) := by
    rw [h]
    rfl
  exact ((h.tabled hready).listed val nullMetaData).finishWrite 16

theorem Alike.noteFd (h : Alike p q) (val : FlatBinderObject) : Alike p (q.noteFd val) := by
  unfold Parcel.noteFd
  split
  · rw [h]
    rfl
  · exact h

/-- The room that a write has found. -/
theorem Prepared.alike {n : UInt32} (h : Prepared p r n) : Alike (p.readied n) r := by
  unfold Alike readied
  dsimp only
  rw [← h.data, ← h.pos, ← h.cap, ← h.owner, ← h.objectsCapacity, ← h.answers, ← h.size,
    ← h.mObjects, ← h.allow]

/-- The bytes that are put into the room. -/
theorem Put.alike {e : List UInt8} {n : UInt32} (h : Put r q e) (hn : e.length = n.toNat) :
    Alike (r.finishWrite n) q := by
  have hpos : q.mDataPos = r.mDataPos + n := by
    have hlt := q.mDataPos.toNat_lt
    have hsum := h.pos
    rw [← UInt32.toNat_inj, UInt32.toNat_add, ← hn, Nat.mod_eq_of_lt (by omega), hsum]
  have hsize : q.mDataSize =
      if r.mDataSize < r.mDataPos + n then r.mDataPos + n else r.mDataSize := by
    have hmax := h.size
    rw [← hpos, ← UInt32.toNat_inj, hmax]
    split
    · rename_i hlt
      rw [UInt32.lt_iff_toNat_lt] at hlt
      exact max_eq_right hlt.le
    · rename_i hge
      rw [UInt32.lt_iff_toNat_lt, Nat.not_lt] at hge
      exact max_eq_left hge
  unfold Alike Parcel.finishWrite
  dsimp only
  rw [← hsize, ← hpos, h.same]

end Parcel
end Binder
end AndroidLinux
