import AndroidLinux.Binder.HeapReplies
import AndroidLinux.Binder.WriteOps
import AndroidLinux.Lib.Tally
import AndroidLinux.Lib.Transition

/-!
# The memory statistics of Parcels

`gParcelGlobalAllocSize` and `gParcelGlobalAllocCount` against the buffers that the live
Parcels own.  `Balanced` says that a call changes the counters by what it changes in the
Parcel.  All operations are balanced but `setData` on a Parcel without a buffer, where
`restartWrite` counts the size of the new buffer but not the buffer.
-/

namespace AndroidLinux
namespace Binder

open Lib

namespace Parcel

variable {p q r : Parcel}

/-- The Parcel has a buffer that it frees itself. -/
def owns (p : Parcel) : Bool := p.mData && !p.mOwner

/-- The capacity of a buffer of its own. -/
def ownCapacity (p : Parcel) : Nat := if p.owns then p.mDataCapacity.toNat else 0

/-- The counters have followed the Parcel. -/
structure Balanced (p q : Parcel) : Prop where
  size : q.proc.gParcelGlobalAllocSize + UInt32.ofNat p.ownCapacity =
    p.proc.gParcelGlobalAllocSize + UInt32.ofNat q.ownCapacity
  count : q.proc.gParcelGlobalAllocCount + UInt32.ofNat p.owns.toNat =
    p.proc.gParcelGlobalAllocCount + UInt32.ofNat q.owns.toNat

theorem Balanced.refl (p : Parcel) : Balanced p p :=
  ⟨rfl, rfl⟩

theorem Balanced.trans (h : Balanced p q) (h' : Balanced q r) : Balanced p r := by
  have hsize := h.size
  have hsize' := h'.size
  have hcount := h.count
  have hcount' := h'.count
  constructor
  · grind
  · grind

/-- What the counters depend on. -/
def books (p : Parcel) : Bool × Bool × UInt32 × UInt32 × UInt32 :=
  (p.mData, p.mOwner, p.mDataCapacity, p.proc.gParcelGlobalAllocSize,
    p.proc.gParcelGlobalAllocCount)

theorem balanced_of_books (h : q.books = p.books) : Balanced p q := by
  unfold books at h
  simp only [Prod.mk.injEq] at h
  obtain ⟨hdata, howner, hcap, hsize, hcount⟩ := h
  have howns : q.owns = p.owns := by
    unfold owns
    rw [hdata, howner]
  constructor
  · unfold ownCapacity
    rw [hsize, hcap, howns]
  · rw [hcount, howns]

theorem Framed.books (h : Framed p q) : q.books = p.books := by
  rw [h]
  rfl

theorem Framed.balanced (h : Framed p q) : Balanced p q :=
  balanced_of_books h.books

theorem balanced_storeAt (p : Parcel) (off : UInt32) (bs : List UInt8) :
    Balanced p (p.storeAt off bs) :=
  (framed_touch p p.mDataCapacity off bs.length).balanced.trans (balanced_of_books rfl)

/-! ## Growing, shrinking and freeing -/

/-- What `freeDataNoInit` frees is taken off the counters. -/
theorem freeDataNoInit_counters (p : Parcel) :
    p.freeDataNoInit.proc.gParcelGlobalAllocSize + UInt32.ofNat p.ownCapacity =
        p.proc.gParcelGlobalAllocSize ∧
      p.freeDataNoInit.proc.gParcelGlobalAllocCount + UInt32.ofNat p.owns.toNat =
        p.proc.gParcelGlobalAllocCount := by
  unfold freeDataNoInit
  cases howner : p.mOwner with
  | true =>
      have howns : p.owns = false := by simp [owns, howner]
      have hframed : Framed p p.freeBuffer := framed_forObjects framed_closeObject _ _
      rw [if_pos rfl, ownCapacity, howns, hframed]
      exact ⟨UInt32.add_zero _, UInt32.add_zero _⟩
  | false =>
      have hframed : Framed p p.releaseObjects := framed_forObjects framed_releaseObject _ _
      rw [if_neg Bool.false_ne_true]
      dsimp only
      cases hdata : p.mData with
      | true =>
          have howns : p.owns = true := by simp [owns, howner, hdata]
          have hdata' : p.releaseObjects.mData = true := by
            rw [hframed]
            exact hdata
          rw [if_pos hdata', ownCapacity, howns, if_pos rfl, UInt32.ofNat_toNat]
          dsimp only
          rw [hframed]
          exact ⟨UInt32.sub_add_cancel _ _, UInt32.sub_add_cancel _ _⟩
      | false =>
          have howns : p.owns = false := by simp [owns, hdata]
          have hdata' : ¬ p.releaseObjects.mData = true := by
            rw [hframed, hdata]
            exact Bool.false_ne_true
          rw [if_neg hdata', ownCapacity, howns, hframed]
          exact ⟨UInt32.add_zero _, UInt32.add_zero _⟩

theorem balanced_freeData (p : Parcel) : Balanced p p.freeData := by
  obtain ⟨hsize, hcount⟩ := freeDataNoInit_counters p
  exact ⟨hsize.trans (UInt32.add_zero _).symm, hcount.trans (UInt32.add_zero _).symm⟩

/-- A received buffer is not counted. -/
theorem balanced_ipcSetDataReference (p : Parcel) (received : Received) :
    Balanced p (p.ipcSetDataReference received) := by
  obtain ⟨hsize, hcount⟩ := freeDataNoInit_counters p
  unfold ipcSetDataReference
  dsimp only
  refine Balanced.trans ?_
    ((framed_foldl_hold _ _ _).balanced.trans ((framed_scan _ _).balanced.trans
      (balanced_of_books rfl)))
  exact ⟨hsize.trans (UInt32.add_zero _).symm, hcount.trans (UInt32.add_zero _).symm⟩

theorem balanced_takePossession (howner : p.mOwner = true) (desired : UInt32)
    (kept : List UInt32) (block : Mem) : Balanced p (p.takePossession desired kept block) := by
  have hframed := (possession_loops p kept).1
  have howns : p.owns = false := by simp [owns, howner]
  unfold takePossession
  generalize (forObjects acquireObject kept.reverse p).freeBuffer = q at hframed
  constructor
  · unfold ownCapacity
    rw [howns]
    dsimp only [owns]
    rw [hframed]
    simp
  · rw [howns]
    dsimp only [owns]
    rw [hframed]
    simp

theorem balanced_continueReceived (howner : p.mOwner = true) (desired : UInt32)
    (kept : List UInt32) : Balanced p (p.continueReceived desired kept).2 := by
  unfold continueReceived
  split
  · exact balanced_freeData p
  · split
    · exact balanced_of_books rfl
    · split
      · exact (balanced_of_books rfl : Balanced p p.shiftData).trans
          (balanced_takePossession (p := p.shiftData) howner _ _ _)
      · split
        · exact (balanced_of_books rfl : Balanced p p.shiftData.shiftNewTable).trans
            (balanced_takePossession (p := p.shiftData.shiftNewTable) howner _ _ _)
        · exact balanced_of_books rfl

theorem books_forObjects {f : FlatBinderObject → Parcel → Parcel}
    (hf : ∀ o p, (f o p).books = p.books) (offs : List UInt32) (p : Parcel) :
    (forObjects f offs p).books = p.books := by
  induction offs generalizing p with
  | nil => rfl
  | cons off offs ih =>
      have htouch := (framed_touch p p.mDataCapacity off 16).books
      exact ((ih _).trans (hf _ _)).trans htouch

theorem books_dropObject (o : FlatBinderObject) (p : Parcel) :
    (dropObject o p).books = p.books := by
  unfold dropObject
  rw [(framed_releaseObject o _).books]
  split <;> rfl

theorem books_dropObjects (p : Parcel) (kept : List UInt32) :
    (p.dropObjects kept).books = p.books :=
  books_forObjects books_dropObject _ p

/-- A larger block of its own. -/
theorem balanced_regrown {q : Parcel} (howner : p.mOwner = false) (hdata : p.mData = true)
    (howner' : q.mOwner = false) (hdata' : q.mData = true)
    (hsize : q.proc.gParcelGlobalAllocSize =
      p.proc.gParcelGlobalAllocSize + q.mDataCapacity - p.mDataCapacity)
    (hcount : q.proc.gParcelGlobalAllocCount = p.proc.gParcelGlobalAllocCount) :
    Balanced p q := by
  have howns : p.owns = true := by simp [owns, howner, hdata]
  have howns' : q.owns = true := by simp [owns, howner', hdata']
  constructor
  · rw [ownCapacity, ownCapacity, howns, howns', if_pos rfl, if_pos rfl, UInt32.ofNat_toNat,
      UInt32.ofNat_toNat, hsize, UInt32.sub_add_cancel]
  · rw [howns, howns', hcount]

theorem balanced_continueOwned (howner : p.mOwner = false) (hdata : p.mData = true)
    (desired : UInt32) (kept : List UInt32) : Balanced p (p.continueOwned desired kept).2 := by
  unfold continueOwned
  dsimp only
  have hbooks : (if kept.length < p.mObjects.length then p.dropObjects kept else p).books =
      p.books := by
    split
    · exact books_dropObjects p kept
    · rfl
  generalize (if kept.length < p.mObjects.length then p.dropObjects kept else p) = q at hbooks
  have hq := balanced_of_books hbooks
  simp only [books, Prod.mk.injEq] at hbooks
  rw [hdata, howner] at hbooks
  refine hq.trans ?_
  split
  · split
    · exact balanced_of_books rfl
    · exact balanced_regrown hbooks.2.1 hbooks.1 hbooks.2.1 hbooks.1 rfl rfl
  · exact balanced_of_books rfl

theorem balanced_continueFirst (howner : p.mOwner = false) (hdata : p.mData = false)
    (desired : UInt32) : Balanced p (p.continueFirst desired).2 := by
  have howns : p.owns = false := by simp [owns, hdata]
  unfold continueFirst
  split
  · exact balanced_of_books rfl
  · constructor
    · simp [ownCapacity, owns, shiftData, howner, hdata]
    · simp [owns, shiftData, howner, hdata]

theorem balanced_continueWrite (desired : UInt32) (p : Parcel) :
    Balanced p (p.continueWrite desired).2 := by
  unfold continueWrite
  by_cases howner : p.mOwner = true
  · rw [if_pos howner]
    exact balanced_continueReceived howner desired _
  · rw [if_neg howner]
    have howner' := Bool.eq_false_of_not_eq_true howner
    by_cases hdata : p.mData = true
    · rw [if_pos hdata]
      exact balanced_continueOwned howner' hdata desired _
    · rw [if_neg hdata]
      exact balanced_continueFirst howner' (Bool.eq_false_of_not_eq_true hdata) desired

theorem balanced_growData (len : UInt32) (p : Parcel) : Balanced p (p.growData len).2 := by
  unfold growData
  dsimp only
  split
  · exact .refl p
  · exact balanced_continueWrite _ p

theorem balanced_ensure (enoughData : Bool) (len : UInt32) (p : Parcel) :
    Balanced p (p.ensure enoughData len).2 := by
  unfold ensure
  split
  · exact .refl p
  · exact balanced_growData len p

/-! ## Restarting -/

/-- `restartWrite` does not get the first buffer of a Parcel. -/
def KeepsBuffer (p : Parcel) : Prop :=
  p.mOwner = true ∨ p.mData = true ∨ p.proc.answers.data 0 = none

theorem balanced_releaseObjects (p : Parcel) : Balanced p p.releaseObjects :=
  (framed_forObjects framed_releaseObject _ p).balanced

/-- The new buffer replaces one that was counted. -/
theorem balanced_restartWrite (h : p.KeepsBuffer) (desired : UInt32) :
    Balanced p (p.restartWrite desired).2 := by
  unfold restartWrite
  by_cases howner : p.mOwner = true
  · rw [if_pos howner]
    exact (balanced_freeData p).trans (balanced_continueWrite desired _)
  · rw [if_neg howner]
    have howner' := Bool.eq_false_of_not_eq_true howner
    split
    · split
      · exact balanced_of_books rfl
      · have hstart : Balanced p { p.shiftData with
            extent := if desired = 0 then 0 else p.extent } := balanced_of_books rfl
        exact (hstart.trans (balanced_releaseObjects _)).trans (balanced_of_books rfl)
    · rename_i block hblock
      -- the condition excludes that a Parcel without a buffer gets one
      have hdata : p.mData = true := by
        rcases h with h | h | h
        · exact absurd h howner
        · exact h
        · rw [h] at hblock
          cases hblock
      have hframed : Framed { p.shiftData with extent := 0 }
          (releaseObjects { p.shiftData with extent := 0 }) :=
        framed_forObjects framed_releaseObject _ _
      dsimp only
      generalize (releaseObjects { p.shiftData with extent := 0 }) = q at hframed
      refine balanced_regrown howner' hdata ?_ rfl ?_ ?_
      · show q.mOwner = false
        rw [hframed]
        exact howner'
      · show q.proc.gParcelGlobalAllocSize + desired - q.mDataCapacity = _
        rw [hframed]
        rfl
      · show q.proc.gParcelGlobalAllocCount = _
        rw [hframed]
        rfl

theorem balanced_setData (h : p.KeepsBuffer) (buffer : Buffer) :
    Balanced p (p.setData buffer).2 := by
  have hrestart := balanced_restartWrite h buffer.len
  unfold setData
  dsimp only
  split
  · exact hrestart.trans ((balanced_storeAt _ 0 buffer.data).trans (balanced_of_books rfl))
  · exact hrestart

theorem balanced_setDataSize (size : UInt32) (p : Parcel) : Balanced p (p.setDataSize size).2 := by
  have hcontinue := balanced_continueWrite size p
  unfold setDataSize
  dsimp only
  split
  · exact hcontinue.trans (balanced_of_books rfl)
  · exact hcontinue

theorem balanced_setDataCapacity (size : UInt32) (p : Parcel) :
    Balanced p (p.setDataCapacity size).2 := by
  unfold setDataCapacity
  split
  · exact balanced_continueWrite size p
  · exact .refl p

/-! ## Writing -/

/-- An operation that the counters follow. -/
def Keeps (f : Parcel → Status × Parcel) : Prop :=
  ∀ p, Balanced p (f p).2

variable {f g : Parcel → Status × Parcel}

theorem keeps_status (st : Status) : Keeps fun p => (st, p) :=
  Balanced.refl

theorem Keeps.andThen (hf : Keeps f) (hg : Keeps g) : Keeps (andThen f g) := by
  intro p
  unfold Parcel.andThen
  dsimp only
  split
  · exact (hf p).trans (hg _)
  · exact hf p

theorem keeps_writeAligned (val : List UInt8) : Keeps (writeAligned val) := by
  intro p
  have hensure := balanced_ensure
    (p.mDataPos + UInt32.ofNat val.length ≤ p.mDataCapacity) (UInt32.ofNat val.length) p
  unfold writeAligned
  dsimp only
  split
  · exact hensure.trans ((balanced_storeAt _ _ val).trans (balanced_of_books rfl))
  · exact hensure

theorem keeps_writeInt32 (val : Int32) : Keeps (writeInt32 val) :=
  keeps_writeAligned _

theorem keeps_writeUnpadded (data : Buffer) : Keeps (writeUnpadded data) := by
  intro p
  have hensure := balanced_ensure (p.mDataPos + data.len ≤ p.mDataCapacity) data.len p
  unfold writeUnpadded
  dsimp only
  split
  · exact .refl p
  · split
    · exact hensure.trans ((balanced_storeAt _ _ data.data).trans (balanced_of_books rfl))
    · exact hensure

theorem balanced_maskPad (p : Parcel) (off k : UInt32) : Balanced p (p.maskPad off k) :=
  (framed_touch p p.mDataCapacity off 4).balanced.trans (balanced_of_books rfl)

theorem balanced_writeInplace (len : UInt32) (p : Parcel) :
    Balanced p (p.writeInplace len).2 := by
  have hensure := balanced_ensure (p.mDataPos + padSize len ≤ p.mDataCapacity) (padSize len) p
  unfold writeInplace
  dsimp only
  split
  · exact .refl p
  · split
    · refine hensure.trans ?_
      split
      · exact (balanced_maskPad _ _ (padSize len - len)).trans (balanced_of_books rfl)
      · exact balanced_of_books rfl
    · exact hensure

/-- A room that its caller fills. -/
theorem keeps_room (len : UInt32) (fill : UInt32 → Parcel → Status × Parcel)
    (null : Parcel → Status) (hfill : ∀ d, Keeps (fill d)) :
    Keeps fun p =>
      match p.writeInplace len with
      | (some d, q) => fill d q
      | (none, q) => (null q, q) := by
  intro p
  have hroom := balanced_writeInplace len p
  dsimp only
  generalize p.writeInplace len = w at hroom
  obtain ⟨buf, q⟩ := w
  cases buf with
  | none => exact hroom
  | some d => exact hroom.trans (hfill d q)

theorem keeps_write (data : Buffer) : Keeps (write data) :=
  keeps_room data.len (fun d q => (noError, q.storeAt d data.data)) mError fun d p =>
    balanced_storeAt p d data.data

theorem keeps_writeUnits (str : List UInt16) (len : UInt32) : Keeps (writeUnits str len) :=
  keeps_room (len * 2 + 2) (fun d q => (noError,
    (q.storeAt d ((unitBytes str).take (len * 2).toNat)).storeAt (d + len * 2) [0, 0])) mError
    fun d p => (balanced_storeAt p d _).trans (balanced_storeAt _ (d + len * 2) [0, 0])

theorem keeps_writeString16Of (str : Units) : Keeps (writeString16Of str) := by
  unfold writeString16Of writeString16
  rw [Option.elim_some]
  exact (keeps_writeInt32 _).andThen (keeps_writeUnits str.units _)

theorem balanced_storeObject (p : Parcel) (val : FlatBinderObject) (nullMetaData : Bool) :
    Balanced p (p.storeObject val nullMetaData).2 := by
  have hstore := balanced_storeAt p p.mDataPos val.toBytes
  unfold storeObject
  dsimp only
  generalize p.storeAt p.mDataPos val.toBytes = q at hstore
  have hlisted : Balanced q (if nullMetaData ∨ val.binder ≠ 0 then
      acquireObject val (q.pushObject q.mDataPos) else q) := by
    split
    · exact Balanced.trans (q := q.pushObject q.mDataPos) (balanced_of_books rfl)
        (framed_acquireObject val _).balanced
    · exact .refl q
  generalize (if nullMetaData ∨ val.binder ≠ 0 then
      acquireObject val (q.pushObject q.mDataPos) else q) = q' at hlisted ⊢
  refine hstore.trans (hlisted.trans ?_)
  split
  · split
    · exact balanced_of_books rfl
    · exact .refl _
  · exact balanced_of_books rfl

theorem balanced_growObjects (p : Parcel) (newSize : UInt32) :
    Balanced p (p.growObjects newSize).2 := by
  unfold growObjects
  dsimp only
  split <;> exact balanced_of_books rfl

theorem keeps_writeObject (val : FlatBinderObject) (nullMetaData : Bool) :
    Keeps (writeObject val nullMetaData) := by
  intro p
  have hensure := balanced_ensure (p.mDataPos + 16 ≤ p.mDataCapacity) 16 p
  unfold writeObject
  dsimp only
  split
  · refine hensure.trans ?_
    split
    · exact balanced_storeObject _ val nullMetaData
    · split
      · exact (balanced_growObjects _ _).trans (balanced_storeObject _ val nullMetaData)
      · exact balanced_growObjects _ _
  · exact hensure

/-- A descriptor is closed again after an error. -/
theorem balanced_closeOnError {r : Status × Parcel} (h : Balanced p r.2) (x : Resource) :
    Balanced p (if r.1 = noError then r else (r.1, r.2.drop x)).2 := by
  split
  · exact h
  · exact h.trans (framed_drop r.2 x).balanced

theorem keeps_writeDupFileDescriptor : Keeps writeDupFileDescriptor := by
  intro p
  unfold writeDupFileDescriptor
  dsimp only
  split
  · exact balanced_of_books rfl
  · have hheld : Balanced p (p.shiftDup.hold (.fd (p.proc.answers.dup 0).toUInt32)) :=
      balanced_of_books rfl
    exact balanced_closeOnError (hheld.trans (keeps_writeObject _ true _)) _

theorem keeps_writeAshmem (a : Ashmem) : Keeps (writeAshmem a) := by
  intro p
  unfold writeAshmem
  dsimp only
  split
  · exact .refl p
  · have hheld := (framed_hold p (.fd a.createRegion.toUInt32)).balanced
    refine balanced_closeOnError (hheld.trans ?_) _
    split
    · exact .refl _
    · split
      · exact .refl _
      · split
        · exact .refl _
        · exact ((keeps_writeInt32 1).andThen (keeps_writeObject _ true)) _

end Parcel

theorem Part.keeps (x : Part) : Parcel.Keeps x.run := by
  cases x with
  | aligned val => exact Parcel.keeps_writeAligned val
  | unpadded bytes => exact Parcel.keeps_writeUnpadded _
  | padded bytes => exact Parcel.keeps_write _
  | units str => exact Parcel.keeps_writeUnits str _
  | room len fill null =>
      intro p
      have hroom := Parcel.keeps_room len (fun d q => (noError, q.storeAt d fill)) (fun _ => null)
        (fun d p => Parcel.balanced_storeAt p d fill) p
      unfold Part.run
      dsimp only at hroom ⊢
      generalize p.writeInplace len = w at hroom ⊢
      obtain ⟨buf, q⟩ := w
      cases buf <;> exact hroom
  | object val nullMetaData => exact Parcel.keeps_writeObject val nullMetaData
  | dup => exact Parcel.keeps_writeDupFileDescriptor
  | result status => exact Parcel.keeps_status status

theorem Part.keeps_runAll (xs : List Part) : Parcel.Keeps (Part.runAll xs) := by
  induction xs with
  | nil => exact Parcel.keeps_status noError
  | cons x xs ih => exact x.keeps.andThen ih

theorem WriteOp.keeps (op : WriteOp) : Parcel.Keeps op.run := by
  intro p
  by_cases hdirect : op.Direct
  · rw [run_eq hdirect]
    exact Part.keeps_runAll _ p
  · cases op with
    | interfaceToken policy interface =>
        show Parcel.Balanced p (Parcel.writeInterfaceToken policy interface p).2
        unfold Parcel.writeInterfaceToken
        exact (Parcel.keeps_writeInt32 _ p).trans (Parcel.keeps_writeString16Of interface _)
    | nativeHandle handle =>
        cases handle with
        | none => exact .refl p
        | some h => exact absurd trivial hdirect
    | blob len a =>
        show Parcel.Balanced p (Parcel.writeBlob len a p).2
        unfold Parcel.writeBlob
        split
        · refine ((Parcel.keeps_writeInt32 0).andThen ?_) p
          intro q
          have hroom := Parcel.balanced_writeInplace len q
          dsimp only
          generalize q.writeInplace len = w at hroom
          obtain ⟨buf, r⟩ := w
          cases buf <;> exact hroom
        · exact Parcel.keeps_writeAshmem a p
    | _ => exact absurd trivial hdirect

namespace Parcel

variable {p : Parcel}

theorem balanced_appendObject (off : UInt32) (r : Status × Parcel) :
    Balanced r.2 (appendObject off r).2 := by
  unfold appendObject
  dsimp only
  refine Balanced.trans (q := r.2.pushObject off) (balanced_of_books rfl)
    ((framed_touch _ r.2.mDataCapacity off 16).balanced.trans ?_)
  generalize (r.2.pushObject off).touch r.2.mDataCapacity off 16 = q
  refine (framed_acquireObject (q.flatAt off) q).balanced.trans ?_
  generalize acquireObject (q.flatAt off) q = q'
  split
  · have hshift : Balanced q' q'.shiftDup := balanced_of_books rfl
    have hstore := balanced_storeAt q'.shiftDup off ({ q.flatAt off with
      binder := (max (q'.proc.answers.dup 0) (-1)).toUInt32, cookie := 1 } :
        FlatBinderObject).toBytes
    refine (hshift.trans hstore).trans ?_
    split
    · exact balanced_of_books rfl
    · exact balanced_of_books rfl
  · exact .refl q'

theorem balanced_foldl_appendObject (offs : List UInt32) (r : Status × Parcel) :
    Balanced r.2 (offs.foldl (fun r off => appendObject off r) r).2 := by
  induction offs generalizing r with
  | nil => exact .refl r.2
  | cons off offs ih => exact (balanced_appendObject off r).trans (ih _)

theorem keeps_appendObjects (offs : List UInt32) : Keeps fun p => p.appendObjects offs := by
  intro p
  unfold appendObjects
  dsimp only
  split
  · exact .refl p
  · split
    · have hgrown := balanced_growObjects p
        ((p.mObjectsSize + UInt32.ofNat offs.length) * 3 / 2)
      generalize p.growObjects _ = g at hgrown
      split
      · exact hgrown.trans (balanced_foldl_appendObject offs (noError, g.2))
      · exact hgrown
    · exact balanced_foldl_appendObject offs (noError, p)

theorem keeps_appendFrom (src : Parcel) (offset len : UInt32) :
    Keeps (appendFrom src offset len) := by
  intro p
  have hensure := balanced_ensure (p.mDataSize + len ≤ p.mDataCapacity) len p
  unfold appendFrom
  dsimp only
  split
  · exact .refl p
  · split
    · exact .refl p
    · split
      · refine hensure.trans ?_
        generalize (p.ensure (p.mDataSize + len ≤ p.mDataCapacity) len).2 = q
        refine (balanced_storeAt q q.mDataPos (src.bytes.load offset len.toNat)).trans ?_
        generalize q.storeAt q.mDataPos (src.bytes.load offset len.toNat) = r
        refine Balanced.trans ?_ (keeps_appendObjects _ _)
        exact balanced_of_books rfl
      · exact hensure

end Parcel
end Binder
end AndroidLinux
