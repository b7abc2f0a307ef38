import AndroidLinux.Lib.Align
import AndroidLinux.Lib.Memory
import Mathlib.Data.List.DropRight

/-!
# `Parcel`: buffer, objects and growth

A Parcel together with the process it lives in, for `size_t` and `binder_size_t` of 32
bits.  `bytes` is the memory at `mData`, and `mObjects` are the `mObjectsSize` entries of
the object table.  What `malloc`, `realloc`, `dup` and the handle table answer is given
for each call in `Answers`; the content of new memory is any.  The only release function
in use is `IPCThreadState::freeBuffer`, so `mOwner` says whether there is one.

Some fields are history: `extent` and `objectsExtent` are the real sizes of the two
blocks, `held` counts the references and descriptors of the Parcel, `strayed` records an
access outside of the buffer, and `tableStrayed` one outside of the object table.
-/

namespace AndroidLinux
namespace Binder

open Lib

/-- `status_t`. -/
abbrev Status := Int32

def noError : Status := 0
/-- `-ENOMEM`. -/
def noMemory : Status := -12
/-- `-EINVAL`. -/
def badValue : Status := -22
def badType : Status := Int32.minValue + 1
def fdsNotAllowed : Status := Int32.minValue + 7

/-- `PAD_SIZE`. -/
def padSize (s : UInt32) : UInt32 := (s + 3) &&& ~~~3

def binderTypeBinder : UInt32 := 0x73622a85
def binderTypeWeakBinder : UInt32 := 0x77622a85
def binderTypeHandle : UInt32 := 0x73682a85
def binderTypeWeakHandle : UInt32 := 0x77682a85
def binderTypeFd : UInt32 := 0x66642a85

/-- `flat_binder_object`; `handle` shares its memory with `binder`. -/
structure FlatBinderObject where
  type : UInt32
  flags : UInt32
  binder : UInt32
  cookie : UInt32
  deriving DecidableEq

namespace FlatBinderObject

def handle (o : FlatBinderObject) : UInt32 := o.binder

/-- The object in memory. -/
def toBytes (o : FlatBinderObject) : List UInt8 :=
  leBytes 4 o.type.toNat ++ leBytes 4 o.flags.toNat ++ leBytes 4 o.binder.toNat ++
    leBytes 4 o.cookie.toNat

def ofBytes (bs : List UInt8) : FlatBinderObject where
  type := UInt32.ofNat (leNat (bs.take 4))
  flags := UInt32.ofNat (leNat ((bs.drop 4).take 4))
  binder := UInt32.ofNat (leNat ((bs.drop 8).take 4))
  cookie := UInt32.ofNat (leNat ((bs.drop 12).take 4))

theorem toBytes_length (o : FlatBinderObject) : o.toBytes.length = 16 := by
  simp [toBytes, leBytes_length]

theorem ofBytes_toBytes (o : FlatBinderObject) : ofBytes o.toBytes = o := by
  obtain ⟨type, flags, binder, cookie⟩ := o
  have htake (x : UInt32) : (leBytes 4 x.toNat).take 4 = leBytes 4 x.toNat :=
    List.take_of_length_le (leBytes_length 4 _).le
  simp [ofBytes, toBytes, leBytes_length, ofNat_leNat_word, htake, List.drop_append,
    List.drop_eq_nil_of_le]

end FlatBinderObject

/-- What a Parcel holds for its objects. -/
inductive Resource
  | strong (cookie : UInt32)
  | weak (binder : UInt32)
  | strongHandle (handle : UInt32)
  | weakHandle (handle : UInt32)
  | fd (fd : UInt32)
  deriving DecidableEq

/-- The answers of the system in one call, each in the order of the requests: to `malloc`
and `realloc` of a data buffer, to `malloc` and to `realloc` of an object table, to `dup`,
and whether there is a proxy for a handle. -/
structure Answers where
  data : Nat → Option Mem
  newTable : Nat → Bool
  table : Nat → Bool
  dup : Nat → Int32
  proxy : UInt32 → Bool

/-- The state of the process as far as Parcels use it. -/
structure Process where
  answers : Answers
  gParcelGlobalAllocSize : UInt32
  gParcelGlobalAllocCount : UInt32
  held : Resource → Int
  strayed : Bool
  tableStrayed : Bool

structure Parcel where
  mError : Status
  mData : Bool
  bytes : Mem
  mDataSize : UInt32
  mDataCapacity : UInt32
  mDataPos : UInt32
  mObjects : List UInt32
  mObjectsCapacity : UInt32
  mNextObjectHint : UInt32
  mFdsKnown : Bool
  mHasFds : Bool
  mAllowFds : Bool
  mOwner : Bool
  extent : UInt32
  objectsExtent : Nat
  proc : Process

/-- The reference that `acquire_object` takes for an object. -/
def FlatBinderObject.ref (o : FlatBinderObject) (proxy : UInt32 → Bool) : Option Resource :=
  if o.type = binderTypeBinder then if o.binder ≠ 0 then some (.strong o.cookie) else none
  else if o.type = binderTypeWeakBinder then if o.binder ≠ 0 then some (.weak o.binder) else none
  else if o.type = binderTypeHandle then
    if proxy o.handle then some (.strongHandle o.handle) else none
  else if o.type = binderTypeWeakHandle then
    if proxy o.handle then some (.weakHandle o.handle) else none
  else none

namespace Parcel

/-! ## Memory and resources -/

def mObjectsSize (p : Parcel) : UInt32 := UInt32.ofNat p.mObjects.length

/-- An access to `n` bytes of the buffer, of which the first `limit` may be used. -/
def touch (p : Parcel) (limit off : UInt32) (n : Nat) : Parcel :=
  if n = 0 ∨ off.toNat + n ≤ min limit.toNat p.extent.toNat then p
  else { p with proc.strayed := true }

/-- Bytes are written to the buffer. -/
def storeAt (p : Parcel) (off : UInt32) (bs : List UInt8) : Parcel :=
  { p.touch p.mDataCapacity off bs.length with bytes := p.bytes.store off bs }

/-- The object at an offset. -/
def flatAt (p : Parcel) (off : UInt32) : FlatBinderObject :=
  .ofBytes (p.bytes.load off 16)

def hold (p : Parcel) (r : Resource) : Parcel :=
  { p with proc.held := Function.update p.proc.held r (p.proc.held r + 1) }

def drop (p : Parcel) (r : Resource) : Parcel :=
  { p with proc.held := Function.update p.proc.held r (p.proc.held r - 1) }

/-- The next answer to a request for a data buffer has been used. -/
def shiftData (p : Parcel) : Parcel :=
  { p with proc.answers.data := fun k => p.proc.answers.data (k + 1) }

/-- The next answer to a request for a new object table has been used. -/
def shiftNewTable (p : Parcel) : Parcel :=
  { p with proc.answers.newTable := fun k => p.proc.answers.newTable (k + 1) }

/-- The next answer to `realloc` of the object table has been used. -/
def shiftTable (p : Parcel) : Parcel :=
  { p with proc.answers.table := fun k => p.proc.answers.table (k + 1) }

/-- The next answer of `dup` has been used. -/
def shiftDup (p : Parcel) : Parcel :=
  { p with proc.answers.dup := fun k => p.proc.answers.dup (k + 1) }

/-- `acquire_object`. -/
def acquireObject (o : FlatBinderObject) (p : Parcel) : Parcel :=
  (o.ref p.proc.answers.proxy).elim p p.hold

/-- `release_object`. -/
def releaseObject (o : FlatBinderObject) (p : Parcel) : Parcel :=
  if o.type = binderTypeFd then if o.cookie ≠ 0 then p.drop (.fd o.handle) else p
  else (o.ref p.proc.answers.proxy).elim p p.drop

/-- `close` in the loop of `closeFileDescriptors`. -/
def closeObject (o : FlatBinderObject) (p : Parcel) : Parcel :=
  if o.type = binderTypeFd then p.drop (.fd o.handle) else p

/-- A loop over objects of the buffer. -/
def forObjects (f : FlatBinderObject → Parcel → Parcel) (offs : List UInt32) (p : Parcel) :
    Parcel :=
  offs.foldl (fun q off => f (q.flatAt off) (q.touch q.mDataCapacity off 16)) p

def releaseObjects (p : Parcel) : Parcel := forObjects releaseObject p.mObjects.reverse p

def closeFileDescriptors (p : Parcel) : Parcel := forObjects closeObject p.mObjects.reverse p

/-- `IPCThreadState::freeBuffer`; the driver takes its buffer back. -/
def freeBuffer (p : Parcel) : Parcel := p.closeFileDescriptors

def initState (p : Parcel) : Parcel where
  mError := noError
  mData := false
  bytes := p.bytes
  mDataSize := 0
  mDataCapacity := 0
  mDataPos := 0
  mObjects := []
  mObjectsCapacity := 0
  mNextObjectHint := 0
  mFdsKnown := true
  mHasFds := false
  mAllowFds := true
  mOwner := false
  extent := 0
  objectsExtent := 0
  proc := p.proc

def freeDataNoInit (p : Parcel) : Parcel :=
  if p.mOwner then p.freeBuffer
  else
    let q := p.releaseObjects
    if q.mData then
      { q with
        proc.gParcelGlobalAllocSize := q.proc.gParcelGlobalAllocSize - q.mDataCapacity
        proc.gParcelGlobalAllocCount := q.proc.gParcelGlobalAllocCount - 1 }
    else q

def freeData (p : Parcel) : Parcel := p.freeDataNoInit.initState

/-! ## Growing and shrinking -/

/-- The objects that `continueWrite` keeps. -/
def keptObjects (p : Parcel) (desired : UInt32) : List UInt32 :=
  if desired < p.mDataSize then
    if desired = 0 then [] else p.mObjects.rdropWhile fun off => ¬ off < desired
  else p.mObjects

/-- An allocation has failed. -/
def outOfMemory (p : Parcel) : Status × Parcel := (noMemory, { p with mError := noMemory })

/-- The rest of `continueWrite` when it takes possession of a received buffer and both
allocations have succeeded. -/
def takePossession (p : Parcel) (desired : UInt32) (kept : List UInt32) (block : Mem) : Parcel :=
  let data :=
    if p.mData then p.bytes.moveTo (min p.mDataSize.toNat desired.toNat) block else block
  let size := if p.mDataSize < desired then p.mDataSize else desired
  let q := (forObjects acquireObject kept.reverse p).freeBuffer
  { q with
    mOwner := false
    proc.gParcelGlobalAllocSize := q.proc.gParcelGlobalAllocSize + desired
    proc.gParcelGlobalAllocCount := q.proc.gParcelGlobalAllocCount + 1
    mData := true
    bytes := data
    mObjects := kept
    mDataSize := size
    mDataCapacity := desired
    extent := desired
    mObjectsCapacity := UInt32.ofNat kept.length
    objectsExtent := kept.length
    mNextObjectHint := 0 }

/-- The branch of `continueWrite` for a received buffer. -/
def continueReceived (p : Parcel) (desired : UInt32) (kept : List UInt32) : Status × Parcel :=
  if desired = 0 then (noError, p.freeData)
  else
    match p.proc.answers.data 0 with
    | none => p.shiftData.outOfMemory
    | some block =>
        if kept = [] then (noError, p.shiftData.takePossession desired kept block)
        else if p.proc.answers.newTable 0 then
          (noError, p.shiftData.shiftNewTable.takePossession desired kept block)
        else p.shiftData.shiftNewTable.outOfMemory

/-- `release_object` of an object that is cut off. -/
def dropObject (o : FlatBinderObject) (p : Parcel) : Parcel :=
  releaseObject o (if o.type = binderTypeFd then { p with mFdsKnown := false } else p)

/-- The objects after `kept` are dropped.  The table is reallocated, `mObjectsCapacity`
stays as it is. -/
def dropObjects (p : Parcel) (kept : List UInt32) : Parcel :=
  let q := forObjects dropObject (p.mObjects.drop kept.length) p
  { q.shiftTable with
    objectsExtent :=
      if p.proc.answers.table 0 ∨ kept = [] then kept.length else p.objectsExtent
    mObjects := kept
    mNextObjectHint := 0 }

/-- The branch of `continueWrite` for a buffer of its own. -/
def continueOwned (p : Parcel) (desired : UInt32) (kept : List UInt32) : Status × Parcel :=
  let q := if kept.length < p.mObjects.length then p.dropObjects kept else p
  if q.mDataCapacity < desired then
    match q.proc.answers.data 0 with
    | none => q.shiftData.outOfMemory
    | some block =>
        (noError, { q.shiftData with
          bytes := q.bytes.moveTo q.mDataCapacity.toNat block
          proc.gParcelGlobalAllocSize :=
            q.proc.gParcelGlobalAllocSize + desired - q.mDataCapacity
          mDataCapacity := desired
          extent := desired })
  else
    (noError, { q with
      mDataSize := if desired < q.mDataSize then desired else q.mDataSize
      mDataPos := if desired < q.mDataPos then desired else q.mDataPos })

/-- The branch of `continueWrite` for the first data. -/
def continueFirst (p : Parcel) (desired : UInt32) : Status × Parcel :=
  match p.proc.answers.data 0 with
  | none => p.shiftData.outOfMemory
  | some block =>
      (noError, { p.shiftData with
        proc.gParcelGlobalAllocSize := p.proc.gParcelGlobalAllocSize + desired
        proc.gParcelGlobalAllocCount := p.proc.gParcelGlobalAllocCount + 1
        mData := true
        bytes := block
        mDataSize := 0
        mDataPos := 0
        mDataCapacity := desired
        extent := desired })

def continueWrite (p : Parcel) (desired : UInt32) : Status × Parcel :=
  if p.mOwner then p.continueReceived desired (p.keptObjects desired)
  else if p.mData then p.continueOwned desired (p.keptObjects desired)
  else p.continueFirst desired

/-- `newSize` of `growData`. -/
def growSize (mDataSize len : UInt32) : UInt32 := ((mDataSize + len) * 3) / 2

def growData (p : Parcel) (len : UInt32) : Status × Parcel :=
  let newSize := growSize p.mDataSize len
  if newSize ≤ p.mDataSize then (noMemory, p) else p.continueWrite newSize

/-- The rest of `restartWrite` after `realloc`. -/
def restart (p : Parcel) : Status × Parcel :=
  (noError, { p with
    mDataSize := 0
    mDataPos := 0
    mObjects := []
    mObjectsCapacity := 0
    objectsExtent := 0
    mNextObjectHint := 0
    mHasFds := false
    mFdsKnown := true
    mAllowFds := true })

/-- `restartWrite`.  `realloc` frees the old block when it returns a new one, and when it
is asked for no byte; `releaseObjects` still reads the old block then. -/
def restartWrite (p : Parcel) (desired : UInt32) : Status × Parcel :=
  if p.mOwner then p.freeData.continueWrite desired
  else
    match p.proc.answers.data 0 with
    | none =>
        if p.mDataCapacity < desired then p.shiftData.outOfMemory
        else
          restart (releaseObjects { p.shiftData with
            extent := if desired = 0 then 0 else p.extent })
    | some block =>
        let q := releaseObjects { p.shiftData with extent := 0 }
        restart { q with
          proc.gParcelGlobalAllocSize := q.proc.gParcelGlobalAllocSize + desired - q.mDataCapacity
          mData := true
          bytes := block
          mDataCapacity := desired
          extent := desired }

/-! ## Position, size and data as a whole -/

/-- What `dataSize` and `ipcDataSize` return. -/
def dataSize (p : Parcel) : UInt32 :=
  if p.mDataPos < p.mDataSize then p.mDataSize else p.mDataPos

def dataAvail (p : Parcel) : UInt32 := p.dataSize - p.mDataPos

def setDataPosition (p : Parcel) (pos : UInt32) : Parcel :=
  { p with mDataPos := pos, mNextObjectHint := 0 }

def setDataSize (p : Parcel) (size : UInt32) : Status × Parcel :=
  let r := p.continueWrite size
  if r.1 = noError then (noError, { r.2 with mDataSize := size }) else r

def setDataCapacity (p : Parcel) (size : UInt32) : Status × Parcel :=
  if p.mDataCapacity < size then p.continueWrite size else (noError, p)

/-- A byte array of a caller; its length is a `size_t`. -/
structure Buffer where
  data : List UInt8
  fits : data.length < 2 ^ 32

def Buffer.len (b : Buffer) : UInt32 := UInt32.ofNat b.data.length

@[simp] theorem Buffer.len_toNat (b : Buffer) : b.len.toNat = b.data.length :=
  UInt32.toNat_ofNat_of_lt' b.fits

def setData (p : Parcel) (buffer : Buffer) : Status × Parcel :=
  let r := p.restartWrite buffer.len
  if r.1 = noError then
    (noError, { r.2.storeAt 0 buffer.data with mDataSize := buffer.len, mFdsKnown := false })
  else r

def pushAllowFds (p : Parcel) (allowFds : Bool) : Parcel :=
  if allowFds then p else { p with mAllowFds := false }

/-- The loop of `scanForFds`. -/
def scan : List UInt32 → Parcel → Bool × Parcel
  | [], p => (false, p)
  | off :: offs, p =>
      let q := p.touch p.mDataCapacity off 4
      if (p.flatAt off).type = binderTypeFd then (true, q) else scan offs q

def scanForFds (p : Parcel) : Parcel :=
  let r := scan p.mObjects p
  { r.2 with mHasFds := r.1, mFdsKnown := true }

/-- The loop of `ipcSetDataReference`: no offset lies in front of the end of the object
before it. -/
def offsetsOk : UInt32 → List UInt32 → Bool
  | _, [] => true
  | minOffset, off :: offs => !(off < minOffset) && offsetsOk (off + 16) offs

/-- A buffer of the driver: its data and its objects. -/
structure Received where
  data : Mem
  dataSize : UInt32
  objects : List UInt32

/-- `ipcSetDataReference`.  The descriptors of a received buffer are those of this
process. -/
def ipcSetDataReference (p : Parcel) (r : Received) : Parcel :=
  let q := p.freeDataNoInit
  let q : Parcel := { q with
    mError := noError
    mData := true
    bytes := r.data
    mDataSize := r.dataSize
    mDataCapacity := r.dataSize
    extent := r.dataSize
    mDataPos := 0
    mObjects := if offsetsOk 0 r.objects then r.objects else []
    mObjectsCapacity := UInt32.ofNat r.objects.length
    objectsExtent := r.objects.length
    mNextObjectHint := 0
    mOwner := true }
  let fds := r.objects.filter fun off => (q.flatAt off).type = binderTypeFd
  (fds.foldl (fun s off => s.hold (.fd (q.flatAt off).handle)) q).scanForFds

end Parcel

/-- A process in which allocations succeed. -/
def roomyProcess : Process where
  answers :=
    ⟨fun _ => some fun _ => 0xA5, fun _ => true, fun _ => true, fun _ => -1, fun _ => true⟩
  gParcelGlobalAllocSize := 0
  gParcelGlobalAllocCount := 0
  held _ := 0
  strayed := false
  tableStrayed := false

/-- A Parcel before its constructor has run. -/
def rawParcel (proc : Process) : Parcel where
  mError := noError
  mData := false
  bytes _ := 0
  mDataSize := 0
  mDataCapacity := 0
  mDataPos := 0
  mObjects := []
  mObjectsCapacity := 0
  mNextObjectHint := 0
  mFdsKnown := true
  mHasFds := false
  mAllowFds := true
  mOwner := false
  extent := 0
  objectsExtent := 0
  proc := proc

end Binder
end AndroidLinux
