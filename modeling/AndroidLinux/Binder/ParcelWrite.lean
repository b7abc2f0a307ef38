import AndroidLinux.Binder.Parcel
import AndroidLinux.Lib.CString

/-!
# `Parcel`: writing

`writeAligned`, `writeUnpadded`, `writeInplace`, `writeObject` and `appendFrom` reach the
buffer; the other operations call them.  A pointer into the buffer is its offset, and
`none` is `NULL`.  Floating-point numbers are written as their bits.
-/

namespace AndroidLinux
namespace Binder

open Lib

namespace Parcel

/-! ## Plain data -/

/-- The first `n` bytes at a pointer. -/
def Buffer.of (bytes : List UInt8) (n : UInt32) : Buffer where
  data := bytes.take n.toNat
  fits := lt_of_le_of_lt (List.length_take_le _ _) n.toNat_lt

def finishWrite (p : Parcel) (len : UInt32) : Parcel :=
  let pos := p.mDataPos + len
  { p with mDataPos := pos, mDataSize := if p.mDataSize < pos then pos else p.mDataSize }

/-- The test in front of `restart_write`: the data is grown when it is not enough. -/
def ensure (p : Parcel) (enoughData : Bool) (len : UInt32) : Status × Parcel :=
  if enoughData then (noError, p) else p.growData len

/-- A call that follows when there was no error. -/
def andThen (f g : Parcel → Status × Parcel) (p : Parcel) : Status × Parcel :=
  let r := f p
  if r.1 = noError then g r.2 else r

/-- `writeAligned<T>`, with the bytes of the value. -/
def writeAligned (val : List UInt8) (p : Parcel) : Status × Parcel :=
  let n := UInt32.ofNat val.length
  let r := p.ensure (p.mDataPos + n ≤ p.mDataCapacity) n
  if r.1 = noError then (noError, (r.2.storeAt r.2.mDataPos val).finishWrite n) else r

def writeUnpadded (data : Buffer) (p : Parcel) : Status × Parcel :=
  if p.mDataPos + data.len < p.mDataPos then (badValue, p)
  else
    let r := p.ensure (p.mDataPos + data.len ≤ p.mDataCapacity) data.len
    if r.1 = noError then (noError, (r.2.storeAt r.2.mDataPos data.data).finishWrite data.len)
    else r

/-- The mask of `writeInplace`: the last `k` bytes of a word are cleared. -/
def maskPad (p : Parcel) (off k : UInt32) : Parcel :=
  { p.touch p.mDataCapacity off 4 with
    bytes := p.bytes.store (off + 4 - k) (List.replicate k.toNat 0) }

def writeInplace (p : Parcel) (len : UInt32) : Option UInt32 × Parcel :=
  let padded := padSize len
  if p.mDataPos + padded < p.mDataPos then (none, p)
  else
    let r := p.ensure (p.mDataPos + padded ≤ p.mDataCapacity) padded
    if r.1 = noError then
      let data := r.2.mDataPos
      let q := if padded ≠ len then r.2.maskPad (data + padded - 4) (padded - len) else r.2
      (if q.mData then some data else none, q.finishWrite padded)
    else (none, r.2)

def write (data : Buffer) (p : Parcel) : Status × Parcel :=
  match p.writeInplace data.len with
  | (some d, q) => (noError, q.storeAt d data.data)
  | (none, q) => (q.mError, q)

def writeInt32 (val : Int32) : Parcel → Status × Parcel :=
  writeAligned (leBytes 4 val.toUInt32.toNat)

def writeInt64 (val : Int64) : Parcel → Status × Parcel :=
  writeAligned (leBytes 8 val.toUInt64.toNat)

def writePointer (val : UInt32) : Parcel → Status × Parcel :=
  writeAligned (leBytes 4 val.toNat)

def writeFloat (val : UInt32) : Parcel → Status × Parcel :=
  writeAligned (leBytes 4 val.toNat)

def writeDouble (val : UInt64) : Parcel → Status × Parcel :=
  writeAligned (leBytes 8 val.toNat)

def writeNoException : Parcel → Status × Parcel :=
  writeInt32 0

/-- `writeInt32Array`, with the memory at `val`. -/
def writeInt32Array (len : UInt32) (val : Option (List UInt8)) : Parcel → Status × Parcel :=
  val.elim (writeInt32 (-1)) fun bytes =>
    andThen (writeInt32 len.toInt32) (write (.of bytes (len * 4)))

/-- `writeByteArray`, with the memory at `val`. -/
def writeByteArray (len : UInt32) (val : Option (List UInt8)) : Parcel → Status × Parcel :=
  val.elim (writeInt32 (-1)) fun bytes =>
    andThen (writeInt32 len.toInt32) (write (.of bytes len))

def writeCString (str : CString) : Parcel → Status × Parcel :=
  write (.of (str.bytes ++ [0]) (UInt32.ofNat str.strlen + 1))

/-- `writeString8`; a `String8` has a NUL after its bytes. -/
def writeString8 (str : Buffer) : Parcel → Status × Parcel :=
  andThen (writeInt32 str.len.toInt32) fun p =>
    if 0 < str.len then write (.of (str.data ++ [0]) (str.len + 1)) p else (noError, p)

/-- UTF-16 units in memory. -/
def unitBytes (units : List UInt16) : List UInt8 := units.flatMap fun u => leBytes 2 u.toNat

/-- The payload of `writeString16`, when `len` units stand at `str`. -/
def writeUnits (str : List UInt16) (len : UInt32) (p : Parcel) : Status × Parcel :=
  let n := len * 2
  match p.writeInplace (n + 2) with
  | (some d, q) => (noError, (q.storeAt d ((unitBytes str).take n.toNat)).storeAt (d + n) [0, 0])
  | (none, q) => (q.mError, q)

/-- `writeString16(str, len)`. -/
def writeString16 (str : Option (List UInt16)) (len : UInt32) : Parcel → Status × Parcel :=
  str.elim (writeInt32 (-1)) fun units =>
    andThen (writeInt32 len.toInt32) (writeUnits units len)

/-- The units of a `String16`. -/
structure Units where
  units : List UInt16
  fits : units.length < 2 ^ 31

/-- `writeString16(const String16&)`. -/
def writeString16Of (str : Units) : Parcel → Status × Parcel :=
  writeString16 (some str.units) (UInt32.ofNat str.units.length)

/-- `writeInterfaceToken`, with `getStrictModePolicy`.  The status of the first write is
not looked at. -/
def writeInterfaceToken (policy : Int32) (interface : Units) (p : Parcel) : Status × Parcel :=
  writeString16Of interface (writeInt32 (policy ||| 0x100) p).2

/-! ## Objects -/

/-- `realloc` of the object table, with the fields that follow from it.  The table of a
received buffer is not a block that can be reallocated. -/
def growObjects (p : Parcel) (newSize : UInt32) : Bool × Parcel :=
  let q := { p.shiftTable with proc.tableStrayed := p.proc.tableStrayed || p.mOwner }
  if p.proc.answers.table 0 then
    (true, { q with mObjectsCapacity := newSize, objectsExtent := (newSize * 4).toNat / 4 })
  else (false, q)

/-- `mObjects[mObjectsSize++] = off`. -/
def pushObject (p : Parcel) (off : UInt32) : Parcel :=
  { p with
    mObjects := p.mObjects ++ [off]
    proc.tableStrayed := p.proc.tableStrayed || !(p.mObjects.length < p.objectsExtent) }

/-- `writeObject` after `restart_write`. -/
def storeObject (p : Parcel) (val : FlatBinderObject) (nullMetaData : Bool) : Status × Parcel :=
  let q := p.storeAt p.mDataPos val.toBytes
  let q := if nullMetaData ∨ val.binder ≠ 0 then acquireObject val (q.pushObject q.mDataPos) else q
  if val.type = binderTypeFd then
    if q.mAllowFds then
      (noError, { q with mHasFds := true, mFdsKnown := true }.finishWrite 16)
    else (fdsNotAllowed, q)
  else (noError, q.finishWrite 16)

def writeObject (val : FlatBinderObject) (nullMetaData : Bool) (p : Parcel) : Status × Parcel :=
  let enoughObjects := p.mObjectsSize < p.mObjectsCapacity
  let r := p.ensure (p.mDataPos + 16 ≤ p.mDataCapacity) 16
  if r.1 = noError then
    if enoughObjects then r.2.storeObject val nullMetaData
    else
      let g := r.2.growObjects (((r.2.mObjectsSize + 2) * 3) / 2)
      if g.1 then g.2.storeObject val nullMetaData else (noMemory, g.2)
  else r

/-- `0x7f | FLAT_BINDER_FLAG_ACCEPTS_FDS`. -/
def objectFlags : UInt32 := 0x17f

/-- A binder, as `flatten_binder` sees it: no binder, or a local one with its `weakref_type`,
or one of another process with its handle, when it has a proxy. -/
inductive BinderRef
  | null
  | localBinder (refs cookie : UInt32)
  | remoteBinder (proxy : Option UInt32)

/-- `flatten_binder` of a strong reference. -/
def flattenStrong : BinderRef → FlatBinderObject
  | .null => ⟨binderTypeBinder, objectFlags, 0, 0⟩
  | .localBinder refs cookie => ⟨binderTypeBinder, objectFlags, refs, cookie⟩
  | .remoteBinder proxy => ⟨binderTypeHandle, objectFlags, proxy.getD 0, 0⟩

/-- `flatten_binder` of a weak reference; `null` is also one that cannot be promoted. -/
def flattenWeak : BinderRef → FlatBinderObject
  | .null => ⟨binderTypeBinder, objectFlags, 0, 0⟩
  | .localBinder refs cookie => ⟨binderTypeWeakBinder, objectFlags, refs, cookie⟩
  | .remoteBinder proxy => ⟨binderTypeWeakHandle, objectFlags, proxy.getD 0, 0⟩

def writeStrongBinder (val : BinderRef) : Parcel → Status × Parcel :=
  writeObject (flattenStrong val) false

def writeWeakBinder (val : BinderRef) : Parcel → Status × Parcel :=
  writeObject (flattenWeak val) false

/-- The object of a file descriptor. -/
def fdObject (fd : Int32) (takeOwnership : Bool) : FlatBinderObject :=
  ⟨binderTypeFd, objectFlags, fd.toUInt32, if takeOwnership then 1 else 0⟩

def writeFileDescriptor (fd : Int32) (takeOwnership : Bool) : Parcel → Status × Parcel :=
  writeObject (fdObject fd takeOwnership) true

/-- `writeDupFileDescriptor`, with the answer of `dup`. -/
def writeDupFileDescriptor (p : Parcel) : Status × Parcel :=
  let dupFd := p.proc.answers.dup 0
  if dupFd < 0 then (dupFd, p.shiftDup)
  else
    let r := writeFileDescriptor dupFd true (p.shiftDup.hold (.fd dupFd.toUInt32))
    if r.1 = noError then r else (r.1, r.2.drop (.fd dupFd.toUInt32))

/-- `n` calls of `writeDupFileDescriptor`, up to the first error. -/
def writeDups : Nat → Parcel → Status × Parcel
  | 0, p => (noError, p)
  | n + 1, p => andThen writeDupFileDescriptor (writeDups n) p

def writeParcelFileDescriptor (fd commChannel : Int32) : Parcel → Status × Parcel :=
  if fd < 0 then writeInt32 0
  else
    andThen (writeInt32 1) (andThen writeDupFileDescriptor
      (if commChannel < 0 then writeInt32 0 else andThen (writeInt32 1) writeDupFileDescriptor))

/-- A `native_handle` of the right version; its counts are of type `int`. -/
structure NativeHandle where
  fds : List Int32
  ints : List UInt8
  numInts : UInt32
  fdsFit : fds.length < 2 ^ 31
  intsFit : numInts.toNat < 2 ^ 31
  lengthInts : ints.length = 4 * numInts.toNat

/-- `writeNativeHandle`; `none` is no handle, or one of another version. -/
def writeNativeHandle (handle : Option NativeHandle) : Parcel → Status × Parcel :=
  handle.elim (fun p => (badType, p)) fun h =>
    andThen (writeInt32 (UInt32.ofNat h.fds.length).toInt32)
      (andThen (writeInt32 h.numInts.toInt32)
        (andThen (writeDups h.fds.length) (write (.of h.ints (4 * h.numInts)))))

/-- The answers of the system when a blob is put into shared memory. -/
structure Ashmem where
  createRegion : Int32
  setProtReadWrite : Int32
  mmap : Int32
  setProtRead : Int32

/-- `writeBlob` into shared memory. -/
def writeAshmem (a : Ashmem) (p : Parcel) : Status × Parcel :=
  if a.createRegion < 0 then (noMemory, p)
  else
    let q := p.hold (.fd a.createRegion.toUInt32)
    let r :=
      if a.setProtReadWrite < 0 then (a.setProtReadWrite, q)
      else if a.mmap ≠ noError then (a.mmap, q)
      else if a.setProtRead < 0 then (a.setProtRead, q)
      else andThen (writeInt32 1) (writeFileDescriptor a.createRegion true) q
    if r.1 = noError then r else (r.1, r.2.drop (.fd a.createRegion.toUInt32))

/-- `IN_PLACE_BLOB_LIMIT`. -/
def inPlaceBlobLimit : UInt32 := 40 * 1024

/-- `writeBlob`; the caller fills the blob later. -/
def writeBlob (len : UInt32) (a : Ashmem) (p : Parcel) : Status × Parcel :=
  if !p.mAllowFds || len ≤ inPlaceBlobLimit then
    andThen (writeInt32 0) (fun q =>
      match q.writeInplace len with
      | (none, q) => (noMemory, q)
      | (some _, q) => (noError, q)) p
  else writeAshmem a p

/-- A `Flattenable` with what `flatten` puts into the buffer and returns. -/
structure Flattenable where
  data : Buffer
  fds : List Int32
  fdsFit : fds.length < 2 ^ 32
  status : Status

/-- `write(const FlattenableHelperInterface&)`. -/
def writeFlattenable (val : Flattenable) : Parcel → Status × Parcel :=
  andThen (writeInt32 val.data.len.toInt32)
    (andThen (writeInt32 (UInt32.ofNat val.fds.length).toInt32) fun p =>
      match p.writeInplace (padSize val.data.len) with
      | (none, q) => (badValue, q)
      | (some buf, q) =>
          andThen (fun q => (val.status, q)) (writeDups val.fds.length)
            (q.storeAt buf val.data.data))

/-- A `LightFlattenable` with what `flatten` puts into the buffer and returns. -/
structure LightFlattenable where
  isFixedSize : Bool
  data : Buffer
  status : Status

/-- `write(const LightFlattenable<T>&)`. -/
def writeLightFlattenable (val : LightFlattenable) : Parcel → Status × Parcel :=
  andThen (if val.isFixedSize then fun p => (noError, p) else writeInt32 val.data.len.toInt32)
    fun p =>
      if val.data.len ≠ 0 then
        match p.writeInplace val.data.len with
        | (none, q) => (noMemory, q)
        | (some buf, q) => (val.status, q.storeAt buf val.data.data)
      else (noError, p)

/-! ## Data and objects of another Parcel -/

/-- The test for objects in the range of `appendFrom`. -/
def inRange (offset len off : UInt32) : Bool := offset ≤ off ∧ off < offset + len

/-- The entries from `firstIndex` to `lastIndex`. -/
def objectsBetween (src : Parcel) (offset len : UInt32) : List UInt32 :=
  (src.mObjects.dropWhile fun off => !inRange offset len off).rdropWhile fun off =>
    !inRange offset len off

/-- One pass of the loop of `appendFrom`, with the offset in the new Parcel. -/
def appendObject (off : UInt32) (r : Status × Parcel) : Status × Parcel :=
  let q := (r.2.pushObject off).touch r.2.mDataCapacity off 16
  let flat := q.flatAt off
  let q := acquireObject flat q
  if flat.type = binderTypeFd then
    let fd := max (q.proc.answers.dup 0) (-1)
    let q := q.shiftDup.storeAt off { flat with binder := fd.toUInt32, cookie := 1 }.toBytes
    let q := if fd < 0 then q else q.hold (.fd fd.toUInt32)
    (if q.mAllowFds then r.1 else fdsNotAllowed, { q with mHasFds := true, mFdsKnown := true })
  else (r.1, q)

/-- `appendFrom` after the data has been copied. -/
def appendObjects (p : Parcel) (offs : List UInt32) : Status × Parcel :=
  let numObjects := UInt32.ofNat offs.length
  if offs = [] then (noError, p)
  else if p.mObjectsCapacity < p.mObjectsSize + numObjects then
    let g := p.growObjects (((p.mObjectsSize + numObjects) * 3) / 2)
    if g.1 then offs.foldl (fun r off => appendObject off r) (noError, g.2) else (noMemory, g.2)
  else offs.foldl (fun r off => appendObject off r) (noError, p)

/-- `appendFrom` of another Parcel. -/
def appendFrom (src : Parcel) (offset len : UInt32) (p : Parcel) : Status × Parcel :=
  if len = 0 then (noError, p)
  else if src.mDataSize < offset ∨ src.mDataSize < len ∨ src.mDataSize < offset + len then
    (badValue, p)
  else
    let startPos := p.mDataPos
    let r := p.ensure (p.mDataSize + len ≤ p.mDataCapacity) len
    if r.1 = noError then
      let q := r.2.storeAt r.2.mDataPos (src.bytes.load offset len.toNat)
      let q := { q with
        mDataPos := q.mDataPos + len
        mDataSize := q.mDataSize + len
        proc.strayed := q.proc.strayed || !(offset.toNat + len.toNat ≤ src.mDataSize.toNat) }
      q.appendObjects ((src.objectsBetween offset len).map fun off => off - offset + startPos)
    else r

end Parcel
end Binder
end AndroidLinux
