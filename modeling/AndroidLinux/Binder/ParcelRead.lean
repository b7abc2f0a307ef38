import AndroidLinux.Binder.ParcelWrite

/-!
# `Parcel`: reading

`readAligned`, `read`, `readInplace`, `readCString` and `readObject` reach the buffer; the
other operations call them.  `none` is `NOT_ENOUGH_DATA`, or `NULL` where a pointer is
returned; a pointer into the buffer is given by the bytes it is returned for.
-/

namespace AndroidLinux
namespace Binder

open Lib

namespace Parcel

/-- `readAligned<T>`, for a type of `n` bytes. -/
def readAligned (n : UInt32) (p : Parcel) : Option (List UInt8) × Parcel :=
  if p.mDataPos + n ≤ p.mDataSize then
    (some (p.bytes.load p.mDataPos n.toNat),
      { p.touch p.mDataSize p.mDataPos n.toNat with mDataPos := p.mDataPos + n })
  else (none, p)

/-- The test of `read` and `readInplace`. -/
def canRead (p : Parcel) (len : UInt32) : Bool :=
  p.mDataPos ≤ p.mDataPos + padSize len ∧ p.mDataPos + padSize len ≤ p.mDataSize ∧
    len ≤ padSize len

def read (len : UInt32) (p : Parcel) : Option (List UInt8) × Parcel :=
  if p.canRead len then
    (some (p.bytes.load p.mDataPos len.toNat),
      { p.touch p.mDataSize p.mDataPos len.toNat with mDataPos := p.mDataPos + padSize len })
  else (none, p)

def readInplace (len : UInt32) (p : Parcel) : Option (List UInt8) × Parcel :=
  if p.canRead len then
    (if p.mData then some (p.bytes.load p.mDataPos len.toNat) else none,
      { p.touch p.mDataSize p.mDataPos len.toNat with mDataPos := p.mDataPos + padSize len })
  else (none, p)

/-- `readInt32(int32_t*)`. -/
def readInt32Status (p : Parcel) : Option Int32 × Parcel :=
  let r := p.readAligned 4
  (r.1.map fun bs => (UInt32.ofNat (leNat bs)).toInt32, r.2)

def readInt32 (p : Parcel) : Int32 × Parcel :=
  let r := p.readInt32Status
  (r.1.getD 0, r.2)

/-- `readInt64(int64_t*)`. -/
def readInt64Status (p : Parcel) : Option Int64 × Parcel :=
  let r := p.readAligned 8
  (r.1.map fun bs => (UInt64.ofNat (leNat bs)).toInt64, r.2)

def readInt64 (p : Parcel) : Int64 × Parcel :=
  let r := p.readInt64Status
  (r.1.getD 0, r.2)

/-- `readPointer(uintptr_t*)`. -/
def readPointerStatus (p : Parcel) : Option UInt32 × Parcel :=
  let r := p.readAligned 4
  (r.1.map fun bs => UInt32.ofNat (leNat bs), r.2)

def readPointer (p : Parcel) : UInt32 × Parcel :=
  let r := p.readPointerStatus
  (r.1.getD 0, r.2)

/-- `readCString`, with the bytes of the string. -/
def readCString (p : Parcel) : Option (List UInt8) × Parcel :=
  let avail := p.mDataSize - p.mDataPos
  if 0 < avail then
    match p.bytes.findNul p.mDataPos avail.toNat with
    | some len =>
        (some (p.bytes.load p.mDataPos len),
          { p.touch p.mDataSize p.mDataPos (len + 1) with
            mDataPos := p.mDataPos + padSize (UInt32.ofNat len + 1) })
    | none => (none, p.touch p.mDataSize p.mDataPos avail.toNat)
  else (none, p)

/-- The bytes of the result of `readString8`. -/
def readString8 (p : Parcel) : List UInt8 × Parcel :=
  let r := p.readInt32
  if 0 < r.1 ∧ r.1 < Int32.maxValue then
    let s := r.2.readInplace (r.1.toUInt32 + 1)
    ((s.1.getD []).take r.1.toUInt32.toNat, s.2)
  else ([], r.2)

/-- The UTF-16 units in memory. -/
def unitsOf : List UInt8 → List UInt16
  | lo :: hi :: rest => UInt16.ofNat (leNat [lo, hi]) :: unitsOf rest
  | _ => []

/-- `readString16Inplace`, with the units in front of the NUL. -/
def readString16Inplace (p : Parcel) : Option (List UInt16) × Parcel :=
  let r := p.readInt32
  if 0 ≤ r.1 ∧ r.1 < Int32.maxValue then
    let s := r.2.readInplace ((r.1.toUInt32 + 1) * 2)
    (s.1.map fun bs => (unitsOf bs).take r.1.toUInt32.toNat, s.2)
  else (none, r.2)

/-- The units of the result of `readString16`. -/
def readString16 (p : Parcel) : List UInt16 × Parcel :=
  let r := p.readString16Inplace
  (r.1.getD [], r.2)

/-! ## Objects -/

/-- The forward search of `readObject`, which takes at most `fuel` steps. -/
def searchForward (objs : List UInt32) (dpos : UInt32) : Nat → Nat → Nat
  | 0, opos => opos
  | fuel + 1, opos =>
      if objs.getD opos 0 < dpos then searchForward objs dpos fuel (opos + 1) else opos

/-- The backward search of `readObject`. -/
def searchBackward (objs : List UInt32) (dpos : UInt32) : Nat → Nat
  | 0 => 0
  | opos + 1 => if dpos < objs.getD (opos + 1) 0 then searchBackward objs dpos opos else opos + 1

/-- The index at which `readObject` finds an object. -/
def findObject (objs : List UInt32) (hint : Nat) (dpos : UInt32) : Option Nat :=
  if objs = [] then none
  else
    let n := objs.length
    let opos := if hint < n then searchForward objs dpos (n - 1 - hint) hint else n - 1
    if objs.getD opos 0 = dpos then some opos
    else
      let opos := searchBackward objs dpos opos
      if objs.getD opos 0 = dpos then some opos else none

def readObject (nullMetaData : Bool) (p : Parcel) : Option FlatBinderObject × Parcel :=
  let dpos := p.mDataPos
  if dpos + 16 ≤ p.mDataSize then
    let obj := p.flatAt dpos
    let q := { p.touch p.mDataSize dpos 16 with mDataPos := dpos + 16 }
    if !nullMetaData && obj.cookie = 0 && obj.binder = 0 then (some obj, q)
    else
      match findObject p.mObjects p.mNextObjectHint.toNat dpos with
      | some opos => (some obj, { q with mNextObjectHint := UInt32.ofNat opos + 1 })
      | none => (none, q)
  else (none, p)

def readFileDescriptor (p : Parcel) : Int32 × Parcel :=
  let r := p.readObject true
  ((r.1.filter fun flat => flat.type = binderTypeFd).elim badType fun flat => flat.handle.toInt32,
    r.2)

end Parcel
end Binder
end AndroidLinux
