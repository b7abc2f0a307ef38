import AndroidLinux.Utils.VectorImpl

/-!
# The sizes of a vector

One vector with the arithmetic of a 32-bit `size_t`.  A block that `malloc` has returned
holds the header of a `SharedBuffer` and `room` bytes behind it, which are fewer than `mSize`
when the sum of the two has wrapped.

A call returns the accesses to the storage that the vector has at its end.  Loops over items
go over all of them; `memcpy` and `memmove` are given a number of bytes, which may have wrapped.
What is done to storage that is given up is left out.  Other vectors are seen only in that they
share the storage or not.
-/

namespace AndroidLinux
namespace Utils

/-- An item type; `fresh` is what new memory holds. -/
structure ItemType (α : Type*) where
  traits : Traits
  itemSize : UInt32
  itemSize_pos : 0 < itemSize
  default : α
  fresh : Nat → α

/-- A `SharedBuffer` with its data, in slots. -/
structure Block (α : Type*) where
  mSize : UInt32
  room : Nat
  onlyOwner : Bool
  items : Nat → α

/-- The answers of `realloc` and `malloc` in a call, which asks each at most once. -/
structure Answers where
  realloc : Bool
  malloc : Bool
deriving DecidableEq

/-- An access to the storage: items begin or end in a range of bytes, or the first bytes are
copied from the old storage as they were there. -/
inductive Access
  | change (offset bytes : Nat)
  | keep (bytes : Nat)
deriving DecidableEq

namespace ItemType

variable {α : Type*} (T : ItemType α)

/-- `sizeof(SharedBuffer)`. -/
def sizeofSharedBuffer : UInt32 := 16

/-- The bytes behind the header. -/
def roomFor (size : UInt32) : Nat :=
  (sizeofSharedBuffer + size).toNat - sizeofSharedBuffer.toNat

/-- `SharedBuffer::alloc`. -/
def alloc (size : UInt32) (granted : Bool) : Option (Block α) :=
  if granted then some ⟨size, roomFor size, true, T.fresh⟩ else none

/-- The bytes of items, which are counted in a `size_t` when they are copied as bytes. -/
def extent (asBytes : Bool) (num : UInt32) : Nat :=
  if asBytes then (num * T.itemSize).toNat else num.toNat * T.itemSize.toNat

/-- The offset of an item. -/
def offset (index : UInt32) : Nat := (index * T.itemSize).toNat

/-- The slots behind a copy or a move of items. -/
def copied (asBytes : Bool) (dest start num : UInt32) (source items : Nat → α) (j : Nat) : α :=
  let d := T.offset dest / T.itemSize.toNat
  if d ≤ j ∧ j < d + T.extent asBytes num / T.itemSize.toNat then
    source (T.offset start / T.itemSize.toNat + (j - d))
  else items j

/-- `_do_copy`, from other memory. -/
def doCopy (dest start num : UInt32) (source : Nat → α) (b : Block α) :
    Block α × List Access :=
  ({ b with items := T.copied T.traits.trivialCopy dest start num source b.items },
    [.change (T.offset dest) (T.extent T.traits.trivialCopy num)])

/-- `_do_move_forward` and `_do_move_backward`. -/
def doMove (dest start num : UInt32) (b : Block α) : Block α × List Access :=
  let bytes := T.extent T.traits.movesBytes num
  ({ b with items := T.copied T.traits.movesBytes dest start num b.items b.items },
    [.change (T.offset dest) bytes, .change (T.offset start) bytes])

/-- `_do_destroy`. -/
def doDestroy (storage num : UInt32) : List Access :=
  if T.traits.trivialDtor then [] else [.change (T.offset storage) (T.extent false num)]

/-- `_do_splat`, or `_do_construct` when there is no item. -/
def fillItems (item : Option α) (storage num : UInt32) (b : Block α) : Block α × List Access :=
  if item = none ∧ T.traits.trivialCtor then (b, [])
  else
    ({ b with items := T.copied false storage 0 num (fun _ => item.getD T.default) b.items },
      [.change (T.offset storage) (T.extent false num)])

/-- `SharedBuffer::editResize`; the slots that are complete are kept. -/
def editResize (newSize : UInt32) (a : Answers) (b : Block α) :
    Option (Block α × List Access) :=
  let kept := fun j =>
    if (j + 1) * T.itemSize.toNat ≤ min newSize.toNat b.mSize.toNat then b.items j else T.fresh j
  if b.onlyOwner ∧ b.mSize = newSize then some (b, [])
  else if b.onlyOwner ∧ a.realloc then some (⟨newSize, roomFor newSize, true, kept⟩, [])
  else
    (T.alloc newSize a.malloc).map fun sb =>
      ({ sb with items := kept }, [.keep (min newSize.toNat b.mSize.toNat)])

/-- Copies of items to new storage, each with its destination, start and number. -/
def copyParts (source : Nat → α) :
    List (UInt32 × UInt32 × UInt32) → Block α → Block α × List Access
  | [], b => (b, [])
  | (dest, start, num) :: rest, b =>
      let copy := T.doCopy dest start num source b
      let more := copyParts source rest copy.1
      (more.1, copy.2 ++ more.2)

end ItemType

/-- `VectorImpl`. -/
structure SizedVector (α : Type*) where
  mStorage : Option (Block α)
  mCount : UInt32

/-- What a call returns and leaves. -/
structure SizedResult (α : Type*) where
  ret : Int32
  vec : SizedVector α
  accesses : List Access

namespace SizedVector

variable {α : Type*} (T : ItemType α) (a : Answers) (v : SizedVector α)

def noMemory : Int32 := -12
def badValue : Int32 := -22
def badIndex : Int32 := -75

/-- `kMinVectorCapacity`. -/
def kMinVectorCapacity : UInt32 := 4

/-- `max`. -/
def maxSize (a b : UInt32) : UInt32 := if b < a then a else b

/-- The list that the vector stands for. -/
def contents : List α :=
  v.mStorage.elim [] fun b => (List.range v.mCount.toNat).map b.items

def capacity : UInt32 := v.mStorage.elim 0 fun b => b.mSize / T.itemSize

/-- `itemLocation`, as an offset. -/
def itemLocation (index : UInt32) : Option Nat :=
  if index < v.capacity T ∧ v.mStorage.isSome then some (T.offset index) else none

/-- A function on the storage. -/
def onStorage (f : Block α → Block α × List Access) (v : SizedVector α) :
    SizedVector α × List Access :=
  match v.mStorage with
  | none => (v, [])
  | some b => ({ v with mStorage := some (f b).1 }, (f b).2)

/-- New storage with copies of items; the old storage is released. -/
def rehouse (newCapacity : UInt32) (parts : List (UInt32 × UInt32 × UInt32)) :
    Option (SizedVector α × List Access) :=
  (T.alloc (newCapacity * T.itemSize) a.malloc).map fun sb =>
    let copy := T.copyParts (v.mStorage.elim T.fresh Block.items) parts sb
    ({ v with mStorage := some copy.1 }, copy.2)

/-- `editArrayImpl`, which leaves shared storage shared when there is no memory. -/
def editArrayImpl : SizedVector α × List Access :=
  match v.mStorage with
  | none => (v, [])
  | some b =>
      if b.onlyOwner then (v, [])
      else (v.rehouse T a (v.capacity T) [(0, 0, v.mCount)]).getD (v, [])

/-- The storage is resized. -/
def resizeStorage (newCapacity : UInt32) : Option (SizedVector α × List Access) :=
  v.mStorage.bind fun b =>
    (T.editResize (newCapacity * T.itemSize) a b).map fun e =>
      ({ v with mStorage := some e.1 }, e.2)

/-- A copy of a part of the items; there is none when it is empty. -/
def part (dest start num : UInt32) : List (UInt32 × UInt32 × UInt32) :=
  if num ≠ 0 then [(dest, start, num)] else []

/-- Two steps on the vector, with their accesses. -/
def andThen (e : SizedVector α × List Access) (f : SizedVector α → SizedVector α × List Access) :
    SizedVector α × List Access :=
  ((f e.1).1, e.2 ++ (f e.1).2)

/-- The storage of `_grow`. -/
def growStorage (pos amount : UInt32) : Option (SizedVector α × List Access) :=
  let newSize := v.mCount + amount
  if v.capacity T < newSize then
    let newCapacity := maxSize kMinVectorCapacity ((newSize * 3 + 1) / 2)
    if v.mStorage.isSome ∧ v.mCount = pos ∧ T.traits.trivialCopy ∧ T.traits.trivialDtor then
      v.resizeStorage T a newCapacity
    else v.rehouse T a newCapacity (part 0 0 pos ++ part (pos + amount) pos (v.mCount - pos))
  else
    some (andThen (v.editArrayImpl T a) fun e =>
      if pos ≠ v.mCount then e.onStorage (T.doMove (pos + amount) pos (v.mCount - pos))
      else (e, []))

def setCount (count : UInt32) (e : SizedVector α × List Access) : SizedVector α × List Access :=
  ({ e.1 with mCount := count }, e.2)

/-- `_grow` without the location that it returns. -/
def grow (pos amount : UInt32) : Option (SizedVector α × List Access) :=
  (v.growStorage T a pos amount).map (setCount (v.mCount + amount))

/-- The storage of `_shrink`. -/
def shrinkStorage (pos amount : UInt32) : Option (SizedVector α × List Access) :=
  let newSize := v.mCount - amount
  if newSize * 3 < v.capacity T then
    let newCapacity := maxSize kMinVectorCapacity (newSize * 2)
    if pos = newSize ∧ T.traits.trivialCopy ∧ T.traits.trivialDtor then
      v.resizeStorage T a newCapacity
    else v.rehouse T a newCapacity (part 0 0 pos ++ part pos (pos + amount) (newSize - pos))
  else
    some (andThen (andThen (v.editArrayImpl T a) fun e => (e, T.doDestroy pos amount)) fun e =>
      if pos ≠ newSize then e.onStorage (T.doMove pos (pos + amount) (newSize - pos)) else (e, []))

/-- `_shrink`. -/
def shrink (pos amount : UInt32) : SizedVector α × List Access :=
  if v.mStorage.isNone then (v, [])
  else ((v.shrinkStorage T a pos amount).map (setCount (v.mCount - amount))).getD (v, [])

/-- `insertAt` and `insertArrayAt`, which differ in how the new slots are filled. -/
def insertWith (fill : Block α → Block α × List Access) (index num : UInt32) : SizedResult α :=
  if v.mCount < index then ⟨badIndex, v, []⟩
  else
    match v.grow T a index num with
    | none => ⟨noMemory, v, []⟩
    | some e =>
        match e.1.itemLocation T index with
        | none => ⟨noMemory, e.1, e.2⟩
        | some _ =>
            ⟨index.toInt32, (andThen e (onStorage fill)).1, (andThen e (onStorage fill)).2⟩

def insertAt (item : Option α) (index numItems : UInt32) : SizedResult α :=
  v.insertWith T a (T.fillItems item index numItems) index numItems

def insertArrayAt (array : Nat → α) (index length : UInt32) : SizedResult α :=
  v.insertWith T a (T.doCopy index 0 length array) index length

def removeItemsAt (index count : UInt32) : SizedResult α :=
  if v.mCount < index + count then ⟨badValue, v, []⟩
  else ⟨index.toInt32, (v.shrink T a index count).1, (v.shrink T a index count).2⟩

def resize (size : UInt32) : SizedResult α :=
  let result :=
    if v.mCount < size then v.insertAt T a none v.mCount (size - v.mCount)
    else if size < v.mCount then v.removeItemsAt T a size (v.mCount - size)
    else ⟨0, v, []⟩
  { result with ret := if result.ret < 0 then result.ret else size.toInt32 }

def setCapacity (newCapacity : UInt32) : SizedResult α :=
  if (newCapacity - v.mCount).toInt32 ≤ 0 then ⟨(v.capacity T).toInt32, v, []⟩
  else
    match v.rehouse T a newCapacity [(0, 0, v.mCount)] with
    | none => ⟨noMemory, v, []⟩
    | some e => ⟨newCapacity.toInt32, e.1, e.2⟩

/-- `clear`. -/
def clear : SizedResult α := ⟨0, (v.shrink T a 0 v.mCount).1, (v.shrink T a 0 v.mCount).2⟩

end SizedVector

/-- The calls on a vector, and that its storage comes to be shared or to be its own. -/
inductive SizedCall (α : Type*)
  | insertAt (item : Option α) (index numItems : UInt32) (a : Answers)
  | insertArrayAt (array : Nat → α) (index length : UInt32) (a : Answers)
  | removeItemsAt (index count : UInt32) (a : Answers)
  | resize (size : UInt32) (a : Answers)
  | setCapacity (newCapacity : UInt32) (a : Answers)
  | clear (a : Answers)
  | finishVector
  | owned (alone : Bool)

namespace SizedVector

variable {α : Type*} (T : ItemType α)

def call (v : SizedVector α) : SizedCall α → SizedResult α
  | .insertAt item index numItems a => v.insertAt T a item index numItems
  | .insertArrayAt array index length a => v.insertArrayAt T a array index length
  | .removeItemsAt index count a => v.removeItemsAt T a index count
  | .resize size a => v.resize T a size
  | .setCapacity newCapacity a => v.setCapacity T a newCapacity
  | .clear a => v.clear T a
  | .finishVector => ⟨0, ⟨none, 0⟩, []⟩
  | .owned alone =>
      ⟨0, { v with mStorage := v.mStorage.map fun b => { b with onlyOwner := alone } }, []⟩

def machine : Lib.Machine (SizedVector α) (SizedCall α) where
  init v := v = ⟨none, 0⟩
  step v c := some (v.call T c).vec

/-! ## The purpose -/

/-- The bytes of the storage. -/
def room (v : SizedVector α) : Nat := v.mStorage.elim 0 Block.room

/-- The items are inside of the storage. -/
def Fitting (v : SizedVector α) : Prop := v.mCount.toNat * T.itemSize.toNat ≤ v.room

/-- Only slots below a count are changed, and what is kept is inside of the storage. -/
def Within (count room : Nat) (accesses : List Access) : Prop :=
  ∀ access ∈ accesses, match access with
    | .change offset bytes => offset + bytes ≤ count * T.itemSize.toNat
    | .keep bytes => bytes ≤ room

/-- An error with nothing changed, or items inside of the storage and changes below the count
before or behind the call. -/
def Safe (v : SizedVector α) (r : SizedResult α) : Prop :=
  r.ret < 0 ∧ r.vec.mCount = v.mCount ∧ r.vec.contents = v.contents ∨
    Fitting T r.vec ∧
      Within T (max v.mCount.toNat r.vec.mCount.toNat) r.vec.room r.accesses

/-- More items than there are are not removed. -/
def Rejects (v : SizedVector α) (c : SizedCall α) : Prop :=
  match c with
  | .removeItemsAt index count _ =>
      v.mCount.toNat < index.toNat + count.toNat → (v.call T c).ret < 0 ∧ (v.call T c).vec = v
  | _ => True

/-! ## The condition -/

/-- New storage has place for the items, and its size with the header does not wrap. -/
def Fits (newCapacity newSize : UInt32) : Prop :=
  newSize ≤ newCapacity ∧ newCapacity.toNat * T.itemSize.toNat + 16 < 2 ^ 32

def GrowFits (v : SizedVector α) (amount : UInt32) : Prop :=
  v.mCount.toNat + amount.toNat < 2 ^ 32 ∧
    (v.capacity T < v.mCount + amount →
      Fits T (maxSize kMinVectorCapacity (((v.mCount + amount) * 3 + 1) / 2)) (v.mCount + amount))

def ShrinkFits (v : SizedVector α) (amount : UInt32) : Prop :=
  (v.mCount - amount) * 3 < v.capacity T →
    Fits T (maxSize kMinVectorCapacity ((v.mCount - amount) * 2)) (v.mCount - amount)

/-- No size wraps that is used. -/
def NoWrap (v : SizedVector α) : SizedCall α → Prop
  | .insertAt _ index numItems _ => index ≤ v.mCount → GrowFits T v numItems
  | .insertArrayAt _ index length _ => index ≤ v.mCount → GrowFits T v length
  | .removeItemsAt index count _ => index + count ≤ v.mCount →
      index.toNat + count.toNat < 2 ^ 32 ∧ ShrinkFits T v count
  | .resize size _ => (v.mCount < size → GrowFits T v (size - v.mCount)) ∧
      (size < v.mCount → ShrinkFits T v (v.mCount - size))
  | .setCapacity newCapacity _ => 0 < (newCapacity - v.mCount).toInt32 →
      Fits T newCapacity v.mCount
  | .clear _ => ShrinkFits T v v.mCount
  | _ => True

end SizedVector
end Utils
end AndroidLinux
