import AndroidLinux.Lib.Transition

/-!
# Vectors and their shared storage

`VectorImpl.cpp` over `SharedBuffer.cpp`.  Vectors that are copies of each other share a
buffer, whose `mRefs` counts them, until one of them is edited.  Sizes of buffers are counted
in items.

A `Slot` is the place of an item in a buffer.  It counts the items that began and ended their
life there, so that `none` can stand for what must not happen: an item constructed over
another one that still has to be destroyed, an item destroyed or read that is not there,
storage freed with items in it, an access outside of a buffer or to a freed one.  A type
with a trivial destructor needs no destruction, and `memcpy` counts as a construction.
-/

namespace AndroidLinux
namespace Utils

/-- `traits` of an item type. -/
structure Traits where
  trivialCtor : Bool
  trivialDtor : Bool
  trivialCopy : Bool
  trivialMove : Bool
deriving DecidableEq

/-- What the bytes of a slot stand for, `none` when they are indeterminate, and the items
that have been constructed and destroyed in it. -/
structure Slot (α : Type*) where
  val : Option α
  built : Nat
  destroyed : Nat
deriving DecidableEq

namespace Slot

variable {α : Type*}

/-- There is an item in the slot. -/
def live (s : Slot α) : Bool := s.destroyed < s.built

def raw : Slot α := ⟨none, 0, 0⟩

def build (s : Slot α) (val : Option α) : Slot α := ⟨val, s.built + 1, s.destroyed⟩

def destroy (s : Slot α) : Slot α := { s with destroyed := s.destroyed + 1 }

end Slot

/-- `SharedBuffer`. -/
structure SharedBuffer (α : Type*) where
  mRefs : Nat
  mSize : Nat
  items : Nat → Slot α
  freed : Bool

section Items

variable {α : Type*} (t : Traits) (size : Nat)

/-- A new item may begin its life in the slot. -/
def Traits.mayBuild (t : Traits) (s : Slot α) : Bool := t.trivialDtor || !s.live

/-- Items are constructed in the slots from `dest` on. -/
def buildItems (dest num : Nat) (val : Nat → Slot α → Option α) (items : Nat → Slot α) :
    Option (Nat → Slot α) :=
  if dest + num ≤ size ∧ ∀ i < num, t.mayBuild (items (dest + i)) then
    some fun j => if dest ≤ j ∧ j < dest + num then
        (items j).build (val (j - dest) (items j))
      else items j
  else none

/-- `_do_construct`, which leaves the bytes alone for a trivial constructor. -/
def doConstruct (default : α) (storage num : Nat) (items : Nat → Slot α) :
    Option (Nat → Slot α) :=
  buildItems t size storage num (fun _ s => if t.trivialCtor then s.val else some default) items

/-- `_do_splat`. -/
def doSplat (dest : Nat) (item : α) (num : Nat) (items : Nat → Slot α) :
    Option (Nat → Slot α) :=
  buildItems t size dest num (fun _ _ => some item) items

/-- `_do_copy` from an array outside of the storage. -/
def doCopyArray (dest : Nat) (array : List α) (items : Nat → Slot α) : Option (Nat → Slot α) :=
  buildItems t size dest array.length (fun i _ => array[i]?) items

/-- `_do_copy` from another buffer. -/
def doCopy (dest : Nat) (source : SharedBuffer α) (start num : Nat) (items : Nat → Slot α) :
    Option (Nat → Slot α) :=
  if start + num ≤ source.mSize ∧ ∀ i < num, (source.items (start + i)).live then
    buildItems t size dest num (fun i _ => (source.items (start + i)).val) items
  else none

/-- `_do_destroy`. -/
def doDestroy (storage num : Nat) (items : Nat → Slot α) : Option (Nat → Slot α) :=
  if t.trivialDtor then some items
  else if storage + num ≤ size ∧ ∀ i < num, (items (storage + i)).live then
    some fun j => if storage ≤ j ∧ j < storage + num then (items j).destroy else items j
  else none

/-- The types whose items are moved with `memmove`. -/
def Traits.movesBytes (t : Traits) : Bool := t.trivialDtor && t.trivialCopy || t.trivialMove

/-- The end of an item that has been moved away. -/
def Traits.leave (t : Traits) (s : Slot α) : Slot α := if t.trivialDtor then s else s.destroy

/-- What has happened to a slot when items have been moved. -/
def moved (dest start num : Nat) (items : Nat → Slot α) (j : Nat) : Slot α :=
  let s := if start ≤ j ∧ j < start + num then t.leave (items j) else items j
  if dest ≤ j ∧ j < dest + num then s.build (items (start + (j - dest))).val else s

/-- `memmove`; the items that are there move and no other one may be overwritten. -/
def memMove (dest start num : Nat) (items : Nat → Slot α) : Option (Nat → Slot α) :=
  if dest + num ≤ size ∧ start + num ≤ size ∧ (∀ i < num, (items (start + i)).live) ∧
      ∀ i < num, dest + i < start ∨ start + num ≤ dest + i → t.mayBuild (items (dest + i)) then
    some (moved t dest start num items)
  else none

/-- One round of the loops: the item is copied and the old one destroyed. -/
def moveItem (d s : Nat) (items : Nat → Slot α) : Option (Nat → Slot α) :=
  if d < size ∧ s < size ∧ d ≠ s ∧ (items s).live ∧ t.mayBuild (items d) then
    some (moved t d s 1 items)
  else none

/-- The loop of `move_forward_type`, from the last item to the first. -/
def moveForwardLoop (dest start : Nat) : Nat → (Nat → Slot α) → Option (Nat → Slot α)
  | 0, items => some items
  | n + 1, items =>
      (moveItem t size (dest + n) (start + n) items).bind (moveForwardLoop dest start n)

/-- The loop of `move_backward_type`. -/
def moveBackwardLoop : (dest start num : Nat) → (Nat → Slot α) → Option (Nat → Slot α)
  | _, _, 0, items => some items
  | dest, start, n + 1, items =>
      (moveItem t size dest start items).bind (moveBackwardLoop (dest + 1) (start + 1) n)

/-- `_do_move_forward`. -/
def doMoveForward (dest start num : Nat) (items : Nat → Slot α) : Option (Nat → Slot α) :=
  if t.movesBytes then memMove t size dest start num items
  else moveForwardLoop t size dest start num items

/-- `_do_move_backward`. -/
def doMoveBackward (dest start num : Nat) (items : Nat → Slot α) : Option (Nat → Slot α) :=
  if t.movesBytes then memMove t size dest start num items
  else moveBackwardLoop t size dest start num items

end Items

/-- The fields of `VectorImpl`. -/
structure VectorImpl where
  mStorage : Option Nat
  mCount : Nat
deriving DecidableEq

/-- The buffers that have been allocated and the vectors of one item type. -/
structure Vectors (ι α : Type*) where
  heap : Nat → SharedBuffer α
  next : Nat
  vecs : ι → VectorImpl

namespace Vectors

variable {ι α : Type*} [DecidableEq ι] (t : Traits) (s : Vectors ι α) (v : ι)

def setVec (vec : VectorImpl) : Vectors ι α := { s with vecs := Function.update s.vecs v vec }

def put (b : Nat) (buffer : SharedBuffer α) : Vectors ι α :=
  { s with heap := Function.update s.heap b buffer }

/-- `capacity`. -/
def capacity : Nat := (s.vecs v).mStorage.elim 0 fun b => (s.heap b).mSize

/-- `release_storage`.  The last vector destroys the items and frees the storage. -/
def releaseStorage : Option (Vectors ι α) :=
  match (s.vecs v).mStorage with
  | none => some s
  | some b =>
      let sb := s.heap b
      if sb.freed then none
      else if sb.mRefs = 1 then
        (doDestroy t sb.mSize 0 (s.vecs v).mCount sb.items).bind fun items =>
          if t.trivialDtor ∨ ∀ i < sb.mSize, (items i).live = false then
            some (s.put b ⟨0, sb.mSize, items, true⟩)
          else none
      else some (s.put b { sb with mRefs := sb.mRefs - 1 })

/-- A buffer from `SharedBuffer::alloc`, filled since, becomes the storage of the vector. -/
def install (size : Nat) (items : Nat → Slot α) : Vectors ι α :=
  { heap := Function.update s.heap s.next ⟨1, size, items, false⟩
    next := s.next + 1
    vecs := Function.update s.vecs v ⟨some s.next, (s.vecs v).mCount⟩ }

/-- The copies of items to new storage, each with its destination, start and number. -/
def copyParts (size : Nat) (source : SharedBuffer α) :
    List (Nat × Nat × Nat) → (Nat → Slot α) → Option (Nat → Slot α)
  | [], items => some items
  | (dest, start, num) :: rest, items =>
      (doCopy t size dest source start num items).bind (copyParts size source rest)

/-- The items of new storage with copies from the old one. -/
def copiesOf (size : Nat) (parts : List (Nat × Nat × Nat)) : Option (Nat → Slot α) :=
  match (s.vecs v).mStorage with
  | none => some fun _ => Slot.raw
  | some b =>
      if (s.heap b).freed then none else copyParts t size (s.heap b) parts fun _ => Slot.raw

/-- New storage is allocated, items are copied to it and the old storage is released. -/
def rehouse (size : Nat) (parts : List (Nat × Nat × Nat)) : Option (Vectors ι α) :=
  (s.copiesOf t v size parts).bind fun items =>
    (s.releaseStorage t v).map fun s => s.install v size items

/-- `editArrayImpl`, where `attemptEdit` is the test of the references. -/
def editArrayImpl : Option (Vectors ι α) :=
  match (s.vecs v).mStorage with
  | none => some s
  | some b =>
      if (s.heap b).mRefs = 1 then some s
      else s.rehouse t v (s.capacity v) [(0, 0, (s.vecs v).mCount)]

/-- `SharedBuffer::editResize`; the bytes up to the smaller size are kept. -/
def editResize (newSize : Nat) : Option (Vectors ι α) :=
  match (s.vecs v).mStorage with
  | none => some s
  | some b =>
      let sb := s.heap b
      let kept := fun i => if i < min newSize sb.mSize then sb.items i else Slot.raw
      if sb.freed then none
      else if sb.mRefs = 1 then
        if sb.mSize = newSize then some s
        else some (s.put b { sb with mSize := newSize, items := kept })
      else some ((s.put b { sb with mRefs := sb.mRefs - 1 }).install v newSize kept)

/-- The items in the storage of the vector are changed. -/
def editItems (edit : Nat → (Nat → Slot α) → Option (Nat → Slot α)) : Option (Vectors ι α) :=
  match (s.vecs v).mStorage with
  | none => none
  | some b =>
      if (s.heap b).freed then none
      else (edit (s.heap b).mSize (s.heap b).items).map fun items =>
        s.put b { s.heap b with items := items }

def setCount (count : Nat) : Vectors ι α := s.setVec v { s.vecs v with mCount := count }

/-- `kMinVectorCapacity`. -/
def kMinVectorCapacity : Nat := 4

/-- A copy of a part of the items; there is none when it is empty. -/
def part (dest start num : Nat) : List (Nat × Nat × Nat) :=
  if num ≠ 0 then [(dest, start, num)] else []

/-- `_grow`. -/
def grow (pos amount : Nat) : Option (Vectors ι α) :=
  let vec := s.vecs v
  let newSize := vec.mCount + amount
  let grown :=
    if s.capacity v < newSize then
      let newCapacity := max kMinVectorCapacity ((newSize * 3 + 1) / 2)
      if vec.mStorage.isSome ∧ vec.mCount = pos ∧ t.trivialCopy ∧ t.trivialDtor then
        s.editResize v newCapacity
      else s.rehouse t v newCapacity (part 0 0 pos ++ part (pos + amount) pos (vec.mCount - pos))
    else
      (s.editArrayImpl t v).bind fun s =>
        if pos ≠ vec.mCount then
          s.editItems v fun size => doMoveForward t size (pos + amount) pos (vec.mCount - pos)
        else some s
  grown.map fun s => s.setCount v newSize

/-- `_shrink`. -/
def shrink (pos amount : Nat) : Option (Vectors ι α) :=
  let vec := s.vecs v
  if vec.mStorage = none then some s
  else
    let newSize := vec.mCount - amount
    let shrunk :=
      if newSize * 3 < s.capacity v then
        let newCapacity := max kMinVectorCapacity (newSize * 2)
        if pos = newSize ∧ t.trivialCopy ∧ t.trivialDtor then s.editResize v newCapacity
        else s.rehouse t v newCapacity (part 0 0 pos ++ part pos (pos + amount) (newSize - pos))
      else
        (s.editArrayImpl t v).bind fun s =>
          (s.editItems v fun size => doDestroy t size pos amount).bind fun s =>
            if pos ≠ newSize then
              s.editItems v fun size => doMoveBackward t size pos (pos + amount) (newSize - pos)
            else some s
    shrunk.map fun s => s.setCount v newSize

/-- The items of `item`, or default ones when there is none. -/
def fill (default : α) (item : Option α) (pos num size : Nat) (items : Nat → Slot α) :
    Option (Nat → Slot α) :=
  match item with
  | some a => doSplat t size pos a num items
  | none => doConstruct t size default pos num items

/-- The copy constructor: the storage is shared. -/
def copyConstruct (rhs : ι) : Vectors ι α :=
  let vec := s.vecs rhs
  match vec.mStorage with
  | none => s.setVec v vec
  | some b => (s.put b { s.heap b with mRefs := (s.heap b).mRefs + 1 }).setVec v vec

/-- `operator =`. -/
def assign (rhs : ι) : Option (Vectors ι α) :=
  if v = rhs then some s
  else
    (s.releaseStorage t v).map fun s =>
      if (s.vecs rhs).mCount ≠ 0 then s.copyConstruct v rhs else s.setVec v ⟨none, 0⟩

/-- `insertAt`. -/
def insertAt (default : α) (item : Option α) (index numItems : Nat) : Option (Vectors ι α) :=
  if (s.vecs v).mCount < index then some s
  else
    (s.grow t v index numItems).bind fun s =>
      s.editItems v fun size => fill t default item index numItems size

/-- `insertArrayAt`. -/
def insertArrayAt (array : List α) (index : Nat) : Option (Vectors ι α) :=
  if (s.vecs v).mCount < index then some s
  else
    (s.grow t v index array.length).bind fun s =>
      s.editItems v fun size => doCopyArray t size index array

/-- `replaceAt`. -/
def replaceAt (default : α) (item : Option α) (index : Nat) : Option (Vectors ι α) :=
  if (s.vecs v).mCount ≤ index then some s
  else
    (s.editArrayImpl t v).bind fun s =>
      s.editItems v fun size items =>
        (doDestroy t size index 1 items).bind (fill t default item index 1 size)

/-- `removeItemsAt`. -/
def removeItemsAt (index count : Nat) : Option (Vectors ι α) :=
  if (s.vecs v).mCount < index + count then some s else s.shrink t v index count

/-- `push`. -/
def push (default : α) (item : Option α) : Option (Vectors ι α) :=
  s.insertAt t v default item (s.vecs v).mCount 1

/-- `pop`. -/
def pop : Option (Vectors ι α) :=
  if (s.vecs v).mCount ≠ 0 then s.removeItemsAt t v ((s.vecs v).mCount - 1) 1 else some s

/-- `resize`. -/
def resize (default : α) (size : Nat) : Option (Vectors ι α) :=
  let count := (s.vecs v).mCount
  if count < size then s.insertAt t v default none count (size - count)
  else if size < count then s.removeItemsAt t v size (count - size)
  else some s

/-- `setCapacity`. -/
def setCapacity (newCapacity : Nat) : Option (Vectors ι α) :=
  if newCapacity ≤ (s.vecs v).mCount then some s
  else s.rehouse t v newCapacity [(0, 0, (s.vecs v).mCount)]

/-- `clear`. -/
def clear : Option (Vectors ι α) := s.shrink t v 0 (s.vecs v).mCount

/-- `finish_vector`. -/
def finishVector : Option (Vectors ι α) :=
  (s.releaseStorage t v).map fun s => s.setVec v ⟨none, 0⟩

end Vectors

/-- The calls on vectors. -/
inductive VectorCall (ι α : Type*)
  | copyConstruct (v rhs : ι)
  | assign (v rhs : ι)
  | insertAt (v : ι) (item : Option α) (index numItems : Nat)
  | insertArrayAt (v : ι) (array : List α) (index : Nat)
  | replaceAt (v : ι) (item : Option α) (index : Nat)
  | removeItemsAt (v : ι) (index count : Nat)
  | push (v : ι) (item : Option α)
  | pop (v : ι)
  | resize (v : ι) (size : Nat)
  | setCapacity (v : ι) (newCapacity : Nat)
  | clear (v : ι)
  | finishVector (v : ι)

namespace Vectors

variable {ι α : Type*} [DecidableEq ι] (t : Traits) (default : α)

def call (s : Vectors ι α) : VectorCall ι α → Option (Vectors ι α)
  | .copyConstruct v rhs => some (s.copyConstruct v rhs)
  | .assign v rhs => s.assign t v rhs
  | .insertAt v item index numItems => s.insertAt t v default item index numItems
  | .insertArrayAt v array index => s.insertArrayAt t v array index
  | .replaceAt v item index => s.replaceAt t v default item index
  | .removeItemsAt v index count => s.removeItemsAt t v index count
  | .push v item => s.push t v default item
  | .pop v => s.pop t v
  | .resize v size => s.resize t v default size
  | .setCapacity v newCapacity => s.setCapacity t v newCapacity
  | .clear v => s.clear t v
  | .finishVector v => s.finishVector t v

end Vectors

/-- The vectors of a program, all of which are empty at first. -/
def vectorMachine (ι : Type*) {α : Type*} [DecidableEq ι] (t : Traits) (default : α) :
    Lib.Machine (Vectors ι α) (VectorCall ι α) where
  init s := s = ⟨fun _ => ⟨0, 0, fun _ => Slot.raw, true⟩, 0, fun _ => ⟨none, 0⟩⟩
  step s c := s.call t default c

end Utils
end AndroidLinux
