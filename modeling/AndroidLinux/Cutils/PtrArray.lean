import AndroidLinux.Lib.Transition

/-!
# The array of pointers

The functions of `array.c`.  `contents` is `NULL` or a block of memory, of which the first
`capacity` entries belong to the array; what the allocator leaves in a new entry is unknown.
Each function also tells which entries of `contents` it writes.
-/

namespace AndroidLinux
namespace Cutils

open Lib

inductive Abi
  | ilp32
  | lp64
  deriving DecidableEq

namespace Abi

def sizeofPointer : Abi → Int
  | ilp32 => 4
  | lp64 => 8

/-- `MAX_CAPACITY`, where `UINT_MAX` has 32 bits in both. -/
def maxCapacity (abi : Abi) : Int := (2 ^ 32 - 1) / abi.sizeofPointer

end Abi

/-- `INITIAL_CAPACITY`. -/
def initialArrayCapacity : Int := 4

/-- What `malloc` and `realloc` do in a call: whether they grant the memory, and what is in the
entries they add. -/
structure Allocator (P : Type*) where
  granted : Bool
  junk : Int → P

/-- `struct Array`. -/
structure PtrArray (P : Type*) where
  contents : Option (Int → P)
  size : Int
  capacity : Int

inductive ArrayCall (P : Type*)
  | add (pointer : P)
  | get (index : Int)
  | remove (index : Int)
  | set (index : Int) (pointer : P)
  | setSize (newSize : Int)

inductive ArrayResult (P : Type*)
  | status (code : Int)
  | pointer (p : P)

/-- What a call leaves behind.  It has written the entries of `contents` from the first bound up
to the second. -/
structure ArrayOutcome (P : Type*) where
  array : PtrArray P
  result : ArrayResult P
  written : Int × Int

variable {P : Type*} [Zero P] (abi : Abi)

/-- One pass of the loop of `ensureCapacity`, in an `int` of 32 bits. -/
def doubledCapacity (newCapacity : Int) : Int :=
  let newCap := Int.bmod (newCapacity * 2) (2 ^ 32)
  if newCap < newCapacity ∨ abi.maxCapacity < newCap then abi.maxCapacity else newCap

/-- The loop of `ensureCapacity`, with a bound for its passes. -/
def capacityLoop (capacity : Int) : Nat → Int → Option Int
  | 0, _ => none
  | passes + 1, newCapacity =>
      if newCapacity < capacity then capacityLoop capacity passes (doubledCapacity abi newCapacity)
      else some newCapacity

namespace PtrArray

/-- `array->contents[index]`. -/
def read (array : PtrArray P) (index : Int) : P :=
  match array.contents with
  | none => 0
  | some contents => contents index

/-- Write entries of `array->contents` and set `array->size`. -/
def update (array : PtrArray P) (f : (Int → P) → Int → P) (size : Int) : PtrArray P :=
  { array with contents := array.contents.map f, size := size }

/-- `malloc` where there are no contents yet, else `realloc`. -/
def reallocate (array : PtrArray P) (memory : Allocator P) (newCapacity : Int) : PtrArray P :=
  { array with
    capacity := newCapacity
    contents := some fun i => if i < array.capacity then array.read i else memory.junk i }

def ensureCapacity (array : PtrArray P) (memory : Allocator P) (capacity : Int) :
    Option (Int × PtrArray P) :=
  let oldCapacity := array.capacity
  if oldCapacity < capacity then
    let newCapacity := if oldCapacity = 0 then initialArrayCapacity else oldCapacity
    if abi.maxCapacity < capacity then some (-1, array)
    else (capacityLoop abi capacity 32 newCapacity).map fun newCapacity =>
      if newCapacity < 0 ∨ abi.maxCapacity < newCapacity then (-1, array)
      else if memory.granted then (0, array.reallocate memory newCapacity)
      else (-1, array)
  else some (0, array)

def arrayAdd (array : PtrArray P) (memory : Allocator P) (pointer : P) :
    Option (ArrayOutcome P) :=
  let size := array.size
  (array.ensureCapacity abi memory (size + 1)).map fun (result, array) =>
    if result < 0 then ⟨array, .status result, 0, 0⟩
    else
      ⟨array.update (fun old i => if i = size then pointer else old i) (array.size + 1),
        .status 0, size, size + 1⟩

/-- `checkBounds`: the assertions that end the program. -/
def checkBounds (array : PtrArray P) (index : Int) : Prop :=
  index < array.size ∧ 0 ≤ index

instance (array : PtrArray P) (index : Int) : Decidable (array.checkBounds index) :=
  inferInstanceAs (Decidable (_ ∧ _))

def arrayGet (array : PtrArray P) (index : Int) : Option (ArrayOutcome P) :=
  if array.checkBounds index then some ⟨array, .pointer (array.read index), 0, 0⟩ else none

def arrayRemove (array : PtrArray P) (index : Int) : Option (ArrayOutcome P) :=
  if array.checkBounds index then
    let pointer := array.read index
    let newSize := array.size - 1
    -- the `memmove` of the entries behind the index
    let shifted := array.update (fun old i =>
      if index ≤ i ∧ i < newSize then old (i + 1) else old i) newSize
    some ⟨shifted, .pointer pointer, index, newSize⟩
  else none

def arraySet (array : PtrArray P) (index : Int) (pointer : P) : Option (ArrayOutcome P) :=
  if array.checkBounds index then
    let old := array.read index
    some ⟨array.update (fun old i => if i = index then pointer else old i) array.size,
      .pointer old, index, index + 1⟩
  else none

def arraySetSize (array : PtrArray P) (memory : Allocator P) (newSize : Int) :
    Option (ArrayOutcome P) :=
  if 0 ≤ newSize then
    let oldSize := array.size
    if oldSize < newSize then
      (array.ensureCapacity abi memory newSize).map fun (result, array) =>
        if result < 0 then ⟨array, .status result, 0, 0⟩
        else
          -- the pointer has a type, so that the offset is in entries
          let start := abi.sizeofPointer * oldSize
          let finish := start + (newSize - oldSize)
          ⟨array.update (fun old i => if start ≤ i ∧ i < finish then 0 else old i) newSize,
            .status 0, start, finish⟩
    else some ⟨{ array with size := newSize }, .status 0, 0, 0⟩
  else none

def call (array : PtrArray P) (memory : Allocator P) : ArrayCall P → Option (ArrayOutcome P)
  | .add pointer => array.arrayAdd abi memory pointer
  | .get index => array.arrayGet index
  | .remove index => array.arrayRemove index
  | .set index pointer => array.arraySet index pointer
  | .setSize newSize => array.arraySetSize abi memory newSize

/-- `arrayCreate`, and then one call after the other. -/
def machine (P : Type*) [Zero P] : Machine (PtrArray P) (Allocator P × ArrayCall P) where
  init array := array = ⟨none, 0, 0⟩
  step array action := (array.call abi action.1 action.2).map (·.array)

/-- The list that the array stands for. -/
def toList (array : PtrArray P) : List P :=
  (List.range array.size.toNat).map fun i : Nat => array.read i

end PtrArray

/-- What a call does to a list that may be at most `limit` long, where memory is granted or
not. -/
inductive ListCall (limit : Int) (granted : Bool) :
    List P → ArrayCall P → ArrayResult P → List P → Prop
  | add (l : List P) (pointer : P) :
      ListCall limit granted l (.add pointer) (.status 0) (l ++ [pointer])
  | addFails (l : List P) (pointer : P) (h : granted = false ∨ limit < l.length + 1) :
      ListCall limit granted l (.add pointer) (.status (-1)) l
  | get (l : List P) (i : Nat) (h : i < l.length) :
      ListCall limit granted l (.get i) (.pointer l[i]) l
  | remove (l : List P) (i : Nat) (h : i < l.length) :
      ListCall limit granted l (.remove i) (.pointer l[i]) (l.eraseIdx i)
  | set (l : List P) (i : Nat) (pointer : P) (h : i < l.length) :
      ListCall limit granted l (.set i pointer) (.pointer l[i]) (l.set i pointer)
  | setSize (l : List P) (n : Nat) :
      ListCall limit granted l (.setSize n) (.status 0)
        (l.take n ++ List.replicate (n - l.length) 0)
  | setSizeFails (l : List P) (n : Nat) (hn : l.length < n) (h : granted = false ∨ limit < n) :
      ListCall limit granted l (.setSize n) (.status (-1)) l

/-- A call that the caller may make. -/
def ArrayCall.InRange (size : Int) : ArrayCall P → Prop
  | .add _ => True
  | .get index | .remove index | .set index _ => 0 ≤ index ∧ index < size
  | .setSize newSize => 0 ≤ newSize

namespace PtrArray

/-- The call returns, does to the list what it should, and writes only entries that the array
has. -/
def Answers (array : PtrArray P) (memory : Allocator P) (c : ArrayCall P) : Prop :=
  ∃ outcome, array.call abi memory c = some outcome ∧
    ListCall abi.maxCapacity memory.granted array.toList c outcome.result outcome.array.toList ∧
    (outcome.written.1 < outcome.written.2 →
      0 ≤ outcome.written.1 ∧ outcome.written.2 ≤ outcome.array.capacity)

/-- In every run whose calls meet the condition, the array behaves as a list. -/
def RefinesList (P : Type*) [Zero P] (condition : PtrArray P → Allocator P × ArrayCall P → Prop) :
    Prop :=
  ∀ array, (machine abi P).ReachWhen condition array →
    array.size ≤ array.capacity ∧
      ∀ memory c, c.InRange array.size → condition array (memory, c) →
        array.Answers abi memory c

/-- No call that lets an array grow which is not empty, unless the memory for it is refused. -/
def ClearsFromStart (array : PtrArray P) (action : Allocator P × ArrayCall P) : Prop :=
  ∀ newSize, action.2 = .setSize newSize → array.size < newSize →
    array.size = 0 ∨ abi.maxCapacity < newSize ∨
      (array.capacity < newSize ∧ action.1.granted = false)

end PtrArray
end Cutils
end AndroidLinux
