import Mathlib.Tactic

/-!
# Sorted vectors

`SortedVectorImpl` of `VectorImpl.cpp` and `KeyedVector` over it.  A vector is the list of
its items; the operations of `VectorImpl` that are used here are the list operations.
Allocations succeed.
-/

namespace AndroidLinux
namespace Utils

/-- A `do_compare` that is a total order: its sign says how two items stand. -/
structure Comparison (α : Type*) where
  doCompare : α → α → Int
  flip : ∀ a b, doCompare a b < 0 ↔ 0 < doCompare b a
  trans : ∀ a b c, doCompare a b ≤ 0 → doCompare b c ≤ 0 → doCompare a c ≤ 0

def NAME_NOT_FOUND : Int := -2
def NO_ERROR : Int := 0

variable {α : Type*}

/-! ## The list operations of `VectorImpl` -/

/-- `VectorImpl::insertAt`, of one item. -/
def insertAt (items : List α) (item : α) (index : Nat) : List α :=
  items.take index ++ item :: items.drop index

/-- `VectorImpl::replaceAt`. -/
def replaceAt (items : List α) (item : α) (index : Nat) : List α := items.set index item

/-- `VectorImpl::removeItemsAt`. -/
def removeItemsAt (items : List α) (index count : Nat) : List α :=
  items.take index ++ items.drop (index + count)

/-- `VectorImpl::insertVectorAt`. -/
def insertVectorAt (items vector : List α) (index : Nat) : List α :=
  items.take index ++ vector ++ items.drop index

/-- `VectorImpl::appendVector`. -/
def appendVector (items vector : List α) : List α := insertVectorAt items vector items.length

/-! ## `SortedVectorImpl` -/

namespace SortedVector

variable (cmp : Comparison α)

/-- The loop of `_indexOrderOf`, with `l` and `h`: `err` and `l`. -/
def searchLoop (items : List α) (item : α) : Nat → Int → Int → Int × Int
  | 0, l, _ => (NAME_NOT_FOUND, l)
  | fuel + 1, l, h =>
      if l ≤ h then
        let mid := l + (h - l) / 2
        match items[mid.toNat]? with
        | none => (NAME_NOT_FOUND, l)
        | some curr =>
            let c := cmp.doCompare curr item
            if c = 0 then (mid, mid)
            else if c < 0 then searchLoop items item fuel (mid + 1) h
            else searchLoop items item fuel l (mid - 1)
      else (NAME_NOT_FOUND, l)

/-- `_indexOrderOf`.  Each round of the loop leaves a shorter range, so that it is over when
there have been as many rounds as there are items. -/
def indexOrderOf (items : List α) (item : α) : Int × Int :=
  searchLoop cmp items item items.length 0 (items.length - 1)

/-- `indexOf`. -/
def indexOf (items : List α) (item : α) : Int := (indexOrderOf cmp items item).1

/-- `orderOf`. -/
def orderOf (items : List α) (item : α) : Int := (indexOrderOf cmp items item).2

/-- `add`: the result and the items. -/
def add (items : List α) (item : α) : Int × List α :=
  let r := indexOrderOf cmp items item
  if r.1 < 0 then (r.2, insertAt items item r.2.toNat)
  else (r.1, replaceAt items item r.1.toNat)

/-- The loop of `merge(const VectorImpl&)`. -/
def mergeLoop (items : List α) : List α → Int × List α
  | [] => (NO_ERROR, items)
  | item :: rest =>
      let r := add cmp items item
      if r.1 < 0 then r else mergeLoop r.2 rest

/-- `merge(const VectorImpl&)`. -/
def mergeVector (items vector : List α) : Int × List α := mergeLoop cmp items vector

/-- `merge(const SortedVectorImpl&)`; `none` when it compares with an item of an empty
vector. -/
def mergeSorted (items vector : List α) : Option (Int × List α) :=
  match vector.head?, vector.getLast? with
  | some first, some last =>
      match items.head?, items.getLast? with
      | some head, some tail =>
          if cmp.doCompare last head ≤ 0 then some (NO_ERROR, insertVectorAt items vector 0)
          else if 0 ≤ cmp.doCompare first tail then
            some (items.length, appendVector items vector)
          else some (mergeVector cmp items vector)
      | _, _ => none
  | _, _ => some (NO_ERROR, items)

/-- `remove`. -/
def remove (items : List α) (item : α) : Int × List α :=
  let i := indexOf cmp items item
  if 0 ≤ i then (i, removeItemsAt items i.toNat 1) else (i, items)

end SortedVector

/-- The calls that change a sorted vector. -/
inductive SortedCall (α : Type*)
  | add (item : α)
  | remove (item : α)
  | mergeVector (vector : List α)
  | mergeSorted (vector : List α)

/-- A call; `none` when it reads an item that is not there. -/
def SortedCall.run (cmp : Comparison α) (items : List α) : SortedCall α → Option (List α)
  | .add item => some (SortedVector.add cmp items item).2
  | .remove item => some (SortedVector.remove cmp items item).2
  | .mergeVector vector => some (SortedVector.mergeVector cmp items vector).2
  | .mergeSorted vector => (SortedVector.mergeSorted cmp items vector).map Prod.snd

/-! ## `KeyedVector` -/

namespace KeyedVector

variable {K V : Type*} [LinearOrder K]

/-- `strictly_order_type`, of two pairs, which compares their keys. -/
def strictlyOrderType (lhs rhs : K × V) : Int := if lhs.1 < rhs.1 then 1 else 0

/-- `compare_type`. -/
def compareType (lhs rhs : K × V) : Int := strictlyOrderType rhs lhs - strictlyOrderType lhs rhs

theorem compareType_neg (lhs rhs : K × V) : compareType lhs rhs < 0 ↔ lhs.1 < rhs.1 := by
  unfold compareType strictlyOrderType
  rcases lt_trichotomy lhs.1 rhs.1 with h | h | h
  · simp [h, h.not_gt]
  · simp [h]
  · simp [h, h.not_gt]

theorem compareType_pos (lhs rhs : K × V) : 0 < compareType lhs rhs ↔ rhs.1 < lhs.1 := by
  unfold compareType strictlyOrderType
  rcases lt_trichotomy lhs.1 rhs.1 with h | h | h
  · simp [h, h.not_gt]
  · simp [h]
  · simp [h, h.not_gt]

/-- The `do_compare` of the pairs. -/
def keyCompare (K V : Type*) [LinearOrder K] : Comparison (K × V) where
  doCompare := compareType
  flip a b := (compareType_neg a b).trans (compareType_pos b a).symm
  trans a b c hab hbc := by
    rw [← not_lt, compareType_pos, not_lt] at *
    exact hab.trans hbc

variable [Inhabited V]

/-- `key_value_pair_t(key)`, with a default value. -/
def keyPair (key : K) : K × V := (key, default)

/-- `indexOfKey`. -/
def indexOfKey (pairs : List (K × V)) (key : K) : Int :=
  SortedVector.indexOf (keyCompare K V) pairs (keyPair key)

/-- `valueFor`; `none` is the fatal error. -/
def valueFor (pairs : List (K × V)) (key : K) : Option V :=
  let i := indexOfKey pairs key
  if i < 0 then none else pairs[i.toNat]?.map Prod.snd

/-- `add`. -/
def add (pairs : List (K × V)) (key : K) (value : V) : Int × List (K × V) :=
  SortedVector.add (keyCompare K V) pairs (key, value)

/-- `replaceValueFor`. -/
def replaceValueFor (pairs : List (K × V)) (key : K) (value : V) : Int × List (K × V) :=
  let pairs := (SortedVector.remove (keyCompare K V) pairs (key, value)).2
  SortedVector.add (keyCompare K V) pairs (key, value)

/-- `removeItem`. -/
def removeItem (pairs : List (K × V)) (key : K) : Int × List (K × V) :=
  SortedVector.remove (keyCompare K V) pairs (keyPair key)

end KeyedVector

/-- The calls that change a keyed vector. -/
inductive KeyedCall (K V : Type*)
  | add (key : K) (value : V)
  | replaceValueFor (key : K) (value : V)
  | removeItem (key : K)

def KeyedCall.run {K V : Type*} [LinearOrder K] [Inhabited V] (pairs : List (K × V)) :
    KeyedCall K V → List (K × V)
  | .add key value => (KeyedVector.add pairs key value).2
  | .replaceValueFor key value => (KeyedVector.replaceValueFor pairs key value).2
  | .removeItem key => (KeyedVector.removeItem pairs key).2

end Utils
end AndroidLinux
