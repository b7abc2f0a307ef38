import AndroidLinux.Lib.Buckets

/-!
# The hash map

The functions of `hashmap.c`.  A bucket is the list of its entries; the buckets that
`calloc` has zeroed are empty.  Keys and values are pointers of arbitrary types, where `0`
is the value `NULL`.  Each call is told whether the allocations it may make succeed;
`calloc` also fails when the number of bytes does not fit into `size_t`.
-/

namespace AndroidLinux
namespace Cutils

open Lib

/-- The `hash` and the `equals` that a map is created with, which are consistent. -/
structure KeyFunctions (K : Type*) where
  hash : K → UInt32
  equals : K → K → Bool
  equivalence : Equivalence fun keyA keyB => equals keyA keyB = true
  consistent : ∀ keyA keyB, equals keyA keyB = true → hash keyA = hash keyB

structure Entry (K V : Type*) where
  key : K
  hash : UInt32
  value : V

structure Hashmap (K V : Type*) where
  buckets : Nat → List (Entry K V)
  bucketCount : Nat
  size : Nat

/-- A `size_t` has 32 bits. -/
def sizeLimit : Nat := 2 ^ 32

/-- Whether `calloc(count, sizeof(Entry*))` gives memory, when there is some or not. -/
def callocs (granted : Bool) (count : Nat) : Bool := granted && decide (count * 4 < sizeLimit)

variable {K V : Type*} [DecidableEq K] [Zero V]

/-- The loop of `hashmapCreate`. -/
def firstBucketCount (minimumBucketCount : Nat) : Nat → Nat → Nat
  | 0, bucketCount => bucketCount
  | fuel + 1, bucketCount =>
      if bucketCount ≤ minimumBucketCount then
        firstBucketCount minimumBucketCount fuel (bucketCount * 2 % sizeLimit)
      else bucketCount

/-- `hashmapCreate`. -/
def hashmapCreate (initialCapacity : Nat) (mapGranted bucketsGranted : Bool) :
    Option (Hashmap K V) :=
  let minimumBucketCount := initialCapacity * 4 % sizeLimit / 3
  let bucketCount := firstBucketCount minimumBucketCount 32 1
  if mapGranted ∧ callocs bucketsGranted bucketCount then
    some { buckets := fun _ => [], bucketCount := bucketCount, size := 0 }
  else none

namespace KeyFunctions

variable (map : KeyFunctions K)

/-- `hashKey`. -/
def hashKey (key : K) : UInt32 :=
  let h := map.hash key
  let h := h + ~~~(h <<< 9)
  let h := h ^^^ (h >>> 14)
  let h := h + (h <<< 4)
  h ^^^ (h >>> 10)

/-- `equalKeys`, of an entry and a key with its hash. -/
def equalKeys (entry : Entry K V) (key : K) (hash : UInt32) : Bool :=
  if entry.key = key then true
  else if entry.hash ≠ hash then false
  else map.equals entry.key key

end KeyFunctions

/-- `calculateIndex`. -/
def calculateIndex (bucketCount : Nat) (hash : UInt32) : Nat :=
  hash.toNat &&& (bucketCount - 1)

/-- One entry goes to the front of its new bucket. -/
def moveEntry (newBucketCount : Nat) (newBuckets : Nat → List (Entry K V))
    (entry : Entry K V) : Nat → List (Entry K V) :=
  let index := calculateIndex newBucketCount entry.hash
  Function.update newBuckets index (entry :: newBuckets index)

/-- `expandIfNecessary`. -/
def expandIfNecessary (map : Hashmap K V) (granted : Bool) : Hashmap K V :=
  if map.size > map.bucketCount * 3 % sizeLimit / 4 then
    let newBucketCount := map.bucketCount * 2 % sizeLimit
    if callocs granted newBucketCount then
      { map with
        buckets := (gather map.buckets map.bucketCount).foldl (moveEntry newBucketCount)
          fun _ => []
        bucketCount := newBucketCount }
    else map
  else map

/-- The loop of `hashmapPut` over a chain: the chain behind it and the old value, when the
key is there. -/
def putLoop (sameKey : Entry K V → Bool) (value : V) :
    List (Entry K V) → List (Entry K V) × Option V
  | [] => ([], none)
  | current :: next =>
      if sameKey current then ({ current with value := value } :: next, some current.value)
      else
        let rest := putLoop sameKey value next
        (current :: rest.1, rest.2)

/-- The loop of `hashmapRemove` over a chain. -/
def removeLoop (sameKey : Entry K V → Bool) :
    List (Entry K V) → List (Entry K V) × Option V
  | [] => ([], none)
  | current :: next =>
      if sameKey current then (next, some current.value)
      else
        let rest := removeLoop sameKey next
        (current :: rest.1, rest.2)

/-- The loop of `hashmapForEach`: the entries for which `callback` is called.  Its answer
may depend on all calls so far. -/
def forEachLoop (callback : List (K × V) → Bool) (visited : List (K × V)) :
    List (Entry K V) → List (K × V)
  | [] => visited
  | entry :: next =>
      if callback (visited ++ [(entry.key, entry.value)]) then
        forEachLoop callback (visited ++ [(entry.key, entry.value)]) next
      else visited ++ [(entry.key, entry.value)]

namespace Hashmap

variable (keys : KeyFunctions K) (map : Hashmap K V)

/-- The bucket that a key belongs to. -/
def bucket (key : K) : Nat := calculateIndex map.bucketCount (keys.hashKey key)

/-- The test of the loops. -/
def sameKey (key : K) (entry : Entry K V) : Bool :=
  keys.equalKeys entry key (keys.hashKey key)

/-- A bucket is written. -/
def setBucket (index : Nat) (chain : List (Entry K V)) : Hashmap K V :=
  { map with buckets := Function.update map.buckets index chain }

/-- A new entry at the end of its chain; `expandIfNecessary` follows. -/
def insert (key : K) (value : V) (tableGranted : Bool) : Hashmap K V :=
  let index := map.bucket keys key
  let map := map.setBucket index (map.buckets index ++ [⟨key, keys.hashKey key, value⟩])
  expandIfNecessary { map with size := map.size + 1 } tableGranted

/-- `hashmapPut`. -/
def hashmapPut (key : K) (value : V) (entryGranted tableGranted : Bool) :
    V × Hashmap K V :=
  let index := map.bucket keys key
  match putLoop (sameKey keys key) value (map.buckets index) with
  | (_, none) =>
      if entryGranted then (0, map.insert keys key value tableGranted)
      else (0, map)
  | (chain, some oldValue) => (oldValue, map.setBucket index chain)

/-- The entry that `hashmapGet` and `hashmapContainsKey` come to. -/
def find (key : K) : Option (Entry K V) :=
  (map.buckets (map.bucket keys key)).find? (sameKey keys key)

/-- `hashmapGet`. -/
def hashmapGet (key : K) : V := (map.find keys key).elim 0 Entry.value

/-- `hashmapContainsKey`. -/
def hashmapContainsKey (key : K) : Bool := (map.find keys key).isSome

/-- `hashmapMemoize`. -/
def hashmapMemoize (key : K) (initialValue : K → V) (entryGranted tableGranted : Bool) :
    V × Hashmap K V :=
  match map.find keys key with
  | some current => (current.value, map)
  | none =>
      if entryGranted then
        (initialValue key, map.insert keys key (initialValue key) tableGranted)
      else (0, map)

/-- `hashmapRemove`. -/
def hashmapRemove (key : K) : V × Hashmap K V :=
  let index := map.bucket keys key
  match removeLoop (sameKey keys key) (map.buckets index) with
  | (_, none) => (0, map)
  | (chain, some value) => (value, { map.setBucket index chain with size := map.size - 1 })

/-- `hashmapForEach`: what the callback is called with. -/
def hashmapForEach (callback : List (K × V) → Bool) : List (K × V) :=
  forEachLoop callback [] (gather map.buckets map.bucketCount)

/-- `hashmapSize`. -/
def hashmapSize : Nat := map.size

end Hashmap

/-- The calls of a client. -/
inductive MapCall (K V : Type*)
  | put (key : K) (value : V) (entryGranted tableGranted : Bool)
  | get (key : K)
  | containsKey (key : K)
  | memoize (key : K) (initialValue : K → V) (entryGranted tableGranted : Bool)
  | remove (key : K)
  | forEach (callback : List (K × V) → Bool)
  | size

/-- What a call returns, or what its callback sees. -/
inductive MapResult (K V : Type*)
  | value (v : V)
  | truth (b : Bool)
  | visits (visited : List (K × V))
  | number (n : Nat)

namespace Hashmap

variable (keys : KeyFunctions K)

def call (map : Hashmap K V) : MapCall K V → MapResult K V × Hashmap K V
  | .put key value entryGranted tableGranted =>
      let r := map.hashmapPut keys key value entryGranted tableGranted
      (.value r.1, r.2)
  | .get key => (.value (map.hashmapGet keys key), map)
  | .containsKey key => (.truth (map.hashmapContainsKey keys key), map)
  | .memoize key initialValue entryGranted tableGranted =>
      let r := map.hashmapMemoize keys key initialValue entryGranted tableGranted
      (.value r.1, r.2)
  | .remove key =>
      let r := map.hashmapRemove keys key
      (.value r.1, r.2)
  | .forEach callback => (.visits (map.hashmapForEach callback), map)
  | .size => (.number map.hashmapSize, map)

/-- The results of a sequence of calls and the map behind it. -/
def calls (map : Hashmap K V) : List (MapCall K V) → List (MapResult K V) × Hashmap K V
  | [] => ([], map)
  | c :: rest =>
      let r := map.call keys c
      let s := calls r.2 rest
      (r.1 :: s.1, s.2)

end Hashmap
end Cutils
end AndroidLinux
