import Mathlib.Data.UInt
import Mathlib.Data.List.Basic

/-!
# The map of the event tags

The functions of `event_tag_map.c`.  The mapping is the list of its bytes.  A pointer into it
is a cursor, which holds the bytes behind it, with the NULs that have been written there, the
byte it points at, and the bytes ahead.  To advance it beyond the last byte is an error of its
own.
-/

namespace AndroidLinux
namespace Logcat
namespace EventTags

def newline : UInt8 := 10

def hash : UInt8 := 35

def isCharWhitespace (c : UInt8) : Bool :=
  c == 32 || c == newline || c == 13 || c == 9

def isCharValidTag (c : UInt8) : Bool :=
  (65 ≤ c && c ≤ 90) || (97 ≤ c && c ≤ 122) || (48 ≤ c && c ≤ 57) || c == 95

def isCharDigit (c : UInt8) : Bool := 48 ≤ c && c ≤ 57

/-- White space within a line. -/
def isBlank (c : UInt8) : Bool := c != newline && isCharWhitespace c

/-- `tagStr` is the offset of the name in the mapping. -/
structure EventTag where
  tagIndex : UInt32
  tagStr : Nat
  deriving DecidableEq

structure EventTagMap where
  mapAddr : List UInt8
  tagArray : List EventTag

/-- The file is refused, the mapping is left, or the passes did not suffice. -/
inductive Fault
  | failed
  | outside
  | unfinished
  deriving DecidableEq

structure Cursor where
  behind : List UInt8
  char : UInt8
  ahead : List UInt8

/-! ## Counting -/

/-- The loop of `countMapLines`, from a byte on. -/
def countLoop : Bool → List UInt8 → Nat
  | _, [] => 0
  | unknown, c :: rest =>
      if c = newline then countLoop true rest
      else if unknown then
        if isCharDigit c then countLoop false rest + 1
        else if isCharWhitespace c then countLoop true rest
        else countLoop false rest
      else countLoop false rest

def countMapLines (map : List UInt8) : Nat := countLoop true map

/-! ## Parsing -/

/-- Advance while the bytes are of a kind. -/
def scanAhead (p : UInt8 → Bool) : List UInt8 → List UInt8 → Except Fault Cursor
  | _, [] => .error .outside
  | behind, c :: ahead => if p c then scanAhead p (behind ++ [c]) ahead else .ok ⟨behind, c, ahead⟩

namespace Cursor

/-- The loop `while (p(*++cp))`. -/
def skipWhile (p : UInt8 → Bool) (cp : Cursor) : Except Fault Cursor :=
  scanAhead p (cp.behind ++ [cp.char]) cp.ahead

/-- `*cp = '\0'`. -/
def zap (cp : Cursor) : Cursor := { cp with char := 0 }

end Cursor

/-- `strtoul` of decimal digits, and its conversion to `unsigned int`. -/
def strtoul (ulongMax : Nat) (digits : List UInt8) : UInt32 :=
  UInt32.ofNat (min (digits.foldl (fun val d => val * 10 + (d.toNat - 48)) 0) ulongMax)

def scanTagLine (ulongMax : Nat) (pData : Cursor) : Except Fault (Cursor × EventTag) := do
  let cp ← pData.skipWhile isCharDigit
  let cp := cp.zap
  let tagIndex := strtoul ulongMax (cp.behind.drop pData.behind.length)
  let cp ← cp.skipWhile isBlank
  if cp.char = newline then .error .failed
  else
    let tagStr := cp.behind.length
    let cp ← cp.skipWhile isCharValidTag
    if cp.char = newline then .ok (cp.zap, ⟨tagIndex, tagStr⟩)
    else if isCharWhitespace cp.char then
      let cp ← cp.zap.skipWhile fun c => c != newline
      .ok (cp, ⟨tagIndex, tagStr⟩)
    else .error .failed

/-- The loop of `parseMapLines`, with a bound for its passes. -/
def parseLoop (ulongMax numTags : Nat) :
    Nat → Bool → List EventTag → List UInt8 → List UInt8 → Except Fault (List EventTag × List UInt8)
  | 0, _, _, _, _ => .error .unfinished
  | _ + 1, _, tags, behind, [] => .ok (tags, behind)
  | passes + 1, lineStart, tags, behind, c :: ahead =>
      if c = newline then parseLoop ulongMax numTags passes true tags (behind ++ [c]) ahead
      else if lineStart then
        if c = hash then parseLoop ulongMax numTags passes false tags (behind ++ [c]) ahead
        else if isCharDigit c then
          if numTags ≤ tags.length then .error .failed
          else
            match scanTagLine ulongMax ⟨behind, c, ahead⟩ with
            | .error fault => .error fault
            | .ok (cp, tag) =>
                parseLoop ulongMax numTags passes true (tags ++ [tag]) (cp.behind ++ [cp.char])
                  cp.ahead
        else if isCharWhitespace c then
          parseLoop ulongMax numTags passes true tags (behind ++ [c]) ahead
        else .error .failed
      else parseLoop ulongMax numTags passes false tags (behind ++ [c]) ahead

/-- The tags in the order of their lines, and the mapping with the NULs. -/
def parseMapLines (ulongMax numTags : Nat) (map : List UInt8) :
    Except Fault (List EventTag × List UInt8) :=
  match map.getLast? with
  | none => .error .outside
  | some c =>
      if c ≠ newline then .error .failed
      else
        match parseLoop ulongMax numTags (map.length + 1) true [] [] map with
        | .error fault => .error fault
        | .ok (tags, mapAddr) =>
            if tags.length ≠ numTags then .error .failed else .ok (tags, mapAddr)

/-! ## Sorting -/

/-- The difference of two numbers, as an `int`. -/
def indexDifference (a b : UInt32) : Int := (a - b).toBitVec.toInt

def compareEventTags (tag1 tag2 : EventTag) : Int :=
  indexDifference tag1.tagIndex tag2.tagIndex

/-- The comparison is a total order on the entries. -/
structure OrdersTags (tags : List EventTag) : Prop where
  asymm : ∀ a ∈ tags, ∀ b ∈ tags, compareEventTags a b < 0 → 0 < compareEventTags b a
  trans : ∀ a ∈ tags, ∀ b ∈ tags, ∀ c ∈ tags,
    compareEventTags a b < 0 → compareEventTags b c < 0 → compareEventTags a c < 0

/-- What `qsort` may make of the entries: it sorts them if the comparison is a total order. -/
structure QsortResult (tags sorted : List EventTag) : Prop where
  perm : sorted.Perm tags
  ordered : OrdersTags tags → sorted.Pairwise fun a b => compareEventTags a b ≤ 0

/-- The loop of `sortTags` finds two neighbours with the same number. -/
def hasDuplicate : List EventTag → Bool
  | a :: b :: rest => b.tagIndex == a.tagIndex || hasDuplicate (b :: rest)
  | _ => false

def sortTags (qsort : List EventTag → List EventTag) (tags : List EventTag) :
    Option (List EventTag) :=
  let sorted := qsort tags
  if hasDuplicate sorted then none else some sorted

/-- `processFile`, where `calloc` grants the memory or not. -/
def processFile (ulongMax : Nat) (granted : Bool) (qsort : List EventTag → List EventTag)
    (map : List UInt8) : Except Fault EventTagMap :=
  let numTags := countMapLines map
  if granted then
    match parseMapLines ulongMax numTags map with
    | .error fault => .error fault
    | .ok (tags, mapAddr) =>
        match sortTags qsort tags with
        | none => .error .failed
        | some tagArray => .ok ⟨mapAddr, tagArray⟩
  else .error .failed

/-! ## Looking up -/

/-- The loop of `android_lookupEventTag`, with a bound for its passes; `none` also where an
index is no entry. -/
def lookupLoop (tagArray : List EventTag) (tag : UInt32) : Nat → Int → Int → Option (Option Nat)
  | 0, _, _ => none
  | passes + 1, lo, hi =>
      if lo ≤ hi then
        let mid := (lo + hi) / 2
        match tagArray[mid.toNat]? with
        | none => none
        | some entry =>
            let cmp := indexDifference entry.tagIndex tag
            if cmp < 0 then lookupLoop tagArray tag passes (mid + 1) hi
            else if 0 < cmp then lookupLoop tagArray tag passes lo (mid - 1)
            else some (some entry.tagStr)
      else some none

/-- `android_lookupEventTag`: the offset of the name, or `NULL`. -/
def android_lookupEventTag (tagArray : List EventTag) (tag : UInt32) : Option (Option Nat) :=
  lookupLoop tagArray tag (tagArray.length + 1) 0 (tagArray.length - 1)

end EventTags
end Logcat
end AndroidLinux
