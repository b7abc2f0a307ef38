import AndroidLinux.Lib.CString
import AndroidLinux.Utils.UnicodeRoundTrip

/-!
# Modified UTF-8

The conversions of `strdup16to8.c` and `strdup8to16.c`.  A pointer into a text is the list of
the bytes from it on; no byte can be read where the list ends.
-/

namespace AndroidLinux
namespace Cutils

open Lib Utils

/-! ## From UTF-16 -/

/-- The bytes that `strnlen16to8` counts for a unit. -/
def unitLength (uic : UInt16) : UInt32 :=
  if 0x07ff < uic then 3 else if 0x7f < uic ∨ uic = 0 then 2 else 1

/-- The fast loop of `strnlen16to8`. -/
def fastLength (utf16Str : List UInt16) : UInt32 :=
  utf16Str.foldl (fun utf8Len uic => utf8Len + unitLength uic) 0

/-- The paranoid loop of `strnlen16to8`, with `SIZE_MAX - 1` for an overflow. -/
def paranoidLength : UInt32 → List UInt16 → UInt32
  | utf8Len, [] => if utf8Len = 0xffffffff then 0xfffffffe else utf8Len
  | utf8Cur, uic :: utf16Str =>
      let utf8Len := utf8Cur + unitLength uic
      if utf8Len < utf8Cur then 0xfffffffe else paranoidLength utf8Len utf16Str

/-- `strnlen16to8`; a `size_t` has 32 bits. -/
def strnlen16to8 (utf16Str : List UInt16) : UInt32 :=
  if utf16Str.length < (0xffffffff - 1) / 3 then fastLength utf16Str
  else paranoidLength 0 utf16Str

/-- What `strncpy16to8` writes, with the NUL at the end. -/
def strncpy16to8 : List UInt16 → List UInt8
  | [] => [0]
  | u :: utf16Str =>
      let uic := u.toUInt32
      if 0x07ff < uic then
        (uic >>> 12 ||| 0xe0).toUInt8 :: (uic >>> 6 &&& 0x3f ||| 0x80).toUInt8 ::
          (uic &&& 0x3f ||| 0x80).toUInt8 :: strncpy16to8 utf16Str
      else if 0x7f < uic ∨ uic = 0 then
        (uic >>> 6 ||| 0xc0).toUInt8 :: (uic &&& 0x3f ||| 0x80).toUInt8 :: strncpy16to8 utf16Str
      else if uic = 0 then [uic.toUInt8, 0]
      else uic.toUInt8 :: strncpy16to8 utf16Str

/-! ## To UTF-16 -/

/-- `UTF16_REPLACEMENT_CHAR`. -/
def utf16ReplacementChar : UInt32 := 0xfffd

/-- `UTF8_SEQ_LENGTH`. -/
def utf8SeqLength (b : UInt8) : Nat :=
  ((0xe5000000 : UInt32) >>> (b.toUInt32 >>> 3 &&& 0x1e) &&& 3).toNat + 1

/-- The mask for the first byte of a sequence. -/
def leaderMask (seqLen : Nat) : UInt32 := [0xff, 0x1f, 0x0f, 0x07].getD (seqLen - 1) 0

/-- A byte that starts with the bits 10. -/
def isExtension (b : UInt8) : Bool := b &&& 0xc0 = 0x80

/-- The loop of `getUtf32FromUtf8` over the bytes behind the first one. -/
def extensionLoop : Nat → UInt32 → List UInt8 → Option (UInt32 × List UInt8)
  | 0, ret, p => some (ret, p)
  | _ + 1, _, [] => none
  | n + 1, ret, b :: p =>
      if b = 0 then some (utf16ReplacementChar, b :: p)
      else if !isExtension b then some (utf16ReplacementChar, b :: p)
      else extensionLoop n (utf8ShiftAndMask ret b) p

/-- `getUtf32FromUtf8`: the character and the pointer behind it. -/
def getUtf32FromUtf8 : List UInt8 → Option (UInt32 × List UInt8)
  | [] => none
  | b :: p =>
      if isExtension b then some (utf16ReplacementChar, p)
      else
        let seqLen := utf8SeqLength b
        let ret := b.toUInt32 &&& leaderMask seqLen
        if b = 0 then some (ret, b :: p) else extensionLoop (seqLen - 1) ret p

/-- The units that are stored for a character. -/
def storedUnits (ret : UInt32) : List UInt16 :=
  if ret ≤ 0xffff then [ret.toUInt16]
  else if ret ≤ 0x10fffd then
    [((0xd800 : UInt32) ||| (ret - 0x10000) >>> 10).toUInt16,
      ((0xdc00 : UInt32) ||| (ret - 0x10000) &&& 0x3ff).toUInt16]
  else [utf16ReplacementChar.toUInt16]

/-- `strcpy8to16`, with a bound for its passes: the units that are written. -/
def strcpy8to16 : Nat → List UInt8 → Option (List UInt16)
  | 0, _ => none
  | _ + 1, [] => none
  | passes + 1, b :: p =>
      if b = 0 then some []
      else (getUtf32FromUtf8 (b :: p)).bind fun r =>
        (strcpy8to16 passes r.2).map (storedUnits r.1 ++ ·)

/-- The loop of `strlen8to16`. -/
def strlenLoop : Int → List UInt8 → Nat
  | _, [] => 0
  | expected, ic :: utf8Str =>
      if isExtension ic then
        (if expected - 1 < 0 then 1 else 0) + strlenLoop (expected - 1) utf8Str
      else
        (if utf8SeqLength ic - 1 = 3 then 2 else 1) +
          strlenLoop (utf8SeqLength ic - 1 : Nat) utf8Str

/-- `strlen8to16`. -/
def strlen8to16 (s : CString) : Nat := strlenLoop 0 s.bytes

/-- What `strdup8to16` allocates, in bytes, and the units that are written there. -/
structure Duplicated where
  allocated : Nat
  units : List UInt16

/-- `strdup8to16` of a string that is not `NULL`; memory is granted. -/
def strdup8to16 (passes : Nat) (s : CString) : Option (Option Duplicated) :=
  let len := strlen8to16 s
  if len ≠ 0 ∧ 0xffffffff / len < 2 then some none
  else (strcpy8to16 passes (s.bytes ++ [0])).map fun units => some ⟨2 * len, units⟩

/-- `strcpylen8to16`, with a bound for its passes; `length` counts the bytes in front of `end`. -/
def strcpylen8to16 : Nat → Nat → List UInt8 → Option (List UInt16)
  | 0, _, _ => none
  | passes + 1, length, p =>
      if 0 < length then
        (getUtf32FromUtf8 p).bind fun r =>
          (strcpylen8to16 passes (length - (p.length - r.2.length)) r.2).map (storedUnits r.1 ++ ·)
      else some []

end Cutils
end AndroidLinux
