import Mathlib.Tactic

/-!
# UTF-8, UTF-16 and UTF-32

The conversions of `Unicode.cpp` and the strings that use them.  A sequence is the list of
its units, without the NUL that the functions write behind it; what a decoder reads behind
the end of its source is that NUL.  A source that is `NULL` is not given.  The sequences
are in memory, so that their lengths do not overflow.
-/

namespace AndroidLinux
namespace Utils

def kByteMask : UInt32 := 0x000000BF
def kByteMark : UInt32 := 0x00000080
def kUnicodeSurrogateStart : UInt32 := 0x0000D800
def kUnicodeSurrogateEnd : UInt32 := 0x0000DFFF
def kUnicodeMaxCodepoint : UInt32 := 0x0010FFFF

/-- The table of the marks of the first byte. -/
def kFirstByteMark (bytes : Nat) : UInt32 :=
  [0x00000000, 0x00000000, 0x000000C0, 0x000000E0, 0x000000F0].getD bytes 0

/-! ## UTF-32 -/

/-- `utf32_codepoint_utf8_length`. -/
def utf32CodepointUtf8Length (srcChar : UInt32) : Nat :=
  if srcChar < 0x00000080 then 1
  else if srcChar < 0x00000800 then 2
  else if srcChar < 0x00010000 then
    if srcChar < kUnicodeSurrogateStart ∨ kUnicodeSurrogateEnd < srcChar then 3 else 0
  else if srcChar ≤ kUnicodeMaxCodepoint then 4
  else 0

/-- A byte behind the first one. -/
def trailByte (srcChar : UInt32) : UInt8 := ((srcChar ||| kByteMark) &&& kByteMask).toUInt8

/-- The cases of `utf32_codepoint_to_utf8`, each of which falls through to the next. -/
def writeBytes (mark : UInt32) : Nat → UInt32 → List UInt8
  | 0, _ => []
  | 1, srcChar => [(srcChar ||| mark).toUInt8]
  | n + 2, srcChar => writeBytes mark (n + 1) (srcChar >>> 6) ++ [trailByte srcChar]

/-- `utf32_codepoint_to_utf8`. -/
def utf32CodepointToUtf8 (srcChar : UInt32) (bytes : Nat) : List UInt8 :=
  writeBytes (kFirstByteMark bytes) bytes srcChar

/-- `utf32_to_utf8_length`. -/
def utf32ToUtf8Length (src : List UInt32) : Int :=
  if src = [] then -1 else (src.map utf32CodepointUtf8Length).sum

/-- `utf32_to_utf8`. -/
def utf32ToUtf8 (src : List UInt32) : List UInt8 :=
  src.flatMap fun c => utf32CodepointToUtf8 c (utf32CodepointUtf8Length c)

/-- A `char` as it takes part in an expression; whether it is signed is up to the
compiler. -/
def charValue (signed : Bool) (b : UInt8) : UInt32 :=
  if signed ∧ 0x80 ≤ b then b.toUInt32 ||| 0xFFFFFF00 else b.toUInt32

/-- The loop of `utf32_at_internal` with its variables, for the bytes at `cur`.  The mask
has seven bits. -/
def readTrail (first : UInt32) :
    Nat → UInt32 → UInt32 → UInt32 → Nat → List UInt8 → UInt32 × UInt32 × UInt32 × Nat
  | 0, mask, toIgnore, utf32, num, _ => (mask, toIgnore, utf32, num)
  | fuel + 1, mask, toIgnore, utf32, num, cur =>
      if first &&& mask ≠ 0 then
        readTrail first fuel (mask >>> 1) (toIgnore ||| mask)
          ((utf32 <<< 6) + ((cur.headD 0).toUInt32 &&& 0x3F)) (num + 1) cur.tail
      else (mask, toIgnore, utf32, num)

/-- `utf32_at_internal`: the code point and the number of bytes read. -/
def utf32AtInternal (signed : Bool) (first : UInt8) (cur : List UInt8) : UInt32 × Nat :=
  if first &&& 0x80 = 0 then (first.toUInt32, 1)
  else
    let firstChar := charValue signed first
    let (mask, toIgnore, utf32, num) := readTrail firstChar 7 0x40 0xFFFFFF80 firstChar 1 cur
    (utf32 &&& ~~~((toIgnore ||| mask) <<< UInt32.ofNat (6 * (num - 1))), num)

/-- `utf8_to_utf32`. -/
def utf8ToUtf32 (signed : Bool) : List UInt8 → List UInt32
  | [] => []
  | first :: cur =>
      let r := utf32AtInternal signed first cur
      r.1 :: utf8ToUtf32 signed (cur.drop (r.2 - 1))
termination_by src => src.length
decreasing_by
  simp only [List.length_cons, List.length_drop]
  omega

/-- The inner loop of `utf8_to_utf32_length`. -/
def skipBits (first : UInt32) : Nat → UInt32 → Nat → Nat
  | 0, _, num => num
  | fuel + 1, mask, num =>
      if first &&& mask ≠ 0 then skipBits first fuel (mask >>> 1) (num + 1) else num

/-- `num_to_skip` for a first byte. -/
def numToSkip (signed : Bool) (first : UInt8) : Nat :=
  if first &&& 0x80 = 0 then 1 else skipBits (charValue signed first) 7 0x40 1

/-- `utf8_to_utf32_length`. -/
def utf8ToUtf32Length (signed : Bool) : List UInt8 → Nat
  | [] => 0
  | first :: cur => utf8ToUtf32Length signed (cur.drop (numToSkip signed first - 1)) + 1
termination_by src => src.length
decreasing_by
  simp only [List.length_cons, List.length_drop]
  omega

/-! ## UTF-16 -/

/-- The code point of a surrogate pair. -/
def pairValue (high low : UInt16) : UInt32 :=
  (((high.toUInt32 - 0xD800) <<< 10) ||| (low.toUInt32 - 0xDC00)) + 0x10000

/-- The two tests for a surrogate pair. -/
def isPair (high low : UInt16) : Bool := high &&& 0xFC00 = 0xD800 ∧ low &&& 0xFC00 = 0xDC00

/-- The code points that `utf16_to_utf8` writes. -/
def utf16Codepoints : List UInt16 → List UInt32
  | [] => []
  | [u] => [u.toUInt32]
  | u :: v :: rest =>
      if isPair u v then pairValue u v :: utf16Codepoints rest
      else u.toUInt32 :: utf16Codepoints (v :: rest)

/-- `utf16_to_utf8`. -/
def utf16ToUtf8 (src : List UInt16) : List UInt8 :=
  (utf16Codepoints src).flatMap fun c => utf32CodepointToUtf8 c (utf32CodepointUtf8Length c)

/-- The loop of `utf16_to_utf8_length`.  A high surrogate that is not followed by a low one
is left out, as `src` has moved on in the test. -/
def utf16BytesNeeded : List UInt16 → Nat
  | [] => 0
  | [u] => utf32CodepointUtf8Length u.toUInt32
  | u :: v :: rest =>
      if u &&& 0xFC00 = 0xD800 then
        if v &&& 0xFC00 = 0xDC00 then utf16BytesNeeded rest + 4
        else utf32CodepointUtf8Length v.toUInt32 + utf16BytesNeeded rest
      else utf32CodepointUtf8Length u.toUInt32 + utf16BytesNeeded (v :: rest)

/-- `utf16_to_utf8_length`. -/
def utf16ToUtf8Length (src : List UInt16) : Int :=
  if src = [] then -1 else utf16BytesNeeded src

/-! ## UTF-8 -/

/-- `utf8_codepoint_len`. -/
def utf8CodepointLen (ch : UInt8) : Nat :=
  (((0xe5000000 : UInt32) >>> ((ch >>> 3).toUInt32 &&& 0x1e)) &&& 3).toNat + 1

/-- `utf8_shift_and_mask`. -/
def utf8ShiftAndMask (codePoint : UInt32) (byte : UInt8) : UInt32 :=
  (codePoint <<< 6) ||| (0x3F &&& byte.toUInt32)

/-- `utf8_to_utf32_codepoint`, for the bytes behind the first one. -/
def utf8ToUtf32Codepoint (first : UInt8) (src : List UInt8) (length : Nat) : UInt32 :=
  match length with
  | 1 => first.toUInt32
  | 2 => utf8ShiftAndMask (first.toUInt32 &&& 0x1f) (src.getD 0 0)
  | 3 => utf8ShiftAndMask (utf8ShiftAndMask (first.toUInt32 &&& 0x0f) (src.getD 0 0))
      (src.getD 1 0)
  | 4 => utf8ShiftAndMask (utf8ShiftAndMask (utf8ShiftAndMask (first.toUInt32 &&& 0x07)
      (src.getD 0 0)) (src.getD 1 0)) (src.getD 2 0)
  | _ => 0xffff

/-- The loop of `utf8_to_utf16_length`; `none` when it does not end at `u8end`. -/
def measureUtf16 : List UInt8 → Option Nat
  | [] => some 0
  | first :: src =>
      let u8charLen := utf8CodepointLen first
      let codepoint := utf8ToUtf32Codepoint first src u8charLen
      if src.length < u8charLen - 1 then none
      else (measureUtf16 (src.drop (u8charLen - 1))).map fun n =>
        n + if 0xFFFF < codepoint then 2 else 1
termination_by src => src.length
decreasing_by
  simp only [List.length_cons, List.length_drop]
  omega

/-- `utf8_to_utf16_length`. -/
def utf8ToUtf16Length (src : List UInt8) : Int :=
  (measureUtf16 src).elim (-1) fun n => n

/-- The UTF-16 units of a code point. -/
def codepointUnits (codepoint : UInt32) : List UInt16 :=
  if codepoint ≤ 0xFFFF then [codepoint.toUInt16]
  else
    let codepoint := codepoint - 0x10000
    [((codepoint >>> 10) + 0xD800).toUInt16, ((codepoint &&& 0x3FF) + 0xDC00).toUInt16]

/-- `utf8_to_utf16_no_null_terminator`, which is also what `utf8_to_utf16_` writes in front
of its NUL. -/
def utf8ToUtf16 : List UInt8 → List UInt16
  | [] => []
  | first :: src =>
      let u8len := utf8CodepointLen first
      codepointUnits (utf8ToUtf32Codepoint first src u8len) ++
        utf8ToUtf16 (src.drop (u8len - 1))
termination_by src => src.length
decreasing_by
  simp only [List.length_cons, List.length_drop]
  omega

/-! ## Strings -/

/-- `allocFromUTF16` of `String8.cpp`, when `SharedBuffer::alloc` grants the buffer or
not. -/
def String8.allocFromUtf16 (granted : Bool) (src : List UInt16) : List UInt8 :=
  if src = [] then []
  else
    let bytes := utf16ToUtf8Length src
    if bytes < 0 then []
    else if granted then (utf16ToUtf8 src).take bytes.toNat
    else []

/-- `allocFromUTF8` of `String16.cpp`. -/
def String16.allocFromUtf8 (granted : Bool) (src : List UInt8) : List UInt16 :=
  if src = [] then []
  else
    let u16len := utf8ToUtf16Length src
    if u16len < 0 then []
    else if granted then (utf8ToUtf16 src).take u16len.toNat
    else []

end Utils
end AndroidLinux
