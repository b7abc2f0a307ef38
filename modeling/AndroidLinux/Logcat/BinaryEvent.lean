import AndroidLinux.Lib.Memory

/-!
# Printing a binary event

`android_log_printBinaryEvent` of `logprint.c`.  The payload is read at offsets of the memory
`m`; the offsets read are kept.  The output is a memory, too, of which `outBufLen` bytes from
`outBuf` on are the room that is left.
-/

namespace AndroidLinux
namespace Logcat

open Lib

/-- The two cursors of the payload, and the offsets read. -/
structure Source where
  eventData : Nat
  eventDataLen : Nat
  reads : List Nat

namespace Source

/-- The bytes in front of the cursor. -/
def fetch (s : Source) (m : Nat → UInt8) (n : Nat) : List UInt8 :=
  (List.range' s.eventData n).map m

/-- The next bytes are read. -/
def read (s : Source) (n : Nat) : Source :=
  { s with reads := s.reads ++ List.range' s.eventData n }

/-- The cursors are moved. -/
def skip (s : Source) (n : Nat) : Source :=
  { s with eventData := s.eventData + n, eventDataLen := s.eventDataLen - n }

end Source

/-- The two cursors of the output, and its memory. -/
structure Sink where
  outBuf : Nat
  outBufLen : Nat
  out : Nat → UInt8

/-- Bytes are stored at an offset. -/
def storeAt (out : Nat → UInt8) (off : Nat) (bs : List UInt8) : Nat → UInt8 :=
  fun i => if off ≤ i then bs.getD (i - off) (out i) else out i

namespace Sink

/-- Bytes are stored at the cursor. -/
def store (s : Sink) (bs : List UInt8) : Sink := { s with out := storeAt s.out s.outBuf bs }

/-- The cursors are moved. -/
def advance (s : Sink) (n : Nat) : Sink :=
  { s with outBuf := s.outBuf + n, outBufLen := s.outBufLen - n }

/-- What `snprintf` stores of a text. -/
def snprintf (s : Sink) (text : List UInt8) : Sink :=
  if s.outBufLen = 0 then s else s.store (text.take (s.outBufLen - 1) ++ [0])

/-- The cases of the integers, from `snprintf` on. -/
def number (s : Sink) (text : List UInt8) : Int × Sink :=
  let outCount := text.length
  if outCount < s.outBufLen then (0, (s.snprintf text).advance outCount)
  else (1, s.snprintf text)

/-- The case of the strings, from the comparison on. -/
def raw (s : Sink) (text : List UInt8) : Int × Sink :=
  let strLen := text.length
  if strLen < s.outBufLen then (0, (s.store text).advance strLen)
  else if 0 < s.outBufLen then (1, (s.store (text.take s.outBufLen)).advance s.outBufLen)
  else (0, s)

/-- A bracket or a comma. -/
def mark (s : Sink) (c : UInt8) : Int × Sink :=
  if 0 < s.outBufLen then (0, (s.store [c]).advance 1) else (1, s)

end Sink

/-- A number as `%d` and `%lld` write it. -/
def decimal (x : Int) : List UInt8 :=
  let digits := (Nat.toDigits 10 x.natAbs).map fun c => UInt8.ofNat c.toNat
  if x < 0 then 0x2D :: digits else digits

/-- `get4LE`, as an `int`. -/
def get4LE (bs : List UInt8) : Int := (UInt32.ofNat (leNat bs)).toInt32.toInt

/-- `get8LE`, as a `long long`. -/
def get8LE (bs : List UInt8) : Int := (UInt64.ofNat (leNat bs)).toInt64.toInt

/-- The kinds of events. -/
def EVENT_TYPE_INT : UInt8 := 0
def EVENT_TYPE_LONG : UInt8 := 1
def EVENT_TYPE_STRING : UInt8 := 2
def EVENT_TYPE_LIST : UInt8 := 3

/-- The result, and the cursors as they are for the caller. -/
abbrev Printed := Int × Source × Sink

/-- `return -1`: the cursors of the caller stay. -/
def failed (s now : Source) (t : Sink) : Printed := (-1, { s with reads := now.reads }, t)

/-- The case of a number of `size` bytes. -/
def printNumber (m : Nat → UInt8) (size : Nat) (value : List UInt8 → Int) (entry s : Source)
    (t : Sink) : Printed :=
  if s.eventDataLen < size then failed entry s t
  else
    let printed := t.number (decimal (value (s.fetch m size)))
    (printed.1, (s.read size).skip size, printed.2)

/-- The case of a string.  The bytes that are not copied are not read. -/
def printString (m : Nat → UInt8) (entry s : Source) (t : Sink) : Printed :=
  if s.eventDataLen < 4 then failed entry s t
  else
    let strLen := leNat (s.fetch m 4)
    let s := (s.read 4).skip 4
    if s.eventDataLen < strLen then failed entry s t
    else
      let printed := t.raw (s.fetch m strLen)
      let s := s.read (min strLen t.outBufLen)
      (printed.1, if printed.1 = 0 then s.skip strLen else s, printed.2)

/-- The loop over the items of a list, of which `n` are left, and the closing bracket. -/
def printItems (printItem : Source → Sink → Option Printed) : Nat → Source → Sink → Option Printed
  | 0, s, t =>
      let printed := t.mark 0x5D
      some (printed.1, s, printed.2)
  | n + 1, s, t =>
      (printItem s t).bind fun r =>
        if r.1 ≠ 0 then some r
        else if 0 < n then
          let printed := r.2.2.mark 0x2C
          if printed.1 = 0 then printItems printItem n r.2.1 printed.2
          else some (1, r.2.1, printed.2)
        else printItems printItem n r.2.1 r.2.2

/-- The case of a list. -/
def printList (m : Nat → UInt8) (printItem : Source → Sink → Option Printed) (entry s : Source)
    (t : Sink) : Option Printed :=
  if s.eventDataLen < 1 then some (failed entry s t)
  else
    let count := m s.eventData
    let s := (s.read 1).skip 1
    let printed := t.mark 0x5B
    if printed.1 = 0 then printItems printItem count.toNat s printed.2
    else some (1, s, printed.2)

/-- `android_log_printBinaryEvent`, with a bound for the depth of the calls. -/
def printEvent (m : Nat → UInt8) : Nat → Source → Sink → Option Printed
  | 0, _, _ => none
  | depth + 1, entry, t =>
      if entry.eventDataLen < 1 then some (failed entry entry t)
      else
        let type := m entry.eventData
        let s := (entry.read 1).skip 1
        if type = EVENT_TYPE_INT then some (printNumber m 4 get4LE entry s t)
        else if type = EVENT_TYPE_LONG then some (printNumber m 8 get8LE entry s t)
        else if type = EVENT_TYPE_STRING then some (printString m entry s t)
        else if type = EVENT_TYPE_LIST then printList m (printEvent m depth) entry s t
        else some (failed entry s t)

/-- `android_log_printBinaryEvent`. -/
def printBinaryEvent (m : Nat → UInt8) (s : Source) (t : Sink) : Option Printed :=
  printEvent m (s.eventDataLen + 1) s t

/-! ## The text of a payload -/

/-- A piece of the text. -/
inductive Chunk
  | number (text : List UInt8)
  | raw (text : List UInt8)
  | mark (c : UInt8)

namespace Chunk

def text : Chunk → List UInt8
  | number t => t
  | raw t => t
  | mark c => [c]

/-- The piece is put out. -/
def feed : Chunk → Sink → Int × Sink
  | number t, s => s.number t
  | raw t, s => s.raw t
  | mark c, s => s.mark c

end Chunk

/-- The text as far as a payload is well-formed, and what follows a whole event. -/
structure Rendering where
  chunks : List Chunk
  rest : Option (List UInt8)

/-- The items of a list, and the closing bracket. -/
def renderItems (item : List UInt8 → Rendering) : Nat → List UInt8 → Rendering
  | 0, data => ⟨[.mark 0x5D], some data⟩
  | n + 1, data =>
      match (item data).rest with
      | none => item data
      | some rest =>
          let items := renderItems item n rest
          if 0 < n then ⟨(item data).chunks ++ .mark 0x2C :: items.chunks, items.rest⟩
          else ⟨(item data).chunks ++ items.chunks, items.rest⟩

/-- A number of `size` bytes. -/
def renderNumber (size : Nat) (value : List UInt8 → Int) (data : List UInt8) : Rendering :=
  if data.length < size then ⟨[], none⟩
  else ⟨[.number (decimal (value (data.take size)))], some (data.drop size)⟩

/-- A string behind its length. -/
def renderString (data : List UInt8) : Rendering :=
  let strLen := leNat (data.take 4)
  let body := data.drop 4
  if data.length < 4 then ⟨[], none⟩
  else if body.length < strLen then ⟨[], none⟩
  else ⟨[.raw (body.take strLen)], some (body.drop strLen)⟩

/-- A list behind its count. -/
def renderList (item : List UInt8 → Rendering) : List UInt8 → Rendering
  | [] => ⟨[], none⟩
  | count :: data =>
      let items := renderItems item count.toNat data
      ⟨.mark 0x5B :: items.chunks, items.rest⟩

/-- The text of the event at the head of a payload, nested `depth` times at most. -/
def render : Nat → List UInt8 → Rendering
  | 0, _ => ⟨[], none⟩
  | _ + 1, [] => ⟨[], none⟩
  | depth + 1, type :: data =>
      if type = EVENT_TYPE_INT then renderNumber 4 get4LE data
      else if type = EVENT_TYPE_LONG then renderNumber 8 get8LE data
      else if type = EVENT_TYPE_STRING then renderString data
      else if type = EVENT_TYPE_LIST then renderList (render depth) data
      else ⟨[], none⟩

/-- The text of the event at the head of a payload. -/
def rendering (data : List UInt8) : Rendering := render (data.length + 1) data

/-- The text of pieces. -/
def textOf (chunks : List Chunk) : List UInt8 := chunks.flatMap Chunk.text

/-- The pieces are put out until there is no room. -/
def feedAll : List Chunk → Sink → Int × Sink
  | [], s => (0, s)
  | c :: cs, s => if (c.feed s).1 = 0 then feedAll cs (c.feed s).2 else c.feed s

end Logcat
end AndroidLinux
