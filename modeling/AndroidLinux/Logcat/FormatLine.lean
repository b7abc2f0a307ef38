import AndroidLinux.Logcat.BinaryEvent
import AndroidLinux.Logcat.Filters
import AndroidLinux.Lib.CString

/-!
# Formatting a line of the log

`android_log_formatLogLine` of `logprint.c`.  One scan of the message gives the size of the
buffer, another one fills it with `strcat`, while a cursor is advanced by lengths.  What the
buffer contains before is not known.
-/

namespace AndroidLinux
namespace Logcat

open Lib

/-- `AndroidLogPrintFormat`. -/
inductive PrintFormat
  | off
  | brief
  | process
  | tag
  | thread
  | raw
  | time
  | threadtime
  | long
  deriving DecidableEq

/-- `AndroidLogEntry`; `messageLen` is the length of the message, a `size_t`. -/
structure LogEntry where
  tvSec : Int32
  tvNsec : Int32
  priority : LogPriority
  pid : Int32
  tid : Int32
  tag : CString
  message : List UInt8
  fits : message.length < 2 ^ 32

/-- `filterPriToChar`. -/
def filterPriToChar : LogPriority → UInt8
  | .verbose => ch 'V'
  | .debug => ch 'D'
  | .info => ch 'I'
  | .warn => ch 'W'
  | .error => ch 'E'
  | .fatal => ch 'F'
  | .silent => ch 'S'
  | .default => ch '?'
  | .unknown => ch '?'

/-! ## The two texts around a line -/

/-- `%-8s`. -/
def leftAligned (s : List UInt8) : List UInt8 := s ++ List.replicate (8 - s.length) (ch ' ')

/-- `%5d`. -/
def rightAligned (x : Int32) : List UInt8 :=
  List.replicate (5 - (decimal x.toInt).length) (ch ' ') ++ decimal x.toInt

/-- `%03ld`. -/
def threeDigits (x : Int) : List UInt8 :=
  if x < 0 then ch '-' :: (List.replicate (2 - (decimal (-x)).length) (ch '0') ++ decimal (-x))
  else List.replicate (3 - (decimal x).length) (ch '0') ++ decimal x

/-- The time and the milliseconds. -/
def timeText (timeBuf : CString) (entry : LogEntry) : List UInt8 :=
  timeBuf.bytes ++ ch '.' :: threeDigits (entry.tvNsec.toInt.tdiv 1000000)

/-- The text in front of a line, as `snprintf` would write it into a buffer of any size. -/
def prefixText (timeBuf : CString) (entry : LogEntry) : PrintFormat → List UInt8
  | .tag => [filterPriToChar entry.priority, ch '/'] ++ leftAligned entry.tag.bytes ++
      [ch ':', ch ' ']
  | .process => [filterPriToChar entry.priority, ch '('] ++ rightAligned entry.pid ++
      [ch ')', ch ' ']
  | .thread => [filterPriToChar entry.priority, ch '('] ++ rightAligned entry.pid ++
      ch ':' :: rightAligned entry.tid ++ [ch ')', ch ' ']
  | .raw => []
  | .time => timeText timeBuf entry ++
      [ch ' ', filterPriToChar entry.priority, ch '/'] ++ leftAligned entry.tag.bytes ++
      ch '(' :: rightAligned entry.pid ++ [ch ')', ch ':', ch ' ']
  | .threadtime => timeText timeBuf entry ++ ch ' ' :: rightAligned entry.pid ++
      ch ' ' :: rightAligned entry.tid ++
      [ch ' ', filterPriToChar entry.priority, ch ' '] ++ leftAligned entry.tag.bytes ++
      [ch ':', ch ' ']
  | .long => [ch '[', ch ' '] ++ timeText timeBuf entry ++ ch ' ' :: rightAligned entry.pid ++
      ch ':' :: rightAligned entry.tid ++
      [ch ' ', filterPriToChar entry.priority, ch '/'] ++ leftAligned entry.tag.bytes ++
      [ch ' ', ch ']', ch '\n']
  | .brief => [filterPriToChar entry.priority, ch '/'] ++ leftAligned entry.tag.bytes ++
      ch '(' :: rightAligned entry.pid ++ [ch ')', ch ':', ch ' ']
  | .off => [filterPriToChar entry.priority, ch '/'] ++ leftAligned entry.tag.bytes ++
      ch '(' :: rightAligned entry.pid ++ [ch ')', ch ':', ch ' ']

/-- The text behind a line. -/
def suffixText (entry : LogEntry) : PrintFormat → List UInt8
  | .process => [ch ' ', ch ' ', ch '('] ++ entry.tag.bytes ++ [ch ')', ch '\n']
  | .long => [ch '\n', ch '\n']
  | _ => [ch '\n']

/-- What is left of a text in a buffer of 128 bytes; its length is that of the string in it. -/
def truncated (text : List UInt8) : List UInt8 := text.take 127

/-! ## The scans of the message -/

/-- `numLines`, by the first scan. -/
def numLines (message : List UInt8) : Nat :=
  message.count (ch '\n') + if message.getLast?.any (· != ch '\n') then 1 else 0

/-- The number of lines of a format. -/
def linesFor (format : PrintFormat) (message : List UInt8) : Nat :=
  if format = .long then 1 else numLines message

/-- The size of the buffer as an exact number. -/
def bytesNeeded (prefixBuf suffixBuf : List UInt8) (lines : Nat) (message : List UInt8) : Nat :=
  lines * (prefixBuf.length + suffixBuf.length) + message.length + 1

/-- The place where the text goes on, and the memory of the buffer. -/
structure Cursor where
  p : Nat
  out : Nat → UInt8

/-- The first NUL at an offset or behind it. -/
def strEnd (out : Nat → UInt8) : Nat → Nat → Option Nat
  | 0, _ => none
  | fuel + 1, i => if out i = 0 then some i else strEnd out fuel (i + 1)

/-- `strcat` or `strncat`, which copy as far as the first NUL; the cursor is advanced by the length
in any case.  There is no result if no byte of the memory ends the string at the cursor. -/
def append (s : List UInt8) (c : Cursor) : Option Cursor :=
  (strEnd c.out (2 ^ 32) c.p).map fun i =>
    ⟨c.p + s.length, storeAt c.out i (s.takeWhile (· != 0) ++ [0])⟩

/-- One line, or the whole message. -/
def appendLine (prefixBuf suffixBuf line : List UInt8) (c : Cursor) : Option Cursor :=
  ((append prefixBuf c).bind (append line)).bind (append suffixBuf)

/-- The second scan.  At the end of the message it reads one byte behind it, which decides
nothing. -/
def appendLines (prefixBuf suffixBuf : List UInt8) : List UInt8 → Cursor → Option Cursor
  | [], c => some c
  | b :: bs, c =>
      let line := (b :: bs).takeWhile (· != ch '\n')
      (appendLine prefixBuf suffixBuf line c).bind
        (appendLines prefixBuf suffixBuf ((b :: bs).drop (line.length + 1)))
termination_by message => message.length
decreasing_by
  rw [List.length_drop, List.length_cons]
  omega

/-- The result: whether it is the default buffer, its memory and the length of the text. -/
structure Formatted where
  isDefault : Bool
  out : Nat → UInt8
  outLength : Nat

/-- `android_log_formatLogLine`, with the memory of the buffer that is used.  `time` is what
`localtime` and `strftime` make of the seconds. -/
def formatLogLine (time : Int32 → CString) (format : PrintFormat) (defaultBufferSize : Nat)
    (entry : LogEntry) (memory : Nat → UInt8) : Option Formatted :=
  let timeBuf := time entry.tvSec
  let prefixBuf := truncated (prefixText timeBuf entry format)
  let suffixBuf := truncated (suffixText entry format)
  let numLines := linesFor format entry.message
  let bufferSize := bytesNeeded prefixBuf suffixBuf numLines entry.message % 2 ^ 32
  let start : Cursor := ⟨0, storeAt memory 0 [0]⟩
  (if format = .long then appendLine prefixBuf suffixBuf entry.message start
    else appendLines prefixBuf suffixBuf entry.message start).map fun c =>
      ⟨decide (bufferSize ≤ defaultBufferSize), c.out, c.p⟩

end Logcat
end AndroidLinux
