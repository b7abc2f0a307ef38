import AndroidLinux.Lib.Transition

/-!
# What logcat writes

The half of `logcat.cpp` that writes to a file: the headers, the entries in text or as they
are, the count of the bytes and the rotation.  The files are numbered: `0` is
`g_outputFileName`, `i` is `g_outputFileName.i`.  All writes complete and a file that is
there can be renamed and opened.  The functions of `logprint.c` are given, with what a
negative result of theirs leads to.
-/

namespace AndroidLinux
namespace Logcat

/-- `struct logger_entry` with its payload. -/
structure LoggerEntry where
  pad : Int
  pid : Int
  tid : Int
  sec : Int
  nsec : Int
  msg : List UInt8

/-- The low bytes of a number, the lowest first. -/
def leBytes (x : Int) : Nat → List UInt8
  | 0 => []
  | n + 1 => UInt8.ofNat (x % 256).toNat :: leBytes (x / 256) n

/-- An entry as it is in memory; `len` is the length of the payload. -/
def LoggerEntry.bytes (buf : LoggerEntry) : List UInt8 :=
  leBytes buf.msg.length 2 ++ leBytes buf.pad 2 ++ leBytes buf.pid 4 ++ leBytes buf.tid 4 ++
    leBytes buf.sec 4 ++ leBytes buf.nsec 4 ++ buf.msg

/-- The functions of `logprint.c` for one format, with lines of the type `L`. -/
structure LogPrint (L : Type*) where
  processLogBuffer : LoggerEntry → L
  /-- `none` is a negative result. -/
  processBinaryLogBuffer : LoggerEntry → Option L
  shouldPrintLine : L → Bool
  /-- What `android_log_printLogLine` writes and counts; `none` when there is no memory. -/
  formatLogLine : L → Option (List UInt8)

/-- The options and the devices, which are numbered. -/
structure Options where
  devCount : Nat
  printBinary : Bool
  logRotateSizeKBytes : Nat
  maxRotatedLogs : Nat
  device : Nat → List UInt8
  binary : Nat → Bool

abbrev Files := Nat → Option (List UInt8)

/-- `rename`, which fails with `ENOENT` when there is no such file. -/
def rename (files : Files) (file0 file1 : Nat) : Files :=
  match files file0 with
  | none => files
  | some contents => Function.update (Function.update files file0 none) file1 (some contents)

/-- The loop of `rotateLogs`. -/
def renameLoop : Nat → Files → Files
  | 0, files => files
  | i + 1, files => renameLoop i (rename files i (i + 1))

/-- `openLogFile`, for appending. -/
def openLogFile (files : Files) : Files :=
  match files 0 with
  | none => Function.update files 0 (some [])
  | some _ => files

/-- The output file with its variables. -/
structure Output where
  files : Files
  outByteCount : Nat
  printed : Nat → Bool

/-- The size of the current output file. -/
def Output.size (o : Output) : Nat := (o.files 0).elim 0 List.length

/-- `setupOutput`. -/
def setupOutput (files : Files) : Output :=
  let files := openLogFile files
  { files := files, outByteCount := (files 0).elim 0 List.length, printed := fun _ => false }

namespace Output

variable {L : Type*} (P : LogPrint L) (opts : Options) (o : Output)

/-- A complete `write` to `g_outFD`. -/
def write (bytes : List UInt8) : Output :=
  { o with files := Function.update o.files 0 ((o.files 0).map (· ++ bytes)) }

/-- `rotateLogs`. -/
def rotateLogs : Output :=
  { o with files := openLogFile (renameLoop opts.maxRotatedLogs o.files), outByteCount := 0 }

/-- `processBuffer`; `none` when it ends the program. -/
def processBuffer (dev : Nat) (buf : LoggerEntry) : Option Output :=
  let entry := if opts.binary dev then P.processBinaryLogBuffer buf
    else some (P.processLogBuffer buf)
  match entry with
  | none => some o
  | some entry =>
      let written := if P.shouldPrintLine entry then P.formatLogLine entry else some []
      match written with
      | none => none
      | some bytes =>
          let o := { o.write bytes with outByteCount := o.outByteCount + bytes.length }
          if 0 < opts.logRotateSizeKBytes ∧
              opts.logRotateSizeKBytes ≤ o.outByteCount / 1024 then
            some (o.rotateLogs opts)
          else some o

/-- The header of a device. -/
def header (dev : Nat) : List UInt8 :=
  (("--------- beginning of ".toList.map fun (ch : Char) => UInt8.ofNat ch.toNat) ++
    opts.device dev ++ [10]).take 1023

/-- `maybePrintStart`. -/
def maybePrintStart (dev : Nat) : Output :=
  if o.printed dev then o
  else
    let o := { o with printed := Function.update o.printed dev true }
    if 1 < opts.devCount ∧ opts.printBinary = false then o.write (header opts dev) else o

/-- `skipNextEntry`. -/
def skipNextEntry (dev : Nat) : Output := o.maybePrintStart opts dev

/-- `printNextEntry`; `none` when it ends the program. -/
def printNextEntry (dev : Nat) (buf : LoggerEntry) : Option Output :=
  let o := o.maybePrintStart opts dev
  (if opts.printBinary then some (o.write buf.bytes) else o.processBuffer P opts dev buf).map
    fun o => o.skipNextEntry opts dev

end Output

/-- The two calls that `readLogLines` makes for the entry at the head of a queue. -/
inductive OutputCall
  | print (dev : Nat) (buf : LoggerEntry)
  | skip (dev : Nat)

/-- The output over a run of `readLogLines`, from any files. -/
def outputMachine {L : Type*} (P : LogPrint L) (opts : Options) :
    Lib.Machine Output OutputCall where
  init o := ∃ files, o = setupOutput files
  step o call :=
    match call with
    | .print dev buf => o.printNextEntry P opts dev buf
    | .skip dev => some (o.skipNextEntry opts dev)

end Logcat
end AndroidLinux
