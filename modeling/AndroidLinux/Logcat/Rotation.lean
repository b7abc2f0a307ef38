import AndroidLinux.Logcat.Output

/-!
# The byte count and the rotation

`Rotated` says what a rotation does to the files, which holds for every maximum
(`rotated_renameLoop`).  `Counted` is the condition under which a call counts what it
writes: a header and a binary entry are written by functions that do not count, and a
rotation with a maximum of `0` renames nothing but starts to count at `0`.  In runs of such
calls `g_outByteCount` is the size of the file, and so the file stays below the limit.
-/

namespace AndroidLinux
namespace Logcat

open Lib

/-! ## Renaming -/

/-- Contents move up by one; those of the last file may go. -/
structure Rotated (maxRotatedLogs : Nat) (files files' : Files) : Prop where
  moved : ∀ i < maxRotatedLogs, ∀ contents, files i = some contents →
    files' (i + 1) = some contents
  beyond : ∀ i, maxRotatedLogs < i → files' i = files i

theorem rename_other {files : Files} {file0 file1 i : Nat} (h0 : i ≠ file0) (h1 : i ≠ file1) :
    rename files file0 file1 i = files i := by
  unfold rename
  cases files file0 with
  | none => rfl
  | some contents =>
      show Function.update (Function.update files file0 none) file1 (some contents) i = files i
      rw [Function.update_of_ne h1, Function.update_of_ne h0]

theorem rename_target {files : Files} {file0 file1 : Nat} {contents : List UInt8}
    (h : files file0 = some contents) : rename files file0 file1 file1 = some contents := by
  unfold rename
  rw [h]
  exact Function.update_self ..

theorem rename_source {files : Files} {file0 file1 : Nat} (hne : file0 ≠ file1) :
    rename files file0 file1 file0 = none := by
  unfold rename
  cases h : files file0 with
  | none => exact h
  | some contents =>
      show Function.update (Function.update files file0 none) file1 (some contents) file0 = none
      rw [Function.update_of_ne hne, Function.update_self]

/-- The loop does not reach the files above its start. -/
theorem renameLoop_beyond {i j : Nat} (h : i < j) (files : Files) :
    renameLoop i files j = files j := by
  induction i generalizing files with
  | zero => rfl
  | succ i ih =>
      rw [renameLoop, ih (by omega)]
      exact rename_other (by omega) (by omega)

/-- The loop comes from above, so that the place of the next file is free. -/
theorem renameLoop_moved {i max : Nat} (h : i < max) {files : Files} {contents : List UInt8}
    (hfile : files i = some contents) : renameLoop max files (i + 1) = some contents := by
  induction max generalizing files with
  | zero => omega
  | succ max ih =>
      rw [renameLoop]
      by_cases hlast : i = max
      · subst hlast
        rw [renameLoop_beyond (by omega)]
        exact rename_target hfile
      · refine ih (by omega) ?_
        rw [rename_other hlast (by omega)]
        exact hfile

/-- A rotation makes room for a new file. -/
theorem renameLoop_zero {max : Nat} (h : 0 < max) (files : Files) :
    renameLoop max files 0 = none := by
  induction max generalizing files with
  | zero => omega
  | succ max ih =>
      rw [renameLoop]
      by_cases hlast : max = 0
      · subst hlast
        exact rename_source (by decide)
      · exact ih (by omega) _

theorem openLogFile_beyond {files : Files} {i : Nat} (h : i ≠ 0) :
    openLogFile files i = files i := by
  unfold openLogFile
  cases files 0 with
  | none => exact Function.update_of_ne h ..
  | some contents => rfl

theorem rotated_renameLoop (maxRotatedLogs : Nat) (files : Files) :
    Rotated maxRotatedLogs files (openLogFile (renameLoop maxRotatedLogs files)) := by
  constructor
  · intro i hi contents hfile
    rw [openLogFile_beyond (by omega)]
    exact renameLoop_moved hi hfile
  · intro i hi
    rw [openLogFile_beyond (by omega)]
    exact renameLoop_beyond hi files

/-! ## Counting -/

namespace Output

/-- There is a file and its bytes are counted. -/
structure Tracked (o : Output) : Prop where
  isOpen : (o.files 0).isSome
  count : o.outByteCount = o.size

variable {o : Output}

theorem size_write (h : (o.files 0).isSome) (bytes : List UInt8) :
    (o.write bytes).size = o.size + bytes.length := by
  obtain ⟨contents, hfile⟩ := Option.isSome_iff_exists.mp h
  simp only [size, write, Function.update_self, hfile, Option.map_some, Option.elim_some,
    List.length_append]

theorem write_isOpen (h : (o.files 0).isSome) (bytes : List UInt8) :
    ((o.write bytes).files 0).isSome := by
  show (Function.update o.files 0 ((o.files 0).map (· ++ bytes)) 0).isSome = true
  rw [Function.update_self, Option.isSome_map]
  exact h

theorem tracked_setup (files : Files) : Tracked (setupOutput files) := by
  refine ⟨?_, rfl⟩
  show (openLogFile files 0).isSome = true
  unfold openLogFile
  cases h : files 0 with
  | none => simp
  | some contents => simp [h]

/-- The count follows a line. -/
theorem Tracked.writeLine (h : o.Tracked) (bytes : List UInt8) :
    Tracked { o.write bytes with outByteCount := o.outByteCount + bytes.length } :=
  ⟨write_isOpen h.isOpen bytes, by
    rw [h.count]
    exact (size_write h.isOpen bytes).symm⟩

/-- A rotation that moves the file away starts with an empty one. -/
theorem rotateLogs_empty {opts : Options} (h : 0 < opts.maxRotatedLogs) (o : Output) :
    Tracked (o.rotateLogs opts) ∧ (o.rotateLogs opts).size = 0 := by
  have hfile : (o.rotateLogs opts).files 0 = some [] := by
    show openLogFile (renameLoop opts.maxRotatedLogs o.files) 0 = some []
    unfold openLogFile
    rw [renameLoop_zero h]
    exact Function.update_self ..
  have hsize : (o.rotateLogs opts).size = 0 := by
    rw [size, hfile]
    rfl
  exact ⟨⟨by rw [hfile]; rfl, hsize.symm⟩, hsize⟩

end Output

section Condition

variable {L : Type*} (P : LogPrint L) (opts : Options)

/-- The line of an entry, when it has one. -/
def line (dev : Nat) (buf : LoggerEntry) : Option (List UInt8) :=
  (if opts.binary dev then P.processBinaryLogBuffer buf else some (P.processLogBuffer buf)).bind
    fun entry => if P.shouldPrintLine entry then P.formatLogLine entry else some []

/-- No header is due. -/
def NoHeader (o : Output) (dev : Nat) : Prop :=
  o.printed dev = true ∨ opts.devCount ≤ 1 ∨ opts.printBinary = true

/-- The bytes fit into the file, or a rotation moves it away. -/
def Fits (o : Output) (bytes : List UInt8) : Prop :=
  0 < opts.maxRotatedLogs ∨ o.size + bytes.length < opts.logRotateSizeKBytes * 1024

/-- All bytes that a call writes are counted.  An entry without a line is not followed by
the test for a rotation. -/
def Counted (o : Output) : OutputCall → Prop
  | .print dev buf => NoHeader opts o dev ∧ opts.printBinary = false ∧
      (line P opts dev buf).elim (o.size < opts.logRotateSizeKBytes * 1024) (Fits opts o)
  | .skip dev => NoHeader opts o dev

end Condition

namespace Output

variable {L : Type*} {P : LogPrint L} {opts : Options} {o o' : Output} {dev : Nat}

theorem maybePrintStart_files (h : NoHeader opts o dev) :
    (o.maybePrintStart opts dev).files = o.files ∧
      (o.maybePrintStart opts dev).outByteCount = o.outByteCount := by
  unfold maybePrintStart
  split
  · exact ⟨rfl, rfl⟩
  · rename_i hnot
    have hno : ¬ (1 < opts.devCount ∧ opts.printBinary = false) := by
      rintro ⟨hmany, htext⟩
      rcases h with hprinted | hfew | hbinary
      · exact hnot hprinted
      · omega
      · rw [htext] at hbinary
        cases hbinary
    dsimp only
    rw [if_neg hno]
    exact ⟨rfl, rfl⟩

/-- The header of a device is due once. -/
theorem printed_maybePrintStart (o : Output) :
    (o.maybePrintStart opts dev).printed dev = true := by
  unfold maybePrintStart
  split
  · rename_i h
    exact h
  · dsimp only
    split <;> exact Function.update_self ..

theorem Tracked.congr (h : o.Tracked) (hfiles : o'.files = o.files)
    (hcount : o'.outByteCount = o.outByteCount) : o'.Tracked := by
  have hsize : o'.size = o.size := by rw [size, size, hfiles]
  exact ⟨hfiles ▸ h.isOpen, by rw [hcount, hsize]; exact h.count⟩

theorem processBuffer_line (P : LogPrint L) (o : Output) (dev : Nat) (buf : LoggerEntry)
    (h : o.processBuffer P opts dev buf = some o') :
    (line P opts dev buf = none ∧ o' = o) ∨
    ∃ bytes, line P opts dev buf = some bytes ∧
      o' = (if 0 < opts.logRotateSizeKBytes ∧
          opts.logRotateSizeKBytes ≤ (o.outByteCount + bytes.length) / 1024 then
        rotateLogs opts { o.write bytes with outByteCount := o.outByteCount + bytes.length }
      else { o.write bytes with outByteCount := o.outByteCount + bytes.length }) := by
  unfold processBuffer at h
  unfold line
  dsimp only at h
  -- an entry that cannot be parsed is dropped, any other one is a line, which may be empty
  cases hentry : (if opts.binary dev = true then P.processBinaryLogBuffer buf
      else some (P.processLogBuffer buf)) with
  | none =>
      rw [hentry] at h
      exact Or.inl ⟨rfl, (Option.some.inj h).symm⟩
  | some entry =>
      rw [hentry] at h
      rw [Option.bind_some]
      dsimp only at h
      cases hline : (if P.shouldPrintLine entry = true then P.formatLogLine entry
          else some []) with
      | none =>
          rw [hline] at h
          cases h
      | some bytes =>
          rw [hline] at h
          refine Or.inr ⟨bytes, rfl, ?_⟩
          dsimp only at h
          split at h
          · rename_i hrotate
            rw [if_pos hrotate]
            exact (Option.some.inj h).symm
          · rename_i hrotate
            rw [if_neg hrotate]
            exact (Option.some.inj h).symm

theorem processBuffer_printed {buf : LoggerEntry}
    (h : o.processBuffer P opts dev buf = some o') : o'.printed = o.printed := by
  rcases processBuffer_line P o dev buf h with ⟨-, rfl⟩ | ⟨bytes, -, rfl⟩
  · rfl
  · split <;> rfl

/-- What `processBuffer` does to a file whose bytes are counted. -/
theorem Tracked.processBuffer (h : o.Tracked) (hK : 0 < opts.logRotateSizeKBytes)
    {buf : LoggerEntry}
    (hfits : (line P opts dev buf).elim (o.size < opts.logRotateSizeKBytes * 1024)
      (Fits opts o))
    (hbuffer : o.processBuffer P opts dev buf = some o') :
    o'.Tracked ∧ o'.size < opts.logRotateSizeKBytes * 1024 := by
  rcases processBuffer_line P o dev buf hbuffer with ⟨hline, rfl⟩ | ⟨bytes, hline, rfl⟩
  · rw [hline] at hfits
    exact ⟨h, hfits⟩
  · rw [hline] at hfits
    have hsize := size_write h.isOpen bytes
    split
    · rename_i hrotate
      have hmax : 0 < opts.maxRotatedLogs := by
        rcases hfits with hmax | hsmall
        · exact hmax
        · have hcount := h.count
          omega
      obtain ⟨htracked, hempty⟩ := rotateLogs_empty hmax
        { o.write bytes with outByteCount := o.outByteCount + bytes.length }
      exact ⟨htracked, by omega⟩
    · rename_i hstay
      refine ⟨h.writeLine bytes, ?_⟩
      show (o.write bytes).size < _
      have hcount := h.count
      omega

/-- One entry is printed. -/
theorem Tracked.print (h : o.Tracked) (hK : 0 < opts.logRotateSizeKBytes) {buf : LoggerEntry}
    (hcounted : Counted P opts o (.print dev buf))
    (hprint : o.printNextEntry P opts dev buf = some o') :
    o'.Tracked ∧ o'.size < opts.logRotateSizeKBytes * 1024 := by
  obtain ⟨hheader, htext, hfits⟩ := hcounted
  obtain ⟨hfiles, hcount⟩ := maybePrintStart_files hheader
  have hsame : (o.maybePrintStart opts dev).size = o.size := by rw [size, size, hfiles]
  unfold printNextEntry at hprint
  dsimp only at hprint
  rw [if_neg (by rw [htext]; exact Bool.false_ne_true), Option.map_eq_some_iff] at hprint
  obtain ⟨o₁, hbuffer, rfl⟩ := hprint
  have hfits' : (line P opts dev buf).elim
      ((o.maybePrintStart opts dev).size < opts.logRotateSizeKBytes * 1024)
      (Fits opts (o.maybePrintStart opts dev)) := by
    unfold Fits at hfits ⊢
    rwa [hsame]
  obtain ⟨htracked, hbound⟩ := (h.congr hfiles hcount).processBuffer hK hfits' hbuffer
  have hprinted : NoHeader opts o₁ dev := by
    refine Or.inl ?_
    rw [processBuffer_printed hbuffer]
    exact printed_maybePrintStart o
  obtain ⟨hfiles₁, hcount₁⟩ := maybePrintStart_files hprinted
  refine ⟨htracked.congr hfiles₁ hcount₁, ?_⟩
  rw [skipNextEntry, size, hfiles₁]
  exact hbound

/-- In runs of calls that count what they write. -/
theorem tracked_of_counted (hK : 0 < opts.logRotateSizeKBytes)
    (hreach : (outputMachine P opts).ReachWhen (Counted P opts) o) : o.Tracked := by
  refine hreach.invariant (I := Tracked) ?_ ?_
  · rintro _ ⟨files, rfl⟩
    exact tracked_setup files
  · intro o call o' h hcounted hstep
    cases call with
    | print dev buf => exact (h.print hK hcounted hstep).1
    | skip dev =>
        obtain ⟨hfiles, hcount⟩ := maybePrintStart_files (o := o) hcounted
        obtain rfl := Option.some.inj hstep
        exact h.congr hfiles hcount

end Output

section Runs

variable {L : Type*} (P : LogPrint L) (opts : Options)

/-- The count is the size of the file, an entry leaves the file below the limit, and a
rotation moves the contents up. -/
structure RotationOk (o : Output) (allowed : OutputCall → Prop) : Prop where
  counts : o.outByteCount = o.size
  bounded : ∀ dev buf o', allowed (.print dev buf) →
    o.printNextEntry P opts dev buf = some o' → o'.size < opts.logRotateSizeKBytes * 1024
  rotates : Rotated opts.maxRotatedLogs o.files (o.rotateLogs opts).files

/-- `RotationOk` in every state of a run of calls that count what they write. -/
theorem rotation_ok_of_counted (hK : 0 < opts.logRotateSizeKBytes) {o : Output}
    (hreach : (outputMachine P opts).ReachWhen (Counted P opts) o) :
    RotationOk P opts o (Counted P opts o) where
  counts := (Output.tracked_of_counted hK hreach).count
  bounded _ _ _ hcounted hprint :=
    ((Output.tracked_of_counted hK hreach).print hK hcounted hprint).2
  rotates := rotated_renameLoop _ _

end Runs

/-- Lines that are the messages of the entries. -/
def plainText : LogPrint (List UInt8) where
  processLogBuffer buf := buf.msg
  processBinaryLogBuffer _ := none
  shouldPrintLine _ := true
  formatLogLine message := some message

/-- `logcat -f log -r 1 -n 4` with one device or with two. -/
def rotateOptions (devCount : Nat) : Options where
  devCount := devCount
  printBinary := false
  logRotateSizeKBytes := 1
  maxRotatedLogs := 4
  device _ := []
  binary _ := false

def helloEntry : LoggerEntry := ⟨0, 1, 1, 0, 0, [104, 105, 10]⟩

/-- A log file and no rotated ones. -/
def oneFile (contents : List UInt8) : Files := fun i => if i = 0 then some contents else none

/-- The output behind an entry for which the file is rotated. -/
def rotatedOutput (contents : List UInt8) : Output :=
  let o := (setupOutput (oneFile contents)).maybePrintStart (rotateOptions 1) 0
  ({ o.write helloEntry.msg with outByteCount := o.outByteCount + 3 }.rotateLogs
    (rotateOptions 1)).skipNextEntry (rotateOptions 1) 0

theorem print_oneFile {contents : List UInt8} (h : 1 ≤ (contents.length + 3) / 1024) :
    (outputMachine plainText (rotateOptions 1)).step (setupOutput (oneFile contents))
      (.print 0 helloEntry) = some (rotatedOutput contents) := by
  have hrotates : ((setupOutput (oneFile contents)).maybePrintStart
      (rotateOptions 1) 0).processBuffer plainText (rotateOptions 1) 0 helloEntry = some _ :=
    if_pos ⟨Nat.one_pos, h⟩
  exact congrArg (Option.map _) hrotates

/-- The output behind the next entry, which is the first one of the new file. -/
def keptOutput (contents : List UInt8) : Output :=
  let o := (rotatedOutput contents).maybePrintStart (rotateOptions 1) 0
  { o.write helloEntry.msg with outByteCount := 3 }.skipNextEntry (rotateOptions 1) 0

theorem print_rotatedOutput (contents : List UInt8) :
    (outputMachine plainText (rotateOptions 1)).step (rotatedOutput contents)
      (.print 0 helloEntry) = some (keptOutput contents) := by
  have hkeeps : ((rotatedOutput contents).maybePrintStart (rotateOptions 1) 0).processBuffer
      plainText (rotateOptions 1) 0 helloEntry = some _ :=
    if_neg (show ¬ (0 < 1 ∧ 1 ≤ (0 + 3) / 1024) by decide)
  exact congrArg (Option.map _) hkeeps

/-- The first entry is the last one of the old file, the second one the first of the new. -/
theorem rotation_ok_rotated : ∃ o,
    (outputMachine plainText (rotateOptions 1)).run
      (setupOutput (oneFile (List.replicate 1022 0x61)))
      [.print 0 helloEntry, .print 0 helloEntry] = some o ∧
    o.files 0 = some [104, 105, 10] ∧
    o.files 1 = some (List.replicate 1022 0x61 ++ [104, 105, 10]) ∧
    RotationOk plainText (rotateOptions 1) o (Counted plainText (rotateOptions 1) o) := by
  obtain ⟨contents, hlen, heq⟩ : ∃ contents : List UInt8,
      contents.length = 1022 ∧ List.replicate 1022 0x61 = contents :=
    ⟨_, List.length_replicate, rfl⟩
  rw [heq]
  have hfirst := @print_oneFile contents (by rw [hlen])
  have hsecond := print_rotatedOutput contents
  refine ⟨keptOutput contents, ?_, rfl, rfl, rotation_ok_of_counted plainText (rotateOptions 1)
    (by decide) (.step (a := .print 0 helloEntry) (.step (a := .print 0 helloEntry)
      (.init ⟨oneFile contents, rfl⟩)
      ⟨Or.inr (Or.inl (by decide)), rfl, Or.inl (by decide)⟩ hfirst)
      ⟨Or.inr (Or.inl (by decide)), rfl, Or.inl (by decide)⟩ hsecond)⟩
  simp only [Machine.run, hfirst, hsecond]

theorem header_length_pos (opts : Options) (dev : Nat) :
    0 < (Output.header opts dev).length := by
  rw [Output.header, List.length_take, List.length_append]
  simp

/-- The header of the first of two devices is not counted. -/
theorem rotation_miscounts : ¬ ∀ o, (outputMachine plainText (rotateOptions 2)).Reach o →
    RotationOk plainText (rotateOptions 2) o fun _ => True := by
  intro h
  let start := (setupOutput fun _ => none).write (Output.header (rotateOptions 2) 0)
  have hstart : (start.files 0).isSome := Output.write_isOpen rfl _
  have hsize : (start.write helloEntry.msg).size =
      0 + (Output.header (rotateOptions 2) 0).length + 3 := by
    rw [Output.size_write hstart, Output.size_write rfl]
    rfl
  have hcounts := (h _ (Machine.reach_of_run (s := setupOutput fun _ => none)
    [.print 0 helloEntry] ⟨_, rfl⟩ rfl)).counts
  have hthree : 3 = (start.write helloEntry.msg).size := hcounts
  have hpos := header_length_pos (rotateOptions 2) 0
  omega

end Logcat
end AndroidLinux
