import AndroidLinux.Binder.Layout

/-!
# The write operations

All public write operations of a Parcel (`WriteOp`), and the parts of each.  `run_eq` says
that an operation runs its parts, with three exceptions: a native handle that is not
valid is refused before, `writeBlob` into shared memory asks the system first, and
`writeInterfaceToken` goes on when its first part has failed.
-/

namespace AndroidLinux
namespace Binder

open Lib

/-- Text in memory, of which a caller gives the length. -/
structure Chars where
  units : List UInt16
  fits : units.length < 2 ^ 32

/-- An array of `int32_t` of a caller. -/
structure Words where
  words : List UInt32
  fits : words.length < 2 ^ 32

/-- The words in memory. -/
def Words.bytes (w : Words) : List UInt8 := w.words.flatMap fun x => leBytes 4 x.toNat

theorem Words.bytes_length (w : Words) : w.bytes.length = 4 * w.words.length := by
  simp [Words.bytes, List.length_flatMap, leBytes_length, Nat.mul_comm]

inductive WriteOp
  | unpadded (buffer : Parcel.Buffer)
  | inplace (len : UInt32)
  | data (buffer : Parcel.Buffer)
  | int32 (val : Int32)
  | int64 (val : Int64)
  | pointer (val : UInt32)
  | float (val : UInt32)
  | double (val : UInt64)
  | noException
  | int32Array (val : Option Words)
  | byteArray (val : Option Parcel.Buffer)
  | cString (str : CString)
  | string8 (str : Parcel.Buffer)
  | string16 (str : Parcel.Units)
  | chars (str : Option Chars)
  | interfaceToken (policy : Int32) (interface : Parcel.Units)
  | object (val : FlatBinderObject) (nullMetaData : Bool)
  | strongBinder (val : Parcel.BinderRef)
  | weakBinder (val : Parcel.BinderRef)
  | fileDescriptor (fd : Int32) (takeOwnership : Bool)
  | dupFileDescriptor
  | parcelFileDescriptor (fd commChannel : Int32)
  | nativeHandle (handle : Option Parcel.NativeHandle)
  | blob (len : UInt32) (a : Parcel.Ashmem)
  | flattenable (val : Parcel.Flattenable)
  | lightFlattenable (val : Parcel.LightFlattenable)

namespace WriteOp

open Parcel

/-- A call; `writeInplace` reports `NULL` as an error. -/
def run : WriteOp → Parcel → Status × Parcel
  | .unpadded buffer => writeUnpadded buffer
  | .inplace len => fun p =>
      match p.writeInplace len with
      | (none, q) => (noMemory, q)
      | (some _, q) => (noError, q)
  | .data buffer => write buffer
  | .int32 val => writeInt32 val
  | .int64 val => writeInt64 val
  | .pointer val => writePointer val
  | .float val => writeFloat val
  | .double val => writeDouble val
  | .noException => writeNoException
  | .int32Array val =>
      writeInt32Array (val.elim 0 fun w => UInt32.ofNat w.words.length) (val.map Words.bytes)
  | .byteArray val => writeByteArray (val.elim 0 Buffer.len) (val.map Buffer.data)
  | .cString str => writeCString str
  | .string8 str => writeString8 str
  | .string16 str => writeString16Of str
  | .chars str =>
      writeString16 (str.map Chars.units) (str.elim 0 fun c => UInt32.ofNat c.units.length)
  | .interfaceToken policy interface => writeInterfaceToken policy interface
  | .object val nullMetaData => writeObject val nullMetaData
  | .strongBinder val => writeStrongBinder val
  | .weakBinder val => writeWeakBinder val
  | .fileDescriptor fd takeOwnership => writeFileDescriptor fd takeOwnership
  | .dupFileDescriptor => writeDupFileDescriptor
  | .parcelFileDescriptor fd commChannel => writeParcelFileDescriptor fd commChannel
  | .nativeHandle handle => writeNativeHandle handle
  | .blob len a => writeBlob len a
  | .flattenable val => writeFlattenable val
  | .lightFlattenable val => writeLightFlattenable val

/-- The four bytes of a number. -/
def int32Part (val : Int32) : Part := .aligned (leBytes 4 val.toUInt32.toNat)

/-- A length in front of a payload. -/
def lenPart (n : Nat) : Part := int32Part (UInt32.ofNat n).toInt32

/-- What an operation is meant to write, when descriptors are allowed or not. -/
def parts (allowFds : Bool) : WriteOp → List Part
  | .unpadded buffer => [.unpadded buffer.data]
  | .inplace len => [.room len [] noMemory]
  | .data buffer => [.padded buffer.data]
  | .int32 val => [int32Part val]
  | .int64 val => [.aligned (leBytes 8 val.toUInt64.toNat)]
  | .pointer val => [.aligned (leBytes 4 val.toNat)]
  | .float val => [.aligned (leBytes 4 val.toNat)]
  | .double val => [.aligned (leBytes 8 val.toNat)]
  | .noException => [int32Part 0]
  | .int32Array none => [int32Part (-1)]
  | .int32Array (some w) => [lenPart w.words.length, .padded w.bytes]
  | .byteArray none => [int32Part (-1)]
  | .byteArray (some b) => [lenPart b.data.length, .padded b.data]
  | .cString str => [.padded (str.bytes ++ [0])]
  | .string8 str =>
      lenPart str.data.length :: if str.data = [] then [] else [.padded (str.data ++ [0])]
  | .string16 str => [lenPart str.units.length, .units str.units]
  | .chars none => [int32Part (-1)]
  | .chars (some c) => [lenPart c.units.length, .units c.units]
  | .interfaceToken policy interface =>
      [int32Part (policy ||| 0x100), lenPart interface.units.length, .units interface.units]
  | .object val nullMetaData => [.object val nullMetaData]
  | .strongBinder val => [.object (flattenStrong val) false]
  | .weakBinder val => [.object (flattenWeak val) false]
  | .fileDescriptor fd takeOwnership => [.object (fdObject fd takeOwnership) true]
  | .dupFileDescriptor => [.dup]
  | .parcelFileDescriptor fd commChannel =>
      if fd < 0 then [int32Part 0]
      else int32Part 1 :: .dup ::
        if commChannel < 0 then [int32Part 0] else [int32Part 1, .dup]
  | .nativeHandle none => []
  | .nativeHandle (some h) =>
      lenPart h.fds.length :: int32Part h.numInts.toInt32 ::
        (List.replicate h.fds.length .dup ++ [.padded h.ints])
  | .blob len a =>
      if !allowFds || len ≤ inPlaceBlobLimit then [int32Part 0, .room len [] noMemory]
      else [int32Part 1, .object (fdObject a.createRegion true) true]
  | .flattenable val =>
      lenPart val.data.data.length :: lenPart val.fds.length ::
        .room (padSize val.data.len) val.data.data badValue :: .result val.status ::
          List.replicate val.fds.length .dup
  | .lightFlattenable val =>
      (if val.isFixedSize then [] else [lenPart val.data.data.length]) ++
        if val.data.data = [] then []
        else [.room val.data.len val.data.data noMemory, .result val.status]

theorem runAll_singleton (x : Part) : Part.runAll [x] = x.run :=
  andThen_done x.run

theorem runAll_append (xs ys : List Part) :
    Part.runAll (xs ++ ys) = andThen (Part.runAll xs) (Part.runAll ys) := by
  induction xs with
  | nil => rfl
  | cons x xs ih =>
      rw [List.cons_append, Part.runAll, ih, ← andThen_assoc]
      rfl

theorem runAll_dups (n : Nat) : Part.runAll (List.replicate n .dup) = writeDups n := by
  induction n with
  | zero => rfl
  | succ n ih =>
      rw [List.replicate_succ, Part.runAll, ih]
      rfl

theorem storeAt_nil (p : Parcel) (off : UInt32) : p.storeAt off [] = p := by
  unfold storeAt
  rw [touch, if_pos (.inl rfl)]
  rfl

/-- A room that stays empty. -/
theorem run_room_nil (len : UInt32) :
    (Part.room len [] noMemory).run = (WriteOp.inplace len).run := by
  funext p
  unfold Part.run run
  dsimp only
  generalize p.writeInplace len = w
  obtain ⟨buf, q⟩ := w
  cases buf with
  | none => rfl
  | some buf =>
      dsimp only
      rw [storeAt_nil]

theorem Buffer.of_len (b : Buffer) : Buffer.of b.data b.len = b := by
  unfold Buffer.of
  congr
  exact List.take_of_length_le b.len_toNat.ge

@[simp] theorem run_int32Part (val : Int32) : (int32Part val).run = writeInt32 val := rfl

@[simp] theorem run_lenPart (n : Nat) :
    (lenPart n).run = writeInt32 (UInt32.ofNat n).toInt32 := rfl

theorem write_parts (bytes : List UInt8) :
    (Part.padded bytes).run = write (.of bytes (UInt32.ofNat bytes.length)) := rfl

theorem write_buffer (b : Buffer) : (Part.padded b.data).run = write b := by
  rw [write_parts, ← Buffer.len, Buffer.of_len]

theorem run_string8 (str : Buffer) :
    writeString8 str = Part.runAll (parts true (.string8 str)) := by
  have hlen : str.len + 1 = UInt32.ofNat (str.data ++ [0]).length := by
    rw [List.length_append, UInt32.ofNat_add]
    rfl
  show _ = Part.runAll (lenPart str.data.length ::
    if str.data = [] then [] else [.padded (str.data ++ [0])])
  rw [Part.runAll, writeString8, run_lenPart, ← Buffer.len]
  congr 1
  funext p
  by_cases hempty : str.data = []
  · have hzero : ¬ 0 < str.len := by
      rw [UInt32.lt_iff_toNat_lt, Buffer.len_toNat, hempty]
      exact Nat.lt_irrefl 0
    rw [if_neg hzero, if_pos hempty, Part.runAll]
  · have hpos : 0 < str.len := by
      rw [UInt32.lt_iff_toNat_lt, Buffer.len_toNat]
      exact List.length_pos_of_ne_nil hempty
    rw [if_pos hpos, if_neg hempty, runAll_singleton, write_parts, hlen]

theorem run_int32Array (w : Words) :
    writeInt32Array (UInt32.ofNat w.words.length) (some w.bytes) =
      Part.runAll [lenPart w.words.length, .padded w.bytes] := by
  have hlen : UInt32.ofNat w.words.length * 4 = UInt32.ofNat w.bytes.length := by
    rw [w.bytes_length, UInt32.ofNat_mul, UInt32.mul_comm]
    rfl
  rw [Part.runAll, runAll_singleton, run_lenPart, write_parts, writeInt32Array,
    Option.elim_some, hlen]

theorem run_byteArray (b : Buffer) :
    writeByteArray b.len (some b.data) =
      Part.runAll [lenPart b.data.length, .padded b.data] := by
  rw [Part.runAll, runAll_singleton, run_lenPart, write_buffer, writeByteArray,
    Option.elim_some, Buffer.of_len, ← Buffer.len]

theorem run_chars (units : List UInt16) :
    writeString16 (some units) (UInt32.ofNat units.length) =
      Part.runAll [lenPart units.length, .units units] := by
  rw [Part.runAll, runAll_singleton, run_lenPart, writeString16, Option.elim_some, Part.run]

theorem run_parcelFileDescriptor (fd commChannel : Int32) (allowFds : Bool) :
    writeParcelFileDescriptor fd commChannel =
      Part.runAll (parts allowFds (.parcelFileDescriptor fd commChannel)) := by
  show _ = Part.runAll (if fd < 0 then [int32Part 0] else int32Part 1 :: .dup ::
    if commChannel < 0 then [int32Part 0] else [int32Part 1, .dup])
  rw [writeParcelFileDescriptor]
  by_cases hfd : fd < 0
  · rw [if_pos hfd, if_pos hfd, runAll_singleton, run_int32Part]
  · rw [if_neg hfd, if_neg hfd, Part.runAll, Part.runAll, run_int32Part, Part.run]
    by_cases hcomm : commChannel < 0
    · rw [if_pos hcomm, if_pos hcomm, runAll_singleton, run_int32Part]
    · rw [if_neg hcomm, if_neg hcomm, Part.runAll, runAll_singleton, run_int32Part, Part.run]

theorem run_nativeHandle (h : NativeHandle) (allowFds : Bool) :
    writeNativeHandle (some h) = Part.runAll (parts allowFds (.nativeHandle (some h))) := by
  have hlen : 4 * h.numInts = UInt32.ofNat h.ints.length := by
    rw [h.lengthInts, UInt32.ofNat_mul, UInt32.ofNat_toNat]
    rfl
  have hparts : parts allowFds (.nativeHandle (some h)) =
      lenPart h.fds.length :: int32Part h.numInts.toInt32 ::
        (List.replicate h.fds.length .dup ++ [.padded h.ints]) := rfl
  rw [hparts, Part.runAll, Part.runAll, runAll_append, runAll_dups, runAll_singleton,
    run_lenPart, run_int32Part, write_parts, writeNativeHandle, Option.elim_some, hlen]

theorem run_room_none {len : UInt32} {fill : List UInt8} {null : Status} {p q : Parcel}
    (h : p.writeInplace len = (none, q)) : (Part.room len fill null).run p = (null, q) := by
  unfold Part.run
  simp only [h]

theorem run_room_some {len buf : UInt32} {fill : List UInt8} {null : Status} {p q : Parcel}
    (h : p.writeInplace len = (some buf, q)) :
    (Part.room len fill null).run p = (noError, q.storeAt buf fill) := by
  unfold Part.run
  simp only [h]

theorem run_flattenable (val : Flattenable) (allowFds : Bool) :
    writeFlattenable val = Part.runAll (parts allowFds (.flattenable val)) := by
  show _ = Part.runAll (lenPart val.data.data.length :: lenPart val.fds.length ::
    .room (padSize val.data.len) val.data.data badValue :: .result val.status ::
      List.replicate val.fds.length .dup)
  rw [Part.runAll, Part.runAll, run_lenPart, run_lenPart, writeFlattenable, ← Buffer.len]
  congr 2
  funext p
  rw [Part.runAll, Part.runAll, runAll_dups]
  rcases hroom : p.writeInplace (padSize val.data.len) with ⟨buf, q⟩
  cases buf with
  | none => rw [andThen_of_error (run_room_none hroom) (by decide)]
  | some buf => rw [andThen_of_done (run_room_some hroom), Part.run]

theorem run_lightFlattenable (val : LightFlattenable) (allowFds : Bool) :
    writeLightFlattenable val = Part.runAll (parts allowFds (.lightFlattenable val)) := by
  show _ = Part.runAll ((if val.isFixedSize then [] else [lenPart val.data.data.length]) ++
    if val.data.data = [] then []
    else [.room val.data.len val.data.data noMemory, .result val.status])
  rw [writeLightFlattenable, runAll_append]
  congr 1
  · cases val.isFixedSize with
    | true => rw [if_pos rfl, if_pos rfl, Part.runAll]
    | false =>
        rw [if_neg Bool.false_ne_true, if_neg Bool.false_ne_true, runAll_singleton, run_lenPart,
          ← Buffer.len]
  · funext p
    have hlen : val.data.len ≠ 0 ↔ val.data.data ≠ [] := by
      rw [ne_eq, ← UInt32.toNat_inj, Buffer.len_toNat, ne_eq, ← List.length_eq_zero_iff]
      rfl
    by_cases hempty : val.data.data = []
    · rw [if_neg fun h => hlen.mp h hempty, if_pos hempty, Part.runAll]
    · rw [if_pos (hlen.mpr hempty), if_neg hempty, Part.runAll, runAll_singleton]
      rcases hroom : p.writeInplace val.data.len with ⟨buf, q⟩
      cases buf with
      | none => rw [andThen_of_error (run_room_none hroom) (by decide)]
      | some buf => rw [andThen_of_done (run_room_some hroom), Part.run]

/-- Operations that do nothing besides their parts. -/
def Direct : WriteOp → Prop
  | .interfaceToken _ _ => False
  | .nativeHandle none => False
  | .blob _ _ => False
  | _ => True

theorem run_eq {op : WriteOp} (h : op.Direct) (p : Parcel) :
    op.run p = Part.runAll (op.parts p.mAllowFds) p := by
  -- the length that an operation computes is that of its bytes
  cases op with
  | unpadded buffer => rw [parts, runAll_singleton, Part.run, ← Buffer.len, Buffer.of_len, run]
  | inplace len => rw [parts, runAll_singleton, run_room_nil]
  | data buffer => rw [parts, runAll_singleton, write_buffer, run]
  | int32 val => rw [parts, runAll_singleton, run_int32Part, run]
  | int64 val => rw [parts, runAll_singleton, Part.run, run, writeInt64]
  | pointer val => rw [parts, runAll_singleton, Part.run, run, writePointer]
  | float val => rw [parts, runAll_singleton, Part.run, run, writeFloat]
  | double val => rw [parts, runAll_singleton, Part.run, run, writeDouble]
  | noException => rw [parts, runAll_singleton, run_int32Part, run, writeNoException]
  | int32Array val =>
      cases val with
      | none => rw [parts, runAll_singleton, run_int32Part, run, writeInt32Array, Option.map_none,
          Option.elim_none]
      | some w => rw [parts, ← run_int32Array, run, Option.elim_some, Option.map_some]
  | byteArray val =>
      cases val with
      | none => rw [parts, runAll_singleton, run_int32Part, run, writeByteArray, Option.map_none,
          Option.elim_none]
      | some b => rw [parts, ← run_byteArray, run, Option.elim_some, Option.map_some]
  | cString str =>
      have hlen : UInt32.ofNat str.strlen + 1 = UInt32.ofNat (str.bytes ++ [0]).length := by
        rw [List.length_append, UInt32.ofNat_add]
        rfl
      rw [parts, runAll_singleton, write_parts, run, writeCString, hlen]
  | string8 str => rw [run, run_string8, parts, parts]
  | string16 str => rw [parts, ← run_chars, run, writeString16Of]
  | chars str =>
      cases str with
      | none => rw [parts, runAll_singleton, run_int32Part, run, writeString16, Option.map_none,
          Option.elim_none]
      | some c => rw [parts, ← run_chars, run, Option.elim_some, Option.map_some]
  | interfaceToken policy interface => exact absurd h id
  | object val nullMetaData => rw [parts, runAll_singleton, Part.run, run]
  | strongBinder val => rw [parts, runAll_singleton, Part.run, run, writeStrongBinder]
  | weakBinder val => rw [parts, runAll_singleton, Part.run, run, writeWeakBinder]
  | fileDescriptor fd takeOwnership =>
      rw [parts, runAll_singleton, Part.run, run, writeFileDescriptor]
  | dupFileDescriptor => rw [parts, runAll_singleton, Part.run, run]
  | parcelFileDescriptor fd commChannel => rw [run, run_parcelFileDescriptor fd commChannel]
  | nativeHandle handle =>
      cases handle with
      | none => exact absurd h id
      | some n => rw [run, run_nativeHandle n]
  | blob len a => exact absurd h id
  | flattenable val => rw [run, run_flattenable val]
  | lightFlattenable val => rw [run, run_lightFlattenable val]

end WriteOp
end Binder
end AndroidLinux
