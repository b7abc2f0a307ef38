import AndroidLinux.Binder.Writing

/-!
# Writing values to a Parcel and reading them back

`Value.encode` is what a value is meant to look like in the buffer: length prefix,
terminator and zero padding.  While allocations succeed, writes append encodings
(`Holds`), and reads consume them (`Unread`), so that the values come back in order.
-/

namespace AndroidLinux
namespace Binder

open Lib

/-- A value with the operation that writes it. -/
inductive Value
  | int32 (val : Int32)
  | int64 (val : Int64)
  | pointer (val : UInt32)
  | cString (str : CString)
  | string8 (str : Parcel.Buffer)
  | string16 (str : Parcel.Units)
  | data (buffer : Parcel.Buffer)

/-- The operation that reads a value. -/
inductive ReadOp
  | int32
  | int64
  | pointer
  | cString
  | string8
  | string16
  | data (len : UInt32)

/-- What such an operation returns. -/
inductive Result
  | int32 (val : Int32)
  | int64 (val : Int64)
  | pointer (val : UInt32)
  | cString (str : Option (List UInt8))
  | string8 (str : List UInt8)
  | string16 (str : List UInt16)
  | data (bytes : Option (List UInt8))

def Value.write : Value → Parcel → Status × Parcel
  | .int32 val => Parcel.writeInt32 val
  | .int64 val => Parcel.writeInt64 val
  | .pointer val => Parcel.writePointer val
  | .cString str => Parcel.writeCString str
  | .string8 str => Parcel.writeString8 str
  | .string16 str => Parcel.writeString16Of str
  | .data buffer => Parcel.write buffer

def ReadOp.run : ReadOp → Parcel → Result × Parcel
  | .int32, p => (.int32 p.readInt32.1, p.readInt32.2)
  | .int64, p => (.int64 p.readInt64.1, p.readInt64.2)
  | .pointer, p => (.pointer p.readPointer.1, p.readPointer.2)
  | .cString, p => (.cString p.readCString.1, p.readCString.2)
  | .string8, p => (.string8 p.readString8.1, p.readString8.2)
  | .string16, p => (.string16 p.readString16.1, p.readString16.2)
  | .data len, p => (.data (p.read len).1, (p.read len).2)

def Value.readOp : Value → ReadOp
  | .int32 _ => .int32
  | .int64 _ => .int64
  | .pointer _ => .pointer
  | .cString _ => .cString
  | .string8 _ => .string8
  | .string16 _ => .string16
  | .data buffer => .data buffer.len

def Value.result : Value → Result
  | .int32 val => .int32 val
  | .int64 val => .int64 val
  | .pointer val => .pointer val
  | .cString str => .cString (some str.bytes)
  | .string8 str => .string8 str.data
  | .string16 str => .string16 str.units
  | .data buffer => .data (some buffer.data)

/-- The encoding of a value, padding included. -/
def Value.encode : Value → List UInt8
  | .int32 val => leBytes 4 val.toUInt32.toNat
  | .int64 val => leBytes 8 val.toUInt64.toNat
  | .pointer val => leBytes 4 val.toNat
  | .cString str => padded (str.bytes ++ [0])
  | .string8 str =>
      leBytes 4 str.data.length ++ if str.data = [] then [] else padded (str.data ++ [0])
  | .string16 str =>
      leBytes 4 str.units.length ++ padded (Parcel.unitBytes str.units ++ [0, 0])
  | .data buffer => padded buffer.data

/-- The calls one after the other, with what they return. -/
def writeAll : List Value → Parcel → List Status × Parcel
  | [], p => ([], p)
  | v :: vs, p =>
      let r := v.write p
      let rs := writeAll vs r.2
      (r.1 :: rs.1, rs.2)

def readAll : List ReadOp → Parcel → List Result × Parcel
  | [], p => ([], p)
  | op :: ops, p =>
      let r := op.run p
      let rs := readAll ops r.2
      (r.1 :: rs.1, rs.2)

namespace Parcel

variable {p q : Parcel} {bs : List UInt8}

/-! ## Writing -/

/-- The buffer of `p` holds `bs`, and it is written at the end. -/
structure Contains (p : Parcel) (bs : List UInt8) : Prop extends Sound p where
  size : p.mDataSize.toNat = bs.length
  pos : p.mDataPos = p.mDataSize
  load : p.bytes.load 0 bs.length = bs
  owner : p.mOwner = false

theorem Contains.start_toNat (h : Contains p bs) : p.start.toNat = bs.length := by
  unfold start
  cases hnull : p.mData with
  | true => rw [if_pos rfl, h.pos, h.size]
  | false =>
      have hzero := h.size_null hnull
      rw [h.size] at hzero
      simp [hzero]

theorem Contains.pos_toNat (h : Contains p bs) : p.mDataPos.toNat = bs.length := by
  rw [h.pos, h.size]

/-- The new size of the buffer reaches the end of the write. -/
theorem Contains.growSize_toNat (h : Contains p bs) {n : UInt32}
    (hn : (bs.length + n.toNat) * 3 < 2 ^ 32) :
    (growSize p.mDataSize n).toNat = (bs.length + n.toNat) * 3 / 2 := by
  rw [Parcel.growSize_toNat (by rw [h.size]; exact hn), h.size]

theorem Contains.fits_of_lt (h : Contains p bs) {n : UInt32}
    (hn : (bs.length + n.toNat) * 3 < 2 ^ 32) : p.Fits n where
  noWrap := by
    rw [h.pos_toNat]
    omega
  grows _ := by
    rw [h.start_toNat, h.growSize_toNat hn]
    omega

theorem Contains.not_gaveUp (h : Contains p bs) {n : UInt32}
    (hn : (bs.length + n.toNat) * 3 < 2 ^ 32) (hlack : p.Lacks n) :
    ¬ growSize p.mDataSize n ≤ p.mDataSize := by
  have hfits := h.fits
  have hsize := h.size
  rw [Lacks, h.pos_toNat] at hlack
  rw [UInt32.le_iff_toNat_le, h.growSize_toNat hn]
  omega

/-- `r` holds `bs` and has room for `n` bytes behind it. -/
structure Opened (r : Parcel) (bs : List UInt8) (n : Nat) : Prop extends Contains r bs where
  room : bs.length + n ≤ r.mDataCapacity.toNat

theorem Contains.opened {r : Parcel} {n : UInt32} (h : Contains p bs)
    (hprepared : Prepared p r n) : Opened r bs n.toNat where
  toSound := hprepared.toSound
  size := by rw [hprepared.size, h.size]
  pos := by
    rw [hprepared.pos, hprepared.size, ← UInt32.toNat_inj, h.start_toNat, h.size]
  load := by
    rw [hprepared.load 0 bs.length (by simp [h.size]), h.load]
  owner := by simp [hprepared.owner, h.owner]
  room := by
    have hroom := hprepared.room
    rwa [h.start_toNat] at hroom

/-- Writing at the end appends. -/
theorem Opened.put {r : Parcel} {e : List UInt8} (h : Opened r bs e.length)
    (hput : Put r q e) : Contains q (bs ++ e) := by
  have hroom := h.room
  have hsize := h.size
  have hpos := h.pos_toNat
  have hqpos := hput.pos
  have hqsize := hput.size
  have hcap := r.mDataCapacity.toNat_lt
  have hlength : q.mDataSize.toNat = (bs ++ e).length := by
    rw [List.length_append, hqsize, hsize, hqpos, hpos]
    omega
  refine {
    toSound := hput.sound h.toSound (by rw [hpos]; omega), size := hlength, pos := ?_,
    load := ?_, owner := ?_ }
  · rw [← UInt32.toNat_inj, hlength, hqpos, hpos, List.length_append]
  · have hold : q.bytes.load 0 bs.length = bs := by
      rw [hput.frame 0 bs.length (by simp; omega) (.inl (by simp [hpos])), h.load]
    have hoff : (0 : UInt32) + UInt32.ofNat bs.length = r.mDataPos := by
      rw [UInt32.zero_add, ← hpos, UInt32.ofNat_toNat]
    rw [List.length_append, Mem.load_add, hold, hoff, hput.load]
  · rw [hput.same]
    exact h.owner

/-- The buffer of `p` holds `bs`, it is written at the end, and allocations succeed. -/
structure Holds (p : Parcel) (bs : List UInt8) : Prop extends Sound p where
  size : p.mDataSize.toNat = bs.length
  pos : p.mDataPos = p.mDataSize
  load : p.bytes.load 0 bs.length = bs
  owner : p.mOwner = false
  error : p.mError = noError
  answers : ∀ k, (p.proc.answers.data k).isSome

theorem Holds.contains (h : Holds p bs) : Contains p bs :=
  ⟨h.toSound, h.size, h.pos, h.load, h.owner⟩

theorem holds_initState (p : Parcel) (h : ∀ k, (p.proc.answers.data k).isSome) :
    Holds p.initState [] where
  fits := Nat.le_refl _
  extent := rfl
  null _ := ⟨rfl, rfl⟩
  size := rfl
  pos := rfl
  load := rfl
  owner := rfl
  error := rfl
  answers := h

theorem Holds.not_refused (h : Holds p bs) : ¬ p.Refused := by
  rintro (hnone | ⟨howner, -⟩)
  · have hsome := h.answers 0
    rw [hnone] at hsome
    cases hsome
  · rw [h.owner] at howner
    cases howner

/-- Writing at the end appends. -/
theorem Holds.put {r : Parcel} {e : List UInt8} {n : UInt32} (h : Holds p bs)
    (hprepared : Prepared p r n) (hn : e.length = n.toNat) (hput : Put r q e) :
    Holds q (bs ++ e) := by
  have hopened := h.contains.opened hprepared
  rw [← hn] at hopened
  have hcontains := hopened.put hput
  refine {
    toSound := hcontains.toSound, size := hcontains.size, pos := hcontains.pos,
    load := hcontains.load, owner := hcontains.owner, error := ?_, answers := fun k => ?_ }
  · rw [hput.same]
    exact hprepared.mError.trans h.error
  · rw [hput.same]
    dsimp only
    rw [hprepared.answers]
    split
    · exact h.answers (k + 1)
    · exact h.answers k

/-- A write to such a Parcel succeeds. -/
theorem Holds.written (h : Holds p bs) {n : UInt32} {e : List UInt8} {w : Status × Parcel}
    (hn : (bs.length + n.toNat) * 3 < 2 ^ 32) (he : e.length = n.toNat) (hw : Written p n e w) :
    ∃ q, w = (noError, q) ∧ Holds q (bs ++ e) := by
  cases hw with
  | stored hprepared hput => exact ⟨_, rfl, h.put hprepared he hput⟩
  | failed hlack hfailed hrefused => exact absurd hrefused h.not_refused
  | gaveUp hlack hsize => exact absurd hsize (h.contains.not_gaveUp hn hlack)

theorem Holds.filled (h : Holds p bs) {n : UInt32} {e : List UInt8} {w : Status × Parcel}
    (hn : (bs.length + n.toNat) * 3 < 2 ^ 32) (he : e.length = n.toNat) (hw : Filled p n e w) :
    ∃ q, w = (noError, q) ∧ Holds q (bs ++ e) := by
  cases hw with
  | stored hprepared hput => exact ⟨_, rfl, h.put hprepared he hput⟩
  | @nothing r q hprepared hput hnil hmData =>
      have hholds := h.put hprepared he hput
      exact ⟨q, congrArg (·, q) hholds.error, hholds⟩
  | failed hlack hfailed hrefused => exact absurd hrefused h.not_refused
  | gaveUp hlack hsize => exact absurd hsize (h.contains.not_gaveUp hn hlack)

theorem Holds.writeAligned (h : Holds p bs) {val : List UInt8}
    (hn : (bs.length + val.length) * 3 < 2 ^ 32) :
    ∃ q, writeAligned val p = (noError, q) ∧ Holds q (bs ++ val) := by
  have hval : val.length < 2 ^ 32 := by omega
  have hlen : (UInt32.ofNat val.length).toNat = val.length := UInt32.toNat_ofNat_of_lt' hval
  rw [← hlen] at hn
  exact h.written hn hlen.symm (writeAligned_written h.toSound hval (h.contains.fits_of_lt hn))

theorem Holds.write (h : Holds p bs) {b : Buffer}
    (hlen : (bs.length + b.data.length + 3) * 3 < 2 ^ 32) :
    ∃ q, write b p = (noError, q) ∧ Holds q (bs ++ padded b.data) := by
  have hpad : (padSize b.len).toNat = (padded b.data).length := by
    rw [padSize_toNat (by rw [b.len_toNat]; omega), b.len_toNat, padded_length]
  have hn : (bs.length + (padSize b.len).toNat) * 3 < 2 ^ 32 := by
    rw [hpad, padded_length]
    omega
  exact h.filled hn hpad.symm (write_filled h.toSound (by omega) (h.contains.fits_of_lt hn))

theorem Holds.writeUnits (h : Holds p bs) {units : List UInt16} {len : UInt32}
    (hunits : len.toNat = units.length) (hlen : (bs.length + 2 * units.length + 5) * 3 < 2 ^ 32) :
    ∃ q, writeUnits units len p = (noError, q) ∧
      Holds q (bs ++ padded (unitBytes units ++ [0, 0])) := by
  have hsum := units_size hunits (by omega)
  have hlength : (unitBytes units ++ [0, 0]).length = 2 * units.length + 2 := by
    rw [List.length_append, unitBytes_length]
    rfl
  have hpad : (padSize (len * 2 + 2)).toNat = (padded (unitBytes units ++ [0, 0])).length := by
    rw [padSize_toNat (by omega), hsum, padded_length, hlength]
  have hn : (bs.length + (padSize (len * 2 + 2)).toNat) * 3 < 2 ^ 32 := by
    rw [hpad, padded_length, hlength]
    omega
  exact h.filled hn hpad.symm
    (writeUnits_filled h.toSound hunits (by omega) (h.contains.fits_of_lt hn))

/-- A call that follows another one. -/
theorem Holds.andThen {f g : Parcel → Status × Parcel} {as cs : List UInt8}
    (hf : ∃ q, f p = (noError, q) ∧ Holds q as)
    (hg : ∀ q, Holds q as → ∃ r, g q = (noError, r) ∧ Holds r cs) :
    ∃ r, andThen f g p = (noError, r) ∧ Holds r cs := by
  obtain ⟨q, hq, hholds⟩ := hf
  obtain ⟨r, hr, hresult⟩ := hg q hholds
  refine ⟨r, ?_, hresult⟩
  rw [Parcel.andThen, hq, if_pos rfl, hr]

theorem Holds.writeInt32 (h : Holds p bs) (val : Int32) (hlen : (bs.length + 4) * 3 < 2 ^ 32) :
    ∃ q, writeInt32 val p = (noError, q) ∧ Holds q (bs ++ leBytes 4 val.toUInt32.toNat) :=
  h.writeAligned (by rw [leBytes_length]; exact hlen)

/-- A length prefix. -/
theorem Holds.writeLen (h : Holds p bs) {n : Nat} (hn : n < 2 ^ 32)
    (hlen : (bs.length + 4) * 3 < 2 ^ 32) :
    ∃ q, Parcel.writeInt32 (UInt32.ofNat n).toInt32 p = (noError, q) ∧
      Holds q (bs ++ leBytes 4 n) := by
  obtain ⟨q, hq, hholds⟩ := h.writeInt32 (UInt32.ofNat n).toInt32 hlen
  refine ⟨q, hq, ?_⟩
  rwa [UInt32.toUInt32_toInt32, UInt32.toNat_ofNat_of_lt' hn] at hholds

theorem Buffer.of_data {bytes : List UInt8} {n : UInt32} (h : n.toNat = bytes.length) :
    (Buffer.of bytes n).data = bytes :=
  List.take_of_length_le h.ge

/-- Bytes with a terminator. -/
theorem Holds.writeTerminated (h : Holds p bs) {str : List UInt8} {n : UInt32}
    (hn : n.toNat = str.length) (hlen : bs.length + (padded (str ++ [0])).length < 2 ^ 30) :
    ∃ q, Parcel.write (.of (str ++ [0]) (n + 1)) p = (noError, q) ∧
      Holds q (bs ++ padded (str ++ [0])) := by
  have hpadded := length_le_padded (str ++ [0])
  have hlast : (str ++ [0]).length = str.length + 1 := by
    rw [List.length_append, List.length_singleton]
  have hcount : (n + 1).toNat = (str ++ [0]).length := by
    rw [hlast, UInt32.toNat_add, hn]
    exact Nat.mod_eq_of_lt (by simp; omega)
  have hdata := Buffer.of_data hcount
  have hwrite := h.write (b := .of (str ++ [0]) (n + 1)) (by rw [hdata]; omega)
  rwa [hdata] at hwrite

theorem Holds.writeString8 (h : Holds p bs) (str : Buffer)
    (hlen : bs.length + (Value.string8 str).encode.length < 2 ^ 30) :
    ∃ q, writeString8 str p = (noError, q) ∧ Holds q (bs ++ (Value.string8 str).encode) := by
  rw [Value.encode, List.length_append, leBytes_length] at hlen
  rw [Value.encode, ← List.append_assoc]
  unfold Parcel.writeString8
  refine Holds.andThen (h.writeLen str.fits (by omega)) fun q hq => ?_
  by_cases hempty : str.data = []
  · have hzero : ¬ 0 < str.len := by
      rw [UInt32.lt_iff_toNat_lt, Buffer.len_toNat, hempty]
      exact Nat.lt_irrefl 0
    rw [if_neg hzero, if_pos hempty, List.append_nil]
    exact ⟨q, rfl, hq⟩
  · have hpos : 0 < str.len := by
      rw [UInt32.lt_iff_toNat_lt, Buffer.len_toNat]
      exact List.length_pos_of_ne_nil hempty
    rw [if_neg hempty] at hlen
    rw [if_pos hpos, if_neg hempty]
    refine hq.writeTerminated str.len_toNat ?_
    rw [List.length_append, leBytes_length]
    omega

theorem Holds.writeString16 (h : Holds p bs) (str : Units)
    (hlen : bs.length + (Value.string16 str).encode.length < 2 ^ 30) :
    ∃ q, writeString16Of str p = (noError, q) ∧ Holds q (bs ++ (Value.string16 str).encode) := by
  have hpadded := length_le_padded (unitBytes str.units ++ [0, 0])
  have hbytes := unitBytes_length str.units
  have htwo : ([0, 0] : List UInt8).length = 2 := rfl
  rw [List.length_append, hbytes, htwo] at hpadded
  rw [Value.encode, List.length_append, leBytes_length] at hlen
  rw [Value.encode, ← List.append_assoc]
  have hfits : str.units.length < 2 ^ 32 := by omega
  unfold writeString16Of Parcel.writeString16
  rw [Option.elim_some]
  refine Holds.andThen (h.writeLen hfits (by omega)) fun q hq => ?_
  refine hq.writeUnits (UInt32.toNat_ofNat_of_lt' hfits) ?_
  rw [List.length_append, leBytes_length]
  omega

end Parcel

open Parcel

/-- A write appends the encoding of its value. -/
theorem Value.write_appends (v : Value) {p : Parcel} {bs : List UInt8} (h : Holds p bs)
    (hlen : bs.length + v.encode.length < 2 ^ 30) :
    ∃ q, v.write p = (noError, q) ∧ Holds q (bs ++ v.encode) := by
  cases v with
  | int32 val =>
      rw [encode, leBytes_length] at hlen
      exact h.writeAligned (by rw [leBytes_length]; omega)
  | int64 val =>
      rw [encode, leBytes_length] at hlen
      exact h.writeAligned (by rw [leBytes_length]; omega)
  | pointer val =>
      rw [encode, leBytes_length] at hlen
      exact h.writeAligned (by rw [leBytes_length]; omega)
  | cString str =>
      have hpadded := length_le_padded (str.bytes ++ [0])
      rw [List.length_append, List.length_singleton] at hpadded
      rw [encode] at hlen
      have hstr : str.strlen < 2 ^ 32 := by
        have hlength : str.strlen = str.bytes.length := rfl
        omega
      exact h.writeTerminated (UInt32.toNat_ofNat_of_lt' hstr) hlen
  | string8 str => exact h.writeString8 str hlen
  | string16 str => exact h.writeString16 str hlen
  | data b =>
      have hpadded := length_le_padded b.data
      rw [encode] at hlen
      exact h.write (by omega)

/-- So do any number of writes. -/
theorem writeAll_appends (vs : List Value) {p : Parcel} {bs : List UInt8} (h : Holds p bs)
    (hlen : bs.length + (vs.flatMap Value.encode).length < 2 ^ 30) :
    (∀ st ∈ (writeAll vs p).1, st = noError) ∧
      Holds (writeAll vs p).2 (bs ++ vs.flatMap Value.encode) := by
  induction vs generalizing p bs with
  | nil =>
      rw [List.flatMap_nil, List.append_nil]
      exact ⟨fun st hst => absurd hst List.not_mem_nil, h⟩
  | cons v vs ih =>
      rw [List.flatMap_cons, List.length_append] at hlen
      obtain ⟨q, hq, hholds⟩ := v.write_appends h (by omega)
      obtain ⟨hstatus, hrest⟩ := ih hholds (by rw [List.length_append]; omega)
      simp only [writeAll, hq]
      refine ⟨List.forall_mem_cons.mpr ⟨rfl, hstatus⟩, ?_⟩
      rwa [List.flatMap_cons, ← List.append_assoc]

/-! ## Reading -/

namespace Parcel

variable {rest : List UInt8}

/-- The bytes from the position to the end of the data are `rest`. -/
structure Unread (p : Parcel) (rest : List UInt8) : Prop where
  avail : p.mDataPos.toNat + rest.length = p.mDataSize.toNat
  load : p.bytes.load p.mDataPos rest.length = rest
  small : p.mDataSize.toNat < 2 ^ 30
  mData : rest ≠ [] → p.mData = true

/-- The first of the unread bytes. -/
theorem Unread.load_front (h : Unread p (bs ++ rest)) :
    p.bytes.load p.mDataPos bs.length = bs := by
  have hload := h.load
  rw [List.length_append, Mem.load_add] at hload
  exact (List.append_inj hload (Mem.load_length _ _ _)).1

/-- Moving past bytes. -/
theorem Unread.advance (h : Unread p (bs ++ rest)) (limit off : UInt32) (n : Nat) {pos : UInt32}
    (hpos : pos.toNat = p.mDataPos.toNat + bs.length) :
    Unread { p.touch limit off n with mDataPos := pos } rest := by
  have hload := h.load
  have havail := h.avail
  have hsmall := h.small
  rw [List.length_append] at havail
  rw [List.length_append, Mem.load_add] at hload
  have hback := (List.append_inj hload (Mem.load_length _ _ _)).2
  have hat : p.mDataPos + UInt32.ofNat bs.length = pos := by
    rw [← UInt32.toNat_inj, Mem.toNat_add_ofNat (by omega), hpos]
  rw [framed_touch p limit off n]
  refine ⟨?_, ?_, hsmall, fun hne => h.mData fun hnil => hne (List.append_eq_nil_iff.mp hnil).2⟩
  · dsimp only
    omega
  · dsimp only
    rw [← hat]
    exact hback

theorem Unread.readAligned (h : Unread p (bs ++ rest)) {n : UInt32} (hn : n.toNat = bs.length) :
    ∃ q, p.readAligned n = (some bs, q) ∧ Unread q rest := by
  have havail := h.avail
  have hsmall := h.small
  rw [List.length_append] at havail
  have hsum : (p.mDataPos + n).toNat = p.mDataPos.toNat + bs.length := by
    rw [UInt32.toNat_add, hn]
    exact Nat.mod_eq_of_lt (by omega)
  have htest : p.mDataPos + n ≤ p.mDataSize := by
    rw [UInt32.le_iff_toNat_le, hsum]
    omega
  refine ⟨_, ?_, h.advance p.mDataSize p.mDataPos n.toNat hsum⟩
  unfold Parcel.readAligned
  rw [if_pos htest, hn, h.load_front]

/-- The padded bytes of a value are there in one piece. -/
theorem Unread.canRead (h : Unread p (padded bs ++ rest)) {len : UInt32}
    (hlen : len.toNat = bs.length) :
    p.canRead len = true ∧ (p.mDataPos + padSize len).toNat =
      p.mDataPos.toNat + (padded bs).length := by
  have havail := h.avail
  have hsmall := h.small
  have hpadded := padded_length bs
  rw [List.length_append] at havail
  have hpad : (padSize len).toNat = (padded bs).length := by
    rw [padSize_toNat (by omega), hlen, hpadded]
  have hsum : (p.mDataPos + padSize len).toNat = p.mDataPos.toNat + (padded bs).length := by
    rw [UInt32.toNat_add, hpad]
    exact Nat.mod_eq_of_lt (by omega)
  refine ⟨?_, hsum⟩
  unfold Parcel.canRead
  simp only [UInt32.le_iff_toNat_le, hsum, hpad, decide_eq_true_eq]
  omega

theorem Unread.load_padded (h : Unread p (padded bs ++ rest)) :
    p.bytes.load p.mDataPos bs.length = bs := by
  have hfront : Unread p
      (bs ++ (List.replicate ((bs.length + 3) / 4 * 4 - bs.length) 0 ++ rest)) := by
    rw [← List.append_assoc]
    exact h
  exact hfront.load_front

theorem Unread.read (h : Unread p (padded bs ++ rest)) {len : UInt32}
    (hlen : len.toNat = bs.length) : ∃ q, p.read len = (some bs, q) ∧ Unread q rest := by
  obtain ⟨hcan, hsum⟩ := h.canRead hlen
  refine ⟨_, ?_, h.advance p.mDataSize p.mDataPos len.toNat hsum⟩
  unfold Parcel.read
  rw [if_pos hcan, hlen, h.load_padded]

theorem Unread.readInplace (h : Unread p (padded bs ++ rest)) {len : UInt32}
    (hlen : len.toNat = bs.length) (hne : bs ≠ []) :
    ∃ q, p.readInplace len = (some bs, q) ∧ Unread q rest := by
  obtain ⟨hcan, hsum⟩ := h.canRead hlen
  have hdata : p.mData = true := by
    refine h.mData fun hnil => hne ?_
    rw [padded, List.append_assoc] at hnil
    exact (List.append_eq_nil_iff.mp hnil).1
  refine ⟨_, ?_, h.advance p.mDataSize p.mDataPos len.toNat hsum⟩
  unfold Parcel.readInplace
  rw [if_pos hcan, if_pos hdata, hlen, h.load_padded]

/-- A number comes back from its four bytes. -/
theorem Unread.readInt32 {x : UInt32} (h : Unread p (leBytes 4 x.toNat ++ rest)) :
    ∃ q, p.readInt32 = (x.toInt32, q) ∧ Unread q rest := by
  obtain ⟨q, hq, hrest⟩ := h.readAligned (n := 4) (leBytes_length 4 _).symm
  refine ⟨q, ?_, hrest⟩
  unfold Parcel.readInt32 readInt32Status
  rw [hq]
  simp only [Option.map_some, Option.getD_some, ofNat_leNat_word]

theorem Unread.readInt64 {x : UInt64} (h : Unread p (leBytes 8 x.toNat ++ rest)) :
    ∃ q, p.readInt64 = (x.toInt64, q) ∧ Unread q rest := by
  obtain ⟨q, hq, hrest⟩ := h.readAligned (n := 8) (leBytes_length 8 _).symm
  refine ⟨q, ?_, hrest⟩
  unfold Parcel.readInt64 readInt64Status
  rw [hq]
  simp only [Option.map_some, Option.getD_some, ofNat_leNat_double]

theorem Unread.readPointer {x : UInt32} (h : Unread p (leBytes 4 x.toNat ++ rest)) :
    ∃ q, p.readPointer = (x, q) ∧ Unread q rest := by
  obtain ⟨q, hq, hrest⟩ := h.readAligned (n := 4) (leBytes_length 4 _).symm
  refine ⟨q, ?_, hrest⟩
  unfold Parcel.readPointer readPointerStatus
  rw [hq]
  simp only [Option.map_some, Option.getD_some, ofNat_leNat_word]

theorem toInt_word {n : Nat} (hn : n < 2 ^ 31) : (UInt32.ofNat n).toInt32.toInt = n := by
  rw [UInt32.toInt32_ofNat']
  exact Int32.toInt_ofNat_of_lt hn

/-- A length prefix. -/
theorem Unread.readLen {n : Nat} (hn : n < 2 ^ 32) (h : Unread p (leBytes 4 n ++ rest)) :
    ∃ q, p.readInt32 = ((UInt32.ofNat n).toInt32, q) ∧ Unread q rest := by
  have hword : (UInt32.ofNat n).toNat = n := UInt32.toNat_ofNat_of_lt' hn
  rw [← hword] at h
  exact h.readInt32

theorem Unread.readString8 {str : Buffer} (h : Unread p ((Value.string8 str).encode ++ rest)) :
    ∃ q, p.readString8 = (str.data, q) ∧ Unread q rest := by
  have havail := h.avail
  have hsmall := h.small
  rw [Value.encode, List.append_assoc] at h havail
  rw [List.length_append, leBytes_length, List.length_append] at havail
  obtain ⟨q, hq, hrest⟩ := h.readLen str.fits
  unfold Parcel.readString8
  rw [hq]
  dsimp only
  by_cases hempty : str.data = []
  · rw [if_pos hempty, List.nil_append] at hrest
    rw [if_neg (by rw [hempty]; decide), hempty]
    exact ⟨q, rfl, hrest⟩
  · rw [if_neg hempty] at hrest havail
    have hpadded := length_le_padded (str.data ++ [0])
    rw [List.length_append, List.length_singleton] at hpadded
    have hword : (UInt32.ofNat str.data.length).toNat = str.data.length :=
      UInt32.toNat_ofNat_of_lt' str.fits
    have hint : (UInt32.ofNat str.data.length).toInt32.toInt = str.data.length :=
      toInt_word (by omega)
    have hpos := List.length_pos_of_ne_nil hempty
    -- the length is read back as a positive number below the maximum
    have htest : 0 < (UInt32.ofNat str.data.length).toInt32 ∧
        (UInt32.ofNat str.data.length).toInt32 < Int32.maxValue := by
      rw [Int32.lt_iff_toInt_lt, Int32.lt_iff_toInt_lt, hint, Int32.toInt_maxValue]
      exact ⟨by simpa using hpos, by omega⟩
    -- the NUL is read with the bytes, and cut off afterwards
    have hcount : ((UInt32.ofNat str.data.length).toInt32.toUInt32 + 1).toNat =
        (str.data ++ [0]).length := by
      rw [UInt32.toUInt32_toInt32, List.length_append, List.length_singleton, UInt32.toNat_add,
        hword]
      exact Nat.mod_eq_of_lt (by simp; omega)
    obtain ⟨r, hr, hlast⟩ := hrest.readInplace hcount (by simp)
    rw [if_pos htest, hr]
    refine ⟨r, ?_, hlast⟩
    dsimp only
    rw [Option.getD_some, UInt32.toUInt32_toInt32, hword, List.take_left]

theorem unitsOf_unitBytes (units : List UInt16) (tail : List UInt8) :
    (unitsOf (unitBytes units ++ tail)).take units.length = units := by
  induction units with
  | nil => rfl
  | cons u units ih =>
      have hunit : UInt16.ofNat (leNat (leBytes 2 u.toNat)) = u := by
        rw [leNat_leBytes u.toNat_lt]
        exact UInt16.ofNat_toNat
      have hcons : unitBytes (u :: units) ++ tail =
          leBytes 2 u.toNat ++ (unitBytes units ++ tail) := by
        rw [← List.append_assoc]
        rfl
      rw [hcons]
      have hstep : unitsOf (leBytes 2 u.toNat ++ (unitBytes units ++ tail)) =
          UInt16.ofNat (leNat (leBytes 2 u.toNat)) :: unitsOf (unitBytes units ++ tail) := rfl
      rw [hstep, hunit, List.length_cons, List.take_succ_cons, ih]

theorem Unread.readString16 {str : Units} (h : Unread p ((Value.string16 str).encode ++ rest)) :
    ∃ q, p.readString16 = (str.units, q) ∧ Unread q rest := by
  have havail := h.avail
  have hsmall := h.small
  have hfits := str.fits
  have hbytes := unitBytes_length str.units
  have htwo : ([0, 0] : List UInt8).length = 2 := rfl
  have hpadded := length_le_padded (unitBytes str.units ++ [0, 0])
  rw [List.length_append, hbytes, htwo] at hpadded
  rw [Value.encode, List.append_assoc] at h havail
  rw [List.length_append, leBytes_length, List.length_append] at havail
  obtain ⟨q, hq, hrest⟩ := h.readLen (by omega)
  have hword : (UInt32.ofNat str.units.length).toNat = str.units.length :=
    UInt32.toNat_ofNat_of_lt' (show str.units.length < 2 ^ 32 by omega)
  have hint : (UInt32.ofNat str.units.length).toInt32.toInt = str.units.length :=
    toInt_word hfits
  have htest : 0 ≤ (UInt32.ofNat str.units.length).toInt32 ∧
      (UInt32.ofNat str.units.length).toInt32 < Int32.maxValue := by
    rw [Int32.le_iff_toInt_le, Int32.lt_iff_toInt_lt, hint, Int32.toInt_maxValue]
    exact ⟨by simp, by omega⟩
  have hcount : (((UInt32.ofNat str.units.length).toInt32.toUInt32 + 1) * 2).toNat =
      (unitBytes str.units ++ [0, 0]).length := by
    have hsum : (UInt32.ofNat str.units.length + 1).toNat = str.units.length + 1 := by
      rw [UInt32.toNat_add, hword]
      exact Nat.mod_eq_of_lt (by simp; omega)
    rw [UInt32.toUInt32_toInt32, List.length_append, hbytes, htwo, UInt32.toNat_mul, hsum]
    exact (Nat.mod_eq_of_lt (by simp; omega)).trans (by simp; omega)
  obtain ⟨r, hr, hlast⟩ := hrest.readInplace hcount (by simp)
  unfold Parcel.readString16 readString16Inplace
  rw [hq]
  dsimp only
  rw [if_pos htest, hr]
  refine ⟨r, ?_, hlast⟩
  rw [Option.map_some, Option.getD_some, UInt32.toUInt32_toInt32, hword, unitsOf_unitBytes]

theorem Unread.readCString {str : CString} (h : Unread p (padded (str.bytes ++ [0]) ++ rest)) :
    ∃ q, p.readCString = (some str.bytes, q) ∧ Unread q rest := by
  have havail := h.avail
  have hsmall := h.small
  have hlast : (str.bytes ++ [0]).length = str.bytes.length + 1 := by
    rw [List.length_append, List.length_singleton]
  have hpadded := length_le_padded (str.bytes ++ [0])
  rw [List.length_append] at havail
  have hword : (UInt32.ofNat str.bytes.length + 1).toNat = (str.bytes ++ [0]).length := by
    rw [hlast, UInt32.toNat_add, UInt32.toNat_ofNat_of_lt'
      (show str.bytes.length < 2 ^ 32 by omega)]
    exact Nat.mod_eq_of_lt (by simp; omega)
  have hleft : (p.mDataSize - p.mDataPos).toNat = p.mDataSize.toNat - p.mDataPos.toNat :=
    UInt32.toNat_sub_of_le _ _ (by rw [UInt32.le_iff_toNat_le]; omega)
  have hfront := h.load_padded
  rw [hlast] at hfront
  have hnul := Mem.findNul_eq (n := (p.mDataSize - p.mDataPos).toNat) hfront str.noNul (by omega)
  obtain ⟨-, hsum⟩ := h.canRead hword
  have hstr : p.bytes.load p.mDataPos str.bytes.length = str.bytes := by
    rw [Mem.load_add] at hfront
    exact (List.append_inj hfront (Mem.load_length _ _ _)).1
  have htest : 0 < p.mDataSize - p.mDataPos := by
    rw [UInt32.lt_iff_toNat_lt]
    exact lt_of_lt_of_le (show 0 < str.bytes.length + 1 by omega) (by omega)
  refine ⟨_, ?_, h.advance p.mDataSize p.mDataPos (str.bytes.length + 1) hsum⟩
  unfold Parcel.readCString
  dsimp only
  rw [if_pos htest, hnul]
  dsimp only
  rw [hstr]

end Parcel
/-- A read consumes the encoding of its value. -/
theorem Value.read_consumes (v : Value) {p : Parcel} {rest : List UInt8}
    (h : Unread p (v.encode ++ rest)) :
    ∃ q, v.readOp.run p = (v.result, q) ∧ Unread q rest := by
  cases v with
  | int32 val =>
      obtain ⟨q, hq, hrest⟩ := h.readInt32
      refine ⟨q, ?_, hrest⟩
      simp only [readOp, ReadOp.run, hq, result, Int32.toInt32_toUInt32]
  | int64 val =>
      obtain ⟨q, hq, hrest⟩ := h.readInt64
      refine ⟨q, ?_, hrest⟩
      simp only [readOp, ReadOp.run, hq, result, Int64.toInt64_toUInt64]
  | pointer val =>
      obtain ⟨q, hq, hrest⟩ := h.readPointer
      refine ⟨q, ?_, hrest⟩
      simp only [readOp, ReadOp.run, hq, result]
  | cString str =>
      obtain ⟨q, hq, hrest⟩ := h.readCString
      refine ⟨q, ?_, hrest⟩
      simp only [readOp, ReadOp.run, hq, result]
  | string8 str =>
      obtain ⟨q, hq, hrest⟩ := h.readString8
      refine ⟨q, ?_, hrest⟩
      simp only [readOp, ReadOp.run, hq, result]
  | string16 str =>
      obtain ⟨q, hq, hrest⟩ := h.readString16
      refine ⟨q, ?_, hrest⟩
      simp only [readOp, ReadOp.run, hq, result]
  | data b =>
      obtain ⟨q, hq, hrest⟩ := h.read b.len_toNat
      refine ⟨q, ?_, hrest⟩
      simp only [readOp, ReadOp.run, hq, result]

/-- So do any number of reads. -/
theorem readAll_consumes (vs : List Value) {p : Parcel} {rest : List UInt8}
    (h : Unread p (vs.flatMap Value.encode ++ rest)) :
    (readAll (vs.map Value.readOp) p).1 = vs.map Value.result ∧
      Unread (readAll (vs.map Value.readOp) p).2 rest := by
  induction vs generalizing p with
  | nil => exact ⟨rfl, h⟩
  | cons v vs ih =>
      rw [List.flatMap_cons, List.append_assoc] at h
      obtain ⟨q, hq, hrest⟩ := v.read_consumes h
      obtain ⟨hresults, hlast⟩ := ih hrest
      simp only [List.map_cons, readAll, hq]
      exact ⟨congrArg (v.result :: ·) hresults, hlast⟩

/-- What has been written can be read from the start. -/
theorem Parcel.Holds.unread {p : Parcel} {bs : List UInt8} (h : Holds p bs)
    (hlen : bs.length < 2 ^ 30) : Unread (p.setDataPosition 0) bs where
  avail := by
    rw [h.size.symm]
    exact Nat.zero_add _
  load := h.load
  small := h.size ▸ hlen
  mData hne := by
    refine h.mData_of_cap ?_
    have hfits := h.fits
    have hpos := List.length_pos_of_ne_nil hne
    have hsize := h.size
    omega

theorem Parcel.Unread.dataAvail {p : Parcel} (h : Unread p []) : p.dataAvail = 0 := by
  have havail : p.mDataPos = p.mDataSize := UInt32.toNat_inj.mp h.avail
  unfold Parcel.dataAvail dataSize
  rw [havail, if_neg (UInt32.lt_irrefl _), UInt32.sub_self]

/-- Values written to a fresh Parcel come back in order, as long as allocations succeed:
every write succeeds, the data are the padded encodings, and the reads return the values
and end with nothing left. -/
theorem roundTrip (vs : List Value) (p : Parcel) (halloc : ∀ k, (p.proc.answers.data k).isSome)
    (hsize : (vs.map fun v => v.encode.length).sum < 2 ^ 30) :
    (∀ st ∈ (writeAll vs p.initState).1, st = noError) ∧
      (writeAll vs p.initState).2.mDataSize.toNat = (vs.map fun v => v.encode.length).sum ∧
      (writeAll vs p.initState).2.bytes.load 0 (writeAll vs p.initState).2.mDataSize.toNat =
        vs.flatMap Value.encode ∧
      (readAll (vs.map Value.readOp) ((writeAll vs p.initState).2.setDataPosition 0)).1 =
        vs.map Value.result ∧
      (readAll (vs.map Value.readOp)
        ((writeAll vs p.initState).2.setDataPosition 0)).2.dataAvail = 0 := by
  have hlen : (vs.flatMap Value.encode).length = (vs.map fun v => v.encode.length).sum :=
    List.length_flatMap
  rw [← hlen] at hsize ⊢
  obtain ⟨hstatus, hholds⟩ := writeAll_appends vs (holds_initState p halloc) (by simpa using hsize)
  rw [List.nil_append] at hholds
  have hunread := hholds.unread hsize
  rw [← List.append_nil (vs.flatMap Value.encode)] at hunread
  obtain ⟨hresults, hlast⟩ := readAll_consumes vs hunread
  refine ⟨hstatus, hholds.size, ?_, hresults, hlast.dataAvail⟩
  rw [hholds.size]
  exact hholds.load

def sampleValues : List Value :=
  [.int32 (-1), .string8 ⟨[], by decide⟩, .string16 ⟨[], by decide⟩, .string8 ⟨[0x41], by decide⟩,
    .data ⟨[1, 2, 3, 4, 5], by decide⟩]

theorem sampleValues_roundTrip :
    (readAll (sampleValues.map Value.readOp)
      ((writeAll sampleValues (rawParcel roomyProcess).initState).2.setDataPosition 0)).1 =
        sampleValues.map Value.result :=
  (roundTrip sampleValues (rawParcel roomyProcess) (fun _ => rfl) (by decide)).2.2.2.1

end Binder
end AndroidLinux
