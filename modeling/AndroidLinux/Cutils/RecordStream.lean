import Mathlib.Data.UInt
import AndroidLinux.Lib.Framing

/-!
# Records out of a stream

`record_stream.c`: records that are led by their length are read out of a descriptor through one
buffer.  The two pointers into the buffer are offsets; the end of a record is an address, which
wraps at 2^32 when the length that has been read is too large.  A record is handed out by its
bytes, which stand in the buffer until the next call.
-/

namespace AndroidLinux
namespace Cutils

open Lib

def headerSize : Nat := 4

/-- `ntohl` of the bytes that stand in memory. -/
def ntohl (bytes : List UInt8) : Nat := bytes.foldl (fun n b => 256 * n + b.toNat) 0

/-- The bytes between two offsets. -/
def slice (buffer : List UInt8) (first last : Nat) : List UInt8 :=
  (buffer.drop first).take (last - first)

/-- `struct RecordStream`, without the descriptor.  The buffer is at `address`, and behind it
there are as many addresses again. -/
structure RecordStream where
  address : Nat
  maxRecordLen : Nat
  buffer : List UInt8
  unconsumed : Nat
  readEnd : Nat
  room : address + 2 * (maxRecordLen + headerSize) < 2 ^ 32
  length_eq : buffer.length = maxRecordLen + headerSize
  unconsumed_le : unconsumed ≤ readEnd
  readEnd_le : readEnd ≤ buffer.length

/-- What `read` returns when it is asked for `n` bytes; no bytes are the end of the stream. -/
inductive ReadResult (n : Nat)
  | failed
  | bytes (l : List UInt8) (fits : l.length ≤ n)

/-- What `record_stream_get_next` returns; behind a sum that has wrapped it hands out a record
that is not in the buffer, and the reader is not followed any further. -/
inductive GetNext
  | record (bytes : List UInt8)
  | endOfStream
  | again
  | failed
  | tooLong
  | stray
  deriving DecidableEq

/-- `record_stream_new`, with the buffer as `malloc` returns it; a larger maximum fails the
assertion. -/
def recordStreamNew (address maxRecordLen : Nat) (fresh : List UInt8)
    (hroom : address + 2 * (maxRecordLen + headerSize) < 2 ^ 32)
    (hfresh : fresh.length = maxRecordLen + headerSize) : Option RecordStream :=
  if maxRecordLen ≤ 0xffff then
    some ⟨address, maxRecordLen, fresh, 0, 0, hroom, hfresh, le_rfl, Nat.zero_le _⟩
  else none

/-- `getEndOfRecord`, with the address of the end. -/
def getEndOfRecord (address : Nat) (buffer : List UInt8) (first last : Nat) : Option Nat :=
  if address + last < (address + first + headerSize) % 2 ^ 32 then none
  else
    let len := ntohl (slice buffer first (first + headerSize))
    let ret := (address + first + headerSize + len) % 2 ^ 32
    if address + last < ret then none else some ret

theorem getEndOfRecord_le {address : Nat} {buffer : List UInt8} {first last e : Nat}
    (h : getEndOfRecord address buffer first last = some e) : e ≤ address + last := by
  unfold getEndOfRecord at h
  split at h
  · cases h
  · dsimp only at h
    split at h
    · cases h
    · obtain rfl := Option.some.inj h
      omega

/-- What `getNextRecord` returns; it strays when the record ends in front of its beginning. -/
inductive NextRecord
  | null
  | record (bytes : List UInt8) (rs : RecordStream)
  | stray

/-- `getNextRecord`. -/
def getNextRecord (rs : RecordStream) : NextRecord :=
  match h : getEndOfRecord rs.address rs.buffer rs.unconsumed rs.readEnd with
  | none => .null
  | some recordEnd =>
      if rs.address + rs.unconsumed + headerSize ≤ recordEnd then
        .record (slice rs.buffer (rs.unconsumed + headerSize) (recordEnd - rs.address))
          { rs with
            unconsumed := recordEnd - rs.address
            unconsumed_le := Nat.sub_le_of_le_add
              ((getEndOfRecord_le h).trans_eq (Nat.add_comm _ _)) }
      else .stray

/-- The remainder is moved to the beginning of the buffer. -/
def moveRemainder (rs : RecordStream) : RecordStream :=
  { rs with
    buffer := slice rs.buffer rs.unconsumed rs.readEnd ++
      rs.buffer.drop (rs.readEnd - rs.unconsumed)
    unconsumed := 0
    readEnd := rs.readEnd - rs.unconsumed
    length_eq := by
      have h₁ := rs.length_eq
      have h₂ := rs.readEnd_le
      simp only [slice, List.length_append, List.length_take, List.length_drop]
      omega
    unconsumed_le := Nat.zero_le _
    readEnd_le := by
      have h₂ := rs.readEnd_le
      simp only [slice, List.length_append, List.length_take, List.length_drop]
      omega }

/-- The bytes that have been read, behind those that were there. -/
def fill (rs : RecordStream) (l : List UInt8) (fits : l.length ≤ rs.buffer.length - rs.readEnd) :
    RecordStream :=
  { rs with
    buffer := rs.buffer.take rs.readEnd ++ l ++ rs.buffer.drop (rs.readEnd + l.length)
    readEnd := rs.readEnd + l.length
    length_eq := by
      have h₁ := rs.length_eq
      have h₂ := rs.readEnd_le
      simp only [List.length_append, List.length_take, List.length_drop]
      omega
    unconsumed_le := by
      have h₃ := rs.unconsumed_le
      omega
    readEnd_le := by
      have h₂ := rs.readEnd_le
      simp only [List.length_append, List.length_take, List.length_drop]
      omega }

/-- The remainder is at the beginning of the buffer. -/
def makeRoom (rs : RecordStream) : RecordStream :=
  if rs.unconsumed ≠ 0 then moveRemainder rs else rs

/-- The part of `record_stream_get_next` that reads; the descriptor is in the state `fd`. -/
def readNextRecord {σ : Type*} (read : σ → (n : Nat) → ReadResult n × σ) (rs : RecordStream)
    (fd : σ) : GetNext × RecordStream × σ :=
  match read fd (rs.buffer.length - rs.readEnd) with
  | (.failed, fd) => (.failed, rs, fd)
  | (.bytes l fits, fd) =>
      if l = [] then (.endOfStream, rs, fd)
      else
        match getNextRecord (fill rs l fits) with
        | .null => (.again, fill rs l fits, fd)
        | .record bytes rs => (.record bytes, rs, fd)
        | .stray => (.stray, fill rs l fits, fd)

/-- `record_stream_get_next`. -/
def recordStreamGetNext {σ : Type*} (read : σ → (n : Nat) → ReadResult n × σ)
    (rs : RecordStream) (fd : σ) : GetNext × RecordStream × σ :=
  match getNextRecord rs with
  | .record bytes rs => (.record bytes, rs, fd)
  | .stray => (.stray, rs, fd)
  | .null =>
      if rs.unconsumed = 0 ∧ rs.readEnd = rs.buffer.length then (.tooLong, rs, fd)
      else readNextRecord read (makeRoom rs) fd

/-! ## The framing -/

theorem ntohl_append (bytes : List UInt8) (b : UInt8) :
    ntohl (bytes ++ [b]) = 256 * ntohl bytes + b.toNat := by
  unfold ntohl
  rw [List.foldl_append, List.foldl_cons, List.foldl_nil]

theorem ntohl_lt (bytes : List UInt8) : ntohl bytes < 256 ^ bytes.length := by
  induction bytes using List.reverseRecOn with
  | nil => exact Nat.one_pos
  | append_singleton bytes b ih =>
      have hb := b.toNat_lt
      rw [ntohl_append, List.length_append, List.length_singleton, Nat.pow_succ]
      omega

/-- The header that the other end writes in front of a record. -/
def header (len : Nat) : List UInt8 :=
  [UInt8.ofNat (len / 2 ^ 24), UInt8.ofNat (len / 2 ^ 16), UInt8.ofNat (len / 2 ^ 8),
    UInt8.ofNat len]

theorem ntohl_header {len : Nat} (h : len < 2 ^ 32) : ntohl (header len) = len := by
  simp only [ntohl, header, List.foldl_cons, List.foldl_nil, UInt8.toNat_ofNat']
  omega

/-- A record that has a header. -/
abbrev Record : Type := { r : List UInt8 // r.length < 2 ^ 32 }

/-- The first record of some bytes, and what is behind it. -/
def recordHead (bytes : List UInt8) : Option (Record × List UInt8) :=
  if bytes.length < headerSize then none
  else if bytes.length < headerSize + ntohl (bytes.take headerSize) then none
  else some (⟨(bytes.drop headerSize).take (ntohl (bytes.take headerSize)), by
      have hlt := ntohl_lt (bytes.take headerSize)
      have hle : (bytes.take headerSize).length ≤ 4 := List.length_take_le _ _
      have hpow := Nat.pow_le_pow_right (n := 256) (by decide) hle
      rw [List.length_take]
      omega⟩, bytes.drop (headerSize + ntohl (bytes.take headerSize)))

theorem recordHead_none {bytes : List UInt8} (h : bytes.length < headerSize ∨
    bytes.length < headerSize + ntohl (bytes.take headerSize)) : recordHead bytes = none := by
  unfold recordHead
  split
  · rfl
  next hlong => exact if_pos (h.resolve_left hlong)

theorem recordHead_some {bytes : List UInt8} {len : Nat}
    (hlen : ntohl (bytes.take headerSize) = len) (h : headerSize + len ≤ bytes.length) :
    ∃ r : Record, r.1 = (bytes.drop headerSize).take len ∧
      recordHead bytes = some (r, bytes.drop (headerSize + len)) := by
  subst hlen
  unfold recordHead
  rw [if_neg (by omega), if_neg (by omega)]
  exact ⟨_, rfl, rfl⟩

theorem header_length (len : Nat) : (header len).length = headerSize := rfl

theorem header_take (len : Nat) (tail : List UInt8) :
    (header len ++ tail).take headerSize = header len := by
  rw [← header_length len, List.take_left]

theorem header_drop (len : Nat) (tail : List UInt8) :
    (header len ++ tail).drop headerSize = tail := by
  rw [← header_length len, List.drop_left]

/-- Records behind their lengths can be told apart. -/
def recordFraming : Framing UInt8 Record where
  encode r := header r.1.length ++ r.1
  head := recordHead
  head_nil := rfl
  head_append r s := by
    have hlen : ntohl ((header r.1.length ++ r.1 ++ s).take headerSize) = r.1.length := by
      rw [List.append_assoc, header_take, ntohl_header r.2]
    obtain ⟨r', hr', hhead⟩ := recordHead_some hlen (by
      rw [List.length_append, List.length_append, header_length]
      exact Nat.le_add_right _ _)
    rw [← List.drop_drop, List.append_assoc, header_drop, List.drop_left] at hhead
    rw [List.append_assoc, header_drop, List.take_left] at hr'
    rw [List.append_assoc, hhead, Subtype.ext hr']
  head_partial r p q h hq := by
    have hlength := congrArg List.length h
    have hpos := List.length_pos_of_ne_nil hq
    rw [List.length_append, List.length_append, header_length] at hlength
    by_cases hshort : p.length < headerSize
    · exact recordHead_none (.inl hshort)
    · have hhead : p.take headerSize = header r.1.length := by
        have htake := congrArg (List.take headerSize) h
        rw [header_take, List.take_append_of_le_length (Nat.not_lt.mp hshort)] at htake
        exact htake.symm
      refine recordHead_none (.inr ?_)
      rw [hhead, ntohl_header r.2]
      omega

/-! ## The bytes that have been read and not been handed out -/

/-- What is in the buffer for the next records. -/
def RecordStream.window (rs : RecordStream) : List UInt8 :=
  slice rs.buffer rs.unconsumed rs.readEnd

theorem RecordStream.window_length (rs : RecordStream) :
    rs.window.length = rs.readEnd - rs.unconsumed := by
  have hle := rs.readEnd_le
  unfold window slice
  rw [List.length_take, List.length_drop]
  omega

theorem slice_take (buffer : List UInt8) (first : Nat) {mid last : Nat} (h : mid ≤ last) :
    (slice buffer first last).take (mid - first) = slice buffer first mid := by
  unfold slice
  rw [List.take_take, Nat.min_eq_left (by omega)]

theorem slice_drop (buffer : List UInt8) {first mid : Nat} (last : Nat) (h : first ≤ mid) :
    (slice buffer first last).drop (mid - first) = slice buffer mid last := by
  unfold slice
  rw [List.drop_take, List.drop_drop, show first + (mid - first) = mid by omega,
    show last - first - (mid - first) = last - mid by omega]

/-- The end of a record whose header is there, as an offset. -/
theorem getEndOfRecord_eq (rs : RecordStream) :
    (rs.readEnd < rs.unconsumed + headerSize ∧
        getEndOfRecord rs.address rs.buffer rs.unconsumed rs.readEnd = none) ∨
      ∃ len, rs.unconsumed + headerSize ≤ rs.readEnd ∧
        ntohl (slice rs.buffer rs.unconsumed (rs.unconsumed + headerSize)) = len ∧
        ((2 ^ 32 ≤ rs.address + rs.unconsumed + headerSize + len ∧
            ∃ e, getEndOfRecord rs.address rs.buffer rs.unconsumed rs.readEnd = some e ∧
              e < rs.address + rs.unconsumed + headerSize) ∨
          getEndOfRecord rs.address rs.buffer rs.unconsumed rs.readEnd =
            if rs.readEnd < rs.unconsumed + headerSize + len then none
            else some (rs.address + (rs.unconsumed + headerSize + len))) := by
  have hroom := rs.room
  have hlength := rs.length_eq
  have hle := rs.unconsumed_le
  have hend := rs.readEnd_le
  have hwrap : (rs.address + rs.unconsumed + headerSize) % 2 ^ 32 =
      rs.address + rs.unconsumed + headerSize := Nat.mod_eq_of_lt (by omega)
  by_cases hshort : rs.readEnd < rs.unconsumed + headerSize
  · exact .inl ⟨hshort, if_pos (by omega)⟩
  refine .inr ⟨_, Nat.not_lt.mp hshort, rfl, ?_⟩
  have hlt : ntohl (slice rs.buffer rs.unconsumed (rs.unconsumed + headerSize)) < 2 ^ 32 := by
    have hfour := List.length_take_le headerSize (rs.buffer.drop rs.unconsumed)
    rw [slice, Nat.add_sub_cancel_left]
    exact (ntohl_lt _).trans_le (Nat.pow_le_pow_right (n := 256) (by decide) hfour)
  generalize hlen : ntohl (slice rs.buffer rs.unconsumed (rs.unconsumed + headerSize)) = len at hlt
  unfold getEndOfRecord
  rw [if_neg (by omega)]
  dsimp only
  rw [hlen]
  by_cases hbig : 2 ^ 32 ≤ rs.address + rs.unconsumed + headerSize + len
  · have hret : (rs.address + rs.unconsumed + headerSize + len) % 2 ^ 32 =
        rs.address + rs.unconsumed + headerSize + len - 2 ^ 32 := by omega
    rw [hret, if_neg (by omega)]
    exact .inl ⟨hbig, _, rfl, by omega⟩
  · rw [Nat.mod_eq_of_lt (Nat.not_le.mp hbig)]
    refine .inr ?_
    by_cases hpart : rs.readEnd < rs.unconsumed + headerSize + len
    · rw [if_pos hpart, if_pos (by omega)]
    · rw [if_neg hpart, if_neg (by omega)]
      exact congrArg some (by omega)

theorem getNextRecord_none {rs : RecordStream}
    (h : getEndOfRecord rs.address rs.buffer rs.unconsumed rs.readEnd = none) :
    getNextRecord rs = .null := by
  unfold getNextRecord
  split
  next => rfl
  next e he => cases h.symm.trans he

theorem getNextRecord_stray {rs : RecordStream} {e : Nat}
    (h : getEndOfRecord rs.address rs.buffer rs.unconsumed rs.readEnd = some e)
    (hlt : e < rs.address + rs.unconsumed + headerSize) : getNextRecord rs = .stray := by
  unfold getNextRecord
  split
  next he => cases h.symm.trans he
  next e' he =>
    obtain rfl := Option.some.inj (h.symm.trans he)
    exact if_neg (Nat.not_le.mpr hlt)

theorem getNextRecord_some {rs : RecordStream} {e : Nat}
    (h : getEndOfRecord rs.address rs.buffer rs.unconsumed rs.readEnd = some (rs.address + e))
    (hle : rs.unconsumed + headerSize ≤ e) :
    ∃ rs', getNextRecord rs = .record (slice rs.buffer (rs.unconsumed + headerSize) e) rs' ∧
      rs'.window = slice rs.buffer e rs.readEnd ∧ rs'.maxRecordLen = rs.maxRecordLen ∧
        rs'.address = rs.address := by
  unfold getNextRecord
  split
  next he => cases h.symm.trans he
  next e' he =>
    obtain rfl := Option.some.inj (h.symm.trans he)
    rw [if_pos (by omega)]
    simp only [Nat.add_sub_cancel_left]
    exact ⟨_, rfl, rfl, rfl, rfl⟩

/-- `getNextRecord` hands out the record at the head of the window, unless the sum of a pointer
and its length wraps. -/
theorem getNextRecord_eq (rs : RecordStream) :
    (recordHead rs.window = none ∧ getNextRecord rs = .null) ∨
      (∃ r rest rs', recordHead rs.window = some (r, rest) ∧
        getNextRecord rs = .record r.1 rs' ∧ rs'.window = rest ∧
        rs'.maxRecordLen = rs.maxRecordLen ∧ rs'.address = rs.address) ∨
      (headerSize ≤ rs.window.length ∧ 2 ^ 32 ≤ rs.address + rs.maxRecordLen + headerSize +
          ntohl (rs.window.take headerSize) ∧ getNextRecord rs = .stray) := by
  have hlength := rs.window_length
  have hle := rs.unconsumed_le
  have hbuffer := rs.length_eq
  have hread := rs.readEnd_le
  rcases getEndOfRecord_eq rs with ⟨hshort, hnone⟩ | ⟨len, hlong, hlen, hend⟩
  · exact .inl ⟨recordHead_none (.inl (by omega)), getNextRecord_none hnone⟩
  have hhead : ntohl (rs.window.take headerSize) = len := by
    have htake := slice_take rs.buffer rs.unconsumed hlong
    rw [Nat.add_sub_cancel_left] at htake
    exact htake.symm ▸ hlen
  rcases hend with ⟨hbig, e, hsome, hlt⟩ | hend
  · exact .inr (.inr ⟨by omega, by omega, getNextRecord_stray hsome hlt⟩)
  by_cases hpart : rs.readEnd < rs.unconsumed + headerSize + len
  · rw [if_pos hpart] at hend
    exact .inl ⟨recordHead_none (.inr (by omega)), getNextRecord_none hend⟩
  · rw [if_neg hpart] at hend
    obtain ⟨r, hr, hsome⟩ := recordHead_some hhead (by omega)
    obtain ⟨rs', hget, hwindow, hmax, haddress⟩ :=
      getNextRecord_some hend (Nat.le_add_right _ _)
    have hbody := slice_drop rs.buffer rs.readEnd
      (Nat.le_add_right rs.unconsumed headerSize)
    have htake := slice_take rs.buffer (rs.unconsumed + headerSize) (Nat.not_lt.mp hpart)
    have hrest := slice_drop rs.buffer rs.readEnd
      (show rs.unconsumed ≤ rs.unconsumed + headerSize + len by omega)
    rw [Nat.add_sub_cancel_left] at hbody htake
    rw [Nat.add_assoc, Nat.add_sub_cancel_left, ← Nat.add_assoc] at hrest
    refine .inr (.inl ⟨r, _, rs', hsome, ?_, hwindow.trans hrest.symm, hmax, haddress⟩)
    rw [hget, hr, RecordStream.window, hbody, htake]

@[simp] theorem moveRemainder_window (rs : RecordStream) :
    (moveRemainder rs).window = rs.window := by
  have hlength := rs.window_length
  unfold RecordStream.window at *
  unfold moveRemainder
  dsimp only
  rw [slice, Nat.sub_zero, List.drop_zero, ← hlength, List.take_left]

theorem makeRoom_window (rs : RecordStream) : (makeRoom rs).window = rs.window := by
  unfold makeRoom
  split
  · exact moveRemainder_window rs
  · rfl

theorem makeRoom_max (rs : RecordStream) : (makeRoom rs).maxRecordLen = rs.maxRecordLen := by
  unfold makeRoom
  split <;> rfl

theorem makeRoom_address (rs : RecordStream) : (makeRoom rs).address = rs.address := by
  unfold makeRoom
  split <;> rfl

/-- There is room for a byte unless the buffer is full from its beginning. -/
theorem makeRoom_room {rs : RecordStream}
    (h : ¬(rs.unconsumed = 0 ∧ rs.readEnd = rs.buffer.length)) :
    0 < (makeRoom rs).buffer.length - (makeRoom rs).readEnd := by
  have hle := rs.readEnd_le
  have hle' := rs.unconsumed_le
  have hlength := rs.length_eq
  rw [(makeRoom rs).length_eq, makeRoom_max]
  unfold makeRoom
  split
  · show 0 < rs.maxRecordLen + headerSize - (rs.readEnd - rs.unconsumed)
    omega
  · omega

theorem fill_window (rs : RecordStream) (l : List UInt8)
    (fits : l.length ≤ rs.buffer.length - rs.readEnd) :
    (fill rs l fits).window = rs.window ++ l := by
  have hle := rs.unconsumed_le
  have hend := rs.readEnd_le
  unfold RecordStream.window fill slice
  dsimp only
  rw [List.append_assoc, List.drop_append_of_le_length (by rw [List.length_take]; omega),
    ← List.append_assoc,
    List.take_append_of_le_length (by
      simp only [List.length_append, List.length_drop, List.length_take]; omega),
    List.take_of_length_le (by
      simp only [List.length_append, List.length_drop, List.length_take]; omega),
    List.drop_take]

end Cutils
end AndroidLinux
