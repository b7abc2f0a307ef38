import AndroidLinux.Lib.Transition
import AndroidLinux.Cutils.RecordStream

/-!
# Runs of a record stream

Whatever pieces the reads bring and however often they fail, the records that are handed out are
those that were written, in order, and at the end of the stream none is missing.  A reader that
strays has read the length of a record which wraps the end of it around.
-/

namespace AndroidLinux
namespace Cutils

open Lib

/-- What a call of `read` finds. -/
inductive Arrival
  | fails
  | brings (more : Nat)
  deriving DecidableEq

/-- `read` on a descriptor from which `input` will come: at least one byte, until there are no
more. -/
def receive (a : Arrival) (input : List UInt8) (n : Nat) : ReadResult n × List UInt8 :=
  match a with
  | .fails => (.failed, input)
  | .brings more =>
      (.bytes (input.take (min (more + 1) n))
        ((List.length_take_le _ _).trans (Nat.min_le_right _ _)), input.drop (min (more + 1) n))

/-- A reader, what it has not read yet, and the records it has got. -/
structure Link where
  rs : RecordStream
  input : List UInt8
  delivered : List (List UInt8)

def GetNext.records : GetNext → List (List UInt8)
  | .record bytes => [bytes]
  | _ => []

/-- One call of `record_stream_get_next`. -/
def Link.call (link : Link) (a : Arrival) : GetNext × Link :=
  let (result, rs, input) := recordStreamGetNext (receive a) link.rs link.input
  (result, ⟨rs, input, link.delivered ++ result.records⟩)

/-- A reader that starts on a stream of records. -/
structure Link.Starts (records : List Record) (link : Link) : Prop where
  new : ∃ address maxRecordLen fresh hroom hfresh,
    recordStreamNew address maxRecordLen fresh hroom hfresh = some link.rs
  input : link.input = recordFraming.stream records
  delivered : link.delivered = []

def linkMachine (records : List Record) : Machine Link Arrival where
  init := Link.Starts records
  step link a := if (link.call a).1 = .stray then none else some (link.call a).2

theorem step_eq {records : List Record} {link link' : Link} {a : Arrival}
    (h : (linkMachine records).step link a = some link') : (link.call a).2 = link' := by
  simp only [linkMachine] at h
  split at h
  · cases h
  · exact Option.some.inj h

theorem step_of_ne {records : List Record} {link : Link} {a : Arrival}
    (h : (link.call a).1 ≠ .stray) :
    (linkMachine records).step link a = some (link.call a).2 := if_neg h

/-- The records in `rest` are still to come. -/
structure Link.Owes (link : Link) (records rest : List Record) : Prop where
  records : records.map Subtype.val = link.delivered ++ rest.map Subtype.val
  stream : link.rs.window ++ link.input = recordFraming.stream rest

variable {link : Link} {records rest : List Record}

theorem Link.Starts.owes (h : link.Starts records) : link.Owes records records := by
  obtain ⟨address, maxRecordLen, fresh, hroom, hfresh, hnew⟩ := h.new
  refine ⟨by rw [h.delivered, List.nil_append], ?_⟩
  have hwindow : link.rs.window = [] := by
    unfold recordStreamNew at hnew
    split at hnew
    · rw [← Option.some.inj hnew]
      rfl
    · cases hnew
  rw [hwindow, h.input, List.nil_append]

/-! ## One call -/

/-- The length in front of the first record. -/
theorem ntohl_of_stream {there missing : List UInt8}
    (h : there ++ missing = recordFraming.stream rest) (hlong : headerSize ≤ there.length) :
    ∃ r rest', rest = r :: rest' ∧ ntohl (there.take headerSize) = r.1.length := by
  cases rest with
  | nil =>
      rw [(List.append_eq_nil_iff.mp h).1] at hlong
      exact absurd hlong (by decide)
  | cons r rest' =>
      refine ⟨r, rest', rfl, ?_⟩
      have htake : (there ++ missing).take headerSize = there.take headerSize :=
        List.take_append_of_le_length hlong
      rw [← htake, h, Framing.stream_cons,
        show recordFraming.encode r = header r.1.length ++ r.1 from rfl, List.append_assoc,
        header_take, ntohl_header r.2]

/-- What `getNextRecord` does to a window that starts a stream. -/
theorem getNextRecord_of_stream {rs : RecordStream} {input : List UInt8}
    (h : rs.window ++ input = recordFraming.stream rest) :
    (∃ r rest' rs', getNextRecord rs = .record r.1 rs' ∧ rest = r :: rest' ∧
        rs'.window ++ input = recordFraming.stream rest' ∧
        rs'.maxRecordLen = rs.maxRecordLen ∧ rs'.address = rs.address) ∨
      (getNextRecord rs = .null ∧ recordHead rs.window = none ∧
        ((rest = [] ∧ rs.window = [] ∧ input = []) ∨
          ∃ r rest' lack, rest = r :: rest' ∧ recordFraming.encode r = rs.window ++ lack ∧
            lack ≠ [])) ∨
      (getNextRecord rs = .stray ∧ ∃ r rest', rest = r :: rest' ∧
        2 ^ 32 ≤ rs.address + rs.maxRecordLen + headerSize + r.1.length) := by
  rcases getNextRecord_eq rs with ⟨hno, hget⟩ |
    ⟨r, tail, rs', hsome, hget, hwindow, hmax, haddress⟩ | ⟨hlong, hbig, hget⟩
  · rcases recordFraming.head_of_stream h with ⟨_, _, _, -, -, -, hhead⟩ | ⟨-, hnone⟩
    · cases hno.symm.trans hhead
    · exact .inr (.inl ⟨hget, hno, hnone⟩)
  · rcases recordFraming.head_of_stream h with
      ⟨r', tail', rest', hrest, -, hstream, hhead⟩ | ⟨hhead, -⟩
    · obtain ⟨rfl, rfl⟩ := Prod.mk.inj (Option.some.inj (hsome.symm.trans hhead))
      exact .inl ⟨r, rest', rs', hget, hrest, by rw [hwindow]; exact hstream, hmax, haddress⟩
    · cases hsome.symm.trans hhead
  · obtain ⟨r, rest', hrest, hlen⟩ := ntohl_of_stream h hlong
    exact .inr (.inr ⟨hget, r, rest', hrest, hlen ▸ hbig⟩)

/-- A buffer that is full from its beginning and has no whole record has a part of one that is
too long for it. -/
theorem too_long_of_full {rs : RecordStream} {input : List UInt8}
    (h : rs.window ++ input = recordFraming.stream rest) (hget : getNextRecord rs = .null)
    (hfull : rs.unconsumed = 0 ∧ rs.readEnd = rs.buffer.length) :
    ∃ r rest', rest = r :: rest' ∧ rs.maxRecordLen < r.1.length := by
  have hlength := rs.window_length
  rw [hfull.1, hfull.2, rs.length_eq, Nat.sub_zero] at hlength
  rcases getNextRecord_of_stream h with
    ⟨r, _, rs', hsome, -⟩ | ⟨-, -, ⟨-, hnil, -⟩ | hpart⟩ | ⟨hstray, -⟩
  · cases hget.symm.trans hsome
  · rw [hnil, List.length_nil] at hlength
    cases hlength
  rotate_left
  · cases hget.symm.trans hstray
  · obtain ⟨r, rest', lack, hrest, hword, hlack⟩ := hpart
    have hpos := List.length_pos_of_ne_nil hlack
    have hwords : (header r.1.length ++ r.1).length = (rs.window ++ lack).length :=
      congrArg List.length hword
    rw [List.length_append, List.length_append, header_length] at hwords
    exact ⟨r, rest', hrest, by omega⟩

/-- What a call makes of the records that are owed: the first one is handed out, or all of them
stay owed. -/
inductive Handed (a : Arrival) (address maxRecordLen : Nat) (input input' : List UInt8) :
    GetNext → List Record → List Record → Prop
  | record (r : Record) (rest : List Record) :
      Handed a address maxRecordLen input input' (.record r.1) (r :: rest) rest
  | endOfStream : Handed a address maxRecordLen input input' .endOfStream [] []
  | failed (rest : List Record) (ha : a = .fails) :
      Handed a address maxRecordLen input input' .failed rest rest
  | again (rest : List Record) (hless : input'.length < input.length) :
      Handed a address maxRecordLen input input' .again rest rest
  | tooLong (r : Record) (rest : List Record) (hlong : maxRecordLen < r.1.length) :
      Handed a address maxRecordLen input input' .tooLong (r :: rest) (r :: rest)
  | stray (r : Record) (rest : List Record)
      (hwrap : 2 ^ 32 ≤ address + maxRecordLen + headerSize + r.1.length) :
      Handed a address maxRecordLen input input' .stray (r :: rest) (r :: rest)

theorem Handed.records_eq {a : Arrival} {address maxRecordLen : Nat} {input input' : List UInt8}
    {result : GetNext} {rest' : List Record}
    (h : Handed a address maxRecordLen input input' result rest rest') :
    rest.map Subtype.val = result.records ++ rest'.map Subtype.val := by
  cases h <;> rfl

theorem Handed.suffix {a : Arrival} {address maxRecordLen : Nat} {input input' : List UInt8}
    {result : GetNext} {rest' : List Record}
    (h : Handed a address maxRecordLen input input' result rest rest') : rest' <:+ rest := by
  cases h with
  | record r => exact List.suffix_cons r rest'
  | endOfStream => exact List.suffix_rfl
  | failed => exact List.suffix_rfl
  | again => exact List.suffix_rfl
  | tooLong => exact List.suffix_rfl
  | stray => exact List.suffix_rfl

/-- No record that fits in the buffer leads the reader astray. -/
theorem Handed.not_stray {a : Arrival} {rs : RecordStream} {input input' : List UInt8}
    {result : GetNext} {rest' : List Record}
    (h : Handed a rs.address rs.maxRecordLen input input' result rest rest')
    (hsmall : ∀ r ∈ rest, r.1.length ≤ rs.maxRecordLen) : result ≠ .stray := by
  rintro rfl
  cases h with
  | stray r rest hwrap =>
      have hroom := rs.room
      have hle := hsmall r List.mem_cons_self
      omega

/-- What one call does. -/
structure Called (a : Arrival) (rs : RecordStream) (input : List UInt8) (rest : List Record)
    (call : GetNext × RecordStream × List UInt8) (rest' : List Record) : Prop where
  stream : call.2.1.window ++ call.2.2 = recordFraming.stream rest'
  max : call.2.1.maxRecordLen = rs.maxRecordLen
  address : call.2.1.address = rs.address
  shorter : call.2.2.length ≤ input.length
  handed : Handed a rs.address rs.maxRecordLen input call.2.2 call.1 rest rest'

theorem readNextRecord_of_stream {rs : RecordStream} {input : List UInt8} (a : Arrival)
    (h : rs.window ++ input = recordFraming.stream rest) (hhead : recordHead rs.window = none)
    (hroom : 0 < rs.buffer.length - rs.readEnd) :
    ∃ rest', Called a rs input rest (readNextRecord (receive a) rs input) rest' := by
  cases a with
  | fails => exact ⟨rest, h, rfl, rfl, le_rfl, .failed rest rfl⟩
  | brings more =>
      obtain ⟨k, hk, hpos⟩ : ∃ k, min (more + 1) (rs.buffer.length - rs.readEnd) = k ∧ 0 < k :=
        ⟨_, rfl, by omega⟩
      have hfits : (input.take k).length ≤ rs.buffer.length - rs.readEnd :=
        (List.length_take_le _ _).trans (hk ▸ Nat.min_le_right _ _)
      have hreceive : receive (.brings more) input (rs.buffer.length - rs.readEnd) =
          (.bytes (input.take k) hfits, input.drop k) := by
        subst hk
        rfl
      unfold readNextRecord
      rw [hreceive]
      dsimp only
      have hshort : (input.drop k).length ≤ input.length := by
        rw [List.length_drop]
        omega
      by_cases hend : input = []
      · -- the end of the stream, where no part of a record can be left
        subst hend
        rw [if_pos List.take_nil]
        rcases recordFraming.head_of_stream h with
          ⟨_, _, _, -, -, -, hsome⟩ | ⟨-, ⟨rfl, hnil, -⟩ | hpart⟩
        · cases hhead.symm.trans hsome
        · exact ⟨[], by rw [hnil, List.drop_nil]; rfl, rfl, rfl, hshort, .endOfStream⟩
        · obtain ⟨r, rest', lack, hrest, hword, hlack⟩ := hpart
          have hall := congrArg List.length h
          have hwords := congrArg List.length hword
          have hpositive := List.length_pos_of_ne_nil hlack
          rw [hrest, Framing.stream_cons, List.length_append, List.length_append,
            List.length_nil] at hall
          rw [List.length_append] at hwords
          omega
      · have hne : input.take k ≠ [] := by
          rw [ne_eq, List.take_eq_nil_iff, not_or]
          exact ⟨hpos.ne', hend⟩
        have hfill : (fill rs (input.take k) hfits).window ++ input.drop k =
            recordFraming.stream rest := by
          rw [fill_window, List.append_assoc, List.take_append_drop, h]
        rw [if_neg hne]
        rcases getNextRecord_of_stream hfill with
          ⟨r, rest', rs', hsome, hrest, hstream, hmax, haddress⟩ | ⟨hnone, -⟩ |
            ⟨hstray, r, rest', hrest, hwrap⟩
        · rw [hsome, hrest]
          exact ⟨rest', hstream, hmax, haddress, hshort, .record r rest'⟩
        rotate_left
        · rw [hstray, hrest]
          exact ⟨r :: rest', hrest ▸ hfill, rfl, rfl, hshort, .stray r rest' hwrap⟩
        · rw [hnone]
          refine ⟨rest, hfill, rfl, rfl, hshort, .again rest ?_⟩
          have hpositive := List.length_pos_of_ne_nil hend
          rw [List.length_drop]
          omega

theorem recordStreamGetNext_of_stream {rs : RecordStream} {input : List UInt8} (a : Arrival)
    (h : rs.window ++ input = recordFraming.stream rest) :
    ∃ rest', Called a rs input rest (recordStreamGetNext (receive a) rs input) rest' := by
  unfold recordStreamGetNext
  rcases getNextRecord_of_stream h with
    ⟨r, rest', rs', hget, rfl, hstream, hmax, haddress⟩ | ⟨hget, hhead, -⟩ |
      ⟨hget, r, rest', rfl, hwrap⟩
  · rw [hget]
    exact ⟨rest', hstream, hmax, haddress, le_rfl, .record r rest'⟩
  rotate_left
  · rw [hget]
    exact ⟨r :: rest', h, rfl, rfl, le_rfl, .stray r rest' hwrap⟩
  · rw [hget]
    dsimp only
    by_cases hfull : rs.unconsumed = 0 ∧ rs.readEnd = rs.buffer.length
    · obtain ⟨r, rest', rfl, hlong⟩ := too_long_of_full h hget hfull
      rw [if_pos hfull]
      exact ⟨r :: rest', h, rfl, rfl, le_rfl, .tooLong r rest' hlong⟩
    · have hready : (makeRoom rs).window ++ input = recordFraming.stream rest := by
        rw [makeRoom_window, h]
      rw [if_neg hfull]
      obtain ⟨rest', hcalled⟩ := readNextRecord_of_stream a hready
        (by rw [makeRoom_window, hhead]) (makeRoom_room hfull)
      have hmax := makeRoom_max rs
      have haddress := makeRoom_address rs
      exact ⟨rest', hcalled.stream, hcalled.max.trans hmax, hcalled.address.trans haddress,
        hcalled.shorter, hmax ▸ haddress ▸ hcalled.handed⟩

/-! ## Runs -/

/-- One call keeps the account of what is owed. -/
theorem Link.Owes.call (h : link.Owes records rest) (a : Arrival) :
    ∃ rest', (link.call a).2.Owes records rest' ∧
      Handed a link.rs.address link.rs.maxRecordLen link.input (link.call a).2.input
        (link.call a).1 rest rest' ∧
      (link.call a).2.input.length ≤ link.input.length ∧
      (link.call a).2.rs.maxRecordLen = link.rs.maxRecordLen := by
  obtain ⟨rest', hcalled⟩ := recordStreamGetNext_of_stream a h.stream
  refine ⟨rest', ⟨?_, hcalled.stream⟩, hcalled.handed, hcalled.shorter, hcalled.max⟩
  rw [h.records, hcalled.handed.records_eq, ← List.append_assoc]
  rfl

theorem owes_of_reach (hreach : (linkMachine records).Reach link) :
    ∃ rest, link.Owes records rest :=
  Machine.ReachWhen.invariant (I := fun link => ∃ rest, link.Owes records rest)
    (fun _ hstart => ⟨records, Link.Starts.owes hstart⟩)
    (fun link a link' howes _ hstep => by
      obtain ⟨rest, howes⟩ := howes
      obtain rfl : (link.call a).2 = link' := step_eq hstep
      obtain ⟨rest', howes', -⟩ := howes.call a
      exact ⟨rest', howes'⟩) hreach

/-- Records are handed out as they were written, whatever the reads bring: a call hands out no
other record than the next one, does not report the end of the stream while one is missing,
finds a record too long only when it is, and strays only when the length of the next record wraps
around behind the buffer. -/
theorem delivered_in_order (hreach : (linkMachine records).Reach link) (a : Arrival) :
    link.delivered <+: records.map Subtype.val ∧
      (∀ bytes, (link.call a).1 = .record bytes →
        (records.map Subtype.val)[link.delivered.length]? = some bytes) ∧
      ((link.call a).1 = .endOfStream → link.delivered = records.map Subtype.val) ∧
      ((link.call a).1 = .tooLong → ∃ bytes,
        (records.map Subtype.val)[link.delivered.length]? = some bytes ∧
          link.rs.maxRecordLen < bytes.length) ∧
      ((link.call a).1 = .stray → ∃ bytes,
        (records.map Subtype.val)[link.delivered.length]? = some bytes ∧
          2 ^ 32 ≤ link.rs.address + link.rs.buffer.length + bytes.length) := by
  obtain ⟨rest, howes⟩ := owes_of_reach hreach
  obtain ⟨rest', -, hhanded, -⟩ := howes.call a
  have hrecords := howes.records
  have hnext : (records.map Subtype.val)[link.delivered.length]? = rest.head?.map Subtype.val := by
    rw [hrecords, List.getElem?_append_right le_rfl, Nat.sub_self, ← List.head?_eq_getElem?,
      List.head?_map]
  refine ⟨⟨_, hrecords.symm⟩, ?_⟩
  generalize (link.call a).1 = result at hhanded
  cases hhanded with
  | record r =>
      refine ⟨fun bytes heq => ?_, nofun, nofun, nofun⟩
      obtain rfl := GetNext.record.inj heq
      exact hnext
  | endOfStream =>
      exact ⟨nofun, fun _ => by rw [hrecords, List.map_nil, List.append_nil], nofun, nofun⟩
  | failed => exact ⟨nofun, nofun, nofun, nofun⟩
  | again => exact ⟨nofun, nofun, nofun, nofun⟩
  | tooLong r _ hlong => exact ⟨nofun, nofun, fun _ => ⟨r.1, hnext, hlong⟩, nofun⟩
  | stray r _ hwrap =>
      refine ⟨nofun, nofun, nofun, fun _ => ⟨r.1, hnext, ?_⟩⟩
      rw [link.rs.length_eq, ← Nat.add_assoc]
      exact hwrap

/-- A call whose read does not fail hands out a record or reads a byte, while there are any and
none is too long. -/
theorem Link.Owes.progress (h : link.Owes records rest)
    (hsmall : ∀ r ∈ rest, r.1.length ≤ link.rs.maxRecordLen) (more : Nat) :
    ∃ rest', (linkMachine records).step link (.brings more) = some (link.call (.brings more)).2 ∧
      (link.call (.brings more)).2.Owes records rest' ∧ rest' <:+ rest ∧
      (link.call (.brings more)).2.rs.maxRecordLen = link.rs.maxRecordLen ∧
      rest'.length + (link.call (.brings more)).2.input.length ≤
        rest.length + link.input.length - 1 := by
  obtain ⟨rest', howes, hhanded, hshorter, hmax⟩ := h.call (.brings more)
  have hne := hhanded.not_stray hsmall
  refine ⟨rest', step_of_ne hne, howes, hhanded.suffix, hmax, ?_⟩
  have hstream := howes.stream
  generalize (link.call (.brings more)).1 = result at hhanded hne
  cases hhanded with
  | record r => rw [List.length_cons]; omega
  | endOfStream =>
      rw [(List.append_eq_nil_iff.mp hstream).2]
      exact Nat.zero_le _
  | failed _ ha => cases ha
  | again _ hless => omega
  | tooLong r _ hlong => exact absurd (hsmall r List.mem_cons_self) (Nat.not_le.mpr hlong)
  | stray => exact absurd rfl hne

theorem Link.Owes.finish (acts : List Arrival) (h : link.Owes records rest)
    (hsmall : ∀ r ∈ rest, r.1.length ≤ link.rs.maxRecordLen)
    (hmany : rest.length + link.input.length ≤ acts.countP (· ≠ .fails)) :
    ∃ link', (linkMachine records).run link acts = some link' ∧
      link'.delivered = records.map Subtype.val := by
  induction acts generalizing link rest with
  | nil =>
      rw [List.countP_nil] at hmany
      obtain rfl : rest = [] := List.eq_nil_of_length_eq_zero (by omega)
      exact ⟨link, rfl, by rw [h.records, List.map_nil, List.append_nil]⟩
  | cons a acts ih =>
      cases a with
      | fails =>
          obtain ⟨rest', howes, hhanded, hshorter, hmax⟩ := h.call .fails
          have hle := hhanded.suffix.length_le
          rw [List.countP_cons_of_neg (by decide)] at hmany
          rw [Machine.run, step_of_ne (hhanded.not_stray hsmall)]
          exact ih howes (fun r hr => hmax ▸ hsmall r (hhanded.suffix.subset hr)) (by omega)
      | brings more =>
          obtain ⟨rest', hstep, howes, hsuffix, hmax, hless⟩ := h.progress hsmall more
          rw [List.countP_cons_of_pos (by simp)] at hmany
          rw [Machine.run, hstep]
          exact ih howes (fun r hr => hmax ▸ hsmall r (hsuffix.subset hr)) (by omega)

/-- Calls of which as many as there are bytes and records have a read that does not fail hand out
all the records, when none is too long. -/
theorem all_delivered (acts : List Arrival) (hstart : link.Starts records)
    (hsmall : ∀ r ∈ records, r.1.length ≤ link.rs.maxRecordLen)
    (hmany : records.length + (recordFraming.stream records).length ≤
      acts.countP (· ≠ .fails)) :
    ∃ link', (linkMachine records).run link acts = some link' ∧
      link'.delivered = records.map Subtype.val :=
  hstart.owes.finish acts hsmall (hstart.input ▸ hmany)

/-! ## A reader with a small buffer -/

theorem smallRecord_fits : ([1, 2, 3] : List UInt8).length < 2 ^ 32 := by decide

theorem emptyRecord_fits : ([] : List UInt8).length < 2 ^ 32 := by decide

def smallRecords : List Record := [⟨[1, 2, 3], smallRecord_fits⟩, ⟨[], emptyRecord_fits⟩]

theorem smallBuffer_room : 4096 + 2 * (3 + headerSize) < 2 ^ 32 := by decide

theorem smallBuffer_length : (List.replicate 7 (0 : UInt8)).length = 3 + headerSize := rfl

def smallLink : Link where
  rs := (recordStreamNew 4096 3 (List.replicate 7 0) smallBuffer_room smallBuffer_length).get rfl
  input := recordFraming.stream smallRecords
  delivered := []

theorem smallLink_starts : smallLink.Starts smallRecords where
  new := ⟨4096, 3, List.replicate 7 0, smallBuffer_room, smallBuffer_length, rfl⟩
  input := rfl
  delivered := rfl

/-- The state behind the first piece of the header. -/
def smallLink₁ : Link := (smallLink.call (.brings 1)).2

/-- The header of the first record comes in two pieces. -/
theorem delivered_in_order_small :
    smallLink₁.delivered <+: smallRecords.map Subtype.val ∧
      (∀ bytes, (smallLink₁.call (.brings 4)).1 = .record bytes →
        (smallRecords.map Subtype.val)[smallLink₁.delivered.length]? = some bytes) ∧
      ((smallLink₁.call (.brings 4)).1 = .endOfStream →
        smallLink₁.delivered = smallRecords.map Subtype.val) ∧
      ((smallLink₁.call (.brings 4)).1 = .tooLong → ∃ bytes,
        (smallRecords.map Subtype.val)[smallLink₁.delivered.length]? = some bytes ∧
          smallLink₁.rs.maxRecordLen < bytes.length) ∧
      ((smallLink₁.call (.brings 4)).1 = .stray → ∃ bytes,
        (smallRecords.map Subtype.val)[smallLink₁.delivered.length]? = some bytes ∧
          2 ^ 32 ≤ smallLink₁.rs.address + smallLink₁.rs.buffer.length + bytes.length) :=
  delivered_in_order (.step (.init smallLink_starts) trivial (step_of_ne (by decide)))
    (.brings 4)

/-- One byte at a time. -/
theorem all_delivered_small : ∃ link',
    (linkMachine smallRecords).run smallLink (List.replicate 13 (.brings 0)) = some link' ∧
      link'.delivered = smallRecords.map Subtype.val :=
  all_delivered (List.replicate 13 (.brings 0)) smallLink_starts (by decide) (by decide)

end Cutils
end AndroidLinux
