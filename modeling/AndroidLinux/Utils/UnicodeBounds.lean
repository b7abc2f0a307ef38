import AndroidLinux.Utils.Unicode

/-!
# What the decoders of UTF-8 read and write

The decoders of `Unicode.cpp` over a memory in which `n` bytes belong to the source; what the
bytes behind them are is not known.  All of them are loops that take the length of a sequence
from its first byte and fetch the rest of it at once, so that `decodeLoop` is their common
form, with the offsets that are read.
-/

namespace AndroidLinux
namespace Utils

/-- A length for each first byte. -/
structure LeadLength where
  len : UInt8 → Nat
  pos : ∀ b, 0 < len b

/-- A loop over the sequences: `reads` bytes of each are read, `body` is done for it, and the
next one starts behind it.  The result is the end, the state and the offsets read. -/
def decodeLoop {σ : Type*} (L : LeadLength) (reads : UInt8 → Nat) (more : σ → Bool)
    (body : Nat → σ → σ) (m : Nat → UInt8) (n cur : Nat) (s : σ) : Nat × σ × List Nat :=
  if cur < n ∧ more s = true then
    let r := decodeLoop L reads more body m n (cur + L.len (m cur)) (body cur s)
    (r.1, r.2.1, List.range' cur (reads (m cur)) ++ r.2.2)
  else (cur, s, [])
termination_by n - cur
decreasing_by
  have hpos := L.pos (m cur)
  omega

/-- `utf8_codepoint_len`. -/
def codepointLength : LeadLength := ⟨utf8CodepointLen, fun _ => Nat.succ_pos _⟩

theorem skipBits_pos (first : UInt32) (fuel : Nat) (mask : UInt32) {num : Nat} (h : 0 < num) :
    0 < skipBits first fuel mask num := by
  induction fuel generalizing mask num with
  | zero => exact h
  | succ fuel ih =>
      rw [skipBits]
      split
      · exact ih (mask >>> 1) (Nat.succ_pos num)
      · exact h

/-- `num_to_skip` of `utf8_to_utf32_length`. -/
def skipLength (signed : Bool) : LeadLength where
  len := numToSkip signed
  pos b := by
    unfold numToSkip
    split
    · exact Nat.one_pos
    · exact skipBits_pos _ _ _ Nat.one_pos

/-- The bytes behind an offset. -/
def behind (m : Nat → UInt8) (cur count : Nat) : List UInt8 :=
  (List.range' (cur + 1) count).map m

/-- The code point of the sequence at an offset, as `utf8_to_utf32_codepoint` reads it. -/
def codepointAt (m : Nat → UInt8) (cur : Nat) : UInt32 :=
  let u8charLen := utf8CodepointLen (m cur)
  utf8ToUtf32Codepoint (m cur) (behind m cur (u8charLen - 1)) u8charLen

/-- `utf8_to_utf16_length`, with the offsets read. -/
def utf8ToUtf16LengthReads (m : Nat → UInt8) (u8len : Nat) : Int × List Nat :=
  let r := decodeLoop codepointLength utf8CodepointLen (fun _ => true)
    (fun cur (u16measuredLen : Nat) =>
      u16measuredLen + if 0xFFFF < codepointAt m cur then 2 else 1) m u8len 0 0
  (if r.1 ≠ u8len then -1 else (r.2.1 : Int), r.2.2)

/-- `utf8_to_utf16_`: the units written, with the offsets read. -/
def utf8ToUtf16Reads (m : Nat → UInt8) (u8len : Nat) : List UInt16 × List Nat :=
  let r := decodeLoop codepointLength utf8CodepointLen (fun _ => true)
    (fun cur u16str => u16str ++ codepointUnits (codepointAt m cur)) m u8len 0 []
  (r.2.1 ++ [0], r.2.2)

/-- The state of `utf8_to_utf16_n`: the units written, and the position returned early. -/
structure Bounded where
  written : List UInt16
  returned : Option Nat

/-- The test of the loop of `utf8_to_utf16_n`. -/
def Bounded.more (dstLen : Nat) (s : Bounded) : Bool :=
  s.returned.isNone && decide (s.written.length < dstLen)

/-- The body of the loop of `utf8_to_utf16_n`. -/
def boundedBody (m : Nat → UInt8) (dstLen cur : Nat) (s : Bounded) : Bounded :=
  let codepoint := codepointAt m cur
  if codepoint ≤ 0xFFFF then ⟨s.written ++ [codepoint.toUInt16], none⟩
  else
    let codepoint := codepoint - 0x10000
    let written := s.written ++ [((codepoint >>> 10) + 0xD800).toUInt16]
    if dstLen ≤ written.length then ⟨written, some (written.length - 1)⟩
    else ⟨written ++ [((codepoint &&& 0x3FF) + 0xDC00).toUInt16], none⟩

/-- `utf8_to_utf16_n`: the units written and the position returned, with the offsets read. -/
def utf8ToUtf16NReads (m : Nat → UInt8) (srcLen dstLen : Nat) : List UInt16 × Nat × List Nat :=
  let r := decodeLoop codepointLength utf8CodepointLen (Bounded.more dstLen)
    (boundedBody m dstLen) m srcLen 0 ⟨[], none⟩
  (r.2.1.written, r.2.1.returned.getD r.2.1.written.length, r.2.2)

/-- `utf8_to_utf32_length`, with the offsets read. -/
def utf8ToUtf32LengthReads (signed : Bool) (m : Nat → UInt8) (srcLen : Nat) : Nat × List Nat :=
  let r := decodeLoop (skipLength signed) (fun _ => 1) (fun _ => true) (fun _ ret => ret + 1)
    m srcLen 0 0
  (r.2.1, r.2.2)

/-- The sequence at an offset, as `utf32_at_internal` reads it. -/
def internalAt (signed : Bool) (m : Nat → UInt8) (cur : Nat) : UInt32 × Nat :=
  utf32AtInternal signed (m cur) (behind m cur 7)

/-- `utf8_to_utf32`: the units written, with the offsets read. -/
def utf8ToUtf32Reads (signed : Bool) (m : Nat → UInt8) (srcLen : Nat) :
    List UInt32 × List Nat :=
  if srcLen = 0 then ([], [])
  else
    let r := decodeLoop (skipLength signed) (numToSkip signed) (fun _ => true)
      (fun cur dst => dst ++ [(internalAt signed m cur).1]) m srcLen 0 []
    (r.2.1 ++ [0], r.2.2)

/-- `utf32_from_utf8_at`: the code point and the next index, if it is set, with the offsets
read. -/
def utf32FromUtf8At (signed : Bool) (m : Nat → UInt8) (srcLen index : Nat) :
    Int × Option Nat × List Nat :=
  if srcLen ≤ index then (-1, none, [])
  else
    let ret := (internalAt signed m index).1.toInt32.toInt
    let numRead := (internalAt signed m index).2
    (ret, if 0 ≤ ret then some (index + numRead) else none, List.range' index numRead)

/-- The loop of `utf32_at_internal` runs as often as that of `utf8_to_utf32_length`. -/
theorem readTrail_num (first : UInt32) (fuel : Nat) (mask toIgnore utf32 : UInt32) (num : Nat)
    (cur : List UInt8) :
    (readTrail first fuel mask toIgnore utf32 num cur).2.2.2 = skipBits first fuel mask num := by
  induction fuel generalizing mask toIgnore utf32 num cur with
  | zero => rfl
  | succ fuel ih =>
      rw [readTrail, skipBits]
      split
      · exact ih _ _ _ _ _
      · rfl

theorem internalAt_num (signed : Bool) (m : Nat → UInt8) (cur : Nat) :
    (internalAt signed m cur).2 = numToSkip signed (m cur) := by
  unfold internalAt utf32AtInternal numToSkip
  split
  · rfl
  · exact readTrail_num _ _ _ _ _ _ _

/-! ## The reads of the common loop -/

/-- The sequences from an offset on all end inside of the source. -/
def Whole (L : LeadLength) (m : Nat → UInt8) (n cur : Nat) : Prop :=
  if cur < n then cur + L.len (m cur) ≤ n ∧ Whole L m n (cur + L.len (m cur)) else True
termination_by n - cur
decreasing_by
  have hpos := L.pos (m cur)
  omega

theorem whole_of_lt {L : LeadLength} {m : Nat → UInt8} {n cur : Nat} (h : cur < n) :
    Whole L m n cur ↔ cur + L.len (m cur) ≤ n ∧ Whole L m n (cur + L.len (m cur)) := by
  rw [Whole, if_pos h]

theorem whole_of_le {L : LeadLength} {m : Nat → UInt8} {n cur : Nat} (h : n ≤ cur) :
    Whole L m n cur := by
  rw [Whole, if_neg (Nat.not_lt.mpr h)]
  trivial

/-- All offsets read belong to the source. -/
def Inside (n : Nat) (reads : List Nat) : Prop := ∀ i ∈ reads, i < n

theorem inside_append {n : Nat} {a b : List Nat} :
    Inside n (a ++ b) ↔ Inside n a ∧ Inside n b :=
  List.forall_mem_append

theorem inside_range' {n cur count : Nat} (h : 0 < count) :
    Inside n (List.range' cur count) ↔ cur + count ≤ n := by
  constructor
  · intro hall
    have hlast := hall (cur + (count - 1)) (List.mem_range'_1.mpr (by omega))
    omega
  · intro hle i hi
    have hi' := List.mem_range'_1.mp hi
    omega

section Loop

variable {σ : Type*} {L : LeadLength} {reads : UInt8 → Nat} {more : σ → Bool}
  {body : Nat → σ → σ} {m : Nat → UInt8} {n : Nat}

/-- The reads of a loop that fetches whole sequences to the end of the source. -/
theorem decodeLoop_inside (cur : Nat) (s : σ) :
    Inside n (decodeLoop L L.len (fun _ => true) body m n cur s).2.2 ↔ Whole L m n cur := by
  fun_induction decodeLoop L L.len (fun _ => true) body m n cur s with
  | case1 cur s h r ih =>
      rw [inside_append, inside_range' (L.pos _), whole_of_lt h.1]
      exact and_congr_right fun _ => ih
  | case2 cur s h =>
      have hend : n ≤ cur := by simpa using h
      exact iff_of_true (fun i hi => by cases hi) (whole_of_le hend)

/-- A loop that stops earlier reads no more. -/
theorem decodeLoop_inside_of_whole (cur : Nat) (s : σ) (h : Whole L m n cur) :
    Inside n (decodeLoop L L.len more body m n cur s).2.2 := by
  fun_induction decodeLoop L L.len more body m n cur s with
  | case1 cur s hmore r ih =>
      obtain ⟨hle, hrest⟩ := (whole_of_lt hmore.1).mp h
      exact inside_append.mpr ⟨(inside_range' (L.pos _)).mpr hle, ih hrest⟩
  | case2 cur s hmore =>
      intro i hi
      cases hi

/-- A loop that reads first bytes only stays inside. -/
theorem decodeLoop_inside_first (cur : Nat) (s : σ) :
    Inside n (decodeLoop L (fun _ => 1) more body m n cur s).2.2 := by
  fun_induction decodeLoop L (fun _ => 1) more body m n cur s with
  | case1 cur s hmore r ih =>
      exact inside_append.mpr ⟨(inside_range' Nat.one_pos).mpr hmore.1, ih⟩
  | case2 cur s hmore =>
      intro i hi
      cases hi

/-- Two loops over the same sequences are related as their bodies are. -/
theorem decodeLoop_related {τ : Type*} {reads' : UInt8 → Nat} {body' : Nat → τ → τ}
    {R : σ → τ → Prop} (hbody : ∀ cur s t, R s t → R (body cur s) (body' cur t)) (cur : Nat)
    {s : σ} {t : τ} (h : R s t) :
    R (decodeLoop L reads (fun _ => true) body m n cur s).2.1
      (decodeLoop L reads' (fun _ => true) body' m n cur t).2.1 := by
  revert t
  fun_induction decodeLoop L reads (fun _ => true) body m n cur s with
  | case1 cur s hmore r =>
      rename_i ih
      intro t h
      rw [decodeLoop, if_pos hmore]
      exact ih (hbody cur s t h)
  | case2 cur s hmore =>
      intro t h
      rw [decodeLoop, if_neg hmore]
      exact h

end Loop

/-! ## The units in the bounded buffer -/

/-- Where the sequences start. -/
def starts (L : LeadLength) (m : Nat → UInt8) (n cur : Nat) : List Nat :=
  if cur < n then cur :: starts L m n (cur + L.len (m cur)) else []
termination_by n - cur
decreasing_by
  have hpos := L.pos (m cur)
  omega

/-- The units of the sequence at an offset. -/
def unitsAt (m : Nat → UInt8) (cur : Nat) : List UInt16 := codepointUnits (codepointAt m cur)

/-- The position that is returned. -/
def Bounded.position (s : Bounded) : Nat := s.returned.getD s.written.length

/-- One pass: the units of the sequence are written, or only the first one of a pair, and then
the position in front of it is returned. -/
theorem boundedBody_spec (m : Nat → UInt8) {dstLen : Nat} (cur : Nat) {s : Bounded}
    (hmore : s.more dstLen = true) :
    (boundedBody m dstLen cur s).written.length ≤ dstLen ∧
      (boundedBody m dstLen cur s = ⟨s.written ++ unitsAt m cur, none⟩ ∨
        (boundedBody m dstLen cur s).returned = some s.written.length ∧
          (boundedBody m dstLen cur s).written.take s.written.length = s.written) := by
  have hroom : s.written.length < dstLen := by
    unfold Bounded.more at hmore
    rw [Bool.and_eq_true, decide_eq_true_eq] at hmore
    exact hmore.2
  unfold boundedBody unitsAt codepointUnits
  dsimp only
  split
  · refine ⟨?_, .inl rfl⟩
    rw [List.length_append, List.length_singleton]
    exact hroom
  · split
    · refine ⟨?_, .inr ⟨?_, List.take_left⟩⟩
      · rw [List.length_append, List.length_singleton]
        exact hroom
      · rw [List.length_append, List.length_singleton, Nat.add_sub_cancel]
    · rename_i hfits
      refine ⟨?_, .inl ?_⟩
      · rw [List.length_append, List.length_singleton] at hfits ⊢
        rw [List.length_append, List.length_singleton]
        omega
      · rw [List.append_assoc]
        rfl

/-- The loop of `utf8_to_utf16_n`: what stands in front of the position returned are the units
of whole sequences. -/
theorem bounded_loop (m : Nat → UInt8) (n dstLen cur : Nat) (s : Bounded)
    (hlen : s.written.length ≤ dstLen) :
    (decodeLoop codepointLength utf8CodepointLen (Bounded.more dstLen) (boundedBody m dstLen)
        m n cur s).2.1.written.length ≤ dstLen ∧
      ∃ j, (decodeLoop codepointLength utf8CodepointLen (Bounded.more dstLen)
          (boundedBody m dstLen) m n cur s).2.1.written.take
        (decodeLoop codepointLength utf8CodepointLen (Bounded.more dstLen)
          (boundedBody m dstLen) m n cur s).2.1.position =
        s.written.take s.position ++
          ((starts codepointLength m n cur).take j).flatMap (unitsAt m) := by
  fun_induction decodeLoop codepointLength utf8CodepointLen (Bounded.more dstLen)
    (boundedBody m dstLen) m n cur s with
  | case1 cur s hmore r ih =>
      obtain ⟨hbound, hbody⟩ := boundedBody_spec m cur hmore.2
      have hnone : s.returned = none := by
        have htest := hmore.2
        unfold Bounded.more at htest
        rw [Bool.and_eq_true, Option.isNone_iff_eq_none] at htest
        exact htest.1
      have hwhole : s.written.take s.position = s.written := by
        rw [Bounded.position, hnone]
        exact List.take_length
      obtain ⟨hfits, j, hj⟩ := ih hbound
      refine ⟨hfits, ?_⟩
      obtain hbody | ⟨hreturned, hkept⟩ := hbody
      · refine ⟨j + 1, ?_⟩
        rw [starts, if_pos hmore.1, List.take_succ_cons, List.flatMap_cons, hwhole]
        refine hj.trans ?_
        rw [hbody, Bounded.position, Option.getD_none, List.take_length, List.append_assoc]
      · -- the loop is over
        refine ⟨0, ?_⟩
        have hstop : ¬ (cur + codepointLength.len (m cur) < n ∧
            (boundedBody m dstLen cur s).more dstLen = true) := by
          rintro ⟨-, htest⟩
          rw [Bounded.more, hreturned] at htest
          cases htest
        have hr : r.2.1 = boundedBody m dstLen cur s := by
          unfold r
          rw [decodeLoop, if_neg hstop]
        change r.2.1.written.take r.2.1.position = _
        rw [hr, Bounded.position, hreturned, Option.getD_some, hkept, hwhole]
        simp
  | case2 cur s hmore => exact ⟨hlen, 0, by simp⟩

/-! ## All decoders -/

/-- What the decoders of a source read and write. -/
structure DecodesInside (signed : Bool) (m : Nat → UInt8) (n index dstLen : Nat) : Prop where
  length16 : Inside n (utf8ToUtf16LengthReads m n).2
  decode16 : Inside n (utf8ToUtf16Reads m n).2
  bounded16 : Inside n (utf8ToUtf16NReads m n dstLen).2.2
  length32 : Inside n (utf8ToUtf32LengthReads signed m n).2
  decode32 : Inside n (utf8ToUtf32Reads signed m n).2
  single : Inside n (utf32FromUtf8At signed m n index).2.2
  written16 : 0 ≤ (utf8ToUtf16LengthReads m n).1 →
    ((utf8ToUtf16Reads m n).1.length : Int) = (utf8ToUtf16LengthReads m n).1 + 1
  written32 : (utf8ToUtf32Reads signed m n).1.length = (utf8ToUtf32LengthReads signed m n).1 + 1
  writtenN : (utf8ToUtf16NReads m n dstLen).1.length ≤ dstLen
  returned : ∃ j, (utf8ToUtf16NReads m n dstLen).1.take (utf8ToUtf16NReads m n dstLen).2.1 =
    ((starts codepointLength m n 0).take j).flatMap (unitsAt m)

/-- The source is not empty, and none of its sequences goes on behind its end, neither those
that `utf8_codepoint_len` tells apart nor those by the leading bits of the first bytes. -/
structure WellCut (signed : Bool) (m : Nat → UInt8) (n index : Nat) : Prop where
  nonempty : n ≠ 0
  codepoints : Whole codepointLength m n 0
  sequences : Whole (skipLength signed) m n 0
  single : index < n → index + numToSkip signed (m index) ≤ n

theorem length_codepointUnits (c : UInt32) :
    (codepointUnits c).length = if 0xFFFF < c then 2 else 1 := by
  unfold codepointUnits
  by_cases h : c ≤ 0xFFFF
  · rw [if_pos h, if_neg (UInt32.not_lt.mpr h)]
    rfl
  · rw [if_neg h, if_pos (UInt32.not_le.mp h)]
    rfl

/-- As many units are written as have been measured. -/
theorem written16 (m : Nat → UInt8) (n : Nat) (h : 0 ≤ (utf8ToUtf16LengthReads m n).1) :
    ((utf8ToUtf16Reads m n).1.length : Int) = (utf8ToUtf16LengthReads m n).1 + 1 := by
  have hbody (cur measured : Nat) (written : List UInt16) (hlen : written.length = measured) :
      (written ++ codepointUnits (codepointAt m cur)).length =
        measured + if 0xFFFF < codepointAt m cur then 2 else 1 := by
    rw [List.length_append, hlen, length_codepointUnits]
  have hrel : (decodeLoop codepointLength utf8CodepointLen (fun _ => true)
      (fun cur written => written ++ codepointUnits (codepointAt m cur)) m n 0 []).2.1.length =
      (decodeLoop codepointLength utf8CodepointLen (fun _ => true)
        (fun cur measured => measured + if 0xFFFF < codepointAt m cur then 2 else 1)
        m n 0 0).2.1 :=
    decodeLoop_related (R := fun measured written => List.length written = measured) hbody 0 rfl
  unfold utf8ToUtf16LengthReads at h ⊢
  unfold utf8ToUtf16Reads
  dsimp only at h ⊢
  split at h
  · exact absurd h (by decide)
  · rename_i hend
    rw [if_neg hend, List.length_append, hrel]
    rfl

theorem written32 (signed : Bool) (m : Nat → UInt8) {n : Nat} (h : n ≠ 0) :
    (utf8ToUtf32Reads signed m n).1.length = (utf8ToUtf32LengthReads signed m n).1 + 1 := by
  have hbody (cur measured : Nat) (written : List UInt32) (hlen : written.length = measured) :
      (written ++ [(internalAt signed m cur).1]).length = measured + 1 := by
    rw [List.length_append, hlen, List.length_singleton]
  have hrel : (decodeLoop (skipLength signed) (numToSkip signed) (fun _ => true)
      (fun cur written => written ++ [(internalAt signed m cur).1]) m n 0 []).2.1.length =
      (decodeLoop (skipLength signed) (fun _ => 1) (fun _ => true)
        (fun _ measured => measured + 1) m n 0 0).2.1 :=
    decodeLoop_related (R := fun measured written => List.length written = measured) hbody 0 rfl
  unfold utf8ToUtf32Reads utf8ToUtf32LengthReads
  rw [if_neg h]
  dsimp only
  rw [List.length_append, hrel, List.length_singleton]

theorem single_inside {signed : Bool} {m : Nat → UInt8} {n index : Nat} :
    Inside n (utf32FromUtf8At signed m n index).2.2 ↔
      (index < n → index + numToSkip signed (m index) ≤ n) := by
  unfold utf32FromUtf8At
  split
  · rename_i hout
    exact iff_of_true (fun i hi => by cases hi) fun hin => absurd hin (Nat.not_lt.mpr hout)
  · rename_i hin
    dsimp only
    have hpos : 0 < numToSkip signed (m index) := (skipLength signed).pos _
    rw [internalAt_num, inside_range' hpos]
    exact ⟨fun h _ => h, fun h => h (Nat.not_le.mp hin)⟩

/-- The decoders stay inside of their source and write what has been measured exactly when the
source is well cut. -/
theorem decodesInside_iff (signed : Bool) (m : Nat → UInt8) (n index dstLen : Nat) :
    DecodesInside signed m n index dstLen ↔ WellCut signed m n index := by
  constructor
  · intro h
    have hne : n ≠ 0 := by
      rintro rfl
      have hwritten := h.written32
      unfold utf8ToUtf32Reads at hwritten
      rw [if_pos rfl] at hwritten
      exact absurd hwritten (Nat.succ_ne_zero _).symm
    have hdecode := h.decode32
    unfold utf8ToUtf32Reads at hdecode
    rw [if_neg hne] at hdecode
    exact ⟨hne, (decodeLoop_inside (L := codepointLength) 0 (0 : Nat)).mp h.length16,
      (decodeLoop_inside (L := skipLength signed) 0 []).mp hdecode, single_inside.mp h.single⟩
  · intro h
    obtain ⟨hbound, j, hj⟩ := bounded_loop m n dstLen 0 ⟨[], none⟩ (Nat.zero_le _)
    exact {
      length16 := (decodeLoop_inside (L := codepointLength) 0 (0 : Nat)).mpr h.codepoints
      decode16 := (decodeLoop_inside (L := codepointLength) 0 []).mpr h.codepoints
      bounded16 := by
        unfold utf8ToUtf16NReads
        exact decodeLoop_inside_of_whole (L := codepointLength) 0 _ h.codepoints
      length32 := decodeLoop_inside_first (L := skipLength signed) 0 0
      decode32 := by
        unfold utf8ToUtf32Reads
        rw [if_neg h.nonempty]
        exact (decodeLoop_inside (L := skipLength signed) 0 []).mpr h.sequences
      single := single_inside.mpr h.single
      written16 := written16 m n
      written32 := written32 signed m h.nonempty
      writtenN := hbound
      returned := ⟨j, hj⟩ }

/-- A byte that announces another one, at the end of the source. -/
theorem lead_at_end : ¬ DecodesInside false (fun _ => 0xC3) 1 0 1 := by
  intro h
  have hsingle := single_inside.mp h.single Nat.one_pos
  have hskip : numToSkip false 0xC3 = 2 := by decide
  rw [hskip] at hsingle
  exact absurd hsingle (by decide)

end Utils
end AndroidLinux
