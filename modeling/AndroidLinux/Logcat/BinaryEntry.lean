import AndroidLinux.Logcat.BinaryOutput
import AndroidLinux.Logcat.TextEntry

/-!
# Converting a binary entry

`android_log_processBinaryLogBuffer` of `logprint.c`.  Offsets of the output are counted from
the start of `messageBuf`, of which `messageBufLen` bytes belong to the caller.
-/

namespace AndroidLinux
namespace Logcat

open Lib

/-- A number as a `size_t`. -/
def sizeT (x : Int) : Nat := (x % 2 ^ 32).toNat

/-- `AndroidLogEntry` of a binary entry: the tag is one of the map's or an offset. -/
structure BinaryEntry (α : Type*) where
  tvSec : UInt32
  tvNsec : UInt32
  priority : UInt8
  pid : UInt32
  tid : UInt32
  tag : α ⊕ Nat
  messageLen : Nat
  message : Nat

/-- The result, the entry if there is one, the output, and what the assertion says. -/
structure BinaryRun (α : Type*) where
  result : Int
  entry : Option (BinaryEntry α)
  out : Nat → UInt8
  asserted : Bool

/-- `ANDROID_LOG_INFO`. -/
def ANDROID_LOG_INFO : UInt8 := 4

/-- The indicator for a text that had no room. -/
def leaveIndicator (messageBuf : Nat) (t : Sink) : Sink :=
  if messageBuf < t.outBuf then { t with out := storeAt t.out (t.outBuf - 1) [0x21] }
  else
    { t.store [0x21] with outBuf := t.outBuf + 1, outBufLen := sizeT ((t.outBufLen : Int) - 1) }

section Entries

variable {α : Type*} (buf : EntryHeader) (msg : Nat → UInt8)

/-- `android_log_processBinaryLogBuffer` from the formatting of the event on. -/
def formatEvent (tag : α ⊕ Nat) (data : Source) (messageBuf : Nat) (messageBufLen : Int)
    (out : Nat → UInt8) : Option (BinaryRun α) :=
  (printBinaryEvent msg data ⟨messageBuf, sizeT (messageBufLen - 1), out⟩).map fun p =>
    if p.1 < 0 then ⟨-1, none, p.2.2.out, true⟩
    else
      let t := if p.1 = 1 then leaveIndicator messageBuf p.2.2 else p.2.2
      let messageLen := t.outBuf - messageBuf
      ⟨0, some
        { tvSec := buf.sec
          tvNsec := buf.nsec
          priority := ANDROID_LOG_INFO
          pid := buf.pid
          tid := buf.tid
          tag := tag
          messageLen := messageLen
          message := messageBuf },
        (t.store [0]).out, messageLen == sizeT (messageBufLen - 1 - t.outBufLen)⟩

/-- The number of the tag. -/
def tagIndexOf : Int := get4LE ((⟨0, buf.len.toNat, []⟩ : Source).fetch msg 4)

/-- What follows the number of the tag. -/
def eventOf : Source := ((⟨0, buf.len.toNat, []⟩ : Source).read 4).skip 4

/-- The tag that is generated for a number. -/
def generatedTag (tagIndex : Int) : List UInt8 := 0x5B :: decimal tagIndex ++ [0x5D]

/-- `android_log_processBinaryLogBuffer`. -/
def processBinaryLogBuffer (map : Option (Int → Option α)) (messageBufLen : Int)
    (out : Nat → UInt8) : Option (BinaryRun α) :=
  if buf.len.toNat < 4 then some ⟨-1, none, out, true⟩
  else
    let tagIndex := tagIndexOf buf msg
    match map.bind fun map => map tagIndex with
    | some tag => formatEvent buf msg (.inl tag) (eventOf buf) 0 messageBufLen out
    | none =>
        let tagLen := (generatedTag tagIndex).length
        let out := ((⟨0, messageBufLen.toNat, out⟩ : Sink).snprintf (generatedTag tagIndex)).out
        formatEvent buf msg (.inr 0) (eventOf buf) (tagLen + 1) (messageBufLen - (tagLen + 1)) out

end Entries

/-! ## What a conversion should leave -/

/-- Nothing is written outside of the buffer, the message is the string of `messageLen` bytes
in it, and the assertion holds. -/
structure StaysInside {α : Type*} (n : Nat) (out : Nat → UInt8) (r : BinaryRun α) : Prop where
  inside : ∀ i, n ≤ i → r.out i = out i
  message : ∀ e, r.entry = some e → e.message + e.messageLen < n ∧
    r.out (e.message + e.messageLen) = 0 ∧ ∀ i < e.messageLen, r.out (e.message + i) ≠ 0
  asserted : r.asserted = true

/-- The message starts at an offset `start` of a buffer of `n` bytes.  A byte is left for the
NUL, or the event is malformed from its start; a further one is left, or nothing is printed;
and the part of the text in front of the last byte has no NUL, or the event is malformed and its
text has room. -/
def EntryFits (n start : Nat) (R : Rendering) : Prop :=
  if n ≤ start then R.rest = none ∧ R.chunks = []
  else if n = start + 1 then R.chunks = [] ∨ ∃ text, R.chunks = [.raw text]
  else
    R.rest = none ∧ (textOf R.chunks).length ≤ n - start - 1 ∨
      ¬ NulBefore (n - start - 1) (textOf R.chunks)

/-- What the pieces of an event leave, with the NULs in it. -/
theorem shows {R : Rendering} (h : Renders R) (t : Sink) :
    ∃ u, Wrote t (feedAll R.chunks t).2 u ∧
      ((feedAll R.chunks t).1 = 0 ∧ (0 ∈ u ↔ NulBefore t.outBufLen (textOf R.chunks)) ∨
        (feedAll R.chunks t).1 = 1 ∧
          (0 ∈ u.dropLast ↔ NulBefore t.outBufLen (textOf R.chunks))) := by
  obtain hclosed | ⟨-, ⟨text, htext, hnul⟩ | ⟨text, htext⟩⟩ := h
  · obtain ⟨hr, hw, hn⟩ | ⟨hr, -, u, -, hw, hn⟩ := settled_of_closed hclosed t
    · exact ⟨_, hw, .inl ⟨hr, hn⟩⟩
    · exact ⟨u, hw, .inr ⟨hr, hn⟩⟩
  · rw [htext, feedAll_singleton, textOf_singleton]
    obtain ⟨hr, hroom, hw⟩ | ⟨hr, hfull, hw⟩ := number_spec t text
    · exact ⟨text, hw, .inl ⟨hr, (nulBefore_short hroom).symm⟩⟩
    · refine ⟨[], hw, .inr ⟨hr, iff_of_false List.not_mem_nil fun hn => ?_⟩⟩
      exact not_mem_dropLast_take hnul _ ((nulBefore_long hfull).mp hn)
  · rw [htext, feedAll_singleton, textOf_singleton]
    obtain ⟨hr, hroom, hw⟩ | ⟨hr, -, hfull, hw⟩ | ⟨hr, hzero, hstay⟩ := raw_spec t text
    · exact ⟨text, hw, .inl ⟨hr, (nulBefore_short hroom).symm⟩⟩
    · exact ⟨_, hw, .inr ⟨hr, (nulBefore_long hfull).symm⟩⟩
    · have hw : Wrote t (t.raw text).2 [] := hstay.symm ▸ Wrote.refl t
      refine ⟨[], hw, .inl ⟨hr, ?_⟩⟩
      rw [hzero]
      exact iff_of_false List.not_mem_nil (nulBefore_zero _)

/-- A malformed event that has room is put out as far as it goes. -/
theorem malformed_fed {R : Rendering} (h : Renders R) (hrest : R.rest = none) (t : Sink) :
    Closed R.chunks ∧
      ((feedAll R.chunks t).1 = 0 ↔ (textOf R.chunks).length ≤ t.outBufLen) := by
  obtain hclosed | ⟨hsome, -⟩ := h
  · refine ⟨hclosed, ?_⟩
    obtain ⟨hr, hw, -⟩ | ⟨hr, hlong, -⟩ := settled_of_closed hclosed t
    · exact iff_of_true hr hw.fits
    · refine iff_of_false (by rw [hr]; decide) (Nat.not_le.mpr hlong)
  · rw [hrest] at hsome
    cases hsome

/-! ## The end of the message -/

theorem storeAt_singleton (out : Nat → UInt8) (off i : Nat) (c : UInt8) :
    storeAt out off [c] i = if i = off then c else out i := by
  unfold storeAt
  by_cases h : i = off
  · rw [h, if_pos (Nat.le_refl _), if_pos rfl, Nat.sub_self]
    rfl
  · rw [if_neg h]
    split
    · rw [List.getD_eq_getElem?_getD, List.getElem?_eq_none, Option.getD_none]
      rw [List.length_singleton]
      omega
    · rfl

/-- The indicator replaces the last byte, or is the only one. -/
theorem wrote_leaveIndicator {s t : Sink} {u : List UInt8} (h : Wrote s t u)
    (hroom : 0 < s.outBufLen) (hsize : s.outBufLen < 2 ^ 32) :
    Wrote s (leaveIndicator s.outBuf t) (u.dropLast ++ [0x21]) := by
  have hcur := h.outBuf
  have hlen := h.outBufLen
  have hfits := h.fits
  unfold leaveIndicator
  rcases List.eq_nil_or_concat u with rfl | ⟨v, c, rfl⟩
  · have hsame : t.outBuf = s.outBuf := hcur
    have hleft : t.outBufLen = s.outBufLen := hlen
    rw [if_neg (by omega)]
    have hone : sizeT ((t.outBufLen : Int) - 1) = t.outBufLen - 1 := by
      unfold sizeT
      omega
    have hstored : Wrote t ((t.store [0x21]).advance 1) ([0x21] : List UInt8) :=
      wrote_store (Nat.le_refl _) (by rw [List.length_singleton]; omega)
    have hall := h.trans hstored
    rw [hone]
    exact hall
  · rw [List.concat_eq_append] at h hcur hlen hfits ⊢
    rw [List.dropLast_concat]
    rw [List.length_append, List.length_singleton] at hcur hlen hfits
    have hvlen : (v ++ [0x21]).length = v.length + 1 := List.length_append
    rw [if_pos (by omega)]
    refine ⟨?_, ?_, ?_, fun i hi => ?_, fun i hi => ?_⟩
    · omega
    · rw [hvlen]
      exact hcur
    · rw [hvlen]
      exact hlen
    · change _ = some (storeAt t.out (t.outBuf - 1) [0x21] (s.outBuf + i))
      rw [storeAt_singleton]
      rw [hvlen] at hi
      by_cases hlast : i = v.length
      · rw [if_pos (by omega), hlast, List.getElem?_concat_length]
      · have hstored := h.stored i (by rw [List.length_append, List.length_singleton]; omega)
        rw [List.getElem?_append_left (by omega)] at hstored
        rw [if_neg (by omega), List.getElem?_append_left (by omega), hstored]
    · change storeAt t.out (t.outBuf - 1) [0x21] i = s.out i
      rw [storeAt_singleton, if_neg (by omega), h.outside i hi]

/-- The run at the end of which the message is terminated. -/
def terminated {α : Type*} (buf : EntryHeader) (tag : α ⊕ Nat) (messageBuf : Nat)
    (messageBufLen : Int) (t : Sink) : BinaryRun α :=
  ⟨0, some
    { tvSec := buf.sec
      tvNsec := buf.nsec
      priority := ANDROID_LOG_INFO
      pid := buf.pid
      tid := buf.tid
      tag := tag
      messageLen := t.outBuf - messageBuf
      message := messageBuf },
    (t.store [0]).out, t.outBuf - messageBuf == sizeT (messageBufLen - 1 - t.outBufLen)⟩

/-- With a byte for the NUL behind the room, all is well if the text has no NUL itself. -/
theorem staysInside_terminated {α : Type*} {buf : EntryHeader} {tag : α ⊕ Nat} {n : Nat}
    {out : Nat → UInt8} {s t : Sink} {v : List UInt8} (h : Wrote s t v)
    (hn : s.outBuf + s.outBufLen + 1 = n) (hsmall : n < 2 ^ 31)
    (hout : ∀ i, n ≤ i → s.out i = out i) :
    StaysInside n out (terminated buf tag s.outBuf ((s.outBufLen + 1 : Nat) : Int) t) ↔
      0 ∉ v := by
  have hcur := h.outBuf
  have hlen := h.outBufLen
  have hfits := h.fits
  have hcount : t.outBuf - s.outBuf = v.length := by omega
  have hat (i : Nat) : (t.store [0]).out i = if i = t.outBuf then 0 else t.out i :=
    storeAt_singleton t.out t.outBuf i 0
  constructor
  · intro hstays hmem
    obtain ⟨i, hi, hzero⟩ := List.getElem_of_mem hmem
    obtain ⟨-, -, hnonzero⟩ := hstays.message _ rfl
    refine hnonzero i (hcount.symm ▸ hi) ?_
    change (t.store [0]).out (s.outBuf + i) = 0
    have hstored := h.stored i hi
    rw [List.getElem?_eq_getElem hi, hzero] at hstored
    rw [hat, if_neg (by omega), ← Option.some.inj hstored]
  · intro hnul
    refine ⟨fun i hi => ?_, fun e he => ?_, ?_⟩
    · change (t.store [0]).out i = out i
      rw [hat, if_neg (by omega), h.outside i (by omega), hout i hi]
    · obtain rfl := Option.some.inj he
      dsimp only
      rw [hcount]
      refine ⟨by omega, ?_, fun i hi hzero => hnul ?_⟩
      · change (t.store [0]).out (s.outBuf + v.length) = 0
        rw [hat, if_pos hcur.symm]
      · change (t.store [0]).out (s.outBuf + i) = 0 at hzero
        rw [hat, if_neg (by omega)] at hzero
        have hstored := h.stored i hi
        rw [hzero] at hstored
        exact List.mem_of_getElem? hstored
    · change (t.outBuf - s.outBuf == sizeT (((s.outBufLen + 1 : Nat) : Int) - 1 - t.outBufLen)) =
        true
      have hsize : sizeT (((s.outBufLen + 1 : Nat) : Int) - 1 - t.outBufLen) = v.length := by
        unfold sizeT
        omega
      rw [hcount, hsize]
      exact beq_self_eq_true _

/-! ## The conversion -/

section Conversion

variable {α : Type*} {buf : EntryHeader} {msg : Nat → UInt8} {tag : α ⊕ Nat} {data : Source}

/-- The text of an event, whatever the buffer. -/
def eventText (msg : Nat → UInt8) (data : Source) : Rendering := rendering (data.data msg)

/-- The run of `formatEvent` after the printer. -/
def afterEvent (buf : EntryHeader) (tag : α ⊕ Nat) (messageBuf : Nat) (messageBufLen : Int)
    (result : Int) (t : Sink) : BinaryRun α :=
  if result < 0 then ⟨-1, none, t.out, true⟩
  else terminated buf tag messageBuf messageBufLen
    (if result = 1 then leaveIndicator messageBuf t else t)

theorem formatEvent_eq (buf : EntryHeader) (msg : Nat → UInt8) (tag : α ⊕ Nat) (data : Source)
    (messageBuf : Nat) (messageBufLen : Int) (out : Nat → UInt8) :
    formatEvent buf msg tag data messageBuf messageBufLen out =
      some (afterEvent buf tag messageBuf messageBufLen
        (outcome (eventText msg data) ⟨messageBuf, sizeT (messageBufLen - 1), out⟩)
        (feedAll (eventText msg data).chunks
          ⟨messageBuf, sizeT (messageBufLen - 1), out⟩).2) := by
  obtain ⟨p, hp, hprints⟩ := prints_event msg (data.eventDataLen + 1) data
    ⟨messageBuf, sizeT (messageBufLen - 1), out⟩ (Nat.lt_succ_self _)
  have hR : render (data.eventDataLen + 1) (data.data msg) = eventText msg data := by
    unfold eventText rendering
    rw [data.length_data msg]
  rw [hR] at hprints
  have hcall : printBinaryEvent msg data ⟨messageBuf, sizeT (messageBufLen - 1), out⟩ =
      some p := hp
  unfold formatEvent
  rw [hcall, Option.map_some, ← hprints.result, ← hprints.sink]
  rfl

theorem renders_eventText (msg : Nat → UInt8) (data : Source) : Renders (eventText msg data) :=
  renders _ _

/-- The call fails for an event that is malformed and whose text has room. -/
theorem outcome_neg {R : Rendering} {t : Sink} :
    outcome R t < 0 ↔ (feedAll R.chunks t).1 = 0 ∧ R.rest = none := by
  unfold outcome
  obtain hzero | hone := feedAll_result R.chunks t
  · rw [if_pos hzero]
    cases hrest : R.rest with
    | none => exact iff_of_true (by decide) ⟨hzero, rfl⟩
    | some rest => exact iff_of_false (by simp) fun h => by cases h.2
  · rw [hone]
    exact iff_of_false (by simp) fun h => absurd h.1 (by decide)

/-- A call that fails keeps to the buffer if the printer does. -/
theorem staysInside_failed {n : Nat} {out out' : Nat → UInt8}
    (h : ∀ i, n ≤ i → out' i = out i) :
    StaysInside n out (⟨-1, none, out', true⟩ : BinaryRun α) :=
  ⟨h, fun e he => (by cases he), rfl⟩

/-- A byte for the NUL and another one. -/
theorem afterEvent_roomy {R : Rendering} (hR : Renders R) {n start : Nat} {out : Nat → UInt8}
    {s : Sink} (hstart : s.outBuf = start) (hroom : start + s.outBufLen + 1 = n)
    (hpos : 0 < s.outBufLen) (hsmall : n < 2 ^ 31) (hout : ∀ i, n ≤ i → s.out i = out i) :
    StaysInside n out (afterEvent buf tag start ((s.outBufLen + 1 : Nat) : Int) (outcome R s)
        (feedAll R.chunks s).2) ↔
      R.rest = none ∧ (textOf R.chunks).length ≤ s.outBufLen ∨
        ¬ NulBefore s.outBufLen (textOf R.chunks) := by
  subst hstart
  obtain ⟨u, hw, hnul⟩ := shows hR s
  unfold afterEvent
  by_cases hneg : outcome R s < 0
  · rw [if_pos hneg]
    obtain ⟨hzero, hrest⟩ := outcome_neg.mp hneg
    refine iff_of_true (staysInside_failed fun i hi => ?_)
      (.inl ⟨hrest, (malformed_fed hR hrest s).2.mp hzero⟩)
    rw [hw.outside i (by omega), hout i hi]
  · rw [if_neg hneg]
    have hmalformed : ¬ (R.rest = none ∧ (textOf R.chunks).length ≤ s.outBufLen) := by
      rintro ⟨hrest, hfits⟩
      exact hneg (outcome_neg.mpr ⟨(malformed_fed hR hrest s).2.mpr hfits, hrest⟩)
    rw [or_iff_right hmalformed]
    obtain ⟨hzero, hnul⟩ | ⟨hone, hnul⟩ := hnul
    · have hresult : outcome R s ≠ 1 := by
        unfold outcome
        rw [if_pos hzero]
        split <;> decide
      rw [if_neg hresult, staysInside_terminated hw hroom hsmall hout, hnul]
    · have hresult : outcome R s = 1 := by
        unfold outcome
        rw [if_neg (by rw [hone]; decide), hone]
      have hw' := wrote_leaveIndicator hw hpos (by omega)
      rw [if_pos hresult, staysInside_terminated hw' hroom hsmall hout, ← hnul,
        List.mem_append, List.mem_singleton, or_iff_left (by decide)]

/-- Without any room only strings are passed over. -/
theorem feedAll_noRoom {R : Rendering} (hR : Renders R) {s : Sink} (hroom : s.outBufLen = 0) :
    (feedAll R.chunks s).1 = 0 ↔ R.chunks = [] ∨ ∃ text, R.chunks = [.raw text] := by
  have hmark (c : UInt8) : (Chunk.mark c).feed s = (1, s) := if_neg (by omega)
  have hnumber (text : List UInt8) : ((Chunk.number text).feed s).1 = 1 := by
    obtain ⟨-, hlt, -⟩ | ⟨hone, -, -⟩ := number_spec s text
    · omega
    · exact hone
  have hraw (text : List UInt8) :
      ((Chunk.raw text).feed s).1 = 0 ∧ ((Chunk.raw text).feed s).2 = s := by
    obtain ⟨-, hlt, -⟩ | ⟨-, hpos, -⟩ | ⟨hzero, -, hstay⟩ := raw_spec s text
    · omega
    · omega
    · exact ⟨hzero, hstay⟩
  obtain hclosed | ⟨-, ⟨text, htext, -⟩ | ⟨text, htext⟩⟩ := hR
  · generalize R.chunks = chunks at hclosed ⊢
    cases hclosed with
    | nil => exact iff_of_true rfl (.inl rfl)
    | mark => simp [feedAll, hmark]
    | number => simp [feedAll, hnumber]
    | raw => simp [feedAll, hraw, hmark]
  · rw [htext, feedAll_singleton]
    simp [hnumber]
  · rw [htext, feedAll_singleton]
    simp [hraw]

/-- A byte for the NUL only. -/
theorem afterEvent_tight {R : Rendering} (hR : Renders R) {n : Nat} {out : Nat → UInt8} {s : Sink}
    (hroom : s.outBufLen = 0) (hn : s.outBuf + 1 = n) (hsmall : n < 2 ^ 31)
    (hout : ∀ i, n ≤ i → s.out i = out i) :
    StaysInside n out (afterEvent buf tag s.outBuf ((s.outBufLen + 1 : Nat) : Int) (outcome R s)
        (feedAll R.chunks s).2) ↔ R.chunks = [] ∨ ∃ text, R.chunks = [.raw text] := by
  rw [← feedAll_noRoom hR hroom]
  obtain ⟨u, hw, -⟩ := shows hR s
  have hu : u = [] := List.length_eq_zero_iff.mp (by have := hw.fits; omega)
  subst hu
  unfold afterEvent
  obtain hzero | hone := feedAll_result R.chunks s
  · refine iff_of_true ?_ hzero
    by_cases hneg : outcome R s < 0
    · rw [if_pos hneg]
      refine staysInside_failed fun i hi => ?_
      rw [hw.outside i (by omega), hout i hi]
    · have hresult : outcome R s ≠ 1 := by
        unfold outcome
        rw [if_pos hzero]
        split <;> decide
      rw [if_neg hneg, if_neg hresult,
        staysInside_terminated hw (by omega) hsmall hout]
      exact List.not_mem_nil
  · have hne : (feedAll R.chunks s).1 ≠ 0 := by
      rw [hone]
      decide
    have hresult : outcome R s = 1 := by
      unfold outcome
      rw [if_neg hne, hone]
    refine iff_of_false ?_ hne
    rw [hresult, if_neg (by decide), if_pos rfl]
    intro hstays
    have hend := (hstays.message _ rfl).1
    have hcur : (feedAll R.chunks s).2.outBuf = s.outBuf := hw.outBuf
    have hplaced : (leaveIndicator s.outBuf (feedAll R.chunks s).2).outBuf = s.outBuf + 1 := by
      unfold leaveIndicator
      rw [if_neg (by omega), hcur]
    dsimp only at hend
    omega

/-- No byte for the NUL. -/
theorem afterEvent_outside {R : Rendering} (hR : Renders R) {n : Nat} {out : Nat → UInt8}
    {s : Sink} {messageBufLen : Int} (hn : n ≤ s.outBuf)
    (hstays : StaysInside n out (afterEvent buf tag s.outBuf messageBufLen (outcome R s)
      (feedAll R.chunks s).2)) :
    R.rest = none ∧ (R.chunks = [] ∨ (textOf R.chunks)[0]? = some (out s.outBuf)) := by
  unfold afterEvent at hstays
  by_cases hneg : outcome R s < 0
  · rw [if_pos hneg] at hstays
    obtain ⟨hzero, hrest⟩ := outcome_neg.mp hneg
    obtain ⟨hclosed, -⟩ := malformed_fed hR hrest s
    refine ⟨hrest, ?_⟩
    obtain ⟨-, hw, -⟩ | ⟨hone, -⟩ := settled_of_closed hclosed s
    · by_cases hempty : R.chunks = []
      · exact .inl hempty
      · have hpos : 0 < (textOf R.chunks).length := by
          generalize R.chunks = chunks at hclosed hempty ⊢
          cases hclosed with
          | nil => exact absurd rfl hempty
          | mark => exact Nat.succ_pos _
          | number => exact Nat.zero_lt_of_lt (length_textOf_two _ _ _)
          | raw => exact Nat.zero_lt_of_lt (length_textOf_two _ _ _)
        have hstored := hw.stored 0 hpos
        rw [Nat.add_zero] at hstored
        have hkept := hstays.inside s.outBuf hn
        dsimp only at hkept
        rw [hkept] at hstored
        exact .inr hstored
    · rw [hzero] at hone
      cases hone
  · rw [if_neg hneg] at hstays
    have hend := (hstays.message _ rfl).1
    dsimp only at hend
    omega

/-- What follows the printer decides whether the call stays inside. -/
theorem formatEvent_stays {n start : Nat} {len : Int} {out out' : Nat → UInt8} :
    (∃ r, formatEvent buf msg tag data start len out' = some r ∧ StaysInside n out r) ↔
      StaysInside n out (afterEvent buf tag start len
        (outcome (eventText msg data) ⟨start, sizeT (len - 1), out'⟩)
        (feedAll (eventText msg data).chunks ⟨start, sizeT (len - 1), out'⟩).2) := by
  rw [formatEvent_eq]
  exact ⟨fun ⟨_, hr, hstays⟩ => Option.some.inj hr ▸ hstays, fun hstays => ⟨_, rfl, hstays⟩⟩

/-- With no byte left for the message, only an event that is malformed before anything is printed
stays inside, whatever the memory. -/
theorem afterEvent_outside_iff {R : Rendering} (hR : Renders R) {n start size : Nat} {len : Int}
    {tagged : (Nat → UInt8) → Nat → UInt8} (htagged : ∀ out i, n ≤ i → tagged out i = out i)
    (houtside : n ≤ start) :
    (∀ out, StaysInside n out (afterEvent buf tag start len
        (outcome R ⟨start, size, tagged out⟩) (feedAll R.chunks ⟨start, size, tagged out⟩).2)) ↔
      R.rest = none ∧ R.chunks = [] := by
  constructor
  · intro hall
    obtain ⟨hrest, hzero⟩ := afterEvent_outside hR (s := ⟨start, _, _⟩) houtside (hall fun _ => 0)
    obtain ⟨-, hone⟩ := afterEvent_outside hR (s := ⟨start, _, _⟩) houtside (hall fun _ => 1)
    refine ⟨hrest, hzero.elim id fun hzero => hone.elim id fun hone => ?_⟩
    exact absurd (Option.some.inj (hzero.symm.trans hone)) (by decide)
  · rintro ⟨hrest, hempty⟩ out
    have hneg : outcome R ⟨start, size, tagged out⟩ < 0 :=
      outcome_neg.mpr ⟨by rw [hempty]; rfl, hrest⟩
    unfold afterEvent
    rw [if_pos hneg, hempty]
    exact staysInside_failed (htagged out)

/-- The formatting of an event into the part of a buffer behind its tag. -/
theorem formatEvent_iff {n : Nat} (start : Nat) (hsmall : n < 2 ^ 31)
    {tagged : (Nat → UInt8) → Nat → UInt8}
    (htagged : ∀ out i, n ≤ i → tagged out i = out i) :
    (∀ out, ∃ r,
        formatEvent buf msg tag data start ((n : Int) - start) (tagged out) = some r ∧
          StaysInside n out r) ↔ EntryFits n start (eventText msg data) := by
  have hR := renders_eventText msg data
  rw [forall_congr' fun _ => formatEvent_stays]
  unfold EntryFits
  by_cases houtside : n ≤ start
  · rw [if_pos houtside]
    exact afterEvent_outside_iff hR htagged houtside
  · rw [if_neg houtside]
    obtain ⟨room, rfl⟩ : ∃ room, n = start + room + 1 := ⟨n - start - 1, by omega⟩
    have hremaining : ((start + room + 1 : Nat) : Int) - start = ((room + 1 : Nat) : Int) := by
      omega
    have hsize : sizeT (((room + 1 : Nat) : Int) - 1) = room := by
      unfold sizeT
      omega
    have hsub : start + room + 1 - start - 1 = room := by omega
    rw [hremaining, hsize, hsub]
    by_cases htight : start + room + 1 = start + 1
    · obtain rfl : room = 0 := by omega
      rw [if_pos htight]
      refine (forall_congr' fun out => ?_).trans (forall_const _)
      exact afterEvent_tight hR (s := ⟨start, 0, tagged out⟩) rfl rfl hsmall (htagged out)
    · rw [if_neg htight]
      refine (forall_congr' fun out => ?_).trans (forall_const _)
      exact afterEvent_roomy hR (s := ⟨start, room, tagged out⟩) rfl rfl (by dsimp only; omega)
        hsmall (htagged out)

end Conversion

/-- Whatever the buffer contains, the conversion returns and keeps to it. -/
def NeverOverflows {α : Type*} (buf : EntryHeader) (msg : Nat → UInt8)
    (map : Option (Int → Option α)) (n : Nat) : Prop :=
  ∀ out, ∃ r, processBinaryLogBuffer buf msg map n out = some r ∧ StaysInside n out r

/-- Where the message starts: behind the tag if that is generated. -/
def messageStart {α : Type*} (buf : EntryHeader) (msg : Nat → UInt8)
    (map : Option (Int → Option α)) : Nat :=
  match map.bind fun map => map (tagIndexOf buf msg) with
  | some _ => 0
  | none => (generatedTag (tagIndexOf buf msg)).length + 1

/-- `snprintf` keeps to the size that it is given. -/
theorem snprintf_outside (s : Sink) (text : List UInt8) {i : Nat}
    (hi : s.outBuf + s.outBufLen ≤ i) : (s.snprintf text).out i = s.out i := by
  have hsame : (s.number text).2.out = (s.snprintf text).out := by
    unfold Sink.number
    dsimp only
    split <;> rfl
  rw [← hsame]
  obtain ⟨-, -, hw⟩ | ⟨-, -, hw⟩ := number_spec s text
  · exact hw.outside i (.inr hi)
  · exact hw.outside i (.inr hi)

/-- The conversion keeps to its buffer exactly when the entry is too short for a tag or fits
behind its tag. -/
theorem neverOverflows_iff {α : Type*} (buf : EntryHeader) (msg : Nat → UInt8)
    (map : Option (Int → Option α)) {n : Nat} (hpos : 1 ≤ n) (hsmall : n < 2 ^ 31) :
    NeverOverflows buf msg map n ↔
      buf.len.toNat < 4 ∨
        EntryFits n (messageStart buf msg map) (eventText msg (eventOf buf)) := by
  unfold NeverOverflows processBinaryLogBuffer messageStart
  by_cases hshort : buf.len.toNat < 4
  · refine iff_of_true (fun out => ?_) (.inl hshort)
    rw [if_pos hshort]
    exact ⟨_, rfl, staysInside_failed fun _ _ => rfl⟩
  · rw [or_iff_right hshort]
    simp only [if_neg hshort]
    cases map.bind fun map => map (tagIndexOf buf msg) with
    | some tag =>
        have hiff : (∀ out, ∃ r,
            formatEvent buf msg (.inl tag) (eventOf buf) 0 ((n : Int) - (0 : Nat)) (id out) =
              some r ∧ StaysInside n out r) ↔
            EntryFits n 0 (eventText msg (eventOf buf)) :=
          formatEvent_iff 0 hsmall fun _ _ _ => rfl
        rw [Int.natCast_zero, Int.sub_zero] at hiff
        exact hiff
    | none =>
        have htagged (out : Nat → UInt8) (i : Nat) (hi : n ≤ i) :
            ((⟨0, (n : Int).toNat, out⟩ : Sink).snprintf
              (generatedTag (tagIndexOf buf msg))).out i = out i :=
          snprintf_outside _ _ (by dsimp only; omega)
        exact formatEvent_iff ((generatedTag (tagIndexOf buf msg)).length + 1) hsmall htagged

/-- The number 0 under a tag of the map, for a buffer of three bytes. -/
theorem neverOverflows_number :
    NeverOverflows ⟨9, 0, 0, 0, 0⟩ (fun _ => 0) (some fun _ => some ()) 3 := by
  refine (neverOverflows_iff _ _ _ (by decide) (by decide)).mpr (.inr ?_)
  change EntryFits 3 0 _
  unfold EntryFits
  rw [if_neg (by decide), if_neg (by decide)]
  refine .inr ?_
  unfold NulBefore
  decide

/-- The same entry for a buffer of one byte. -/
theorem one_byte_overflows :
    ¬ NeverOverflows ⟨9, 0, 0, 0, 0⟩ (fun _ => 0) (some fun _ => some ()) 1 := by
  intro h
  obtain ⟨r, hr, hstays⟩ := h fun _ => 1
  have hrun : (processBinaryLogBuffer ⟨9, 0, 0, 0, 0⟩ (fun _ => 0) (some fun _ => some ())
      ((1 : Nat) : Int) fun _ => 1).map (fun r => r.out 1) = some 0 := by decide
  rw [hr, Option.map_some, hstays.inside 1 (Nat.le_refl 1)] at hrun
  exact absurd hrun (by decide)

end Logcat
end AndroidLinux
