import AndroidLinux.Logcat.EventFormat
import AndroidLinux.Logcat.BinaryText

/-!
# The output of a binary event

What the pieces leave in the memory of the output, and when the printer does what it promises:
0 for an event that is written whole, 1 for one whose text has no room.
-/

namespace AndroidLinux
namespace Logcat

/-- A text has been written at the cursor, and nothing outside of the room. -/
structure Wrote (s s' : Sink) (text : List UInt8) : Prop where
  fits : text.length ≤ s.outBufLen
  outBuf : s'.outBuf = s.outBuf + text.length
  outBufLen : s'.outBufLen = s.outBufLen - text.length
  stored : ∀ i < text.length, text[i]? = some (s'.out (s.outBuf + i))
  outside : ∀ i, i < s.outBuf ∨ s.outBuf + s.outBufLen ≤ i → s'.out i = s.out i

theorem Wrote.refl (s : Sink) : Wrote s s [] :=
  ⟨Nat.zero_le _, rfl, rfl, fun _ hi => absurd hi (Nat.not_lt_zero _), fun _ _ => rfl⟩

theorem Wrote.trans {a b c : Sink} {t u : List UInt8} (hab : Wrote a b t) (hbc : Wrote b c u) :
    Wrote a c (t ++ u) := by
  have hfits := hab.fits
  have hfits' := hbc.fits
  have hcur := hab.outBuf
  have hlen := hab.outBufLen
  refine ⟨?_, ?_, ?_, ?_, ?_⟩
  · rw [List.length_append]
    omega
  · rw [hbc.outBuf, hcur, List.length_append, Nat.add_assoc]
  · rw [hbc.outBufLen, hlen, List.length_append, Nat.sub_sub]
  · intro i hi
    rw [List.length_append] at hi
    by_cases hfirst : i < t.length
    · rw [List.getElem?_append_left hfirst, hab.stored i hfirst, hbc.outside _ (by omega)]
    · rw [List.getElem?_append_right (by omega), hbc.stored _ (by omega)]
      congr 2
      omega
  · intro i hi
    rw [hbc.outside i (by omega), hab.outside i hi]

/-- Of the bytes that are stored the first ones are put in front of the cursor. -/
theorem wrote_store {s : Sink} {bs : List UInt8} {n : Nat} (hn : n ≤ bs.length)
    (hfits : bs.length ≤ s.outBufLen) : Wrote s ((s.store bs).advance n) (bs.take n) := by
  have hlen : (bs.take n).length = n := List.length_take_of_le hn
  refine ⟨?_, ?_, ?_, ?_, ?_⟩
  · omega
  · rw [hlen]
    rfl
  · rw [hlen]
    rfl
  · intro i hi
    rw [hlen] at hi
    change _ = some (storeAt s.out s.outBuf bs (s.outBuf + i))
    unfold storeAt
    rw [if_pos (Nat.le_add_right _ _), Nat.add_sub_cancel_left, List.getElem?_take_of_lt hi,
      List.getD_eq_getElem?_getD, List.getElem?_eq_getElem (by omega), Option.getD_some]
  · intro i hi
    change storeAt s.out s.outBuf bs i = _
    unfold storeAt
    split
    · rw [List.getD_eq_getElem?_getD, List.getElem?_eq_none (by omega), Option.getD_none]
    · rfl

/-! ## One piece -/

/-- `snprintf` stores the text if a NUL fits behind it. -/
theorem number_spec (s : Sink) (text : List UInt8) :
    (s.number text).1 = 0 ∧ text.length < s.outBufLen ∧ Wrote s (s.number text).2 text ∨
      (s.number text).1 = 1 ∧ s.outBufLen ≤ text.length ∧ Wrote s (s.number text).2 [] := by
  unfold Sink.number
  dsimp only
  split
  · rename_i hlt
    refine .inl ⟨rfl, hlt, ?_⟩
    have hne : s.outBufLen ≠ 0 := by omega
    have htake : text.take (s.outBufLen - 1) = text := List.take_of_length_le (by omega)
    unfold Sink.snprintf
    rw [if_neg hne, htake]
    have hwrote : Wrote s ((s.store (text ++ [0])).advance text.length)
        ((text ++ [0]).take text.length) :=
      wrote_store (by rw [List.length_append]; omega)
        (by rw [List.length_append, List.length_singleton]; omega)
    rwa [List.take_left] at hwrote
  · rename_i hge
    refine .inr ⟨rfl, Nat.not_lt.mp hge, ?_⟩
    unfold Sink.snprintf
    split
    · exact Wrote.refl s
    · have hlen : (text.take (s.outBufLen - 1) ++ [0]).length ≤ s.outBufLen := by
        rw [List.length_append, List.length_take, List.length_singleton]
        omega
      exact wrote_store (Nat.zero_le _) hlen

/-- A string has to be shorter than the room, and is dropped when there is none. -/
theorem raw_spec (s : Sink) (text : List UInt8) :
    (s.raw text).1 = 0 ∧ text.length < s.outBufLen ∧ Wrote s (s.raw text).2 text ∨
      (s.raw text).1 = 1 ∧ 0 < s.outBufLen ∧ s.outBufLen ≤ text.length ∧
        Wrote s (s.raw text).2 (text.take s.outBufLen) ∨
      (s.raw text).1 = 0 ∧ s.outBufLen = 0 ∧ (s.raw text).2 = s := by
  unfold Sink.raw
  dsimp only
  split
  · rename_i hlt
    have hwrote : Wrote s ((s.store text).advance text.length) (text.take text.length) :=
      wrote_store (Nat.le_refl _) (Nat.le_of_lt hlt)
    rw [List.take_length] at hwrote
    exact .inl ⟨rfl, hlt, hwrote⟩
  · rename_i hge
    split
    · rename_i hpos
      have hlen : (text.take s.outBufLen).length = s.outBufLen :=
        List.length_take_of_le (Nat.not_lt.mp hge)
      have hwrote : Wrote s ((s.store (text.take s.outBufLen)).advance s.outBufLen)
          ((text.take s.outBufLen).take s.outBufLen) :=
        wrote_store (Nat.le_of_eq hlen.symm) (Nat.le_of_eq hlen)
      rw [List.take_take, Nat.min_self] at hwrote
      exact .inr (.inl ⟨rfl, hpos, Nat.not_lt.mp hge, hwrote⟩)
    · rename_i hzero
      exact .inr (.inr ⟨rfl, Nat.eq_zero_of_not_pos hzero, rfl⟩)

theorem mark_spec (s : Sink) (c : UInt8) :
    (s.mark c).1 = 0 ∧ 0 < s.outBufLen ∧ Wrote s (s.mark c).2 [c] ∨
      (s.mark c).1 = 1 ∧ s.outBufLen = 0 ∧ (s.mark c).2 = s := by
  unfold Sink.mark
  split
  · rename_i hpos
    exact .inl ⟨rfl, hpos, wrote_store (Nat.le_refl [c].length) hpos⟩
  · rename_i hzero
    exact .inr ⟨rfl, Nat.eq_zero_of_not_pos hzero, rfl⟩

/-! ## The pieces of a list -/

/-- A NUL in the part of a text that is in front of the last byte of the room. -/
def NulBefore (room : Nat) (text : List UInt8) : Prop := 0 ∈ text.take (room - 1)

/-- The whole text is written and the result is 0, or a first part of it is all that is written
and the result is 1.  The last byte of that part is going to be replaced. -/
def Settled (text : List UInt8) (s : Sink) (r : Int × Sink) : Prop :=
  r.1 = 0 ∧ Wrote s r.2 text ∧ (0 ∈ text ↔ NulBefore s.outBufLen text) ∨
    r.1 = 1 ∧ s.outBufLen < text.length ∧ ∃ t, t <+: text ∧ Wrote s r.2 t ∧
      (0 ∈ t.dropLast ↔ NulBefore s.outBufLen text)

/-- A mark stands behind each number and each string, and only strings have a NUL. -/
inductive Closed : List Chunk → Prop
  | nil : Closed []
  | mark {c : UInt8} {cs : List Chunk} : c ≠ 0 → Closed cs → Closed (.mark c :: cs)
  | number {text : List UInt8} {c : UInt8} {cs : List Chunk} :
      0 ∉ text → c ≠ 0 → Closed cs → Closed (.number text :: .mark c :: cs)
  | raw (text : List UInt8) {c : UInt8} {cs : List Chunk} :
      c ≠ 0 → Closed cs → Closed (.raw text :: .mark c :: cs)

theorem Closed.append {a b : List Chunk} (ha : Closed a) (hb : Closed b) : Closed (a ++ b) := by
  induction ha with
  | nil => exact hb
  | mark hc _ ih => exact .mark hc ih
  | number htext hc _ ih => exact .number htext hc ih
  | raw text hc _ ih => exact .raw text hc ih

/-- A text that ends with another byte is in front of the last byte of the room, or ends with
it. -/
theorem nulBefore_append {a t : List UInt8} {c : UInt8} {room : Nat} (hc : c ≠ 0)
    (hroom : a.length < room) :
    NulBefore room (a ++ c :: t) ↔ 0 ∈ a ∨ NulBefore (room - (a.length + 1)) t := by
  unfold NulBefore
  rw [List.take_append, List.mem_append, List.take_of_length_le (by omega)]
  refine or_congr_right ?_
  obtain ⟨k, hk⟩ : ∃ k, room = a.length + 1 + k := ⟨room - (a.length + 1), by omega⟩
  rw [hk, Nat.add_sub_cancel_left]
  cases k with
  | zero =>
      have hzero : a.length + 1 + 0 - 1 - a.length = 0 := by omega
      rw [hzero, Nat.zero_sub, List.take_zero, List.take_zero]
  | succ k =>
      have hsucc : a.length + 1 + (k + 1) - 1 - a.length = k + 1 := by omega
      rw [hsucc, List.take_succ_cons, List.mem_cons, or_iff_right (Ne.symm hc),
        Nat.add_sub_cancel]

theorem mem_dropLast_append {a t : List UInt8} {c : UInt8} (hc : c ≠ 0) :
    0 ∈ (a ++ c :: t).dropLast ↔ 0 ∈ a ∨ 0 ∈ t.dropLast := by
  rw [List.dropLast_append_cons, List.mem_append]
  refine or_congr_right ?_
  cases t with
  | nil => exact Iff.rfl
  | cons d t =>
      rw [List.dropLast_cons_of_ne_nil (List.cons_ne_nil d t), List.mem_cons,
        or_iff_right (Ne.symm hc)]

/-- What follows a text that is written whole, with a mark at its end, is settled on its
own. -/
theorem Settled.block {chunks cs : List Chunk} {a : List UInt8} {c : UInt8} {s s' : Sink}
    (hc : c ≠ 0) (hwrote : Wrote s s' (a ++ [c])) (hfed : feedAll chunks s = feedAll cs s')
    (htext : textOf chunks = a ++ c :: textOf cs)
    (h : Settled (textOf cs) s' (feedAll cs s')) :
    Settled (textOf chunks) s (feedAll chunks s) := by
  have hlen : (a ++ [c]).length = a.length + 1 := List.length_append
  have hfits := hwrote.fits
  have hroom := hwrote.outBufLen
  have hsplit : ∀ t : List UInt8, a ++ [c] ++ t = a ++ c :: t := fun t => by
    rw [List.append_assoc, List.singleton_append]
  have hbefore : NulBefore s.outBufLen (a ++ c :: textOf cs) ↔
      0 ∈ a ∨ NulBefore s'.outBufLen (textOf cs) := by
    rw [hroom, hlen]
    exact nulBefore_append hc (by omega)
  rw [hfed, htext]
  obtain ⟨hr, hw, hnul⟩ | ⟨hr, hlong, t, ht, hw, hnul⟩ := h
  · have hall := hwrote.trans hw
    rw [hsplit] at hall
    refine .inl ⟨hr, hall, ?_⟩
    rw [hbefore, List.mem_append, List.mem_cons, or_iff_right (Ne.symm hc), hnul]
  · have hall := hwrote.trans hw
    rw [hsplit] at hall
    refine .inr ⟨hr, ?_, a ++ c :: t, ?_, hall, ?_⟩
    · rw [List.length_append, List.length_cons]
      omega
    · exact (List.prefix_append_right_inj _).mpr (List.cons_prefix_cons.mpr ⟨rfl, ht⟩)
    · rw [mem_dropLast_append hc, hbefore, hnul]

/-- A piece that stops the output. -/
theorem Settled.stop {c : Chunk} {cs : List Chunk} {s : Sink} {t : List UInt8}
    (hone : (c.feed s).1 = 1) (hwrote : Wrote s (c.feed s).2 t) (hfirst : t <+: c.text)
    (hlong : s.outBufLen < (textOf (c :: cs)).length)
    (hnul : 0 ∈ t.dropLast ↔ NulBefore s.outBufLen (textOf (c :: cs))) :
    Settled (textOf (c :: cs)) s (feedAll (c :: cs) s) := by
  have htext : textOf (c :: cs) = c.text ++ textOf cs := List.flatMap_cons
  have hne : (c.feed s).1 ≠ 0 := by
    rw [hone]
    decide
  rw [feedAll, if_neg hne]
  refine .inr ⟨hone, hlong, t, ?_, hwrote, hnul⟩
  rw [htext]
  exact hfirst.trans (List.prefix_append _ _)

theorem textOf_mark (c : UInt8) (cs : List Chunk) : textOf (.mark c :: cs) = c :: textOf cs :=
  List.flatMap_cons

theorem textOf_two (a : Chunk) (c : UInt8) (cs : List Chunk) :
    textOf (a :: .mark c :: cs) = a.text ++ c :: textOf cs :=
  List.flatMap_cons

theorem length_textOf_two (a : Chunk) (c : UInt8) (cs : List Chunk) :
    a.text.length < (textOf (a :: .mark c :: cs)).length := by
  rw [textOf_two, List.length_append, List.length_cons]
  omega

/-- A piece that leaves room, and the mark behind it. -/
theorem Settled.pair {a : Chunk} {c : UInt8} {cs : List Chunk} {s : Sink} (hc : c ≠ 0)
    (hzero : (a.feed s).1 = 0) (hroom : a.text.length < s.outBufLen)
    (hwrote : Wrote s (a.feed s).2 a.text) (ih : ∀ s, Settled (textOf cs) s (feedAll cs s)) :
    Settled (textOf (a :: .mark c :: cs)) s (feedAll (a :: .mark c :: cs) s) := by
  have hlen := hwrote.outBufLen
  obtain ⟨hr, -, hw⟩ | ⟨-, hfull, -⟩ := mark_spec (a.feed s).2 c
  · have hmark : ((Chunk.mark c).feed (a.feed s).2).1 = 0 := hr
    refine Settled.block hc (hwrote.trans hw) ?_ (textOf_two a c cs) (ih _)
    rw [feedAll, if_pos hzero, feedAll, if_pos hmark]
    rfl
  · omega

/-- Where there is no room the text that counts is empty. -/
theorem nulBefore_zero (text : List UInt8) : ¬ NulBefore 0 text := by
  unfold NulBefore
  rw [Nat.zero_sub, List.take_zero]
  exact List.not_mem_nil

/-- A text of which the room is not more than a first part. -/
theorem nulBefore_first {room : Nat} {text : List UInt8} (h : room ≤ text.length)
    (rest : List UInt8) :
    NulBefore room (text ++ rest) ↔ 0 ∈ (text.take room).dropLast := by
  unfold NulBefore
  rw [List.take_append_of_le_length (by omega), List.dropLast_eq_take, List.take_take,
    List.length_take_of_le h, Nat.min_eq_left (Nat.sub_le _ _)]

theorem not_mem_dropLast_take {text : List UInt8} (htext : 0 ∉ text) (room : Nat) :
    0 ∉ (text.take room).dropLast := fun h =>
  htext ((List.take_subset _ _) ((List.dropLast_subset _) h))

/-- The output of pieces that are closed is settled. -/
theorem settled_of_closed {cs : List Chunk} (h : Closed cs) (s : Sink) :
    Settled (textOf cs) s (feedAll cs s) := by
  induction h generalizing s with
  | nil => exact .inl ⟨rfl, Wrote.refl s, by simp [NulBefore, textOf]⟩
  | @mark c cs hc _ ih =>
      obtain ⟨hr, -, hw⟩ | ⟨hr, hfull, hstay⟩ := mark_spec s c
      · have hmark : ((Chunk.mark c).feed s).1 = 0 := hr
        refine Settled.block (a := []) hc hw ?_ (textOf_mark c cs) (ih _)
        rw [feedAll, if_pos hmark]
        rfl
      · have hw : Wrote s (s.mark c).2 [] := hstay.symm ▸ Wrote.refl s
        refine Settled.stop (c := .mark c) hr hw List.nil_prefix ?_ ?_
        · rw [hfull]
          exact Nat.succ_pos _
        · rw [hfull]
          exact iff_of_false List.not_mem_nil (nulBefore_zero _)
  | @number text c cs htext hc _ ih =>
      obtain ⟨hr, hroom, hw⟩ | ⟨hr, hfull, hw⟩ := number_spec s text
      · exact Settled.pair (a := .number text) hc hr hroom hw ih
      · refine Settled.stop (c := .number text) hr hw List.nil_prefix
          (Nat.lt_of_le_of_lt hfull (length_textOf_two (.number text) c cs)) ?_
        rw [textOf_two]
        refine iff_of_false List.not_mem_nil fun hnul => ?_
        exact not_mem_dropLast_take htext _ ((nulBefore_first hfull _).mp hnul)
  | @raw text c cs hc _ ih =>
      have hlong := length_textOf_two (.raw text) c cs
      obtain ⟨hr, hroom, hw⟩ | ⟨hr, -, hfull, hw⟩ | ⟨hr, hfull, hstay⟩ :=
        raw_spec s text
      · exact Settled.pair (a := .raw text) hc hr hroom hw ih
      · refine Settled.stop (c := .raw text) hr hw (List.take_prefix _ _)
          (Nat.lt_of_le_of_lt hfull hlong) ?_
        rw [textOf_two]
        exact (nulBefore_first hfull _).symm
      · -- the string is dropped, and the mark behind it has no room either
        have hdropped : ((Chunk.raw text).feed s).1 = 0 := hr
        have hstay' : ((Chunk.raw text).feed s).2 = s := hstay
        have hmark : (Chunk.mark c).feed s = (1, s) := if_neg (by omega)
        have hnext : feedAll (.raw text :: .mark c :: cs) s = (1, s) := by
          rw [feedAll, if_pos hdropped, hstay', feedAll, hmark]
          rfl
        rw [hnext]
        refine .inr ⟨rfl, ?_, [], List.nil_prefix, Wrote.refl s, ?_⟩
        · exact hfull ▸ Nat.zero_lt_of_lt hlong
        · rw [hfull]
          exact iff_of_false List.not_mem_nil (nulBefore_zero _)

/-! ## What the printer promises -/

/-- The output of the pieces of an event: they are closed, or the event is a number or a string
on its own. -/
def Renders (R : Rendering) : Prop :=
  Closed R.chunks ∨ R.rest.isSome ∧
    ((∃ text, R.chunks = [.number text] ∧ 0 ∉ text) ∨ ∃ text, R.chunks = [.raw text])

theorem Renders.closed_mark {R : Rendering} (h : Renders R) {c : UInt8} (hc : c ≠ 0)
    {cs : List Chunk} (hcs : Closed cs) : Closed (R.chunks ++ .mark c :: cs) := by
  obtain hclosed | ⟨-, ⟨text, htext, hnul⟩ | ⟨text, htext⟩⟩ := h
  · exact hclosed.append (.mark hc hcs)
  · rw [htext]
    exact .number hnul hc hcs
  · rw [htext]
    exact .raw text hc hcs

theorem closed_items {item : List UInt8 → Rendering} (hitem : ∀ data, Renders (item data))
    (n : Nat) (data : List UInt8) : Closed (renderItems item n data).chunks := by
  induction n generalizing data with
  | zero => exact .mark (by decide) .nil
  | succ n ih =>
      rw [renderItems]
      cases hrest : (item data).rest with
      | none =>
          obtain hclosed | ⟨hsome, -⟩ := hitem data
          · exact hclosed
          · rw [hrest] at hsome
            cases hsome
      | some rest =>
          dsimp only
          split
          · exact (hitem data).closed_mark (by decide) (ih rest)
          · rename_i hlast
            obtain rfl : n = 0 := Nat.eq_zero_of_not_pos hlast
            exact (hitem data).closed_mark (by decide) .nil

/-- Digits and the sign are no NUL. -/
theorem not_mem_decimal (x : Int) : 0 ∉ decimal x := by
  have hdigits : 0 ∉ (Nat.toDigits 10 x.natAbs).map fun c => UInt8.ofNat c.toNat := by
    intro hmem
    obtain ⟨c, hc, hzero⟩ := List.mem_map.mp hmem
    have hdigit := Nat.isDigit_of_mem_toDigits (by decide) (by decide) hc
    have hrange : 48 ≤ c.toNat ∧ c.toNat ≤ 57 := by
      simpa [Char.isDigit, UInt32.le_iff_toNat_le] using hdigit
    have hval := congrArg UInt8.toNat hzero
    rw [UInt8.toNat_ofNat', UInt8.toNat_zero] at hval
    omega
  unfold decimal
  dsimp only
  split
  · exact List.not_mem_cons_of_ne_of_not_mem (by decide) hdigits
  · exact hdigits

theorem renders_number (size : Nat) (value : List UInt8 → Int) (data : List UInt8) :
    Renders (renderNumber size value data) := by
  unfold renderNumber
  split
  · exact .inl .nil
  · exact .inr ⟨rfl, .inl ⟨_, rfl, not_mem_decimal _⟩⟩

theorem renders_string (data : List UInt8) : Renders (renderString data) := by
  unfold renderString
  dsimp only
  split
  · exact .inl .nil
  split
  · exact .inl .nil
  · exact .inr ⟨rfl, .inr ⟨_, rfl⟩⟩

theorem renders (depth : Nat) (data : List UInt8) : Renders (render depth data) := by
  induction depth generalizing data with
  | zero => exact .inl .nil
  | succ depth ih =>
      cases data with
      | nil => exact .inl .nil
      | cons type data =>
          rw [render]
          split
          · exact renders_number 4 get4LE data
          split
          · exact renders_number 8 get8LE data
          split
          · exact renders_string data
          split
          · cases data with
            | nil => exact .inl .nil
            | cons count data => exact .inl (.mark (by decide) (closed_items ih count.toNat data))
          · exact .inl .nil

/-- A call does what it promises: it reads inside of the payload and writes inside of the
buffer, it returns 0 if the payload starts with an event whose text is written, and 1 if its
text has no room, with the first part of the text written. -/
structure AsPromised (m : Nat → UInt8) (s : Source) (t : Sink) (p : Printed) : Prop where
  reads : ∀ i ∈ p.2.1.reads,
    i ∈ s.reads ∨ s.eventData ≤ i ∧ i < s.eventData + s.eventDataLen
  writes : ∀ i, i < t.outBuf ∨ t.outBuf + t.outBufLen ≤ i → p.2.2.out i = t.out i
  zero : p.1 = 0 ↔ ∃ bytes text rest, EventText bytes text ∧ s.data m = bytes ++ rest ∧
    Wrote t p.2.2 text
  one : p.1 = 1 ↔ t.outBufLen < (textOf (rendering (s.data m)).chunks).length
  part : p.1 = 1 → ∃ u, u <+: textOf (rendering (s.data m)).chunks ∧ Wrote t p.2.2 u

/-- The printer returns, and does what it promises. -/
def PrintsAsPromised (m : Nat → UInt8) (s : Source) (t : Sink) : Prop :=
  ∃ p, printBinaryEvent m s t = some p ∧ AsPromised m s t p

/-- A number does not fill the room exactly, nor does a string, and a string that is not empty
is not for a buffer without any room. -/
def RoomSuits (chunks : List Chunk) (room : Nat) : Prop :=
  match chunks with
  | [.number text] => text.length ≠ room
  | [.raw text] => if room = 0 then text = [] else text.length ≠ room
  | _ => True

theorem roomSuits_of_closed {cs : List Chunk} (h : Closed cs) (room : Nat) :
    RoomSuits cs room := by
  cases h with
  | nil => trivial
  | mark => trivial
  | number => trivial
  | raw => trivial

/-- The whole text of an event is written. -/
theorem wrote_whole_iff (data : List UInt8) (t t' : Sink) :
    ((rendering data).rest.isSome ∧ Wrote t t' (textOf (rendering data).chunks)) ↔
      ∃ bytes text rest, EventText bytes text ∧ data = bytes ++ rest ∧ Wrote t t' text := by
  constructor
  · rintro ⟨hsome, hwrote⟩
    obtain ⟨rest, hrest⟩ := Option.isSome_iff_exists.mp hsome
    obtain ⟨bytes, hevent, hdata⟩ := (rendering_reads_iff data _ rest).mp ⟨rfl, hrest⟩
    exact ⟨bytes, _, rest, hevent, hdata, hwrote⟩
  · rintro ⟨bytes, text, rest, hevent, hdata, hwrote⟩
    obtain ⟨htext, hrest⟩ := (rendering_reads_iff data text rest).mpr ⟨bytes, hevent, hdata⟩
    rw [hrest, htext]
    exact ⟨rfl, hwrote⟩

/-- A settled output is what is promised. -/
theorem asPromised_of_settled {m : Nat → UInt8} {s : Source} {t : Sink} {p : Printed}
    (h : Prints m (rendering (s.data m)) s t p)
    (hsettled : Settled (textOf (rendering (s.data m)).chunks) t
      (feedAll (rendering (s.data m)).chunks t)) : AsPromised m s t p := by
  have hresult := h.result
  unfold outcome at hresult
  unfold Settled at hsettled
  rw [← h.sink] at hsettled
  obtain ⟨hzero, hwrote, -⟩ | ⟨hone, hlong, u, hu, hwrote, -⟩ := hsettled
  · rw [if_pos hzero] at hresult
    have hnot : p.1 ≠ 1 := by
      rw [hresult]
      split <;> decide
    refine ⟨h.moved.inside, hwrote.outside, ?_, ?_, fun hone => absurd hone hnot⟩
    · rw [← wrote_whole_iff, hresult]
      constructor
      · intro hcase
        by_cases hsome : (rendering (s.data m)).rest.isSome = true
        · exact ⟨hsome, hwrote⟩
        · rw [if_neg hsome] at hcase
          exact absurd hcase (by decide)
      · rintro ⟨hsome, -⟩
        rw [if_pos hsome]
    · exact iff_of_false hnot (Nat.not_lt.mpr hwrote.fits)
  · have hne : (feedAll (rendering (s.data m)).chunks t).1 ≠ 0 := by
      rw [hone]
      decide
    rw [if_neg hne, hone] at hresult
    refine ⟨h.moved.inside, hwrote.outside, ?_, iff_of_true hresult hlong,
      fun _ => ⟨u, hu, hwrote⟩⟩
    rw [← wrote_whole_iff]
    refine iff_of_false (by rw [hresult]; decide) ?_
    rintro ⟨-, hwhole⟩
    exact absurd hwhole.fits (Nat.not_le.mpr hlong)

theorem nulBefore_short {room : Nat} {text : List UInt8} (h : text.length < room) :
    NulBefore room text ↔ 0 ∈ text := by
  unfold NulBefore
  rw [List.take_of_length_le (by omega)]

theorem nulBefore_long {room : Nat} {text : List UInt8} (h : room ≤ text.length) :
    NulBefore room text ↔ 0 ∈ (text.take room).dropLast := by
  have hfirst := nulBefore_first h []
  rwa [List.append_nil] at hfirst

theorem settled_number {t : Sink} {text : List UInt8} (htext : 0 ∉ text)
    (h : text.length ≠ t.outBufLen) : Settled text t (t.number text) := by
  obtain ⟨hr, hroom, hw⟩ | ⟨hr, hfull, hw⟩ := number_spec t text
  · exact .inl ⟨hr, hw, (nulBefore_short hroom).symm⟩
  · refine .inr ⟨hr, by omega, [], List.nil_prefix, hw, iff_of_false List.not_mem_nil ?_⟩
    exact fun hnul => not_mem_dropLast_take htext _ ((nulBefore_long hfull).mp hnul)

theorem settled_raw {t : Sink} {text : List UInt8}
    (h : if t.outBufLen = 0 then text = [] else text.length ≠ t.outBufLen) :
    Settled text t (t.raw text) := by
  obtain ⟨hr, hroom, hw⟩ | ⟨hr, hpos, hfull, hw⟩ | ⟨hr, hzero, hstay⟩ := raw_spec t text
  · exact .inl ⟨hr, hw, (nulBefore_short hroom).symm⟩
  · rw [if_neg (Nat.ne_of_gt hpos)] at h
    exact .inr ⟨hr, by omega, _, List.take_prefix _ _, hw, (nulBefore_long hfull).symm⟩
  · rw [if_pos hzero] at h
    refine .inl ⟨hr, ?_, ?_⟩
    · rw [hstay, h]
      exact Wrote.refl t
    · rw [h, hzero]
      exact iff_of_false List.not_mem_nil (nulBefore_zero _)

theorem textOf_singleton (c : Chunk) : textOf [c] = c.text := by
  unfold textOf
  rw [List.flatMap_singleton]

/-- The result for an event of one piece. -/
theorem outcome_single {R : Rendering} {c : Chunk} (hsome : R.rest.isSome)
    (hchunks : R.chunks = [c]) (t : Sink) : outcome R t = (c.feed t).1 := by
  obtain ⟨rest, hrest⟩ := Option.isSome_iff_exists.mp hsome
  obtain ⟨chunks, tail⟩ := R
  obtain rfl : chunks = [c] := hchunks
  obtain rfl : tail = some rest := hrest
  exact outcome_one t

/-- The printer does what it promises exactly when the room suits. -/
theorem printsAsPromised_iff (m : Nat → UInt8) (s : Source) (t : Sink) :
    PrintsAsPromised m s t ↔ RoomSuits (rendering (s.data m)).chunks t.outBufLen := by
  obtain ⟨p, hp, hprints⟩ := prints_event m (s.eventDataLen + 1) s t (Nat.lt_succ_self _)
  have hR : render (s.eventDataLen + 1) (s.data m) = rendering (s.data m) := by
    unfold rendering
    rw [s.length_data m]
  have hcall : PrintsAsPromised m s t ↔ AsPromised m s t p := by
    constructor
    · rintro ⟨q, hq, hpromised⟩
      obtain rfl : p = q := Option.some.inj (hp.symm.trans hq)
      exact hpromised
    · exact fun hpromised => ⟨p, hp, hpromised⟩
  rw [hcall]
  rw [hR] at hprints
  have hshape := renders (s.eventDataLen + 1) (s.data m)
  rw [hR] at hshape
  have hsettles := asPromised_of_settled hprints
  obtain hclosed | ⟨hsome, ⟨text, htext, hnul⟩ | ⟨text, htext⟩⟩ := hshape
  · exact iff_of_true (hsettles (settled_of_closed hclosed t)) (roomSuits_of_closed hclosed _)
  · have hresult : p.1 = (t.number text).1 :=
      hprints.result.trans (outcome_single hsome htext t)
    have hsettles' : Settled text t (t.number text) → AsPromised m s t p := by
      rwa [htext, feedAll_singleton, textOf_singleton] at hsettles
    rw [htext]
    refine ⟨fun hpromised hexact => ?_, fun hne => hsettles' (settled_number hnul hne)⟩
    obtain ⟨-, hlt, -⟩ | ⟨hone, -, -⟩ := number_spec t text
    · omega
    · have hlong := hpromised.one.mp (hresult.trans hone)
      rw [htext, textOf_singleton] at hlong
      exact absurd hexact (Nat.ne_of_gt hlong)
  · have hresult : p.1 = (t.raw text).1 := hprints.result.trans (outcome_single hsome htext t)
    have hsettles' : Settled text t (t.raw text) → AsPromised m s t p := by
      rwa [htext, feedAll_singleton, textOf_singleton] at hsettles
    rw [htext]
    refine ⟨fun hpromised => ?_, fun hsuits => hsettles' (settled_raw hsuits)⟩
    change if t.outBufLen = 0 then text = [] else text.length ≠ t.outBufLen
    obtain ⟨-, hlt, -⟩ | ⟨hone, hpos, -, -⟩ | ⟨hzero, hnone, -⟩ := raw_spec t text
    · rw [if_neg (by omega)]
      exact Nat.ne_of_lt hlt
    · have hlong := hpromised.one.mp (hresult.trans hone)
      rw [htext, textOf_singleton] at hlong
      rw [if_neg (Nat.ne_of_gt hpos)]
      exact Nat.ne_of_gt hlong
    · have hwhole :=
        ((wrote_whole_iff _ _ _).mpr (hpromised.zero.mp (hresult.trans hzero))).2.fits
      rw [htext, textOf_singleton, hnone] at hwhole
      rw [if_pos hnone]
      exact List.length_eq_zero_iff.mp (Nat.le_zero.mp hwhole)

/-- A string of one byte for a buffer of one byte is copied, and the result is 1. -/
theorem exactly_full : ¬ PrintsAsPromised (fun i => [2, 1, 0, 0, 0, 0x61].getD i 0) ⟨0, 6, []⟩
    ⟨0, 1, fun _ => 0⟩ := by
  rintro ⟨p, hp, hpromised⟩
  have hrun : (printBinaryEvent (fun i => [2, 1, 0, 0, 0, 0x61].getD i 0) ⟨0, 6, []⟩
      ⟨0, 1, fun _ => 0⟩).map Prod.fst = some 1 := by decide
  have htext : (textOf (rendering (Source.data ⟨0, 6, []⟩
      (fun i => [2, 1, 0, 0, 0, 0x61].getD i 0))).chunks).length = 1 := by decide
  rw [hp] at hrun
  have hlong := hpromised.one.mp (Option.some.inj hrun)
  rw [htext] at hlong
  exact absurd hlong (by decide)

end Logcat
end AndroidLinux
