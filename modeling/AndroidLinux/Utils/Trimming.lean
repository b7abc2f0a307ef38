import AndroidLinux.Utils.CharBuffers

/-!
# Trimming a string

`trimSpace` and `trimright` of `String8.cpp`, for strings of fewer than `2^31` characters, as
`int` counts them.
-/

namespace AndroidLinux
namespace Utils

/-- `isspace` in the C locale. -/
def isspace (c : UInt8) : Bool := c == 0x20 || 0x09 ≤ c && c ≤ 0x0D

/-- The first loop of `trimSpace`: where it stops. -/
def skipHead : List UInt8 → Nat
  | [] => 0
  | c :: buf => if (isspace c || c == 0x09) && c != 0 then skipHead buf + 1 else 0

/-- The loops from the tail on: one more than the index where they stop. -/
def keepHead (drop : UInt8 → Bool) (buf : List UInt8) : Nat → Nat
  | 0 => 0
  | i + 1 => if drop (buf.getD i 0) then keepHead drop buf i else i + 1

/-- `memmove(buf, buf + i, n)`. -/
def memmoveDown (buf : List UInt8) (i n : Nat) : List UInt8 := (buf.drop i).take n ++ buf.drop n

/-- `strlen`. -/
def strlen8 (buf : List UInt8) : Nat := (buf.takeWhile (· != 0)).length

/-- The edit of `trimSpace`. -/
def trimSpaceText (len : Nat) (buf : List UInt8) : List UInt8 :=
  let i := skipHead buf
  let buf := if i ≠ 0 then memmoveDown buf i (len - i) else buf
  buf.set (keepHead isspace buf (len - i)) 0

/-- The edit of `trimright`. -/
def trimrightText (c : UInt8) (len : Nat) (buf : List UInt8) : List UInt8 :=
  buf.set (keepHead (· == c) buf len) 0

/-- A text is edited in a locked buffer, and its length is that of the string in it then. -/
def relocked (junk : UInt8) (h : CharHeap UInt8) (mString : Nat)
    (f : Nat → List UInt8 → List UInt8) : CharHeap UInt8 × Nat :=
  let len := h.size mString
  let r := h.lockBuffer junk mString len
  let h := r.1.edit r.2 (f len)
  h.unlockBuffer junk r.2 (strlen8 (h.buffer r.2).data)

/-- `String8::trimSpace`. -/
def trimSpace (junk : UInt8) (h : CharHeap UInt8) (mString : Nat) : CharHeap UInt8 × Nat :=
  relocked junk h mString trimSpaceText

/-- `String8::trimright`. -/
def trimright (junk c : UInt8) (h : CharHeap UInt8) (mString : Nat) : CharHeap UInt8 × Nat :=
  relocked junk h mString (trimrightText c)

/-- From the first character that is no blank to the last one. -/
def trimmed (s : List UInt8) : List UInt8 := (s.dropWhile isspace).rdropWhile isspace

/-- The longest first part that does not end in `c`. -/
def trimmedRight (c : UInt8) (s : List UInt8) : List UInt8 := s.rdropWhile (· == c)

/-! ## The loops -/

theorem skipHead_eq {s : List UInt8} (hs : 0 ∉ s) :
    skipHead (s ++ [0]) = (s.takeWhile isspace).length := by
  induction s with
  | nil => rfl
  | cons c s ih =>
      obtain ⟨hc, hrest⟩ := not_or.mp (List.mem_cons.not.mp hs)
      have htab : c == 0x09 → isspace c := fun h => by
        rw [beq_iff_eq.mp h]
        rfl
      have htest : ((isspace c || c == 0x09) && c != 0) = isspace c := by
        have hne : (c != 0) = true := bne_iff_ne.mpr (Ne.symm hc)
        rw [hne, Bool.and_true]
        cases hblank : isspace c with
        | true => rfl
        | false =>
            rw [Bool.false_or]
            exact Bool.eq_false_iff.mpr fun h => by
              rw [htab h] at hblank
              cases hblank
      rw [List.cons_append, skipHead, htest, List.takeWhile_cons]
      split
      · rw [ih hrest, List.length_cons]
      · rfl

theorem keepHead_eq (drop : UInt8 → Bool) (t tail : List UInt8) :
    keepHead drop (t ++ tail) t.length = (t.rdropWhile drop).length := by
  induction t using List.reverseRecOn generalizing tail with
  | nil => rfl
  | append_singleton t c ih =>
      have hlast : (t ++ [c] ++ tail).getD t.length 0 = c := by
        rw [List.getD_eq_getElem?_getD, List.append_assoc,
          List.getElem?_append_right (Nat.le_refl _), Nat.sub_self]
        rfl
      rw [List.length_append, List.length_singleton, keepHead, hlast, List.rdropWhile_concat]
      split
      · rw [List.append_assoc]
        exact ih _
      · rw [List.length_append, List.length_singleton]

/-- What the loop keeps is cut off by the NUL. -/
theorem set_keepHead (drop : UInt8 → Bool) (t : List UInt8) {tail : List UInt8}
    (htail : tail ≠ []) :
    ∃ tail', (t ++ tail).set (keepHead drop (t ++ tail) t.length) 0 =
      t.rdropWhile drop ++ 0 :: tail' := by
  obtain ⟨cut, hcut⟩ := List.rdropWhile_prefix drop (l := t)
  obtain ⟨c, rest, hrest⟩ : ∃ c rest, cut ++ tail = c :: rest :=
    List.exists_cons_of_ne_nil fun hnil => htail (List.append_eq_nil_iff.mp hnil).2
  refine ⟨rest, ?_⟩
  rw [keepHead_eq]
  have hsplit : t ++ tail = t.rdropWhile drop ++ c :: rest := by
    rw [← hrest, ← List.append_assoc, hcut]
  rw [hsplit, List.set_append_right _ _ (Nat.le_refl _), Nat.sub_self]
  rfl

theorem drop_length_takeWhile (p : UInt8 → Bool) (s : List UInt8) :
    s.drop (s.takeWhile p).length = s.dropWhile p :=
  (congrArg (List.drop _) List.takeWhile_append_dropWhile.symm).trans List.drop_left

theorem trimSpaceText_eq {s : List UInt8} (hs : 0 ∉ s) :
    ∃ tail, trimSpaceText s.length (s ++ [0]) = trimmed s ++ 0 :: tail := by
  have hdrop := drop_length_takeWhile isspace s
  have hle : (s.takeWhile isspace).length ≤ s.length :=
    (List.takeWhile_prefix isspace).length_le
  have hlen : s.length - (s.takeWhile isspace).length = (s.dropWhile isspace).length := by
    rw [← hdrop, List.length_drop]
  have hmoved : (if skipHead (s ++ [0]) ≠ 0 then
      memmoveDown (s ++ [0]) (skipHead (s ++ [0])) (s.length - skipHead (s ++ [0]))
      else s ++ [0]) = s.dropWhile isspace ++ (s ++ [0]).drop (s.dropWhile isspace).length := by
    rw [skipHead_eq hs, hlen]
    split
    · unfold memmoveDown
      rw [List.drop_append_of_le_length hle, hdrop, List.take_left]
    · rename_i hnone
      have hwhole : s.dropWhile isspace = s := by
        rw [← hdrop, not_not.mp hnone, List.drop_zero]
      rw [hwhole, List.drop_left]
  unfold trimSpaceText
  dsimp only
  rw [hmoved, skipHead_eq hs, hlen]
  refine set_keepHead isspace _ fun hnil => ?_
  have hshort := List.drop_eq_nil_iff.mp hnil
  rw [List.length_append, List.length_singleton] at hshort
  omega

theorem trimrightText_eq (c : UInt8) (s : List UInt8) :
    ∃ tail, trimrightText c s.length (s ++ [0]) = trimmedRight c s ++ 0 :: tail :=
  set_keepHead (· == c) s (List.cons_ne_nil _ _)

theorem strlen8_eq {t : List UInt8} (ht : 0 ∉ t) (tail : List UInt8) :
    strlen8 (t ++ 0 :: tail) = t.length := by
  unfold strlen8
  have hall : ∀ c ∈ t, (c != 0) = true := fun c hc =>
    bne_iff_ne.mpr fun hzero => ht (hzero ▸ hc)
  rw [List.takeWhile_append_of_pos hall, List.takeWhile_cons_of_neg (by decide), List.append_nil]

/-! ## The operations -/

/-- A string with the buffer `b` has the text `t` now, and the others have theirs. -/
structure Trimmed (h : CharHeap UInt8) (b : Nat) (t : List UInt8) (r : CharHeap UInt8 × Nat) :
    Prop where
  text : r.1.Holds r.2 t
  size : r.1.size r.2 = t.length
  others : ∀ c, h.Elsewhere b c → c ≠ r.2 ∧ (r.1.buffer c).data = (h.buffer c).data

theorem relocked_spec (junk : UInt8) {h : CharHeap UInt8} {b : Nat} {s t : List UInt8}
    {f : Nat → List UInt8 → List UInt8} (hb : h.Holds b s) (ht : 0 ∉ t)
    (hf : ∃ tail, f s.length (s ++ [0]) = t ++ 0 :: tail) :
    Trimmed h b t (relocked junk h b f) := by
  obtain ⟨tail, htail⟩ := hf
  obtain ⟨hedited, hdata⟩ := CharHeap.lockBuffer_spec junk hb
  have htext : (((h.lockBuffer junk b s.length).1.edit (h.lockBuffer junk b s.length).2
      (f s.length)).buffer (h.lockBuffer junk b s.length).2).data = t ++ 0 :: tail := by
    rw [CharHeap.data_edit, hdata, htail]
  obtain ⟨hunlocked, hholds⟩ :=
    CharHeap.unlockBuffer_spec junk (hedited.edit (f s.length)) htext fun _ => rfl
  unfold relocked
  rw [hb.size]
  dsimp only
  rw [htext, strlen8_eq ht]
  exact ⟨hholds, hholds.size, hunlocked.others⟩

theorem not_mem_trimmed {s : List UInt8} (hs : 0 ∉ s) : 0 ∉ trimmed s := fun h =>
  hs ((List.dropWhile_suffix _).subset ((List.rdropWhile_prefix _ _).subset h))

theorem not_mem_trimmedRight {s : List UInt8} (c : UInt8) (hs : 0 ∉ s) :
    0 ∉ trimmedRight c s := fun h => hs ((List.rdropWhile_prefix _ _).subset h)

theorem trimSpace_spec (junk : UInt8) {h : CharHeap UInt8} {b : Nat} {s : List UInt8}
    (hb : h.Holds b s) (hs : 0 ∉ s) : Trimmed h b (trimmed s) (trimSpace junk h b) :=
  relocked_spec junk hb (not_mem_trimmed hs) (trimSpaceText_eq hs)

theorem trimright_spec (junk c : UInt8) {h : CharHeap UInt8} {b : Nat} {s : List UInt8}
    (hb : h.Holds b s) (hs : 0 ∉ s) : Trimmed h b (trimmedRight c s) (trimright junk c h b) :=
  relocked_spec junk hb (not_mem_trimmedRight c hs) (trimrightText_eq c s)

/-- A text without a blank in front has none when its tail is cut off. -/
theorem trimmed_trimmed (s : List UInt8) : trimmed (trimmed s) = trimmed s := by
  have hhead : (trimmed s).dropWhile isspace = trimmed s := by
    rw [List.dropWhile_eq_self_iff]
    intro hpos
    have hfront : trimmed s <+: s.dropWhile isspace := List.rdropWhile_prefix _ _
    rw [hfront.getElem hpos]
    exact List.dropWhile_get_zero_not isspace s _
  unfold trimmed at hhead ⊢
  rw [hhead, List.rdropWhile_idempotent]

/-- Trimming leaves what it should, once and twice, and the strings that shared the buffer are
as they were. -/
theorem trims (junk c : UInt8) {h : CharHeap UInt8} {b : Nat} {s : List UInt8}
    (hb : h.Holds b s) (hs : 0 ∉ s) :
    Trimmed h b (trimmed s) (trimSpace junk h b) ∧
      Trimmed h b (trimmedRight c s) (trimright junk c h b) ∧
      Trimmed (trimSpace junk h b).1 (trimSpace junk h b).2 (trimmed s)
        (trimSpace junk (trimSpace junk h b).1 (trimSpace junk h b).2) ∧
      Trimmed (trimright junk c h b).1 (trimright junk c h b).2 (trimmedRight c s)
        (trimright junk c (trimright junk c h b).1 (trimright junk c h b).2) := by
  have hspace := trimSpace_spec junk hb hs
  have hright := trimright_spec junk c hb hs
  have hspace' := trimSpace_spec junk hspace.text (not_mem_trimmed hs)
  have hright' := trimright_spec junk c hright.text (not_mem_trimmedRight c hs)
  rw [trimmed_trimmed] at hspace'
  have htwice : trimmedRight c (trimmedRight c s) = trimmedRight c s :=
    List.rdropWhile_idempotent _ _
  rw [htwice] at hright'
  exact ⟨hspace, hright, hspace', hright'⟩

/-- A shared buffer with a blank in front and one behind. -/
theorem trims_shared :
    let h : CharHeap UInt8 := ⟨fun _ => ⟨2, [0x20, 0x61, 0x20, 0]⟩, 1⟩
    Trimmed h 0 [0x61] (trimSpace 0 h 0) := by
  have hb : CharHeap.Holds (⟨fun _ => ⟨2, [0x20, 0x61, 0x20, 0]⟩, 1⟩ : CharHeap UInt8) 0
      [0x20, 0x61, 0x20] := ⟨by decide, by decide, rfl⟩
  exact (trims 0 0x61 hb (by decide)).1

end Utils
end AndroidLinux
