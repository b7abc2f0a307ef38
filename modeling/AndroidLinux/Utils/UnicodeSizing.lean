import AndroidLinux.Utils.UnicodeRoundTrip

/-!
# Measuring UTF-16 for its conversion

`utf16_to_utf8_length` moves on to the unit behind a high surrogate while it tests it, and
then measures that unit as a character of its own.  In a row of high surrogates it takes two
at a time, so that it misses the pair at the end of a row of even length, for which
`utf16_to_utf8` writes four bytes.
-/

namespace AndroidLinux
namespace Utils

/-! ## What is stored -/

/-- The bytes that `utf16_to_utf8` stores at `dst`. -/
def utf16ToUtf8Stored (src : List UInt16) : List UInt8 :=
  if src = [] then [] else utf16ToUtf8 src ++ [0]

/-- What `utf16_to_utf8_length` returns when a `ssize_t` has `width` bits. -/
def utf16ToUtf8SSize (width : Nat) (src : List UInt16) : Int :=
  (utf16ToUtf8Length src).bmod (2 ^ width)

/-- The size of the buffer that `allocFromUTF16` gets from `SharedBuffer::alloc` and the
bytes that are stored into it, when there is such a buffer. -/
def String8.storesFromUtf16 (width : Nat) (granted : Bool) (src : List UInt16) :
    Option (Nat × List UInt8) :=
  if src = [] then none
  else
    let bytes := utf16ToUtf8SSize width src
    if bytes < 0 then none
    else if granted then some ((bytes + 1).toNat, utf16ToUtf8Stored src)
    else none

/-- The measured size is that of the conversion, and the buffer holds what is stored. -/
structure MeasuredExactly (width : Nat) (src : List UInt16) : Prop where
  written : ((utf16ToUtf8Stored src).length : Int) = utf16ToUtf8SSize width src + 1
  inside : ∀ granted size stored,
    String8.storesFromUtf16 width granted src = some (size, stored) → stored.length ≤ size

/-! ## Rows of high surrogates -/

def isHigh (u : UInt16) : Bool := u &&& 0xFC00 = 0xD800

def isLow (u : UInt16) : Bool := u &&& 0xFC00 = 0xDC00

/-- No low surrogate stands right behind an even number of high ones; `row` of them stand in
front. -/
def RowsOdd : Nat → List UInt16 → Prop
  | _, [] => True
  | row, u :: rest =>
      if isHigh u then RowsOdd (row + 1) rest
      else (isLow u = true → row = 0 ∨ row % 2 = 1) ∧ RowsOdd 0 rest

instance decidableRowsOdd : (row : Nat) → (src : List UInt16) → Decidable (RowsOdd row src)
  | _, [] => inferInstanceAs (Decidable True)
  | row, u :: rest =>
      have := decidableRowsOdd (row + 1) rest
      have := decidableRowsOdd 0 rest
      inferInstanceAs (Decidable (if isHigh u then RowsOdd (row + 1) rest
        else (isLow u = true → row = 0 ∨ row % 2 = 1) ∧ RowsOdd 0 rest))

theorem not_isLow_of_isHigh {u : UInt16} (h : isHigh u = true) : isLow u = false := by
  simp only [isHigh, isLow, decide_eq_true_eq, decide_eq_false_iff_not] at h ⊢
  rw [h]
  decide

theorem rowsOdd_high {u : UInt16} {rest : List UInt16} (h : isHigh u = true) (row : Nat) :
    RowsOdd row (u :: rest) ↔ RowsOdd (row + 1) rest := by
  rw [RowsOdd, if_pos h]

theorem rowsOdd_other {u : UInt16} {rest : List UInt16} (h : isHigh u = false) (row : Nat) :
    RowsOdd row (u :: rest) ↔ (isLow u = true → row = 0 ∨ row % 2 = 1) ∧ RowsOdd 0 rest := by
  rw [RowsOdd, if_neg (by rw [h]; exact Bool.false_ne_true)]

/-- Two more high surrogates in front make no difference, but for an empty row. -/
theorem rowsOdd_add_two {row : Nat} (hrow : row ≠ 0) (src : List UInt16) :
    RowsOdd (row + 2) src ↔ RowsOdd row src := by
  induction src generalizing row with
  | nil => exact Iff.rfl
  | cons u rest ih =>
      cases hu : isHigh u with
      | true =>
          rw [rowsOdd_high hu, rowsOdd_high hu]
          exact ih (Nat.succ_ne_zero row)
      | false =>
          rw [rowsOdd_other hu, rowsOdd_other hu]
          have hparity : (row + 2 = 0 ∨ (row + 2) % 2 = 1) ↔ (row = 0 ∨ row % 2 = 1) := by omega
          rw [hparity]

theorem rowsOdd_two {src : List UInt16} (h : ∀ u ∈ src.head?, isLow u = false) :
    RowsOdd 2 src ↔ RowsOdd 0 src := by
  cases src with
  | nil => exact Iff.rfl
  | cons u rest =>
      cases hu : isHigh u with
      | true =>
          rw [rowsOdd_high hu, rowsOdd_high hu]
          exact rowsOdd_add_two one_ne_zero rest
      | false =>
          have hlow := h u rfl
          rw [rowsOdd_other hu, rowsOdd_other hu, hlow]
          simp

/-! ## The two scanners -/

theorem length_writeBytes (mark : UInt32) (n : Nat) (c : UInt32) :
    (writeBytes mark n c).length = n := by
  fun_induction writeBytes mark n c with
  | case1 => rfl
  | case2 => rfl
  | case3 n c ih => rw [List.length_append, ih, List.length_singleton]

/-- A code point is written with as many bytes as are measured for it. -/
theorem length_codepoint (c : UInt32) :
    (utf32CodepointToUtf8 c (utf32CodepointUtf8Length c)).length = utf32CodepointUtf8Length c :=
  length_writeBytes _ _ c

theorem length_surrogate {u : UInt16} (h : isHigh u = true ∨ isLow u = true) :
    utf32CodepointUtf8Length u.toUInt32 = 0 := by
  have hrange : 0xD800 ≤ u.toNat ∧ u.toNat ≤ 0xDFFF := by
    simp only [isHigh, isLow, decide_eq_true_eq] at h
    rcases h with h | h
    · have := (isHigh_iff u).mp h
      omega
    · have := (isLow_iff u).mp h
      omega
  rw [utf32CodepointUtf8Length_eq, UInt16.toNat_toUInt32, if_neg (by omega), if_neg (by omega),
    if_pos (by omega), if_neg (by omega)]

theorem length_pair {u v : UInt16} (hu : isHigh u = true) (hv : isLow v = true) :
    utf32CodepointUtf8Length (pairValue u v) = 4 := by
  simp only [isHigh, isLow, decide_eq_true_eq] at hu hv
  have hvalue := pairValue_toNat ((isHigh_iff u).mp hu) ((isLow_iff v).mp hv)
  have hu := (isHigh_iff u).mp hu
  have hv := (isLow_iff v).mp hv
  rw [utf32CodepointUtf8Length_eq, hvalue, if_neg (by omega), if_neg (by omega),
    if_neg (by omega), if_pos (by omega)]

theorem isPair_eq (u v : UInt16) : isPair u v = (isHigh u && isLow v) := by
  simp [isPair, isHigh, isLow]

/-- A pair is written. -/
theorem written_pair {u v : UInt16} (hu : isHigh u = true) (hv : isLow v = true)
    (rest : List UInt16) :
    (utf16ToUtf8 (u :: v :: rest)).length = 4 + (utf16ToUtf8 rest).length := by
  rw [utf16ToUtf8, utf16Codepoints, isPair_eq, hu, hv, Bool.and_self, if_pos rfl,
    List.flatMap_cons, List.length_append, length_codepoint, length_pair hu hv]
  rfl

/-- Any other unit is written alone. -/
theorem written_unit {u : UInt16} {rest : List UInt16}
    (h : isHigh u = false ∨ ∀ v ∈ rest.head?, isLow v = false) :
    (utf16ToUtf8 (u :: rest)).length =
      utf32CodepointUtf8Length u.toUInt32 + (utf16ToUtf8 rest).length := by
  cases rest with
  | nil =>
      rw [utf16ToUtf8, utf16Codepoints, List.flatMap_cons, List.length_append, length_codepoint]
      rfl
  | cons v rest =>
      have hpair : isPair u v = false := by
        rw [isPair_eq]
        rcases h with h | h
        · rw [h, Bool.false_and]
        · rw [h v rfl, Bool.and_false]
      rw [utf16ToUtf8, utf16Codepoints, hpair, if_neg Bool.false_ne_true, List.flatMap_cons,
        List.length_append, length_codepoint]
      rfl

theorem needed_pair {u v : UInt16} (hu : isHigh u = true) (hv : isLow v = true)
    (rest : List UInt16) : utf16BytesNeeded (u :: v :: rest) = 4 + utf16BytesNeeded rest := by
  simp only [isHigh, isLow, decide_eq_true_eq] at hu hv
  rw [utf16BytesNeeded, if_pos hu, if_pos hv, Nat.add_comm]

/-- A high surrogate without its partner is skipped, and so is the test of the next unit. -/
theorem needed_high {u v : UInt16} (hu : isHigh u = true) (hv : isLow v = false)
    (rest : List UInt16) : utf16BytesNeeded (u :: v :: rest) =
      utf32CodepointUtf8Length v.toUInt32 + utf16BytesNeeded rest := by
  simp only [isHigh, isLow, decide_eq_true_eq, decide_eq_false_iff_not] at hu hv
  rw [utf16BytesNeeded, if_pos hu, if_neg hv]

theorem needed_other {u : UInt16} (hu : isHigh u = false) (rest : List UInt16) :
    utf16BytesNeeded (u :: rest) =
      utf32CodepointUtf8Length u.toUInt32 + utf16BytesNeeded rest := by
  simp only [isHigh, decide_eq_false_iff_not] at hu
  cases rest with
  | nil => rfl
  | cons v rest => rw [utf16BytesNeeded, if_neg hu]

/-- No more is measured than is written, and the same exactly when all rows are odd. -/
theorem needed_written (src : List UInt16) :
    utf16BytesNeeded src ≤ (utf16ToUtf8 src).length ∧
      (utf16BytesNeeded src = (utf16ToUtf8 src).length ↔ RowsOdd 0 src) := by
  -- the induction follows the measuring, which takes one or two units
  induction src using utf16BytesNeeded.induct with
  | case1 => exact ⟨le_rfl, iff_of_true rfl trivial⟩
  | case2 u =>
      have hlast : ∀ v ∈ ([] : List UInt16).head?, isLow v = false := fun v hv => by cases hv
      have hwritten := written_unit (u := u) (.inr hlast)
      have hnone : (utf16ToUtf8 []).length = 0 := rfl
      rw [hwritten, hnone, Nat.add_zero]
      refine ⟨le_rfl, iff_of_true rfl ?_⟩
      cases hu : isHigh u with
      | true => exact (rowsOdd_high hu 0).mpr trivial
      | false => exact (rowsOdd_other hu 0).mpr ⟨fun _ => .inl rfl, trivial⟩
  | case3 u v rest hu hv ih =>
      have hhigh : isHigh u = true := decide_eq_true hu
      have hlow : isLow v = true := decide_eq_true hv
      have hnot : isHigh v = false := by
        cases hv' : isHigh v with
        | true => exact absurd hlow (by rw [not_isLow_of_isHigh hv']; exact Bool.false_ne_true)
        | false => rfl
      rw [needed_pair hhigh hlow, written_pair hhigh hlow, rowsOdd_high hhigh,
        rowsOdd_other hnot, Nat.add_left_cancel_iff, ih.2]
      exact ⟨Nat.add_le_add_left ih.1 4, ⟨fun h => ⟨fun _ => .inr rfl, h⟩, fun h => h.2⟩⟩
  | case4 u v rest hu hv ih =>
      have hhigh : isHigh u = true := decide_eq_true hu
      have hlow : isLow v = false := decide_eq_false hv
      have hzero := length_surrogate (.inl hhigh)
      rw [needed_high hhigh hlow, written_unit (.inr fun w hw => by
        rw [← Option.some.inj hw]; exact hlow), hzero, Nat.zero_add, rowsOdd_high hhigh]
      cases hv' : isHigh v with
      | false =>
          rw [written_unit (.inl hv'), rowsOdd_other hv', Nat.add_left_cancel_iff, ih.2]
          refine ⟨Nat.add_le_add_left ih.1 _, ⟨fun h => ⟨fun hw => ?_, h⟩, fun h => h.2⟩⟩
          rw [hlow] at hw
          cases hw
      | true =>
          -- two high surrogates, of which the second one may begin a pair
          have hzero' := length_surrogate (.inl hv')
          rw [hzero', Nat.zero_add, rowsOdd_high hv']
          cases rest with
          | nil =>
              rw [written_unit (.inr fun w hw => by cases hw), hzero', Nat.zero_add]
              exact ⟨ih.1, ih.2⟩
          | cons w rest =>
              cases hw : isLow w with
              | false =>
                  have hhead : ∀ x ∈ (w :: rest).head?, isLow x = false := fun x hx => by
                    rw [← Option.some.inj hx]
                    exact hw
                  rw [written_unit (.inr hhead), hzero', Nat.zero_add, Nat.zero_add,
                    rowsOdd_two hhead]
                  exact ih
              | true =>
                  have hnot : isHigh w = false := by
                    cases hw' : isHigh w with
                    | true =>
                        exact absurd hw (by rw [not_isLow_of_isHigh hw']; exact Bool.false_ne_true)
                    | false => rfl
                  have hzero'' := length_surrogate (u := w) (.inr hw)
                  have hle := ih.1
                  rw [written_unit (.inl hnot), hzero'', Nat.zero_add] at hle
                  rw [written_pair hv' hw, rowsOdd_other hnot]
                  refine ⟨by omega, iff_of_false (by omega) fun h => ?_⟩
                  have := h.1 hw
                  omega
  | case5 u v rest hu ih =>
      have hother : isHigh u = false := decide_eq_false hu
      rw [needed_other hother, written_unit (.inl hother), rowsOdd_other hother,
        Nat.add_left_cancel_iff, ih.2]
      exact ⟨Nat.add_le_add_left ih.1 _, ⟨fun h => ⟨fun _ => .inl rfl, h⟩, fun h => h.2⟩⟩

/-! ## The result of the measuring -/

theorem utf16ToUtf8Length_eq {src : List UInt16} (hsome : src ≠ []) :
    utf16ToUtf8Length src = utf16BytesNeeded src := if_neg hsome

theorem length_stored {src : List UInt16} (hsome : src ≠ []) :
    (utf16ToUtf8Stored src).length = (utf16ToUtf8 src).length + 1 := by
  rw [utf16ToUtf8Stored, if_neg hsome, List.length_append, List.length_singleton]

/-- The measured size does not wrap to more. -/
theorem ssize_le {src : List UInt16} (hsome : src ≠ []) (width : Nat) :
    utf16ToUtf8SSize width src ≤ utf16BytesNeeded src := by
  have hpos : (0 : Int) < (2 ^ width : Nat) := by exact_mod_cast Nat.two_pow_pos width
  have hmod : (utf16BytesNeeded src : Int) % (2 ^ width : Nat) ≤ utf16BytesNeeded src := by
    have hle := Nat.mod_le (utf16BytesNeeded src) (2 ^ width)
    exact_mod_cast hle
  rw [utf16ToUtf8SSize, utf16ToUtf8Length_eq hsome, Int.bmod_def]
  split <;> omega

/-- A size is returned as it is when a `ssize_t` can hold it. -/
theorem ssize_eq_iff {src : List UInt16} (hsome : src ≠ []) (width : Nat) :
    utf16ToUtf8SSize width src = utf16BytesNeeded src ↔ 2 * utf16BytesNeeded src < 2 ^ width := by
  rw [utf16ToUtf8SSize, utf16ToUtf8Length_eq hsome]
  constructor
  · intro heq
    have hlt := Int.bmod_lt (x := utf16BytesNeeded src) (Nat.two_pow_pos width)
    rw [heq] at hlt
    omega
  · intro hlt
    exact Int.bmod_eq_of_le (by omega) (by omega)

/-- For a sequence that is not empty, the conversion writes as many bytes as have been
measured, and the buffer for them is large enough, exactly when no low surrogate stands
right behind an even number of high ones and a `ssize_t` can hold the size. -/
theorem measured_exactly_iff (width : Nat) (src : List UInt16) (hsome : src ≠ []) :
    MeasuredExactly width src ↔ RowsOdd 0 src ∧ 2 * utf16BytesNeeded src < 2 ^ width := by
  obtain ⟨hle, hrows⟩ := needed_written src
  rw [← hrows, ← ssize_eq_iff hsome width]
  constructor
  · intro h
    have hwritten := h.written
    have hsize := ssize_le hsome width
    rw [length_stored hsome] at hwritten
    omega
  · rintro ⟨hneeded, hsize⟩
    have hwritten : ((utf16ToUtf8Stored src).length : Int) = utf16ToUtf8SSize width src + 1 := by
      rw [length_stored hsome, hsize, hneeded]
      rfl
    refine ⟨hwritten, fun granted size stored hstores => ?_⟩
    have hvalid : ¬ utf16ToUtf8SSize width src < 0 := by omega
    rw [String8.storesFromUtf16, if_neg hsome] at hstores
    dsimp only at hstores
    rw [if_neg hvalid] at hstores
    cases granted with
    | false => cases hstores
    | true =>
        obtain ⟨rfl, rfl⟩ := Prod.mk.inj (Option.some.inj hstores)
        omega

/-- Two high surrogates without a partner in front of a pair. -/
theorem measured_exactly_threeHigh :
    MeasuredExactly 32 [0xD800, 0xD800, 0xD834, 0xDD1E, 0x20AC] :=
  (measured_exactly_iff 32 _ (by decide)).mpr (by decide)

/-- A pair behind a high surrogate without a partner. -/
def strayHigh : List UInt16 := [0xD800, 0xD834, 0xDD1E]

/-- Nothing is measured, and five bytes are stored into a buffer of one byte. -/
theorem strayHigh_overruns : strayHigh ≠ [] ∧ ¬ MeasuredExactly 32 strayHigh ∧
    String8.storesFromUtf16 32 true strayHigh = some (1, [0xF0, 0x9D, 0x84, 0x9E, 0]) := by
  refine ⟨by decide, fun h => ?_, by decide +kernel⟩
  exact absurd h.written (by decide +kernel)

/-! ## Text that is well formed -/

/-- Behind a pair or any other unit a row begins anew. -/
theorem WellFormed.rowsOdd {src : List UInt16} (h : WellFormed src) : RowsOdd 0 src := by
  induction h with
  | nil => trivial
  | unit hu _ ih =>
      refine (rowsOdd_other (decide_eq_false fun h => ?_) 0).mpr ⟨fun _ => .inl rfl, ih⟩
      have := (isHigh_iff _).mp h
      omega
  | pair hu hv _ ih =>
      have hlow := (isLow_iff _).mpr hv
      refine (rowsOdd_high (decide_eq_true ((isHigh_iff _).mpr hu)) 0).mpr
        ((rowsOdd_other (decide_eq_false fun h => ?_) 1).mpr ⟨fun _ => .inr rfl, ih⟩)
      have := (isHigh_iff _).mp h
      omega

end Utils
end AndroidLinux
