import AndroidLinux.Utils.Unicode
import Mathlib.Tactic

/-!
# Unicode round trips

`Encoded c first trail` says in numbers what the UTF-8 form of a code point is.  The one
encoder produces it, and both decoders and all functions that look at a first byte only
agree on it; the statements about sequences follow by induction.
-/

namespace AndroidLinux
namespace Utils

/-! ## Bits as numbers -/

/-- Bytes are checked one by one. -/
theorem byte_cases {P : UInt8 → Prop} (h : ∀ n < 256, P (UInt8.ofNat n)) (b : UInt8) : P b := by
  rw [← UInt8.ofNat_toNat (x := b)]
  exact h _ b.toNat_lt

theorem trailByte_toNat (c : UInt32) : (trailByte c).toNat = 128 + c.toNat % 64 := by
  have hbyte : trailByte c = (c.toUInt8 ||| 0x80) &&& 0xBF := by
    simp [trailByte, kByteMark, kByteMask]
  have hall (b : UInt8) : ((b ||| 0x80) &&& 0xBF).toNat = 128 + b.toNat % 64 :=
    byte_cases (P := fun b => ((b ||| 0x80) &&& 0xBF).toNat = 128 + b.toNat % 64)
      (by decide +kernel) b
  rw [hbyte, hall, UInt32.toNat_toUInt8]
  omega

theorem shiftRight_toNat (c : UInt32) : (c >>> 6).toNat = c.toNat / 64 := by
  rw [UInt32.toNat_shiftRight, Nat.shiftRight_eq_div_pow]
  rfl

theorem and_toNat (c : UInt32) (k : Nat) (m : UInt32) (hm : m.toNat = 2 ^ k - 1) :
    (c &&& m).toNat = c.toNat % 2 ^ k := by
  rw [UInt32.toNat_and, hm, Nat.and_two_pow_sub_one_eq_mod]

theorem utf8ShiftAndMask_toNat (codePoint : UInt32) (h : codePoint.toNat < 2 ^ 26) (b : UInt8) :
    (utf8ShiftAndMask codePoint b).toNat = codePoint.toNat * 64 + b.toNat % 64 := by
  have hmask : ((0x3F : UInt32) &&& b.toUInt32).toNat = b.toNat % 64 := by
    rw [UInt32.and_comm, and_toNat _ 6 _ rfl, UInt8.toNat_toUInt32]
    rfl
  have hshift : (codePoint <<< 6).toNat = codePoint.toNat <<< 6 := by
    rw [UInt32.toNat_shiftLeft, Nat.mod_eq_of_lt]
    · rfl
    · show codePoint.toNat <<< 6 < 2 ^ 32
      rw [Nat.shiftLeft_eq]
      omega
  have hlow : b.toNat % 64 < 2 ^ 6 := Nat.mod_lt _ (by decide)
  rw [utf8ShiftAndMask, UInt32.toNat_or, hmask, hshift, ← Nat.shiftLeft_add_eq_or_of_lt hlow,
    Nat.shiftLeft_eq]

theorem addShifted_toNat (u : UInt32) (b : UInt8) :
    ((u <<< 6) + (b.toUInt32 &&& 0x3F)).toNat = (u.toNat * 64 + b.toNat % 64) % 2 ^ 32 := by
  have hshift : (u <<< 6).toNat = u.toNat * 64 % 2 ^ 32 := by
    rw [UInt32.toNat_shiftLeft]
    show u.toNat <<< 6 % 2 ^ 32 = _
    rw [Nat.shiftLeft_eq]
  rw [UInt32.toNat_add, hshift, and_toNat _ 6 _ rfl, UInt8.toNat_toUInt32]
  omega

/-! ## One code point -/

/-- The bytes of a code point. -/
inductive Encoded (c : Nat) : UInt8 → List UInt8 → Prop
  | one {first : UInt8} (hc : c < 0x80) (hfirst : first.toNat = c) : Encoded c first []
  | two {first t : UInt8} (hlow : 0x80 ≤ c) (hc : c < 0x800) (hfirst : first.toNat = 192 + c / 64)
      (ht : t.toNat = 128 + c % 64) : Encoded c first [t]
  | three {first s t : UInt8} (hlow : 0x800 ≤ c) (hc : c < 0x10000)
      (hfirst : first.toNat = 224 + c / 64 / 64) (hs : s.toNat = 128 + c / 64 % 64)
      (ht : t.toNat = 128 + c % 64) : Encoded c first [s, t]
  | four {first r s t : UInt8} (hlow : 0x10000 ≤ c) (hc : c < 0x110000)
      (hfirst : first.toNat = 240 + c / 64 / 64 / 64) (hr : r.toNat = 128 + c / 64 / 64 % 64)
      (hs : s.toNat = 128 + c / 64 % 64) (ht : t.toNat = 128 + c % 64) :
      Encoded c first [r, s, t]

/-- A Unicode scalar value. -/
def IsScalar (c : UInt32) : Prop :=
  c < 0xD800 ∨ (0xDFFF < c ∧ c ≤ 0x10FFFF)

instance (c : UInt32) : Decidable (IsScalar c) :=
  inferInstanceAs (Decidable (_ ∨ _))

theorem isScalar_iff {c : UInt32} :
    IsScalar c ↔ c.toNat < 0xD800 ∨ (0xDFFF < c.toNat ∧ c.toNat ≤ 0x10FFFF) := by
  unfold IsScalar
  rw [UInt32.lt_iff_toNat_lt, UInt32.lt_iff_toNat_lt, UInt32.le_iff_toNat_le]
  exact Iff.rfl

theorem utf32CodepointUtf8Length_eq (c : UInt32) : utf32CodepointUtf8Length c =
    if c.toNat < 0x80 then 1
    else if c.toNat < 0x800 then 2
    else if c.toNat < 0x10000 then if c.toNat < 0xD800 ∨ 0xDFFF < c.toNat then 3 else 0
    else if c.toNat ≤ 0x10FFFF then 4
    else 0 := by
  unfold utf32CodepointUtf8Length kUnicodeSurrogateStart kUnicodeSurrogateEnd
    kUnicodeMaxCodepoint
  simp only [UInt32.lt_iff_toNat_lt, UInt32.le_iff_toNat_le]
  rfl

theorem firstByte_toNat {n k : Nat} {mark : UInt32} (c : UInt32) (hc : c.toNat < n)
    (hall : ∀ x < n, ((UInt32.ofNat x ||| mark).toUInt8).toNat = k + x) :
    ((c ||| mark).toUInt8).toNat = k + c.toNat := by
  have h := hall _ hc
  rwa [UInt32.ofNat_toNat] at h

/-- The encoder. -/
theorem encoded {c : UInt32} (hc : IsScalar c) : ∃ first trail,
    utf32CodepointToUtf8 c (utf32CodepointUtf8Length c) = first :: trail ∧
      Encoded c.toNat first trail ∧ utf32CodepointUtf8Length c = trail.length + 1 := by
  have h6 := shiftRight_toNat c
  have h12 := shiftRight_toNat (c >>> 6)
  have h18 := shiftRight_toNat (c >>> 6 >>> 6)
  rw [isScalar_iff] at hc
  rw [utf32CodepointUtf8Length_eq]
  -- one case for each length
  by_cases h1 : c.toNat < 128
  · rw [if_pos h1]
    refine ⟨_, _, rfl, .one h1 ?_, rfl⟩
    show ((c ||| 0).toUInt8).toNat = c.toNat
    rw [UInt32.or_zero, UInt32.toNat_toUInt8]
    omega
  rw [if_neg h1]
  by_cases h2 : c.toNat < 2048
  · rw [if_pos h2]
    refine ⟨_, _, rfl, .two (by omega) h2 ?_ (trailByte_toNat c), rfl⟩
    have hfirst : ((c >>> 6 ||| 0xC0).toUInt8).toNat = 192 + (c >>> 6).toNat :=
      firstByte_toNat (n := 32) _ (by omega) (by decide)
    rw [h6] at hfirst
    exact hfirst
  rw [if_neg h2]
  by_cases h3 : c.toNat < 65536
  · rw [if_pos h3, if_pos (by omega)]
    have hs := trailByte_toNat (c >>> 6)
    rw [h6] at hs
    refine ⟨_, _, rfl, .three (by omega) h3 ?_ hs (trailByte_toNat c), rfl⟩
    have hfirst : ((c >>> 6 >>> 6 ||| 0xE0).toUInt8).toNat = 224 + (c >>> 6 >>> 6).toNat :=
      firstByte_toNat (n := 16) _ (by omega) (by decide)
    rw [h12, h6] at hfirst
    exact hfirst
  · rw [if_neg h3, if_pos (by omega)]
    have hs := trailByte_toNat (c >>> 6)
    have hr := trailByte_toNat (c >>> 6 >>> 6)
    rw [h6] at hs
    rw [h12, h6] at hr
    refine ⟨_, _, rfl, .four (by omega) (by omega) ?_ hr hs (trailByte_toNat c), rfl⟩
    have hfirst : ((c >>> 6 >>> 6 >>> 6 ||| 0xF0).toUInt8).toNat =
        240 + (c >>> 6 >>> 6 >>> 6).toNat :=
      firstByte_toNat (n := 8) _ (by omega) (by decide)
    rw [h18, h12, h6] at hfirst
    exact hfirst

/-! ## First bytes -/

/-- What the functions see in the first byte of a form of `len` bytes, of which `x` are the
bits of the code point. -/
structure FirstByte (signed : Bool) (first : UInt8) (len x : Nat) : Prop where
  notAscii : first &&& 0x80 ≠ 0
  codepointLen : utf8CodepointLen first = len
  skip : numToSkip signed first = len
  bits : (charValue signed first).toNat % 2 ^ (7 - len) = x
  masked : first.toNat % 2 ^ (7 - len) = x
  set : ∀ i < len - 1, charValue signed first &&& (0x40 >>> UInt32.ofNat i) ≠ 0
  clear : charValue signed first &&& (0x40 >>> UInt32.ofNat (len - 1)) = 0

/-- The same facts in a form that can be computed. -/
def firstByteTest (signed : Bool) (first : UInt8) (len x : Nat) : Bool :=
  first &&& 0x80 ≠ 0 ∧ utf8CodepointLen first = len ∧ numToSkip signed first = len ∧
    (charValue signed first).toNat % 2 ^ (7 - len) = x ∧ first.toNat % 2 ^ (7 - len) = x ∧
    (∀ i < len - 1, charValue signed first &&& (0x40 >>> UInt32.ofNat i) ≠ 0) ∧
    charValue signed first &&& (0x40 >>> UInt32.ofNat (len - 1)) = 0

theorem firstByte_of_test {signed : Bool} {first : UInt8} {n k len x : Nat}
    (hall : ∀ signed, ∀ x < n, firstByteTest signed (UInt8.ofNat (k + x)) len x = true)
    (hfirst : first.toNat = k + x) (hx : x < n) : FirstByte signed first len x := by
  have htest := hall signed x hx
  rw [← hfirst, UInt8.ofNat_toNat, firstByteTest, decide_eq_true_eq] at htest
  obtain ⟨h1, h2, h3, h4, h5, h6, h7⟩ := htest
  exact ⟨h1, h2, h3, h4, h5, h6, h7⟩

theorem firstByte_two (signed : Bool) {first : UInt8} {x : Nat} (hfirst : first.toNat = 192 + x)
    (hx : x < 32) : FirstByte signed first 2 x :=
  firstByte_of_test (by decide +kernel) hfirst hx

theorem firstByte_three (signed : Bool) {first : UInt8} {x : Nat}
    (hfirst : first.toNat = 224 + x) (hx : x < 16) : FirstByte signed first 3 x :=
  firstByte_of_test (by decide +kernel) hfirst hx

theorem firstByte_four (signed : Bool) {first : UInt8} {x : Nat} (hfirst : first.toNat = 240 + x)
    (hx : x < 8) : FirstByte signed first 4 x :=
  firstByte_of_test (by decide +kernel) hfirst hx

/-- The ASCII test. -/
theorem ascii_and {first : UInt8} (h : first.toNat < 128) : first &&& 0x80 = 0 := by
  have hall : ∀ n < 128, UInt8.ofNat n &&& 0x80 = 0 := by decide
  rw [← UInt8.ofNat_toNat (x := first)]
  exact hall _ h

theorem utf8CodepointLen_ascii {first : UInt8} (h : first.toNat < 128) :
    utf8CodepointLen first = 1 := by
  have hall : ∀ n < 128, utf8CodepointLen (UInt8.ofNat n) = 1 := by decide +kernel
  rw [← UInt8.ofNat_toNat (x := first)]
  exact hall _ h

/-! ## Decoding one code point -/

variable {c : UInt32} {first : UInt8} {trail : List UInt8}

/-- The length is seen from the first byte. -/
theorem Encoded.codepointLen {c : Nat} (h : Encoded c first trail) :
    utf8CodepointLen first = trail.length + 1 := by
  cases h with
  | one hc hfirst => exact utf8CodepointLen_ascii (hfirst ▸ hc)
  | two hlow hc hfirst ht => exact (firstByte_two true hfirst (by omega)).codepointLen
  | three hlow hc hfirst hs ht => exact (firstByte_three true hfirst (by omega)).codepointLen
  | four hlow hc hfirst hr hs ht => exact (firstByte_four true hfirst (by omega)).codepointLen

theorem Encoded.numToSkip {c : Nat} (h : Encoded c first trail) (signed : Bool) :
    numToSkip signed first = trail.length + 1 := by
  cases h with
  | one hc hfirst => exact if_pos (ascii_and (hfirst ▸ hc))
  | two hlow hc hfirst ht => exact (firstByte_two signed hfirst (by omega)).skip
  | three hlow hc hfirst hs ht => exact (firstByte_three signed hfirst (by omega)).skip
  | four hlow hc hfirst hr hs ht => exact (firstByte_four signed hfirst (by omega)).skip

/-- The decoder with the length table. -/
theorem Encoded.codepoint (h : Encoded c.toNat first trail) (rest : List UInt8) :
    utf8ToUtf32Codepoint first (trail ++ rest) (trail.length + 1) = c := by
  apply UInt32.toNat_inj.mp
  cases h with
  | one hc hfirst =>
      show first.toUInt32.toNat = _
      rw [UInt8.toNat_toUInt32, hfirst]
  | @two t hlow hc hfirst ht =>
      have hbits := (firstByte_two true hfirst (by omega)).masked
      have h0 : (first.toUInt32 &&& 0x1f).toNat = c.toNat / 64 := by
        rw [and_toNat _ 5 _ rfl, UInt8.toNat_toUInt32]
        exact hbits
      show (utf8ShiftAndMask (first.toUInt32 &&& 0x1f) t).toNat = _
      rw [utf8ShiftAndMask_toNat _ (by omega), h0, ht]
      omega
  | @three s t hlow hc hfirst hs ht =>
      have hbits := (firstByte_three true hfirst (by omega)).masked
      have h0 : (first.toUInt32 &&& 0x0f).toNat = c.toNat / 64 / 64 := by
        rw [and_toNat _ 4 _ rfl, UInt8.toNat_toUInt32]
        exact hbits
      have h1 := utf8ShiftAndMask_toNat (first.toUInt32 &&& 0x0f) (by omega) s
      show (utf8ShiftAndMask (utf8ShiftAndMask (first.toUInt32 &&& 0x0f) s) t).toNat = _
      rw [utf8ShiftAndMask_toNat _ (by omega), h1, h0, hs, ht]
      omega
  | @four r s t hlow hc hfirst hr hs ht =>
      have hbits := (firstByte_four true hfirst (by omega)).masked
      have h0 : (first.toUInt32 &&& 0x07).toNat = c.toNat / 64 / 64 / 64 := by
        rw [and_toNat _ 3 _ rfl, UInt8.toNat_toUInt32]
        exact hbits
      have h1 := utf8ShiftAndMask_toNat (first.toUInt32 &&& 0x07) (by omega) r
      have h2 := utf8ShiftAndMask_toNat (utf8ShiftAndMask (first.toUInt32 &&& 0x07) r)
        (by omega) s
      show (utf8ShiftAndMask (utf8ShiftAndMask (utf8ShiftAndMask (first.toUInt32 &&& 0x07) r) s)
        t).toNat = _
      rw [utf8ShiftAndMask_toNat _ (by omega), h2, h1, h0, hr, hs, ht]
      omega

/-- The decoder that shifts a mask. -/
theorem Encoded.atInternal (h : Encoded c.toNat first trail) (signed : Bool)
    (rest : List UInt8) :
    utf32AtInternal signed first (trail ++ rest) = (c, trail.length + 1) := by
  cases h with
  | one hc hfirst =>
      rw [utf32AtInternal, if_pos (ascii_and (hfirst ▸ hc))]
      refine Prod.ext (UInt32.toNat_inj.mp ?_) rfl
      rw [UInt8.toNat_toUInt32, hfirst]
  | @two t hlow hc hfirst ht =>
      have hbyte := firstByte_two signed hfirst (show c.toNat / 64 < 32 by omega)
      have hbits := hbyte.bits
      have h1 : charValue signed first &&& 0x40 ≠ 0 := hbyte.set 0 (by decide)
      have h2 : charValue signed first &&& (0x40 : UInt32) >>> 1 = 0 := hbyte.clear
      rw [utf32AtInternal, if_neg hbyte.notAscii]
      generalize charValue signed first = F at hbits h1 h2
      -- each set bit below the mask reads one trailing byte
      have hloop : readTrail F 7 0x40 0xFFFFFF80 F 1 (t :: rest) =
          ((0x20 : UInt32), (0xFFFFFFC0 : UInt32), (F <<< 6) + (t.toUInt32 &&& 0x3F),
            (2 : Nat)) := by
        rw [readTrail, if_pos h1, readTrail, if_neg (not_not.mpr h2)]
        rfl
      have h3 := addShifted_toNat F t
      refine Prod.ext (UInt32.toNat_inj.mp ?_) (by simp [hloop])
      simp only [List.cons_append, List.nil_append, hloop]
      rw [and_toNat _ 11 _ rfl, h3, ht]
      omega
  | @three s t hlow hc hfirst hs ht =>
      have hbyte := firstByte_three signed hfirst (show c.toNat / 64 / 64 < 16 by omega)
      have hbits := hbyte.bits
      have h1 : charValue signed first &&& 0x40 ≠ 0 := hbyte.set 0 (by decide)
      have h2 : charValue signed first &&& (0x40 : UInt32) >>> 1 ≠ 0 := hbyte.set 1 (by decide)
      have h3 : charValue signed first &&& (0x40 : UInt32) >>> 1 >>> 1 = 0 := hbyte.clear
      rw [utf32AtInternal, if_neg hbyte.notAscii]
      generalize charValue signed first = F at hbits h1 h2 h3
      have hloop : readTrail F 7 0x40 0xFFFFFF80 F 1 (s :: t :: rest) =
          ((0x10 : UInt32), (0xFFFFFFE0 : UInt32),
            (((F <<< 6) + (s.toUInt32 &&& 0x3F)) <<< 6) + (t.toUInt32 &&& 0x3F), (3 : Nat)) := by
        rw [readTrail, if_pos h1, readTrail, if_pos h2, readTrail, if_neg (not_not.mpr h3)]
        rfl
      have h4 := addShifted_toNat F s
      have h5 := addShifted_toNat ((F <<< 6) + (s.toUInt32 &&& 0x3F)) t
      refine Prod.ext (UInt32.toNat_inj.mp ?_) (by simp [hloop])
      simp only [List.cons_append, List.nil_append, hloop]
      rw [and_toNat _ 16 _ rfl, h5, h4, hs, ht]
      omega
  | @four r s t hlow hc hfirst hr hs ht =>
      have hbyte := firstByte_four signed hfirst (show c.toNat / 64 / 64 / 64 < 8 by omega)
      have hbits := hbyte.bits
      have h1 : charValue signed first &&& 0x40 ≠ 0 := hbyte.set 0 (by decide)
      have h2 : charValue signed first &&& (0x40 : UInt32) >>> 1 ≠ 0 := hbyte.set 1 (by decide)
      have h3 : charValue signed first &&& (0x40 : UInt32) >>> 1 >>> 1 ≠ 0 :=
        hbyte.set 2 (by decide)
      have h4 : charValue signed first &&& (0x40 : UInt32) >>> 1 >>> 1 >>> 1 = 0 := hbyte.clear
      rw [utf32AtInternal, if_neg hbyte.notAscii]
      generalize charValue signed first = F at hbits h1 h2 h3 h4
      have hloop : readTrail F 7 0x40 0xFFFFFF80 F 1 (r :: s :: t :: rest) =
          ((0x08 : UInt32), (0xFFFFFFF0 : UInt32),
            (((((F <<< 6) + (r.toUInt32 &&& 0x3F)) <<< 6) + (s.toUInt32 &&& 0x3F)) <<< 6) +
              (t.toUInt32 &&& 0x3F), (4 : Nat)) := by
        rw [readTrail, if_pos h1, readTrail, if_pos h2, readTrail, if_pos h3, readTrail,
          if_neg (not_not.mpr h4)]
        rfl
      have h5 := addShifted_toNat F r
      have h6 := addShifted_toNat ((F <<< 6) + (r.toUInt32 &&& 0x3F)) s
      have h7 := addShifted_toNat
        ((((F <<< 6) + (r.toUInt32 &&& 0x3F)) <<< 6) + (s.toUInt32 &&& 0x3F)) t
      refine Prod.ext (UInt32.toNat_inj.mp ?_) (by simp [hloop])
      simp only [List.cons_append, List.nil_append, hloop]
      rw [and_toNat _ 21 _ rfl, h7, h6, h5, hr, hs, ht]
      omega

/-! ## Sequences of code points -/

/-- One more code point is encoded. -/
theorem utf32ToUtf8_cons (c : UInt32) (cs : List UInt32) : utf32ToUtf8 (c :: cs) =
    utf32CodepointToUtf8 c (utf32CodepointUtf8Length c) ++ utf32ToUtf8 cs :=
  List.flatMap_cons

theorem utf8ToUtf32_utf32ToUtf8 (signed : Bool) {cs : List UInt32} (h : ∀ c ∈ cs, IsScalar c) :
    utf8ToUtf32 signed (utf32ToUtf8 cs) = cs := by
  induction cs with
  | nil => rw [utf32ToUtf8, List.flatMap_nil, utf8ToUtf32]
  | cons c cs ih =>
      obtain ⟨first, trail, hbytes, hencoded, -⟩ := encoded (h c List.mem_cons_self)
      have hrest := ih fun d hd => h d (List.mem_cons_of_mem c hd)
      rw [utf32ToUtf8_cons, hbytes, List.cons_append, utf8ToUtf32, hencoded.atInternal]
      dsimp only
      rw [Nat.add_sub_cancel, List.drop_left, hrest]

theorem utf8ToUtf32Length_utf32ToUtf8 (signed : Bool) {cs : List UInt32}
    (h : ∀ c ∈ cs, IsScalar c) : utf8ToUtf32Length signed (utf32ToUtf8 cs) = cs.length := by
  induction cs with
  | nil => rw [utf32ToUtf8, List.flatMap_nil, utf8ToUtf32Length, List.length_nil]
  | cons c cs ih =>
      obtain ⟨first, trail, hbytes, hencoded, -⟩ := encoded (h c List.mem_cons_self)
      have hrest := ih fun d hd => h d (List.mem_cons_of_mem c hd)
      rw [utf32ToUtf8_cons, hbytes, List.cons_append, utf8ToUtf32Length, hencoded.numToSkip,
        Nat.add_sub_cancel, List.drop_left, hrest, List.length_cons]

theorem length_utf32ToUtf8 {cs : List UInt32} (h : ∀ c ∈ cs, IsScalar c) :
    (utf32ToUtf8 cs).length = (cs.map utf32CodepointUtf8Length).sum := by
  induction cs with
  | nil => rfl
  | cons c cs ih =>
      obtain ⟨first, trail, hbytes, -, hlength⟩ := encoded (h c List.mem_cons_self)
      have hrest := ih fun d hd => h d (List.mem_cons_of_mem c hd)
      rw [utf32ToUtf8_cons, hbytes, List.map_cons, List.sum_cons, hlength, List.length_append,
        hrest, List.length_cons]

theorem utf8ToUtf16_utf32ToUtf8 {cs : List UInt32} (h : ∀ c ∈ cs, IsScalar c) :
    utf8ToUtf16 (utf32ToUtf8 cs) = cs.flatMap codepointUnits := by
  induction cs with
  | nil => rw [utf32ToUtf8, List.flatMap_nil, List.flatMap_nil, utf8ToUtf16]
  | cons c cs ih =>
      obtain ⟨first, trail, hbytes, hencoded, -⟩ := encoded (h c List.mem_cons_self)
      have hrest := ih fun d hd => h d (List.mem_cons_of_mem c hd)
      rw [utf32ToUtf8_cons, hbytes, List.cons_append, utf8ToUtf16, hencoded.codepointLen,
        hencoded.codepoint, Nat.add_sub_cancel, List.drop_left, hrest, List.flatMap_cons]

/-- The measured length is that of what is written. -/
theorem measureUtf16_utf32ToUtf8 {cs : List UInt32} (h : ∀ c ∈ cs, IsScalar c) :
    measureUtf16 (utf32ToUtf8 cs) = some (cs.flatMap codepointUnits).length := by
  induction cs with
  | nil =>
      rw [utf32ToUtf8, List.flatMap_nil, measureUtf16]
      rfl
  | cons c cs ih =>
      obtain ⟨first, trail, hbytes, hencoded, -⟩ := encoded (h c List.mem_cons_self)
      have hrest := ih fun d hd => h d (List.mem_cons_of_mem c hd)
      have hunits : (codepointUnits c).length = if 0xFFFF < c then 2 else 1 := by
        unfold codepointUnits
        by_cases hc : c ≤ 0xFFFF
        · rw [if_pos hc, if_neg (UInt32.not_lt.mpr hc), List.length_singleton]
        · rw [if_neg hc, if_pos (UInt32.not_le.mp hc)]
          rfl
      have hinside : ¬ (trail ++ utf32ToUtf8 cs).length < trail.length + 1 - 1 := by
        rw [List.length_append]
        omega
      rw [utf32ToUtf8_cons, hbytes, List.cons_append, measureUtf16, hencoded.codepointLen,
        hencoded.codepoint]
      rw [if_neg hinside, Nat.add_sub_cancel, List.drop_left, hrest, List.flatMap_cons,
        List.length_append, hunits, Option.map_some, Nat.add_comm]

/-! ## UTF-16 -/

/-- Every surrogate has its partner. -/
inductive WellFormed : List UInt16 → Prop
  | nil : WellFormed []
  | unit {u : UInt16} {rest : List UInt16} (hu : u.toNat < 0xD800 ∨ 0xDFFF < u.toNat)
      (hrest : WellFormed rest) : WellFormed (u :: rest)
  | pair {u v : UInt16} {rest : List UInt16} (hu : 0xD800 ≤ u.toNat ∧ u.toNat ≤ 0xDBFF)
      (hv : 0xDC00 ≤ v.toNat ∧ v.toNat ≤ 0xDFFF) (hrest : WellFormed rest) :
      WellFormed (u :: v :: rest)

/-- The upper six bits of a unit. -/
theorem upperBits (u : UInt16) : (u &&& 0xFC00).toNat = u.toNat / 1024 * 1024 := by
  rw [UInt16.toNat_and]
  apply Nat.eq_of_testBit_eq
  intro i
  have hmask : (0xFC00 : UInt16).toNat = (2 ^ 6 - 1) <<< 10 := rfl
  have hdiv : u.toNat / 1024 * 1024 = (u.toNat >>> 10) <<< 10 := by
    rw [Nat.shiftLeft_eq, Nat.shiftRight_eq_div_pow]
  rw [hmask, hdiv, Nat.testBit_and, Nat.testBit_shiftLeft, Nat.testBit_shiftLeft,
    Nat.testBit_shiftRight, Nat.testBit_two_pow_sub_one]
  by_cases hi : 10 ≤ i
  · have hsum : 10 + (i - 10) = i := by omega
    by_cases hlt : i - 10 < 6
    · simp [hi, hlt, hsum]
    · have hbig : u.toNat < 2 ^ i :=
        lt_of_lt_of_le u.toNat_lt (Nat.pow_le_pow_right (by decide) (by omega))
      simp [hi, hlt, hsum, Nat.testBit_lt_two_pow hbig]
  · simp [hi]

theorem isHigh_iff (u : UInt16) :
    u &&& 0xFC00 = 0xD800 ↔ 0xD800 ≤ u.toNat ∧ u.toNat ≤ 0xDBFF := by
  rw [← UInt16.toNat_inj, upperBits]
  show u.toNat / 1024 * 1024 = 55296 ↔ _
  omega

theorem isLow_iff (u : UInt16) :
    u &&& 0xFC00 = 0xDC00 ↔ 0xDC00 ≤ u.toNat ∧ u.toNat ≤ 0xDFFF := by
  rw [← UInt16.toNat_inj, upperBits]
  show u.toNat / 1024 * 1024 = 56320 ↔ _
  omega

theorem pairValue_toNat {u v : UInt16} (hu : 0xD800 ≤ u.toNat ∧ u.toNat ≤ 0xDBFF)
    (hv : 0xDC00 ≤ v.toNat ∧ v.toNat ≤ 0xDFFF) :
    (pairValue u v).toNat = 0x10000 + (u.toNat - 0xD800) * 1024 + (v.toNat - 0xDC00) := by
  have hhigh : (u.toUInt32 - 0xD800).toNat = u.toNat - 0xD800 := by
    rw [UInt32.toNat_sub_of_le]
    · rfl
    · rw [UInt32.le_iff_toNat_le, UInt16.toNat_toUInt32]
      exact hu.1
  have hlow : (v.toUInt32 - 0xDC00).toNat = v.toNat - 0xDC00 := by
    rw [UInt32.toNat_sub_of_le]
    · rfl
    · rw [UInt32.le_iff_toNat_le, UInt16.toNat_toUInt32]
      exact hv.1
  have hshift : ((u.toUInt32 - 0xD800) <<< 10).toNat = (u.toNat - 0xD800) <<< 10 := by
    rw [UInt32.toNat_shiftLeft, hhigh, Nat.mod_eq_of_lt]
    · rfl
    · show (u.toNat - 0xD800) <<< 10 < 2 ^ 32
      rw [Nat.shiftLeft_eq]
      omega
  have hbits : v.toNat - 0xDC00 < 2 ^ 10 := by omega
  rw [pairValue, UInt32.toNat_add, UInt32.toNat_or, hshift, hlow,
    ← Nat.shiftLeft_add_eq_or_of_lt hbits, Nat.shiftLeft_eq]
  show ((u.toNat - 0xD800) * 1024 + (v.toNat - 0xDC00) + 0x10000) % 2 ^ 32 = _
  omega

theorem isScalar_unit {u : UInt16} (hu : u.toNat < 0xD800 ∨ 0xDFFF < u.toNat) :
    IsScalar u.toUInt32 := by
  have hlt := u.toNat_lt
  rw [isScalar_iff, UInt16.toNat_toUInt32]
  omega

theorem isScalar_pair {u v : UInt16} (hu : 0xD800 ≤ u.toNat ∧ u.toNat ≤ 0xDBFF)
    (hv : 0xDC00 ≤ v.toNat ∧ v.toNat ≤ 0xDFFF) : IsScalar (pairValue u v) := by
  rw [isScalar_iff, pairValue_toNat hu hv]
  omega

/-- The units of a code point in the first plane. -/
theorem codepointUnits_unit (u : UInt16) : codepointUnits u.toUInt32 = [u] := by
  have hle : u.toUInt32 ≤ 0xFFFF := by
    rw [UInt32.le_iff_toNat_le, UInt16.toNat_toUInt32]
    exact Nat.le_of_lt_succ u.toNat_lt
  rw [codepointUnits, if_pos hle, UInt16.toUInt16_toUInt32]

theorem codepointUnits_pair {u v : UInt16} (hu : 0xD800 ≤ u.toNat ∧ u.toNat ≤ 0xDBFF)
    (hv : 0xDC00 ≤ v.toNat ∧ v.toNat ≤ 0xDFFF) : codepointUnits (pairValue u v) = [u, v] := by
  have hvalue := pairValue_toNat hu hv
  have hlarge : ¬ pairValue u v ≤ 0xFFFF := by
    rw [UInt32.le_iff_toNat_le, hvalue]
    show ¬ _ ≤ 65535
    omega
  have hsub : (pairValue u v - 0x10000).toNat = (u.toNat - 0xD800) * 1024 + (v.toNat - 0xDC00) := by
    rw [UInt32.toNat_sub_of_le, hvalue]
    · show _ - 65536 = _
      omega
    · rw [UInt32.le_iff_toNat_le, hvalue]
      show 65536 ≤ _
      omega
  rw [codepointUnits, if_neg hlarge]
  refine congrArg₂ List.cons ?_ (congrArg₂ List.cons ?_ rfl)
  · apply UInt16.toNat_inj.mp
    rw [UInt32.toNat_toUInt16, UInt32.toNat_add, UInt32.toNat_shiftRight, hsub,
      Nat.shiftRight_eq_div_pow]
    show (((u.toNat - 0xD800) * 1024 + (v.toNat - 0xDC00)) / 1024 + 0xD800) % 2 ^ 32 % 2 ^ 16 = _
    omega
  · apply UInt16.toNat_inj.mp
    rw [UInt32.toNat_toUInt16, UInt32.toNat_add, and_toNat _ 10 _ rfl, hsub]
    show (((u.toNat - 0xD800) * 1024 + (v.toNat - 0xDC00)) % 1024 + 0xDC00) % 2 ^ 32 % 2 ^ 16 = _
    omega

theorem utf16Codepoints_unit {u : UInt16} (hu : u.toNat < 0xD800 ∨ 0xDFFF < u.toNat)
    (rest : List UInt16) : utf16Codepoints (u :: rest) = u.toUInt32 :: utf16Codepoints rest := by
  cases rest with
  | nil => rfl
  | cons v rest =>
      have hpair : ¬ isPair u v = true := by
        rw [isPair, decide_eq_true_eq, isHigh_iff]
        omega
      rw [utf16Codepoints, if_neg hpair]

theorem utf16BytesNeeded_unit {u : UInt16} (hu : u.toNat < 0xD800 ∨ 0xDFFF < u.toNat)
    (rest : List UInt16) : utf16BytesNeeded (u :: rest) =
      utf32CodepointUtf8Length u.toUInt32 + utf16BytesNeeded rest := by
  cases rest with
  | nil => rfl
  | cons v rest =>
      have hhigh : ¬ u &&& 0xFC00 = 0xD800 := by
        rw [isHigh_iff]
        omega
      rw [utf16BytesNeeded, if_neg hhigh]

/-- What a well-formed sequence stands for. -/
structure Codepoints (src : List UInt16) (cs : List UInt32) : Prop where
  eq : utf16Codepoints src = cs
  scalar : ∀ c ∈ cs, IsScalar c
  units : cs.flatMap codepointUnits = src
  bytes : utf16BytesNeeded src = (cs.map utf32CodepointUtf8Length).sum

theorem WellFormed.codepoints {src : List UInt16} (h : WellFormed src) :
    ∃ cs, Codepoints src cs := by
  induction h with
  | nil => exact ⟨[], rfl, fun c hc => absurd hc List.not_mem_nil, rfl, rfl⟩
  | @unit u rest hu hrest ih =>
      obtain ⟨cs, heq, hscalar, hunits, hbytes⟩ := ih
      refine ⟨u.toUInt32 :: cs, ?_, ?_, ?_, ?_⟩
      · rw [utf16Codepoints_unit hu, heq]
      · intro c hc
        rcases List.mem_cons.mp hc with rfl | hc
        · exact isScalar_unit hu
        · exact hscalar c hc
      · rw [List.flatMap_cons, codepointUnits_unit, hunits]
        rfl
      · rw [utf16BytesNeeded_unit hu, hbytes, List.map_cons, List.sum_cons]
  | @pair u v rest hu hv hrest ih =>
      obtain ⟨cs, heq, hscalar, hunits, hbytes⟩ := ih
      have hpair : isPair u v = true := by
        rw [isPair, decide_eq_true_eq, isHigh_iff, isLow_iff]
        exact ⟨hu, hv⟩
      have hfour : utf32CodepointUtf8Length (pairValue u v) = 4 := by
        rw [utf32CodepointUtf8Length_eq, pairValue_toNat hu hv, if_neg (by omega),
          if_neg (by omega), if_neg (by omega), if_pos (by omega)]
      refine ⟨pairValue u v :: cs, ?_, ?_, ?_, ?_⟩
      · rw [utf16Codepoints, if_pos hpair, heq]
      · intro c hc
        rcases List.mem_cons.mp hc with rfl | hc
        · exact isScalar_pair hu hv
        · exact hscalar c hc
      · rw [List.flatMap_cons, codepointUnits_pair hu hv, hunits]
        rfl
      · rw [utf16BytesNeeded, if_pos ((isHigh_iff u).mpr hu), if_pos ((isLow_iff v).mpr hv), hbytes,
          List.map_cons, List.sum_cons, hfour, Nat.add_comm]

/-! ## Round trips -/

/-- UTF-16 through UTF-8 and back. -/
structure RoundTrips16 (src : List UInt16) : Prop where
  encodedLength : utf16ToUtf8Length src = (utf16ToUtf8 src).length
  length : utf8ToUtf16Length (utf16ToUtf8 src) = src.length
  units : utf8ToUtf16 (utf16ToUtf8 src) = src

/-- UTF-32 through UTF-8 and back, with a signed `char` or an unsigned one. -/
structure RoundTrips32 (signed : Bool) (src : List UInt32) : Prop where
  encodedLength : utf32ToUtf8Length src = (utf32ToUtf8 src).length
  length : utf8ToUtf32Length signed (utf32ToUtf8 src) =
    (utf8ToUtf32 signed (utf32ToUtf8 src)).length
  points : utf8ToUtf32 signed (utf32ToUtf8 src) = src

theorem WellFormed.roundTrips {src : List UInt16} (h : WellFormed src) (hsome : src ≠ []) :
    RoundTrips16 src := by
  obtain ⟨cs, heq, hscalar, hunits, hbytes⟩ := h.codepoints
  have himage : utf16ToUtf8 src = utf32ToUtf8 cs := by
    rw [utf16ToUtf8, heq]
    rfl
  constructor
  · rw [utf16ToUtf8Length, if_neg hsome, himage, length_utf32ToUtf8 hscalar, hbytes]
  · rw [utf8ToUtf16Length, himage, measureUtf16_utf32ToUtf8 hscalar, hunits]
    rfl
  · rw [himage, utf8ToUtf16_utf32ToUtf8 hscalar, hunits]

theorem roundTrips32 (signed : Bool) {src : List UInt32} (hsome : src ≠ [])
    (hscalar : ∀ c ∈ src, IsScalar c) : RoundTrips32 signed src := by
  have hpoints := utf8ToUtf32_utf32ToUtf8 signed hscalar
  refine ⟨?_, ?_, hpoints⟩
  · rw [utf32ToUtf8Length, if_neg hsome, length_utf32ToUtf8 hscalar]
  · rw [hpoints, utf8ToUtf32Length_utf32ToUtf8 signed hscalar]

/-- `String16(String8(s))`. -/
theorem WellFormed.string16_string8 {src : List UInt16} (h : WellFormed src) :
    String16.allocFromUtf8 true (String8.allocFromUtf16 true src) = src := by
  by_cases hsome : src = []
  · subst hsome
    rfl
  · obtain ⟨hencoded, hlength, hunits⟩ := h.roundTrips hsome
    have hpos : ¬ ((utf16ToUtf8 src).length : Int) < 0 := by omega
    have hpos' : ¬ (src.length : Int) < 0 := by omega
    have hbytes : String8.allocFromUtf16 true src = utf16ToUtf8 src := by
      unfold String8.allocFromUtf16
      rw [if_neg hsome, hencoded]
      dsimp only
      rw [if_neg hpos, if_pos rfl, Int.toNat_natCast, List.take_length]
    have himage : utf16ToUtf8 src ≠ [] := by
      intro hnil
      rw [hnil, utf8ToUtf16] at hunits
      exact hsome hunits.symm
    unfold String16.allocFromUtf8
    rw [hbytes, if_neg himage, hlength]
    dsimp only
    rw [if_neg hpos', if_pos rfl, hunits, Int.toNat_natCast, List.take_length]

/-- Well-formed text comes back from UTF-8 as it was, with the lengths that were announced,
and so do strings. -/
theorem unicode_roundTrips :
    (∀ src, WellFormed src → src ≠ [] → RoundTrips16 src) ∧
    (∀ signed src, src ≠ [] → (∀ c ∈ src, IsScalar c) → RoundTrips32 signed src) ∧
    ∀ src, WellFormed src →
      String16.allocFromUtf8 true (String8.allocFromUtf16 true src) = src :=
  ⟨fun _ h hsome => h.roundTrips hsome, fun signed _ hsome h => roundTrips32 signed hsome h,
    fun _ h => h.string16_string8⟩

/-- A letter, the euro sign and a clef. -/
def mixedText : List UInt16 := [0x61, 0x20AC, 0xD834, 0xDD1E]

theorem mixedText_wellFormed : WellFormed mixedText :=
  .unit (by decide) (.unit (by decide) (.pair (by decide) (by decide) .nil))

theorem mixedText_codepoints : utf16Codepoints mixedText = [0x61, 0x20AC, 0x1D11E] := by
  decide

theorem mixedText_scalar : ∀ c ∈ utf16Codepoints mixedText, IsScalar c := by
  rw [mixedText_codepoints]
  intro c hc
  simp only [List.mem_cons, List.not_mem_nil, or_false] at hc
  rcases hc with rfl | rfl | rfl <;> decide

theorem unicode_roundTrips_mixedText : RoundTrips16 mixedText ∧
    RoundTrips32 true (utf16Codepoints mixedText) ∧
    String16.allocFromUtf8 true (String8.allocFromUtf16 true mixedText) = mixedText :=
  ⟨unicode_roundTrips.1 _ mixedText_wellFormed (by decide),
    unicode_roundTrips.2.1 true _ (by decide) mixedText_scalar,
    unicode_roundTrips.2.2 _ mixedText_wellFormed⟩

end Utils
end AndroidLinux
