import AndroidLinux.Cutils.Jstring

/-!
# Decoding modified UTF-8

What one character takes from a text, and the two loops over a text: `strcpy8to16` stops at the
NUL, which no sequence goes over, and `strcpylen8to16` at a length, which it does not always
reach or keep to.
-/

namespace AndroidLinux
namespace Cutils

open Lib Utils

/-- The bytes behind the first one: all that are announced, or as many as start with the bits
10; where the memory ends too early, it is read beyond its end. -/
theorem extensionLoop_cases (n : Nat) (ret : UInt32) (p : List UInt8) :
    (∃ ret' ext q, extensionLoop n ret p = some (ret', q) ∧ p = ext ++ q ∧
      (∀ b ∈ ext, isExtension b) ∧
      (ext.length = n ∨ ext.length < n ∧ ret' = utf16ReplacementChar ∧
        ∃ c q', q = c :: q' ∧ isExtension c = false)) ∨
    (extensionLoop n ret p = none ∧ p.length < n ∧ ∀ b ∈ p, isExtension b) := by
  induction n generalizing ret p with
  | zero => exact .inl ⟨ret, [], p, rfl, rfl, by simp, .inl rfl⟩
  | succ n ih =>
      cases p with
      | nil => exact .inr ⟨rfl, Nat.succ_pos n, by simp⟩
      | cons b p =>
          by_cases hb : isExtension b
          · have hne : b ≠ 0 := by
              rintro rfl
              exact absurd hb (by decide)
            have hloop : extensionLoop (n + 1) ret (b :: p) =
                extensionLoop n (utf8ShiftAndMask ret b) p := by
              rw [extensionLoop, if_neg hne, hb]
              rfl
            obtain ⟨ret', ext, q, hsome, rfl, hext, hlen⟩ | ⟨hnone, hlen, hall⟩ :=
              ih (utf8ShiftAndMask ret b) p
            · refine .inl ⟨ret', b :: ext, q, hloop.trans hsome, rfl, ?_, ?_⟩
              · exact List.forall_mem_cons.mpr ⟨hb, hext⟩
              · rw [List.length_cons, Nat.add_left_inj, Nat.add_lt_add_iff_right]
                exact hlen
            · exact .inr ⟨hloop.trans hnone, Nat.succ_lt_succ hlen,
                List.forall_mem_cons.mpr ⟨hb, hall⟩⟩
          · rw [Bool.not_eq_true] at hb
            refine .inl ⟨utf16ReplacementChar, [], b :: p, ?_, rfl, by simp,
              .inr ⟨Nat.succ_pos n, rfl, b, p, rfl, hb⟩⟩
            rw [extensionLoop, hb]
            split <;> rfl

/-- The value of a sequence without its first byte grows by six bits a byte. -/
theorem extensionLoop_lt {n : Nat} {ret ret' : UInt32} {p q : List UInt8} {limit : Nat}
    (h : extensionLoop n ret p = some (ret', q)) (hret : ret.toNat < limit)
    (hn : limit * 64 ^ n ≤ 2 ^ 26) :
    ret'.toNat < limit * 64 ^ n ∨ ret' = utf16ReplacementChar := by
  induction n generalizing ret p limit with
  | zero =>
      obtain ⟨rfl, -⟩ := Prod.mk.inj (Option.some.inj h)
      exact .inl (by simpa using hret)
  | succ n ih =>
      cases p with
      | nil => cases h
      | cons b p =>
          rw [extensionLoop] at h
          split at h
          · exact .inr (Prod.mk.inj (Option.some.inj h)).1.symm
          · split at h
            · exact .inr (Prod.mk.inj (Option.some.inj h)).1.symm
            · have hpow : limit * 64 ^ (n + 1) = limit * 64 * 64 ^ n := by
                rw [Nat.pow_succ, Nat.mul_assoc, Nat.mul_comm (64 ^ n) 64]
              have hle : limit * 64 ≤ limit * 64 * 64 ^ n :=
                Nat.le_mul_of_pos_right _ (Nat.pow_pos (by decide))
              rw [hpow] at hn ⊢
              refine ih h ?_ hn
              rw [utf8ShiftAndMask_toNat ret (by omega)]
              omega

theorem length_storedUnits_of_lt {ret : UInt32} (h : ret.toNat < 65536) :
    (storedUnits ret).length = 1 := by
  rw [storedUnits, if_pos]
  · rfl
  · rw [UInt32.le_iff_toNat_le]
    exact Nat.le_of_lt_succ h

theorem length_storedUnits (ret : UInt32) :
    (storedUnits ret).length = 1 ∨ (storedUnits ret).length = 2 := by
  unfold storedUnits
  split
  · exact .inl rfl
  · split
    · exact .inr rfl
    · exact .inl rfl

theorem leader_lt (b : UInt8) : utf8SeqLength b - 1 = 3 ∨
    ((b.toUInt32 &&& leaderMask (utf8SeqLength b)).toNat + 1) * 64 ^ (utf8SeqLength b - 1) ≤
      65536 :=
  byte_cases (P := fun b => utf8SeqLength b - 1 = 3 ∨
    ((b.toUInt32 &&& leaderMask (utf8SeqLength b)).toNat + 1) * 64 ^ (utf8SeqLength b - 1) ≤
      65536) (by decide +kernel) b

/-- The units that `strlen8to16` counts for a first byte. -/
def leaderUnits (b : UInt8) : Nat := if utf8SeqLength b - 1 = 3 then 2 else 1

/-- Only a sequence of four bytes can become two units. -/
theorem length_storedUnits_le {b : UInt8} {ret : UInt32} {p q : List UInt8}
    (h : extensionLoop (utf8SeqLength b - 1) (b.toUInt32 &&& leaderMask (utf8SeqLength b)) p =
      some (ret, q)) : (storedUnits ret).length ≤ leaderUnits b := by
  unfold leaderUnits
  split
  · obtain hone | htwo := length_storedUnits ret
    · omega
    · omega
  · rename_i hshort
    have hlimit := (leader_lt b).resolve_left hshort
    refine Nat.le_of_eq (length_storedUnits_of_lt ?_)
    obtain hlt | rfl :=
      extensionLoop_lt h (Nat.lt_succ_self _) (Nat.le_trans hlimit (by decide))
    · exact Nat.lt_of_lt_of_le hlt hlimit
    · decide

/-! ## One character of a text -/

/-- The character at the head of a text, and what is left. -/
inductive CharAt : List UInt8 → UInt32 → List UInt8 → Prop
  | stray {b : UInt8} {s : List UInt8} (hb : isExtension b = true) :
      CharAt (b :: s) utf16ReplacementChar s
  | lead {b : UInt8} {ret : UInt32} {ext s : List UInt8} (hb : isExtension b = false)
      (hext : ∀ c ∈ ext, isExtension c) (hlen : ext.length ≤ utf8SeqLength b - 1)
      (hstop : ext.length = utf8SeqLength b - 1 ∨ ∀ c ∈ s.head?, isExtension c = false)
      (hunits : (storedUnits ret).length ≤ leaderUnits b) : CharAt (b :: (ext ++ s)) ret s

theorem CharAt.length_lt {s s' : List UInt8} {ret : UInt32} (h : CharAt s ret s') :
    s'.length < s.length := by
  cases h with
  | stray => exact Nat.lt_succ_self _
  | lead => rw [List.length_cons, List.length_append]; omega

theorem CharAt.suffix {s s' : List UInt8} {ret : UInt32} (h : CharAt s ret s') : s' <:+ s := by
  cases h with
  | stray => exact List.suffix_cons _ _
  | lead => exact (List.suffix_append _ _).trans (List.suffix_cons _ _)

/-- Bytes that start with the bits 10 end in front of a NUL. -/
theorem split_before_nul {s behind ext q : List UInt8} (h : s ++ 0 :: behind = ext ++ q)
    (hext : ∀ b ∈ ext, isExtension b) : ∃ s', s = ext ++ s' ∧ q = s' ++ 0 :: behind := by
  obtain ⟨s', hs, hq⟩ | ⟨c, hs, hc⟩ := List.append_eq_append_iff.mp h
  · cases s' with
    | nil => exact ⟨[], by simpa using hs.symm, by simpa using hq.symm⟩
    | cons b s' =>
        obtain ⟨rfl, -⟩ := List.cons.inj hq
        exact absurd (hext 0 (hs ▸ List.mem_append_right s List.mem_cons_self)) (by decide)
  · exact ⟨c, hs, hc⟩

/-- One character is decoded, or the memory ends within it. -/
theorem getUtf32FromUtf8_cases {b : UInt8} (hb : b ≠ 0) (p : List UInt8) :
    (∃ ret q, getUtf32FromUtf8 (b :: p) = some (ret, q) ∧ CharAt (b :: p) ret q ∧
      (q = [] → isExtension b = false → utf8SeqLength b - 1 ≤ p.length)) ∨
      (getUtf32FromUtf8 (b :: p) = none ∧ isExtension b = false ∧
        p.length < utf8SeqLength b - 1 ∧ ∀ c ∈ p, isExtension c) := by
  cases hb' : isExtension b with
  | true =>
      exact .inl ⟨_, p, by rw [getUtf32FromUtf8, hb']; rfl, .stray hb', fun _ h => by cases h⟩
  | false =>
      have hloop : getUtf32FromUtf8 (b :: p) = extensionLoop (utf8SeqLength b - 1)
          (b.toUInt32 &&& leaderMask (utf8SeqLength b)) p := by
        rw [getUtf32FromUtf8, hb', if_neg Bool.false_ne_true]
        dsimp only
        rw [if_neg hb]
      obtain ⟨ret, ext, q, hsome, rfl, hext, hlen⟩ | ⟨hnone, hlen, hall⟩ := extensionLoop_cases
        (utf8SeqLength b - 1) (b.toUInt32 &&& leaderMask (utf8SeqLength b)) p
      · refine .inl ⟨ret, q, hloop.trans hsome,
          .lead hb' hext (by omega) (hlen.imp id ?_) (length_storedUnits_le hsome), ?_⟩
        · rintro ⟨-, -, c, q', rfl, hc⟩ d hd
          exact Option.some.inj hd ▸ hc
        · rintro rfl -
          obtain heq | ⟨-, -, c, q', hq, -⟩ := hlen
          · rw [List.append_nil, heq]
          · cases hq
      · exact .inr ⟨hloop.trans hnone, rfl, hlen, hall⟩

/-- In front of a NUL every character ends. -/
theorem getUtf32FromUtf8_terminated {b : UInt8} {s : List UInt8} (hb : b ≠ 0)
    (behind : List UInt8) :
    ∃ ret s', getUtf32FromUtf8 (b :: (s ++ 0 :: behind)) = some (ret, s' ++ 0 :: behind) ∧
      CharAt (b :: s) ret s' := by
  obtain ⟨ret, q, hget, hchar, -⟩ | ⟨-, -, -, hall⟩ :=
    getUtf32FromUtf8_cases hb (s ++ 0 :: behind)
  · rw [hget]
    generalize hp : s ++ 0 :: behind = p at hchar
    cases hchar with
    | stray hb' =>
        subst hp
        exact ⟨_, s, rfl, .stray hb'⟩
    | lead hb' hext hlen hstop hunits =>
        obtain ⟨s', rfl, rfl⟩ := split_before_nul hp hext
        refine ⟨ret, s', rfl, .lead hb' hext hlen (hstop.imp id fun hhead c hc => ?_) hunits⟩
        cases s' with
        | nil => cases hc
        | cons d s' => exact hhead c hc
  · exact absurd (hall 0 (List.mem_append_right s List.mem_cons_self)) (by decide)

/-! ## The loops over a text -/

/-- Both loops return for a text without a NUL that a NUL follows, and with the same units. -/
theorem loops_terminated {passes : Nat} {s : List UInt8} (hs : 0 ∉ s) (hpasses : s.length < passes)
    (behind : List UInt8) :
    ∃ units, strcpy8to16 passes (s ++ 0 :: behind) = some units ∧
      strcpylen8to16 passes s.length (s ++ 0 :: behind) = some units := by
  induction passes generalizing s with
  | zero => exact absurd hpasses (Nat.not_lt_zero _)
  | succ passes ih =>
      cases s with
      | nil => exact ⟨[], rfl, rfl⟩
      | cons b s =>
          have hb : b ≠ 0 := fun hzero => hs (hzero ▸ List.mem_cons_self)
          obtain ⟨ret, s', hget, hchar⟩ := getUtf32FromUtf8_terminated (s := s) hb behind
          have hlt := hchar.length_lt
          obtain ⟨units, hcopy, hcopylen⟩ :=
            ih (fun hmem => hs (hchar.suffix.subset hmem)) (by omega)
          refine ⟨storedUnits ret ++ units, ?_, ?_⟩
          · rw [List.cons_append, strcpy8to16, if_neg hb, hget, Option.bind_some, hcopy]
            rfl
          · have hleft : (b :: s).length -
                ((b :: (s ++ 0 :: behind)).length - (s' ++ 0 :: behind).length) = s'.length := by
              simp only [List.length_cons, List.length_append] at hlt ⊢
              omega
            rw [List.cons_append, strcpylen8to16,
              if_pos (show 0 < (b :: s).length from Nat.succ_pos _), hget, Option.bind_some, hleft,
              hcopylen]
            rfl

/-- The bytes that are expected do not count. -/
theorem strlenLoop_expected {ext : List UInt8} (hext : ∀ b ∈ ext, isExtension b) {n : Nat}
    (hn : ext.length ≤ n) (s : List UInt8) :
    strlenLoop n (ext ++ s) = strlenLoop ((n - ext.length : Nat) : Int) s := by
  induction ext generalizing n with
  | nil => rfl
  | cons b ext ih =>
      obtain ⟨hb, hext⟩ := List.forall_mem_cons.mp hext
      rw [List.length_cons] at hn
      have hpred : (n : Int) - 1 = ((n - 1 : Nat) : Int) := by omega
      rw [List.cons_append, strlenLoop, if_pos hb, hpred, if_neg (by omega), Nat.zero_add,
        ih hext (by omega), List.length_cons, Nat.sub_sub, Nat.add_comm 1]

/-- `strlen8to16` counts enough, where no byte with the bits 10 is expected. -/
theorem length_units_le {passes : Nat} {s behind : List UInt8} {units : List UInt16} (hs : 0 ∉ s)
    (h : strcpy8to16 passes (s ++ 0 :: behind) = some units) (expected : Int)
    (hexpected : expected ≤ 0 ∨ ∀ c ∈ s.head?, isExtension c = false) :
    units.length ≤ strlenLoop expected s := by
  induction passes generalizing s units expected with
  | zero => cases h
  | succ passes ih =>
      cases s with
      | nil =>
          obtain rfl := Option.some.inj h
          exact Nat.zero_le _
      | cons b s =>
          have hb : b ≠ 0 := fun hzero => hs (hzero ▸ List.mem_cons_self)
          obtain ⟨ret, s', hget, hchar⟩ := getUtf32FromUtf8_terminated (s := s) hb behind
          rw [List.cons_append, strcpy8to16, if_neg hb, hget, Option.bind_some] at h
          obtain ⟨rest, hrest, rfl⟩ := Option.map_eq_some_iff.mp h
          have hs' : 0 ∉ s' := fun hmem => hs (hchar.suffix.subset hmem)
          rw [List.length_append]
          cases hchar with
          | stray hb' =>
              have hle : expected ≤ 0 := by
                refine hexpected.resolve_right fun hhead => ?_
                rw [hhead b rfl] at hb'
                cases hb'
              have hcount := ih hs' hrest (expected - 1) (.inl (by omega))
              have hone : (storedUnits utf16ReplacementChar).length = 1 := by decide
              rw [strlenLoop, if_pos hb', if_pos (by omega), hone]
              omega
          | @lead b ret ext s' hb' hext hlen hstop hunits =>
              have hcount := ih hs' hrest (utf8SeqLength b - 1 - ext.length : Nat)
                (hstop.imp (fun heq => by omega) id)
              rw [strlenLoop, hb', if_neg Bool.false_ne_true, strlenLoop_expected hext hlen]
              exact Nat.add_le_add hunits hcount

/-! ## The loop up to a length -/

/-- A text that ends within a sequence. -/
def CutShort (bytes : List UInt8) : Prop :=
  ∃ front b ext, bytes = front ++ b :: ext ∧ isExtension b = false ∧
    (∀ c ∈ ext, isExtension c) ∧ ext.length < utf8SeqLength b - 1

/-- Where the first character is whole, only a sequence behind it can be cut short. -/
theorem CharAt.cutShort_iff {b : UInt8} {p q : List UInt8} {ret : UInt32}
    (h : CharAt (b :: p) ret q)
    (hwhole : q = [] → isExtension b = false → utf8SeqLength b - 1 ≤ p.length) :
    CutShort (b :: p) ↔ CutShort q := by
  constructor
  · rintro ⟨front, c, ext', hs, hc, hext', hlen'⟩
    cases h with
    | stray hb =>
        cases front with
        | nil =>
            obtain rfl := (List.cons.inj hs).1
            rw [hc] at hb
            cases hb
        | cons d front => exact ⟨front, c, ext', (List.cons.inj hs).2, hc, hext', hlen'⟩
    | @lead b ret ext q hb hext hlen hstop hunits =>
        cases front with
        | nil =>
            -- what follows the character ends its sequence
            obtain ⟨rfl, rfl⟩ := List.cons.inj hs
            cases q with
            | nil => exact absurd (hwhole rfl hb) (Nat.not_le.mpr hlen')
            | cons d q =>
                rw [List.length_append, List.length_cons] at hlen'
                have hd := hext' d (List.mem_append_right ext List.mem_cons_self)
                rw [(hstop.resolve_left (by omega)) d rfl] at hd
                cases hd
        | cons d front =>
            obtain ⟨a, -, hq⟩ | ⟨a, hext'', hq⟩ :=
              List.append_eq_append_iff.mp (List.cons.inj hs).2
            · exact ⟨a, c, ext', hq, hc, hext', hlen'⟩
            · cases a with
              | nil => exact ⟨[], c, ext', hq.symm, hc, hext', hlen'⟩
              | cons e a =>
                  obtain rfl := (List.cons.inj hq).1
                  have he := hext c (hext'' ▸ List.mem_append_right front List.mem_cons_self)
                  rw [hc] at he
                  cases he
  · rintro ⟨front, c, ext', rfl, hc, hext', hlen'⟩
    obtain ⟨front', hsplit⟩ := h.suffix
    exact ⟨front' ++ front, c, ext', by rw [← hsplit, List.append_assoc], hc, hext', hlen'⟩

/-- A NUL behind the first character. -/
theorem CharAt.zero_mem_iff {b : UInt8} {p q : List UInt8} {ret : UInt32} (hb : b ≠ 0)
    (h : CharAt (b :: p) ret q) : 0 ∈ b :: p ↔ 0 ∈ q := by
  refine ⟨fun hmem => ?_, fun hmem => h.suffix.subset hmem⟩
  have hmem := (List.mem_cons.mp hmem).resolve_left hb.symm
  cases h with
  | stray => exact hmem
  | lead _ hext =>
      refine (List.mem_append.mp hmem).resolve_left fun hin => ?_
      exact absurd (hext 0 hin) (by decide)

/-- What is left of the length behind a character. -/
theorem CharAt.length_left {s s' : List UInt8} {ret : UInt32} (h : CharAt s ret s') :
    s.length - (s.length - s'.length) = s'.length := by
  have hlt := h.length_lt
  omega

theorem strcpylen8to16_returns {passes : Nat} {bytes : List UInt8} (hnul : 0 ∉ bytes)
    (hcut : ¬ CutShort bytes) (hpasses : bytes.length < passes) :
    ∃ units, strcpylen8to16 passes bytes.length bytes = some units := by
  induction passes generalizing bytes with
  | zero => exact absurd hpasses (Nat.not_lt_zero _)
  | succ passes ih =>
      cases bytes with
      | nil => exact ⟨[], rfl⟩
      | cons b p =>
          have hb : b ≠ 0 := fun hzero => hnul (hzero ▸ List.mem_cons_self)
          obtain ⟨ret, q, hget, hchar, hwhole⟩ | ⟨-, hlead, hlen, hext⟩ :=
            getUtf32FromUtf8_cases hb p
          · have hlt := hchar.length_lt
            rw [hchar.zero_mem_iff hb] at hnul
            rw [hchar.cutShort_iff hwhole] at hcut
            obtain ⟨units, hrun⟩ := ih hnul hcut (by omega)
            refine ⟨storedUnits ret ++ units, ?_⟩
            rw [strcpylen8to16, if_pos (show 0 < (b :: p).length from Nat.succ_pos _), hget,
              Option.bind_some, hchar.length_left, hrun]
            rfl
          · exact absurd ⟨[], b, p, rfl, hlead, hext, hlen⟩ hcut

/-- The loop keeps to a text exactly when there is no NUL in it and its last sequence is
whole. -/
theorem strcpylen8to16_inside_iff (bytes : List UInt8) :
    (∃ passes units, strcpylen8to16 passes bytes.length bytes = some units) ↔
      0 ∉ bytes ∧ ¬ CutShort bytes := by
  constructor
  · rintro ⟨passes, units, hrun⟩
    induction passes generalizing bytes units with
    | zero => cases hrun
    | succ passes ih =>
        cases bytes with
        | nil =>
            refine ⟨List.not_mem_nil, ?_⟩
            rintro ⟨front, b, ext, hsplit, -⟩
            cases front <;> cases hsplit
        | cons b p =>
            rw [strcpylen8to16, if_pos (show 0 < (b :: p).length from Nat.succ_pos _)] at hrun
            obtain ⟨r, hget, hrun⟩ := Option.bind_eq_some_iff.mp hrun
            obtain ⟨rest, hrest, -⟩ := Option.map_eq_some_iff.mp hrun
            by_cases hb : b = 0
            · -- the next pass begins where this one did
              subst hb
              obtain rfl := Option.some.inj hget
              rw [Nat.sub_self, Nat.sub_zero] at hrest
              exact absurd List.mem_cons_self (ih _ _ hrest).1
            · obtain ⟨ret, q, hget', hchar, hwhole⟩ | ⟨hnone, -⟩ := getUtf32FromUtf8_cases hb p
              · obtain rfl := Option.some.inj (hget.symm.trans hget')
                dsimp only at hrest
                rw [hchar.length_left] at hrest
                rw [hchar.zero_mem_iff hb, hchar.cutShort_iff hwhole]
                exact ih _ _ hrest
              · rw [hnone] at hget
                cases hget
  · rintro ⟨hnul, hcut⟩
    exact ⟨bytes.length + 1, strcpylen8to16_returns hnul hcut (Nat.lt_succ_self _)⟩

theorem extensionLoop_append {n : Nat} {ret : UInt32} {p : List UInt8} {r : UInt32 × List UInt8}
    (h : extensionLoop n ret p = some r) (behind : List UInt8) :
    extensionLoop n ret (p ++ behind) = some (r.1, r.2 ++ behind) := by
  induction n generalizing ret p with
  | zero =>
      obtain rfl := Option.some.inj h
      rfl
  | succ n ih =>
      cases p with
      | nil => cases h
      | cons b p =>
          rw [List.cons_append, extensionLoop]
          rw [extensionLoop] at h
          split at h
          · rename_i hb
            obtain rfl := Option.some.inj h
            rw [if_pos hb]
            rfl
          rename_i hb
          rw [if_neg hb]
          split at h
          · rename_i hext
            obtain rfl := Option.some.inj h
            rw [if_pos hext]
            rfl
          · rename_i hext
            rw [if_neg hext]
            exact ih h

/-- What is behind the memory that is read does not matter. -/
theorem strcpylen8to16_append {passes length : Nat} {p : List UInt8} {units : List UInt16}
    (h : strcpylen8to16 passes length p = some units) (behind : List UInt8) :
    strcpylen8to16 passes length (p ++ behind) = some units := by
  induction passes generalizing length p units with
  | zero => cases h
  | succ passes ih =>
      rw [strcpylen8to16] at h ⊢
      split at h
      · rename_i hpos
        obtain ⟨r, hget, hrun⟩ := Option.bind_eq_some_iff.mp h
        obtain ⟨rest, hrest, rfl⟩ := Option.map_eq_some_iff.mp hrun
        have hget' : getUtf32FromUtf8 (p ++ behind) = some (r.1, r.2 ++ behind) := by
          cases p with
          | nil => cases hget
          | cons b p =>
              rw [List.cons_append, getUtf32FromUtf8]
              rw [getUtf32FromUtf8] at hget
              dsimp only at hget ⊢
              split at hget
              · rename_i hb
                obtain rfl := Option.some.inj hget
                rw [if_pos hb]
              rename_i hb
              rw [if_neg hb]
              split at hget
              · rename_i hzero
                obtain rfl := Option.some.inj hget
                rw [if_pos hzero]
                rfl
              · rename_i hzero
                rw [if_neg hzero]
                exact extensionLoop_append hget behind
        have hleft : (p ++ behind).length - (r.2 ++ behind).length = p.length - r.2.length := by
          rw [List.length_append, List.length_append]
          omega
        rw [if_pos hpos, hget', Option.bind_some, hleft, ih hrest]
        rfl
      · rename_i hnone
        rw [if_neg hnone]
        exact h

/-- The promise for the bytes of a given length: the call returns, whatever is behind them, even
if nothing is there that could be read. -/
structure StopsInside (bytes : List UInt8) : Prop where
  inside : ∃ passes units, ∀ behind, strcpylen8to16 passes bytes.length (bytes ++ behind) =
    some units
  agrees : 0 ∉ bytes → ∀ behind, ∃ passes units,
    strcpylen8to16 passes bytes.length (bytes ++ 0 :: behind) = some units ∧
      strcpy8to16 passes (bytes ++ 0 :: behind) = some units

/-- The call returns and reads nothing else exactly for bytes without a NUL that do not end
within a sequence; what it writes where a NUL follows is what `strcpy8to16` writes. -/
theorem stopsInside_iff (bytes : List UInt8) :
    StopsInside bytes ↔ 0 ∉ bytes ∧ ¬ CutShort bytes := by
  constructor
  · intro h
    obtain ⟨passes, units, hrun⟩ := h.inside
    have halone := hrun []
    rw [List.append_nil] at halone
    exact (strcpylen8to16_inside_iff bytes).mp ⟨passes, units, halone⟩
  · intro h
    obtain ⟨passes, units, hrun⟩ := (strcpylen8to16_inside_iff bytes).mpr h
    refine ⟨⟨passes, units, strcpylen8to16_append hrun⟩, fun hnul behind => ?_⟩
    obtain ⟨units, hcopy, hcopylen⟩ := loops_terminated hnul (Nat.lt_succ_self _) behind
    exact ⟨bytes.length + 1, units, hcopylen, hcopy⟩

/-- One NUL is written for ever. -/
theorem nul_never_ends : ¬ StopsInside [0] := by
  intro h
  obtain ⟨passes, units, hrun⟩ := h.inside
  exact absurd List.mem_cons_self ((strcpylen8to16_inside_iff [0]).mp ⟨passes, units, hrun []⟩).1

end Cutils
end AndroidLinux
