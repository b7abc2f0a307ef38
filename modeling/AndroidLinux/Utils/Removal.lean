import AndroidLinux.Utils.CharBuffers

/-!
# Removing all occurrences from a string

`String8::removeAll`.  The text is compacted in the buffer that is searched; what `memcpy`
stores when the two ranges overlap is not specified.
-/

namespace AndroidLinux
namespace Utils

/-- `strstr`: the offset of the first occurrence in front of the NUL. -/
def strstr (p : List UInt8) : List UInt8 → Option Nat
  | [] => none
  | c :: s =>
      if p.isPrefixOf (c :: s) then some 0
      else if c = 0 then none
      else (strstr p s).map (· + 1)

/-- `String8::find`, in the data of the string's buffer. -/
def find (buf : List UInt8) (len : Nat) (other : List UInt8) (start : Nat) : Option Nat :=
  if len ≤ start then none else (strstr other (buf.drop start)).map (start + ·)

/-- What `memcpy` stores: a buffer, the two offsets and the number of bytes. -/
abbrev Memcpy := List UInt8 → Nat → Nat → Nat → List UInt8

/-- Two ranges of `n` bytes do not overlap. -/
def NoOverlap (dest src n : Nat) : Prop := dest + n ≤ src ∨ src + n ≤ dest

instance (dest src n : Nat) : Decidable (NoOverlap dest src n) :=
  inferInstanceAs (Decidable (_ ∨ _))

/-- `memcpy` stores as many bytes as it should, and the right ones if the ranges do not overlap. -/
structure Memcpy.Conforms (memcpy : Memcpy) : Prop where
  length : ∀ buf dest src n, src + n ≤ buf.length → (memcpy buf dest src n).length = n
  copies : ∀ buf dest src n, src + n ≤ buf.length → NoOverlap dest src n →
    memcpy buf dest src n = (buf.drop src).take n

/-- Bytes are stored in a buffer. -/
def storeBytes (buf : List UInt8) (dest : Nat) (bs : List UInt8) : List UInt8 :=
  buf.take dest ++ bs ++ buf.drop (dest + bs.length)

/-- The loop of `removeAll`: the buffer and `tail` after it. -/
def removeLoop (memcpy : Memcpy) (other : List UInt8) (len : Nat) :
    Nat → List UInt8 → Nat → Nat → Option (List UInt8 × Nat)
  | 0, _, _, _ => none
  | fuel + 1, buf, tail, index =>
      let skip := other.length
      if index < len then
        let next := (find buf len other (index + skip)).getD len
        let n := next - index - skip
        removeLoop memcpy other len fuel
          (storeBytes buf tail (memcpy buf tail (index + skip) n)) (tail + n) next
      else some (buf, tail)

/-- `String8::removeAll`, with a bound for the passes of the loop. -/
def removeAll (memcpy : Memcpy) (fuel : Nat) (junk : UInt8) (h : CharHeap UInt8) (mString : Nat)
    (other : List UInt8) : Option (CharHeap UInt8 × Nat × Bool) :=
  match find (h.buffer mString).data (h.size mString) other 0 with
  | none => some (h, mString, false)
  | some index =>
      let r := h.lockBuffer junk mString (h.size mString)
      let len := r.1.size r.2
      (removeLoop memcpy other len fuel (r.1.buffer r.2).data index index).map fun loop =>
        let unlocked := (r.1.edit r.2 fun _ => loop.1).unlockBuffer junk r.2 loop.2
        (unlocked.1, unlocked.2, true)

/-! ## What should be left -/

/-- The text without the occurrences of `p`, from left to right. -/
def removed (p : List UInt8) : List UInt8 → List UInt8
  | [] => []
  | c :: s =>
      if p ≠ [] ∧ p <+: c :: s then removed p ((c :: s).drop p.length) else c :: removed p s
termination_by s => s.length
decreasing_by
  · rename_i h
    have hpos := List.length_pos_iff.mpr h.1
    rw [List.length_drop]
    have hcons : (c :: s).length = s.length + 1 := rfl
    omega
  · exact Nat.lt_succ_self _

/-- The first occurrence in a text. -/
def firstAt (p : List UInt8) : List UInt8 → Option Nat
  | [] => none
  | c :: s => if p <+: c :: s then some 0 else (firstAt p s).map (· + 1)

/-- After `gone` bytes have been removed, the stretches that are kept are not longer than what
has been removed in front of them. -/
inductive StretchesFit (p : List UInt8) : Nat → List UInt8 → Prop
  | last {gone : Nat} {s : List UInt8} : firstAt p s = none → s.length ≤ gone →
      StretchesFit p gone s
  | next {gone k : Nat} {s : List UInt8} : firstAt p s = some k → k ≤ gone →
      StretchesFit p (gone + p.length) (s.drop (k + p.length)) → StretchesFit p gone s

theorem removed_cons_of_prefix {p s : List UInt8} {c : UInt8} (hp : p ≠ []) (h : p <+: c :: s) :
    removed p (c :: s) = removed p ((c :: s).drop p.length) := by
  rw [removed, if_pos ⟨hp, h⟩]

theorem removed_cons_of_not_prefix {p s : List UInt8} {c : UInt8} (h : ¬ p <+: c :: s) :
    removed p (c :: s) = c :: removed p s := by
  rw [removed, if_neg (fun hall => h hall.2)]

theorem removed_nil (p : List UInt8) : removed p [] = [] := by
  rw [removed]

theorem firstAt_le {p s : List UInt8} {k : Nat} (h : firstAt p s = some k) :
    k + p.length ≤ s.length := by
  induction s generalizing k with
  | nil => cases h
  | cons c s ih =>
      rw [firstAt] at h
      split at h
      · rename_i hfront
        obtain rfl := Option.some.inj h
        rw [Nat.zero_add]
        exact hfront.length_le
      · obtain ⟨j, hj, rfl⟩ := Option.map_eq_some_iff.mp h
        have hle := ih hj
        rw [List.length_cons]
        omega

/-- The text up to the first occurrence is kept. -/
theorem removed_eq {p : List UInt8} (hp : p ≠ []) (s : List UInt8) :
    (firstAt p s = none → removed p s = s) ∧
      ∀ k, firstAt p s = some k →
        removed p s = s.take k ++ removed p (s.drop (k + p.length)) := by
  induction s with
  | nil => exact ⟨fun _ => removed_nil p, fun k hk => by cases hk⟩
  | cons c s ih =>
      rw [firstAt]
      by_cases hfront : p <+: c :: s
      · rw [if_pos hfront, removed_cons_of_prefix hp hfront]
        refine ⟨fun hnone => absurd hnone (Option.some_ne_none _), fun k hk => ?_⟩
        obtain rfl := Option.some.inj hk
        rw [Nat.zero_add, List.take_zero, List.nil_append]
      · rw [if_neg hfront, removed_cons_of_not_prefix hfront]
        refine ⟨fun hnone => ?_, fun k hk => ?_⟩
        · rw [ih.1 (Option.map_eq_none_iff.mp hnone)]
        · obtain ⟨j, hj, rfl⟩ := Option.map_eq_some_iff.mp hk
          rw [ih.2 j hj, List.take_succ_cons, List.cons_append]
          have hshift : j + 1 + p.length = j + p.length + 1 := by omega
          rw [hshift, List.drop_succ_cons]

theorem length_removed_le (p s : List UInt8) : (removed p s).length ≤ s.length := by
  fun_induction removed p s with
  | case1 => exact Nat.le_refl _
  | case2 c s h ih => exact Nat.le_trans ih (List.drop_suffix _ _).length_le
  | case3 c s h ih => exact Nat.succ_le_succ ih

theorem isInfix_iff_firstAt {p : List UInt8} (hp : p ≠ []) (s : List UInt8) :
    p <:+: s ↔ firstAt p s ≠ none := by
  induction s with
  | nil =>
      rw [List.infix_nil]
      exact iff_of_false hp fun h => h rfl
  | cons c s ih =>
      rw [List.infix_cons_iff, ih, firstAt]
      by_cases hfront : p <+: c :: s
      · rw [if_pos hfront]
        exact iff_of_true (.inl hfront) (Option.some_ne_none _)
      · rw [if_neg hfront, or_iff_right hfront, ne_eq, ne_eq, Option.map_eq_none_iff]

/-! ## The search -/

/-- A pattern without a NUL ends in front of the NUL. -/
theorem prefix_append_nul {p s : List UInt8} (hp : 0 ∉ p) (tail : List UInt8) :
    p <+: s ++ 0 :: tail ↔ p <+: s := by
  refine ⟨fun h => ?_, fun h => h.trans (List.prefix_append _ _)⟩
  induction p generalizing s with
  | nil => exact List.nil_prefix
  | cons x p ih =>
      obtain ⟨hx, hrest⟩ := not_or.mp (List.mem_cons.not.mp hp)
      cases s with
      | nil => exact absurd (List.cons_prefix_cons.mp h).1.symm hx
      | cons c s =>
          obtain ⟨hhead, htail⟩ := List.cons_prefix_cons.mp h
          exact List.cons_prefix_cons.mpr ⟨hhead, ih hrest htail⟩

theorem strstr_eq {p s : List UInt8} (hne : p ≠ []) (hp : 0 ∉ p) (hs : 0 ∉ s)
    (tail : List UInt8) : strstr p (s ++ 0 :: tail) = firstAt p s := by
  induction s with
  | nil =>
      have hno : ¬ p <+: 0 :: tail := fun h =>
        hne (List.prefix_nil.mp ((prefix_append_nul (s := []) hp tail).mp h))
      rw [List.nil_append, strstr, if_neg (fun h => hno (List.isPrefixOf_iff_prefix.mp h)),
        if_pos rfl]
      rfl
  | cons c s ih =>
      obtain ⟨hc, hrest⟩ := not_or.mp (List.mem_cons.not.mp hs)
      rw [List.cons_append, strstr, firstAt, if_neg (Ne.symm hc), ih hrest]
      have hiff : (p.isPrefixOf (c :: (s ++ 0 :: tail)) = true) ↔ p <+: c :: s := by
        rw [List.isPrefixOf_iff_prefix, ← List.cons_append]
        exact prefix_append_nul hp tail
      by_cases hfront : p <+: c :: s
      · rw [if_pos hfront, if_pos (hiff.mpr hfront)]
      · rw [if_neg hfront, if_neg (fun h => hfront (hiff.mp h))]

theorem find_eq {buf p rest tail : List UInt8} {len start : Nat} (hne : p ≠ []) (hp : 0 ∉ p)
    (hrest : 0 ∉ rest) (hbuf : buf.drop start = rest ++ 0 :: tail)
    (hlen : start + rest.length = len) :
    find buf len p start = (firstAt p rest).map (start + ·) := by
  unfold find
  rw [hbuf, strstr_eq hne hp hrest]
  split
  · have hnil : rest = [] := List.length_eq_zero_iff.mp (by omega)
    rw [hnil]
    rfl
  · rfl

/-- The first search goes through the whole string. -/
theorem find_size {h : CharHeap UInt8} {b : Nat} {s p : List UInt8} (hb : h.Holds b s)
    (hs : 0 ∉ s) (hne : p ≠ []) (hp : 0 ∉ p) :
    find (h.buffer b).data (h.size b) p 0 = firstAt p s := by
  have hdata : (h.buffer b).data.drop 0 = s ++ 0 :: [] := hb.data
  rw [find_eq hne hp hs hdata ((Nat.zero_add _).trans hb.size.symm)]
  cases firstAt p s with
  | none => rfl
  | some k => exact congrArg some (Nat.zero_add k)

/-! ## The loop -/

theorem take_storeBytes {buf w : List UInt8} {dest : Nat} (h : dest ≤ buf.length) :
    (storeBytes buf dest w).take (dest + w.length) = buf.take dest ++ w := by
  unfold storeBytes
  have hlen : dest + w.length = (buf.take dest ++ w).length := by
    rw [List.length_append, List.length_take_of_le h]
  rw [hlen, List.take_left]

theorem length_storeBytes {buf w : List UInt8} {dest : Nat}
    (h : dest + w.length ≤ buf.length) : (storeBytes buf dest w).length = buf.length := by
  unfold storeBytes
  rw [List.length_append, List.length_append, List.length_drop,
    List.length_take_of_le (by omega)]
  omega

theorem drop_storeBytes {buf w : List UInt8} {dest i : Nat} (h : dest + w.length ≤ buf.length)
    (hi : dest + w.length ≤ i) : (storeBytes buf dest w).drop i = buf.drop i := by
  unfold storeBytes
  have hlen : (buf.take dest ++ w).length = dest + w.length := by
    rw [List.length_append, List.length_take_of_le (by omega)]
  rw [List.drop_append, hlen, List.drop_eq_nil_of_le (by omega), List.nil_append, List.drop_drop]
  congr 1
  omega

/-- A `memcpy` that copies ranges with bytes in common, too. -/
def Memcpy.Moves (memcpy : Memcpy) : Prop :=
  ∀ buf dest src n, src + n ≤ buf.length → memcpy buf dest src n = (buf.drop src).take n

theorem Memcpy.Moves.conforms {memcpy : Memcpy} (h : memcpy.Moves) : memcpy.Conforms where
  length buf dest src n hsrc := by
    rw [h buf dest src n hsrc]
    exact List.length_take_of_le (by rw [List.length_drop]; omega)
  copies buf dest src n hsrc _ := h buf dest src n hsrc

/-- A `memcpy` that stores something else whenever the ranges have bytes in common. -/
def Memcpy.Spoils (memcpy : Memcpy) : Prop :=
  ∀ buf dest src n, src + n ≤ buf.length → ¬ NoOverlap dest src n →
    memcpy buf dest src n ≠ (buf.drop src).take n

/-- The loop compacts what follows an occurrence: `out` is what it puts behind the text that is
kept already. -/
structure Compacted (memcpy : Memcpy) (p rest buf buf' : List UInt8) (gone tail : Nat)
    (out : List UInt8) : Prop where
  length : buf'.length = buf.length
  text : buf'.take (tail + out.length) = buf.take tail ++ out
  size : out.length = (removed p rest).length
  moved : memcpy.Moves → out = removed p rest
  right : StretchesFit p gone rest → out = removed p rest
  wrong : memcpy.Spoils → out = removed p rest → StretchesFit p gone rest

/-- What one call of `memcpy` puts behind the kept text for the stretch of `n` bytes at the head
of the rest. -/
structure StretchCopied (memcpy : Memcpy) (rest : List UInt8) (gone n : Nat) (w : List UInt8) :
    Prop where
  size : w.length = n
  moved : memcpy.Moves → w = rest.take n
  right : n ≤ gone → w = rest.take n
  wrong : memcpy.Spoils → w = rest.take n → n ≤ gone

/-- One call of `memcpy`: the stretch is right if it is not longer than the gap. -/
theorem stretchCopied {memcpy : Memcpy} (hm : memcpy.Conforms) {buf rest : List UInt8}
    {tail gone src n : Nat} (hdrop : buf.drop src = rest ++ [0]) (hn : n ≤ rest.length)
    (hsrc : src + n ≤ buf.length) (hgap : tail + gone = src) :
    StretchCopied memcpy rest gone n (memcpy buf tail src n) := by
  have htake : (buf.drop src).take n = rest.take n := by
    rw [hdrop, List.take_append_of_le_length hn]
  refine ⟨hm.length _ _ _ _ hsrc, fun hmoves => (hmoves _ _ _ _ hsrc).trans htake,
    fun hle => ?_, fun hspoils hright => ?_⟩
  · rw [hm.copies _ _ _ _ hsrc (.inl (by omega)), htake]
  · by_contra hlong
    refine hspoils buf tail src n hsrc ?_ (hright.trans htake.symm)
    unfold NoOverlap
    omega

/-- The rest without an occurrence is the last stretch. -/
theorem StretchCopied.last {memcpy : Memcpy} {p rest buf w : List UInt8} {gone tail : Nat}
    (hw : StretchCopied memcpy rest gone rest.length w) (hne : p ≠ [])
    (hfirst : firstAt p rest = none) (hroom : tail + rest.length ≤ buf.length) :
    Compacted memcpy p rest buf (storeBytes buf tail w) gone tail w := by
  have hkept := (removed_eq hne rest).1 hfirst
  have hsize := hw.size
  obtain ⟨-, hmoved, hright, hwrong⟩ := hw
  rw [List.take_length] at hmoved hright hwrong
  refine ⟨length_storeBytes (by omega), take_storeBytes (by omega), ?_, fun hmoves => ?_,
    fun hfit => ?_, fun hspoils hout => ?_⟩
  · rw [hsize, hkept]
  · rw [hkept, hmoved hmoves]
  · rw [hkept]
    cases hfit with
    | last _ hle => exact hright hle
    | next hsome => rw [hfirst] at hsome; cases hsome
  · rw [hkept] at hout
    exact .last hfirst (hwrong hspoils hout)

/-- A stretch in front of an occurrence, and what is compacted behind the occurrence. -/
theorem StretchCopied.next {memcpy : Memcpy} {p rest buf buf' w out : List UInt8}
    {gone tail k : Nat} (hw : StretchCopied memcpy rest gone k w) (hne : p ≠ [])
    (hfirst : firstAt p rest = some k) (hk : k ≤ rest.length)
    (hroom : tail + k ≤ buf.length)
    (hbehind : Compacted memcpy p (rest.drop (k + p.length)) (storeBytes buf tail w) buf'
      (gone + p.length) (tail + k) out) :
    Compacted memcpy p rest buf buf' gone tail (w ++ out) := by
  have hkept := (removed_eq hne rest).2 k hfirst
  have hsize := hw.size
  have htext := take_storeBytes (w := w) (show tail ≤ buf.length by omega)
  rw [hsize] at htext
  refine ⟨hbehind.length.trans (length_storeBytes (by omega)), ?_, ?_, fun hmoves => ?_,
    fun hfit => ?_, fun hspoils hout => ?_⟩
  · rw [List.length_append, hsize, ← Nat.add_assoc, hbehind.text, htext, List.append_assoc]
  · rw [List.length_append, hsize, hkept, List.length_append, hbehind.size,
      List.length_take_of_le hk]
  · rw [hkept, hw.moved hmoves, hbehind.moved hmoves]
  · cases hfit with
    | last hnone => rw [hfirst] at hnone; cases hnone
    | next hsome hgone hrestfit =>
        rw [hfirst] at hsome
        obtain rfl := Option.some.inj hsome
        rw [hkept, hw.right hgone, hbehind.right hrestfit]
  · rw [hkept] at hout
    have hlens : w.length = (rest.take k).length := by
      rw [hsize, List.length_take_of_le hk]
    obtain ⟨hhead, htail⟩ := List.append_inj hout hlens
    exact .next hfirst (hw.wrong hspoils hhead) (hbehind.wrong hspoils htail)

theorem removeLoop_spec {memcpy : Memcpy} (hm : memcpy.Conforms) {p : List UInt8} (hne : p ≠ [])
    (hp : 0 ∉ p) (len : Nat) (n : Nat) :
    ∀ rest : List UInt8, rest.length = n → 0 ∉ rest → ∀ gone buf tail index,
      buf.length = len + 1 → index + p.length + rest.length = len →
      tail + gone = index + p.length → buf.drop (index + p.length) = rest ++ [0] →
      ∃ fuel buf' out, removeLoop memcpy p len fuel buf tail index =
          some (buf', tail + out.length) ∧
        Compacted memcpy p rest buf buf' gone tail out := by
  have hpos := List.length_pos_iff.mpr hne
  induction n using Nat.strong_induction_on with
  | _ n ih =>
      intro rest hn hrest gone buf tail index hbuf hlen hgap hdrop
      have hindex : index < len := by omega
      have hfind := find_eq hne hp hrest hdrop hlen
      cases hfirst : firstAt p rest with
      | none =>
          have hcount : len - index - p.length = rest.length := by omega
          have hw := stretchCopied hm hdrop (Nat.le_refl _) (by omega) hgap
          rw [hfirst, Option.map_none] at hfind
          refine ⟨2, _, _, ?_, hw.last hne hfirst (by omega)⟩
          rw [removeLoop, if_pos hindex]
          dsimp only
          rw [hfind, Option.getD_none, hcount, removeLoop, if_neg (Nat.lt_irrefl _), hw.size]
      | some k =>
          have hle := firstAt_le hfirst
          have hcount : index + p.length + k - index - p.length = k := by omega
          have hw := stretchCopied hm hdrop (n := k) (by omega) (by omega) hgap
          have hsize := hw.size
          have hfits : tail + (memcpy buf tail (index + p.length) k).length ≤ buf.length := by
            omega
          rw [hfirst, Option.map_some] at hfind
          have hdrop' : (storeBytes buf tail (memcpy buf tail (index + p.length) k)).drop
              (index + p.length + k + p.length) = rest.drop (k + p.length) ++ [0] := by
            rw [drop_storeBytes hfits (by omega), Nat.add_assoc (index + p.length),
              ← List.drop_drop, hdrop, List.drop_append_of_le_length hle]
          have hshort : (rest.drop (k + p.length)).length = rest.length - (k + p.length) :=
            List.length_drop
          obtain ⟨fuel, buf', out, hloop, hcompacted⟩ :=
            ih (rest.drop (k + p.length)).length (by omega) _ rfl
              (fun h => hrest (List.mem_of_mem_drop h)) (gone + p.length) _ (tail + k)
              (index + p.length + k) ((length_storeBytes hfits).trans hbuf) (by omega) (by omega)
              hdrop'
          refine ⟨fuel + 1, buf', memcpy buf tail (index + p.length) k ++ out, ?_,
            hw.next hne hfirst (by omega) (by omega) hcompacted⟩
          rw [removeLoop, if_pos hindex]
          dsimp only
          rw [hfind, Option.getD_some, hcount, hloop, List.length_append, hsize, Nat.add_assoc]

/-! ## The whole operation -/

/-- With a pattern the operation returns, and what it leaves behind the first occurrence is
right if the stretches fit. -/
theorem removeAll_found {memcpy : Memcpy} (hm : memcpy.Conforms) (junk : UInt8)
    {h : CharHeap UInt8} {b k : Nat} {s p : List UInt8} (hb : h.Holds b s) (hs : 0 ∉ s)
    (hne : p ≠ []) (hp : 0 ∉ p) (hk : firstAt p s = some k) :
    ∃ fuel h' b' out, removeAll memcpy fuel junk h b p = some (h', b', true) ∧
      h'.Holds b' (s.take k ++ out) ∧
      (∀ c, h.Elsewhere b c → (h'.buffer c).data = (h.buffer c).data) ∧
      (memcpy.Moves → out = removed p (s.drop (k + p.length))) ∧
      (StretchesFit p p.length (s.drop (k + p.length)) →
        out = removed p (s.drop (k + p.length))) ∧
      (memcpy.Spoils → out = removed p (s.drop (k + p.length)) →
        StretchesFit p p.length (s.drop (k + p.length))) := by
  have hpos := List.length_pos_iff.mpr hne
  have hle := firstAt_le hk
  have hfind : find (h.buffer b).data (h.size b) p 0 = some k := by
    rw [find_size hb hs hne hp, hk]
  obtain ⟨hedited, hdata⟩ := CharHeap.lockBuffer_spec junk hb
  have hlocked : (h.lockBuffer junk b s.length).1.size (h.lockBuffer junk b s.length).2 =
      s.length := by
    unfold CharHeap.size
    rw [hdata, List.length_append, List.length_singleton, Nat.add_sub_cancel]
  have hshort : (s.drop (k + p.length)).length = s.length - (k + p.length) := List.length_drop
  obtain ⟨fuel, buf, out, hloop, hcompacted⟩ :=
    removeLoop_spec hm hne hp s.length _ (s.drop (k + p.length)) rfl
      (fun h => hs (List.mem_of_mem_drop h)) p.length (s ++ [0]) k k
      (List.length_append.trans rfl) (by omega) rfl
      (List.drop_append_of_le_length hle)
  have htext : buf.take (k + out.length) = s.take k ++ out := by
    rw [hcompacted.text, List.take_append_of_le_length (by omega)]
  have hlength : buf.length = s.length + 1 := hcompacted.length.trans List.length_append
  have hout : out.length ≤ s.length - (k + p.length) := by
    rw [hcompacted.size, ← hshort]
    exact length_removed_le _ _
  have hsize : (s.take k ++ out).length = k + out.length := by
    rw [List.length_append, List.length_take_of_le (by omega)]
  obtain ⟨x, tail, htail⟩ : ∃ x tail, buf.drop (k + out.length) = x :: tail :=
    List.exists_cons_of_ne_nil fun hnil => by
      have hall := List.drop_eq_nil_iff.mp hnil
      omega
  have hsplit : buf = (s.take k ++ out) ++ x :: tail := by
    rw [← htext, ← htail, List.take_append_drop]
  have hedited' := hedited.edit fun _ => buf
  obtain ⟨hunlocked, hholds⟩ := CharHeap.unlockBuffer_spec junk hedited'
    ((CharHeap.data_edit _ _ _).trans hsplit) fun hnil => by
      have hlast := congrArg List.length htail
      rw [List.length_drop, hnil, List.length_singleton] at hlast
      omega
  rw [hsize] at hunlocked hholds
  refine ⟨fuel, _, _, out, ?_, hholds, fun c hc => (hunlocked.others c hc).2, hcompacted.moved,
    hcompacted.right, hcompacted.wrong⟩
  unfold removeAll
  rw [hfind]
  dsimp only
  rw [hb.size, hlocked, hdata, hloop]
  rfl

/-- The bound of the passes does not matter where the loop ends. -/
theorem removeLoop_unique {memcpy : Memcpy} {p : List UInt8} {len fuel fuel' : Nat}
    {buf : List UInt8} {tail index : Nat} {r r' : List UInt8 × Nat}
    (h : removeLoop memcpy p len fuel buf tail index = some r)
    (h' : removeLoop memcpy p len fuel' buf tail index = some r') : r = r' := by
  induction fuel generalizing fuel' buf tail index with
  | zero => cases h
  | succ fuel ih =>
      cases fuel' with
      | zero => cases h'
      | succ fuel' =>
          rw [removeLoop] at h h'
          by_cases hindex : index < len
          · rw [if_pos hindex] at h h'
            exact ih h h'
          · rw [if_neg hindex] at h h'
            exact Option.some.inj (h.symm.trans h')

theorem removeAll_unique {memcpy : Memcpy} {fuel fuel' : Nat} {junk : UInt8}
    {h : CharHeap UInt8} {b : Nat} {p : List UInt8} {r r' : CharHeap UInt8 × Nat × Bool}
    (hr : removeAll memcpy fuel junk h b p = some r)
    (hr' : removeAll memcpy fuel' junk h b p = some r') : r = r' := by
  unfold removeAll at hr hr'
  split at hr
  · rename_i hnone
    rw [hnone] at hr'
    exact Option.some.inj (hr.symm.trans hr')
  · rename_i hsome
    rw [hsome] at hr'
    obtain ⟨loop, hloop, rfl⟩ := Option.map_eq_some_iff.mp hr
    obtain ⟨loop', hloop', rfl⟩ := Option.map_eq_some_iff.mp hr'
    rw [removeLoop_unique hloop hloop']

/-- A `memcpy` that stores other bytes when the ranges overlap. -/
def spoiling : Memcpy := fun buf dest src n =>
  if NoOverlap dest src n then (buf.drop src).take n else ((buf.drop src).take n).map (· + 1)

theorem conforms_spoiling : Memcpy.Conforms spoiling where
  length buf dest src n hsrc := by
    have hlen : ((buf.drop src).take n).length = n :=
      List.length_take_of_le (by rw [List.length_drop]; omega)
    unfold spoiling
    split
    · exact hlen
    · rw [List.length_map, hlen]
  copies buf dest src n _ hapart := if_pos hapart

theorem spoils_spoiling : Memcpy.Spoils spoiling := by
  intro buf dest src n hsrc hover hsame
  unfold spoiling at hsame
  rw [if_neg hover] at hsame
  have hlen : ((buf.drop src).take n).length = n :=
    List.length_take_of_le (by rw [List.length_drop]; omega)
  cases hbytes : (buf.drop src).take n with
  | nil =>
      rw [hbytes, List.length_nil] at hlen
      unfold NoOverlap at hover
      omega
  | cons c bs =>
      rw [hbytes, List.map_cons] at hsame
      have hhead := congrArg UInt8.toNat (List.cons.inj hsame).1
      rw [UInt8.toNat_add] at hhead
      have hlt := c.toNat_lt
      have hone : (1 : UInt8).toNat = 1 := rfl
      omega

/-- The operation returns, says whether the pattern occurs, and leaves the text without it, and
the strings that shared the buffer as they were. -/
def RemovesWith (memcpy : Memcpy) (junk : UInt8) (h : CharHeap UInt8) (b : Nat)
    (s p : List UInt8) : Prop :=
  ∃ fuel h' b' found, removeAll memcpy fuel junk h b p = some (h', b', found) ∧
    (found = true ↔ p <:+: s) ∧ h'.Holds b' (removed p s) ∧
    ∀ c, h.Elsewhere b c → (h'.buffer c).data = (h.buffer c).data

/-- It does so whatever `memcpy` stores for ranges that overlap. -/
def RemovesAll (junk : UInt8) (h : CharHeap UInt8) (b : Nat) (s p : List UInt8) : Prop :=
  ∀ memcpy : Memcpy, memcpy.Conforms → RemovesWith memcpy junk h b s p

/-- An empty pattern is found where the search begins, and the loop does not get any further. -/
theorem removeLoop_empty {memcpy : Memcpy} (hm : memcpy.Conforms) {s : List UInt8} (hs : s ≠ [])
    (fuel : Nat) : removeLoop memcpy [] s.length fuel (s ++ [0]) 0 0 = none := by
  have hpos := List.length_pos_iff.mpr hs
  have hfind : find (s ++ [0]) s.length [] 0 = some 0 := by
    unfold find
    rw [if_neg (by omega)]
    cases s with
    | nil => exact absurd rfl hs
    | cons c s => rfl
  have hnothing : memcpy (s ++ [0]) 0 0 0 = [] := List.length_eq_zero_iff.mp
    (hm.length _ _ _ _ (Nat.zero_le _))
  induction fuel with
  | zero => rfl
  | succ fuel ih =>
      rw [removeLoop, if_pos hpos]
      dsimp only
      rw [List.length_nil, Nat.zero_add, hfind, Option.getD_some, Nat.sub_zero, Nat.sub_zero,
        hnothing]
      exact ih

theorem not_removesWith_empty {memcpy : Memcpy} (hm : memcpy.Conforms) (junk : UInt8)
    {h : CharHeap UInt8} {b : Nat} {s : List UInt8} (hb : h.Holds b s) :
    ¬ RemovesWith memcpy junk h b s [] := by
  rintro ⟨fuel, h', b', found, hrun, hfound, -⟩
  unfold removeAll at hrun
  rw [hb.size, hb.data] at hrun
  cases s with
  | nil =>
      have hfalse : false = found := congrArg (fun r => r.2.2) (Option.some.inj hrun)
      rw [← hfalse] at hfound
      exact Bool.false_ne_true (hfound.mpr (List.nil_infix))
  | cons c s =>
      have hfind : find (c :: s ++ [0]) (c :: s).length [] 0 = some 0 := rfl
      rw [hfind] at hrun
      obtain ⟨-, hdata⟩ := CharHeap.lockBuffer_spec junk hb
      dsimp only at hrun
      have hlocked : (h.lockBuffer junk b (c :: s).length).1.size
          (h.lockBuffer junk b (c :: s).length).2 = (c :: s).length := by
        unfold CharHeap.size
        rw [hdata, List.length_append, List.length_singleton, Nat.add_sub_cancel]
      rw [hlocked, hdata, removeLoop_empty hm (List.cons_ne_nil c s)] at hrun
      cases hrun

/-- With a pattern, what is left depends on the stretches behind the first occurrence. -/
theorem removesWith_of_right {memcpy : Memcpy} (hm : memcpy.Conforms) (junk : UInt8)
    {h : CharHeap UInt8} {b : Nat} {s p : List UInt8} (hb : h.Holds b s) (hs : 0 ∉ s)
    (hp : 0 ∉ p) (hne : p ≠ [])
    (hfit : memcpy.Moves ∨ ∀ k, firstAt p s = some k →
      StretchesFit p p.length (s.drop (k + p.length))) :
    RemovesWith memcpy junk h b s p := by
  cases hfirst : firstAt p s with
  | none =>
      refine ⟨0, h, b, false, ?_, ?_, ?_, fun _ _ => rfl⟩
      · unfold removeAll
        rw [find_size hb hs hne hp, hfirst]
      · refine iff_of_false Bool.false_ne_true fun hin => ?_
        exact (isInfix_iff_firstAt hne s).mp hin hfirst
      · rw [(removed_eq hne s).1 hfirst]
        exact hb
  | some k =>
      obtain ⟨fuel, h', b', out, hrun, hholds, hothers, hmoved, hright, -⟩ :=
        removeAll_found hm junk hb hs hne hp hfirst
      have hout : out = removed p (s.drop (k + p.length)) := by
        obtain hmoves | hfit := hfit
        · exact hmoved hmoves
        · exact hright (hfit k hfirst)
      refine ⟨fuel, h', b', true, hrun, iff_of_true rfl ?_, ?_, hothers⟩
      · rw [isInfix_iff_firstAt hne, hfirst]
        exact Option.some_ne_none k
      · rw [(removed_eq hne s).2 k hfirst, ← hout]
        exact hholds

/-- All occurrences are removed exactly when the pattern is not empty and no stretch that is
kept behind the first one is longer than what has been removed in front of it; only the
pattern counts where `memcpy` copies ranges that overlap, too. -/
theorem removesAll_iff (junk : UInt8) {h : CharHeap UInt8} {b : Nat} {s p : List UInt8}
    (hb : h.Holds b s) (hs : 0 ∉ s) (hp : 0 ∉ p) :
    (RemovesAll junk h b s p ↔
      p ≠ [] ∧ ∀ k, firstAt p s = some k →
        StretchesFit p p.length (s.drop (k + p.length))) ∧
      ∀ memcpy : Memcpy, memcpy.Moves → (RemovesWith memcpy junk h b s p ↔ p ≠ []) := by
  refine ⟨⟨fun hall => ?_, fun hcond memcpy hm => ?_⟩,
    fun memcpy hmoves => ⟨?_, fun hne => ?_⟩⟩
  · have hne : p ≠ [] := by
      rintro rfl
      exact not_removesWith_empty conforms_spoiling junk hb (hall _ conforms_spoiling)
    refine ⟨hne, fun k hk => ?_⟩
    obtain ⟨fuel, h', b', found, hrun, -, hholds, -⟩ := hall spoiling conforms_spoiling
    obtain ⟨fuel', h'', b'', out, hrun', hholds', -, -, -, hwrong⟩ :=
      removeAll_found conforms_spoiling junk hb hs hne hp hk
    obtain ⟨rfl, rfl, -⟩ : h' = h'' ∧ b' = b'' ∧ found = true := by
      have hsame := removeAll_unique hrun hrun'
      exact ⟨congrArg Prod.fst hsame, congrArg (fun r => r.2.1) hsame,
        congrArg (fun r => r.2.2) hsame⟩
    refine hwrong spoils_spoiling ?_
    have htext : s.take k ++ out ++ [0] = removed p s ++ [0] :=
      hholds'.data.symm.trans hholds.data
    rw [(removed_eq hne s).2 k hk] at htext
    exact List.append_cancel_left (List.append_cancel_right htext)
  · exact removesWith_of_right hm junk hb hs hp hcond.1 (.inr hcond.2)
  · rintro hall rfl
    exact not_removesWith_empty hmoves.conforms junk hb hall
  · exact removesWith_of_right hmoves.conforms junk hb hs hp hne (.inl hmoves)

/-- Two occurrences next to each other, in a shared string. -/
theorem removesAll_shared :
    RemovesAll 0 ⟨fun _ => ⟨2, [0x61, 0x62, 0x62, 0]⟩, 1⟩ 0 [0x61, 0x62, 0x62] [0x62] := by
  have hb : CharHeap.Holds (⟨fun _ => ⟨2, [0x61, 0x62, 0x62, 0]⟩, 1⟩ : CharHeap UInt8) 0
      [0x61, 0x62, 0x62] := ⟨by decide, by decide, rfl⟩
  refine (removesAll_iff 0 hb (by decide) (by decide)).1.mpr ⟨by decide, fun k hk => ?_⟩
  have hone : firstAt [0x62] [0x61, 0x62, 0x62] = some 1 := by decide
  obtain rfl := Option.some.inj (hone.symm.trans hk)
  have hlast : StretchesFit [0x62] 2 [] := .last rfl (by decide)
  exact .next (k := 0) (by decide) (by decide) hlast

/-- The empty pattern. -/
theorem empty_pattern :
    ¬ RemovesAll 0 ⟨fun _ => ⟨1, [0x61, 0]⟩, 1⟩ 0 [0x61] [] := fun hall =>
  not_removesWith_empty conforms_spoiling 0 ⟨by decide, by decide, rfl⟩
    (hall spoiling conforms_spoiling)

end Utils
end AndroidLinux
