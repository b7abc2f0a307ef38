import AndroidLinux.Utils.CharBuffers

/-!
# Ranges of strings

`toLower` and `toUpper` of `String8.cpp`, `setTo` and `remove` of `String16.cpp`.  All of them
clip a range by comparing the sum of its start and its length, a `size_t` of 32 bits, with the
size of the string.  An access outside of a buffer has no result.
-/

namespace AndroidLinux
namespace Utils

/-! ## `String8` -/

/-- `tolower` in the C locale. -/
def tolower (c : UInt8) : UInt8 := if 0x41 ≤ c && c ≤ 0x5A then c + 0x20 else c

/-- `toupper` in the C locale. -/
def toupper (c : UInt8) : UInt8 := if 0x61 ≤ c && c ≤ 0x7A then c - 0x20 else c

/-- The loop of `toLower` and `toUpper`, from the character `i` on. -/
def changeLoop (f : UInt8 → UInt8) : Nat → Nat → List UInt8 → Option (List UInt8)
  | _, 0, buf => some buf
  | i, length + 1, buf =>
      match buf[i]? with
      | none => none
      | some c => changeLoop f (i + 1) length (buf.set i (f c))

/-- `String8::toLower` and `String8::toUpper` with a range. -/
def changeRange (f : UInt8 → UInt8) (junk : UInt8) (h : CharHeap UInt8) (mString : Nat)
    (start length : UInt32) : Option (CharHeap UInt8 × Nat) :=
  let len := h.size mString
  if len ≤ start.toNat then some (h, mString)
  else
    let length := if len < (start + length).toNat then len - start.toNat else length.toNat
    let r := h.lockBuffer junk mString len
    (changeLoop f start.toNat length (r.1.buffer r.2).data).map fun buf =>
      (r.1.edit r.2 fun _ => buf).unlockBuffer junk r.2 len

/-- `String8::toLower`. -/
def toLower (junk : UInt8) (h : CharHeap UInt8) (mString : Nat) (start length : UInt32) :
    Option (CharHeap UInt8 × Nat) :=
  changeRange tolower junk h mString start length

/-- `String8::toUpper`. -/
def toUpper (junk : UInt8) (h : CharHeap UInt8) (mString : Nat) (start length : UInt32) :
    Option (CharHeap UInt8 × Nat) :=
  changeRange toupper junk h mString start length

/-! ## `String16` -/

section Units

variable (junk : UInt16) (h : CharHeap UInt16)

/-- `SharedBuffer::acquire`. -/
def acquire (b : Nat) : CharHeap UInt16 :=
  h.put b { h.buffer b with mRefs := (h.buffer b).mRefs + 1 }

/-- `SharedBuffer::release`. -/
def release (b : Nat) : CharHeap UInt16 :=
  h.put b { h.buffer b with mRefs := (h.buffer b).mRefs - 1 }

/-- A string becomes the empty one, whose buffer all empty strings share. -/
def setEmpty (empty mString : Nat) : CharHeap UInt16 × Nat :=
  (acquire (release h mString) empty, empty)

/-- `String16::setTo` with another string. -/
def setToString (mString other : Nat) : CharHeap UInt16 × Nat :=
  (release (acquire h other) mString, other)

/-- The units in a number of bytes. -/
def unitsOf (bytes : UInt32) : Nat := bytes.toNat / 2

/-- `String16::setTo` with `len` units of the buffer `other`, from `begin` on. -/
def setToUnits (mString other : Nat) (begin len : UInt32) : Option (CharHeap UInt16 × Nat) :=
  let r := h.editResize junk mString (unitsOf ((len + 1) * 2))
  let source := (r.1.buffer other).data
  let moved := unitsOf (len * 2)
  let str := (r.1.buffer r.2).data
  if begin.toNat + moved ≤ source.length ∧ moved ≤ str.length ∧ len.toNat < str.length then
    some (r.1.edit r.2 fun str =>
      (((source.drop begin.toNat).take moved ++ str.drop moved).set len.toNat 0), r.2)
  else none

/-- `String16::setTo` with a range of another string; `same` says that it is the string
itself. -/
def setToRange (empty mString other : Nat) (same : Bool) (len begin : UInt32) :
    Option (CharHeap UInt16 × Nat) :=
  let N := h.size other
  if N ≤ begin.toNat then some (setEmpty h empty mString)
  else
    let len := if N < (begin + len).toNat then UInt32.ofNat N - begin else len
    if begin = 0 ∧ len.toNat = N then some (setToString h mString other)
    else if same then none
    else setToUnits junk h mString other begin len

/-- `String16::remove`. -/
def remove (empty mString : Nat) (len begin : UInt32) : Option (CharHeap UInt16 × Nat) :=
  let N := h.size mString
  if N ≤ begin.toNat then some (setEmpty h empty mString)
  else
    let len := if N < (begin + len).toNat then UInt32.ofNat N - begin else len
    if begin = 0 ∧ len.toNat = N then some (h, mString)
    else
      let shifted := h.editResize junk mString (N + 1)
      let moved := N - begin.toNat + 1
      let r := if 0 < begin.toNat then
          (shifted.1.edit shifted.2 fun str =>
            (str.drop begin.toNat).take moved ++ str.drop moved, shifted.2)
        else (h, mString)
      let r := r.1.editResize junk r.2 (unitsOf ((len + 1) * 2))
      if len.toNat < (r.1.buffer r.2).data.length then
        some (r.1.edit r.2 fun str => str.set len.toNat 0, r.2)
      else none

end Units

/-! ## What the ranges should be -/

/-- The string that had the buffer `b` has the text `t` now, and the others have theirs. -/
def BecomesOnly {α : Type*} [Zero α] (h : CharHeap α) (b : Nat) (t : List α)
    (r : Option (CharHeap α × Nat)) : Prop :=
  ∃ h' b', r = some (h', b') ∧ h'.Holds b' t ∧
    ∀ c, h.Elsewhere b c → (h'.buffer c).data = (h.buffer c).data

/-- The characters of a range are changed, with the sum of exact numbers. -/
def changed (f : UInt8 → UInt8) (start length : Nat) (s : List UInt8) : List UInt8 :=
  s.mapIdx fun i c => if start ≤ i ∧ i < start + length then f c else c

/-- The range starts behind the string, or its end can be computed. -/
def EndComputed (N : Nat) (start length : UInt32) : Prop :=
  N ≤ start.toNat ∨ start.toNat + length.toNat < 2 ^ 32

theorem toNat_sum (a b : UInt32) : (a + b).toNat = (a.toNat + b.toNat) % 2 ^ 32 :=
  UInt32.toNat_add a b

/-- Where the sum wraps it is less than the start. -/
theorem toNat_sum_of_wrap {a b : UInt32} (h : 2 ^ 32 ≤ a.toNat + b.toNat) :
    (a + b).toNat < a.toNat := by
  have ha := a.toNat_lt
  have hb := b.toNat_lt
  rw [toNat_sum]
  omega

theorem unitsOf_double (x : UInt32) : unitsOf (x * 2) = x.toNat % 2 ^ 31 := by
  unfold unitsOf
  rw [UInt32.toNat_mul]
  change x.toNat * 2 % 2 ^ 32 / 2 = _
  omega

/-! ## Changing characters -/

theorem changeLoop_spec (f : UInt8 → UInt8) (i length : Nat) (buf : List UInt8)
    (hi : i ≤ buf.length) :
    (i + length ≤ buf.length → ∃ buf', changeLoop f i length buf = some buf' ∧
        ∀ j, buf'[j]? = if i ≤ j ∧ j < i + length then (buf[j]?).map f else buf[j]?) ∧
      (buf.length < i + length → changeLoop f i length buf = none) := by
  induction length generalizing i buf with
  | zero =>
      refine ⟨fun _ => ⟨buf, rfl, fun j => ?_⟩, fun hlt => by omega⟩
      rw [if_neg (by omega)]
  | succ length ih =>
      by_cases hlt : i < buf.length
      · have hget : buf[i]? = some buf[i] := List.getElem?_eq_getElem hlt
        obtain ⟨hin, hout⟩ := ih (i + 1) (buf.set i (f buf[i])) (by rw [List.length_set]; omega)
        rw [List.length_set] at hin hout
        rw [changeLoop, hget]
        refine ⟨fun hle => ?_, fun hgt => hout (by omega)⟩
        obtain ⟨buf', hbuf', hat⟩ := hin (by omega)
        refine ⟨buf', hbuf', fun j => ?_⟩
        rw [hat j, List.getElem?_set]
        by_cases hj : i = j
        · subst hj
          rw [if_neg (by omega), if_pos rfl, if_pos hlt, if_pos (by omega), hget]
          rfl
        · rw [if_neg hj]
          by_cases hrange : i ≤ j ∧ j < i + (length + 1)
          · rw [if_pos hrange, if_pos (by omega)]
          · rw [if_neg hrange, if_neg (by omega)]
      · refine ⟨fun hle => by omega, fun _ => ?_⟩
        rw [changeLoop, List.getElem?_eq_none (Nat.not_lt.mp hlt)]

theorem changed_of_le {f : UInt8 → UInt8} {start length : Nat} {s : List UInt8}
    (h : s.length ≤ start) : changed f start length s = s := by
  refine List.ext_getElem? fun j => ?_
  unfold changed
  rw [List.getElem?_mapIdx]
  by_cases hj : j < s.length
  · rw [List.getElem?_eq_getElem hj, Option.map_some, if_neg (by omega)]
  · rw [List.getElem?_eq_none (Nat.not_lt.mp hj), Option.map_none]

/-- A buffer whose characters in a range are changed. -/
theorem eq_changed {f : UInt8 → UInt8} {start length len : Nat} {s buf : List UInt8}
    (hlen : start + len = min (start + length) s.length)
    (hbuf : ∀ j, buf[j]? =
      if start ≤ j ∧ j < start + len then ((s ++ [0])[j]?).map f else (s ++ [0])[j]?) :
    buf = changed f start length s ++ [0] := by
  have hsize : (changed f start length s).length = s.length := List.length_mapIdx
  refine List.ext_getElem? fun j => ?_
  rw [hbuf j]
  by_cases hj : j < s.length
  · rw [List.getElem?_append_left hj, List.getElem?_append_left (by omega)]
    unfold changed
    rw [List.getElem?_mapIdx, List.getElem?_eq_getElem hj, Option.map_some, Option.map_some]
    by_cases hrange : start ≤ j ∧ j < start + len
    · rw [if_pos hrange, if_pos (by omega)]
    · rw [if_neg hrange, if_neg (by omega)]
  · rw [if_neg (by omega), List.getElem?_append_right (by omega),
      List.getElem?_append_right (by omega), hsize]

/-- `toLower` and `toUpper` change the characters of the range exactly when its end can be
computed. -/
theorem changeRange_iff (f : UInt8 → UInt8) (junk : UInt8) {h : CharHeap UInt8} {b : Nat}
    {s : List UInt8} (hb : h.Holds b s) (hs : s.length + 1 < 2 ^ 32) (start length : UInt32) :
    BecomesOnly h b (changed f start.toNat length.toNat s)
        (changeRange f junk h b start length) ↔ EndComputed s.length start length := by
  unfold changeRange EndComputed
  rw [hb.size]
  dsimp only
  by_cases hout : s.length ≤ start.toNat
  · rw [if_pos hout, changed_of_le hout]
    exact iff_of_true ⟨h, b, rfl, hb, fun _ _ => rfl⟩ (.inl hout)
  · rw [if_neg hout]
    obtain ⟨hedited, hdata⟩ := CharHeap.lockBuffer_spec junk hb
    rw [hdata]
    have hstart : start.toNat ≤ (s ++ [0]).length := by
      rw [List.length_append]
      omega
    have hlen : (s ++ [0]).length = s.length + 1 := by
      rw [List.length_append, List.length_singleton]
    by_cases hsum : start.toNat + length.toNat < 2 ^ 32
    · refine iff_of_true ?_ (.inr hsum)
      rw [toNat_sum, Nat.mod_eq_of_lt hsum]
      generalize hclip : (if s.length < start.toNat + length.toNat then s.length - start.toNat
        else length.toNat) = len
      have hmin : start.toNat + len = min (start.toNat + length.toNat) s.length := by
        rw [← hclip]
        split <;> omega
      obtain ⟨buf, hbuf, hat⟩ :=
        (changeLoop_spec f start.toNat len (s ++ [0]) hstart).1 (by omega)
      have htext := eq_changed hmin hat
      rw [hbuf, Option.map_some]
      have hsize : (changed f start.toNat length.toNat s).length = s.length := List.length_mapIdx
      have hedited' := hedited.edit fun _ => buf
      obtain ⟨hunlocked, hholds⟩ := CharHeap.unlockBuffer_spec junk hedited'
        (t := changed f start.toNat length.toNat s) (by rw [CharHeap.data_edit, htext])
        fun _ => rfl
      rw [hsize] at hunlocked hholds
      exact ⟨_, _, rfl, hholds, fun c hc => (hunlocked.others c hc).2⟩
    · have hwrap := toNat_sum_of_wrap (Nat.not_lt.mp hsum)
      refine iff_of_false ?_ (not_or.mpr ⟨hout, hsum⟩)
      rw [if_neg (by omega),
        (changeLoop_spec f start.toNat length.toNat (s ++ [0]) hstart).2 (by omega)]
      rintro ⟨h', b', hnone, -⟩
      cases hnone

/-! ## Cutting units -/

section Cutting

variable {junk : UInt16} {h : CharHeap UInt16} {b : Nat}

theorem data_acquire (h : CharHeap UInt16) (b c : Nat) :
    ((acquire h b).buffer c).data = (h.buffer c).data := by
  unfold acquire
  by_cases hcb : c = b
  · rw [hcb, CharHeap.put_self]
  · rw [CharHeap.put_of_ne _ _ hcb]

theorem data_release (h : CharHeap UInt16) (b c : Nat) :
    ((release h b).buffer c).data = (h.buffer c).data := by
  unfold release
  by_cases hcb : c = b
  · rw [hcb, CharHeap.put_self]
  · rw [CharHeap.put_of_ne _ _ hcb]

theorem becomesOnly_setEmpty {empty : Nat} (hempty : h.Holds empty []) :
    BecomesOnly h b [] (some (setEmpty h empty b)) := by
  have hdata (c : Nat) : ((setEmpty h empty b).1.buffer c).data = (h.buffer c).data := by
    unfold setEmpty
    rw [data_acquire, data_release]
  refine ⟨_, _, rfl, ⟨hempty.alive, ?_, (hdata empty).trans hempty.data⟩,
    fun c _ => hdata c⟩
  unfold acquire
  rw [CharHeap.put_self]
  exact Nat.le_add_left 1 _

theorem becomesOnly_setToString {c : Nat} {s : List UInt16} (hc : h.Holds c s) :
    BecomesOnly h b s (some (setToString h b c)) := by
  have hdata (d : Nat) : ((setToString h b c).1.buffer d).data = (h.buffer d).data := by
    unfold setToString
    rw [data_release, data_acquire]
  refine ⟨_, _, rfl, ⟨hc.alive, ?_, (hdata c).trans hc.data⟩, fun d _ => hdata d⟩
  unfold release
  by_cases hcb : c = b
  · rw [hcb, CharHeap.put_self]
    unfold acquire
    rw [CharHeap.put_self]
    exact hcb ▸ hc.refs
  · rw [CharHeap.put_of_ne _ _ hcb]
    unfold acquire
    rw [CharHeap.put_self]
    exact Nat.le_add_left 1 _

theorem length_resize {α : Type*} (junk : α) (n : Nat) (data : List α) :
    (CharHeap.resize junk n data).length = n := by
  unfold CharHeap.resize
  rw [List.length_append, List.length_take, List.length_replicate]
  omega

/-- The unit behind a text becomes its NUL. -/
theorem set_end {u v : List UInt16} {len : Nat} (hu : u.length = len) (hv : v.length = 1) :
    (u ++ v).set len 0 = u ++ [0] := by
  obtain ⟨x, rfl⟩ := List.length_eq_one_iff.mp hv
  rw [List.set_append_right _ _ (Nat.le_of_eq hu), hu, Nat.sub_self]
  rfl

/-- The length is not clipped where the end wraps. -/
theorem not_clipped {N : Nat} {begin len : UInt32} (hbegin : begin.toNat < N)
    (hwrap : (begin + len).toNat < begin.toNat) :
    (if N < (begin + len).toNat then UInt32.ofNat N - begin else len) = len :=
  if_neg (Nat.not_lt_of_lt (Nat.lt_trans hwrap hbegin))

/-- The clipped length, where the end can be computed. -/
theorem clipped {N : Nat} {begin len : UInt32} (hN : N < 2 ^ 32) (hbegin : begin.toNat < N)
    (hsum : begin.toNat + len.toNat < 2 ^ 32) :
    (if N < (begin + len).toNat then UInt32.ofNat N - begin else len).toNat =
      min len.toNat (N - begin.toNat) := by
  have hofNat : (UInt32.ofNat N).toNat = N := by
    rw [UInt32.toNat_ofNat']
    exact Nat.mod_eq_of_lt hN
  have hle : begin ≤ UInt32.ofNat N := by
    rw [UInt32.le_iff_toNat_le, hofNat]
    exact Nat.le_of_lt hbegin
  rw [toNat_sum, Nat.mod_eq_of_lt hsum]
  split
  · rw [UInt32.toNat_sub_of_le _ _ hle, hofNat]
    omega
  · omega

theorem take_drop_clipped {α : Type*} (s : List α) (begin len : Nat) :
    (s.drop begin).take (min len (s.length - begin)) = (s.drop begin).take len := by
  rw [← List.length_drop, List.take_eq_take_iff]
  omega

theorem becomesOnly_setToUnits {c : Nat} {t s : List UInt16} {begin len : UInt32}
    (hb : h.Holds b t) (hc : h.Holds c s) (helse : h.Elsewhere b c)
    (hs : (s.length + 1) * 2 < 2 ^ 32) (hlen : begin.toNat + len.toNat ≤ s.length) :
    BecomesOnly h b ((s.drop begin.toNat).take len.toNat)
      (setToUnits junk h b c begin len) := by
  have hunits : unitsOf ((len + 1) * 2) = len.toNat + 1 := by
    rw [unitsOf_double, toNat_sum]
    change (len.toNat + 1) % 2 ^ 32 % 2 ^ 31 = _
    omega
  have hmoved : unitsOf (len * 2) = len.toNat := by
    rw [unitsOf_double]
    omega
  unfold setToUnits
  dsimp only
  rw [hunits, hmoved]
  obtain ⟨hedited, hdata⟩ := CharHeap.editResize_spec junk (len.toNat + 1) hb.alive
  generalize h.editResize junk b (len.toNat + 1) = r at hedited hdata ⊢
  have hsource : (r.1.buffer c).data = s ++ [0] := (hedited.others c helse).2.trans hc.data
  have hsize : (r.1.buffer r.2).data.length = len.toNat + 1 := by
    rw [hdata, length_resize]
  have hfits : begin.toNat + len.toNat ≤ (r.1.buffer c).data.length := by
    rw [hsource, List.length_append]
    omega
  rw [if_pos ⟨hfits, by omega, by omega⟩]
  have hwritten := hedited.edit fun str =>
    (((r.1.buffer c).data.drop begin.toNat).take len.toNat ++ str.drop len.toNat).set len.toNat 0
  refine ⟨_, _, rfl, ⟨hwritten.alive, Nat.le_of_eq hwritten.owner.symm, ?_⟩,
    fun d hd => (hwritten.others d hd).2⟩
  have htake : ((s ++ [0]).drop begin.toNat).take len.toNat =
      (s.drop begin.toNat).take len.toNat := by
    rw [List.drop_append_of_le_length (by omega), List.take_append_of_le_length]
    rw [List.length_drop]
    omega
  rw [CharHeap.data_edit, hsource, htake]
  refine set_end ?_ ?_
  · rw [List.length_take, List.length_drop]
    omega
  · rw [List.length_drop, hsize]
    omega

/-- `setTo` with a range of another string. -/
theorem setToRange_iff {empty c : Nat} {t s : List UInt16} (hb : h.Holds b t) (hc : h.Holds c s)
    (helse : h.Elsewhere b c) (hempty : h.Holds empty []) (hs : (s.length + 1) * 2 < 2 ^ 32)
    (len begin : UInt32) :
    BecomesOnly h b ((s.drop begin.toNat).take len.toNat)
        (setToRange junk h empty b c false len begin) ↔ EndComputed s.length begin len := by
  unfold setToRange EndComputed
  rw [hc.size]
  dsimp only
  by_cases hout : s.length ≤ begin.toNat
  · rw [if_pos hout, List.drop_eq_nil_of_le hout, List.take_nil]
    exact iff_of_true (becomesOnly_setEmpty hempty) (.inl hout)
  · rw [if_neg hout]
    have hbegin : begin.toNat < s.length := Nat.not_le.mp hout
    by_cases hsum : begin.toNat + len.toNat < 2 ^ 32
    · refine iff_of_true ?_ (.inr hsum)
      have hclip := clipped (by omega) hbegin hsum
      rw [← take_drop_clipped, ← hclip]
      have hle := Nat.le_of_eq hclip |>.trans (Nat.min_le_right _ _)
      generalize (if s.length < (begin + len).toNat then UInt32.ofNat s.length - begin else len) =
        cut at hle ⊢
      split
      · rename_i hwhole
        rw [hwhole.1, hwhole.2]
        change BecomesOnly h b ((s.drop 0).take s.length) _
        rw [List.drop_zero, List.take_length]
        exact becomesOnly_setToString hc
      · exact becomesOnly_setToUnits hb hc helse hs (by omega)
    · refine iff_of_false ?_ (not_or.mpr ⟨hout, hsum⟩)
      have hwrap := toNat_sum_of_wrap (Nat.not_lt.mp hsum)
      have hlt := len.toNat_lt
      rw [not_clipped hbegin hwrap, if_neg (by omega)]
      rintro ⟨h', b', hsome, -⟩
      change setToUnits junk h b c begin len = some (h', b') at hsome
      unfold setToUnits at hsome
      obtain ⟨hedited, -⟩ :=
        CharHeap.editResize_spec junk (unitsOf ((len + 1) * 2)) hb.alive
      have hsource := (hedited.others c helse).2.trans hc.data
      dsimp only at hsome
      rw [hsource, unitsOf_double] at hsome
      have hread : ¬ begin.toNat + len.toNat % 2 ^ 31 ≤ (s ++ [0]).length := by
        rw [List.length_append, List.length_singleton]
        omega
      rw [if_neg (fun hall => hread hall.1)] at hsome
      cases hsome

/-- The string that had the buffer `b` has `b'` now, and the other buffers in use are as they
were; `b'` may still be shared. -/
structure Kept (h h' : CharHeap UInt16) (b b' : Nat) : Prop where
  alive : b' < h'.next
  others : ∀ c, h.Elsewhere b c → h'.Elsewhere b' c ∧ (h'.buffer c).data = (h.buffer c).data

theorem Kept.refl (halive : b < h.next) : Kept h h b b := ⟨halive, fun _ hc => ⟨hc, rfl⟩⟩

theorem kept_of_edited {h' : CharHeap UInt16} {b' : Nat} (hedited : CharHeap.Edited h h' b b') :
    Kept h h' b b' := by
  refine ⟨hedited.alive, fun c hc => ?_⟩
  obtain ⟨hne, hdata⟩ := hedited.others c hc
  exact ⟨⟨Nat.lt_of_lt_of_le hc.1 hedited.grown, fun hcb => absurd hcb hne⟩, hdata⟩

/-- The text behind `begin` is moved to the front. -/
theorem shifted_spec (junk : UInt16) {s : List UInt16} (hb : h.Holds b s) {begin : Nat}
    (hbegin : begin < s.length) :
    let shifted := h.editResize junk b (s.length + 1)
    let moved := s.length - begin + 1
    let r := if 0 < begin then
        (shifted.1.edit shifted.2 fun str => (str.drop begin).take moved ++ str.drop moved,
          shifted.2)
      else (h, b)
    Kept h r.1 b r.2 ∧ ∃ tail, (r.1.buffer r.2).data = s.drop begin ++ 0 :: tail := by
  intro shifted moved r
  by_cases hpos : 0 < begin
  · obtain ⟨hedited, hdata⟩ := CharHeap.lockBuffer_spec junk hb
    have hr : r = (shifted.1.edit shifted.2 fun str =>
        (str.drop begin).take moved ++ str.drop moved, shifted.2) := if_pos hpos
    rw [hr]
    have hedited' : CharHeap.Edited h shifted.1 b shifted.2 := hedited
    have hmoved := hedited'.edit fun str => (str.drop begin).take moved ++ str.drop moved
    refine ⟨kept_of_edited hmoved, (s ++ [0]).drop moved, ?_⟩
    rw [CharHeap.data_edit]
    have hdata' : (shifted.1.buffer shifted.2).data = s ++ [0] := hdata
    rw [hdata', List.drop_append_of_le_length (Nat.le_of_lt hbegin), List.take_of_length_le,
      List.append_assoc]
    · rfl
    · rw [List.length_append, List.length_drop, List.length_singleton]
  · have hr : r = (h, b) := if_neg hpos
    rw [hr, Nat.eq_zero_of_not_pos hpos]
    exact ⟨Kept.refl hb.alive, [], hb.data⟩

/-- The text is cut off. -/
theorem cut_spec {h' : CharHeap UInt16} {b' len : Nat} {u tail : List UInt16}
    (hkept : Kept h h' b b') (hdata : (h'.buffer b').data = u ++ 0 :: tail)
    (hlen : len ≤ u.length) :
    let r := h'.editResize junk b' (len + 1)
    BecomesOnly h b (u.take len)
      (if len < (r.1.buffer r.2).data.length then
        some (r.1.edit r.2 fun str => str.set len 0, r.2) else none) := by
  intro r
  obtain ⟨hedited, hresized⟩ := CharHeap.editResize_spec junk (len + 1) hkept.alive
  have hsize : (r.1.buffer r.2).data.length = len + 1 := by
    rw [hresized, length_resize]
  rw [if_pos (by omega)]
  have hwritten := hedited.edit fun str => str.set len 0
  refine ⟨_, _, rfl, ⟨hwritten.alive, Nat.le_of_eq hwritten.owner.symm, ?_⟩, fun c hc => ?_⟩
  · have hfits : len + 1 ≤ (u ++ 0 :: tail).length := by
      rw [List.length_append, List.length_cons]
      omega
    rw [CharHeap.data_edit, hresized, hdata, CharHeap.resize_of_le junk hfits, List.take_add,
      List.take_append_of_le_length hlen]
    refine set_end (List.length_take_of_le hlen) ?_
    rw [List.length_take, List.length_drop]
    omega
  · obtain ⟨helse, hsame⟩ := hkept.others c hc
    exact (hwritten.others c helse).2.trans hsame

/-- `remove`. -/
theorem remove_iff {empty : Nat} {s : List UInt16} (hb : h.Holds b s) (hempty : h.Holds empty [])
    (hs : (s.length + 1) * 2 < 2 ^ 32) (len begin : UInt32) :
    BecomesOnly h b ((s.drop begin.toNat).take len.toNat)
        (remove junk h empty b len begin) ↔ EndComputed s.length begin len := by
  unfold remove EndComputed
  rw [hb.size]
  dsimp only
  by_cases hout : s.length ≤ begin.toNat
  · rw [if_pos hout, List.drop_eq_nil_of_le hout, List.take_nil]
    exact iff_of_true (becomesOnly_setEmpty hempty) (.inl hout)
  · rw [if_neg hout]
    have hbegin : begin.toNat < s.length := Nat.not_le.mp hout
    obtain ⟨hkept, tail, hdata⟩ := shifted_spec junk hb hbegin
    by_cases hsum : begin.toNat + len.toNat < 2 ^ 32
    · refine iff_of_true ?_ (.inr hsum)
      have hclip := clipped (by omega) hbegin hsum
      rw [← take_drop_clipped, ← hclip]
      have hle := Nat.le_of_eq hclip |>.trans (Nat.min_le_right _ _)
      generalize (if s.length < (begin + len).toNat then UInt32.ofNat s.length - begin else len) =
        cut at hle ⊢
      have hunits : unitsOf ((cut + 1) * 2) = cut.toNat + 1 := by
        rw [unitsOf_double, toNat_sum]
        change (cut.toNat + 1) % 2 ^ 32 % 2 ^ 31 = _
        omega
      split
      · rename_i hwhole
        rw [hwhole.1, hwhole.2]
        change BecomesOnly h b ((s.drop 0).take s.length) _
        rw [List.drop_zero, List.take_length]
        exact ⟨h, b, rfl, hb, fun _ _ => rfl⟩
      · rw [hunits]
        exact cut_spec hkept hdata (by rw [List.length_drop]; exact hle)
    · refine iff_of_false ?_ (not_or.mpr ⟨hout, hsum⟩)
      have hwrap := toNat_sum_of_wrap (Nat.not_lt.mp hsum)
      have hlt := len.toNat_lt
      have hnotwhole : ¬ (begin = 0 ∧ len.toNat = s.length) := by
        rintro ⟨-, hlen⟩
        omega
      rw [not_clipped hbegin hwrap, if_neg hnotwhole]
      rintro ⟨h', b', hsome, -⟩
      obtain ⟨-, hresized⟩ :=
        CharHeap.editResize_spec junk (unitsOf ((len + 1) * 2)) hkept.alive
      have hsize := congrArg List.length hresized
      rw [length_resize, unitsOf_double] at hsize
      rw [if_neg (by rw [unitsOf_double]; omega)] at hsome
      cases hsome

end Cutting

/-- The operations do what they should with a range exactly when its end can be computed. -/
theorem ranges_iff (junk : UInt8) (junk16 : UInt16) {h : CharHeap UInt8} {h16 : CharHeap UInt16}
    {b b16 c16 empty : Nat} {s : List UInt8} {t u : List UInt16} (hb : h.Holds b s)
    (hs : s.length + 1 < 2 ^ 32) (hb16 : h16.Holds b16 t) (ht : (t.length + 1) * 2 < 2 ^ 32)
    (hc16 : h16.Holds c16 u) (hu : (u.length + 1) * 2 < 2 ^ 32) (helse : h16.Elsewhere b16 c16)
    (hempty : h16.Holds empty []) (start length : UInt32) :
    (BecomesOnly h b (changed tolower start.toNat length.toNat s)
        (toLower junk h b start length) ↔ EndComputed s.length start length) ∧
      (BecomesOnly h b (changed toupper start.toNat length.toNat s)
        (toUpper junk h b start length) ↔ EndComputed s.length start length) ∧
      (BecomesOnly h16 b16 ((u.drop start.toNat).take length.toNat)
        (setToRange junk16 h16 empty b16 c16 false length start) ↔
          EndComputed u.length start length) ∧
      (BecomesOnly h16 b16 ((t.drop start.toNat).take length.toNat)
        (remove junk16 h16 empty b16 length start) ↔ EndComputed t.length start length) :=
  ⟨changeRange_iff tolower junk hb hs start length,
    changeRange_iff toupper junk hb hs start length,
    setToRange_iff hb16 hc16 helse hempty hu length start,
    remove_iff hb16 hempty ht length start⟩

/-- The empty string, `"ABCD"` and `"xyz"`, each of them shared. -/
def sharedStrings : CharHeap UInt16 where
  buffer
    | 0 => ⟨2, [0]⟩
    | 1 => ⟨2, [0x41, 0x42, 0x43, 0x44, 0]⟩
    | _ => ⟨2, [0x78, 0x79, 0x7a, 0]⟩
  next := 3

/-- Shared strings, and a range of three characters from the second one on. -/
theorem ranges_shared :
    let h : CharHeap UInt8 := ⟨fun _ => ⟨2, [0x41, 0x42, 0]⟩, 1⟩
    BecomesOnly h 0 [0x41, 0x62] (toLower 0 h 0 1 3) ∧
      BecomesOnly sharedStrings 1 [0x79, 0x7a] (setToRange 0 sharedStrings 0 1 2 false 3 1) ∧
      BecomesOnly sharedStrings 1 [0x42, 0x43, 0x44] (remove 0 sharedStrings 0 1 3 1) := by
  have hb : CharHeap.Holds (⟨fun _ => ⟨2, [0x41, 0x42, 0]⟩, 1⟩ : CharHeap UInt8) 0
      [0x41, 0x42] := ⟨by decide, by decide, rfl⟩
  have hempty : sharedStrings.Holds 0 [] := ⟨by decide, by decide, rfl⟩
  have habcd : sharedStrings.Holds 1 [0x41, 0x42, 0x43, 0x44] := ⟨by decide, by decide, rfl⟩
  have hxyz : sharedStrings.Holds 2 [0x78, 0x79, 0x7a] := ⟨by decide, by decide, rfl⟩
  have helse : sharedStrings.Elsewhere 1 2 := ⟨by decide, fun _ => by decide⟩
  obtain ⟨hlower, -, hset, hremove⟩ := ranges_iff 0 0 hb (by decide) habcd (by decide) hxyz
    (by decide) helse hempty 1 3
  exact ⟨hlower.mpr (.inr (by decide)), hset.mpr (.inr (by decide)),
    hremove.mpr (.inr (by decide))⟩

/-- A length that stands for the rest of the string makes the sum wrap. -/
theorem length_max :
    let h : CharHeap UInt8 := ⟨fun _ => ⟨1, [0x41, 0x42, 0]⟩, 1⟩
    ¬ BecomesOnly h 0 (changed tolower 1 0xFFFFFFFF [0x41, 0x42])
      (toLower 0 h 0 1 0xFFFFFFFF) := by
  have hb : CharHeap.Holds (⟨fun _ => ⟨1, [0x41, 0x42, 0]⟩, 1⟩ : CharHeap UInt8) 0
      [0x41, 0x42] := ⟨by decide, by decide, rfl⟩
  intro h hlower
  obtain hout | hsum := (changeRange_iff tolower 0 hb (by decide) 1 0xFFFFFFFF).mp hlower
  · exact absurd hout (by decide)
  · exact absurd hsum (by decide)

end Utils
end AndroidLinux
