import Mathlib.Data.List.DropRight
import Mathlib.Data.UInt

/-!
# The buffers of strings

`SharedBuffer.cpp` as the strings use it.  Strings that are copies of each other share a buffer,
and a buffer is edited in place only when its counter is 1.  The buffers are numbered in the
order in which they are allocated; memory is granted to every request, so that a buffer is some
list of characters, with the NUL of the string at its end.
-/

namespace AndroidLinux
namespace Utils

/-- A `SharedBuffer`; `mSize` is the length of the data. -/
structure CharBuffer (α : Type*) where
  mRefs : Nat
  data : List α

/-- The buffers that have been allocated are those below `next`. -/
structure CharHeap (α : Type*) where
  buffer : Nat → CharBuffer α
  next : Nat

namespace CharHeap

variable {α : Type*}

/-- A buffer is replaced. -/
def put (h : CharHeap α) (b : Nat) (buffer : CharBuffer α) : CharHeap α :=
  { h with buffer := Function.update h.buffer b buffer }

/-- The data of a buffer are edited. -/
def edit (h : CharHeap α) (b : Nat) (f : List α → List α) : CharHeap α :=
  h.put b { h.buffer b with data := f (h.buffer b).data }

/-- `onlyOwner`. -/
def onlyOwner (h : CharHeap α) (b : Nat) : Bool := (h.buffer b).mRefs == 1

/-- The data after `realloc`, or after `alloc` and `memcpy`: what is new is not specified. -/
def resize (junk : α) (newSize : Nat) (data : List α) : List α :=
  data.take newSize ++ List.replicate (newSize - data.length) junk

/-- `SharedBuffer::editResize`. -/
def editResize (junk : α) (h : CharHeap α) (b newSize : Nat) : CharHeap α × Nat :=
  if h.onlyOwner b then
    if (h.buffer b).data.length = newSize then (h, b) else (h.edit b (resize junk newSize), b)
  else
    let sb := h.next
    let h' := h.put b { h.buffer b with mRefs := (h.buffer b).mRefs - 1 }
    ({ h'.put sb ⟨1, resize junk newSize (h.buffer b).data⟩ with next := sb + 1 }, sb)

/-- A string has a buffer: its characters and the NUL. -/
structure Holds [Zero α] (h : CharHeap α) (b : Nat) (s : List α) : Prop where
  alive : b < h.next
  refs : 1 ≤ (h.buffer b).mRefs
  data : (h.buffer b).data = s ++ [0]

/-- Another string has a buffer: it is shared if it is the same one. -/
def Elsewhere (h : CharHeap α) (b c : Nat) : Prop :=
  c < h.next ∧ (c = b → 2 ≤ (h.buffer b).mRefs)

/-- The string that had the buffer `b` is now the only one that has `b'`, and the other buffers
in use are as they were. -/
structure Edited (h h' : CharHeap α) (b b' : Nat) : Prop where
  owner : (h'.buffer b').mRefs = 1
  alive : b' < h'.next
  grown : h.next ≤ h'.next
  others : ∀ c, h.Elsewhere b c → c ≠ b' ∧ (h'.buffer c).data = (h.buffer c).data

theorem put_self (h : CharHeap α) (b : Nat) (buffer : CharBuffer α) :
    (h.put b buffer).buffer b = buffer := by
  unfold put
  exact Function.update_self ..

theorem put_of_ne (h : CharHeap α) {b c : Nat} (buffer : CharBuffer α) (hne : c ≠ b) :
    (h.put b buffer).buffer c = h.buffer c := by
  unfold put
  exact Function.update_of_ne hne ..

theorem data_edit (h : CharHeap α) (b : Nat) (f : List α → List α) :
    ((h.edit b f).buffer b).data = f (h.buffer b).data := by
  unfold edit
  rw [put_self]

theorem resize_self (junk : α) (data : List α) : resize junk data.length data = data := by
  unfold resize
  rw [List.take_length, Nat.sub_self, List.replicate_zero, List.append_nil]

theorem resize_of_le (junk : α) {newSize : Nat} {data : List α} (h : newSize ≤ data.length) :
    resize junk newSize data = data.take newSize := by
  unfold resize
  rw [Nat.sub_eq_zero_of_le h, List.replicate_zero, List.append_nil]

/-- A write to a buffer of one's own. -/
theorem Edited.edit {h h' : CharHeap α} {b b' : Nat} (hedited : Edited h h' b b')
    (f : List α → List α) : Edited h (h'.edit b' f) b b' where
  owner := by
    unfold CharHeap.edit
    rw [put_self]
    exact hedited.owner
  alive := hedited.alive
  grown := hedited.grown
  others c hc := by
    obtain ⟨hne, hdata⟩ := hedited.others c hc
    refine ⟨hne, ?_⟩
    unfold CharHeap.edit
    rw [put_of_ne h' _ hne]
    exact hdata

theorem edited_of_onlyOwner {h : CharHeap α} {b : Nat} (halive : b < h.next)
    (howner : (h.buffer b).mRefs = 1) : Edited h h b b where
  owner := howner
  alive := halive
  grown := Nat.le_refl _
  others c hc := by
    refine ⟨fun hcb => ?_, rfl⟩
    have hshared := hc.2 hcb
    omega

theorem Edited.trans {h h' h'' : CharHeap α} {a b c : Nat} (hab : Edited h h' a b)
    (hbc : Edited h' h'' b c) : Edited h h'' a c where
  owner := hbc.owner
  alive := hbc.alive
  grown := Nat.le_trans hab.grown hbc.grown
  others d hd := by
    obtain ⟨hne, hdata⟩ := hab.others d hd
    obtain ⟨hne', hdata'⟩ :=
      hbc.others d ⟨Nat.lt_of_lt_of_le hd.1 hab.grown, fun hdb => absurd hdb hne⟩
    exact ⟨hne', hdata'.trans hdata⟩

/-- `editResize`: the buffer is the string's own now, and its data are kept as far as they
fit. -/
theorem editResize_spec (junk : α) {h : CharHeap α} {b : Nat} (newSize : Nat)
    (halive : b < h.next) :
    Edited h (editResize junk h b newSize).1 b (editResize junk h b newSize).2 ∧
      ((editResize junk h b newSize).1.buffer (editResize junk h b newSize).2).data =
        resize junk newSize (h.buffer b).data := by
  unfold editResize onlyOwner
  by_cases howner : (h.buffer b).mRefs = 1
  · rw [if_pos (beq_iff_eq.mpr howner)]
    have hsame := edited_of_onlyOwner halive howner
    split
    · rename_i hsize
      rw [← hsize, resize_self]
      exact ⟨hsame, rfl⟩
    · exact ⟨hsame.edit _, data_edit h b _⟩
  · rw [if_neg (fun hbeq => howner (beq_iff_eq.mp hbeq))]
    refine ⟨⟨?_, Nat.lt_succ_self _, Nat.le_succ _, fun c hc => ?_⟩, ?_⟩
    · exact congrArg CharBuffer.mRefs (put_self _ _ _)
    · have hne : c ≠ h.next := Nat.ne_of_lt hc.1
      refine ⟨hne, ?_⟩
      change (((h.put b _).put h.next _).buffer c).data = _
      rw [put_of_ne _ _ hne]
      by_cases hcb : c = b
      · rw [hcb, put_self]
      · rw [put_of_ne _ _ hcb]
    · exact congrArg CharBuffer.data (put_self _ _ _)

/-! ## `String8` -/

/-- `String8::size`. -/
def size (h : CharHeap α) (mString : Nat) : Nat := (h.buffer mString).data.length - 1

/-- `String8::lockBuffer`. -/
def lockBuffer (junk : α) (h : CharHeap α) (mString size : Nat) : CharHeap α × Nat :=
  editResize junk h mString (size + 1)

/-- `String8::unlockBuffer` with a size. -/
def unlockBuffer [Zero α] (junk : α) (h : CharHeap α) (mString size : Nat) :
    CharHeap α × Nat :=
  if size ≠ h.size mString then
    let r := editResize junk h mString (size + 1)
    (r.1.edit r.2 fun str => str.set size 0, r.2)
  else (h, mString)

theorem Holds.size [Zero α] {h : CharHeap α} {b : Nat} {s : List α} (hb : Holds h b s) :
    h.size b = s.length := by
  unfold CharHeap.size
  rw [hb.data, List.length_append, List.length_singleton, Nat.add_sub_cancel]

/-- The buffer of a string, locked with its size. -/
theorem lockBuffer_spec [Zero α] (junk : α) {h : CharHeap α} {b : Nat} {s : List α}
    (hb : Holds h b s) :
    Edited h (lockBuffer junk h b s.length).1 b (lockBuffer junk h b s.length).2 ∧
      ((lockBuffer junk h b s.length).1.buffer (lockBuffer junk h b s.length).2).data =
        s ++ [0] := by
  obtain ⟨hedited, hdata⟩ := editResize_spec junk (s.length + 1) hb.alive
  refine ⟨hedited, hdata.trans ?_⟩
  have hlen : s.length + 1 = (h.buffer b).data.length := by
    rw [hb.data, List.length_append, List.length_singleton]
  rw [hlen, resize_self, hb.data]

/-- A buffer of one's own is unlocked with the length of a text; the NUL is put behind it unless
it is the text of the whole buffer. -/
theorem unlockBuffer_spec [Zero α] (junk : α) {h h' : CharHeap α} {b b' : Nat} {x : α}
    {t tail : List α} (hedited : Edited h h' b b') (hdata : (h'.buffer b').data = t ++ x :: tail)
    (hend : tail = [] → x = 0) :
    Edited h (unlockBuffer junk h' b' t.length).1 b (unlockBuffer junk h' b' t.length).2 ∧
      Holds (unlockBuffer junk h' b' t.length).1 (unlockBuffer junk h' b' t.length).2 t := by
  unfold unlockBuffer
  split
  · obtain ⟨hresized, hkept⟩ := editResize_spec junk (t.length + 1) hedited.alive
    have hall := hedited.trans hresized
    have hwritten := hall.edit fun str => str.set t.length 0
    refine ⟨hwritten, hwritten.alive, Nat.le_of_eq hwritten.owner.symm, ?_⟩
    have hfits : t.length + 1 ≤ (t ++ x :: tail).length := by
      rw [List.length_append, List.length_cons]
      omega
    have htake : (t ++ x :: tail).take (t.length + 1) = t ++ [x] := by
      rw [List.take_append, List.take_of_length_le (Nat.le_succ _), Nat.add_sub_cancel_left]
      rfl
    dsimp only
    rw [data_edit, hkept, hdata, resize_of_le junk hfits, htake, List.set_append_right _ _ (by rfl)]
    simp
  · rename_i hsize
    refine ⟨hedited, hedited.alive, Nat.le_of_eq hedited.owner.symm, ?_⟩
    have hlen : t.length = h'.size b' := not_not.mp hsize
    unfold CharHeap.size at hlen
    rw [hdata, List.length_append, List.length_cons] at hlen
    have htail : tail = [] := List.length_eq_zero_iff.mp (by omega)
    rw [hdata, hend htail, htail]

end CharHeap
end Utils
end AndroidLinux
