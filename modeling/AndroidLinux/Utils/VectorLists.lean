import AndroidLinux.Utils.VectorGrowth

/-!
# Vectors as independent lists

Each call on a vector does to its list what the list operation says and leaves the lists of
the other vectors alone, and every item that is constructed in a slot is destroyed before the
next one.  The exception is `removeItemsAt` of no items before the end of a vector:
`move_backward_type` then copies each item onto itself and destroys it (`Movable`).
-/

namespace AndroidLinux
namespace Utils

section Ranges

variable {β : Type*} (f g : Nat → β) {n pos num : Nat}

/-- A gap filled with other values. -/
theorem map_range_insert (hpos : pos ≤ n) :
    (List.range (n + num)).map (fun i => if pos ≤ i ∧ i < pos + num then g (i - pos)
        else if i < pos then f i else f (i - num)) =
      ((List.range n).map f).take pos ++ (List.range num).map g ++
        ((List.range n).map f).drop pos := by
  refine List.ext_getElem (by simp; omega) fun i h₁ h₂ => ?_
  simp only [List.length_map, List.length_range] at h₁
  simp only [List.getElem_map, List.getElem_range, List.getElem_append, List.getElem_take,
    List.getElem_drop, List.length_append, List.length_take, List.length_map, List.length_range,
    Nat.min_eq_left hpos]
  by_cases hlow : i < pos
  · rw [if_neg (by omega), if_pos hlow, dif_pos (by omega), dif_pos hlow]
  · by_cases hin : i < pos + num
    · rw [if_pos (by omega), dif_pos hin, dif_neg hlow]
    · rw [if_neg (by omega), if_neg hlow, dif_neg hin]
      congr 1
      omega

/-- A gap closed. -/
theorem map_range_remove (hpos : pos + num ≤ n) :
    (List.range (n - num)).map (fun i => if i < pos then f i else f (i + num)) =
      ((List.range n).map f).take pos ++ ((List.range n).map f).drop (pos + num) := by
  refine List.ext_getElem (by simp; omega) fun i h₁ h₂ => ?_
  have hmin : min pos n = pos := by omega
  simp only [List.length_map, List.length_range] at h₁
  simp only [List.getElem_map, List.getElem_range, List.getElem_append, List.getElem_take,
    List.getElem_drop, List.length_take, List.length_map, List.length_range, hmin]
  by_cases hlow : i < pos
  · rw [if_pos hlow, dif_pos hlow]
  · rw [if_neg hlow, dif_neg hlow]
    congr 1
    omega

/-- Values in the place of others. -/
theorem map_range_replace (hpos : pos + num ≤ n) :
    (List.range n).map (fun i => if pos ≤ i ∧ i < pos + num then g (i - pos) else f i) =
      ((List.range n).map f).take pos ++ (List.range num).map g ++
        ((List.range n).map f).drop (pos + num) := by
  refine List.ext_getElem (by simp; omega) fun i h₁ h₂ => ?_
  have hmin : min pos n = pos := by omega
  simp only [List.length_map, List.length_range] at h₁
  simp only [List.getElem_map, List.getElem_range, List.getElem_append, List.getElem_take,
    List.getElem_drop, List.length_append, List.length_take, List.length_map, List.length_range,
    hmin]
  by_cases hlow : i < pos
  · rw [if_neg (by omega), dif_pos (by omega), dif_pos hlow]
  · by_cases hin : i < pos + num
    · rw [if_pos (by omega), dif_pos hin, dif_neg hlow]
    · rw [if_neg (by omega), dif_neg hin]
      congr 1
      omega

end Ranges

section NewItems

variable {α : Type*} {t : Traits} {size pos num : Nat}
  {items : Nat → Slot α} {P : Nat → Prop} {f : Nat → Option α}

/-- The items that `insertAt` adds.  A trivial constructor leaves them indeterminate. -/
structure NewItems (t : Traits) (default : α) (item : Option α) (num : Nat)
    (fresh : List (Option α)) : Prop where
  length_eq : fresh.length = num
  splat : ∀ a, item = some a → fresh = List.replicate num (some a)
  construct : item = none → t.trivialCtor = false →
    fresh = List.replicate num (some default)

/-- New items in a gap. -/
theorem Stocked.fill (h : Stocked t size items P f) (default : α) (item : Option α)
    (hsize : pos + num ≤ size)
    (hfree : ∀ i, pos ≤ i → i < pos + num → ¬ P i) :
    ∃ items' g, Vectors.fill t default item pos num size items = some items' ∧
      NewItems t default item num ((List.range num).map g) ∧
      Stocked t size items' (fun i => P i ∨ pos ≤ i ∧ i < pos + num)
        (fun i => if pos ≤ i ∧ i < pos + num then g (i - pos) else f i) := by
  cases item with
  | some a =>
      obtain ⟨items', hbuild, hstocked⟩ := h.buildItems (fun _ _ => some a) hsize hfree
      refine ⟨items', fun _ => some a, hbuild, ⟨by simp, fun a' ha' => ?_, fun hno => ?_⟩,
        hstocked⟩
      · obtain rfl := Option.some.inj ha'
        simp
      · cases hno
  | none =>
      obtain ⟨items', hbuild, hstocked⟩ := h.buildItems
        (fun _ slot => if t.trivialCtor then slot.val else some default) hsize hfree
      refine ⟨items', fun j => if t.trivialCtor then (items (pos + j)).val else some default,
        hbuild, ⟨by simp, fun a ha => ?_, fun _ hctor => ?_⟩,
        hstocked.congr (fun _ => Iff.rfl) fun i _ => ?_⟩
      · cases ha
      · simp [hctor]
      · by_cases hin : pos ≤ i ∧ i < pos + num
        · rw [if_pos hin, if_pos hin]
          dsimp only
          rw [Nat.add_sub_cancel' hin.1]
        · rw [if_neg hin, if_neg hin]

end NewItems

/-- The vector that a call is made on. -/
def VectorCall.target {ι α : Type*} : VectorCall ι α → ι
  | .copyConstruct v _ => v
  | .assign v _ => v
  | .insertAt v _ _ _ => v
  | .insertArrayAt v _ _ => v
  | .replaceAt v _ _ => v
  | .removeItemsAt v _ _ => v
  | .push v _ => v
  | .pop v => v
  | .resize v _ => v
  | .setCapacity v _ => v
  | .clear v => v
  | .finishVector v => v

/-- What the list operation says: the list of the vector behind a call. -/
def VectorCall.Result {ι α : Type*} (t : Traits) (default : α) (l : ι → List (Option α)) :
    VectorCall ι α → List (Option α) → Prop
  | .copyConstruct _ rhs, l' => l' = l rhs
  | .assign _ rhs, l' => l' = l rhs
  | .insertAt v item index numItems, l' => ∃ fresh, NewItems t default item numItems fresh ∧
      l' = (l v).take index ++ fresh ++ (l v).drop index
  | .insertArrayAt v array index, l' =>
      l' = (l v).take index ++ array.map some ++ (l v).drop index
  | .replaceAt v item index, l' => ∃ fresh, NewItems t default item 1 fresh ∧
      l' = (l v).take index ++ fresh ++ (l v).drop (index + 1)
  | .removeItemsAt v index count, l' => l' = (l v).take index ++ (l v).drop (index + count)
  | .push v item, l' => ∃ fresh, NewItems t default item 1 fresh ∧ l' = l v ++ fresh
  | .pop v, l' => l' = (l v).dropLast
  | .resize v size, l' => ∃ fresh, NewItems t default none (size - (l v).length) fresh ∧
      l' = (l v).take size ++ fresh
  | .setCapacity v _, l' => l' = l v
  | .clear _, l' => l' = []
  | .finishVector _, l' => l' = []

namespace Vectors

variable {ι α : Type*} [Fintype ι] {t : Traits} {s s' : Vectors ι α} {v : ι}
  {full : Nat → Nat → Prop} {index count : Nat}

/-- One vector has got another list. -/
structure Changes (t : Traits) (s s' : Vectors ι α) (v : ι) (l : List (Option α)) : Prop where
  sound : ∃ full', Sound t s' full'
  others : ∀ w, w ≠ v → s'.contents w = s.contents w
  own : s'.contents v = l

theorem Sound.unchanged (h : Sound t s full) (v : ι) : Changes t s s v (s.contents v) :=
  ⟨⟨full, h⟩, fun _ _ => rfl, rfl⟩

theorem Prepared.changes {k size : Nat} {P : Nat → Prop} {f : Nat → Option α}
    (h : Prepared t s s' v k size P f) (hslots : ∀ i, P i ↔ i < k) :
    Changes t s s' v ((List.range k).map f) := by
  obtain ⟨hsound, hothers, hown⟩ := h.sound hslots
  exact ⟨hsound, hothers, hown⟩

omit [Fintype ι] in
theorem length_contents (s : Vectors ι α) (v : ι) :
    (s.contents v).length = (s.vecs v).mCount := by
  simp [contents]

variable [DecidableEq ι]

theorem Sound.insertAt (h : Sound t s full) (default : α) (item : Option α)
    (hindex : index ≤ (s.vecs v).mCount) (hcount : 0 < count) :
    ∃ s' fresh, s.insertAt t v default item index count = some s' ∧
      NewItems t default item count fresh ∧
      Changes t s s' v ((s.contents v).take index ++ fresh ++ (s.contents v).drop index) := by
  obtain ⟨m, size, hgrow, hroom, hm⟩ := h.grow hindex hcount
  have hfree : ∀ i, index ≤ i → i < index + count →
      ¬ (i < index ∨ index + count ≤ i ∧ i < (s.vecs v).mCount + count) := fun i _ _ => by omega
  -- what a trivial constructor leaves depends on the bytes that are there
  obtain ⟨s', values, hfill, ⟨g, hvalues, hnew⟩, hprepared⟩ := hm.editItemsTo
    (fun size => fill t default item index count size)
    (R := fun values => ∃ g : Nat → Option α, values = (fun i =>
        if index ≤ i ∧ i < index + count then g (i - index)
        else if i < index then s.valAt v i else s.valAt v (i - count)) ∧
      NewItems t default item count ((List.range count).map g))
    fun items hitems => by
      obtain ⟨items', g, hitems', hnew, hstocked⟩ := hitems.fill default item (by omega)
        hfree
      exact ⟨items', _, hitems', ⟨g, rfl, hnew⟩, hstocked⟩
  refine ⟨s', (List.range count).map g, ?_, hnew, ?_⟩
  · rw [Vectors.insertAt, if_neg (by omega), hgrow]
    exact hfill
  · have hchanges := hprepared.changes fun i => by omega
    rw [hvalues, map_range_insert _ _ hindex] at hchanges
    exact hchanges

theorem Sound.insertArrayAt (h : Sound t s full) {array : List α}
    (hindex : index ≤ (s.vecs v).mCount) (harray : array ≠ []) :
    ∃ s', s.insertArrayAt t v array index = some s' ∧
      Changes t s s' v
        ((s.contents v).take index ++ array.map some ++ (s.contents v).drop index) := by
  obtain ⟨m, size, hgrow, hroom, hm⟩ := h.grow hindex (List.length_pos_iff.mpr harray)
  have hfree : ∀ i, index ≤ i → i < index + array.length →
      ¬ (i < index ∨ index + array.length ≤ i ∧ i < (s.vecs v).mCount + array.length) :=
    fun i _ _ => by omega
  obtain ⟨s', hfill, hprepared⟩ := hm.editItems
    (fun size => doCopyArray t size index array)
    fun items hitems => hitems.buildItems (fun i _ => array[i]?) (by omega) hfree
  refine ⟨s', ?_, ?_⟩
  · rw [Vectors.insertArrayAt, if_neg (by omega), hgrow]
    exact hfill
  · have hchanges := hprepared.changes fun i => by omega
    have harray' : (List.range array.length).map (fun i => array[i]?) = array.map some := by
      refine List.ext_getElem (by simp) fun i h₁ h₂ => ?_
      simp only [List.length_map] at h₂
      simp [h₂]
    rw [map_range_insert _ (fun i => array[i]?) hindex, harray'] at hchanges
    exact hchanges

theorem Sound.replaceAt (h : Sound t s full) (default : α) (item : Option α)
    (hindex : index < (s.vecs v).mCount) :
    ∃ s' fresh, s.replaceAt t v default item index = some s' ∧
      NewItems t default item 1 fresh ∧
      Changes t s s' v ((s.contents v).take index ++ fresh ++
        (s.contents v).drop (index + 1)) := by
  cases hv : (s.vecs v).mStorage with
  | none =>
      have hzero := (h.tight v).none hv
      omega
  | some b =>
      obtain ⟨m, hedit, hm⟩ := h.editArrayImpl hv
      have hcapacity : s.capacity v = (s.heap b).mSize := by
        rw [capacity, hv]
        rfl
      have hroom : (s.vecs v).mCount ≤ s.capacity v := hcapacity ▸ h.count_le hv
      obtain ⟨s', values, hfill, ⟨g, hvalues, hnew⟩, hprepared⟩ := hm.editItemsTo
        (fun size items =>
          (doDestroy t size index 1 items).bind (fill t default item index 1 size))
        (R := fun values => ∃ g : Nat → Option α, values = (fun i =>
            if index ≤ i ∧ i < index + 1 then g (i - index) else s.valAt v i) ∧
          NewItems t default item 1 ((List.range 1).map g))
        fun items hitems => by
          have hfit : index + 1 ≤ s.capacity v := by omega
          obtain ⟨mid, hmid, hdestroyed⟩ := hitems.doDestroy hfit fun i _ hi => by omega
          obtain ⟨items', g, hitems', hnew, hstocked⟩ := hdestroyed.fill default item
            hfit fun i hlo hhi hp => hp.2 ⟨hlo, hhi⟩
          refine ⟨items', _, ?_, ⟨g, rfl, hnew⟩, hstocked⟩
          rw [hmid]
          exact hitems'
      refine ⟨s', (List.range 1).map g, ?_, hnew, ?_⟩
      · rw [Vectors.replaceAt, if_neg (by omega), hedit]
        exact hfill
      · have hchanges := hprepared.changes fun i => by omega
        rw [hvalues, map_range_replace _ _ hindex] at hchanges
        exact hchanges

theorem Sound.shrink_changes (h : Sound t s full)
    (hindex : index + count ≤ (s.vecs v).mCount) (hmovable : Movable t s v index count) :
    ∃ s', s.shrink t v index count = some s' ∧
      Changes t s s' v ((s.contents v).take index ++ (s.contents v).drop (index + count)) := by
  cases hv : (s.vecs v).mStorage with
  | none =>
      have hempty : s.contents v = [] := by
        rw [contents, (h.tight v).none hv]
        rfl
      refine ⟨s, ?_, ?_⟩
      · rw [Vectors.shrink]
        exact if_pos hv
      · have hsame := h.unchanged v
        rw [hempty] at hsame ⊢
        simpa using hsame
  | some b =>
      obtain ⟨s', size, hshrink, hprepared⟩ := h.shrink hindex hmovable hv
      refine ⟨s', hshrink, ?_⟩
      have hchanges := hprepared.changes fun _ => Iff.rfl
      rwa [map_range_remove _ hindex] at hchanges

theorem Sound.removeItemsAt (h : Sound t s full) (hindex : index + count ≤ (s.vecs v).mCount)
    (hmovable : Movable t s v index count) :
    ∃ s', s.removeItemsAt t v index count = some s' ∧
      Changes t s s' v ((s.contents v).take index ++ (s.contents v).drop (index + count)) := by
  rw [Vectors.removeItemsAt, if_neg (by omega)]
  exact h.shrink_changes hindex hmovable

theorem Sound.finishVector (h : Sound t s full) (v : ι) :
    ∃ s', s.finishVector t v = some s' ∧ s'.vecs v = ⟨none, 0⟩ ∧ Changes t s s' v [] := by
  obtain ⟨m, full', hrelease, -, -, hsound, hframe⟩ := h.releaseStorage v
  have hvec : (m.setVec v ⟨none, 0⟩).vecs v = ⟨none, 0⟩ := Function.update_self ..
  refine ⟨m.setVec v ⟨none, 0⟩, ?_, hvec, ⟨full', hsound⟩, hframe.same, ?_⟩
  · rw [Vectors.finishVector, hrelease]
    rfl
  · rw [contents, hvec]
    rfl

/-- A vector that has been finished takes over the list of another one. -/
theorem Sound.copyConstruct_changes (h : Sound t s full) (hv : s.vecs v = ⟨none, 0⟩) (rhs : ι) :
    Changes t s (s.copyConstruct v rhs) v (s.contents rhs) := by
  obtain ⟨hsound, hothers, hown⟩ := h.copyConstruct hv rhs
  exact ⟨⟨full, hsound⟩, hothers, hown⟩

theorem Sound.assign (h : Sound t s full) (v rhs : ι) :
    ∃ s', s.assign t v rhs = some s' ∧ Changes t s s' v (s.contents rhs) := by
  unfold Vectors.assign
  split
  · rename_i heq
    subst heq
    exact ⟨s, rfl, h.unchanged v⟩
  · rename_i hne
    obtain ⟨m, full', hrelease, hvecs, -, hsound, hframe⟩ := h.releaseStorage v
    have hvec : (m.setVec v ⟨none, 0⟩).vecs v = ⟨none, 0⟩ := Function.update_self ..
    have hrhs : (m.setVec v ⟨none, 0⟩).contents rhs = s.contents rhs :=
      hframe.same rhs (Ne.symm hne)
    have hfields : (m.setVec v ⟨none, 0⟩).vecs rhs = m.vecs rhs :=
      Function.update_of_ne (Ne.symm hne) _ _
    rw [hrelease, Option.map_some]
    refine ⟨_, rfl, ?_⟩
    split
    · -- the fields are overwritten, so that it does not matter what they were
      have hcopy : m.copyConstruct v rhs = (m.setVec v ⟨none, 0⟩).copyConstruct v rhs := by
        unfold Vectors.copyConstruct
        rw [hfields]
        simp only [setVec, put, Function.update_idem]
      obtain ⟨hagain, hothers, hown⟩ := hsound.copyConstruct_changes hvec rhs
      rw [hcopy]
      exact ⟨hagain, fun w hw => (hothers w hw).trans (hframe.same w hw), hown.trans hrhs⟩
    · rename_i hzero
      refine ⟨⟨full', hsound⟩, hframe.same, ?_⟩
      have hempty : (m.vecs rhs).mCount = 0 := not_not.mp hzero
      rw [← hrhs, contents, contents, hvec, hfields, hempty]
      rfl

theorem Sound.setCapacity (h : Sound t s full) (v : ι) (newCapacity : Nat) :
    ∃ s', s.setCapacity t v newCapacity = some s' ∧ Changes t s s' v (s.contents v) := by
  unfold Vectors.setCapacity
  split
  · exact ⟨s, rfl, h.unchanged v⟩
  · rename_i hmore
    have hfit : (s.vecs v).mCount ≤ newCapacity := by omega
    obtain ⟨s', hrehouse, hprepared⟩ := h.rehouseAll v hfit
    exact ⟨s', hrehouse, hprepared.changes fun _ => Iff.rfl⟩

theorem Sound.push (h : Sound t s full) (v : ι) (default : α) (item : Option α) :
    ∃ s' fresh, s.push t v default item = some s' ∧ NewItems t default item 1 fresh ∧
      Changes t s s' v (s.contents v ++ fresh) := by
  obtain ⟨s', fresh, hinsert, hnew, hchanges⟩ :=
    h.insertAt default item (le_refl (s.vecs v).mCount) Nat.one_pos
  refine ⟨s', fresh, hinsert, hnew, ?_⟩
  rwa [← length_contents, List.take_length, List.drop_length, List.append_nil] at hchanges

theorem Sound.pop (h : Sound t s full) (v : ι) :
    ∃ s', s.pop t v = some s' ∧ Changes t s s' v (s.contents v).dropLast := by
  have hlength := length_contents s v
  unfold Vectors.pop
  split
  · rename_i hsome
    have hlast : (s.vecs v).mCount - 1 + 1 ≤ (s.vecs v).mCount := by omega
    obtain ⟨s', hremove, hchanges⟩ := h.removeItemsAt hlast (Or.inl Nat.one_pos)
    refine ⟨s', hremove, ?_⟩
    rw [List.dropLast_eq_take, hlength]
    rwa [List.drop_of_length_le (by omega), List.append_nil] at hchanges
  · rename_i hzero
    have hempty : s.contents v = [] := List.length_eq_zero_iff.mp (by omega)
    have hsame := h.unchanged v
    rw [hempty] at hsame ⊢
    exact ⟨s, rfl, hsame⟩

theorem Sound.clear (h : Sound t s full) (v : ι) :
    ∃ s', s.clear t v = some s' ∧ Changes t s s' v [] := by
  have hlength := length_contents s v
  have hmovable : Movable t s v 0 (s.vecs v).mCount := by
    unfold Movable
    omega
  obtain ⟨s', hshrink, hchanges⟩ := h.shrink_changes (by omega) hmovable
  refine ⟨s', hshrink, ?_⟩
  rwa [List.take_zero, List.nil_append, List.drop_of_length_le (by omega)] at hchanges

theorem Sound.resize (h : Sound t s full) (v : ι) (default : α) (size : Nat) :
    ∃ s' fresh, s.resize t v default size = some s' ∧
      NewItems t default none (size - (s.contents v).length) fresh ∧
      Changes t s s' v ((s.contents v).take size ++ fresh) := by
  have hlength := length_contents s v
  unfold Vectors.resize
  dsimp only
  split
  · rename_i hmore
    obtain ⟨s', fresh, hinsert, hnew, hchanges⟩ := h.insertAt default none
      (le_refl (s.vecs v).mCount) (Nat.sub_pos_of_lt hmore)
    refine ⟨s', fresh, hinsert, by rwa [hlength], ?_⟩
    rw [List.take_of_length_le (by omega)]
    rwa [← hlength, List.take_length, List.drop_length, List.append_nil] at hchanges
  · rename_i hnot
    have hnone : NewItems t default none (size - (s.contents v).length) [] := by
      have hzero : size - (s.contents v).length = 0 := by omega
      rw [hzero]
      exact ⟨rfl, fun _ _ => rfl, fun _ _ => rfl⟩
    split
    · rename_i hless
      have hindex : size + ((s.vecs v).mCount - size) ≤ (s.vecs v).mCount := by omega
      obtain ⟨s', hremove, hchanges⟩ :=
        h.removeItemsAt hindex (Or.inl (Nat.sub_pos_of_lt hless))
      refine ⟨s', [], hremove, hnone, ?_⟩
      rw [List.append_nil]
      rwa [List.drop_of_length_le (by omega), List.append_nil] at hchanges
    · refine ⟨s, [], rfl, hnone, ?_⟩
      rw [List.append_nil, List.take_of_length_le (by omega)]
      exact h.unchanged v

/-- Indices in range, at least one item to insert, and a copy is constructed as a new vector. -/
def InRange (s : Vectors ι α) : VectorCall ι α → Prop
  | .copyConstruct v _ => s.vecs v = ⟨none, 0⟩
  | .insertAt v _ index numItems => index ≤ (s.vecs v).mCount ∧ 0 < numItems
  | .insertArrayAt v array index => index ≤ (s.vecs v).mCount ∧ array ≠ []
  | .replaceAt v _ index => index < (s.vecs v).mCount
  | .removeItemsAt v index count => index + count ≤ (s.vecs v).mCount
  | _ => True

/-- No items are moved to where they are. -/
def Guarded (t : Traits) (s : Vectors ι α) : VectorCall ι α → Prop
  | .removeItemsAt v index count =>
      index + count ≤ (s.vecs v).mCount ∧ Movable t s v index count
  | c => InRange s c

omit [Fintype ι] [DecidableEq ι] in
theorem Guarded.inRange {c : VectorCall ι α} (h : Guarded t s c) : InRange s c := by
  cases c with
  | removeItemsAt v index count => exact h.1
  | _ => exact h

/-- A call under the condition. -/
theorem Sound.call (h : Sound t s full) (default : α) {c : VectorCall ι α}
    (hc : Guarded t s c) :
    ∃ s' l, s.call t default c = some s' ∧ Changes t s s' c.target l ∧
      c.Result t default s.contents l := by
  cases c with
  | copyConstruct v rhs => exact ⟨_, _, rfl, h.copyConstruct_changes hc rhs, rfl⟩
  | assign v rhs =>
      obtain ⟨s', hs', hchanges⟩ := h.assign v rhs
      exact ⟨s', _, hs', hchanges, rfl⟩
  | insertAt v item index numItems =>
      obtain ⟨s', fresh, hs', hnew, hchanges⟩ := h.insertAt default item hc.1 hc.2
      exact ⟨s', _, hs', hchanges, fresh, hnew, rfl⟩
  | insertArrayAt v array index =>
      obtain ⟨s', hs', hchanges⟩ := h.insertArrayAt hc.1 hc.2
      exact ⟨s', _, hs', hchanges, rfl⟩
  | replaceAt v item index =>
      obtain ⟨s', fresh, hs', hnew, hchanges⟩ := h.replaceAt default item hc
      exact ⟨s', _, hs', hchanges, fresh, hnew, rfl⟩
  | removeItemsAt v index count =>
      obtain ⟨s', hs', hchanges⟩ := h.removeItemsAt hc.1 hc.2
      exact ⟨s', _, hs', hchanges, rfl⟩
  | push v item =>
      obtain ⟨s', fresh, hs', hnew, hchanges⟩ := h.push v default item
      exact ⟨s', _, hs', hchanges, fresh, hnew, rfl⟩
  | pop v =>
      obtain ⟨s', hs', hchanges⟩ := h.pop v
      exact ⟨s', _, hs', hchanges, rfl⟩
  | resize v size =>
      obtain ⟨s', fresh, hs', hnew, hchanges⟩ := h.resize v default size
      exact ⟨s', _, hs', hchanges, fresh, hnew, rfl⟩
  | setCapacity v newCapacity =>
      obtain ⟨s', hs', hchanges⟩ := h.setCapacity v newCapacity
      exact ⟨s', _, hs', hchanges, rfl⟩
  | clear v =>
      obtain ⟨s', hs', hchanges⟩ := h.clear v
      exact ⟨s', _, hs', hchanges, rfl⟩
  | finishVector v =>
      obtain ⟨s', hs', -, hchanges⟩ := h.finishVector v
      exact ⟨s', _, hs', hchanges, rfl⟩

/-- The slot holds an item of a vector. -/
def InUse (s : Vectors ι α) (b i : Nat) : Prop :=
  ∃ v, (s.vecs v).mStorage = some b ∧ i < (s.vecs v).mCount

/-- What is said of the vectors: a call does what the list operation says and nothing that is
not allowed, and in every slot that has ever been allocated the items that were constructed
have been destroyed, but for the one that is in use. -/
structure Ok (t : Traits) (default : α) (allowed : VectorCall ι α → Prop)
    (s : Vectors ι α) : Prop where
  lists : ∀ c, allowed c → ∃ s', s.call t default c = some s' ∧
    (∀ w, w ≠ c.target → s'.contents w = s.contents w) ∧
    c.Result t default s.contents (s'.contents c.target)
  inUse : t.trivialDtor = false → ∀ b i, InUse s b i →
    ((s.heap b).items i).built = ((s.heap b).items i).destroyed + 1
  free : t.trivialDtor = false → ∀ b i, ¬ InUse s b i →
    ((s.heap b).items i).built = ((s.heap b).items i).destroyed

omit [DecidableEq ι] in
theorem Sound.full_iff (h : Sound t s full) (b i : Nat) : full b i ↔ InUse s b i := by
  constructor
  · intro hfull
    by_cases hno : s.owners b = ∅
    · exact absurd hfull (h.accounts.empty b hno i)
    · obtain ⟨v, hv⟩ := Finset.nonempty_iff_ne_empty.mpr hno
      have hstorage := mem_owners.mp hv
      exact ⟨v, hstorage, ((h.tight v).items b hstorage i).mp hfull⟩
  · rintro ⟨v, hstorage, hi⟩
    exact ((h.tight v).items b hstorage i).mpr hi

theorem Sound.ok (h : Sound t s full) (default : α) : Ok t default (Guarded t s) s := by
  refine ⟨fun c hc => ?_, fun htrivial b i hi => ?_, fun htrivial b i hi => ?_⟩
  · obtain ⟨s', l, hs', hchanges, hresult⟩ := h.call default hc
    exact ⟨s', hs', hchanges.others, hchanges.own ▸ hresult⟩
  · exact (h.accounts.stocked b).here htrivial i ((h.full_iff b i).mpr hi)
  · exact (h.accounts.stocked b).gone htrivial i fun hfull => hi ((h.full_iff b i).mp hfull)

theorem sound_of_guarded {default : α}
    (hreach : (vectorMachine ι t default).ReachWhen (Guarded t) s) : ∃ full, Sound t s full := by
  refine hreach.invariant (I := fun s => ∃ full, Sound t s full) ?_ ?_
  · rintro _ rfl
    refine ⟨fun _ _ => False, ⟨fun b => ?_, fun b v hv => ?_, fun b => ?_, fun _ _ _ hi => hi⟩,
      fun v => ⟨fun b hb => ?_, fun _ => rfl⟩⟩
    · refine (Finset.card_eq_zero.mpr (Finset.eq_empty_of_forall_notMem fun v hv => ?_)).symm
      cases mem_owners.mp hv
    · cases mem_owners.mp hv
    · exact Stocked.raw t _ _
    · cases hb
  · rintro s c s' ⟨full, h⟩ hguard hstep
    obtain ⟨s'', l, hs'', hchanges, -⟩ := h.call default hguard
    obtain rfl := Option.some.inj (hs''.symm.trans hstep)
    exact hchanges.sound

/-- Vectors are independent lists in every run whose calls meet the condition. -/
theorem vectors_ok (ι : Type*) {α : Type*} [Fintype ι] [DecidableEq ι] (t : Traits)
    (default : α) {s : Vectors ι α}
    (hreach : (vectorMachine ι t default).ReachWhen (Guarded t) s) :
    Ok t default (Guarded t s) s := by
  obtain ⟨full, h⟩ := sound_of_guarded hreach
  exact h.ok default

/-- A type that needs its constructors and destructors. -/
def counted : Traits := ⟨false, false, false, false⟩

/-- A test for the calls of the runs below. -/
def passes {ι α : Type*} (s : Vectors ι α) : VectorCall ι α → Bool
  | .push _ _ => true
  | .assign _ _ => true
  | .insertAt v _ index numItems => decide (index ≤ (s.vecs v).mCount ∧ 0 < numItems)
  | .removeItemsAt v index count => decide (index + count ≤ (s.vecs v).mCount ∧ 0 < count)
  | _ => false

omit [Fintype ι] [DecidableEq ι] in
theorem guarded_of_passes (s : Vectors ι α) {c : VectorCall ι α} (hc : passes s c = true) :
    Guarded t s c := by
  cases c with
  | push v item => trivial
  | assign v rhs => trivial
  | insertAt v item index numItems =>
      simp only [passes, decide_eq_true_eq] at hc
      exact hc
  | removeItemsAt v index count =>
      simp only [passes, decide_eq_true_eq] at hc
      obtain ⟨hrange, hcount⟩ := hc
      exact ⟨hrange, Or.inl hcount⟩
  | _ => cases hc

/-- The vectors behind a run of such calls. -/
def ran (calls : List (VectorCall Bool Nat)) : Option (Vectors Bool Nat) :=
  (vectorMachine Bool counted 0).runWhen passes
    ⟨fun _ => ⟨0, 0, fun _ => Slot.raw, true⟩, 0, fun _ => ⟨none, 0⟩⟩ calls

/-- Three items are pushed and the vector assigned.  Then one vector loses the item in the
middle, and the other one gets two new items in front. -/
def assigned : List (VectorCall Bool Nat) :=
  [.push false (some 5), .push false (some 7), .push false (some 9), .assign true false,
    .removeItemsAt false 1 1, .insertAt true (some 3) 0 2]

theorem vectors_ok_assigned :
    ∃ s, (vectorMachine Bool counted 0).ReachWhen (Guarded counted) s ∧
      s.contents false = [some 5, some 9] ∧
      s.contents true = [some 3, some 3, some 5, some 7, some 9] ∧
      Ok counted 0 (Guarded counted s) s := by
  have hrun : (ran assigned).isSome = true := by decide
  have hreach : (vectorMachine Bool counted 0).ReachWhen (Guarded counted)
      ((ran assigned).get hrun) :=
    Lib.Machine.reachWhen_of_runWhen (fun s _ hc => guarded_of_passes s hc) _ (.init rfl)
      (Option.some_get hrun).symm
  exact ⟨_, hreach, rfl, rfl, vectors_ok Bool counted 0 hreach⟩

/-- Two items are pushed and `removeItemsAt(0, 0)` is called: the first item is constructed
on top of itself. -/
theorem removeItemsAt_none_moves :
    ¬ ∀ s, (vectorMachine Bool counted 0).ReachWhen InRange s →
      Ok counted 0 (InRange s) s := by
  intro hall
  have hrun : (ran [.push false (some 5), .push false (some 7)]).isSome = true := by decide
  have hreach : (vectorMachine Bool counted 0).ReachWhen InRange
      ((ran [.push false (some 5), .push false (some 7)]).get hrun) :=
    Lib.Machine.reachWhen_of_runWhen
      (fun s _ hc => (guarded_of_passes s hc (t := counted)).inRange) _ (.init rfl)
      (Option.some_get hrun).symm
  -- two items in a capacity of four are moved in place
  obtain ⟨s', hs', -⟩ := (hall _ hreach).lists (.removeItemsAt false 0 0) (Nat.zero_le _)
  have hnone : ((ran [.push false (some 5), .push false (some 7)]).get hrun).call counted 0
      (.removeItemsAt false 0 0) = none := rfl
  rw [hnone] at hs'
  cases hs'

end Vectors
end Utils
end AndroidLinux
