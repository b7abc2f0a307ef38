import AndroidLinux.Lib.StableSort
import AndroidLinux.Utils.VectorLists

/-!
# `VectorImpl::sort`

An insertion sort.  The vector is left alone, with its storage shared or not, until the
first pair out of order is met: then `editArrayImpl` makes it the only owner, and `temp` is
allocated, a place for one item.  From there on `array` is the storage of the vector, too.

As elsewhere, `none` stands for what must not happen, here also for a comparison with a place
that holds no item.
-/

namespace AndroidLinux
namespace Utils

open Lib (StableSort)

section Items

variable {α : Type*} (t : Traits) (size : Nat) (cmp : Option α → Option α → Int)

/-- `_do_copy` of one item. -/
def copyItem (dest : Nat) (item : Slot α) (items : Nat → Slot α) : Option (Nat → Slot α) :=
  if item.live then buildItems t size dest 1 (fun _ _ => item.val) items else none

/-- `cmp` of two items. -/
def compareItems (a b : Slot α) : Option Int :=
  if a.live && b.live then some (cmp a.val b.val) else none

/-- The item at `curr` is copied to `next`, the place behind it. -/
def shiftItem (curr : Nat) (items : Nat → Slot α) : Option (Nat → Slot α) :=
  (doDestroy t size (curr + 1) 1 items).bind fun items =>
    copyItem t size (curr + 1) (items curr) items

/-- The inner loop, with the last `next`. -/
def shiftLoop (temp : Slot α) : Nat → (Nat → Slot α) → Option (Nat × (Nat → Slot α))
  | 0, items => (shiftItem t size 0 items).map fun items => (0, items)
  | j + 1, items =>
      (shiftItem t size (j + 1) items).bind fun items =>
        (compareItems cmp (items j) temp).bind fun order =>
          if 0 < order then shiftLoop temp j items else some (j + 1, items)

/-- The loop from the item at `i` on, and the item in `temp` into the place that is left. -/
def placeItem (temp : Slot α) (i : Nat) (items : Nat → Slot α) : Option (Nat → Slot α) :=
  (shiftLoop t size cmp temp (i - 1) items).bind fun next =>
    (doDestroy t size next.1 1 next.2).bind (copyItem t size next.1 temp)

end Items

namespace Vectors

variable {ι α : Type*} [DecidableEq ι] (t : Traits) (s : Vectors ι α) (v : ι)
  (cmp : Option α → Option α → Int)

/-- The place of an item in the storage. -/
def slotAt (i : Nat) : Option (Slot α) :=
  match (s.vecs v).mStorage with
  | none => none
  | some b =>
      if (s.heap b).freed ∨ (s.heap b).mSize ≤ i then none else some ((s.heap b).items i)

/-- `temp` is made ready to take an item. -/
def readyTemp (temp : Option (Nat → Slot α)) : Option (Vectors ι α × (Nat → Slot α)) :=
  match temp with
  | none => (s.editArrayImpl t v).map fun s => (s, fun _ => Slot.raw)
  | some temp => (doDestroy t 1 0 1 temp).map fun temp => (s, temp)

/-- The item at `i` is moved over the greater ones before it. -/
def moveItemBack (i : Nat) (temp : Option (Nat → Slot α)) :
    Option (Vectors ι α × Option (Nat → Slot α)) :=
  (s.readyTemp t v temp).bind fun ready =>
    (ready.1.slotAt v i).bind fun item =>
      (copyItem t 1 0 item ready.2).bind fun temp =>
        (ready.1.editItems v fun size => placeItem t size cmp (temp 0) i).map fun s =>
          (s, some temp)

/-- One pass of the outer loop. -/
def sortPass (i : Nat) (temp : Option (Nat → Slot α)) :
    Option (Vectors ι α × Option (Nat → Slot α)) :=
  (s.slotAt v (i - 1)).bind fun curr =>
    (s.slotAt v i).bind fun item =>
      (compareItems cmp curr item).bind fun order =>
        if 0 < order then s.moveItemBack t v cmp i temp else some (s, temp)

/-- The outer loop, with the passes that are left. -/
def sortLoop : (passes i : Nat) → Vectors ι α → Option (Nat → Slot α) →
    Option (Vectors ι α × Option (Nat → Slot α))
  | 0, _, s, temp => some (s, temp)
  | n + 1, i, s, temp =>
      (s.sortPass t v cmp i temp).bind fun passed => sortLoop n (i + 1) passed.1 passed.2

/-- `temp` is freed, with no item in it. -/
def freeTemp (temp : Option (Nat → Slot α)) : Option (Vectors ι α) :=
  match temp with
  | none => some s
  | some temp =>
      (doDestroy t 1 0 1 temp).bind fun temp =>
        if t.trivialDtor ∨ (temp 0).live = false then some s else none

/-- `sort`, when allocations succeed. -/
def sort : Option (Vectors ι α) :=
  if 1 < (s.vecs v).mCount then
    (sortLoop t v cmp ((s.vecs v).mCount - 1) 1 s none).bind fun sorted =>
      sorted.1.freeTemp t sorted.2
  else some s

end Vectors

/-! ## The items of a pass -/

namespace Stocked

variable {α : Type*} {t : Traits} {size k : Nat} {items : Nat → Slot α} {P : Nat → Prop}
  {f : Nat → Option α} {cmp : Option α → Option α → Int}

theorem copyItem (h : Stocked t size items P f) {dest : Nat} {item : Slot α}
    (hlive : item.live = true) (hsize : dest < size) (hfree : ¬ P dest) :
    ∃ items', Utils.copyItem t size dest item items = some items' ∧
      Stocked t size items' (fun i => P i ∨ i = dest)
        (fun i => if i = dest then item.val else f i) := by
  have hfit : dest + 1 ≤ size := hsize
  obtain ⟨items', hbuild, hstocked⟩ := h.buildItems (fun _ _ => item.val) hfit
    fun i hlo hhi => by
      obtain rfl : i = dest := by omega
      exact hfree
  have hdest : ∀ i, i = dest ↔ dest ≤ i ∧ i < dest + 1 := fun i => by omega
  refine ⟨items', (if_pos hlive).trans hbuild, hstocked.congr (fun i => ?_) fun i _ => ?_⟩
  · rw [hdest]
  · simp only [hdest]

theorem destroyItem (h : Stocked t size items P f) {dest : Nat} (hthere : P dest) :
    ∃ items', Utils.doDestroy t size dest 1 items = some items' ∧
      Stocked t size items' (fun i => P i ∧ i ≠ dest) f := by
  have hfit : dest + 1 ≤ size := h.inside dest hthere
  obtain ⟨items', hdestroy, hstocked⟩ := h.doDestroy hfit fun i hlo hhi => by
    obtain rfl : i = dest := by omega
    exact hthere
  refine ⟨items', hdestroy, hstocked.congr (fun i => ?_) fun i _ => rfl⟩
  have hdest : i = dest ↔ dest ≤ i ∧ i < dest + 1 := by omega
  rw [ne_eq, hdest]

/-- An item is destroyed, and another one copied to its place. -/
theorem replaceItem (h : Stocked t size items (fun i => i < k) f) {dest : Nat} (hdest : dest < k)
    (item : (Nat → Slot α) → Slot α)
    (hlive : ∀ items', Stocked t size items' (fun i => i < k ∧ i ≠ dest) f →
      (item items').live = true) :
    ∃ mid items', Utils.doDestroy t size dest 1 items = some mid ∧
      Utils.copyItem t size dest (item mid) mid = some items' ∧
      Stocked t size mid (fun i => i < k ∧ i ≠ dest) f ∧
      Stocked t size items' (fun i => i < k)
        (fun i => if i = dest then (item mid).val else f i) := by
  obtain ⟨mid, hdestroy, hmid⟩ := h.destroyItem hdest
  obtain ⟨items', hcopy, hstocked⟩ := hmid.copyItem (hlive mid hmid) (h.inside dest hdest)
    fun hin => hin.2 rfl
  refine ⟨mid, items', hdestroy, hcopy, hmid, hstocked.congr (fun i => ?_) fun _ _ => rfl⟩
  constructor
  · intro hi
    by_cases heq : i = dest
    · exact .inr heq
    · exact .inl ⟨hi, heq⟩
  · rintro (hi | rfl)
    · exact hi.1
    · exact hdest

theorem shiftItem (h : Stocked t size items (fun i => i < k) f) {curr : Nat}
    (hcurr : curr + 1 < k) :
    ∃ items', Utils.shiftItem t size curr items = some items' ∧
      Stocked t size items' (fun i => i < k) (fun i => if i = curr + 1 then f curr else f i) := by
  obtain ⟨mid, items', hdestroy, hcopy, hmid, hstocked⟩ :=
    h.replaceItem hcurr (fun items => items curr) fun items' h' =>
      h'.live curr ⟨by omega, by omega⟩
  refine ⟨items', ?_, ?_⟩
  · rw [Utils.shiftItem, hdestroy]
    exact hcopy
  · rwa [hmid.val curr ⟨by omega, by omega⟩] at hstocked

/-- The comparison of two items. -/
theorem compareItems (h : Stocked t size items P f) (cmp : Option α → Option α → Int) {i : Nat}
    (hi : P i) {b : Slot α} (hb : b.live = true) :
    Utils.compareItems cmp (items i) b = some (cmp (f i) b.val) := by
  rw [Utils.compareItems, h.live i hi, hb, ← h.val i hi]
  rfl

/-- The items from `p` on up to `i` are one place further on. -/
def shifted (f : Nat → Option α) (p i j : Nat) : Option α :=
  if p < j ∧ j ≤ i then f (j - 1) else f j

/-- The loop stops behind the first item that is not greater. -/
theorem shiftLoop (cmp : Option α → Option α → Int) {temp : Slot α} (htemp : temp.live = true)
    {j : Nat} (hj : j + 1 < k) (h : Stocked t size items (fun i => i < k) f) :
    ∃ p items', Utils.shiftLoop t size cmp temp j items = some (p, items') ∧ p ≤ j ∧
      (∀ i, p ≤ i → i < j → 0 < cmp (f i) temp.val) ∧
      (∀ i, i + 1 = p → ¬ 0 < cmp (f i) temp.val) ∧
      Stocked t size items' (fun i => i < k) (shifted f p (j + 1)) := by
  induction j generalizing items f with
  | zero =>
      obtain ⟨items', hshift, hstocked⟩ := h.shiftItem hj
      refine ⟨0, items', ?_, le_rfl, fun i _ hi => absurd hi (Nat.not_lt_zero i),
        fun i hi => absurd hi (Nat.succ_ne_zero i),
        hstocked.congr (fun _ => Iff.rfl) fun i _ => ?_⟩
      · rw [Utils.shiftLoop, hshift]
        rfl
      · unfold shifted
        by_cases heq : i = 0 + 1
        · rw [if_pos heq, if_pos (by omega), heq]
        · rw [if_neg heq, if_neg (by omega)]
  | succ j ih =>
      obtain ⟨mid, hshift, hmid⟩ := h.shiftItem hj
      have hinside : j < k := by omega
      have hcompare := hmid.compareItems cmp hinside htemp
      rw [if_neg (by omega)] at hcompare
      by_cases horder : 0 < cmp (f j) temp.val
      · obtain ⟨p, items', hloop, hp, hgreater, hstop, hstocked⟩ := ih (by omega) hmid
        refine ⟨p, items', ?_, Nat.le_succ_of_le hp, fun i hlo hi => ?_, fun i hi => ?_,
          hstocked.congr (fun _ => Iff.rfl) fun i _ => ?_⟩
        · rw [Utils.shiftLoop, hshift, Option.bind_some, hcompare, Option.bind_some,
            if_pos horder]
          exact hloop
        · rcases Nat.lt_succ_iff_lt_or_eq.mp hi with hi | rfl
          · have hpos := hgreater i hlo hi
            rwa [if_neg (by omega)] at hpos
          · exact horder
        · have hnot := hstop i hi
          rwa [if_neg (by omega)] at hnot
        · unfold shifted
          dsimp only
          by_cases heq : i = j + 1 + 1
          · rw [if_pos (by omega), if_neg (by omega), if_pos heq, heq]
            rfl
          · by_cases hin : p < i ∧ i ≤ j + 1
            · rw [if_pos (by omega), if_pos hin, if_neg (by omega)]
            · rw [if_neg (by omega), if_neg hin, if_neg heq]
      · refine ⟨j + 1, mid, ?_, le_rfl, fun i hlo hi => by omega, fun i hi => ?_,
          hmid.congr (fun _ => Iff.rfl) fun i _ => ?_⟩
        · rw [Utils.shiftLoop, hshift, Option.bind_some, hcompare, Option.bind_some,
            if_neg horder]
        · obtain rfl : i = j := by omega
          exact horder
        · unfold shifted
          by_cases heq : i = j + 1 + 1
          · rw [if_pos heq, if_pos (by omega), heq]
            rfl
          · rw [if_neg heq, if_neg (by omega)]

/-- The item of a pass has come to `p`. -/
structure Placed (cmp : Option α → Option α → Int) (f g : Nat → Option α) (p i : Nat) : Prop where
  lt : p < i
  greater : ∀ j, p ≤ j → j < i → 0 < cmp (f j) (f i)
  stop : ∀ j, j + 1 = p → ¬ 0 < cmp (f j) (f i)
  val : ∀ j, g j = if j = p then f i else shifted f p i j

theorem placeItem (h : Stocked t size items (fun i => i < k) f) {temp : Slot α}
    (htemp : temp.live = true) {i : Nat} (hi : i + 1 < k) (hval : temp.val = f (i + 1))
    (horder : 0 < cmp (f i) (f (i + 1))) :
    ∃ items' g p, Utils.placeItem t size cmp temp (i + 1) items = some items' ∧
      Placed cmp f g p (i + 1) ∧ Stocked t size items' (fun i => i < k) g := by
  obtain ⟨p, mid, hloop, hp, hgreater, hstop, hmid⟩ := shiftLoop cmp htemp hi h
  have hinside : p < k := by omega
  obtain ⟨mid', items', hdestroy, hcopy, -, hstocked⟩ :=
    hmid.replaceItem hinside (fun _ => temp) fun _ _ => htemp
  rw [hval] at hgreater hstop hstocked
  refine ⟨items', _, p, ?_, ⟨Nat.lt_succ_of_le hp, fun j hlo hj => ?_, hstop, fun _ => rfl⟩,
    hstocked⟩
  · rw [Utils.placeItem, Nat.add_sub_cancel, hloop, Option.bind_some]
    dsimp only
    rw [hdestroy]
    exact hcopy
  · rcases Nat.lt_succ_iff_lt_or_eq.mp hj with hj | rfl
    · exact hgreater j hlo hj
    · exact horder

end Stocked

/-! ## The values -/

section Values

variable {α : Type*} {cmp : Option α → Option α → Int} {f₀ f g : Nat → Option α} {p i : Nat}

/-- `cmp` is a total preorder. -/
structure TotalPreorder (cmp : Option α → Option α → Int) : Prop where
  total : ∀ a b, cmp a b ≤ 0 ∨ cmp b a ≤ 0
  trans : ∀ a b c, cmp a b ≤ 0 → cmp b c ≤ 0 → cmp a c ≤ 0

/-- The items below `i` have been sorted, and the other ones are where they were. -/
structure SortedUpTo (cmp : Option α → Option α → Int) (f₀ f : Nat → Option α) (i : Nat) :
    Prop where
  front : StableSort (fun a b => cmp a b ≤ 0) ((List.range i).map f₀) ((List.range i).map f)
  rest : ∀ j, i ≤ j → f j = f₀ j

theorem sortedUpTo_one (cmp : Option α → Option α → Int) (f : Nat → Option α) :
    SortedUpTo cmp f f 1 :=
  ⟨StableSort.of_sorted (List.pairwise_singleton _ (f 0)), fun _ _ => rfl⟩

theorem range_split (hp : p ≤ i) : List.range i = List.range p ++ List.range' p (i - p) := by
  have happend : List.range' 0 p ++ List.range' (0 + p) (i - p) = List.range' 0 (p + (i - p)) :=
    List.range'_append_1
  rw [Nat.zero_add, Nat.add_sub_cancel' hp] at happend
  rw [List.range_eq_range', List.range_eq_range', happend]

theorem getLast?_map_range {y : Option α} (hy : ((List.range p).map f).getLast? = some y) :
    ∃ j, j + 1 = p ∧ y = f j := by
  cases p with
  | zero => cases hy
  | succ j =>
      rw [List.range_succ, List.map_append, List.map_singleton, List.getLast?_concat] at hy
      exact ⟨j, rfl, (Option.some.inj hy).symm⟩

/-- The items behind a pass that has moved one. -/
theorem Stocked.Placed.map_range (h : Stocked.Placed cmp f g p i) :
    (List.range (i + 1)).map g =
      (List.range p).map f ++ f i :: (List.range' p (i - p)).map f := by
  have hlt := h.lt
  have hfront : (List.range p).map g = (List.range p).map f := by
    refine List.map_congr_left fun j hj => ?_
    have hj := List.mem_range.mp hj
    rw [h.val, if_neg (by omega), Stocked.shifted, if_neg (by omega)]
  have hback : (List.range' (p + 1) (i - p)).map g = (List.range' p (i - p)).map f := by
    rw [List.range'_succ_left, List.map_map]
    refine List.map_congr_left fun j hj => ?_
    obtain ⟨hlo, hhi⟩ := List.mem_range'_1.mp hj
    rw [Function.comp, h.val, if_neg (by omega), Stocked.shifted, if_pos (by omega),
      Nat.add_sub_cancel]
  have hhere : g p = f i := by rw [h.val, if_pos rfl]
  rw [range_split (Nat.le_succ_of_le hlt.le), Nat.succ_sub hlt.le, List.range'_succ,
    List.map_append, List.map_cons, hfront, hback, hhere]

/-- A pass that moves an item. -/
theorem SortedUpTo.placed (hcmp : TotalPreorder cmp) (h : SortedUpTo cmp f₀ f i)
    (hplaced : Stocked.Placed cmp f g p i) : SortedUpTo cmp f₀ g (i + 1) := by
  have hlt := hplaced.lt
  have hfront := h.front
  rw [range_split hlt.le, List.map_append, List.map_append] at hfront
  refine ⟨?_, fun j hj => ?_⟩
  · rw [hplaced.map_range, List.range_succ, List.map_append, List.map_singleton,
      ← h.rest i le_rfl, range_split hlt.le, List.map_append]
    refine hfront.insert hcmp.total hcmp.trans (fun y hy => ?_) fun y hy => ?_
    · obtain ⟨j, hj, rfl⟩ := getLast?_map_range hy
      exact not_lt.mp (hplaced.stop j hj)
    · obtain ⟨j, hj, rfl⟩ := List.mem_map.mp hy
      obtain ⟨hlo, hhi⟩ := List.mem_range'_1.mp hj
      exact not_le.mpr (hplaced.greater j hlo (by omega))
  · rw [hplaced.val, if_neg (by omega), Stocked.shifted, if_neg (by omega)]
    exact h.rest j (by omega)

/-- A pass that finds its item in order. -/
theorem SortedUpTo.inOrder (hcmp : TotalPreorder cmp) (h : SortedUpTo cmp f₀ f (i + 1))
    (horder : ¬ 0 < cmp (f i) (f (i + 1))) : SortedUpTo cmp f₀ f (i + 1 + 1) := by
  have hfront := h.front
  rw [← List.append_nil ((List.range (i + 1)).map f)] at hfront
  refine ⟨?_, fun j hj => h.rest j (by omega)⟩
  rw [List.range_succ (n := i + 1), List.map_append, List.map_append, List.map_singleton,
    List.map_singleton, ← h.rest (i + 1) le_rfl]
  refine hfront.insert hcmp.total hcmp.trans (fun y hy => ?_) fun y hy =>
    absurd hy List.not_mem_nil
  obtain ⟨j, hj, rfl⟩ := getLast?_map_range hy
  obtain rfl := Nat.succ_inj.mp hj
  exact not_lt.mp horder

end Values

/-! ## The passes -/

namespace Vectors

variable {ι α : Type*} [Fintype ι] {t : Traits} {s s' : Vectors ι α} {v : ι}
  {full : Nat → Nat → Prop} {cmp : Option α → Option α → Int} {f : Nat → Option α}
  {temp : Option (Nat → Slot α)}

/-- The vector while it is sorted: it has not been touched, or it is the only owner of its
storage and there is an item in `temp`. -/
inductive Sorting (t : Traits) (s : Vectors ι α) (v : ι) :
    Vectors ι α → Option (Nat → Slot α) → (Nat → Option α) → Prop
  | untouched : Sorting t s v s none (s.valAt v)
  | moved {s' : Vectors ι α} {temp : Nat → Slot α} {f h : Nat → Option α}
      (hprepared : Prepared t s s' v (s.vecs v).mCount (s.capacity v)
        (fun i => i < (s.vecs v).mCount) f)
      (htemp : Stocked t 1 temp (fun i => i = 0) h) : Sorting t s v s' (some temp) f

theorem Prepared.slotAt {k size : Nat} (h : Prepared t s s' v k size (fun i => i < k) f) {i : Nat}
    (hi : i < k) : ∃ slot, s'.slotAt v i = some slot ∧ slot.live = true ∧ slot.val = f i := by
  obtain ⟨full', b, h⟩ := h
  have hinside := h.stocked.inside i hi
  have hfreed := h.freed
  refine ⟨(s'.heap b).items i, ?_, h.stocked.live i hi, h.stocked.val i hi⟩
  rw [Vectors.slotAt, h.vec]
  dsimp only
  rw [hfreed, h.size_eq, if_neg (by simpa using hinside)]

theorem Sound.slotAt (h : Sound t s full) {i : Nat} (hi : i < (s.vecs v).mCount) :
    ∃ slot, s.slotAt v i = some slot ∧ slot.live = true ∧ slot.val = s.valAt v i := by
  cases hv : (s.vecs v).mStorage with
  | none =>
      rw [h.vec_eq hv] at hi
      exact absurd hi (Nat.not_lt_zero i)
  | some b =>
      have hstocked := h.stocked hv
      have hinside := hstocked.inside i hi
      refine ⟨(s.heap b).items i, ?_, hstocked.live i hi, hstocked.val i hi⟩
      rw [Vectors.slotAt, hv]
      dsimp only
      rw [h.freed hv, if_neg (by simpa using hinside)]

theorem Sorting.slotAt (hsound : Sound t s full) (h : Sorting t s v s' temp f) {i : Nat}
    (hi : i < (s.vecs v).mCount) :
    ∃ slot, s'.slotAt v i = some slot ∧ slot.live = true ∧ slot.val = f i := by
  cases h with
  | untouched => exact hsound.slotAt hi
  | moved hprepared _ => exact hprepared.slotAt hi

/-- `temp` is freed. -/
theorem Sorting.freeTemp (hsound : Sound t s full) (h : Sorting t s v s' temp f) :
    s'.freeTemp t temp = some s' ∧ (∃ full', Sound t s' full') ∧
      (∀ w, w ≠ v → s'.contents w = s.contents w) ∧
      s'.contents v = (List.range (s.vecs v).mCount).map f := by
  cases h with
  | untouched => exact ⟨rfl, ⟨full, hsound⟩, fun _ _ => rfl, rfl⟩
  | moved hprepared htemp =>
      refine ⟨?_, hprepared.sound fun _ => Iff.rfl⟩
      obtain ⟨temp', hdestroy, hstocked⟩ := htemp.destroyItem rfl
      have hgone : t.trivialDtor = true ∨ (temp' 0).live = false := by
        cases htrivial : t.trivialDtor with
        | true => exact .inl rfl
        | false =>
            have heq := hstocked.gone htrivial 0 fun hin => hin.2 rfl
            exact .inr (by simp [Slot.live, heq])
      rw [Vectors.freeTemp, hdestroy, Option.bind_some, if_pos hgone]

variable [DecidableEq ι]

/-- The vector is the only owner of its storage, and there is room in `temp`. -/
theorem Sorting.readyTemp (hsound : Sound t s full) (h : Sorting t s v s' temp f)
    (hsome : 0 < (s.vecs v).mCount) :
    ∃ s'' temp' g, s'.readyTemp t v temp = some (s'', temp') ∧
      Prepared t s s'' v (s.vecs v).mCount (s.capacity v) (fun i => i < (s.vecs v).mCount) f ∧
      Stocked t 1 temp' (fun _ => False) g := by
  cases h with
  | untouched =>
      cases hv : (s.vecs v).mStorage with
      | none =>
          rw [hsound.vec_eq hv] at hsome
          exact absurd hsome (lt_irrefl 0)
      | some b =>
          obtain ⟨s'', hedit, hprepared⟩ := hsound.editArrayImpl hv
          refine ⟨s'', fun _ => Slot.raw, fun _ => none, ?_, hprepared, Stocked.raw t 1 _⟩
          rw [Vectors.readyTemp, hedit]
          rfl
  | moved hprepared htemp =>
      obtain ⟨temp', hdestroy, hstocked⟩ := htemp.destroyItem rfl
      refine ⟨s', temp', _, ?_, hprepared, hstocked.congr (fun i => ?_) fun _ _ => rfl⟩
      · rw [Vectors.readyTemp, hdestroy]
        rfl
      · exact ⟨fun h => h.elim, fun h => h.2 h.1⟩

/-- An item out of order is moved to its place. -/
theorem Sorting.moveItemBack (hsound : Sound t s full) (h : Sorting t s v s' temp f) {i : Nat}
    (hi : i + 1 < (s.vecs v).mCount) (horder : 0 < cmp (f i) (f (i + 1))) :
    ∃ s'' temp' g p, s'.moveItemBack t v cmp (i + 1) temp = some (s'', temp') ∧
      Sorting t s v s'' temp' g ∧ Stocked.Placed cmp f g p (i + 1) := by
  obtain ⟨s₁, raw, _, hready, hprepared, hraw⟩ := h.readyTemp hsound (by omega)
  obtain ⟨item, hitem, hlive, hval⟩ := hprepared.slotAt hi
  obtain ⟨temp', hcopy, htemp⟩ := hraw.copyItem hlive Nat.one_pos id
  have htemp := htemp.congr (Q := fun i => i = 0) (fun i => (iff_of_eq (false_or _)).symm)
    fun _ _ => rfl
  have hlive' := htemp.live 0 rfl
  have hval' : (temp' 0).val = f (i + 1) := by
    rw [htemp.val 0 rfl, if_pos rfl, hval]
  obtain ⟨s'', g, hedit, ⟨p, hplaced⟩, hprepared'⟩ := hprepared.editItemsTo
    (fun size => placeItem t size cmp (temp' 0) (i + 1))
    (R := fun g => ∃ p, Stocked.Placed cmp f g p (i + 1)) fun items hitems => by
      obtain ⟨items', g, p, hplace, hplaced, hstocked⟩ :=
        hitems.placeItem hlive' hi hval' horder
      exact ⟨items', g, hplace, ⟨p, hplaced⟩, hstocked⟩
  refine ⟨s'', some temp', g, p, ?_, .moved hprepared' htemp, hplaced⟩
  rw [Vectors.moveItemBack, hready, Option.bind_some]
  dsimp only
  rw [hitem, Option.bind_some, hcopy, Option.bind_some, hedit]
  rfl

/-- One pass. -/
theorem Sorting.sortPass (hsound : Sound t s full) (hcmp : TotalPreorder cmp)
    (h : Sorting t s v s' temp f) {i : Nat} (hi : i + 1 < (s.vecs v).mCount)
    (hsorted : SortedUpTo cmp (s.valAt v) f (i + 1)) :
    ∃ s'' temp' g, s'.sortPass t v cmp (i + 1) temp = some (s'', temp') ∧
      Sorting t s v s'' temp' g ∧ SortedUpTo cmp (s.valAt v) g (i + 1 + 1) := by
  obtain ⟨curr, hcurr, hlive, hval⟩ := h.slotAt hsound (Nat.lt_of_succ_lt hi)
  obtain ⟨item, hitem, hlive', hval'⟩ := h.slotAt hsound hi
  have hcompare : compareItems cmp curr item = some (cmp (f i) (f (i + 1))) := by
    rw [compareItems, hlive, hlive', hval, hval']
    rfl
  have hpass : s'.sortPass t v cmp (i + 1) temp =
      if 0 < cmp (f i) (f (i + 1)) then s'.moveItemBack t v cmp (i + 1) temp
      else some (s', temp) := by
    rw [Vectors.sortPass, Nat.add_sub_cancel, hcurr, Option.bind_some, hitem, Option.bind_some,
      hcompare, Option.bind_some]
  rw [hpass]
  by_cases horder : 0 < cmp (f i) (f (i + 1))
  · obtain ⟨s'', temp', g, p, hmove, hsorting, hplaced⟩ := h.moveItemBack hsound hi horder
    rw [if_pos horder]
    exact ⟨s'', temp', g, hmove, hsorting, hsorted.placed hcmp hplaced⟩
  · rw [if_neg horder]
    exact ⟨s', temp, f, rfl, h, hsorted.inOrder hcmp horder⟩

/-- The passes that are left. -/
theorem Sorting.sortLoop (hsound : Sound t s full) (hcmp : TotalPreorder cmp) {n i : Nat}
    (h : Sorting t s v s' temp f) (hn : i + 1 + n = (s.vecs v).mCount)
    (hsorted : SortedUpTo cmp (s.valAt v) f (i + 1)) :
    ∃ s'' temp' g, Vectors.sortLoop t v cmp n (i + 1) s' temp = some (s'', temp') ∧
      Sorting t s v s'' temp' g ∧ SortedUpTo cmp (s.valAt v) g (s.vecs v).mCount := by
  induction n generalizing i s' temp f with
  | zero => exact ⟨s', temp, f, rfl, h, hn ▸ hsorted⟩
  | succ n ih =>
      obtain ⟨s₁, temp₁, f₁, hpass, h₁, hsorted₁⟩ := h.sortPass hsound hcmp (by omega) hsorted
      obtain ⟨s'', temp', g, hloop, h', hsorted'⟩ := ih h₁ (by omega) hsorted₁
      refine ⟨s'', temp', g, ?_, h', hsorted'⟩
      rw [Vectors.sortLoop, hpass, Option.bind_some]
      exact hloop

/-- `sort` does nothing that is not allowed, sorts the items stably and changes no other
vector, in any state that runs keep. -/
theorem Sound.sort (h : Sound t s full) (v : ι) (hcmp : TotalPreorder cmp) :
    ∃ s', s.sort t v cmp = some s' ∧ (∃ full', Sound t s' full') ∧
      (∀ w, w ≠ v → s'.contents w = s.contents w) ∧
      StableSort (fun a b => cmp a b ≤ 0) (s.contents v) (s'.contents v) := by
  rw [Vectors.sort]
  split
  · rename_i hmany
    have hpasses : 0 + 1 + ((s.vecs v).mCount - 1) = (s.vecs v).mCount := by omega
    obtain ⟨s', temp', g, hloop, hsorting, hsorted⟩ :=
      Sorting.sortLoop h hcmp .untouched hpasses (sortedUpTo_one cmp _)
    obtain ⟨hfree, hsound, hothers, hcontents⟩ := hsorting.freeTemp h
    refine ⟨s', ?_, hsound, hothers, hcontents ▸ hsorted.front⟩
    rw [hloop]
    exact hfree
  · rename_i hfew
    have hlength : (s.contents v).length = (s.vecs v).mCount := by
      rw [contents, List.length_map, List.length_range]
    refine ⟨s, rfl, ⟨full, h⟩, fun _ _ => rfl, StableSort.of_sorted ?_⟩
    exact List.pairwise_iff_getElem.mpr fun i j _ hj hlt => by omega

end Vectors

/-! ## Runs -/

/-- The calls on vectors, with `sort`. -/
inductive SortCall (ι α : Type*)
  | call (c : VectorCall ι α)
  | sort (v : ι) (cmp : Option α → Option α → Int)

/-- The vectors of a program that sorts them. -/
def sortMachine (ι : Type*) {α : Type*} [DecidableEq ι] (t : Traits) (default : α) :
    Lib.Machine (Vectors ι α) (SortCall ι α) where
  init := (vectorMachine ι t default).init
  step s
    | .call c => s.call t default c
    | .sort v cmp => s.sort t v cmp

namespace Vectors

variable {ι α : Type*} [Fintype ι] [DecidableEq ι] {t : Traits} {s : Vectors ι α}

/-- Calls as they are specified. -/
def Permitted (t : Traits) (s : Vectors ι α) : SortCall ι α → Prop
  | .call c => Guarded t s c
  | .sort _ cmp => TotalPreorder cmp

theorem sound_of_permitted {default : α}
    (hreach : (sortMachine ι t default).ReachWhen (Permitted t) s) : ∃ full, Sound t s full := by
  refine hreach.invariant (I := fun s => ∃ full, Sound t s full) (fun s hs => ?_) ?_
  · have hinit : (vectorMachine ι t default).ReachWhen (Guarded t) s := .init hs
    exact sound_of_guarded hinit
  · rintro s c s' ⟨full, h⟩ hpermitted hstep
    cases c with
    | call c =>
        obtain ⟨s'', l, hs'', hchanges, -⟩ := h.call default hpermitted
        obtain rfl := Option.some.inj (hs''.symm.trans hstep)
        exact hchanges.sound
    | sort v cmp =>
        obtain ⟨s'', hs'', hsound, -⟩ := h.sort v hpermitted
        obtain rfl := Option.some.inj (hs''.symm.trans hstep)
        exact hsound

/-- `sort` is a stable sort, and the other vectors stay as they are. -/
theorem sort_stable (ι : Type*) {α : Type*} [Fintype ι] [DecidableEq ι] (t : Traits)
    (default : α) {s : Vectors ι α}
    (hreach : (sortMachine ι t default).ReachWhen (Permitted t) s) (v : ι)
    {cmp : Option α → Option α → Int} (hcmp : TotalPreorder cmp) :
    ∃ s', s.sort t v cmp = some s' ∧ (∀ w, w ≠ v → s'.contents w = s.contents w) ∧
      StableSort (fun a b => cmp a b ≤ 0) (s.contents v) (s'.contents v) := by
  obtain ⟨full, h⟩ := sound_of_permitted hreach
  obtain ⟨s', hs', -, hothers, hsorted⟩ := h.sort v hcmp
  exact ⟨s', hs', hothers, hsorted⟩

/-- The order by the tens digit. -/
def byTens (a b : Option Nat) : Int := (a.getD 0 / 10 : Nat) - (b.getD 0 / 10 : Nat)

theorem totalPreorder_byTens : TotalPreorder byTens := by
  refine ⟨fun a b => ?_, fun a b c hab hbc => ?_⟩
  · unfold byTens
    omega
  · unfold byTens at *
    omega

/-- The calls that pass the test of the vectors, without `sort`. -/
def onlyCalls {ι α : Type*} (s : Vectors ι α) : SortCall ι α → Bool
  | .call c => passes s c
  | .sort _ _ => false

omit [Fintype ι] [DecidableEq ι] in
theorem permitted_of_onlyCalls (s : Vectors ι α) (c : SortCall ι α)
    (hc : onlyCalls s c = true) : Permitted t s c := by
  cases c with
  | call c => exact guarded_of_passes s hc
  | sort v cmp => cases hc

/-- Two vectors that share their storage. -/
def sharedCalls : List (SortCall Bool Nat) :=
  [.call (.push false (some 21)), .call (.push false (some 12)), .call (.push false (some 20)),
    .call (.push false (some 11)), .call (.assign true false)]

/-- One of them is sorted. -/
theorem sort_stable_shared :
    ∃ s : Vectors Bool Nat, s.contents false = [some 21, some 12, some 20, some 11] ∧
      ∃ s', s.sort counted false byTens = some s' ∧
        (∀ w, w ≠ false → s'.contents w = s.contents w) ∧
        StableSort (fun a b => byTens a b ≤ 0) (s.contents false) (s'.contents false) := by
  have hrun : ((sortMachine Bool counted 0).runWhen onlyCalls
      ⟨fun _ => ⟨0, 0, fun _ => Slot.raw, true⟩, 0, fun _ => ⟨none, 0⟩⟩ sharedCalls).isSome =
      true := by decide
  have hreach : (sortMachine Bool counted 0).ReachWhen (Permitted counted) (Option.get _ hrun) :=
    Lib.Machine.reachWhen_of_runWhen permitted_of_onlyCalls sharedCalls (.init rfl)
      (Option.some_get hrun).symm
  exact ⟨_, rfl, sort_stable Bool counted 0 hreach false totalPreorder_byTens⟩

end Vectors

end Utils
end AndroidLinux
