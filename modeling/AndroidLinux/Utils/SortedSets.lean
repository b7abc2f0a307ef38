import AndroidLinux.Utils.SortedVector

/-!
# Sorted vectors are sets

`Strict` is the invariant: each item is below the next.  In a strictly sorted vector the
binary search splits the items into those below, the one that compares equal, and those
above (`Split`), so that adding and removing are filters (`add_eq`, `remove_eq`).  The
second merge keeps the invariant only when the vectors do not meet: `Apart` is the
condition, and then it adds the items one by one (`mergeSorted_eq`).
-/

namespace AndroidLinux
namespace Utils

variable {α : Type*} {cmp : Comparison α}

/-! ## The order -/

namespace Comparison

theorem zero_symm (cmp : Comparison α) {a b : α} (h : cmp.doCompare a b = 0) :
    cmp.doCompare b a = 0 := by
  have h1 := cmp.flip a b
  have h2 := cmp.flip b a
  omega

theorem refl (cmp : Comparison α) (a : α) : cmp.doCompare a a = 0 := by
  have h := cmp.flip a a
  omega

theorem lt_of_lt_of_le (cmp : Comparison α) {a b c : α} (hab : cmp.doCompare a b < 0)
    (hbc : cmp.doCompare b c ≤ 0) : cmp.doCompare a c < 0 := by
  have hba := cmp.flip a b
  have hca := cmp.flip c a
  have hac := cmp.flip a c
  by_contra hge
  have hle := cmp.trans b c a hbc (by omega)
  omega

theorem lt_of_le_of_lt (cmp : Comparison α) {a b c : α} (hab : cmp.doCompare a b ≤ 0)
    (hbc : cmp.doCompare b c < 0) : cmp.doCompare a c < 0 := by
  have hcb := cmp.flip b c
  have hca := cmp.flip c a
  have hac := cmp.flip a c
  by_contra hge
  have hle := cmp.trans c a b (by omega) hab
  omega

theorem zero_trans (cmp : Comparison α) {a b c : α} (hab : cmp.doCompare a b = 0)
    (hbc : cmp.doCompare b c = 0) : cmp.doCompare a c = 0 := by
  have hle := cmp.trans a b c hab.le hbc.le
  have hge := cmp.trans c b a (cmp.zero_symm hbc).le (cmp.zero_symm hab).le
  have hflip := cmp.flip a c
  have hflip' := cmp.flip c a
  omega

end Comparison

/-- Each item is below the next. -/
def Strict (cmp : Comparison α) (items : List α) : Prop :=
  items.Pairwise fun a b => cmp.doCompare a b < 0

/-! ## The search -/

/-- The items below `x`, those that compare equal to it, of which there is at most one, and
those above. -/
structure Split (cmp : Comparison α) (items : List α) (x : α) (below same above : List α) :
    Prop where
  items_eq : items = below ++ same ++ above
  below_lt : ∀ y ∈ below, cmp.doCompare y x < 0
  same_eq : ∀ y ∈ same, cmp.doCompare y x = 0
  same_one : same.length ≤ 1
  lt_above : ∀ y ∈ above, 0 < cmp.doCompare y x

namespace SortedVector

/-- What the search returns for the parts. -/
def searchResult (below same : List α) : Int × Int :=
  (if same = [] then NAME_NOT_FOUND else below.length, below.length)

/-- With nothing left in the middle, no item compares equal. -/
theorem split_none {items : List α} {x : α} {below above : List α} {l : Int}
    (hitems : items = below ++ [] ++ above) (hl : l = below.length)
    (hbelow : ∀ y ∈ below, cmp.doCompare y x < 0) (habove : ∀ y ∈ above, 0 < cmp.doCompare y x) :
    ∃ below' same above', Split cmp items x below' same above' ∧
      (NAME_NOT_FOUND, l) = searchResult below' same :=
  ⟨below, [], above, ⟨hitems, hbelow, fun y hy => absurd hy List.not_mem_nil, Nat.zero_le 1,
    habove⟩, by rw [hl]; rfl⟩

/-- The items around the one that compares equal. -/
theorem split_found {items : List α} {x curr : α} {before behind : List α}
    (haround : items = before ++ curr :: behind)
    (hbefore : ∀ y ∈ before, cmp.doCompare y curr < 0)
    (hbehind : ∀ y ∈ behind, cmp.doCompare curr y < 0) (hsame : cmp.doCompare curr x = 0) :
    Split cmp items x before [curr] behind := by
  refine ⟨?_, ?_, ?_, le_rfl, ?_⟩
  · rw [haround, List.append_assoc before [curr], List.singleton_append]
  · exact fun y hy => cmp.lt_of_lt_of_le (hbefore y hy) hsame.le
  · intro y hy
    rw [List.mem_singleton.mp hy]
    exact hsame
  · intro y hy
    rw [← cmp.flip]
    exact cmp.lt_of_le_of_lt (cmp.zero_symm hsame).le (hbehind y hy)

/-- The loop between the items that are known to be below and those known to be above. -/
theorem searchLoop_split {items : List α} {x : α} (hstrict : Strict cmp items) {fuel : Nat}
    {below middle above : List α} {l h : Int} (hitems : items = below ++ middle ++ above)
    (hl : l = below.length) (hh : h = below.length + middle.length - 1)
    (hbelow : ∀ y ∈ below, cmp.doCompare y x < 0) (habove : ∀ y ∈ above, 0 < cmp.doCompare y x)
    (hfuel : middle.length ≤ fuel) :
    ∃ below' same above', Split cmp items x below' same above' ∧
      searchLoop cmp items x fuel l h = searchResult below' same := by
  induction fuel generalizing below middle above l h with
  | zero =>
      obtain rfl := List.length_eq_zero_iff.mp (Nat.le_zero.mp hfuel)
      exact split_none hitems hl hbelow habove
  | succ fuel ih =>
      rw [searchLoop]
      split
      · rename_i hle
        have hpos : (middle.length - 1) / 2 < middle.length := by omega
        obtain ⟨left, curr, right, hmiddle, hleft⟩ :
            ∃ left curr right, middle = left ++ curr :: right ∧
              left.length = (middle.length - 1) / 2 :=
          ⟨middle.take _, middle[(middle.length - 1) / 2], middle.drop _,
            by rw [← List.drop_eq_getElem_cons hpos, List.take_append_drop],
            by rw [List.length_take]; omega⟩
        have hlength : middle.length = left.length + right.length + 1 := by
          rw [hmiddle, List.length_append, List.length_cons]
          omega
        have hmid : l + (h - l) / 2 = ((below ++ left).length : Nat) := by
          rw [List.length_append]
          omega
        have haround : items = (below ++ left) ++ curr :: (right ++ above) := by
          rw [hitems, hmiddle]
          simp only [List.append_assoc, List.cons_append]
        have hcurr : items[(l + (h - l) / 2).toNat]? = some curr := by
          rw [hmid, Int.toNat_natCast, haround]
          simp
        -- the items before and behind `curr`
        have hsorted := hstrict
        rw [haround, Strict, List.pairwise_append, List.pairwise_cons] at hsorted
        obtain ⟨-, ⟨hright, -⟩, hbefore⟩ := hsorted
        have hleftCurr : ∀ y ∈ below ++ left, cmp.doCompare y curr < 0 := fun y hy =>
          hbefore y hy curr List.mem_cons_self
        dsimp only
        rw [hcurr]
        dsimp only
        split
        · rename_i hsame
          refine ⟨below ++ left, [curr], right ++ above,
            split_found haround hleftCurr hright hsame, ?_⟩
          rw [hmid]
          rfl
        split
        · rename_i hlow
          have hnext : items = (below ++ left ++ [curr]) ++ right ++ above := by
            rw [haround]
            simp
          refine ih hnext ?_ ?_ ?_ habove (by omega)
          · rw [hmid]
            simp only [List.length_append, List.length_singleton]
            omega
          · rw [hh, hlength]
            simp only [List.length_append, List.length_singleton]
            omega
          · intro y hy
            rcases List.mem_append.mp hy with hy | hy
            · exact cmp.lt_of_lt_of_le (hleftCurr y hy) hlow.le
            · rw [List.mem_singleton.mp hy]
              exact hlow
        · rename_i hne hhigh
          have hnext : items = below ++ left ++ (curr :: (right ++ above)) := haround
          have hcurrPos : 0 < cmp.doCompare curr x := by omega
          refine ih hnext hl ?_ hbelow ?_ (by omega)
          · rw [hmid, List.length_append]
            omega
          · intro y hy
            rcases List.mem_cons.mp hy with rfl | hy
            · exact hcurrPos
            · rw [← cmp.flip] at hcurrPos ⊢
              exact cmp.lt_of_lt_of_le hcurrPos (hright y hy).le
      · rename_i hgt
        obtain rfl : middle = [] := List.length_eq_zero_iff.mp (by omega)
        exact split_none hitems hl hbelow habove

variable {items : List α} {x : α}

theorem exists_split (hstrict : Strict cmp items) (x : α) : ∃ below same above,
    Split cmp items x below same above ∧
      indexOrderOf cmp items x = searchResult below same := by
  have hnil : items = [] ++ items ++ [] := by simp
  exact searchLoop_split hstrict hnil rfl (by simp) (fun y hy => absurd hy List.not_mem_nil)
    (fun y hy => absurd hy List.not_mem_nil) le_rfl

end SortedVector

/-- The parts are filters. -/
theorem Split.filters {items : List α} {x : α} {below same above : List α}
    (h : Split cmp items x below same above) :
    items.filter (fun y => cmp.doCompare y x < 0) = below ∧
      items.filter (fun y => cmp.doCompare y x = 0) = same ∧
      items.filter (fun y => 0 < cmp.doCompare y x) = above := by
  have hbelow := h.below_lt
  have hsame := h.same_eq
  have habove := h.lt_above
  -- a part stays whole or goes, according to the sign
  have hwhole : ∀ {part : List α} {p : α → Bool}, (∀ y ∈ part, p y = true) →
      part.filter p = part := fun hp => List.filter_eq_self.mpr hp
  have hgone : ∀ {part : List α} {p : α → Bool}, (∀ y ∈ part, p y = false) →
      part.filter p = [] := fun hp => List.filter_eq_nil_iff.mpr fun y hy => by simp [hp y hy]
  rw [h.items_eq]
  simp only [List.filter_append]
  refine ⟨?_, ?_, ?_⟩
  · rw [hwhole fun y hy => decide_eq_true (hbelow y hy),
      hgone fun y hy => decide_eq_false (by rw [hsame y hy]; omega),
      hgone fun y hy => decide_eq_false (by have := habove y hy; omega)]
    simp
  · rw [hgone fun y hy => decide_eq_false (by have := hbelow y hy; omega),
      hwhole fun y hy => decide_eq_true (hsame y hy),
      hgone fun y hy => decide_eq_false (by have := habove y hy; omega)]
    simp
  · rw [hgone fun y hy => decide_eq_false (by have := hbelow y hy; omega),
      hgone fun y hy => decide_eq_false (by rw [hsame y hy]; omega),
      hwhole fun y hy => decide_eq_true (habove y hy)]
    simp

namespace SortedVector

variable {items : List α} {x : α}

/-- The parts of a vector for an item, with what the search returns for them. -/
theorem parts_cases (hstrict : Strict cmp items) (x : α) :
    (∃ below above, Split cmp items x below [] above ∧ items = below ++ above ∧
      indexOrderOf cmp items x = (NAME_NOT_FOUND, (below.length : Int))) ∨
    ∃ below e above, Split cmp items x below [e] above ∧ items = below ++ e :: above ∧
      cmp.doCompare e x = 0 ∧
      indexOrderOf cmp items x = ((below.length : Int), (below.length : Int)) := by
  obtain ⟨below, same, above, hsplit, hresult⟩ := exists_split hstrict x
  rcases same with _ | ⟨e, _ | ⟨e', rest⟩⟩
  · refine Or.inl ⟨below, above, hsplit, ?_, hresult⟩
    rw [hsplit.items_eq, List.append_nil]
  · refine Or.inr ⟨below, e, above, hsplit, ?_, hsplit.same_eq e List.mem_cons_self, hresult⟩
    rw [hsplit.items_eq, List.append_assoc, List.singleton_append]
  · have hone := hsplit.same_one
    simp at hone

/-- An item comes in between those below and those above. -/
theorem add_eq (hstrict : Strict cmp items) (x : α) : (add cmp items x).2 =
    items.filter (fun y => cmp.doCompare y x < 0) ++
      x :: items.filter (fun y => 0 < cmp.doCompare y x) := by
  rcases parts_cases hstrict x with ⟨below, above, hsplit, hitems, hresult⟩ |
    ⟨below, e, above, hsplit, hitems, -, hresult⟩
  · obtain ⟨hbelow, -, habove⟩ := hsplit.filters
    rw [hbelow, habove, add, hresult]
    dsimp only
    rw [if_pos (by decide), hitems, insertAt, Int.toNat_natCast]
    simp
  · obtain ⟨hbelow, -, habove⟩ := hsplit.filters
    have hnonneg : ¬ (below.length : Int) < 0 := by omega
    rw [hbelow, habove, add, hresult]
    dsimp only
    rw [if_neg hnonneg, hitems, replaceAt, Int.toNat_natCast]
    simp

theorem add_result (hstrict : Strict cmp items) (x : α) : 0 ≤ (add cmp items x).1 := by
  rcases parts_cases hstrict x with ⟨below, above, -, -, hresult⟩ |
    ⟨below, e, above, -, -, -, hresult⟩
  · rw [add, hresult]
    dsimp only
    rw [if_pos (by decide)]
    exact Int.natCast_nonneg _
  · have hnonneg : ¬ (below.length : Int) < 0 := by omega
    rw [add, hresult]
    dsimp only
    rw [if_neg hnonneg]
    exact Int.natCast_nonneg _

/-- The item that compares equal goes. -/
theorem remove_eq (hstrict : Strict cmp items) (x : α) : (remove cmp items x).2 =
    items.filter (fun y => cmp.doCompare y x < 0) ++
      items.filter (fun y => 0 < cmp.doCompare y x) := by
  rcases parts_cases hstrict x with ⟨below, above, hsplit, hitems, hresult⟩ |
    ⟨below, e, above, hsplit, hitems, -, hresult⟩
  · obtain ⟨hbelow, -, habove⟩ := hsplit.filters
    rw [hbelow, habove, remove, indexOf, hresult]
    dsimp only
    rw [if_neg (by decide)]
    exact hitems
  · obtain ⟨hbelow, -, habove⟩ := hsplit.filters
    rw [hbelow, habove, remove, indexOf, hresult]
    dsimp only
    rw [if_pos (Int.natCast_nonneg _), hitems, removeItemsAt, Int.toNat_natCast]
    simp

/-- The search finds the item that compares equal. -/
theorem indexOf_cases (hstrict : Strict cmp items) (x : α) :
    (indexOf cmp items x < 0 ∧ ∀ y ∈ items, cmp.doCompare y x ≠ 0) ∨
    ∃ e ∈ items, 0 ≤ indexOf cmp items x ∧ items[(indexOf cmp items x).toNat]? = some e ∧
      cmp.doCompare e x = 0 := by
  rcases parts_cases hstrict x with ⟨below, above, hsplit, hitems, hresult⟩ |
    ⟨below, e, above, hsplit, hitems, hsame, hresult⟩
  · refine Or.inl ⟨?_, fun y hy => ?_⟩
    · rw [indexOf, hresult]
      show NAME_NOT_FOUND < 0
      decide
    · rw [hitems] at hy
      rcases List.mem_append.mp hy with hy | hy
      · have hlt := hsplit.below_lt y hy
        omega
      · have hlt := hsplit.lt_above y hy
        omega
  · refine Or.inr ⟨e, ?_, ?_, ?_, hsame⟩
    · rw [hitems]
      simp
    · rw [indexOf, hresult]
      exact Int.natCast_nonneg _
    · rw [indexOf, hresult, hitems]
      dsimp only
      rw [Int.toNat_natCast]
      simp

/-- The order is the number of items below. -/
theorem orderOf_eq (hstrict : Strict cmp items) (x : α) :
    orderOf cmp items x = (items.countP fun y => cmp.doCompare y x < 0 : Nat) := by
  rw [List.countP_eq_length_filter]
  rcases parts_cases hstrict x with ⟨below, above, hsplit, -, hresult⟩ |
    ⟨below, e, above, hsplit, -, -, hresult⟩
  · rw [hsplit.filters.1, orderOf, hresult]
  · rw [hsplit.filters.1, orderOf, hresult]

/-! ## The invariant -/

theorem strict_add (hstrict : Strict cmp items) (x : α) : Strict cmp (add cmp items x).2 := by
  rw [add_eq hstrict]
  refine List.pairwise_append.mpr ⟨hstrict.filter _, List.pairwise_cons.mpr ⟨fun y hy => ?_,
    hstrict.filter _⟩, fun a ha b hb => ?_⟩
  · rw [cmp.flip]
    exact of_decide_eq_true (List.mem_filter.mp hy).2
  · have hax : cmp.doCompare a x < 0 := of_decide_eq_true (List.mem_filter.mp ha).2
    rcases List.mem_cons.mp hb with rfl | hb
    · exact hax
    · have hbx : 0 < cmp.doCompare b x := of_decide_eq_true (List.mem_filter.mp hb).2
      rw [← cmp.flip] at hbx
      exact cmp.lt_of_lt_of_le hax hbx.le

theorem strict_remove (hstrict : Strict cmp items) (x : α) :
    Strict cmp (remove cmp items x).2 := by
  have hadd := strict_add hstrict x
  rw [add_eq hstrict] at hadd
  rw [remove_eq hstrict]
  exact hadd.sublist ((List.sublist_cons_self _ _).append_left _)

theorem mem_add (hstrict : Strict cmp items) {x y : α} :
    y ∈ (add cmp items x).2 ↔ y = x ∨ y ∈ items ∧ cmp.doCompare y x ≠ 0 := by
  rw [add_eq hstrict, List.mem_append, List.mem_cons, List.mem_filter, List.mem_filter]
  simp only [decide_eq_true_eq]
  constructor
  · rintro (⟨hy, hlt⟩ | rfl | ⟨hy, hlt⟩)
    · exact Or.inr ⟨hy, by omega⟩
    · exact Or.inl rfl
    · exact Or.inr ⟨hy, by omega⟩
  · rintro (rfl | ⟨hy, hne⟩)
    · exact Or.inr (Or.inl rfl)
    · rcases lt_or_gt_of_ne hne with hlt | hgt
      · exact Or.inl ⟨hy, hlt⟩
      · exact Or.inr (Or.inr ⟨hy, hgt⟩)

theorem mem_remove (hstrict : Strict cmp items) {x y : α} :
    y ∈ (remove cmp items x).2 ↔ y ∈ items ∧ cmp.doCompare y x ≠ 0 := by
  rw [remove_eq hstrict, List.mem_append, List.mem_filter, List.mem_filter]
  simp only [decide_eq_true_eq]
  constructor
  · rintro (⟨hy, hlt⟩ | ⟨hy, hlt⟩)
    · exact ⟨hy, by omega⟩
    · exact ⟨hy, by omega⟩
  · rintro ⟨hy, hne⟩
    rcases lt_or_gt_of_ne hne with hlt | hgt
    · exact Or.inl ⟨hy, hlt⟩
    · exact Or.inr ⟨hy, hgt⟩

/-! ## Merging -/

/-- The items of a vector are added one by one. -/
def addAll (cmp : Comparison α) (items vector : List α) : List α :=
  vector.foldl (fun items x => (add cmp items x).2) items

theorem strict_addAll (hstrict : Strict cmp items) (vector : List α) :
    Strict cmp (addAll cmp items vector) := by
  induction vector generalizing items with
  | nil => exact hstrict
  | cons x rest ih => exact ih (strict_add hstrict x)

theorem mergeVector_eq (hstrict : Strict cmp items) (vector : List α) :
    (mergeVector cmp items vector).2 = addAll cmp items vector := by
  induction vector generalizing items with
  | nil => rfl
  | cons x rest ih =>
      have hresult := add_result hstrict x
      rw [mergeVector, mergeLoop, if_neg (by omega)]
      exact ih (strict_add hstrict x)

/-- An item between two parts of a vector. -/
theorem add_between {below above : List α} (hstrict : Strict cmp (below ++ above))
    (hbelow : ∀ y ∈ below, cmp.doCompare y x < 0)
    (habove : ∀ y ∈ above, 0 < cmp.doCompare y x) :
    (add cmp (below ++ above) x).2 = below ++ x :: above := by
  have hsplit : Split cmp (below ++ above) x below [] above :=
    ⟨by rw [List.append_nil], hbelow, fun y hy => absurd hy List.not_mem_nil, Nat.zero_le 1,
      habove⟩
  rw [add_eq hstrict, hsplit.filters.1, hsplit.filters.2.2]

/-- Sorted items that all fit between two parts of a vector. -/
theorem addAll_between {below vector above : List α}
    (hstrict : Strict cmp (below ++ vector ++ above)) :
    addAll cmp (below ++ above) vector = below ++ vector ++ above := by
  induction vector generalizing below with
  | nil =>
      rw [List.append_nil]
      rfl
  | cons x rest ih =>
      have hnext : Strict cmp (below ++ [x] ++ rest ++ above) := by
        rwa [List.append_assoc below [x], List.singleton_append]
      have hparts : Strict cmp (below ++ above) :=
        hstrict.sublist ((List.sublist_append_left below _).append_right above)
      have haround := hstrict
      rw [List.append_assoc, List.cons_append, Strict, List.pairwise_append,
        List.pairwise_cons] at haround
      obtain ⟨-, ⟨habove, -⟩, hbelow⟩ := haround
      have hadd := add_between hparts (fun y hy => hbelow y hy x List.mem_cons_self)
        fun y hy => (cmp.flip x y).mp (habove y (List.mem_append_right rest hy))
      have hstep : addAll cmp (below ++ above) (x :: rest) =
          addAll cmp (below ++ [x] ++ above) rest := by
        show addAll cmp (add cmp (below ++ above) x).2 rest = _
        rw [hadd, List.append_assoc below [x], List.singleton_append]
      rw [hstep, ih hnext, List.append_assoc below [x], List.singleton_append]

theorem head_le (hstrict : Strict cmp items) {head : α} (hhead : items.head? = some head) :
    ∀ y ∈ items, cmp.doCompare head y ≤ 0 := by
  obtain ⟨rest, rfl⟩ := List.head?_eq_some_iff.mp hhead
  intro y hy
  rcases List.mem_cons.mp hy with rfl | hy
  · exact (cmp.refl y).le
  · exact ((List.pairwise_cons.mp hstrict).1 y hy).le

theorem le_last (hstrict : Strict cmp items) {last : α} (hlast : items.getLast? = some last) :
    ∀ y ∈ items, cmp.doCompare y last ≤ 0 := by
  obtain ⟨front, rfl⟩ := List.getLast?_eq_some_iff.mp hlast
  intro y hy
  rcases List.mem_append.mp hy with hy | hy
  · exact ((List.pairwise_append.mp hstrict).2.2 y hy last (List.mem_singleton_self last)).le
  · rw [List.mem_singleton.mp hy]
    exact (cmp.refl last).le

/-- The ends of the two vectors do not meet, and there are ends to compare. -/
def Apart (cmp : Comparison α) (items vector : List α) : Prop :=
  ∀ first last, vector.head? = some first → vector.getLast? = some last →
    ∃ head tail, items.head? = some head ∧ items.getLast? = some tail ∧
      cmp.doCompare last head ≠ 0 ∧ cmp.doCompare first tail ≠ 0

/-- One vector in front of the other. -/
theorem strict_append {front back : List α} (hfront : Strict cmp front)
    (hback : Strict cmp back) {last head : α} (hlast : front.getLast? = some last)
    (hhead : back.head? = some head) (hlt : cmp.doCompare last head < 0) :
    Strict cmp (front ++ back) :=
  List.pairwise_append.mpr ⟨hfront, hback, fun a ha b hb =>
    cmp.lt_of_lt_of_le (cmp.lt_of_le_of_lt (le_last hfront hlast a ha) hlt)
      (head_le hback hhead b hb)⟩

theorem mergeSorted_eq {vector : List α} (hstrict : Strict cmp items)
    (hvector : Strict cmp vector) (hapart : Apart cmp items vector) :
    ∃ r, mergeSorted cmp items vector = some (r, addAll cmp items vector) := by
  unfold mergeSorted
  cases hfirst : vector.head? with
  | none =>
      rw [List.head?_eq_none_iff.mp hfirst]
      exact ⟨NO_ERROR, rfl⟩
  | some first =>
      cases hlast : vector.getLast? with
      | none =>
          rw [List.getLast?_eq_none_iff.mp hlast] at hfirst
          cases hfirst
      | some last =>
          obtain ⟨head, tail, hhead, htail, hne, hne'⟩ := hapart first last hfirst hlast
          rw [hhead, htail]
          dsimp only
          split
          · have hsorted := strict_append hvector hstrict hlast hhead (by omega)
            have hall : addAll cmp ([] ++ items) vector = [] ++ vector ++ items :=
              addAll_between hsorted
            exact ⟨NO_ERROR, by rw [insertVectorAt]; exact congrArg _ (congrArg _ hall.symm)⟩
          split
          · rename_i hge
            have hlt : cmp.doCompare tail first < 0 := (cmp.flip tail first).mpr (by omega)
            have hsorted := strict_append hstrict hvector htail hfirst hlt
            have hnil : Strict cmp (items ++ vector ++ []) := by rwa [List.append_nil]
            have hall := addAll_between hnil
            rw [List.append_nil, List.append_nil] at hall
            refine ⟨items.length, ?_⟩
            rw [hall, appendVector, insertVectorAt, List.take_length, List.drop_length,
              List.append_nil]
          · refine ⟨(mergeVector cmp items vector).1, ?_⟩
            rw [← mergeVector_eq hstrict]

end SortedVector
end Utils
end AndroidLinux
