import AndroidLinux.Lib.Transition
import AndroidLinux.Utils.SortedSets

/-!
# Runs of sorted and keyed vectors

A sorted vector beside the set that its calls describe (`heldAfter`), and a keyed vector
beside the map (`mapAfter`).  In runs whose merges of sorted vectors are `Apart` the vector
is that set (`SetOk`); a keyed vector, which does not merge, is that map after any calls
(`MapOk`).
-/

namespace AndroidLinux
namespace Utils

open Lib SortedVector

variable {α : Type*}

/-! ## Sets -/

/-- What a call does to the set of the items. -/
def heldAfter (cmp : Comparison α) (held : α → Prop) : SortedCall α → α → Prop
  | .add y => fun x => held x ∨ cmp.doCompare x y = 0
  | .remove y => fun x => held x ∧ cmp.doCompare x y ≠ 0
  | .mergeVector vector => fun x => held x ∨ ∃ y ∈ vector, cmp.doCompare x y = 0
  | .mergeSorted vector => fun x => held x ∨ ∃ y ∈ vector, cmp.doCompare x y = 0

/-- A sorted vector and the set it stands for. -/
structure SortedState (α : Type*) where
  items : List α
  held : α → Prop

/-- The runs from the empty vector. -/
def sortedMachine (cmp : Comparison α) : Machine (SortedState α) (SortedCall α) where
  init s := s = ⟨[], fun _ => False⟩
  step s call := (call.run cmp s.items).map fun items => ⟨items, heldAfter cmp s.held call⟩

/-- The argument of a sorted merge is sorted. -/
def MergesSorted (cmp : Comparison α) (_ : SortedState α) : SortedCall α → Prop
  | .mergeSorted vector => Strict cmp vector
  | _ => True

/-- The argument of a sorted merge is sorted and does not meet the vector. -/
def MergesApart (cmp : Comparison α) (s : SortedState α) : SortedCall α → Prop
  | .mergeSorted vector => Strict cmp vector ∧ Apart cmp s.items vector
  | _ => True

/-- The vector is the set, and merging is adding one by one, for the calls that are
allowed. -/
structure SetOk (cmp : Comparison α) (allowed : SortedState α → SortedCall α → Prop)
    (s : SortedState α) : Prop where
  strict : Strict cmp s.items
  found : ∀ x, 0 ≤ indexOf cmp s.items x ↔ s.held x
  order : ∀ x, orderOf cmp s.items x = (s.items.countP fun y => cmp.doCompare y x < 0 : Nat)
  merges : ∀ vector, (mergeVector cmp s.items vector).2 = addAll cmp s.items vector
  mergesSorted : ∀ vector, allowed s (.mergeSorted vector) →
    ∃ r, mergeSorted cmp s.items vector = some (r, addAll cmp s.items vector)

/-- The set of the items. -/
def Holds (cmp : Comparison α) (items : List α) (x : α) : Prop :=
  ∃ y ∈ items, cmp.doCompare x y = 0

variable {cmp : Comparison α} {items : List α}

theorem holds_add (hstrict : Strict cmp items) (a x : α) :
    Holds cmp (add cmp items a).2 x ↔ Holds cmp items x ∨ cmp.doCompare x a = 0 := by
  constructor
  · rintro ⟨y, hy, hsame⟩
    rcases (mem_add hstrict).mp hy with rfl | ⟨hy, -⟩
    · exact Or.inr hsame
    · exact Or.inl ⟨y, hy, hsame⟩
  · rintro (⟨y, hy, hsame⟩ | hsame)
    · by_cases hya : cmp.doCompare y a = 0
      · exact ⟨a, (mem_add hstrict).mpr (Or.inl rfl), cmp.zero_trans hsame hya⟩
      · exact ⟨y, (mem_add hstrict).mpr (Or.inr ⟨hy, hya⟩), hsame⟩
    · exact ⟨a, (mem_add hstrict).mpr (Or.inl rfl), hsame⟩

theorem holds_remove (hstrict : Strict cmp items) (a x : α) :
    Holds cmp (remove cmp items a).2 x ↔ Holds cmp items x ∧ cmp.doCompare x a ≠ 0 := by
  constructor
  · rintro ⟨y, hy, hsame⟩
    obtain ⟨hy, hne⟩ := (mem_remove hstrict).mp hy
    exact ⟨⟨y, hy, hsame⟩, fun hxa => hne (cmp.zero_trans (cmp.zero_symm hsame) hxa)⟩
  · rintro ⟨⟨y, hy, hsame⟩, hne⟩
    exact ⟨y, (mem_remove hstrict).mpr ⟨hy, fun hya => hne (cmp.zero_trans hsame hya)⟩, hsame⟩

theorem holds_addAll (hstrict : Strict cmp items) (vector : List α) (x : α) :
    Holds cmp (addAll cmp items vector) x ↔
      Holds cmp items x ∨ ∃ y ∈ vector, cmp.doCompare x y = 0 := by
  induction vector generalizing items with
  | nil => simp [addAll]
  | cons a rest ih =>
      have hrest := ih (strict_add hstrict a)
      rw [holds_add hstrict] at hrest
      simp only [List.exists_mem_cons_iff]
      rw [← or_assoc]
      exact hrest

/-- The invariant of a run. -/
structure SetInv (cmp : Comparison α) (s : SortedState α) : Prop where
  strict : Strict cmp s.items
  held : ∀ x, s.held x ↔ Holds cmp s.items x

theorem setInv_step {s s' : SortedState α} {call : SortedCall α} (h : SetInv cmp s)
    (hguard : MergesApart cmp s call) (hstep : (sortedMachine cmp).step s call = some s') :
    SetInv cmp s' := by
  obtain ⟨items, hrun, rfl⟩ := Option.map_eq_some_iff.mp hstep
  cases call with
  | add a =>
      obtain rfl := Option.some.inj hrun
      refine ⟨strict_add h.strict a, fun x => ?_⟩
      rw [holds_add h.strict, ← h.held]
      rfl
  | remove a =>
      obtain rfl := Option.some.inj hrun
      refine ⟨strict_remove h.strict a, fun x => ?_⟩
      rw [holds_remove h.strict, ← h.held]
      rfl
  | mergeVector vector =>
      obtain rfl := Option.some.inj hrun
      rw [mergeVector_eq h.strict]
      refine ⟨strict_addAll h.strict vector, fun x => ?_⟩
      rw [holds_addAll h.strict, ← h.held]
      rfl
  | mergeSorted vector =>
      obtain ⟨r, hmerge⟩ := mergeSorted_eq h.strict hguard.1 hguard.2
      rw [SortedCall.run, hmerge] at hrun
      obtain rfl := Option.some.inj hrun
      refine ⟨strict_addAll h.strict vector, fun x => ?_⟩
      rw [holds_addAll h.strict, ← h.held]
      rfl

theorem SetInv.ok {s : SortedState α} (h : SetInv cmp s) :
    SetOk cmp (MergesApart cmp) s where
  strict := h.strict
  found x := by
    rw [h.held]
    rcases indexOf_cases h.strict x with ⟨hneg, hnone⟩ | ⟨e, he, hnonneg, -, hsame⟩
    · refine iff_of_false (by omega) ?_
      rintro ⟨y, hy, hsame⟩
      exact hnone y hy (cmp.zero_symm hsame)
    · exact iff_of_true hnonneg ⟨e, he, cmp.zero_symm hsame⟩
  order x := orderOf_eq h.strict x
  merges vector := mergeVector_eq h.strict vector
  mergesSorted _ hguard := mergeSorted_eq h.strict hguard.1 hguard.2

theorem setOk_of_mergesApart {s : SortedState α}
    (hreach : (sortedMachine cmp).ReachWhen (MergesApart cmp) s) :
    SetOk cmp (MergesApart cmp) s := by
  refine SetInv.ok (hreach.invariant (I := SetInv cmp) ?_ fun _ _ _ h => setInv_step h)
  rintro _ rfl
  refine ⟨List.Pairwise.nil, fun x => iff_of_false id ?_⟩
  rintro ⟨y, hy, -⟩
  exact absurd hy List.not_mem_nil

/-! ## Maps -/

section Maps

variable {K V : Type*} [LinearOrder K]

/-- What a call does to the map. -/
def mapAfter (m : K → Option V) : KeyedCall K V → K → Option V
  | .add key value => Function.update m key (some value)
  | .replaceValueFor key value => Function.update m key (some value)
  | .removeItem key => Function.update m key none

variable [Inhabited V]

/-- The vector is the map. -/
structure MapOk (pairs : List (K × V)) (m : K → Option V) : Prop where
  index : ∀ key, 0 ≤ KeyedVector.indexOfKey pairs key ↔ (m key).isSome
  value : ∀ key, KeyedVector.valueFor pairs key = m key

omit [Inhabited V] in
theorem keyCompare_zero (p q : K × V) :
    (KeyedVector.keyCompare K V).doCompare p q = 0 ↔ p.1 = q.1 := by
  have hneg := KeyedVector.compareType_neg p q
  have hpos := KeyedVector.compareType_pos p q
  show KeyedVector.compareType p q = 0 ↔ _
  constructor
  · intro hzero
    rcases lt_trichotomy p.1 q.1 with hlt | heq | hgt
    · have := hneg.mpr hlt
      omega
    · exact heq
    · have := hpos.mpr hgt
      omega
  · intro heq
    rw [heq] at hneg hpos
    have h1 : ¬ KeyedVector.compareType p q < 0 := fun h => lt_irrefl _ (hneg.mp h)
    have h2 : ¬ 0 < KeyedVector.compareType p q := fun h => lt_irrefl _ (hpos.mp h)
    omega

/-- The invariant of a run. -/
structure MapInv (pairs : List (K × V)) (m : K → Option V) : Prop where
  strict : Strict (KeyedVector.keyCompare K V) pairs
  mem : ∀ key value, m key = some value ↔ (key, value) ∈ pairs

variable {pairs : List (K × V)} {m : K → Option V}

omit [Inhabited V] in
theorem MapInv.add (h : MapInv pairs m) (key : K) (value : V) :
    MapInv (KeyedVector.add pairs key value).2 (Function.update m key (some value)) := by
  refine ⟨strict_add h.strict _, fun key' value' => ?_⟩
  rw [KeyedVector.add, mem_add h.strict, Ne, keyCompare_zero, Prod.mk.injEq]
  by_cases hkey : key' = key
  · subst hkey
    simp [eq_comm]
  · rw [Function.update_of_ne hkey, h.mem]
    simp [hkey]

omit [Inhabited V] in
theorem MapInv.remove (h : MapInv pairs m) (key : K) (value : V) :
    MapInv (SortedVector.remove (KeyedVector.keyCompare K V) pairs (key, value)).2
      (Function.update m key none) := by
  refine ⟨strict_remove h.strict _, fun key' value' => ?_⟩
  rw [mem_remove h.strict, Ne, keyCompare_zero]
  by_cases hkey : key' = key
  · subst hkey
    simp
  · rw [Function.update_of_ne hkey, h.mem]
    simp [hkey]

theorem MapInv.run (h : MapInv pairs m) (call : KeyedCall K V) :
    MapInv (call.run pairs) (mapAfter m call) := by
  cases call with
  | add key value => exact h.add key value
  | replaceValueFor key value =>
      have hadd := (h.remove key value).add key value
      rw [Function.update_idem] at hadd
      exact hadd
  | removeItem key => exact h.remove key default

theorem MapInv.ok (h : MapInv pairs m) : MapOk pairs m := by
  have hkey : ∀ key, (KeyedVector.indexOfKey pairs key < 0 ∧ m key = none) ∨
      ∃ value, 0 ≤ KeyedVector.indexOfKey pairs key ∧
        pairs[(KeyedVector.indexOfKey pairs key).toNat]? = some (key, value) ∧
        m key = some value := by
    intro key
    rcases indexOf_cases h.strict (KeyedVector.keyPair key) with
      ⟨hneg, hnone⟩ | ⟨⟨key', value⟩, he, hnonneg, hget, hsame⟩
    · refine Or.inl ⟨hneg, ?_⟩
      cases hm : m key with
      | none => rfl
      | some value =>
          have hne := hnone (key, value) ((h.mem key value).mp hm)
          exact absurd ((keyCompare_zero _ _).mpr rfl) hne
    · obtain rfl : key' = key := (keyCompare_zero _ _).mp hsame
      exact Or.inr ⟨value, hnonneg, hget, (h.mem key' value).mpr he⟩
  refine ⟨fun key => ?_, fun key => ?_⟩
  · rcases hkey key with ⟨hneg, hnone⟩ | ⟨value, hnonneg, -, hsome⟩
    · rw [hnone]
      exact iff_of_false (by omega) Bool.false_ne_true
    · rw [hsome]
      exact iff_of_true hnonneg rfl
  · unfold KeyedVector.valueFor
    rcases hkey key with ⟨hneg, hnone⟩ | ⟨value, hnonneg, hget, hsome⟩
    · rw [hnone]
      exact if_pos hneg
    · dsimp only
      rw [if_neg (by omega), hget, hsome]
      rfl

/-- After any calls on an empty keyed vector. -/
theorem mapOk_of_calls (calls : List (KeyedCall K V)) :
    MapOk (calls.foldl KeyedCall.run []) (calls.foldl mapAfter fun _ => none) := by
  have hrun : ∀ (calls : List (KeyedCall K V)) {pairs : List (K × V)} {m : K → Option V},
      MapInv pairs m → MapInv (calls.foldl KeyedCall.run pairs) (calls.foldl mapAfter m) := by
    intro calls
    induction calls with
    | nil => exact fun h => h
    | cons call rest ih => exact fun h => ih (h.run call)
  refine (hrun calls ⟨List.Pairwise.nil, fun key value => ?_⟩).ok
  simp

end Maps

/-- Sorted vectors whose merges are apart are sets, and keyed vectors are maps. -/
theorem sets_and_maps (cmp : Comparison α) {K V : Type*} [LinearOrder K] [Inhabited V] :
    (∀ s, (sortedMachine cmp).ReachWhen (MergesApart cmp) s →
      SetOk cmp (MergesApart cmp) s) ∧
    ∀ calls : List (KeyedCall K V),
      MapOk (calls.foldl KeyedCall.run []) (calls.foldl mapAfter fun _ => none) :=
  ⟨fun _ hreach => setOk_of_mergesApart hreach, mapOk_of_calls⟩

theorem natCompare_trans {a b c : Int} (hab : a - b ≤ 0) (hbc : b - c ≤ 0) : a - c ≤ 0 := by
  omega

theorem natCompare_flip {a b : Int} : a - b < 0 ↔ 0 < b - a := by
  omega

/-- Numbers. -/
def numberCompare : Comparison Int where
  doCompare a b := a - b
  flip _ _ := natCompare_flip
  trans _ _ _ := natCompare_trans

/-- Two vectors that are apart. -/
theorem sets_and_maps_apart :
    SetOk numberCompare (MergesApart numberCompare) ⟨[1, 2], heldAfter numberCompare
      (heldAfter numberCompare (fun _ => False) (.add 2)) (.mergeSorted [1])⟩ := by
  have hapart : MergesApart numberCompare
      ⟨[2], heldAfter numberCompare (fun _ => False) (.add 2)⟩ (.mergeSorted [1]) := by
    refine ⟨List.pairwise_singleton _ _, fun first last hfirst hlast => ?_⟩
    obtain rfl := Option.some.inj hfirst
    obtain rfl := Option.some.inj hlast
    exact ⟨2, 2, rfl, rfl, by decide, by decide⟩
  exact (sets_and_maps numberCompare (K := Nat) (V := Nat)).1 _
    (.step (.step (a := .add 2) (.init rfl) trivial rfl) hapart rfl)

/-- A sorted merge of a vector that ends where this one begins. -/
theorem merge_keeps_both :
    ¬ ∀ s, (sortedMachine numberCompare).ReachWhen (MergesSorted numberCompare) s →
      SetOk numberCompare (MergesSorted numberCompare) s := by
  intro h
  have hone : Strict numberCompare [1] := List.pairwise_singleton _ _
  have hreach : (sortedMachine numberCompare).ReachWhen (MergesSorted numberCompare)
      ⟨[1, 1], _⟩ :=
    .step (a := .mergeSorted [1]) (.step (a := .add 1) (.init rfl) trivial rfl) hone rfl
  have hstrict := (h _ hreach).strict
  have hlt := (List.pairwise_cons.mp hstrict).1 1 List.mem_cons_self
  exact absurd hlt (by decide)

end Utils
end AndroidLinux
