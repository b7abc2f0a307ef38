import AndroidLinux.Cutils.Hashmap
import Mathlib.Data.Set.Card

/-!
# The hash map is a finite map

`Contents` is the map that a client sees: it gives a value to some of the keys, where keys
that `equals` identifies are one key.  `Answers` says what each call returns and does to
it.  `Represents` connects a `Hashmap` to its contents: the entries list them, each once,
and each entry is in the bucket given by its hash.  Every call keeps it, whatever the
allocator does.
-/

namespace AndroidLinux
namespace Cutils

open Lib Classical

variable {K V : Type*}

/-- Keys up to `equals`. -/
def KeyFunctions.setoid (keys : KeyFunctions K) : Setoid K :=
  ⟨fun keyA keyB => keys.equals keyA keyB = true, keys.equivalence⟩

/-- What a map holds. -/
abbrev Contents (keys : KeyFunctions K) (V : Type*) : Type _ := Quotient keys.setoid → Option V

namespace Contents

variable {keys : KeyFunctions K} (c : Contents keys V)

/-- The value of a key. -/
def valueOf (key : K) : Option V := c (Quotient.mk keys.setoid key)

/-- A key gets a value or loses it. -/
noncomputable def set (key : K) (value : Option V) : Contents keys V :=
  Function.update c (Quotient.mk keys.setoid key) value

/-- The entries of the map in some order, each once. -/
structure Lists (all : List (K × V)) : Prop where
  nodup : (all.map fun p => Quotient.mk keys.setoid p.1).Nodup
  mem : ∀ q v, c q = some v ↔ ∃ p ∈ all, Quotient.mk keys.setoid p.1 = q ∧ p.2 = v

/-- The calls of a callback that is to see all entries and stops when it says so. -/
structure Visits (callback : List (K × V) → Bool) (all visited : List (K × V)) : Prop where
  inOrder : visited <+: all
  wentOn : ∀ l, l ≠ [] → l <+: visited → l ≠ visited → callback l = true
  stopped : visited ≠ all → visited ≠ [] ∧ callback visited = false

variable [Zero V]

/-- What a call returns for a map with the contents `c`, and the contents behind it. -/
inductive Answers : MapCall K V → MapResult K V → Contents keys V → Prop
  | put (key : K) (value : V) (entryGranted tableGranted : Bool) :
      Answers (.put key value entryGranted tableGranted) (.value ((c.valueOf key).getD 0))
        (if c.valueOf key = none ∧ entryGranted = false then c else c.set key (some value))
  | get (key : K) : Answers (.get key) (.value ((c.valueOf key).getD 0)) c
  | containsKey (key : K) : Answers (.containsKey key) (.truth (c.valueOf key).isSome) c
  | memoizeOld (key : K) (initialValue : K → V) (entryGranted tableGranted : Bool) (value : V)
      (hold : c.valueOf key = some value) :
      Answers (.memoize key initialValue entryGranted tableGranted) (.value value) c
  | memoizeNew (key : K) (initialValue : K → V) (tableGranted : Bool)
      (hnew : c.valueOf key = none) :
      Answers (.memoize key initialValue true tableGranted) (.value (initialValue key))
        (c.set key (some (initialValue key)))
  | memoizeFull (key : K) (initialValue : K → V) (tableGranted : Bool)
      (hnew : c.valueOf key = none) :
      Answers (.memoize key initialValue false tableGranted) (.value 0) c
  | remove (key : K) : Answers (.remove key) (.value ((c.valueOf key).getD 0)) (c.set key none)
  | forEach (callback : List (K × V) → Bool) (all visited : List (K × V)) (hall : c.Lists all)
      (hvisited : Visits callback all visited) : Answers (.forEach callback) (.visits visited) c
  | size : Answers .size (.number {q | c q ≠ none}.ncard) c

/-- A sequence of calls with their results. -/
inductive Follows : Contents keys V → List (MapCall K V) → List (MapResult K V) →
    Contents keys V → Prop
  | nil (c : Contents keys V) : Follows c [] [] c
  | cons {c c' c'' : Contents keys V} {call : MapCall K V} {result : MapResult K V}
      {calls : List (MapCall K V)} {results : List (MapResult K V)}
      (hcall : c.Answers call result c') (hrest : Follows c' calls results c'') :
      Follows c (call :: calls) (result :: results) c''

/-! ## Lists of entries -/

omit [Zero V]

variable {c} {all : List (K × V)} {key : K} {value : V}

theorem Lists.perm {all' : List (K × V)} (h : c.Lists all) (hperm : all.Perm all') :
    c.Lists all' := by
  refine ⟨(hperm.map _).nodup_iff.mp h.nodup, fun q v => ?_⟩
  rw [h.mem]
  simp only [hperm.mem_iff]

theorem Lists.valueOf_some {p : K × V} (h : c.Lists all) (hp : p ∈ all)
    (hkey : Quotient.mk keys.setoid p.1 = Quotient.mk keys.setoid key) : c.valueOf key = some p.2 :=
  (h.mem _ _).mpr ⟨p, hp, hkey, rfl⟩

theorem Lists.valueOf_none (h : c.Lists all)
    (hkey : ∀ p ∈ all, Quotient.mk keys.setoid p.1 ≠ Quotient.mk keys.setoid key) :
    c.valueOf key = none := by
  cases hvalue : c.valueOf key with
  | none => rfl
  | some v =>
      obtain ⟨p, hp, hsame, -⟩ := (h.mem _ _).mp hvalue
      exact absurd hsame (hkey p hp)

/-- A new key. -/
theorem Lists.cons (h : c.Lists all) (hnew : c.valueOf key = none) :
    (c.set key (some value)).Lists ((key, value) :: all) := by
  have hfresh : ∀ p ∈ all, Quotient.mk keys.setoid p.1 ≠ Quotient.mk keys.setoid key := by
    intro p hp hsame
    rw [h.valueOf_some hp hsame] at hnew
    cases hnew
  constructor
  · rw [List.map_cons, List.nodup_cons]
    refine ⟨fun hmem => ?_, h.nodup⟩
    obtain ⟨p, hp, hsame⟩ := List.mem_map.mp hmem
    exact hfresh p hp hsame
  · intro q v
    by_cases hq : q = Quotient.mk keys.setoid key
    · subst hq
      rw [set, Function.update_self, Option.some.injEq]
      constructor
      · rintro rfl
        exact ⟨_, List.mem_cons_self, rfl, rfl⟩
      · rintro ⟨p, hp, hsame, rfl⟩
        rcases List.mem_cons.mp hp with rfl | hp
        · rfl
        · exact absurd hsame (hfresh p hp)
    · rw [set, Function.update_of_ne hq, h.mem]
      constructor
      · rintro ⟨p, hp, hsame⟩
        exact ⟨p, List.mem_cons_of_mem _ hp, hsame⟩
      · rintro ⟨p, hp, hsame, hv⟩
        rcases List.mem_cons.mp hp with rfl | hp
        · exact absurd hsame.symm hq
        · exact ⟨p, hp, hsame, hv⟩

/-- A key is taken out. -/
theorem Lists.uncons (h : c.Lists ((key, value) :: all)) : (c.set key none).Lists all := by
  have hnodup := h.nodup
  rw [List.map_cons, List.nodup_cons] at hnodup
  refine ⟨hnodup.2, fun q v => ?_⟩
  by_cases hq : q = Quotient.mk keys.setoid key
  · subst hq
    rw [set, Function.update_self]
    constructor
    · intro hnone
      cases hnone
    · rintro ⟨p, hp, hsame, -⟩
      exact absurd (List.mem_map.mpr ⟨p, hp, hsame⟩) hnodup.1
  · rw [set, Function.update_of_ne hq, h.mem]
    constructor
    · rintro ⟨p, hp, hsame, hv⟩
      rcases List.mem_cons.mp hp with rfl | hp
      · exact absurd hsame.symm hq
      · exact ⟨p, hp, hsame, hv⟩
    · rintro ⟨p, hp, hsame⟩
      exact ⟨p, List.mem_cons_of_mem _ hp, hsame⟩

/-- The number of keys. -/
theorem Lists.ncard (h : c.Lists all) : {q | c q ≠ none}.ncard = all.length := by
  have hset : {q | c q ≠ none} =
      ((all.map fun p => Quotient.mk keys.setoid p.1).toFinset : Set (Quotient keys.setoid)) := by
    ext q
    rw [Finset.mem_coe, List.mem_toFinset, List.mem_map, Set.mem_ofPred_eq,
      Option.ne_none_iff_exists']
    constructor
    · rintro ⟨v, hv⟩
      obtain ⟨p, hp, hsame, -⟩ := (h.mem q v).mp hv
      exact ⟨p, hp, hsame⟩
    · rintro ⟨p, hp, hsame⟩
      exact ⟨p.2, (h.mem q p.2).mpr ⟨p, hp, hsame, rfl⟩⟩
  rw [hset, Set.ncard_coe_finset, List.toFinset_card_of_nodup h.nodup, List.length_map]

/-- No key has a value. -/
def empty : Contents keys V := fun _ => none

theorem lists_nil : (empty : Contents keys V).Lists [] := by
  refine ⟨List.nodup_nil, fun q v => ?_⟩
  simp [empty]

theorem valueOf_set (c : Contents keys V) (key : K) (value : Option V) :
    (c.set key value).valueOf key = value :=
  Function.update_self ..

theorem set_valueOf {c : Contents keys V} {key : K} {value : Option V}
    (h : c.valueOf key = value) : c.set key value = c := by
  rw [← h]
  exact Function.update_eq_self _ _

theorem set_set (c : Contents keys V) (key : K) (a b : Option V) :
    (c.set key a).set key b = c.set key b :=
  Function.update_idem ..

/-- Only the class of the key counts. -/
theorem set_congr (c : Contents keys V) {key key' : K} (value : Option V)
    (h : Quotient.mk keys.setoid key' = Quotient.mk keys.setoid key) :
    c.set key' value = c.set key value := by
  rw [set, set, h]

end Contents
end Cutils
end AndroidLinux
