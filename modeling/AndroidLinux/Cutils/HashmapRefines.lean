import AndroidLinux.Cutils.HashmapContents

/-!
# Every call keeps the hash map's contents

`Represents` is the invariant.  The bucket count is a power of two that `calloc` can grant,
so that no size overflows; every entry carries the hash of its key and is in the bucket
given by it; the entries list the contents, each key once.  The chains that the loops leave
behind differ in at most one entry (`putLoop_cases`, `removeLoop_cases`), and moving the
entries to new buckets is a permutation of them (`moveAll_perm`).
-/

namespace AndroidLinux
namespace Cutils

open Lib

variable {K V : Type*}

/-- What an entry says. -/
def Entry.pair (entry : Entry K V) : K × V := (entry.key, entry.value)

namespace Hashmap

/-- The entries, in the order of `hashmapForEach`. -/
def entries (map : Hashmap K V) : List (Entry K V) := gather map.buckets map.bucketCount

/-- An entry is in the bucket given by its hash. -/
def PlacedIn (keys : KeyFunctions K) (bucketCount : Nat) (buckets : Nat → List (Entry K V)) :
    Prop :=
  ∀ i, ∀ entry ∈ buckets i,
    entry.hash = keys.hashKey entry.key ∧ calculateIndex bucketCount entry.hash = i

structure Represents (keys : KeyFunctions K) (map : Hashmap K V) (c : Contents keys V) :
    Prop where
  bucketCount : ∃ j ≤ 29, map.bucketCount = 2 ^ j
  placed : PlacedIn keys map.bucketCount map.buckets
  size : map.size = map.entries.length
  lists : c.Lists (map.entries.map Entry.pair)

end Hashmap

open Hashmap Contents

variable {keys : KeyFunctions K} {map : Hashmap K V} {c : Contents keys V} {key : K}

/-! ## Hashes and indices -/

theorem hashKey_congr {key' : K} (h : Quotient.mk keys.setoid key' = Quotient.mk keys.setoid key) :
    keys.hashKey key' = keys.hashKey key := by
  have hhash : keys.hash key' = keys.hash key := keys.consistent _ _ (Quotient.exact h)
  rw [KeyFunctions.hashKey, KeyFunctions.hashKey, hhash]

theorem calculateIndex_lt {bucketCount : Nat} (h : 0 < bucketCount) (hash : UInt32) :
    calculateIndex bucketCount hash < bucketCount := by
  have hle : calculateIndex bucketCount hash ≤ bucketCount - 1 := Nat.and_le_right
  omega

variable [DecidableEq K] in
/-- The test of the loops finds the entry of the key. -/
theorem sameKey_iff {entry : Entry K V} (hhash : entry.hash = keys.hashKey entry.key) :
    sameKey keys key entry = true ↔
      Quotient.mk keys.setoid entry.key = Quotient.mk keys.setoid key := by
  unfold sameKey KeyFunctions.equalKeys
  by_cases hsame : entry.key = key
  · rw [if_pos hsame, hsame]
    exact iff_of_true rfl rfl
  rw [if_neg hsame, hhash]
  by_cases hdiffer : keys.hashKey entry.key ≠ keys.hashKey key
  · rw [if_pos hdiffer]
    exact iff_of_false Bool.false_ne_true fun h => hdiffer (hashKey_congr h)
  · rw [if_neg hdiffer]
    exact ⟨fun h => Quotient.sound h, fun h => Quotient.exact h⟩

theorem Hashmap.Represents.bucketCount_pos (h : Represents keys map c) :
    0 < map.bucketCount := by
  obtain ⟨j, -, hj⟩ := h.bucketCount
  rw [hj]
  exact Nat.two_pow_pos j

theorem Hashmap.Represents.bucket_lt (h : Represents keys map c) (key : K) :
    map.bucket keys key < map.bucketCount :=
  calculateIndex_lt h.bucketCount_pos _

/-- Entries of the bucket are entries of the map. -/
theorem Hashmap.Represents.mem_entries (h : Represents keys map c) {entry : Entry K V}
    (hentry : entry ∈ map.buckets (map.bucket keys key)) : entry ∈ map.entries :=
  mem_gather.mpr ⟨_, h.bucket_lt key, hentry⟩

/-- The entry of a key is in the bucket of the key. -/
theorem Hashmap.Represents.mem_bucket (h : Represents keys map c) {entry : Entry K V}
    (hentry : entry ∈ map.entries)
    (hkey : Quotient.mk keys.setoid entry.key = Quotient.mk keys.setoid key) :
    entry ∈ map.buckets (map.bucket keys key) := by
  obtain ⟨i, -, hi⟩ := mem_gather.mp hentry
  obtain ⟨hhash, hindex⟩ := h.placed i entry hi
  rw [hhash, hashKey_congr hkey] at hindex
  rwa [bucket, hindex]

variable [DecidableEq K] in
theorem Hashmap.Represents.valueOf_some (h : Represents keys map c) {entry : Entry K V}
    (hentry : entry ∈ map.buckets (map.bucket keys key)) (hsame : sameKey keys key entry = true) :
    c.valueOf key = some entry.value ∧
      Quotient.mk keys.setoid entry.key = Quotient.mk keys.setoid key := by
  have hkey := (sameKey_iff (h.placed _ _ hentry).1).mp hsame
  exact ⟨h.lists.valueOf_some (List.mem_map_of_mem (h.mem_entries hentry)) hkey, hkey⟩

variable [DecidableEq K] in
theorem Hashmap.Represents.valueOf_none (h : Represents keys map c)
    (hnot : ∀ entry ∈ map.buckets (map.bucket keys key), sameKey keys key entry = false) :
    c.valueOf key = none := by
  refine h.lists.valueOf_none fun p hp hkey => ?_
  obtain ⟨entry, hentry, rfl⟩ := List.mem_map.mp hp
  have hbucket := h.mem_bucket hentry hkey
  have hsame := (sameKey_iff (h.placed _ _ hbucket).1).mpr hkey
  rw [hnot entry hbucket] at hsame
  cases hsame

variable [DecidableEq K] in
/-- What the search comes to. -/
theorem Hashmap.Represents.find_value (h : Represents keys map c) (key : K) :
    (map.find keys key).map Entry.value = c.valueOf key := by
  cases hfind : map.find keys key with
  | none =>
      rw [find, List.find?_eq_none] at hfind
      rw [h.valueOf_none fun entry hentry => Bool.eq_false_iff.mpr (hfind entry hentry)]
      rfl
  | some entry =>
      have hentry := List.mem_of_find?_eq_some hfind
      have hsame := List.find?_some hfind
      rw [(h.valueOf_some hentry hsame).1]
      rfl

/-! ## Chains -/

/-- The loop of `hashmapPut` finds no entry, or it changes the value of one. -/
theorem putLoop_cases (same : Entry K V → Bool) (value : V) (chain : List (Entry K V)) :
    (putLoop same value chain = (chain, none) ∧ ∀ entry ∈ chain, same entry = false) ∨
    ∃ before current next, chain = before ++ current :: next ∧ same current = true ∧
      putLoop same value chain =
        (before ++ { current with value := value } :: next, some current.value) := by
  induction chain with
  | nil => exact Or.inl ⟨rfl, fun entry hentry => absurd hentry List.not_mem_nil⟩
  | cons first rest ih =>
      by_cases hfirst : same first = true
      · exact Or.inr ⟨[], first, rest, rfl, hfirst, by rw [putLoop, if_pos hfirst]; rfl⟩
      rw [putLoop, if_neg hfirst]
      rcases ih with ⟨hloop, hnot⟩ | ⟨before, current, next, hchain, hsame, hloop⟩
      · rw [hloop]
        exact Or.inl ⟨rfl, List.forall_mem_cons.mpr ⟨Bool.eq_false_iff.mpr hfirst, hnot⟩⟩
      · rw [hloop]
        exact Or.inr ⟨first :: before, current, next, by rw [hchain]; rfl, hsame, rfl⟩

/-- The loop of `hashmapRemove` finds no entry, or it takes one out. -/
theorem removeLoop_cases (same : Entry K V → Bool) (chain : List (Entry K V)) :
    (removeLoop same chain = (chain, none) ∧ ∀ entry ∈ chain, same entry = false) ∨
    ∃ before current next, chain = before ++ current :: next ∧ same current = true ∧
      removeLoop same chain = (before ++ next, some current.value) := by
  induction chain with
  | nil => exact Or.inl ⟨rfl, fun entry hentry => absurd hentry List.not_mem_nil⟩
  | cons first rest ih =>
      by_cases hfirst : same first = true
      · exact Or.inr ⟨[], first, rest, rfl, hfirst, by rw [removeLoop, if_pos hfirst]; rfl⟩
      rw [removeLoop, if_neg hfirst]
      rcases ih with ⟨hloop, hnot⟩ | ⟨before, current, next, hchain, hsame, hloop⟩
      · rw [hloop]
        exact Or.inl ⟨rfl, List.forall_mem_cons.mpr ⟨Bool.eq_false_iff.mpr hfirst, hnot⟩⟩
      · rw [hloop]
        exact Or.inr ⟨first :: before, current, next, by rw [hchain]; rfl, hsame, rfl⟩

/-- A bucket is written with entries that belong there. -/
theorem Hashmap.PlacedIn.setBucket {bucketCount index : Nat} {buckets : Nat → List (Entry K V)}
    (h : PlacedIn keys bucketCount buckets) {chain : List (Entry K V)}
    (hchain : ∀ entry ∈ chain,
      entry.hash = keys.hashKey entry.key ∧ calculateIndex bucketCount entry.hash = index) :
    PlacedIn keys bucketCount (Function.update buckets index chain) := by
  intro i entry hentry
  by_cases hi : i = index
  · subst hi
    rw [Function.update_self] at hentry
    exact hchain entry hentry
  · rw [Function.update_of_ne hi] at hentry
    exact h i entry hentry

/-- The entries around one bucket. -/
theorem entries_setBucket {index : Nat} (hindex : index < map.bucketCount)
    (chain : List (Entry K V)) :
    ∃ others, map.entries.Perm (map.buckets index ++ others) ∧
      (map.setBucket index chain).entries.Perm (chain ++ others) :=
  ⟨_, gather_perm map.buckets hindex, gather_update map.buckets hindex chain⟩

/-! ## Expansion -/

theorem moveAll_placed {newBucketCount : Nat} (moved : List (Entry K V))
    (hmoved : ∀ entry ∈ moved, entry.hash = keys.hashKey entry.key)
    {newBuckets : Nat → List (Entry K V)} (h : PlacedIn keys newBucketCount newBuckets) :
    PlacedIn keys newBucketCount (moved.foldl (moveEntry newBucketCount) newBuckets) := by
  induction moved generalizing newBuckets with
  | nil => exact h
  | cons entry rest ih =>
      refine ih (fun e he => hmoved e (List.mem_cons_of_mem entry he)) (h.setBucket ?_)
      intro e he
      rcases List.mem_cons.mp he with rfl | he
      · exact ⟨hmoved e List.mem_cons_self, rfl⟩
      · exact h _ e he

/-- Moving the entries neither loses nor doubles one. -/
theorem moveAll_perm {newBucketCount : Nat} (hpos : 0 < newBucketCount)
    (moved : List (Entry K V)) (newBuckets : Nat → List (Entry K V)) :
    (gather (moved.foldl (moveEntry newBucketCount) newBuckets) newBucketCount).Perm
      (moved ++ gather newBuckets newBucketCount) := by
  induction moved generalizing newBuckets with
  | nil => exact List.Perm.refl _
  | cons entry rest ih =>
      have hpush := gather_push newBuckets (calculateIndex_lt hpos entry.hash) entry
      have hrest := (ih (moveEntry newBucketCount newBuckets entry)).trans
        (hpush.append_left rest)
      exact hrest.trans List.perm_middle

/-- The table is expanded or left as it is. -/
theorem Hashmap.Represents.expandIfNecessary (h : Represents keys map c) (granted : Bool) :
    Represents keys (Cutils.expandIfNecessary map granted) c := by
  unfold Cutils.expandIfNecessary
  split
  · dsimp only
    split
    · rename_i hgranted
      obtain ⟨j, hj, hcount⟩ := h.bucketCount
      have hdouble : map.bucketCount * 2 % sizeLimit = 2 ^ (j + 1) := by
        have hle : 2 ^ (j + 1) ≤ 2 ^ 30 := Nat.pow_le_pow_right (by decide) (by omega)
        rw [hcount, ← Nat.pow_succ, Nat.mod_eq_of_lt (lt_of_le_of_lt hle (by decide))]
      rw [hdouble] at hgranted ⊢
      have hfits : 2 ^ (j + 1) * 4 < sizeLimit := by
        simp only [callocs, Bool.and_eq_true, decide_eq_true_eq] at hgranted
        exact hgranted.2
      have hsmall : j + 1 ≤ 29 := by
        by_contra hlarge
        have hj : j + 1 = 30 := by omega
        rw [hj] at hfits
        exact absurd hfits (by decide)
      have hperm := moveAll_perm (Nat.two_pow_pos (j + 1)) map.entries fun _ => []
      rw [gather_empty, List.append_nil] at hperm
      refine ⟨⟨j + 1, hsmall, rfl⟩, ?_, ?_, ?_⟩
      · refine moveAll_placed _ (fun entry hentry => ?_) fun _ entry hentry =>
          absurd hentry List.not_mem_nil
        obtain ⟨i, -, hi⟩ := mem_gather.mp hentry
        exact (h.placed i entry hi).1
      · exact h.size.trans hperm.length_eq.symm
      · exact h.lists.perm (hperm.symm.map _)
    · exact h
  · exact h

/-! ## The calls -/

/-- A key that is not there is put in. -/
theorem Hashmap.Represents.insert (h : Represents keys map c) (hnew : c.valueOf key = none)
    (value : V) (tableGranted : Bool) :
    Represents keys (map.insert keys key value tableGranted) (c.set key (some value)) := by
  refine Hashmap.Represents.expandIfNecessary ?_ tableGranted
  have hindex := h.bucket_lt key
  obtain ⟨others, hbefore, hafter⟩ := entries_setBucket hindex
    (map.buckets (map.bucket keys key) ++ [⟨key, keys.hashKey key, value⟩])
  have hperm : (map.setBucket (map.bucket keys key) (map.buckets (map.bucket keys key) ++
      [⟨key, keys.hashKey key, value⟩])).entries.Perm
      (⟨key, keys.hashKey key, value⟩ :: map.entries) := by
    refine hafter.trans ?_
    rw [List.append_assoc]
    exact List.perm_middle.trans (hbefore.symm.cons _)
  refine ⟨h.bucketCount, h.placed.setBucket fun entry hentry => ?_, ?_, ?_⟩
  · rcases List.mem_append.mp hentry with hentry | hentry
    · exact h.placed _ entry hentry
    · rw [List.mem_singleton.mp hentry]
      exact ⟨rfl, rfl⟩
  · have hlength := hperm.length_eq
    rw [List.length_cons, ← h.size] at hlength
    exact hlength.symm
  · exact (h.lists.cons hnew).perm (hperm.symm.map Entry.pair)

/-- The value of an entry is replaced. -/
theorem Hashmap.Represents.replace (h : Represents keys map c) {before next : List (Entry K V)}
    {current : Entry K V} (value : V)
    (hchain : map.buckets (map.bucket keys key) = before ++ current :: next)
    (hkey : Quotient.mk keys.setoid current.key = Quotient.mk keys.setoid key) :
    Represents keys (map.setBucket (map.bucket keys key)
      (before ++ { current with value := value } :: next)) (c.set key (some value)) := by
  obtain ⟨others, hbefore, hafter⟩ := entries_setBucket (h.bucket_lt key)
    (before ++ { current with value := value } :: next)
  rw [hchain] at hbefore
  have hold : map.entries.Perm (current :: (before ++ next ++ others)) :=
    hbefore.trans (List.perm_middle.append_right _)
  have hnew : (map.setBucket (map.bucket keys key)
      (before ++ { current with value := value } :: next)).entries.Perm
      ({ current with value := value } :: (before ++ next ++ others)) :=
    hafter.trans (List.perm_middle.append_right _)
  refine ⟨h.bucketCount, h.placed.setBucket fun entry hentry => ?_, ?_, ?_⟩
  · have hplaced := h.placed (map.bucket keys key)
    rw [hchain] at hplaced
    simp only [List.mem_append, List.mem_cons] at hentry hplaced
    rcases hentry with hentry | rfl | hentry
    · exact hplaced entry (Or.inl hentry)
    · exact hplaced current (Or.inr (Or.inl rfl))
    · exact hplaced entry (Or.inr (Or.inr hentry))
  · exact h.size.trans (hold.length_eq.trans hnew.length_eq.symm)
  · have huncons := Lists.uncons (h.lists.perm (hold.map Entry.pair))
    have hcons : (_ : Contents keys V).Lists ((current.key, value) :: _) :=
      huncons.cons (valueOf_set c current.key none)
    rw [set_set, set_congr c _ hkey] at hcons
    exact hcons.perm (hnew.symm.map Entry.pair)

/-- An entry is taken out. -/
theorem Hashmap.Represents.erase (h : Represents keys map c) {before next : List (Entry K V)}
    {current : Entry K V}
    (hchain : map.buckets (map.bucket keys key) = before ++ current :: next)
    (hkey : Quotient.mk keys.setoid current.key = Quotient.mk keys.setoid key) :
    Represents keys { map.setBucket (map.bucket keys key) (before ++ next) with
      size := map.size - 1 } (c.set key none) := by
  obtain ⟨others, hbefore, hafter⟩ := entries_setBucket (h.bucket_lt key) (before ++ next)
  rw [hchain] at hbefore
  have hold : map.entries.Perm (current :: (before ++ next ++ others)) :=
    hbefore.trans (List.perm_middle.append_right _)
  refine ⟨h.bucketCount, h.placed.setBucket fun entry hentry => ?_, ?_, ?_⟩
  · refine h.placed _ entry ?_
    rw [hchain]
    exact (List.sublist_cons_self current next).append_left before |>.subset hentry
  · have hlength := hold.length_eq
    rw [List.length_cons, ← h.size, ← hafter.length_eq] at hlength
    show map.size - 1 = _
    rw [hlength]
    rfl
  · have huncons := Lists.uncons (h.lists.perm (hold.map Entry.pair))
    rw [set_congr c _ hkey] at huncons
    exact huncons.perm (hafter.symm.map Entry.pair)

/-- The callback is called for the entries in order, until it says that it is enough. -/
theorem forEachLoop_visits (callback : List (K × V) → Bool) (chain : List (Entry K V))
    (before : List (K × V)) (hbefore : ∀ l, l ≠ [] → l <+: before → callback l = true) :
    Visits callback (before ++ chain.map Entry.pair) (forEachLoop callback before chain) := by
  induction chain generalizing before with
  | nil =>
      rw [List.map_nil, List.append_nil]
      exact ⟨List.prefix_rfl, fun l hl hprefix _ => hbefore l hl hprefix,
        fun hne => absurd rfl hne⟩
  | cons entry next ih =>
      have hsplit : before ++ (entry :: next).map Entry.pair =
          before ++ [entry.pair] ++ next.map Entry.pair := by simp
      rw [forEachLoop, hsplit]
      have hshort : ∀ l, l <+: before ++ [entry.pair] → l ≠ before ++ [entry.pair] →
          l <+: before := by
        intro l hprefix hne
        rcases List.prefix_concat_iff.mp hprefix with heq | hprefix
        · exact absurd heq hne
        · exact hprefix
      split
      · rename_i hmore
        refine ih (before ++ [entry.pair]) fun l hl hprefix => ?_
        by_cases heq : l = before ++ [entry.pair]
        · rw [heq]
          exact hmore
        · exact hbefore l hl (hshort l hprefix heq)
      · rename_i henough
        exact ⟨List.prefix_append _ _,
          fun l hl hprefix hne => hbefore l hl (hshort l hprefix hne),
          fun _ => ⟨by simp, Bool.eq_false_iff.mpr henough⟩⟩

section Calls

variable [DecidableEq K] [Zero V]

theorem Hashmap.Represents.put (h : Represents keys map c) (key : K) (value : V)
    (entryGranted tableGranted : Bool) :
    (map.hashmapPut keys key value entryGranted tableGranted).1 = (c.valueOf key).getD 0 ∧
      Represents keys (map.hashmapPut keys key value entryGranted tableGranted).2
        (if c.valueOf key = none ∧ entryGranted = false then c else c.set key (some value)) := by
  unfold hashmapPut
  rcases putLoop_cases (sameKey keys key) value (map.buckets (map.bucket keys key)) with
    ⟨hloop, hnot⟩ | ⟨before, current, next, hchain, hsame, hloop⟩
  · have hnone := h.valueOf_none hnot
    dsimp only
    rw [hloop, hnone]
    cases entryGranted with
    | false => exact ⟨rfl, h⟩
    | true => exact ⟨rfl, h.insert hnone value tableGranted⟩
  · obtain ⟨hvalue, hkey⟩ := h.valueOf_some (hchain ▸ List.mem_append_cons_self) hsame
    dsimp only
    have hold : ¬ (some current.value = none ∧ entryGranted = false) := fun hfull => by
      cases hfull.1
    rw [hloop, hvalue, if_neg hold]
    exact ⟨rfl, h.replace value hchain hkey⟩

theorem Hashmap.Represents.remove (h : Represents keys map c) (key : K) :
    (map.hashmapRemove keys key).1 = (c.valueOf key).getD 0 ∧
      Represents keys (map.hashmapRemove keys key).2 (c.set key none) := by
  unfold hashmapRemove
  rcases removeLoop_cases (sameKey keys key) (map.buckets (map.bucket keys key)) with
    ⟨hloop, hnot⟩ | ⟨before, current, next, hchain, hsame, hloop⟩
  · have hnone := h.valueOf_none hnot
    dsimp only
    rw [hloop, hnone, set_valueOf hnone]
    exact ⟨rfl, h⟩
  · obtain ⟨hvalue, hkey⟩ := h.valueOf_some (hchain ▸ List.mem_append_cons_self) hsame
    dsimp only
    rw [hloop, hvalue]
    exact ⟨rfl, h.erase hchain hkey⟩

/-- Each call answers from the contents. -/
theorem Hashmap.Represents.call (h : Represents keys map c) (call : MapCall K V) :
    ∃ c', c.Answers call (map.call keys call).1 c' ∧
      Represents keys (map.call keys call).2 c' := by
  cases call with
  | put key value entryGranted tableGranted =>
      obtain ⟨hresult, hnext⟩ := h.put key value entryGranted tableGranted
      refine ⟨_, ?_, hnext⟩
      show c.Answers _ (.value (map.hashmapPut keys key value entryGranted tableGranted).1) _
      rw [hresult]
      exact .put key value entryGranted tableGranted
  | get key =>
      have hvalue : map.hashmapGet keys key = (c.valueOf key).getD 0 := by
        rw [← h.find_value key, hashmapGet]
        cases map.find keys key <;> rfl
      refine ⟨c, ?_, h⟩
      show c.Answers _ (.value (map.hashmapGet keys key)) c
      rw [hvalue]
      exact .get key
  | containsKey key =>
      have htruth : map.hashmapContainsKey keys key = (c.valueOf key).isSome := by
        rw [← h.find_value key, hashmapContainsKey, Option.isSome_map]
      refine ⟨c, ?_, h⟩
      show c.Answers _ (.truth (map.hashmapContainsKey keys key)) c
      rw [htruth]
      exact .containsKey key
  | memoize key initialValue entryGranted tableGranted =>
      have hvalue := h.find_value key
      simp only [Hashmap.call, hashmapMemoize]
      cases hfind : map.find keys key with
      | some current =>
          rw [hfind] at hvalue
          -- an entry that exists is not written
          exact ⟨c, .memoizeOld key initialValue _ _ _ hvalue.symm, h⟩
      | none =>
          rw [hfind] at hvalue
          cases entryGranted with
          | false => exact ⟨c, .memoizeFull key initialValue _ hvalue.symm, h⟩
          | true =>
              exact ⟨_, .memoizeNew key initialValue _ hvalue.symm,
                h.insert hvalue.symm _ tableGranted⟩
  | remove key =>
      obtain ⟨hresult, hnext⟩ := h.remove key
      refine ⟨_, ?_, hnext⟩
      show c.Answers _ (.value (map.hashmapRemove keys key).1) _
      rw [hresult]
      exact .remove key
  | forEach callback =>
      exact ⟨c, .forEach callback _ _ h.lists
        (forEachLoop_visits callback map.entries [] fun l hl hprefix =>
          absurd (List.prefix_nil.mp hprefix) hl), h⟩
  | size =>
      have hsize : map.size = {q | c q ≠ none}.ncard := by
        rw [h.lists.ncard, List.length_map, h.size]
      refine ⟨c, ?_, h⟩
      show c.Answers _ (.number map.size) c
      rw [hsize]
      exact .size

theorem Hashmap.Represents.calls (h : Represents keys map c) (list : List (MapCall K V)) :
    ∃ c', Follows c list (map.calls keys list).1 c' ∧
      Represents keys (map.calls keys list).2 c' := by
  induction list generalizing map c with
  | nil => exact ⟨c, .nil c, h⟩
  | cons first rest ih =>
      obtain ⟨c', hfirst, hnext⟩ := h.call first
      obtain ⟨c'', hrest, hlast⟩ := ih hnext
      exact ⟨c'', .cons hfirst hrest, hlast⟩

end Calls

/-! ## Creation -/

/-- The loop doubles the count until it is above the minimum. -/
theorem firstBucketCount_eq {minimum : Nat} (hminimum : minimum < 2 ^ 31) (fuel j : Nat)
    (hfuel : 31 ≤ fuel + j) (hj : j ≤ 31) :
    ∃ k ≤ 31, firstBucketCount minimum fuel (2 ^ j) = 2 ^ k ∧ minimum < 2 ^ k := by
  induction fuel generalizing j with
  | zero =>
      have hlast : j = 31 := by omega
      exact ⟨j, hj, rfl, hlast ▸ hminimum⟩
  | succ fuel ih =>
      rw [firstBucketCount]
      split
      · rename_i hsmall
        have hlt : j < 31 := by
          by_contra hge
          have hlast : j = 31 := by omega
          rw [hlast] at hsmall
          omega
        have hdouble : 2 ^ j * 2 % sizeLimit = 2 ^ (j + 1) := by
          have hle : 2 ^ (j + 1) ≤ 2 ^ 31 := Nat.pow_le_pow_right (by decide) (by omega)
          rw [← Nat.pow_succ, Nat.mod_eq_of_lt (lt_of_le_of_lt hle (by decide))]
        rw [hdouble]
        exact ih (j + 1) (by omega) hlt
      · exact ⟨j, hj, rfl, by omega⟩

/-- A created map is empty. -/
theorem represents_create {initialCapacity : Nat} {mapGranted bucketsGranted : Bool}
    (h : hashmapCreate initialCapacity mapGranted bucketsGranted = some map) :
    Represents keys map Contents.empty := by
  have hminimum : initialCapacity * 4 % sizeLimit / 3 < 2 ^ 31 := by
    have hlt : initialCapacity * 4 % sizeLimit < 2 ^ 32 := Nat.mod_lt _ (by decide)
    omega
  obtain ⟨k, hk, hcount, -⟩ := firstBucketCount_eq hminimum 32 0 (by decide) (by decide)
  unfold hashmapCreate at h
  dsimp only at h
  split at h
  · rename_i hgranted
    obtain rfl := Option.some.inj h
    have hfits : 2 ^ k * 4 < sizeLimit := by
      have hcalloc := hgranted.2
      rw [show (1 : Nat) = 2 ^ 0 from rfl, hcount] at hcalloc
      simp only [callocs, Bool.and_eq_true, decide_eq_true_eq] at hcalloc
      exact hcalloc.2
    have hsmall : k ≤ 29 := by
      by_contra hlarge
      have hle : 2 ^ 30 ≤ 2 ^ k := Nat.pow_le_pow_right (by decide) (by omega)
      have hlimit : sizeLimit = 2 ^ 30 * 4 := rfl
      omega
    refine ⟨⟨k, hsmall, hcount⟩, fun _ entry hentry => absurd hentry List.not_mem_nil, ?_, ?_⟩
    · exact (congrArg List.length (gather_empty _)).symm
    · rw [entries, gather_empty]
      exact lists_nil
  · cases h

variable [DecidableEq K] [Zero V] in
/-- A created map is a finite map: after any calls, whatever the allocations, the results
were those of the contents, and each entry is in the bucket given by its hash. -/
theorem hashmap_refines (keys : KeyFunctions K) (initialCapacity : Nat)
    (mapGranted bucketsGranted : Bool) (map : Hashmap K V)
    (hcreate : hashmapCreate initialCapacity mapGranted bucketsGranted = some map)
    (list : List (MapCall K V)) :
    ∃ c, Follows (Contents.empty : Contents keys V) list (map.calls keys list).1 c ∧
      Represents keys (map.calls keys list).2 c :=
  (represents_create hcreate).calls list

/-- Numbers as keys, where the last decimal counts. -/
def lastDigit : KeyFunctions Nat where
  hash key := UInt32.ofNat (key % 10)
  equals keyA keyB := decide (keyA % 10 = keyB % 10)
  equivalence :=
    ⟨fun _ => decide_eq_true rfl, fun h => decide_eq_true (of_decide_eq_true h).symm,
      fun h h' => decide_eq_true ((of_decide_eq_true h).trans (of_decide_eq_true h'))⟩
  consistent _ _ h := congrArg UInt32.ofNat (of_decide_eq_true h)

theorem hashmap_refines_lastDigit :
    ∃ c, Follows (Contents.empty : Contents lastDigit Nat)
        [.put 11 (5 : Nat) true true, .put 21 6 true true, .put 7 8 true false, .remove 31]
        [.value 0, .value 5, .value 0, .value 6] c ∧
      Represents lastDigit (Hashmap.calls lastDigit ⟨fun _ => [], 1, 0⟩
        [.put 11 (5 : Nat) true true, .put 21 6 true true, .put 7 8 true false,
          .remove 31]).2 c :=
  hashmap_refines lastDigit 0 true true ⟨fun _ => [], 1, 0⟩ rfl _

end Cutils
end AndroidLinux
