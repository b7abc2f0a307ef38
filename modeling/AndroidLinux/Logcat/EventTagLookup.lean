import AndroidLinux.Logcat.EventTagMap
import Mathlib.Tactic

/-!
# Looking up an event tag

The order that the entries are sorted and searched by is the sign of a difference of 32 bits.
Over the whole range of the numbers it is no order, and `qsort` may leave the entries as it
likes.
-/

namespace AndroidLinux
namespace Logcat
namespace EventTags

/-- The promise for the entries of a file, whatever `qsort` makes of them: where their numbers
differ, each is found and no other, and where two are the same the file is rejected. -/
def LooksUp (tags : List EventTag) : Prop :=
  ∀ qsort, QsortResult tags (qsort tags) →
    ((tags.map (·.tagIndex)).Nodup → ∀ sorted, sortTags qsort tags = some sorted → ∀ tag,
      (∀ e ∈ tags, e.tagIndex = tag →
        android_lookupEventTag sorted tag = some (some e.tagStr)) ∧
      ((∀ e ∈ tags, e.tagIndex ≠ tag) → android_lookupEventTag sorted tag = some none)) ∧
    (¬ (tags.map (·.tagIndex)).Nodup → sortTags qsort tags = none)

/-- The comparison is a total order on the entries, or there are two at most and they differ, or
some number occurs so often that it has itself as a neighbour in each order of the entries. -/
def Suits (tags : List EventTag) : Prop :=
  OrdersTags tags ∨ ((tags.map (·.tagIndex)).Nodup ∧ tags.length ≤ 2) ∨
    (¬ (tags.map (·.tagIndex)).Nodup ∧ ∀ sorted, sorted.Perm tags → hasDuplicate sorted)

/-! ## The difference -/

theorem indexDifference_eq (a b : UInt32) :
    indexDifference a b = ((a.toNat : Int) - b.toNat).bmod (2 ^ 32) := by
  rw [indexDifference, UInt32.toBitVec_sub, BitVec.toInt_sub, BitVec.toInt_eq_toNat_bmod,
    BitVec.toInt_eq_toNat_bmod, Int.bmod_sub_bmod, Int.sub_bmod_bmod]
  rfl

theorem indexDifference_eq_zero {a b : UInt32} : indexDifference a b = 0 ↔ a = b := by
  have ha := a.toNat_lt
  have hb := b.toNat_lt
  rw [indexDifference_eq, Int.bmod, ← UInt32.toNat_inj]
  split <;> omega

/-- Only for the numbers that are `2 ^ 31` apart are both differences negative. -/
theorem indexDifference_pos_swap {a b : UInt32} (h : 0 < indexDifference a b) :
    indexDifference b a < 0 := by
  have ha := a.toNat_lt
  have hb := b.toNat_lt
  rw [indexDifference_eq, Int.bmod] at h ⊢
  split at h <;> split <;> omega

/-! ## The search -/

/-- The loop returns, and what it finds is an entry between the bounds. -/
theorem lookupLoop_returns (tagArray : List EventTag) (tag : UInt32) (passes : Nat) (lo hi : Int)
    (hlo : 0 ≤ lo) (hle : lo ≤ hi + 1) (hhi : hi < tagArray.length)
    (hpasses : hi - lo + 1 < passes) :
    ∃ r, lookupLoop tagArray tag passes lo hi = some r ∧
      ∀ s, r = some s → ∃ (i : Nat) (hi' : i < tagArray.length),
        lo ≤ i ∧ i ≤ hi ∧ tagArray[i].tagIndex = tag ∧ tagArray[i].tagStr = s := by
  induction passes generalizing lo hi with
  | zero => exact ⟨none, by omega, fun s h => by cases h⟩
  | succ passes ih =>
      rw [lookupLoop]
      split
      · rename_i hle
        have hmid : ((lo + hi) / 2).toNat < tagArray.length := by omega
        dsimp only
        rw [List.getElem?_eq_getElem hmid]
        dsimp only
        split
        · obtain ⟨r, hr, hfound⟩ := ih ((lo + hi) / 2 + 1) hi (by omega) (by omega) hhi (by omega)
          refine ⟨r, hr, fun s hs => ?_⟩
          obtain ⟨i, hi', hmin, hmax, hentry⟩ := hfound s hs
          exact ⟨i, hi', by omega, hmax, hentry⟩
        · split
          · obtain ⟨r, hr, hfound⟩ := ih lo ((lo + hi) / 2 - 1) hlo (by omega) (by omega) (by omega)
            refine ⟨r, hr, fun s hs => ?_⟩
            obtain ⟨i, hi', hmin, hmax, hentry⟩ := hfound s hs
            exact ⟨i, hi', hmin, by omega, hentry⟩
          · rename_i hlt hgt
            refine ⟨_, rfl, fun s hs => ⟨_, hmid, by omega, by omega, ?_, Option.some.inj hs⟩⟩
            exact indexDifference_eq_zero.mp (by omega)
      · exact ⟨none, rfl, fun s h => by cases h⟩

theorem lookupLoop_found {tagArray : List EventTag} {tag : UInt32} {passes : Nat} {lo hi : Int}
    {s : Nat} (h : lookupLoop tagArray tag passes lo hi = some (some s)) (hlo : 0 ≤ lo)
    (hle : lo ≤ hi + 1) (hhi : hi < tagArray.length) (hpasses : hi - lo + 1 < passes) :
    ∃ (i : Nat) (hi' : i < tagArray.length),
      lo ≤ i ∧ i ≤ hi ∧ tagArray[i].tagIndex = tag ∧ tagArray[i].tagStr = s := by
  obtain ⟨r, hr, hfound⟩ := lookupLoop_returns tagArray tag passes lo hi hlo hle hhi hpasses
  exact hfound s (Option.some.inj (hr.symm.trans h))

/-- Each entry is less than those behind it, and they are greater. -/
def Separated (sorted : List EventTag) : Prop :=
  sorted.Pairwise fun a b => compareEventTags a b < 0 ∧ 0 < compareEventTags b a

theorem lookupLoop_finds {sorted : List EventTag} (h : Separated sorted) {k : Nat}
    (hk : k < sorted.length) {passes : Nat} {lo hi : Int} (hlo : 0 ≤ lo) (hmin : lo ≤ k)
    (hmax : k ≤ hi) (hhi : hi < sorted.length) (hpasses : hi - lo + 1 < passes) :
    lookupLoop sorted sorted[k].tagIndex passes lo hi = some (some sorted[k].tagStr) := by
  induction passes generalizing lo hi with
  | zero => omega
  | succ passes ih =>
      have hmid : ((lo + hi) / 2).toNat < sorted.length := by omega
      rw [lookupLoop, if_pos (by omega)]
      dsimp only
      rw [List.getElem?_eq_getElem hmid]
      dsimp only
      rcases Nat.lt_trichotomy ((lo + hi) / 2).toNat k with hlt | heq | hgt
      · have hneg := (List.pairwise_iff_getElem.mp h _ _ hmid hk hlt).1
        rw [compareEventTags] at hneg
        rw [if_pos hneg]
        exact ih (by omega) (by omega) hmax hhi (by omega)
      · simp only [heq, indexDifference_eq_zero.mpr]
        rfl
      · have hpos := (List.pairwise_iff_getElem.mp h _ _ hk hmid hgt).2
        rw [compareEventTags] at hpos
        rw [if_neg (Int.not_lt.mpr (Int.le_of_lt hpos)), if_pos hpos]
        exact ih hlo hmin (by omega) (by omega) (by omega)

/-! ## The entries in order -/

theorem compareEventTags_ne_zero {a b : EventTag} (h : a.tagIndex ≠ b.tagIndex) :
    compareEventTags a b ≠ 0 :=
  fun hzero => h (indexDifference_eq_zero.mp hzero)

theorem ne_of_nodup {l : List EventTag} (h : (l.map (·.tagIndex)).Nodup) :
    l.Pairwise fun a b => a.tagIndex ≠ b.tagIndex :=
  List.pairwise_map.mp h

theorem separated_of_ordered {tags sorted : List EventTag} (horder : OrdersTags tags)
    (h : QsortResult tags sorted) (hnodup : (tags.map (·.tagIndex)).Nodup) :
    Separated sorted := by
  have hnodup' : (sorted.map (·.tagIndex)).Nodup := (h.perm.map _).nodup_iff.mpr hnodup
  have hstrict : sorted.Pairwise fun a b => compareEventTags a b < 0 :=
    ((h.ordered horder).and (ne_of_nodup hnodup')).imp fun ⟨hle, hne⟩ =>
      lt_of_le_of_ne hle (compareEventTags_ne_zero hne)
  refine hstrict.imp_of_mem fun {a b} ha hb hlt => ⟨hlt, ?_⟩
  exact horder.asymm a (h.perm.mem_iff.mp ha) b (h.perm.mem_iff.mp hb) hlt

/-- Where the comparison is an order, the same numbers become neighbours. -/
theorem nodup_of_not_hasDuplicate {tags sorted : List EventTag} (horder : OrdersTags tags)
    (hmem : ∀ e ∈ sorted, e ∈ tags)
    (hsorted : sorted.Pairwise fun a b => compareEventTags a b ≤ 0)
    (hdup : hasDuplicate sorted = false) : (sorted.map (·.tagIndex)).Nodup := by
  induction sorted with
  | nil => exact List.nodup_nil
  | cons a rest ih =>
      cases rest with
      | nil => exact List.nodup_singleton _
      | cons b rest =>
          simp only [hasDuplicate, Bool.or_eq_false_iff, beq_eq_false_iff_ne] at hdup
          obtain ⟨hhead, htail⟩ := List.pairwise_cons.mp hsorted
          have hrest := ih (fun e he => hmem e (List.mem_cons_of_mem a he)) htail hdup.2
          refine List.nodup_cons.mpr ⟨fun hsame => ?_, hrest⟩
          obtain ⟨c, hc, heq⟩ := List.mem_map.mp hsame
          have hlt : compareEventTags a b < 0 := lt_of_le_of_ne
            (hhead b List.mem_cons_self) (compareEventTags_ne_zero hdup.1.symm)
          have hgt : 0 < compareEventTags b a := horder.asymm a (hmem a List.mem_cons_self) b
            (hmem b (List.mem_cons_of_mem a List.mem_cons_self)) hlt
          rcases List.mem_cons.mp hc with rfl | hc
          · exact hdup.1 heq
          · have hle := (List.pairwise_cons.mp htail).1 c hc
            rw [compareEventTags, heq] at hle
            exact absurd hgt (Int.not_lt.mpr hle)

theorem hasDuplicate_of_not_nodup {tags sorted : List EventTag} (horder : OrdersTags tags)
    (h : QsortResult tags sorted) (hsame : ¬ (tags.map (·.tagIndex)).Nodup) :
    hasDuplicate sorted = true := by
  by_contra hdup
  refine hsame ((h.perm.map _).nodup_iff.mp ?_)
  exact nodup_of_not_hasDuplicate horder (fun e he => h.perm.mem_iff.mp he) (h.ordered horder)
    (Bool.eq_false_iff.mpr hdup)

/-- What an order of the entries has to give for the lookups. -/
def Finds (sorted : List EventTag) : Prop :=
  ∀ e ∈ sorted, android_lookupEventTag sorted e.tagIndex = some (some e.tagStr)

theorem finds_of_separated {sorted : List EventTag} (h : Separated sorted) : Finds sorted := by
  intro e he
  obtain ⟨k, hk, rfl⟩ := List.mem_iff_getElem.mp he
  exact lookupLoop_finds h hk (Int.le_refl 0) (by omega) (by omega) (by omega) (by omega)

/-- Two entries are looked up without an order, if the first is not greater. -/
theorem finds_pair {a b : EventTag} (h : compareEventTags a b < 0) : Finds [a, b] := by
  have hself (x : UInt32) : indexDifference x x = 0 := indexDifference_eq_zero.mpr rfl
  intro e he
  rw [compareEventTags] at h
  rcases List.mem_pair.mp he with rfl | rfl
  · simp [android_lookupEventTag, lookupLoop, hself]
  · simp [android_lookupEventTag, lookupLoop, hself, h]

theorem ordersTags_pair {a b : EventTag} (h : 0 < compareEventTags a b) : OrdersTags [a, b] := by
  have hneg : compareEventTags b a < 0 := indexDifference_pos_swap h
  have hself (e : EventTag) : compareEventTags e e = 0 := indexDifference_eq_zero.mpr rfl
  constructor
  · intro x hx y hy hxy
    rcases List.mem_pair.mp hx with rfl | rfl <;> rcases List.mem_pair.mp hy with rfl | rfl <;>
      grind
  · intro x hx y hy z hz hxy hyz
    rcases List.mem_pair.mp hx with rfl | rfl <;> rcases List.mem_pair.mp hy with rfl | rfl <;>
      rcases List.mem_pair.mp hz with rfl | rfl <;> grind

/-- With two entries at most each is found. -/
theorem finds_of_length_le {tags sorted : List EventTag} (h : QsortResult tags sorted)
    (hnodup : (tags.map (·.tagIndex)).Nodup) (hlen : tags.length ≤ 2) : Finds sorted := by
  have hlen' : sorted.length ≤ 2 := h.perm.length_eq ▸ hlen
  have hne := ne_of_nodup ((h.perm.map _).nodup_iff.mpr hnodup)
  match sorted, hlen' with
  | [], _ => exact fun e he => absurd he List.not_mem_nil
  | [a], _ => exact finds_of_separated (List.pairwise_singleton _ _)
  | [a, b], _ =>
      have hab : a.tagIndex ≠ b.tagIndex := (List.pairwise_cons.mp hne).1 b List.mem_cons_self
      rcases Int.lt_trichotomy (compareEventTags a b) 0 with hlt | heq | hgt
      · exact finds_pair hlt
      · exact absurd heq (compareEventTags_ne_zero hab)
      · have horder : OrdersTags tags := by
          have hpair := ordersTags_pair hgt
          exact ⟨fun x hx y hy => hpair.asymm x (h.perm.mem_iff.mpr hx) y (h.perm.mem_iff.mpr hy),
            fun x hx y hy z hz => hpair.trans x (h.perm.mem_iff.mpr hx) y
              (h.perm.mem_iff.mpr hy) z (h.perm.mem_iff.mpr hz)⟩
        exact finds_of_separated (separated_of_ordered horder h hnodup)

/-! ## The entries in no order -/

/-- An entry on the wrong side of the middle is not found. -/
theorem not_finds {sorted : List EventTag} (hnodup : (sorted.map (·.tagIndex)).Nodup) {m k : Nat}
    (hm : m = (sorted.length - 1) / 2) (hlt : m < sorted.length) (hk : k < sorted.length)
    (hside : (k < m ∧ compareEventTags sorted[m] sorted[k] < 0) ∨
      (m < k ∧ 0 < compareEventTags sorted[m] sorted[k])) : ¬ Finds sorted := by
  intro hfinds
  have hne := List.pairwise_iff_getElem.mp (ne_of_nodup hnodup)
  have hmid : (0 + ((sorted.length : Int) - 1)) / 2 = m := by omega
  have hlookup := hfinds sorted[k] (List.getElem_mem hk)
  rw [android_lookupEventTag, lookupLoop, if_pos (by omega)] at hlookup
  dsimp only at hlookup
  rw [hmid, Int.toNat_natCast, List.getElem?_eq_getElem hlt] at hlookup
  dsimp only at hlookup
  rcases hside with ⟨hbefore, hneg⟩ | ⟨hbehind, hpos⟩
  · rw [compareEventTags] at hneg
    rw [if_pos hneg] at hlookup
    obtain ⟨i, hi, hmin, -, hsame, -⟩ :=
      lookupLoop_found hlookup (by omega) (by omega) (by omega) (by omega)
    exact hne k i hk hi (by omega) hsame.symm
  · rw [compareEventTags] at hpos
    rw [if_neg (Int.not_lt.mpr (Int.le_of_lt hpos)), if_pos hpos] at hlookup
    obtain ⟨i, hi, -, hmax, hsame, -⟩ :=
      lookupLoop_found hlookup (by omega) (by omega) (by omega) (by omega)
    exact hne i k hi hk (by omega) hsame

/-- Three entries or more have an order in which one of them is not found. -/
theorem exists_perm_not_finds {tags : List EventTag} (hnodup : (tags.map (·.tagIndex)).Nodup)
    (hlen : 2 < tags.length) : ∃ sorted : List EventTag, sorted.Perm tags ∧ ¬ Finds sorted := by
  match tags, hlen with
  | a :: b :: others, hlen =>
      have hothers : 1 ≤ others.length := by
        rw [List.length_cons, List.length_cons] at hlen
        omega
      have hne : a.tagIndex ≠ b.tagIndex :=
        (List.pairwise_cons.mp (ne_of_nodup hnodup)).1 b List.mem_cons_self
      obtain ⟨m, hm⟩ : ∃ m, m = (others.length + 1) / 2 := ⟨_, rfl⟩
      rcases Int.lt_trichotomy (compareEventTags a b) 0 with hneg | heq | hpos
      · -- the second entry in front, and the first one in the middle
        have hperm : (b :: others.take (m - 1) ++ a :: others.drop (m - 1)).Perm
            (a :: b :: others) := by
          refine List.perm_middle.trans (List.Perm.cons a ?_)
          rw [List.cons_append, List.take_append_drop]
        have htake : (others.take (m - 1)).length = m - 1 := by
          rw [List.length_take, Nat.min_eq_left (by omega)]
        have hlength := hperm.length_eq
        simp only [List.length_cons] at hlength
        refine ⟨_, hperm, not_finds ((hperm.map _).nodup_iff.mpr hnodup) (m := m) (k := 0)
          (by omega) (by omega) (by omega) (.inl ⟨by omega, ?_⟩)⟩
        rw [List.getElem_append_right (by rw [List.length_cons]; omega)]
        simp only [List.length_cons, htake, show m - (m - 1 + 1) = 0 by omega,
          List.getElem_cons_zero, List.cons_append]
        exact hneg
      · exact absurd heq (compareEventTags_ne_zero hne)
      · -- the first entry in the middle, and the second one behind it
        have hperm : (others.take m ++ a :: b :: others.drop m).Perm (a :: b :: others) := by
          refine List.perm_middle.trans (List.Perm.cons a ?_)
          refine List.perm_middle.trans (List.Perm.cons b ?_)
          rw [List.take_append_drop]
        have htake : (others.take m).length = m := by
          rw [List.length_take, Nat.min_eq_left (by omega)]
        have hlength := hperm.length_eq
        simp only [List.length_cons] at hlength
        refine ⟨_, hperm, not_finds ((hperm.map _).nodup_iff.mpr hnodup) (m := m) (k := m + 1)
          (by omega) (by omega) (by omega) (.inr ⟨by omega, ?_⟩)⟩
        rw [List.getElem_append_right (by omega), List.getElem_append_right (by omega)]
        simp only [htake, Nat.sub_self, Nat.add_sub_cancel_left, List.getElem_cons_zero,
          List.getElem_cons_succ]
        exact hpos

/-! ## The promise -/

theorem android_lookupEventTag_returns (sorted : List EventTag) (tag : UInt32) :
    ∃ r, android_lookupEventTag sorted tag = some r ∧
      ∀ s, r = some s → ∃ e ∈ sorted, e.tagIndex = tag := by
  obtain ⟨r, hr, hfound⟩ := lookupLoop_returns sorted tag (sorted.length + 1) 0
    (sorted.length - 1) (Int.le_refl 0) (by omega) (by omega) (by omega)
  refine ⟨r, hr, fun s hs => ?_⟩
  obtain ⟨i, hi, -, -, hsame, -⟩ := hfound s hs
  exact ⟨sorted[i], List.getElem_mem hi, hsame⟩

theorem sortTags_eq_some {qsort : List EventTag → List EventTag} {tags sorted : List EventTag} :
    sortTags qsort tags = some sorted ↔ qsort tags = sorted ∧ hasDuplicate sorted = false := by
  unfold sortTags
  dsimp only
  split
  · rename_i hdup
    refine ⟨fun h => (by cases h), fun ⟨heq, hno⟩ => ?_⟩
    rw [heq, hno] at hdup
    cases hdup
  · rename_i hdup
    rw [Option.some.injEq]
    exact ⟨fun heq => ⟨heq, heq ▸ Bool.eq_false_iff.mpr hdup⟩, fun h => h.1⟩

theorem not_hasDuplicate_of_nodup {sorted : List EventTag}
    (h : (sorted.map (·.tagIndex)).Nodup) : hasDuplicate sorted = false := by
  induction sorted with
  | nil => rfl
  | cons a rest ih =>
      cases rest with
      | nil => rfl
      | cons b rest =>
          obtain ⟨hhead, htail⟩ := List.nodup_cons.mp h
          have hne : b.tagIndex ≠ a.tagIndex := fun heq =>
            hhead (List.mem_map.mpr ⟨b, List.mem_cons_self, heq⟩)
          rw [hasDuplicate, ih htail, Bool.or_false, beq_eq_false_iff_ne]
          exact hne

/-- The lookups give what the lines say, and repeated numbers are rejected, exactly when the
comparison is a total order on the entries, or the order does not matter. -/
theorem looksUp_iff (tags : List EventTag) : LooksUp tags ↔ Suits tags := by
  constructor
  · intro h
    by_cases horder : OrdersTags tags
    · exact .inl horder
    by_cases hnodup : (tags.map (·.tagIndex)).Nodup
    · refine .inr (.inl ⟨hnodup, Nat.not_lt.mp fun hlen => ?_⟩)
      obtain ⟨sorted, hperm, hnot⟩ := exists_perm_not_finds hnodup hlen
      refine hnot fun e he => ?_
      have hdup := not_hasDuplicate_of_nodup ((hperm.map (·.tagIndex)).nodup_iff.mpr hnodup)
      have hresult := h (fun _ => sorted) ⟨hperm, fun hord => absurd hord horder⟩
      exact (hresult.1 hnodup sorted (sortTags_eq_some.mpr ⟨rfl, hdup⟩) e.tagIndex).1 e
        (hperm.mem_iff.mp he) rfl
    · refine .inr (.inr ⟨hnodup, fun sorted hperm => ?_⟩)
      have hresult := h (fun _ => sorted) ⟨hperm, fun hord => absurd hord horder⟩
      by_contra hdup
      have hsome : sortTags (fun _ => sorted) tags = some sorted :=
        sortTags_eq_some.mpr ⟨rfl, Bool.eq_false_iff.mpr hdup⟩
      rw [hresult.2 hnodup] at hsome
      cases hsome
  · intro h qsort hqsort
    refine ⟨fun hnodup sorted hsorted tag => ?_, fun hsame => ?_⟩
    · obtain ⟨rfl, -⟩ := sortTags_eq_some.mp hsorted
      have hfinds : Finds (qsort tags) := by
        rcases h with horder | ⟨-, hlen⟩ | ⟨hnot, -⟩
        · exact finds_of_separated (separated_of_ordered horder hqsort hnodup)
        · exact finds_of_length_le hqsort hnodup hlen
        · exact absurd hnodup hnot
      refine ⟨fun e he heq => ?_, fun habsent => ?_⟩
      · exact heq ▸ hfinds e (hqsort.perm.mem_iff.mpr he)
      · obtain ⟨r, hr, hfound⟩ := android_lookupEventTag_returns (qsort tags) tag
        cases r with
        | none => exact hr
        | some s =>
            obtain ⟨e, he, heq⟩ := hfound s rfl
            exact absurd heq (habsent e (hqsort.perm.mem_iff.mp he))
    · have hdup : hasDuplicate (qsort tags) = true := by
        rcases h with horder | ⟨hnodup, -⟩ | ⟨-, hall⟩
        · exact hasDuplicate_of_not_nodup horder hqsort hsame
        · exact absurd hnodup hsame
        · exact hall _ hqsort.perm
      rw [sortTags]
      exact if_pos hdup

/-! ## Files -/

/-- The promise for a file whose lines give these entries. -/
def FileLooksUp (ulongMax : Nat) (map : List UInt8) (tags : List EventTag) : Prop :=
  ∀ granted qsort, QsortResult tags (qsort tags) →
    ((tags.map (·.tagIndex)).Nodup → ∀ newTagMap,
      processFile ulongMax granted qsort map = .ok newTagMap → ∀ tag,
        (∀ e ∈ tags, e.tagIndex = tag →
          android_lookupEventTag newTagMap.tagArray tag = some (some e.tagStr)) ∧
        ((∀ e ∈ tags, e.tagIndex ≠ tag) →
          android_lookupEventTag newTagMap.tagArray tag = some none)) ∧
    (¬ (tags.map (·.tagIndex)).Nodup →
      processFile ulongMax granted qsort map = .error .failed)

theorem processFile_parsed {ulongMax : Nat} {map mapAddr : List UInt8} {tags : List EventTag}
    (h : parseMapLines ulongMax (countMapLines map) map = .ok (tags, mapAddr))
    (qsort : List EventTag → List EventTag) :
    processFile ulongMax true qsort map =
      (sortTags qsort tags).elim (.error .failed) fun tagArray => .ok ⟨mapAddr, tagArray⟩ := by
  rw [processFile, if_pos rfl]
  simp only [h]
  cases sortTags qsort tags with
  | none => rfl
  | some tagArray => rfl

theorem fileLooksUp_iff {ulongMax : Nat} {map mapAddr : List UInt8} {tags : List EventTag}
    (h : parseMapLines ulongMax (countMapLines map) map = .ok (tags, mapAddr)) :
    FileLooksUp ulongMax map tags ↔ Suits tags := by
  rw [← looksUp_iff]
  constructor
  · intro hfile qsort hqsort
    obtain ⟨hdistinct, hsame⟩ := hfile true qsort hqsort
    rw [processFile_parsed h] at hdistinct hsame
    refine ⟨fun hnodup sorted hsorted => ?_, fun hnot => ?_⟩
    · exact hdistinct hnodup ⟨mapAddr, sorted⟩ (by rw [hsorted, Option.elim_some])
    · cases hsorted : sortTags qsort tags with
      | none => rfl
      | some sorted =>
          have hfailed := hsame hnot
          rw [hsorted] at hfailed
          cases hfailed
  · intro hlooks granted qsort hqsort
    obtain ⟨hdistinct, hsame⟩ := hlooks qsort hqsort
    cases granted with
    | false => exact ⟨fun _ _ hok => (by cases hok), fun _ => rfl⟩
    | true =>
        rw [processFile_parsed h]
        refine ⟨fun hnodup newTagMap hok => ?_, fun hnot => by rw [hsame hnot, Option.elim_none]⟩
        cases hsorted : sortTags qsort tags with
        | none =>
            rw [hsorted] at hok
            cases hok
        | some sorted =>
            rw [hsorted] at hok
            obtain rfl := Except.ok.inj hok
            exact hdistinct hnodup sorted hsorted

/-- The file `7 a`, `3 b`, `5 c`. -/
theorem fileLooksUp_three : FileLooksUp 4294967295
    [55, 32, 97, 10, 51, 32, 98, 10, 53, 32, 99, 10] [⟨7, 2⟩, ⟨3, 6⟩, ⟨5, 10⟩] := by
  have hparse : parseMapLines 4294967295 3 [55, 32, 97, 10, 51, 32, 98, 10, 53, 32, 99, 10] =
      .ok ([⟨7, 2⟩, ⟨3, 6⟩, ⟨5, 10⟩], [55, 0, 97, 0, 51, 0, 98, 0, 53, 0, 99, 0]) := by decide
  exact (fileLooksUp_iff hparse).mpr (.inl ⟨by decide, by decide⟩)

/-- The file `2147483648 a`, `0 b`, `1 c`: each number is less than the next one, and the first
is not found. -/
theorem first_of_three_lost :
    parseMapLines 4294967295 3 [50, 49, 52, 55, 52, 56, 51, 54, 52, 56, 32, 97, 10, 48, 32, 98, 10,
      49, 32, 99, 10] = .ok ([⟨2147483648, 11⟩, ⟨0, 15⟩, ⟨1, 19⟩], [50, 49, 52, 55, 52, 56, 51, 54,
      52, 56, 0, 97, 0, 48, 0, 98, 0, 49, 0, 99, 0]) ∧
    [⟨2147483648, 11⟩, ⟨0, 15⟩, ⟨1, 19⟩].IsChain (fun a b => compareEventTags a b < 0) ∧
    ¬ FileLooksUp 4294967295 [50, 49, 52, 55, 52, 56, 51, 54, 52, 56, 32, 97, 10, 48, 32, 98, 10,
      49, 32, 99, 10] [⟨2147483648, 11⟩, ⟨0, 15⟩, ⟨1, 19⟩] := by
  refine ⟨by decide, by decide, fun h => ?_⟩
  have horder : ¬ OrdersTags [⟨2147483648, 11⟩, ⟨0, 15⟩, ⟨1, 19⟩] := fun horder =>
    absurd (horder.asymm ⟨2147483648, 11⟩ (by decide) ⟨0, 15⟩ (by decide) (by decide)) (by decide)
  have hfound := (h true (fun tags => tags) ⟨List.Perm.refl _, fun hord => absurd hord horder⟩).1
    (by decide) _ rfl 2147483648
  exact absurd (hfound.1 ⟨2147483648, 11⟩ (by decide) rfl) (by decide)

end EventTags
end Logcat
end AndroidLinux
