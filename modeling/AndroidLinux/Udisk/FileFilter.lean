import AndroidLinux.Udisk.FileList

/-!
# The extensions of a file filter

A filter is the text of a list of extensions, each with the separators behind it.
`UDISK_CheckFILTER` goes from one `'.'` of the text to the next and compares as many
characters as the suffix of the file name has, so that it finds the suffix where an
extension, or an extension with its separators, begins with it.
-/

namespace AndroidLinux
namespace Udisk

/-- An extension of a filter with the separators behind it.  Which characters are separators
is up to the filter; a `'.'` is none. -/
structure FilterItem (isSeparator : UInt8 → Bool) where
  name : List UInt8
  gap : List UInt8
  nameOk : ∀ b ∈ name, b ≠ dot ∧ isSeparator b = false
  gapOk : ∀ b ∈ gap, b ≠ dot ∧ isSeparator b = true

variable {isSeparator : UInt8 → Bool}

namespace FilterItem

/-- The extension, from its `'.'` on. -/
def extension (e : FilterItem isSeparator) : List UInt8 := dot :: e.name

/-- All that stands in front of the next `'.'`. -/
def text (e : FilterItem isSeparator) : List UInt8 := e.extension ++ e.gap

theorem text_eq (e : FilterItem isSeparator) : e.text = dot :: (e.name ++ e.gap) := rfl

theorem dot_notMem (e : FilterItem isSeparator) : dot ∉ e.name ++ e.gap := fun h =>
  (List.mem_append.mp h).elim (fun h => (e.nameOk dot h).1 rfl) fun h => (e.gapOk dot h).1 rfl

end FilterItem

/-- The text of a filter. -/
def filterText (items : List (FilterItem isSeparator)) : List UInt8 :=
  items.flatMap FilterItem.text

/-- `".*"`. -/
def everyFile : List UInt8 := [dot, 42]

/-- What is compared of a character. -/
def foldCase (caseCare : Bool) (b : UInt8) : UInt8 := if caseCare then b else toLower b

/-- The suffix is one of the extensions. -/
def Listed (caseCare : Bool) (pSuffix : List UInt8) (items : List (FilterItem isSeparator)) :
    Prop :=
  ∃ e ∈ items, pSuffix.map (foldCase caseCare) = e.extension.map (foldCase caseCare)

/-- An extension with the separators behind it begins with the suffix. -/
def BeginsOne (caseCare : Bool) (pSuffix : List UInt8) (items : List (FilterItem isSeparator)) :
    Prop :=
  ∃ e ∈ items, pSuffix.map (foldCase caseCare) <+: e.text.map (foldCase caseCare)

instance (caseCare : Bool) (pSuffix : List UInt8) (items : List (FilterItem isSeparator)) :
    Decidable (Listed caseCare pSuffix items) :=
  inferInstanceAs (Decidable (∃ e ∈ items, _))

instance (caseCare : Bool) (pSuffix : List UInt8) (items : List (FilterItem isSeparator)) :
    Decidable (BeginsOne caseCare pSuffix items) :=
  inferInstanceAs (Decidable (∃ e ∈ items, _))

/-- The file is found exactly when all files are asked for or its suffix is listed. -/
def FiltersWhole (opt : ScanOpt) (filename : List UInt8)
    (items : List (FilterItem isSeparator)) : Prop :=
  udiskCheckFilter { opt with pFileFilter := some (filterText items) } filename = true ↔
    filterText items = everyFile ∨ ∃ pSuffix, strrchr dot filename = some pSuffix ∧
      Listed (opt.has udiskFltCasecare) pSuffix items

/-! ## The loop -/

theorem foldCase_eq_dot {caseCare : Bool} {b : UInt8} : foldCase caseCare b = dot ↔ b = dot := by
  cases caseCare with
  | true => exact Iff.rfl
  | false =>
      unfold foldCase toLower dot
      simp only [Bool.false_eq_true, if_false, UInt8.le_iff_toNat_le, ← UInt8.toNat_inj]
      split
      · rename_i hupper
        rw [UInt8.toNat_add]
        simp only [UInt8.toNat_ofNat] at hupper ⊢
        omega
      · exact Iff.rfl

theorem dot_notMem_map {caseCare : Bool} {bs : List UInt8} :
    dot ∉ bs.map (foldCase caseCare) ↔ dot ∉ bs := by
  simp only [List.mem_map, foldCase_eq_dot, exists_eq_right]

/-- A character that occurs is found. -/
theorem strrchr_ne_none {c : UInt8} {s : List UInt8} (hin : c ∈ s) : strrchr c s ≠ none := by
  intro h
  induction s with
  | nil => cases hin
  | cons b bs ih =>
      rw [strrchr] at h
      cases hrest : strrchr c bs with
      | some rest =>
          rw [hrest] at h
          cases h
      | none =>
          rw [hrest] at h
          dsimp only at h
          rcases List.mem_cons.mp hin with rfl | hin
          · rw [if_pos rfl] at h
            cases h
          · exact ih hin hrest

/-- What `strrchr` returns has its character in front and nowhere else. -/
theorem strrchr_spec {c : UInt8} {s r : List UInt8} (h : strrchr c s = some r) :
    ∃ t, r = c :: t ∧ c ∉ t := by
  induction s with
  | nil => cases h
  | cons b bs ih =>
      rw [strrchr] at h
      cases hrest : strrchr c bs with
      | some rest =>
          rw [hrest] at h
          exact ih (hrest.trans h)
      | none =>
          rw [hrest] at h
          dsimp only at h
          split at h
          · rename_i hb
            obtain rfl := Option.some.inj h
            refine ⟨bs, by rw [hb], fun hin => ?_⟩
            exact strrchr_ne_none hin hrest
          · cases h

/-- The comparison at one place of the filter. -/
theorem take_eq_iff {caseCare : Bool} {pSuffix s : List UInt8} :
    (s.take pSuffix.length).map (foldCase caseCare) = pSuffix.map (foldCase caseCare) ↔
      pSuffix.map (foldCase caseCare) <+: s.map (foldCase caseCare) := by
  rw [List.prefix_iff_eq_take, List.length_map, List.map_take]
  exact eq_comm

theorem checkFilterLoop_cons (caseCare : Bool) (pSuffix : List UInt8) (b : UInt8)
    (bs : List UInt8) : checkFilterLoop caseCare pSuffix (b :: bs) = true ↔
      (b = dot ∧ pSuffix.map (foldCase caseCare) <+: (b :: bs).map (foldCase caseCare)) ∨
        checkFilterLoop caseCare pSuffix bs = true := by
  have hsame : (if caseCare then (b :: bs).take pSuffix.length == pSuffix
      else ((b :: bs).take pSuffix.length).map toLower == pSuffix.map toLower) = true ↔
      pSuffix.map (foldCase caseCare) <+: (b :: bs).map (foldCase caseCare) := by
    rw [← take_eq_iff]
    cases caseCare with
    | true =>
        have hid : foldCase true = id := rfl
        rw [if_pos rfl, beq_iff_eq, hid, List.map_id, List.map_id]
    | false =>
        have hlower : foldCase false = toLower := rfl
        rw [if_neg Bool.false_ne_true, beq_iff_eq, hlower]
  by_cases hhere : b = dot ∧ pSuffix.map (foldCase caseCare) <+: (b :: bs).map (foldCase caseCare)
  · rw [checkFilterLoop, if_pos ⟨hhere.1, hsame.mpr hhere.2⟩]
    exact iff_of_true rfl (.inl hhere)
  · rw [checkFilterLoop, if_neg fun h => hhere ⟨h.1, hsame.mp h.2⟩]
    exact ⟨.inr, fun h => h.resolve_left hhere⟩

/-- There is nothing to compare between two dots. -/
theorem checkFilterLoop_append {bs : List UInt8} (hdot : dot ∉ bs) (caseCare : Bool)
    (pSuffix rest : List UInt8) :
    checkFilterLoop caseCare pSuffix (bs ++ rest) = checkFilterLoop caseCare pSuffix rest := by
  induction bs with
  | nil => rfl
  | cons b bs ih =>
      obtain ⟨hb, hbs⟩ := not_or.mp (mt List.mem_cons.mpr hdot)
      rw [Bool.eq_iff_iff, List.cons_append, checkFilterLoop_cons, ih hbs]
      exact ⟨fun h => h.resolve_left fun h => hb h.1.symm, .inr⟩

/-- A suffix reaches no further than the next `'.'`. -/
theorem prefix_append_iff {c : UInt8} {t a r : List UInt8} (ht : c ∉ t)
    (hr : ∀ b ∈ r.head?, b = c) : c :: t <+: c :: a ++ r ↔ c :: t <+: c :: a := by
  rw [List.cons_append, List.prefix_cons_inj, List.prefix_cons_inj]
  refine ⟨fun h => ?_, fun h => h.trans (List.prefix_append a r)⟩
  rcases List.prefix_or_prefix_of_prefix h (List.prefix_append a r) with hin | ⟨u, rfl⟩
  · exact hin
  · have hu := (List.prefix_append_right_inj a).mp h
    cases u with
    | nil => rw [List.append_nil]
    | cons b u =>
        obtain ⟨v, rfl⟩ := hu
        have hb : b = c := hr b rfl
        exact absurd (List.mem_append_right a (hb ▸ List.mem_cons_self)) ht

/-- The loop finds the suffix where the text of an item begins with it. -/
theorem checkFilterLoop_iff (caseCare : Bool) {pSuffix t : List UInt8}
    (hsuffix : pSuffix = dot :: t) (ht : dot ∉ t) (items : List (FilterItem isSeparator)) :
    checkFilterLoop caseCare pSuffix (filterText items) = true ↔
      BeginsOne caseCare pSuffix items := by
  induction items with
  | nil => exact iff_of_false Bool.false_ne_true fun ⟨e, he, _⟩ => by cases he
  | cons e items ih =>
      have hfold : foldCase caseCare dot = dot := foldCase_eq_dot.mpr rfl
      have hnext : ∀ b ∈ ((filterText items).map (foldCase caseCare)).head?, b = dot := by
        cases items with
        | nil =>
            intro b hb
            cases hb
        | cons e' items =>
            intro b hb
            rw [filterText, List.flatMap_cons, FilterItem.text_eq, List.cons_append, List.map_cons,
              hfold] at hb
            exact (Option.some.inj hb).symm
      have hhere : pSuffix.map (foldCase caseCare) <+:
            (e.text ++ filterText items).map (foldCase caseCare) ↔
          pSuffix.map (foldCase caseCare) <+: e.text.map (foldCase caseCare) := by
        rw [hsuffix, FilterItem.text_eq, List.map_append, List.map_cons, List.map_cons, hfold]
        exact prefix_append_iff (dot_notMem_map.mpr ht) hnext
      have htext : filterText (e :: items) = dot :: (e.name ++ e.gap ++ filterText items) := rfl
      rw [htext, checkFilterLoop_cons, checkFilterLoop_append e.dot_notMem, ih]
      constructor
      · rintro (⟨-, h⟩ | ⟨e', he', h⟩)
        · exact ⟨e, List.mem_cons_self, hhere.mp h⟩
        · exact ⟨e', List.mem_cons_of_mem e he', h⟩
      · rintro ⟨e', he', h⟩
        rcases List.mem_cons.mp he' with rfl | he'
        · exact .inl ⟨rfl, hhere.mpr h⟩
        · exact .inr ⟨e', he', h⟩

theorem Listed.beginsOne {caseCare : Bool} {pSuffix : List UInt8}
    {items : List (FilterItem isSeparator)} (h : Listed caseCare pSuffix items) :
    BeginsOne caseCare pSuffix items := by
  obtain ⟨e, he, heq⟩ := h
  refine ⟨e, he, ?_⟩
  rw [heq, FilterItem.text, List.map_append]
  exact List.prefix_append _ _

/-! ## What is found -/

/-- `UDISK_CheckFILTER` finds the files with a listed extension and no others exactly when no
extension, with its separators, begins with a suffix that is not listed itself. -/
theorem filters_whole_iff (opt : ScanOpt) (filename : List UInt8)
    (items : List (FilterItem isSeparator)) :
    FiltersWhole opt filename items ↔
      filterText items = everyFile ∨ ∀ pSuffix, strrchr dot filename = some pSuffix →
        BeginsOne (opt.has udiskFltCasecare) pSuffix items →
          Listed (opt.has udiskFltCasecare) pSuffix items := by
  unfold FiltersWhole udiskCheckFilter
  dsimp only
  by_cases hevery : filterText items = everyFile
  · have htest : filterText items = [dot, 42] := hevery
    rw [if_pos htest]
    exact iff_of_true (iff_of_true rfl (.inl hevery)) (.inl hevery)
  have htest : ¬ filterText items = [dot, 42] := hevery
  rw [if_neg htest]
  have hhas : ({ opt with pFileFilter := some (filterText items) } : ScanOpt).has
      udiskFltCasecare = opt.has udiskFltCasecare := rfl
  rw [hhas]
  generalize opt.has udiskFltCasecare = caseCare
  cases hlast : strrchr dot filename with
  | none =>
      have hno : ¬ ∃ pSuffix, none = some pSuffix ∧ Listed caseCare pSuffix items :=
        fun ⟨_, h, _⟩ => by cases h
      refine iff_of_true (iff_of_false Bool.false_ne_true fun h => ?_) (.inr fun _ h => by cases h)
      exact h.elim hevery hno
  | some pSuffix =>
      obtain ⟨t, hsuffix, ht⟩ := strrchr_spec hlast
      dsimp only
      rw [checkFilterLoop_iff caseCare hsuffix ht]
      constructor
      · intro h
        refine .inr fun pSuffix' hsame hbegins => ?_
        obtain rfl := Option.some.inj hsame
        obtain ⟨pSuffix', hsame, hlisted⟩ := (h.mp hbegins).resolve_left hevery
        obtain rfl := Option.some.inj hsame
        exact hlisted
      · intro h
        have hlisted := h.resolve_left hevery
        refine ⟨fun hbegins => .inr ⟨pSuffix, rfl, hlisted pSuffix rfl hbegins⟩, ?_⟩
        rintro (heq | ⟨pSuffix', hsame, hlisted'⟩)
        · exact absurd heq hevery
        · obtain rfl := Option.some.inj hsame
          exact hlisted'.beginsOne

def isComma (b : UInt8) : Bool := b = 44

/-- `".html"`. -/
def htmlFilter : FilterItem isComma where
  name := [104, 116, 109, 108]
  gap := []
  nameOk := by simp [dot, isComma]
  gapOk b hb := absurd hb List.not_mem_nil

/-- `"a.htm"`. -/
def htmFile : List UInt8 := [97, 46, 104, 116, 109]

/-- A scan that takes no account of the case. -/
def plainScan : ScanOpt := ⟨false, 0, none⟩

/-- A file is found whose suffix is only the beginning of the extension. -/
theorem htmFile_found : ¬ FiltersWhole plainScan htmFile [htmlFilter] := by
  intro h
  have hfound : udiskCheckFilter { plainScan with pFileFilter := some (filterText [htmlFilter]) }
      htmFile = true := by decide
  rcases h.mp hfound with hevery | ⟨pSuffix, hlast, hlisted⟩
  · exact absurd hevery (by decide)
  · have hsuffix : strrchr dot htmFile = some [46, 104, 116, 109] := by decide
    rw [hsuffix] at hlast
    obtain rfl := Option.some.inj hlast
    exact absurd hlisted (by decide)

end Udisk
end AndroidLinux
