import AndroidLinux.Udisk.FileListing

/-!
# Pages of a file list

`UDISK_ScanDirWithIndex` numbers the entries of the directory it is called for, but starts
again from zero in every subdirectory, with the number of the subdirectory as the start of
the page.  Its pages are slices of the enumeration exactly if no subdirectory has an entry to
list, and if the last page does not wrap.
-/

namespace AndroidLinux
namespace Udisk

/-- The candidates of a directory itself, without its subdirectories. -/
def ownCount (opt : ScanOpt) (pszDir : List UInt8) : Entries → Nat
  | .nil => 0
  | .cons dName dType _ _ rest =>
      ((plan opt pszDir dName dType).candidate pszDir dName).length + ownCount opt pszDir rest

/-- No subdirectory that is scanned has an entry to list, at any depth. -/
def Flat (opt : ScanOpt) (pszDir : List UInt8) : Entries → Prop
  | .nil => True
  | .cons dName dType opens sub rest =>
      ((plan opt pszDir dName dType).enters = true → opens = true →
        walk opt (subFilePath pszDir dName) sub = []) ∧ Flat opt pszDir rest

/-- The candidates from `index` on that are in a page. -/
def pageOf (start max : Nat) : Nat → List Candidate → List Candidate
  | _, [] => []
  | index, c :: cs =>
      if start ≤ index ∧ index ≤ max then c :: pageOf start max (index + 1) cs
      else pageOf start max (index + 1) cs

/-- A page is a slice. -/
theorem pageOf_eq_slice (start max index : Nat) (cs : List Candidate) :
    pageOf start max index cs =
      (cs.drop (start - index)).take (max + 1 - Nat.max start index) := by
  induction cs generalizing index with
  | nil => simp [pageOf]
  | cons c cs ih =>
      rw [pageOf, ih]
      by_cases hstart : start ≤ index
      · have hdrop : start - index = 0 := by omega
        have hdrop' : start - (index + 1) = 0 := by omega
        have hmax : Nat.max start index = index := Nat.max_eq_right hstart
        have hmax' : Nat.max start (index + 1) = index + 1 := Nat.max_eq_right (by omega)
        rw [hdrop, hdrop', hmax, hmax', List.drop_zero, List.drop_zero]
        by_cases hend : index ≤ max
        · have htake : max + 1 - index = max + 1 - (index + 1) + 1 := by omega
          rw [if_pos ⟨hstart, hend⟩, htake, List.take_succ_cons]
        · have htake : max + 1 - index = 0 := by omega
          have htake' : max + 1 - (index + 1) = 0 := by omega
          rw [if_neg (by omega), htake, htake', List.take_zero, List.take_zero]
      · have hdrop : start - index = start - (index + 1) + 1 := by omega
        have hmax : Nat.max start index = start := Nat.max_eq_left (by omega)
        have hmax' : Nat.max start (index + 1) = start := Nat.max_eq_left (by omega)
        rw [if_neg (by omega), hdrop, hmax, hmax', List.drop_succ_cons]

theorem ownCount_le (opt : ScanOpt) (entries : Entries) :
    ∀ pszDir, ownCount opt pszDir entries ≤ (walk opt pszDir entries).length := by
  induction entries with
  | nil => exact fun _ => le_rfl
  | cons dName dType opens sub rest _ ihRest =>
      intro pszDir
      have hrest := ihRest pszDir
      simp only [ownCount, walk, List.length_append]
      omega

/-- A subdirectory with an entry makes the enumeration longer. -/
theorem flat_iff (opt : ScanOpt) (entries : Entries) :
    ∀ pszDir, Flat opt pszDir entries ↔
      ownCount opt pszDir entries = (walk opt pszDir entries).length := by
  induction entries with
  | nil => exact fun _ => iff_of_true trivial rfl
  | cons dName dType opens sub rest _ ihRest =>
      intro pszDir
      have hrest := ownCount_le opt rest pszDir
      have hiff := ihRest pszDir
      simp only [Flat, ownCount, walk, List.length_append]
      cases henters : (plan opt pszDir dName dType).enters with
      | false =>
          simp only [Bool.false_eq_true, false_implies, true_and, Bool.false_and, if_false,
            List.length_nil, hiff]
          omega
      | true =>
          cases opens with
          | false =>
              simp only [Bool.false_eq_true, false_implies, implies_true, true_and,
                Bool.and_false, if_false, List.length_nil, hiff]
              omega
          | true =>
              simp only [forall_const, Bool.and_self, if_true, ← List.length_eq_zero_iff, hiff]
              omega

section Visits

variable {h : Host} (hq : h.Undisturbed)
include hq

/-- Where there is nothing to list, nothing is visited. -/
theorem visit_nil (opt : ScanOpt) (window : Nat → Nat → Bool) (entries : Entries) :
    ∀ (pszDir : List UInt8) (start index queries : Nat), walk opt pszDir entries = [] →
      (visit h opt window pszDir start index entries queries).1 = [] := by
  induction entries with
  | nil => exact fun _ _ _ _ _ => rfl
  | cons dName dType opens sub rest ihSub ihRest =>
      intro pszDir start index queries hwalk
      simp only [walk, List.append_eq_nil_iff] at hwalk
      obtain ⟨⟨hown, hbelow⟩, hrest⟩ := hwalk
      rw [visit, hq.interrupted, if_neg (by decide)]
      simp only [hown, ite_self, List.nil_append, ihRest _ _ _ _ hrest, List.append_nil]
      split
      · next hin =>
          rw [if_pos hin] at hbelow
          exact ihSub _ _ _ _ hbelow
      · rfl

/-- In a flat directory the page is found by the numbers of the entries. -/
theorem visit_flat (opt : ScanOpt) (u32FileCount : Nat) (entries : Entries) :
    ∀ (pszDir : List UInt8) (start index queries : Nat), Flat opt pszDir entries →
      index + (walk opt pszDir entries).length < 2 ^ 32 →
      (visit h opt (inPage u32FileCount) pszDir start index entries queries).1 =
        pageOf start ((start + u32FileCount + (2 ^ 32 - 1)) % 2 ^ 32) index
          (walk opt pszDir entries) := by
  induction entries with
  | nil => exact fun _ _ _ _ _ _ => rfl
  | cons dName dType opens sub rest _ ihRest =>
      intro pszDir start index queries hflat hlt
      -- the subdirectory neither lists anything nor counts
      have hbelow : (if (plan opt pszDir dName dType).enters && opens then
          walk opt (subFilePath pszDir dName) sub else []) = [] := by
        split
        · next hin =>
            rw [Bool.and_eq_true] at hin
            exact hflat.1 hin.1 hin.2
        · rfl
      have hvisit (n : Nat) : (if (plan opt pszDir dName dType).enters && opens then
          visit h opt (inPage u32FileCount) (subFilePath pszDir dName) n 0 sub (queries + 1)
          else ([], queries + 1)).1 = [] := by
        split
        · next hin =>
            rw [if_pos hin] at hbelow
            exact visit_nil hq opt _ sub _ _ _ _ hbelow
        · rfl
      rw [walk, hbelow, List.append_nil, List.length_append] at hlt
      rw [visit, hq.interrupted, if_neg (by decide), walk, hbelow, List.append_nil]
      simp only [hvisit, List.append_nil]
      cases hlists : (plan opt pszDir dName dType).lists with
      | none =>
          simp only [Plan.candidate, hlists, Option.isSome_none, Bool.false_eq_true, if_false,
            ite_self, List.nil_append, List.length_nil, Nat.zero_add] at hlt ⊢
          exact ihRest _ _ _ _ hflat.2 hlt
      | some k =>
          simp only [Plan.candidate, hlists, List.length_singleton] at hlt
          have hindex : (index + 1) % 2 ^ 32 = index + 1 := Nat.mod_eq_of_lt (by omega)
          simp only [Plan.candidate, hlists, Option.isSome_some, if_true, hindex,
            List.singleton_append, pageOf, ihRest _ _ (index + 1) _ hflat.2 (by omega)]
          by_cases hin : start ≤ index ∧
              index ≤ (start + u32FileCount + (2 ^ 32 - 1)) % 2 ^ 32
          · simp only [inPage, hin, decide_true, and_self, if_true, List.singleton_append]
          · simp only [inPage, hin, decide_false, Bool.false_eq_true, if_false,
              List.nil_append]

/-- A page that starts behind the entries of the directory itself does not depend on where
it starts. -/
theorem visit_behind (opt : ScanOpt) (u32FileCount : Nat) (entries : Entries) :
    ∀ (pszDir : List UInt8) (start start' index queries : Nat),
      index + ownCount opt pszDir entries < 2 ^ 32 →
      index + ownCount opt pszDir entries ≤ start →
      index + ownCount opt pszDir entries ≤ start' →
      visit h opt (inPage u32FileCount) pszDir start index entries queries =
        visit h opt (inPage u32FileCount) pszDir start' index entries queries := by
  induction entries with
  | nil => exact fun _ _ _ _ _ _ _ _ => rfl
  | cons dName dType opens sub rest _ ihRest =>
      intro pszDir start start' index queries hlt hstart hstart'
      rw [ownCount] at hlt hstart hstart'
      rw [visit, visit, hq.interrupted, if_neg (by decide)]
      cases hlists : (plan opt pszDir dName dType).lists with
      | none =>
          simp only [Plan.candidate, hlists, List.length_nil, Nat.zero_add] at hlt hstart hstart'
          simp only [Plan.candidate, hlists, ite_self, Option.isSome_none, Bool.false_eq_true,
            if_false, ihRest pszDir start start' index _ hlt hstart hstart']
      | some k =>
          simp only [Plan.candidate, hlists, List.length_singleton] at hlt hstart hstart'
          have hindex : (index + 1) % 2 ^ 32 = index + 1 := Nat.mod_eq_of_lt (by omega)
          -- the index is in front of both pages
          have hout : inPage u32FileCount start index = false := by
            simp only [inPage, decide_eq_false_iff_not]
            omega
          have hout' : inPage u32FileCount start' index = false := by
            simp only [inPage, decide_eq_false_iff_not]
            omega
          simp only [hlists, hout, hout', Bool.false_eq_true, if_false, Option.isSome_some,
            if_true, hindex,
            ihRest pszDir start start' (index + 1) _ (by omega) (by omega) (by omega)]

/-- Without an interrupt the loop ends with `HI_SUCCESS`. -/
theorem withIndexLoop_success (opt : ScanOpt) (u32FileCount : Nat) (entries : Entries) :
    ∀ (pszDir : List UInt8) (start index : Nat) (s : Scan),
      (withIndexLoop h opt u32FileCount pszDir start index entries s).1 = .success := by
  induction entries with
  | nil => exact fun _ _ _ _ => rfl
  | cons dName dType opens sub rest _ ihRest =>
      intro pszDir start index s
      rw [withIndexLoop, hq.interrupted]
      split
      · rfl
      · split
        · rfl
        · exact ihRest _ _ _ _

/-- The page that `HI_UDISK_GetFileListWithIndex` makes. -/
theorem page_files (opt : ScanOpt) (pszDir : List UInt8) (entries : Entries)
    (start : Nat) {u32FileCount : Nat} (hpos : 1 ≤ u32FileCount)
    (hle : u32FileCount ≤ udiskReserveMaxFileNum) :
    (hiUdiskGetFileListWithIndex h opt pszDir true entries start u32FileCount).2 =
      filesFrom h 0
        ((visit h opt (inPage u32FileCount) pszDir start 0 entries 0).1.take u32FileCount) := by
  have hfollows := (withIndexLoop_follows (h := h) opt u32FileCount entries pszDir start 0
    ⟨⟨[], 1, []⟩, 0⟩).list
  have hsuccess := withIndexLoop_success hq opt u32FileCount entries pszDir start 0
    ⟨⟨[], 1, []⟩, 0⟩
  have hproper := proper_visit h opt (inPage u32FileCount) entries pszDir start 0 0
  have hlimit : pageLimit u32FileCount = u32FileCount := Nat.min_eq_left hle
  have hcount : u32FileCount ≠ 0 := by omega
  simp only [hiUdiskGetFileListWithIndex, hcount, if_false, hq.malloc, Bool.true_eq_false,
    udiskScanDirWithIndex, if_true, hsuccess, hfollows, hlimit]
  rw [listAll_undisturbed hq hle _ hproper _ (Nat.zero_le _)]
  rfl

end Visits

/-! ## Pages and the full list -/

/-- The count, the list and every page agree with the enumeration of a directory. -/
structure PagesAgree (h : Host) (opt : ScanOpt) (pszDir : List UInt8) (opens : Bool)
    (entries : Entries) : Prop where
  count : (udiskScanDirForFileNum opt pszDir opens entries 0).2 =
    (enumeration opt pszDir opens entries).length
  list : (udiskScanDir h opt pszDir opens entries ⟨FileList.empty, 0⟩).2.list.files =
    filesFrom h 0 ((enumeration opt pszDir opens entries).take udiskReserveMaxFileNum)
  page : ∀ u32StartIndex u32FileCount, u32StartIndex < 2 ^ 32 → 1 ≤ u32FileCount →
    u32FileCount ≤ udiskReserveMaxFileNum →
    (hiUdiskGetFileListWithIndex h opt pszDir opens entries u32StartIndex u32FileCount).2 =
      filesFrom h 0
        (((enumeration opt pszDir opens entries).drop u32StartIndex).take u32FileCount)

section Pages

variable {h : Host} (hq : h.Undisturbed) {opt : ScanOpt} {pszDir : List UInt8}
  {entries : Entries}
include hq

/-- The pages of a flat directory that is not too long. -/
theorem page_of_flat (hflat : Flat opt pszDir entries)
    (hlen : (walk opt pszDir entries).length ≤ 2 ^ 32 - 2047) (start : Nat)
    (hstart : start < 2 ^ 32) {u32FileCount : Nat} (hpos : 1 ≤ u32FileCount)
    (hle : u32FileCount ≤ udiskReserveMaxFileNum) :
    (hiUdiskGetFileListWithIndex h opt pszDir true entries start u32FileCount).2 =
      filesFrom h 0 (((walk opt pszDir entries).drop start).take u32FileCount) := by
  have hle' : u32FileCount ≤ 2048 := hle
  rw [page_files hq opt pszDir entries start hpos hle,
    visit_flat hq opt u32FileCount entries pszDir start 0 0 hflat (by omega), pageOf_eq_slice,
    Nat.sub_zero]
  rcases Nat.lt_or_ge (start + (u32FileCount - 1)) (2 ^ 32) with hfits | hwraps
  · have hmax : Nat.max start 0 = start := Nat.max_eq_left (Nat.zero_le _)
    have htake : (start + u32FileCount + (2 ^ 32 - 1)) % 2 ^ 32 + 1 - Nat.max start 0 =
        u32FileCount := by
      rw [hmax]
      omega
    rw [htake, List.take_take, Nat.min_self]
  · -- the window is empty, but the page starts behind the last entry
    have hdrop : (walk opt pszDir entries).drop start = [] :=
      List.drop_eq_nil_of_le (by omega)
    rw [hdrop, List.take_nil, List.take_nil]

/-- With an entry in a subdirectory, two pages are the same that must not be. -/
theorem flat_of_pages
    (hpage : ∀ start, start < 2 ^ 32 →
      (hiUdiskGetFileListWithIndex h opt pszDir true entries start 1).2 =
        filesFrom h 0 (((walk opt pszDir entries).drop start).take 1))
    (hlen : (walk opt pszDir entries).length < 2 ^ 32) : Flat opt pszDir entries := by
  rw [flat_iff]
  by_contra hne
  -- behind the own candidates all pages are the same, and one of them is past the end
  have hlt : ownCount opt pszDir entries < (walk opt pszDir entries).length :=
    lt_of_le_of_ne (ownCount_le opt entries pszDir) hne
  have hone : (1 : Nat) ≤ udiskReserveMaxFileNum := by decide
  have hbehind := visit_behind hq opt 1 entries pszDir (ownCount opt pszDir entries)
    (walk opt pszDir entries).length 0 0 (by omega) (by omega) (by omega)
  have hfirst := hpage (ownCount opt pszDir entries) (by omega)
  have hlast := hpage (walk opt pszDir entries).length hlen
  rw [page_files hq opt pszDir entries _ le_rfl hone] at hfirst hlast
  rw [hbehind, hlast, List.drop_length] at hfirst
  have hlength := congrArg List.length hfirst
  simp only [length_filesFrom, List.length_take, List.length_drop, List.take_nil,
    List.length_nil] at hlength
  omega

/-- A page whose window wraps is empty. -/
theorem length_of_pages (hflat : Flat opt pszDir entries)
    (hpage : ∀ start u32FileCount, start < 2 ^ 32 → 1 ≤ u32FileCount →
      u32FileCount ≤ udiskReserveMaxFileNum →
      (hiUdiskGetFileListWithIndex h opt pszDir true entries start u32FileCount).2 =
        filesFrom h 0 (((walk opt pszDir entries).drop start).take u32FileCount))
    (hlen : (walk opt pszDir entries).length < 2 ^ 32) :
    (walk opt pszDir entries).length ≤ 2 ^ 32 - 2047 := by
  by_contra hlong
  have hreserve : (2048 : Nat) ≤ udiskReserveMaxFileNum := le_rfl
  -- the last index of this page wraps to 0
  have hwrapped := hpage (2 ^ 32 - 2047) 2048 (by omega) (by omega) hreserve
  rw [page_files hq opt pszDir entries _ (by omega) hreserve,
    visit_flat hq opt 2048 entries pszDir _ 0 0 hflat (by omega), pageOf_eq_slice] at hwrapped
  have hlength := congrArg List.length hwrapped
  have hmax : Nat.max (2 ^ 32 - 2047) 0 = 2 ^ 32 - 2047 := Nat.max_eq_left (Nat.zero_le _)
  simp only [length_filesFrom, List.length_take, List.length_drop, hmax] at hlength
  omega

end Pages

/-- The count, the list and all pages agree with the enumeration exactly if no subdirectory
that is scanned has an entry to list, and no page of the enumeration wraps. -/
theorem pagesAgree_iff {h : Host} (hq : h.Undisturbed) (opt : ScanOpt) (pszDir : List UInt8)
    (opens : Bool) (entries : Entries) :
    PagesAgree h opt pszDir opens entries ↔
      (opens = true → Flat opt pszDir entries) ∧
        (enumeration opt pszDir opens entries).length ≤ 2 ^ 32 - 2047 := by
  cases opens with
  | false =>
      refine iff_of_true ⟨rfl, rfl, fun start u32FileCount _ hpos _ => ?_⟩
        ⟨fun hfalse => (by cases hfalse), Nat.zero_le _⟩
      have hcount : u32FileCount ≠ 0 := by omega
      simp [hiUdiskGetFileListWithIndex, hcount, hq.malloc, udiskScanDirWithIndex, enumeration,
        filesFrom]
  | true =>
      have hcounted := fileNumLoop_eq opt entries pszDir 0 (by decide)
      rw [Nat.zero_add] at hcounted
      constructor
      · rintro ⟨hcount, -, hpage⟩
        have hlen : (walk opt pszDir entries).length < 2 ^ 32 := by
          have hmod : (walk opt pszDir entries).length % 2 ^ 32 =
              (walk opt pszDir entries).length := hcounted.symm.trans hcount
          rw [← hmod]
          exact Nat.mod_lt _ (by decide)
        have hflat : Flat opt pszDir entries :=
          flat_of_pages hq (fun start hstart => hpage start 1 hstart le_rfl (by decide)) hlen
        exact ⟨fun _ => hflat, length_of_pages hq hflat hpage hlen⟩
      · rintro ⟨hflat, hlen⟩
        have hlen' : (walk opt pszDir entries).length ≤ 2 ^ 32 - 2047 := hlen
        refine ⟨hcounted.trans (Nat.mod_eq_of_lt (by omega)),
          udiskScanDir_files hq opt pszDir true entries, fun start u32FileCount hstart hpos hle =>
            page_of_flat hq (hflat rfl) hlen start hstart hpos hle⟩

/-- A directory with two files and an empty subdirectory. -/
def flatDir : Entries :=
  .cons [97] .reg false .nil (.cons [98] .dir true .nil (.cons [99, dot, 100] .reg false .nil .nil))

theorem flatDir_pagesAgree : PagesAgree plainHost everything [slash] true flatDir :=
  (pagesAgree_iff plainHost_undisturbed everything [slash] true flatDir).mpr
    ⟨fun _ => by simp [Flat, flatDir, walk], by decide⟩

/-- Entry 2 of this directory, the file in the subdirectory, is on no page that starts
there. -/
theorem smallDir_page_lost : ¬ PagesAgree plainHost everything [slash] true smallDir := by
  intro hagree
  have hpage := congrArg List.length (hagree.page 2 1 (by decide) (by decide) (by decide))
  rw [length_filesFrom] at hpage
  exact absurd hpage (by decide)

end Udisk
end AndroidLinux
