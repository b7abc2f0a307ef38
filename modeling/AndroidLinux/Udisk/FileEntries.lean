import AndroidLinux.Udisk.FileWalk

/-!
# What one entry does to the list

`UDISK_AddFileToList` makes up to three allocations (`nodeMalloc`).  When they succeed, the
entry becomes the last one of the list with its type set (`listEntry_added`); when one
fails, the type of the entry that was the last one is set (`listEntry_failed`).
-/

namespace AndroidLinux
namespace Udisk

/-- The allocations of `UDISK_AddFileToList` from the `n`th call of `malloc` on: whether
they succeed, and the calls made by then. -/
def nodeMalloc (malloc : Nat → Bool) (n : Nat) : Bool × Nat :=
  if malloc n = false then (false, n + 1)
  else if malloc (n + 1) = false then (false, n + 2)
  else (malloc (n + 2), n + 3)

/-- A candidate with the name `"."` or `".."` is listed as such, and no other one. -/
def Candidate.Proper (c : Candidate) : Prop :=
  c.kind = .dots ↔ c.filename = [dot] ∨ c.filename = [dot, dot]

/-- The node of a candidate with its type. -/
def fileOf (h : Host) (c : Candidate) (u32FileNum : Nat) : FileInfo :=
  { newFile h c.pathname c.filename u32FileNum with u32Type := some c.kind.u32Type }

/-- The write of a type that follows the listing of a subdirectory or a file. -/
def Kind.typeWrite (k : Kind) (w : TypeWrite) : List TypeWrite :=
  if k = .dots then [] else [w]

theorem modify_last {α : Type} (l : List α) (x : α) (f : α → α) :
    (l ++ [x]).modify l.length f = l ++ [f x] := by
  induction l with
  | nil => rfl
  | cons a l ih => simp [ih]

theorem udiskAddFileToList_eq (h : Host) (pathname filename : List UInt8) {l : FileList}
    (hroom : l.files.length < udiskReserveMaxFileNum) :
    udiskAddFileToList h pathname filename l =
      ((nodeMalloc h.malloc l.mallocs).1,
        { l with
          files :=
            if (nodeMalloc h.malloc l.mallocs).1 then
              l.files ++ [newFile h pathname filename l.files.length]
            else l.files
          mallocs := (nodeMalloc h.malloc l.mallocs).2 }) := by
  unfold udiskAddFileToList nodeMalloc
  cases hnode : h.malloc l.mallocs with
  | false => simp
  | true =>
      cases hshort : h.malloc (l.mallocs + 1) with
      | false => simp
      | true => cases hfull : h.malloc (l.mallocs + 2) <;> simp [hroom]

/-- The type of an entry that has just been added. -/
theorem setType_added (t : Nat) {files : List FileInfo} (f : FileInfo) (n : Nat)
    (writes : List TypeWrite) (hroom : files.length < udiskReserveMaxFileNum) :
    setType t true ⟨files ++ [f], n, writes⟩ =
      ⟨files ++ [{ f with u32Type := some t }], n,
        writes ++ [⟨files.length, files.length + 1, true, f.u32Type, t⟩]⟩ := by
  unfold udiskReserveMaxFileNum at hroom
  have hindex : (files.length + 1 + (2 ^ 32 - 1)) % 2 ^ 32 = files.length := by omega
  simp only [setType, List.length_append, List.length_singleton, hindex, modify_last]
  simp

theorem newFile_u32Type {h : Host} {c : Candidate} (hc : c.Proper) (n : Nat) :
    (newFile h c.pathname c.filename n).u32Type =
      if c.kind = .dots then some 0 else none := by
  unfold Candidate.Proper at hc
  simp only [newFile, hc]

/-- An entry that is added becomes the last one, with its type. -/
theorem listEntry_added {h : Host} {c : Candidate} {l : FileList} (hc : c.Proper)
    (hroom : l.files.length < udiskReserveMaxFileNum)
    (hok : (nodeMalloc h.malloc l.mallocs).1 = true) :
    listEntry h c.pathname c.filename c.kind l =
      ⟨l.files ++ [fileOf h c l.files.length], (nodeMalloc h.malloc l.mallocs).2,
        l.writes ++ c.kind.typeWrite
          ⟨l.files.length, l.files.length + 1, true, none, c.kind.u32Type⟩⟩ := by
  have htype := newFile_u32Type (h := h) hc l.files.length
  simp only [listEntry, udiskAddFileToList_eq h c.pathname c.filename hroom, hok, if_true]
  cases hkind : c.kind with
  | dots =>
      -- the new node has its type already
      rw [hkind, if_pos rfl] at htype
      simp only [Kind.typeWrite, if_true, List.append_nil, fileOf, hkind, Kind.u32Type, ← htype]
  | directory =>
      rw [hkind, if_neg (by decide)] at htype
      simp only [setType_added _ _ _ _ hroom, htype, fileOf, hkind]
      rfl
  | file =>
      rw [hkind, if_neg (by decide)] at htype
      simp only [setType_added _ _ _ _ hroom, htype, fileOf, hkind]
      rfl

/-- After a failure the type of what is the last entry is set. -/
theorem listEntry_failed {h : Host} {c : Candidate} {l : FileList}
    (hroom : l.files.length < udiskReserveMaxFileNum)
    (hok : (nodeMalloc h.malloc l.mallocs).1 = false) :
    listEntry h c.pathname c.filename c.kind l =
      if c.kind = .dots then { l with mallocs := (nodeMalloc h.malloc l.mallocs).2 }
      else setType c.kind.u32Type false
        { l with mallocs := (nodeMalloc h.malloc l.mallocs).2 } := by
  simp only [listEntry, udiskAddFileToList_eq h c.pathname c.filename hroom, hok,
    Bool.false_eq_true, if_false]
  cases c.kind <;> rfl

/-- What the tests accept for listing has the kind of its name. -/
theorem plan_kind {opt : ScanOpt} {pszDir dName : List UInt8} {dType : DirentType} {k : Kind}
    (hk : (plan opt pszDir dName dType).lists = some k) :
    k = .dots ↔ dName = [dot] ∨ dName = [dot, dot] := by
  unfold plan at hk
  by_cases hdot : dName = [dot]
  · rw [if_pos hdot, Option.ite_none_right_eq_some] at hk
    exact iff_of_true (Option.some.inj hk.2).symm (.inl hdot)
  rw [if_neg hdot] at hk
  by_cases hdots : dName = [dot, dot]
  · rw [if_pos hdots, Option.ite_none_right_eq_some] at hk
    exact iff_of_true (Option.some.inj hk.2).symm (.inr hdots)
  rw [if_neg hdots] at hk
  -- any other name is listed by the type of its entry
  refine iff_of_false ?_ (not_or.mpr ⟨hdot, hdots⟩)
  rintro rfl
  split at hk
  · cases hk
  · cases dType with
    | dir => cases (Option.ite_none_right_eq_some.mp hk).2
    | reg => cases (Option.ite_none_right_eq_some.mp hk).2
    | other => cases hk

theorem proper_candidate (opt : ScanOpt) (pszDir dName : List UInt8) (dType : DirentType) :
    ∀ c ∈ (plan opt pszDir dName dType).candidate pszDir dName, c.Proper := by
  intro c hc
  cases hlists : (plan opt pszDir dName dType).lists with
  | none =>
      simp only [Plan.candidate, hlists] at hc
      exact absurd hc List.not_mem_nil
  | some k =>
      simp only [Plan.candidate, hlists, List.mem_singleton] at hc
      subst hc
      exact plan_kind hlists

/-- So has what a scan visits. -/
theorem proper_visit (h : Host) (opt : ScanOpt) (window : Nat → Nat → Bool)
    (entries : Entries) : ∀ (pszDir : List UInt8) (start index queries : Nat),
      ∀ c ∈ (visit h opt window pszDir start index entries queries).1, c.Proper := by
  induction entries with
  | nil => exact fun _ _ _ _ c hc => absurd hc List.not_mem_nil
  | cons dName dType opens sub rest ihSub ihRest =>
      intro pszDir start index queries c hc
      rw [visit] at hc
      split at hc
      · exact absurd hc List.not_mem_nil
      · simp only [List.append_assoc, List.mem_append] at hc
        rcases hc with hown | hbelow | hrest
        · split at hown
          · exact proper_candidate opt pszDir dName dType c hown
          · exact absurd hown List.not_mem_nil
        · split at hbelow
          · exact ihSub _ _ _ _ c hbelow
          · exact absurd hbelow List.not_mem_nil
        · exact ihRest _ _ _ _ c hrest

/-! ## Scans without failures -/

/-- No interrupt is requested, and every allocation succeeds. -/
structure Host.Undisturbed (h : Host) : Prop where
  interrupted : ∀ n, h.interrupted n = false
  malloc : ∀ n, h.malloc n = true

/-- The nodes of candidates, with numbers from `i` on. -/
def filesFrom (h : Host) : Nat → List Candidate → List FileInfo
  | _, [] => []
  | i, c :: cs => fileOf h c i :: filesFrom h (i + 1) cs

@[simp] theorem length_filesFrom (h : Host) (i : Nat) (cs : List Candidate) :
    (filesFrom h i cs).length = cs.length := by
  induction cs generalizing i with
  | nil => rfl
  | cons c cs ih => simp [filesFrom, ih]

theorem getElem?_filesFrom (h : Host) (i k : Nat) (cs : List Candidate) :
    (filesFrom h i cs)[k]? = cs[k]?.map fun c => fileOf h c (i + k) := by
  induction cs generalizing i k with
  | nil => rfl
  | cons c cs ih =>
      cases k with
      | zero => rfl
      | succ k =>
          rw [filesFrom, List.getElem?_cons_succ, List.getElem?_cons_succ, ih,
            Nat.add_right_comm, Nat.add_assoc]

section Undisturbed

variable {h : Host} (hq : h.Undisturbed)
include hq

theorem nodeMalloc_undisturbed (n : Nat) : nodeMalloc h.malloc n = (true, n + 3) := by
  simp [nodeMalloc, hq.malloc]

/-- Listing goes on until the limit. -/
theorem listAll_undisturbed {limit : Nat} (hlimit : limit ≤ udiskReserveMaxFileNum)
    (cs : List Candidate) (hcs : ∀ c ∈ cs, c.Proper) (l : FileList)
    (hl : l.files.length ≤ limit) :
    (listAll h limit l cs).files =
      l.files ++ filesFrom h l.files.length (cs.take (limit - l.files.length)) := by
  induction cs generalizing l with
  | nil => simp [filesFrom]
  | cons c cs ih =>
      rcases Nat.eq_or_lt_of_le hl with hfull | hroom
      · rw [listAll_full hfull.ge, hfull, Nat.sub_self]
        simp [filesFrom]
      · have hok := congrArg Prod.fst (nodeMalloc_undisturbed hq l.mallocs)
        have hadded := listEntry_added (hcs c List.mem_cons_self) (hroom.trans_le hlimit) hok
        have hcount : limit - l.files.length = limit - (l.files.length + 1) + 1 := by omega
        rw [listAll_cons, listUpTo, if_neg (Nat.not_le.mpr hroom), hadded,
          ih (fun c hc => hcs c (List.mem_cons_of_mem _ hc)) _ (by simp; omega)]
        simp only [List.length_append, List.length_singleton, hcount, List.take_succ_cons,
          filesFrom, List.append_assoc, List.singleton_append]

/-- Without a window the visit is the enumeration. -/
theorem visit_all (opt : ScanOpt) (entries : Entries) :
    ∀ (pszDir : List UInt8) (start index queries : Nat),
      (visit h opt (fun _ _ => true) pszDir start index entries queries).1 =
        walk opt pszDir entries := by
  induction entries with
  | nil => exact fun _ _ _ _ => rfl
  | cons dName dType opens sub rest ihSub ihRest =>
      intro pszDir start index queries
      rw [visit, walk, hq.interrupted, if_neg (by decide)]
      simp only [if_true, ihRest]
      split
      · rw [ihSub]
      · rfl

end Undisturbed

end Udisk
end AndroidLinux
