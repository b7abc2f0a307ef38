import AndroidLinux.Udisk.FileList

/-!
# What the scans visit

`walk` is the enumeration of a directory in preorder, the entries that an option lists.
`visit` is the part of it that a scan meets and that lies in the window of the scan, with
the questions to the callback; it knows nothing of the list.  `scanDirLoop` and
`withIndexLoop` list the entries of their `visit` one after the other, until the list has
`limit` entries.
-/

namespace AndroidLinux
namespace Udisk

/-- An entry to be listed: the directory that is scanned, the name in it and the kind. -/
structure Candidate where
  pathname : List UInt8
  filename : List UInt8
  kind : Kind
  deriving DecidableEq

/-- The candidate that an entry is itself. -/
def Plan.candidate (p : Plan) (pszDir dName : List UInt8) : List Candidate :=
  match p.lists with
  | some k => [⟨pszDir, dName, k⟩]
  | none => []

/-- The enumeration of a directory in preorder. -/
def walk (opt : ScanOpt) (pszDir : List UInt8) : Entries → List Candidate
  | .nil => []
  | .cons dName dType opens sub rest =>
      let p := plan opt pszDir dName dType
      p.candidate pszDir dName ++
        (if p.enters && opens then walk opt (subFilePath pszDir dName) sub else []) ++
        walk opt pszDir rest

/-- The enumeration of a directory that may not open. -/
def enumeration (opt : ScanOpt) (pszDir : List UInt8) (opens : Bool) (entries : Entries) :
    List Candidate :=
  if opens then walk opt pszDir entries else []

/-- What a scan with the given window visits, and the questions asked by its end. -/
def visit (h : Host) (opt : ScanOpt) (window : Nat → Nat → Bool) (pszDir : List UInt8)
    (start index : Nat) : Entries → Nat → List Candidate × Nat
  | .nil, queries => ([], queries)
  | .cons dName dType opens sub rest, queries =>
      if h.interrupted queries then ([], queries + 1)
      else
        let p := plan opt pszDir dName dType
        let own := if window start index then p.candidate pszDir dName else []
        let index := if p.lists.isSome then (index + 1) % 2 ^ 32 else index
        let below :=
          if p.enters && opens then
            visit h opt window (subFilePath pszDir dName) index 0 sub (queries + 1)
          else ([], queries + 1)
        let behind := visit h opt window pszDir start index rest below.2
        (own ++ below.1 ++ behind.1, behind.2)

/-- List one candidate more, unless the list has `limit` entries. -/
def listUpTo (h : Host) (limit : Nat) (l : FileList) (c : Candidate) : FileList :=
  if limit ≤ l.files.length then l else listEntry h c.pathname c.filename c.kind l

/-- List candidates, up to a limit. -/
def listAll (h : Host) (limit : Nat) (l : FileList) (cs : List Candidate) : FileList :=
  cs.foldl (listUpTo h limit) l

section Lists

variable {h : Host} {limit : Nat} {l : FileList}

@[simp] theorem listAll_nil : listAll h limit l [] = l := rfl

@[simp] theorem listAll_cons (c : Candidate) (cs : List Candidate) :
    listAll h limit l (c :: cs) = listAll h limit (listUpTo h limit l c) cs := rfl

theorem listAll_append (cs cs' : List Candidate) :
    listAll h limit l (cs ++ cs') = listAll h limit (listAll h limit l cs) cs' :=
  List.foldl_append

/-- A full list stays as it is. -/
theorem listAll_full (hfull : limit ≤ l.files.length) (cs : List Candidate) :
    listAll h limit l cs = l := by
  induction cs with
  | nil => rfl
  | cons c cs ih => rw [listAll_cons, listUpTo, if_pos hfull, ih]

end Lists

/-! ## The scans list what they visit -/

/-- A scan has listed a visit: the list has the candidates up to the limit, and as long as
it is not full, all questions of the visit have been asked. -/
structure Follows (h : Host) (limit : Nat) (s s' : Scan) (v : List Candidate × Nat) : Prop where
  list : s'.list = listAll h limit s.list v.1
  queries : s'.list.files.length < limit → s'.queries = v.2

section Scans

variable {h : Host} {limit : Nat} {s s₁ s₂ s₃ : Scan} {v w : List Candidate × Nat}

/-- A full list is not followed any further. -/
theorem Follows.full (hfull : limit ≤ s.list.files.length) : Follows h limit s s v :=
  ⟨(listAll_full hfull v.1).symm, fun hlt => absurd hfull (Nat.not_le.mpr hlt)⟩

theorem Follows.refl (s : Scan) : Follows h limit s s ([], s.queries) :=
  ⟨rfl, fun _ => rfl⟩

/-- What follows a visit and then, from where that one stopped, a second one. -/
theorem Follows.trans {w : Nat → List Candidate × Nat} (h₁ : Follows h limit s₁ s₂ v)
    (h₂ : Follows h limit s₂ s₃ (w s₂.queries))
    (hfull : limit ≤ s₂.list.files.length → s₃ = s₂) :
    Follows h limit s₁ s₃ (v.1 ++ (w v.2).1, (w v.2).2) := by
  by_cases hroom : s₂.list.files.length < limit
  · rw [h₁.queries hroom] at h₂
    exact ⟨by rw [listAll_append, ← h₁.list, h₂.list], h₂.queries⟩
  · -- the first visit has filled the list, and the second one adds nothing
    have hle : limit ≤ s₂.list.files.length := Nat.le_of_not_lt hroom
    rw [hfull hle]
    exact ⟨by rw [listAll_append, ← h₁.list, listAll_full hle],
      fun hlt => absurd hlt hroom⟩

/-- One entry of a list that is not full. -/
theorem follows_listPlanned (hroom : ¬ limit ≤ s.list.files.length) (pszDir dName : List UInt8)
    (p : Plan) (wanted : Bool) :
    Follows h limit s
      (listPlanned h pszDir dName p wanted { s with queries := s.queries + 1 })
      (if wanted then p.candidate pszDir dName else [], s.queries + 1) := by
  cases hlists : p.lists with
  | none =>
      simp only [listPlanned, Plan.candidate, hlists, ite_self]
      exact ⟨rfl, fun _ => rfl⟩
  | some k =>
      cases wanted with
      | false =>
          simp only [listPlanned, hlists]
          exact ⟨rfl, fun _ => rfl⟩
      | true =>
          simp only [listPlanned, Plan.candidate, hlists, if_true]
          refine ⟨?_, fun _ => rfl⟩
          rw [listAll_cons, listAll_nil, listUpTo, if_neg hroom]

theorem scanDirLoop_full (opt : ScanOpt) (pszDir : List UInt8) (entries : Entries)
    (hfull : udiskReserveMaxFileNum ≤ s.list.files.length) :
    (scanDirLoop h opt pszDir entries s).2 = s := by
  cases entries with
  | nil => rfl
  | cons dName dType opens sub rest => rw [scanDirLoop, if_pos hfull]

/-- `UDISK_ScanDir` lists the whole visit. -/
theorem scanDirLoop_follows (opt : ScanOpt) (entries : Entries) :
    ∀ (pszDir : List UInt8) (start index : Nat) (s : Scan),
      Follows h udiskReserveMaxFileNum s (scanDirLoop h opt pszDir entries s).2
        (visit h opt (fun _ _ => true) pszDir start index entries s.queries) := by
  induction entries with
  | nil => exact fun _ _ _ s => Follows.refl s
  | cons dName dType opens sub rest ihSub ihRest =>
      intro pszDir start index s
      rw [scanDirLoop, visit]
      -- the limit is tested before the callback is asked
      by_cases hfull : udiskReserveMaxFileNum ≤ s.list.files.length
      · rw [if_pos hfull]
        exact Follows.full hfull
      rw [if_neg hfull]
      by_cases hstop : h.interrupted s.queries
      · rw [if_pos hstop, if_pos hstop]
        exact ⟨rfl, fun _ => rfl⟩
      rw [if_neg hstop, if_neg hstop]
      have hown := follows_listPlanned (h := h) hfull pszDir dName
        (plan opt pszDir dName dType) true
      simp only []
      cases hbelow : (plan opt pszDir dName dType).enters && opens with
      | false =>
          simp only [Bool.false_eq_true, if_false, List.append_nil]
          exact hown.trans (ihRest pszDir start _ _) (scanDirLoop_full opt pszDir rest)
      | true =>
          simp only [if_true]
          exact (hown.trans (ihSub _ _ 0 _) (scanDirLoop_full opt _ sub)).trans
            (ihRest pszDir start _ _) (scanDirLoop_full opt pszDir rest)

/-- The number of entries at which the loop of `UDISK_ScanDirWithIndex` stops. -/
def pageLimit (u32FileCount : Nat) : Nat :=
  min u32FileCount udiskReserveMaxFileNum

theorem withIndexLoop_full (opt : ScanOpt) (u32FileCount : Nat) (pszDir : List UInt8)
    (start index : Nat) (entries : Entries)
    (hfull : pageLimit u32FileCount ≤ s.list.files.length) :
    (withIndexLoop h opt u32FileCount pszDir start index entries s).2 = s := by
  cases entries with
  | nil => rfl
  | cons dName dType opens sub rest =>
      rw [withIndexLoop]
      -- the loop ends at the count of the page or at the size of the list
      by_cases hcount : s.list.files.length < u32FileCount
      · unfold pageLimit at hfull
        rw [if_neg (not_not.mpr hcount), if_pos (by omega)]
      · rw [if_pos hcount]

/-- `UDISK_ScanDirWithIndex` lists the visit of its page. -/
theorem withIndexLoop_follows (opt : ScanOpt) (u32FileCount : Nat) (entries : Entries) :
    ∀ (pszDir : List UInt8) (start index : Nat) (s : Scan),
      Follows h (pageLimit u32FileCount) s
        (withIndexLoop h opt u32FileCount pszDir start index entries s).2
        (visit h opt (inPage u32FileCount) pszDir start index entries s.queries) := by
  induction entries with
  | nil => exact fun _ _ _ s => Follows.refl s
  | cons dName dType opens sub rest ihSub ihRest =>
      intro pszDir start index s
      by_cases hfull : pageLimit u32FileCount ≤ s.list.files.length
      · rw [withIndexLoop_full _ _ _ _ _ _ hfull]
        exact Follows.full hfull
      rw [withIndexLoop, visit]
      have hcount : s.list.files.length < u32FileCount := by
        unfold pageLimit at hfull
        omega
      have hreserve : ¬ udiskReserveMaxFileNum ≤ s.list.files.length := by
        unfold pageLimit at hfull
        omega
      rw [if_neg (not_not.mpr hcount), if_neg hreserve]
      by_cases hstop : h.interrupted s.queries
      · rw [if_pos hstop, if_pos hstop]
        exact ⟨rfl, fun _ => rfl⟩
      rw [if_neg hstop, if_neg hstop]
      have hown := follows_listPlanned (h := h) hfull pszDir dName
        (plan opt pszDir dName dType) (inPage u32FileCount start index)
      simp only []
      cases hbelow : (plan opt pszDir dName dType).enters && opens with
      | false =>
          simp only [Bool.false_eq_true, if_false, List.append_nil]
          exact hown.trans (ihRest pszDir start _ _) (withIndexLoop_full opt _ pszDir _ _ rest)
      | true =>
          simp only [if_true]
          exact (hown.trans (ihSub _ _ 0 _) (withIndexLoop_full opt _ _ _ _ sub)).trans
            (ihRest pszDir start _ _) (withIndexLoop_full opt _ pszDir _ _ rest)

end Scans

end Udisk
end AndroidLinux
