import AndroidLinux.Udisk.FileList

/-!
# Paths

The path functions of `String8.cpp`, by the strings that they return if the buffers can be
allocated.  A string is the bytes in front of its NUL, and a pointer into it is what begins there.
-/

namespace AndroidLinux
namespace Utils

open Udisk (strrchr slash dot)

def strchr (c : UInt8) : List UInt8 → Option (List UInt8)
  | [] => none
  | b :: s => if b = c then some (b :: s) else strchr c s

/-- `String8(s, cp - s)`, for a pointer into `s`. -/
def upTo (s cp : List UInt8) : List UInt8 := s.take (s.length - cp.length)

def setPathName (name : List UInt8) : List UInt8 :=
  if name.getLast? = some slash then name.dropLast else name

def getPathLeaf (s : List UInt8) : List UInt8 :=
  match strrchr slash s with
  | none => s
  | some cp => cp.drop 1

def getPathDir (s : List UInt8) : List UInt8 :=
  match strrchr slash s with
  | none => []
  | some cp => upTo s cp

/-- `walkPath`: the first name, and what remains. -/
def walkPath (s : List UInt8) : List UInt8 × List UInt8 :=
  let buf := if strchr slash s = some s then s.drop 1 else s
  match strchr slash buf with
  | none => (buf, [])
  | some cp => (upTo buf cp, cp.drop 1)

/-- `find_extension`. -/
def findExtension (s : List UInt8) : Option (List UInt8) :=
  strrchr dot (getPathLeaf s)

def getPathExtension (s : List UInt8) : List UInt8 := (findExtension s).getD []

def getBasePath (s : List UInt8) : List UInt8 :=
  match findExtension s with
  | none => s
  | some ext => upTo s ext

def appendPath (s name : List UInt8) : List UInt8 :=
  if name.head? ≠ some slash then
    if name = [] then s
    else if s = [] then setPathName name
    else (if s.getLast? ≠ some slash then s ++ [slash] else s) ++ name
  else setPathName name

/-- The names that `walkPath` returns until nothing remains. -/
inductive Walks : List UInt8 → List (List UInt8) → Prop
  | last {s : List UInt8} (hend : (walkPath s).2 = []) : Walks s [(walkPath s).1]
  | step {s : List UInt8} {names : List (List UInt8)} (hne : (walkPath s).2 ≠ [])
      (hrest : Walks (walkPath s).2 names) : Walks s ((walkPath s).1 :: names)

/-- A name of a file. -/
def IsName (name : List UInt8) : Prop := name ≠ [] ∧ slash ∉ name

/-! ## `strchr` and `strrchr` -/

theorem strrchr_eq_none {c : UInt8} {s : List UInt8} : strrchr c s = none ↔ c ∉ s := by
  induction s with
  | nil => exact iff_of_true rfl List.not_mem_nil
  | cons b s ih =>
      rw [strrchr, List.mem_cons, not_or]
      cases hrest : strrchr c s with
      | some r =>
          rw [hrest] at ih
          exact iff_of_false nofun fun h => nomatch ih.mpr h.2
      | none =>
          dsimp only
          by_cases hb : b = c
          · rw [if_pos hb]
            exact iff_of_false nofun fun h => h.1 hb.symm
          · rw [if_neg hb]
            exact iff_of_true rfl ⟨fun h => hb h.symm, ih.mp hrest⟩

theorem strrchr_append {c : UInt8} (a : List UInt8) {t : List UInt8} (ht : c ∉ t) :
    strrchr c (a ++ c :: t) = some (c :: t) := by
  induction a with
  | nil =>
      rw [List.nil_append, strrchr, strrchr_eq_none.mpr ht]
      exact if_pos rfl
  | cons b a ih => rw [List.cons_append, strrchr, ih]

theorem strrchr_eq_some {c : UInt8} {s r : List UInt8} :
    strrchr c s = some r ↔ ∃ a t, s = a ++ c :: t ∧ r = c :: t ∧ c ∉ t := by
  constructor
  · intro h
    induction s with
    | nil => cases h
    | cons b s ih =>
        rw [strrchr] at h
        cases hrest : strrchr c s with
        | some r' =>
            rw [hrest] at h
            obtain rfl := Option.some.inj h
            obtain ⟨a, t, rfl, hr, ht⟩ := ih hrest
            exact ⟨b :: a, t, rfl, hr, ht⟩
        | none =>
            rw [hrest] at h
            dsimp only at h
            split at h
            next hb =>
              obtain rfl := Option.some.inj h
              exact ⟨[], s, by rw [hb]; rfl, by rw [hb], strrchr_eq_none.mp hrest⟩
            · cases h
  · rintro ⟨a, t, rfl, rfl, ht⟩
    exact strrchr_append a ht

theorem strchr_eq_none {c : UInt8} {s : List UInt8} (h : c ∉ s) : strchr c s = none := by
  induction s with
  | nil => rfl
  | cons b s ih =>
      rw [List.mem_cons, not_or] at h
      rw [strchr, if_neg fun hb => h.1 hb.symm, ih h.2]

theorem strchr_append {c : UInt8} {a : List UInt8} (ha : c ∉ a) (t : List UInt8) :
    strchr c (a ++ c :: t) = some (c :: t) := by
  induction a with
  | nil =>
      rw [List.nil_append, strchr]
      exact if_pos rfl
  | cons b a ih =>
      rw [List.mem_cons, not_or] at ha
      rw [List.cons_append, strchr, if_neg fun hb => ha.1 hb.symm, ih ha.2]

theorem upTo_append (a r : List UInt8) : upTo (a ++ r) r = a := by
  unfold upTo
  rw [List.length_append, Nat.add_sub_cancel, List.take_left]

/-! ## The parts of a path -/

theorem getPathLeaf_append (a : List UInt8) {t : List UInt8} (ht : slash ∉ t) :
    getPathLeaf (a ++ slash :: t) = t := by
  unfold getPathLeaf
  rw [strrchr_append a ht]
  rfl

theorem getPathLeaf_of_notMem {s : List UInt8} (h : slash ∉ s) : getPathLeaf s = s := by
  unfold getPathLeaf
  rw [strrchr_eq_none.mpr h]

theorem getPathDir_append (a : List UInt8) {t : List UInt8} (ht : slash ∉ t) :
    getPathDir (a ++ slash :: t) = a := by
  unfold getPathDir
  rw [strrchr_append a ht]
  exact upTo_append a _

/-- A path ends in its leaf, which has no separator. -/
theorem getPathLeaf_suffix (s : List UInt8) : ∃ a, s = a ++ getPathLeaf s ∧
    slash ∉ getPathLeaf s := by
  cases h : strrchr slash s with
  | none =>
      have hnot := strrchr_eq_none.mp h
      exact ⟨[], by rw [getPathLeaf_of_notMem hnot]; rfl, by rwa [getPathLeaf_of_notMem hnot]⟩
  | some r =>
      obtain ⟨a, t, rfl, -, ht⟩ := strrchr_eq_some.mp h
      rw [getPathLeaf_append a ht]
      exact ⟨a ++ [slash], by rw [List.append_assoc]; rfl, ht⟩

theorem getLast?_ne_slash {s : List UInt8} (h : slash ∉ s) : s.getLast? ≠ some slash := fun hlast =>
  h (List.mem_of_getLast? hlast)

theorem setPathName_of_notMem {s : List UInt8} (h : slash ∉ s) : setPathName s = s :=
  if_neg (getLast?_ne_slash h)

theorem head?_ne_slash {s : List UInt8} (h : slash ∉ s) : s.head? ≠ some slash := fun hhead =>
  h (List.mem_of_head? hhead)

theorem appendPath_nil {name : List UInt8} (h : slash ∉ name) : appendPath [] name = name := by
  unfold appendPath
  rw [if_pos (head?_ne_slash h), if_pos rfl, setPathName_of_notMem h]
  exact ite_eq_right_iff.mpr fun hname => hname.symm

theorem appendPath_name {s name : List UInt8} (hs : s ≠ []) (hlast : s.getLast? ≠ some slash)
    (hname : IsName name) : appendPath s name = s ++ slash :: name := by
  unfold appendPath
  rw [if_pos (head?_ne_slash hname.2), if_neg hname.1, if_neg hs, if_pos hlast, List.append_assoc,
    List.singleton_append]

/-- A path is put together again from its directory and its leaf unless it ends in a separator,
is in the root directory, or has two separators in front of its leaf. -/
theorem appendPath_dir_leaf_iff (s : List UInt8) :
    appendPath (getPathDir s) (getPathLeaf s) = s ↔
      slash ∉ s ∨ getPathLeaf s ≠ [] ∧ getPathDir s ≠ [] ∧
        (getPathDir s).getLast? ≠ some slash := by
  cases h : strrchr slash s with
  | none =>
      have hnot := strrchr_eq_none.mp h
      have hdir : getPathDir s = [] := by
        unfold getPathDir
        rw [h]
      rw [hdir, getPathLeaf_of_notMem hnot]
      exact iff_of_true (appendPath_nil hnot) (.inl hnot)
  | some r =>
      obtain ⟨a, t, rfl, -, ht⟩ := strrchr_eq_some.mp h
      rw [getPathDir_append a ht, getPathLeaf_append a ht]
      have hin : ¬ slash ∉ a ++ slash :: t :=
        not_not_intro (List.mem_append_right _ List.mem_cons_self)
      rw [or_iff_right hin]
      by_cases htne : t = []
      · refine iff_of_false (fun heq => ?_) fun hparts => hparts.1 htne
        rw [htne, appendPath, if_pos (by exact nofun), if_pos rfl] at heq
        simpa using congrArg List.length heq
      by_cases hane : a = []
      · refine iff_of_false (fun heq => ?_) fun hparts => hparts.2.1 hane
        rw [hane, appendPath_nil ht] at heq
        simpa using congrArg List.length heq
      by_cases hlast : a.getLast? = some slash
      · refine iff_of_false (fun heq => ?_) fun hparts => hparts.2.2 hlast
        rw [appendPath, if_pos (head?_ne_slash ht), if_neg htne, if_neg hane,
          if_neg (not_not_intro hlast)] at heq
        simpa using congrArg List.length heq
      · exact iff_of_true (appendPath_name hane hlast ⟨htne, ht⟩) ⟨htne, hane, hlast⟩

/-! ## Extensions -/

/-- The extension of a path begins with the last dot of its leaf. -/
theorem extension_iff (s base t : List UInt8) :
    (getBasePath s = base ∧ getPathExtension s = dot :: t) ↔
      s = base ++ dot :: t ∧ dot ∉ t ∧ slash ∉ t := by
  constructor
  · rintro ⟨hbase, hext⟩
    unfold getPathExtension at hext
    unfold getBasePath at hbase
    cases hfind : findExtension s with
    | none =>
        rw [hfind] at hext
        cases hext
    | some ext =>
        rw [hfind] at hext hbase
        obtain ⟨a, t', hleaf, hr, hdot⟩ := strrchr_eq_some.mp hfind
        rw [Option.getD_some] at hext
        dsimp only at hbase
        obtain ⟨-, rfl⟩ := List.cons.inj (hr.symm.trans hext)
        obtain ⟨d, hs, hslash⟩ := getPathLeaf_suffix s
        rw [hleaf] at hs hslash
        rw [hr, hs, ← List.append_assoc, upTo_append] at hbase
        refine ⟨?_, hdot, fun hin => hslash ?_⟩
        · rw [← hbase, List.append_assoc]
          exact hs
        · exact List.mem_append_right _ (List.mem_cons_of_mem _ hin)
  · rintro ⟨rfl, hdot, hslash⟩
    have hfind : findExtension (base ++ dot :: t) = some (dot :: t) := by
      have hslash' : slash ∉ dot :: t := List.not_mem_cons_of_ne_of_not_mem (by decide) hslash
      unfold findExtension getPathLeaf
      cases hdir : strrchr slash base with
      | none =>
          have hnot : slash ∉ base ++ dot :: t := fun hin =>
            (List.mem_append.mp hin).elim (strrchr_eq_none.mp hdir) hslash'
          rw [strrchr_eq_none.mpr hnot]
          exact strrchr_append base hdot
      | some r =>
          obtain ⟨a, b, rfl, -, hb⟩ := strrchr_eq_some.mp hdir
          have hnot : slash ∉ b ++ dot :: t := fun hin =>
            (List.mem_append.mp hin).elim hb hslash'
          rw [List.append_assoc, List.cons_append, strrchr_append a hnot]
          exact strrchr_append b hdot
    unfold getBasePath getPathExtension
    rw [hfind]
    exact ⟨upTo_append _ _, rfl⟩

/-! ## Walking a path -/

theorem strchr_self {c : UInt8} {s : List UInt8} : strchr c s = some s ↔ s.head? = some c := by
  have hlen : ∀ s r : List UInt8, strchr c s = some r → r.length ≤ s.length := by
    intro s r hr
    induction s with
    | nil => cases hr
    | cons b s ih =>
        rw [strchr] at hr
        split at hr
        · obtain rfl := Option.some.inj hr
          exact le_rfl
        · exact (ih hr).trans (Nat.le_succ _)
  cases s with
  | nil => exact iff_of_false nofun nofun
  | cons b s =>
      rw [strchr, List.head?_cons, Option.some.injEq]
      by_cases hb : b = c
      · rw [if_pos hb]
        exact iff_of_true rfl hb
      · rw [if_neg hb]
        exact iff_of_false (fun heq => Nat.not_succ_le_self _ (hlen _ _ heq)) hb

theorem walkPath_slash {s : List UInt8} (h : s.head? ≠ some slash) :
    walkPath (slash :: s) = walkPath s := by
  unfold walkPath
  rw [if_pos (strchr_self.mpr rfl), if_neg fun heq => h (strchr_self.mp heq)]
  rfl

theorem walkPath_name {name : List UInt8} (h : IsName name) : walkPath name = (name, []) := by
  unfold walkPath
  rw [if_neg fun heq => head?_ne_slash h.2 (strchr_self.mp heq)]
  dsimp only
  rw [strchr_eq_none h.2]

theorem head?_name {name : List UInt8} (h : IsName name) (rest : List UInt8) :
    (name ++ rest).head? ≠ some slash := by
  rw [List.head?_append_of_ne_nil _ h.1]
  exact head?_ne_slash h.2

theorem walkPath_cons {name : List UInt8} (h : IsName name) (rest : List UInt8) :
    walkPath (name ++ slash :: rest) = (name, rest) := by
  unfold walkPath
  rw [if_neg fun heq => head?_name h _ (strchr_self.mp heq)]
  dsimp only
  rw [strchr_append h.2]
  dsimp only
  rw [upTo_append]
  rfl

/-- One name behind the other: each is appended with a separator. -/
theorem foldl_appendPath {names : List (List UInt8)} (hnames : ∀ name ∈ names, IsName name)
    {s : List UInt8} (hs : s ≠ []) (hlast : s.getLast? ≠ some slash) :
    names.foldl appendPath s = s ++ names.flatMap (slash :: ·) := by
  induction names generalizing s with
  | nil => rw [List.foldl_nil, List.flatMap_nil, List.append_nil]
  | cons name names ih =>
      have hname := hnames name List.mem_cons_self
      have hlast' : (s ++ slash :: name).getLast? ≠ some slash := by
        rw [List.getLast?_append_of_ne_nil _ (List.cons_ne_nil _ _),
          List.getLast?_cons_of_ne_nil hname.1]
        exact getLast?_ne_slash hname.2
      rw [List.foldl_cons, appendPath_name hs hlast hname,
        ih (fun name' h => hnames name' (List.mem_cons_of_mem _ h))
          (List.append_ne_nil_of_right_ne_nil _ (List.cons_ne_nil _ _)) hlast',
        List.flatMap_cons, List.append_assoc]

theorem walks_names {names : List (List UInt8)} {name : List UInt8} (hname : IsName name)
    (hnames : ∀ name ∈ names, IsName name) :
    Walks (name ++ names.flatMap (slash :: ·)) (name :: names) := by
  induction names generalizing name with
  | nil =>
      have hwalk := walkPath_name hname
      have hlast := @Walks.last name (by rw [hwalk])
      rw [hwalk] at hlast
      rwa [List.flatMap_nil, List.append_nil]
  | cons next names ih =>
      have hnext := hnames next List.mem_cons_self
      have hwalk := walkPath_cons hname (next ++ names.flatMap (slash :: ·))
      have hrest := ih hnext fun name' h => hnames name' (List.mem_cons_of_mem _ h)
      have hstep := @Walks.step (name ++ slash :: (next ++ names.flatMap (slash :: ·)))
        (next :: names) (by rw [hwalk]; exact List.append_ne_nil_of_left_ne_nil hnext.1 _)
        (by rw [hwalk]; exact hrest)
      rw [hwalk] at hstep
      rwa [List.flatMap_cons, List.cons_append]

theorem Walks.slashed {s : List UInt8} {names : List (List UInt8)} (h : Walks s names)
    (hs : s.head? ≠ some Udisk.slash) : Walks (Udisk.slash :: s) names := by
  have hwalk := walkPath_slash hs
  cases h with
  | last hend =>
      rw [← hwalk] at hend ⊢
      exact .last hend
  | step hne hrest =>
      rw [← hwalk] at hne hrest ⊢
      exact .step hne hrest

/-- `walkPath` takes apart what `appendPath` has put together, from the root directory or not. -/
theorem walks_appendPath {names : List (List UInt8)} (hne : names ≠ [])
    (hnames : ∀ name ∈ names, IsName name) :
    Walks (names.foldl appendPath []) names ∧
      Walks (slash :: names.foldl appendPath []) names := by
  cases names with
  | nil => exact absurd rfl hne
  | cons name names =>
      obtain ⟨hname, hrest⟩ := List.forall_mem_cons.mp hnames
      have hwalks := walks_names hname hrest
      rw [List.foldl_cons, appendPath_nil hname.2,
        foldl_appendPath hrest hname.1 (getLast?_ne_slash hname.2)]
      exact ⟨hwalks, hwalks.slashed (head?_name hname _)⟩

/-- `system/lib`, and the same in the root directory. -/
theorem walks_appendPath_system :
    Walks ([[115, 121, 115, 116, 101, 109], [108, 105, 98]].foldl appendPath [])
        [[115, 121, 115, 116, 101, 109], [108, 105, 98]] ∧
      Walks (slash :: [[115, 121, 115, 116, 101, 109], [108, 105, 98]].foldl appendPath [])
        [[115, 121, 115, 116, 101, 109], [108, 105, 98]] :=
  walks_appendPath (by decide) (by unfold IsName; decide)

end Utils
end AndroidLinux
