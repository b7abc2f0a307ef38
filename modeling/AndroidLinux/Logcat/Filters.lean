import AndroidLinux.Lib.CString

/-!
# Filter specifications

The half of `logprint.c` that decides whether a line is printed.  A string is the list of its
bytes; what is read behind them is the NUL.  Memory is there for every rule.

The rules are kept with the newest in front, apart from those for `*`, of which only the last
one is kept as the global priority.  `level` says what the rules mean, in the order in which
they were given.
-/

namespace AndroidLinux
namespace Logcat

/-- A character of a string literal. -/
def ch (c : Char) : UInt8 := c.toUInt8

/-- `android_LogPriority`. -/
inductive LogPriority
  | unknown
  | default
  | verbose
  | debug
  | info
  | warn
  | error
  | fatal
  | silent
  deriving DecidableEq

namespace LogPriority

/-- The value of the enumeration. -/
def value : LogPriority → Nat
  | unknown => 0
  | default => 1
  | verbose => 2
  | debug => 3
  | info => 4
  | warn => 5
  | error => 6
  | fatal => 7
  | silent => 8

/-- The cast of a number below `silent`. -/
def ofValue : Nat → LogPriority
  | 1 => default
  | 2 => verbose
  | 3 => debug
  | 4 => info
  | 5 => warn
  | 6 => error
  | 7 => fatal
  | 8 => silent
  | _ => unknown

end LogPriority

structure FilterInfo where
  mTag : List UInt8
  mPri : LogPriority
  deriving DecidableEq

/-- `AndroidLogFormat`, without the print format. -/
structure LogFormat where
  globalPri : LogPriority
  filters : List FilterInfo
  deriving DecidableEq

/-- `android_log_format_new`. -/
def formatNew : LogFormat := ⟨.error, []⟩

/-- `tolower` of the C locale. -/
def tolower (c : UInt8) : UInt8 := if ch 'A' ≤ c ∧ c ≤ ch 'Z' then c + 32 else c

def filterCharToPri (c : UInt8) : LogPriority :=
  let c := tolower c
  if ch '0' ≤ c ∧ c ≤ ch '9' then
    if ch '0' + UInt8.ofNat LogPriority.silent.value ≤ c then .verbose
    else .ofValue (c - ch '0').toNat
  else if c = ch 'v' then .verbose
  else if c = ch 'd' then .debug
  else if c = ch 'i' then .info
  else if c = ch 'w' then .warn
  else if c = ch 'e' then .error
  else if c = ch 'f' then .fatal
  else if c = ch 's' then .silent
  else if c = ch '*' then .default
  else .unknown

/-- The loop of `filterPriForTag`. -/
def filterPriLoop (globalPri : LogPriority) (tag : List UInt8) : List FilterInfo → LogPriority
  | [] => globalPri
  | p_curFilter :: p_next =>
      if tag = p_curFilter.mTag then
        if p_curFilter.mPri = .default then globalPri else p_curFilter.mPri
      else filterPriLoop globalPri tag p_next

def filterPriForTag (p_format : LogFormat) (tag : List UInt8) : LogPriority :=
  filterPriLoop p_format.globalPri tag p_format.filters

/-- `android_log_shouldPrintLine`; the priority of an entry may be any number. -/
def shouldPrintLine (p_format : LogFormat) (tag : List UInt8) (pri : Nat) : Bool :=
  (filterPriForTag p_format tag).value ≤ pri

/-- `android_log_addFilterRule`. -/
def addFilterRule (p_format : LogFormat) (filterExpression : List UInt8) : Int × LogFormat :=
  let tagNameLength := (filterExpression.takeWhile fun c => c ≠ ch ':').length
  let hasPri := filterExpression.getD tagNameLength 0 = ch ':'
  let pri :=
    if hasPri then filterCharToPri (filterExpression.getD (tagNameLength + 1) 0) else .default
  if tagNameLength = 0 then (-1, p_format)
  else if hasPri ∧ pri = .unknown then (-1, p_format)
  else if [ch '*'].take tagNameLength = filterExpression.take tagNameLength then
    (0, { p_format with globalPri := if pri = .default then .debug else pri })
  else
    let p_fi : FilterInfo :=
      ⟨filterExpression.take tagNameLength, if pri = .default then .verbose else pri⟩
    (0, { p_format with filters := p_fi :: p_format.filters })

/-- The delimiters of `android_log_addFilterString`. -/
def isDelim (c : UInt8) : Bool := c = ch ' ' || c = ch '\t' || c = ch ','

/-- `strsep`: the token and what stands behind the delimiter, if there is one. -/
def strsep : List UInt8 → List UInt8 × Option (List UInt8)
  | [] => ([], none)
  | c :: s => if isDelim c then ([], some s) else (c :: (strsep s).1, (strsep s).2)

theorem strsep_lt {s rest : List UInt8} (h : (strsep s).2 = some rest) :
    rest.length < s.length := by
  induction s with
  | nil => cases h
  | cons c s ih =>
      rw [strsep] at h
      split at h
      · obtain rfl := Option.some.inj h
        exact Nat.lt_succ_self _
      · exact (ih h).trans (Nat.lt_succ_self _)

/-- The loop of `android_log_addFilterString`. -/
def addFilterLoop (p_format : LogFormat) (p_cur : List UInt8) : Int × LogFormat :=
  let p_ret := (strsep p_cur).1
  let r := if p_ret = [] then (0, p_format) else addFilterRule p_format p_ret
  if r.1 < 0 then (-1, r.2)
  else
    match _h : (strsep p_cur).2 with
    | none => (0, r.2)
    | some rest => addFilterLoop r.2 rest
termination_by p_cur.length
decreasing_by exact strsep_lt _h

/-- `android_log_addFilterString`. -/
def addFilterString (p_format : LogFormat) (filterString : Lib.CString) : Int × LogFormat :=
  addFilterLoop p_format filterString.bytes

/-! ## What a specification says -/

/-- The expressions of a specification. -/
def expressions (s : List UInt8) : List (List UInt8) :=
  (s.splitOnP isDelim).filter fun e => e ≠ []

/-- A rule for a tag, or for all of them when the tag is `*`. -/
structure Rule where
  tag : List UInt8
  pri : LogPriority
  deriving DecidableEq

def star : List UInt8 := [ch '*']

/-- The characters that state a priority; `none` leaves it open. -/
def priorityTable : List (UInt8 × Option LogPriority) :=
  [(ch 'v', some .verbose), (ch 'V', some .verbose), (ch 'd', some .debug), (ch 'D', some .debug),
    (ch 'i', some .info), (ch 'I', some .info), (ch 'w', some .warn), (ch 'W', some .warn),
    (ch 'e', some .error), (ch 'E', some .error), (ch 'f', some .fatal), (ch 'F', some .fatal),
    (ch 's', some .silent), (ch 'S', some .silent), (ch '*', none), (ch '1', none),
    (ch '2', some .verbose), (ch '3', some .debug), (ch '4', some .info), (ch '5', some .warn),
    (ch '6', some .error), (ch '7', some .fatal), (ch '8', some .verbose), (ch '9', some .verbose)]

/-- The priority of a rule that leaves it open. -/
def openPriority (tag : List UInt8) : LogPriority := if tag = star then .debug else .verbose

/-- The rule that an expression states, if its tag is not empty and the character behind the
colon, when there is a colon, is one of the table. -/
def ruleOf (e : List UInt8) : Option Rule :=
  let tag := e.takeWhile fun c => c ≠ ch ':'
  if tag = [] then none
  else
    match e.dropWhile fun c => c ≠ ch ':' with
    | [] => some ⟨tag, openPriority tag⟩
    | _ :: rest => (rest.head?.bind (priorityTable.lookup ·)).map fun pri =>
        ⟨tag, pri.getD (openPriority tag)⟩

/-- The rules in front of the first expression that states none. -/
def rulesBefore : List (List UInt8) → List Rule
  | [] => []
  | e :: es => (ruleOf e).elim [] fun r => r :: rulesBefore es

/-- The priority of the last rule for a tag. -/
def lastPri (rules : List Rule) (tag : List UInt8) : Option LogPriority :=
  (rules.reverse.find? fun r => r.tag = tag).map Rule.pri

/-- The least priority that is printed for a tag. -/
def level (rules : List Rule) (tag : List UInt8) : LogPriority :=
  (lastPri rules tag).getD ((lastPri rules star).getD .error)

/-! ## One expression -/

/-- The table says what `filterCharToPri` computes. -/
theorem filterCharToPri_eq (c : UInt8) :
    filterCharToPri c = (priorityTable.lookup c).elim .unknown (·.getD .default) := by
  have hall : ∀ n < 256, filterCharToPri (UInt8.ofNat n) =
      (priorityTable.lookup (UInt8.ofNat n)).elim .unknown (·.getD .default) := by decide +kernel
  have hc := hall c.toNat c.toNat_lt
  rwa [UInt8.ofNat_toNat] at hc

/-- No priority of the table is one of the two that stand for none. -/
theorem priorityTable_pri {c : UInt8} {pri : LogPriority}
    (h : priorityTable.lookup c = some (some pri)) : pri ≠ .unknown ∧ pri ≠ .default := by
  have hall : ∀ entry ∈ priorityTable, ∀ pri ∈ entry.2, pri ≠ .unknown ∧ pri ≠ .default := by
    decide
  obtain ⟨front, behind, htable, -⟩ := List.lookup_eq_some_iff.mp h
  exact hall (c, some pri) (htable ▸ List.mem_append_right front List.mem_cons_self) pri rfl

theorem openPriority_ne (tag : List UInt8) :
    openPriority tag ≠ .default := by
  unfold openPriority
  split
  · decide
  · decide

theorem ruleOf_pri_ne {e : List UInt8} {r : Rule} (h : ruleOf e = some r) : r.pri ≠ .default := by
  unfold ruleOf at h
  dsimp only at h
  split at h
  · cases h
  · split at h
    · obtain rfl := Option.some.inj h
      exact openPriority_ne _
    · obtain ⟨stated, hstated, rfl⟩ := Option.map_eq_some_iff.mp h
      obtain ⟨c, -, hc⟩ := Option.bind_eq_some_iff.mp hstated
      cases stated with
      | none => exact openPriority_ne _
      | some pri => exact (priorityTable_pri hc).2

/-- A rule is added. -/
def LogFormat.add (p_format : LogFormat) (r : Rule) : LogFormat :=
  if r.tag = star then { p_format with globalPri := r.pri }
  else { p_format with filters := ⟨r.tag, r.pri⟩ :: p_format.filters }

/-- The comparison with `*` over the length of the tag. -/
theorem take_star {e tag : List UInt8} (htag : e.take tag.length = tag) (hne : tag ≠ []) :
    [ch '*'].take tag.length = e.take tag.length ↔ tag = star := by
  rw [htag]
  obtain ⟨c, rest, rfl⟩ := List.exists_cons_of_ne_nil hne
  rw [List.length_cons, List.take_succ_cons, List.take_nil]
  exact eq_comm

/-- The last part of `addFilterRule` adds the rule. -/
theorem add_eq (p_format : LogFormat) (tag : List UInt8) (pri : LogPriority) :
    (if tag = star then
        ((0 : Int), { p_format with globalPri := if pri = .default then .debug else pri })
      else
        (0, { p_format with
          filters := ⟨tag, if pri = .default then .verbose else pri⟩ :: p_format.filters })) =
      (0, p_format.add ⟨tag, if pri = .default then openPriority tag else pri⟩) := by
  unfold LogFormat.add openPriority
  by_cases htag : tag = star
  · rw [if_pos htag, if_pos htag, if_pos htag]
  · rw [if_neg htag, if_neg htag, if_neg htag]

/-- What stands behind a colon, as `filterCharToPri` reads it. -/
theorem filterCharToPri_headD (rest : List UInt8) :
    filterCharToPri (rest.headD 0) =
      (rest.head?.bind (priorityTable.lookup ·)).elim .unknown (·.getD .default) := by
  rw [filterCharToPri_eq]
  cases rest with
  | nil => rfl
  | cons c rest => rfl

theorem addFilterRule_eq (p_format : LogFormat) (e : List UInt8) :
    addFilterRule p_format e =
      (ruleOf e).elim (-1, p_format) fun r => (0, p_format.add r) := by
  have hsplit := List.takeWhile_append_dropWhile (p := fun c => c ≠ ch ':') (l := e)
  have hcolon := List.head?_dropWhile_not (fun c => c ≠ ch ':') e
  unfold addFilterRule ruleOf
  dsimp only
  generalize (e.takeWhile fun c => c ≠ ch ':') = tag at *
  generalize (e.dropWhile fun c => c ≠ ch ':') = behind at *
  subst hsplit
  have htake : (tag ++ behind).take tag.length = tag := List.take_left
  by_cases hempty : tag = []
  · rw [if_pos (by simp [hempty]), if_pos hempty]
    rfl
  · rw [if_neg (by simpa using hempty), if_neg hempty, htake]
    have hstar := take_star htake hempty
    rw [htake] at hstar
    simp only [hstar]
    cases behind with
    | nil =>
        have hchar : (tag ++ []).getD tag.length 0 = 0 := by simp
        have hnot : (0 : UInt8) ≠ ch ':' := by decide
        rw [hchar, if_neg hnot, if_neg (fun h => hnot h.1), add_eq]
        rfl
    | cons c rest =>
        have hc : c = ch ':' := by simpa using hcolon
        have hchar : (tag ++ c :: rest).getD tag.length 0 = ch ':' := by simp [hc]
        have hnext : (tag ++ c :: rest).getD (tag.length + 1) 0 = rest.headD 0 := by
          cases rest <;> simp [List.getD_eq_getElem?_getD]
        rw [hchar, hnext, if_pos rfl, filterCharToPri_headD]
        dsimp only
        cases hstated : rest.head?.bind (priorityTable.lookup ·) with
        | none => rfl
        | some o =>
            rw [Option.elim_some]
            cases o with
            | none =>
                rw [if_neg (fun h => by cases h.2), add_eq]
                rfl
            | some pri =>
                obtain ⟨x, -, hx⟩ := Option.bind_eq_some_iff.mp hstated
                obtain ⟨hknown, hset⟩ := priorityTable_pri hx
                rw [Option.getD_some, if_neg (fun h => hknown h.2), add_eq, if_neg hset]
                rfl

/-! ## A specification -/

/-- The rules are added up to the first expression that states none. -/
def addAll : LogFormat → List (List UInt8) → Int × LogFormat
  | p_format, [] => (0, p_format)
  | p_format, e :: es => (ruleOf e).elim (-1, p_format) fun r => addAll (p_format.add r) es

theorem splitOnP_strsep (s : List UInt8) :
    s.splitOnP isDelim =
      (strsep s).1 :: (strsep s).2.elim [] fun rest => rest.splitOnP isDelim := by
  induction s with
  | nil => rfl
  | cons c s ih =>
      rw [List.splitOnP_cons_eq_if_modifyHead, strsep]
      split
      · rfl
      · rw [ih]
        rfl

theorem expressions_strsep (s : List UInt8) :
    expressions s = (if (strsep s).1 = [] then [] else [(strsep s).1]) ++
      (strsep s).2.elim [] expressions := by
  unfold expressions
  rw [splitOnP_strsep, List.filter_cons]
  cases (strsep s).2 <;> by_cases h : (strsep s).1 = [] <;> simp [h]

theorem addFilterLoop_eq (p_format : LogFormat) (s : List UInt8) :
    addFilterLoop p_format s = addAll p_format (expressions s) := by
  induction hn : s.length using Nat.strong_induction_on generalizing p_format s with
  | _ n ih =>
      subst hn
      -- what the rest of the loop does with the state behind this token
      have hrest : ∀ f : LogFormat, (match _h : (strsep s).2 with
          | none => (0, f)
          | some rest => addFilterLoop f rest) =
            addAll f ((strsep s).2.elim [] expressions) := by
        intro f
        split
        · rename_i h
          rw [h]
          rfl
        · rename_i rest h
          rw [h]
          exact ih rest.length (strsep_lt h) f rest rfl
      rw [addFilterLoop, expressions_strsep]
      by_cases htoken : (strsep s).1 = []
      · simp only [if_pos htoken]
        exact hrest p_format
      · simp only [if_neg htoken, addFilterRule_eq, List.singleton_append, addAll]
        cases ruleOf (strsep s).1 with
        | none => rfl
        | some r => exact hrest (p_format.add r)

/-- The rules of the expressions are added, and the result tells whether each has one. -/
theorem addAll_eq (p_format : LogFormat) (es : List (List UInt8)) :
    addAll p_format es =
      (if ∃ e ∈ es, ruleOf e = none then -1 else 0,
        (rulesBefore es).foldl LogFormat.add p_format) := by
  induction es generalizing p_format with
  | nil => rfl
  | cons e es ih =>
      rw [addAll, rulesBefore]
      cases h : ruleOf e with
      | none => simp [h]
      | some r => simp [h, ih]

/-! ## The meaning of the rules -/

theorem lastPri_append (rules : List Rule) (r : Rule) (tag : List UInt8) :
    lastPri (rules ++ [r]) tag = if r.tag = tag then some r.pri else lastPri rules tag := by
  unfold lastPri
  rw [List.reverse_append, List.reverse_singleton, List.singleton_append, List.find?_cons]
  by_cases h : r.tag = tag <;> simp [h]

/-- The state behind some rules: the global priority is that of the last rule for `*`, and the
search for another tag finds that of its last rule. -/
structure Represents (p_format : LogFormat) (rules : List Rule) : Prop where
  global : p_format.globalPri = (lastPri rules star).getD .error
  search : ∀ globalPri tag, filterPriLoop globalPri tag p_format.filters =
    if tag = star then globalPri else (lastPri rules tag).getD globalPri

theorem represents_new : Represents formatNew [] where
  global := rfl
  search globalPri tag := by
    split
    · rfl
    · rfl

theorem Represents.add {p_format : LogFormat} {rules : List Rule} (h : Represents p_format rules)
    {r : Rule} (hset : r.pri ≠ .default) : Represents (p_format.add r) (rules ++ [r]) := by
  unfold LogFormat.add
  split
  · rename_i hstar
    refine ⟨by rw [lastPri_append, if_pos hstar]; rfl, fun globalPri tag => ?_⟩
    dsimp only
    rw [h.search]
    by_cases htag : tag = star
    · rw [if_pos htag, if_pos htag]
    · have hne : r.tag ≠ tag := fun heq => htag (heq.symm.trans hstar)
      rw [if_neg htag, if_neg htag, lastPri_append, if_neg hne]
  · rename_i hother
    refine ⟨by rw [lastPri_append, if_neg hother]; exact h.global, fun globalPri tag => ?_⟩
    rw [filterPriLoop, h.search, if_neg hset, lastPri_append]
    by_cases hsame : tag = r.tag
    · rw [if_pos hsame, if_pos hsame.symm, if_neg (hsame ▸ hother)]
      rfl
    · have hne : r.tag ≠ tag := fun heq => hsame heq.symm
      rw [if_neg hsame, if_neg hne]

theorem Represents.foldl {p_format : LogFormat} {rules : List Rule} (h : Represents p_format rules)
    {more : List Rule} (hset : ∀ r ∈ more, r.pri ≠ .default) :
    Represents (more.foldl LogFormat.add p_format) (rules ++ more) := by
  induction more generalizing p_format rules with
  | nil => simpa using h
  | cons r more ih =>
      obtain ⟨hr, hmore⟩ := List.forall_mem_cons.mp hset
      have hrest := ih (h.add hr) hmore
      rw [List.append_assoc, List.singleton_append] at hrest
      exact hrest

theorem Represents.filterPriForTag {p_format : LogFormat} {rules : List Rule}
    (h : Represents p_format rules) (tag : List UInt8) :
    filterPriForTag p_format tag = level rules tag := by
  unfold Logcat.filterPriForTag level
  rw [h.search, h.global]
  split
  · rename_i hstar
    rw [hstar]
    cases lastPri rules star <;> rfl
  · rfl

theorem rulesBefore_pri_ne {es : List (List UInt8)} {r : Rule} (h : r ∈ rulesBefore es) :
    r.pri ≠ .default := by
  induction es with
  | nil => cases h
  | cons e es ih =>
      rw [rulesBefore] at h
      cases hrule : ruleOf e with
      | none =>
          rw [hrule] at h
          cases h
      | some r' =>
          rw [hrule, Option.elim_some, List.mem_cons] at h
          obtain rfl | h := h
          · exact ruleOf_pri_ne hrule
          · exact ih h

theorem rulesBefore_of_good {es : List (List UInt8)} (h : ¬ ∃ e ∈ es, ruleOf e = none) :
    rulesBefore es = es.filterMap ruleOf := by
  induction es with
  | nil => rfl
  | cons e es ih =>
      obtain ⟨r, hr⟩ := Option.ne_none_iff_exists'.mp fun hnone =>
        h ⟨e, List.mem_cons_self, hnone⟩
      have hrest := ih fun ⟨e', he', hnone⟩ => h ⟨e', List.mem_cons_of_mem e he', hnone⟩
      rw [rulesBefore, List.filterMap_cons, hr, hrest]
      rfl

/-- The state after some filter strings, accepted or not. -/
def addFilterStrings (strings : List Lib.CString) : LogFormat :=
  strings.foldl (fun p_format s => (addFilterString p_format s).2) formatNew

/-- The rules of the strings, of each one those in front of its first bad expression. -/
def rulesOf (strings : List Lib.CString) : List Rule :=
  strings.flatMap fun s => rulesBefore (expressions s.bytes)

theorem rulesOf_pri_ne {strings : List Lib.CString} {r : Rule} (h : r ∈ rulesOf strings) :
    r.pri ≠ .default := by
  obtain ⟨s, -, hr⟩ := List.mem_flatMap.mp h
  exact rulesBefore_pri_ne hr

theorem addFilterString_eq (p_format : LogFormat) (s : Lib.CString) :
    addFilterString p_format s =
      (if ∃ e ∈ expressions s.bytes, ruleOf e = none then -1 else 0,
        (rulesBefore (expressions s.bytes)).foldl LogFormat.add p_format) := by
  rw [addFilterString, addFilterLoop_eq, addAll_eq]

theorem addFilterStrings_eq (strings : List Lib.CString) :
    addFilterStrings strings = (rulesOf strings).foldl LogFormat.add formatNew := by
  unfold addFilterStrings rulesOf
  rw [List.foldl_flatMap]
  refine congrArg (fun f => strings.foldl f formatNew) ?_
  funext p_format s
  rw [addFilterString_eq]

/-- Behind any filter strings, a line is printed when its priority reaches that of the last rule
for its tag, of the last rule for `*`, or `ERROR`.  One more string is accepted when all its
expressions state rules, and adds those in front of the first one that does not. -/
theorem shouldPrintLine_addFilterStrings (strings : List Lib.CString) (tag : List UInt8)
    (pri : Nat) (s : Lib.CString) :
    shouldPrintLine (addFilterStrings strings) tag pri =
        decide ((level (rulesOf strings) tag).value ≤ pri) ∧
      ((addFilterString (addFilterStrings strings) s).1 = -1 ↔
        ∃ e ∈ expressions s.bytes, ruleOf e = none) ∧
      ((addFilterString (addFilterStrings strings) s).1 ≠ -1 →
        (addFilterString (addFilterStrings strings) s).1 = 0 ∧
          rulesOf (strings ++ [s]) =
            rulesOf strings ++ (expressions s.bytes).filterMap ruleOf) ∧
      (addFilterString (addFilterStrings strings) s).2 = addFilterStrings (strings ++ [s]) ∧
      rulesOf (strings ++ [s]) = rulesOf strings ++ rulesBefore (expressions s.bytes) := by
  have hadded : rulesOf (strings ++ [s]) =
      rulesOf strings ++ rulesBefore (expressions s.bytes) := by simp [rulesOf]
  refine ⟨?_, ?_, ?_, ?_, hadded⟩
  · have hrep := represents_new.foldl fun r (hr : r ∈ rulesOf strings) => rulesOf_pri_ne hr
    rw [List.nil_append, ← addFilterStrings_eq] at hrep
    rw [shouldPrintLine, hrep.filterPriForTag]
  · rw [addFilterString_eq]
    dsimp only
    split
    · rename_i hbad
      exact iff_of_true rfl hbad
    · rename_i hgood
      exact iff_of_false (by decide) hgood
  · rw [addFilterString_eq, hadded]
    dsimp only
    split
    · exact fun hne => absurd rfl hne
    · rename_i hgood
      exact fun _ => ⟨rfl, by rw [rulesBefore_of_good hgood]⟩
  · simp [addFilterStrings]

end Logcat
end AndroidLinux
