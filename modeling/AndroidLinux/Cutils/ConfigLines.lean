import AndroidLinux.Cutils.ConfigParse
import AndroidLinux.Lib.CString

/-!
# Files of names and values

A file of lines with a name and a value each sets the values one after the other, and
`config_str` gives the last one.  What a value loses at the end of a line, it keeps at the end of
the input.
-/

namespace AndroidLinux
namespace Cutils
namespace Config

open Lib

/-- A line with a name and a value, without the newline. -/
structure NameValue where
  name : List UInt8
  gap : List UInt8
  value : List UInt8
  trailing : List UInt8

namespace NameValue

def bytes (l : NameValue) : List UInt8 := l.name ++ (l.gap ++ (l.value ++ l.trailing))

/-- The name has no byte with a meaning, and does not begin a comment; the value begins with none
of these and ends with no blank. -/
structure WellFormed (l : NameValue) : Prop where
  name : ∃ c rest, l.name = c :: rest ∧ c ≠ hash ∧ ∀ x ∈ l.name, isNameChar x
  gap_ne : l.gap ≠ []
  gap : ∀ c ∈ l.gap, isspace c ∧ c ≠ newline
  value : ∃ c rest, l.value = c :: rest ∧ c ≠ hash ∧ isNameChar c
  value_line : newline ∉ l.value
  value_trim : trim l.value = l.value
  trailing : ∀ c ∈ l.trailing, isspace c ∧ c ≠ newline

end NameValue

/-- Lines that end with a newline, and possibly one that the end of the input ends. -/
def fileText (lines : List NameValue) (last : Option NameValue) : List UInt8 :=
  lines.flatMap (fun l => l.bytes ++ [newline]) ++ last.elim [] NameValue.bytes

/-- The value that the last line for a name gives it. -/
def lastValue (lines : List NameValue) (name default : List UInt8) : List UInt8 :=
  lines.foldl (fun value l => if l.name = name then l.value else value) default

/-- A value is the text from the first byte behind its name that is no blank, up to the end of the
line or of the input, without the white space at its end.  A comment is blank. -/
def Stored.Right (s : Stored) : Prop :=
  ∃ text, s.after = text ++ [0] ∧ s.value = trim (line (Config.skip false text))

/-- The promise for an input: it is read within its bounds, the values are right, and a file of
lines gives each name the value of its last line. -/
def LoadsValues (text : List UInt8) : Prop :=
  ∀ passes, text.length < passes → ∀ root, ∃ root' stored,
    config_load passes root (text ++ [0]) = .ok (root', stored) ∧
      (∀ s ∈ stored, s.Right) ∧
      ∀ lines last, (∀ l ∈ lines ++ last.toList, NameValue.WellFormed l) →
        text = fileText lines last → ∀ name default,
          config_str root' name default =
            lastValue (lines ++ last.toList) name (config_str root name default)

/-- The machine comes to a value that the end of the input ends, with white space behind it. -/
def EndsInValueBlank (text : List UInt8) : Prop :=
  ∃ values, Visits .name 0 text values ∧ ∃ v ∈ values, newline ∉ v ∧ trim v ≠ v

/-! ## The tree -/

/-- What a line does to the tree. -/
def assign (root : CNode) (name value : List UInt8) : CNode :=
  let place := exprPlace root name
  root.setChildren (place.1 ++ place.2.1.setValue value :: place.2.2)

/-- The last child of a name. -/
def lastNamed (name : List UInt8) (nodes : List CNode) : Option CNode :=
  nodes.reverse.find? fun node => node.name = name

theorem findLast_spec (name : List UInt8) (nodes : List CNode) :
    (findLast name nodes = none ∧ lastNamed name nodes = none) ∨
      ∃ before node behind, findLast name nodes = some (before, node, behind) ∧
        nodes = before ++ node :: behind ∧ node.name = name ∧ lastNamed name behind = none := by
  induction nodes with
  | nil => exact .inl ⟨rfl, rfl⟩
  | cons node nodes ih =>
      rw [findLast]
      rcases ih with ⟨hnone, hlast⟩ | ⟨before, found, behind, hsome, rfl, hname, hlast⟩
      · rw [hnone]
        dsimp only
        by_cases hnode : node.name = name
        · rw [if_pos hnode]
          exact .inr ⟨[], node, nodes, rfl, rfl, hnode, hlast⟩
        · rw [if_neg hnode]
          refine .inl ⟨rfl, ?_⟩
          rw [lastNamed, List.reverse_cons, List.find?_append]
          change (lastNamed name nodes).or _ = none
          rw [hlast, Option.none_or, List.find?_singleton, if_neg (by simpa using hnode)]
      · rw [hsome]
        exact .inr ⟨node :: before, found, behind, rfl, rfl, hname, hlast⟩

theorem lastNamed_append (name : List UInt8) (before behind : List CNode) (node : CNode) :
    lastNamed name (before ++ node :: behind) =
      (lastNamed name behind).or
        (if node.name = name then some node else lastNamed name before) := by
  unfold lastNamed
  rw [List.reverse_append, List.reverse_cons, List.append_assoc, List.find?_append,
    List.singleton_append, List.find?_cons]
  congr 1
  by_cases hname : node.name = name <;> simp [hname]

theorem config_find_eq (root : CNode) (name : List UInt8) :
    config_find root name = lastNamed name root.children := by
  unfold config_find
  rcases findLast_spec name root.children with
    ⟨hnone, hlast⟩ | ⟨before, node, behind, hsome, hchildren, hname, hlast⟩
  · rw [hnone, hlast]
    rfl
  · rw [hsome, hchildren, lastNamed_append, hlast, if_pos hname]
    rfl

@[simp] theorem CNode.name_setValue (node : CNode) (value : List UInt8) :
    (node.setValue value).name = node.name := by
  cases node
  rfl

@[simp] theorem CNode.value_setValue (node : CNode) (value : List UInt8) :
    (node.setValue value).value = value := by
  cases node
  rfl

@[simp] theorem CNode.children_setChildren (node : CNode) (children : List CNode) :
    (node.setChildren children).children = children := by
  cases node
  rfl

/-- The node of the place has the name, and no node behind it has. -/
theorem exprPlace_spec (root : CNode) (name : List UInt8) :
    (exprPlace root name).2.1.name = name ∧ lastNamed name (exprPlace root name).2.2 = none ∧
      ∀ name', name' ≠ name → lastNamed name' root.children =
        (lastNamed name' (exprPlace root name).2.2).or
          (lastNamed name' (exprPlace root name).1) := by
  have hnew : (CNode.mk name [] []).name = name ∧ lastNamed name [] = none ∧
      ∀ name', name' ≠ name → lastNamed name' root.children =
        (lastNamed name' []).or (lastNamed name' root.children) :=
    ⟨rfl, rfl, fun name' _ => Option.none_or.symm⟩
  unfold exprPlace
  rcases findLast_spec name root.children with
    ⟨hnone, -⟩ | ⟨before, node, behind, hsome, hchildren, hname, hlast⟩
  · rw [hnone]
    exact hnew
  · rw [hsome]
    dsimp only
    split
    · exact hnew
    · refine ⟨hname, hlast, fun name' hne => ?_⟩
      rw [hchildren, lastNamed_append, if_neg (fun heq => hne (heq.symm.trans hname))]

/-- A line gives its name the value, and leaves the other names. -/
theorem config_str_assign (root : CNode) (name value name' default : List UInt8) :
    config_str (assign root name value) name' default =
      if name = name' then value else config_str root name' default := by
  obtain ⟨hname, hlast, hother⟩ := exprPlace_spec root name
  unfold config_str
  rw [config_find_eq, config_find_eq, assign, CNode.children_setChildren, lastNamed_append,
    CNode.name_setValue, hname]
  by_cases hsame : name = name'
  · subst hsame
    rw [hlast, if_pos rfl, if_pos rfl, Option.none_or]
    exact CNode.value_setValue _ value
  · rw [if_neg hsame, if_neg hsame, hother name' (Ne.symm hsame)]

/-! ## The lexemes of a line -/

theorem skip_blanks {blanks : List UInt8} (h : ∀ c ∈ blanks, isspace c) (text : List UInt8) :
    skip false (blanks ++ text) = skip false text := by
  induction blanks with
  | nil => rfl
  | cons c blanks ih =>
      obtain ⟨hc, hblanks⟩ := List.forall_mem_cons.mp h
      rw [List.cons_append, skip, if_pos hc, ih hblanks]

/-- Behind blanks begins a name or a value. -/
theorem lexeme_text {blanks : List UInt8} (h : ∀ c ∈ blanks, isspace c) {c : UInt8}
    (hc : isNameChar c = true) (hhash : c ≠ hash) (rest : List UInt8) :
    lexeme (blanks ++ c :: rest) = .text c rest := by
  obtain ⟨hspace, -, hdot, hobrace, hcbrace⟩ := isNameChar_iff.mp hc
  rw [lexeme, skip_blanks h, skip, if_neg (Bool.eq_false_iff.mp hspace), if_neg hhash]
  dsimp only
  rw [if_neg hdot, if_neg hobrace, if_neg hcbrace]

theorem afterName_space {name rest : List UInt8} {c : UInt8} (hname : ∀ x ∈ name, isNameChar x)
    (hc : isspace c = true) : afterName (name ++ c :: rest) = rest := by
  have hstop : ¬ isNameChar c = true := fun h => by
    rw [(isNameChar_iff.mp h).1] at hc
    cases hc
  rw [afterName, List.dropWhile_append_of_pos hname, List.dropWhile_cons_of_neg hstop]
  exact if_pos hc

theorem takeWhile_name {name rest : List UInt8} {c : UInt8} (hname : ∀ x ∈ name, isNameChar x)
    (hc : isspace c = true) : (name ++ c :: rest).takeWhile isNameChar = name := by
  have hstop : ¬ isNameChar c = true := fun h => by
    rw [(isNameChar_iff.mp h).1] at hc
    cases hc
  rw [List.takeWhile_append_of_pos hname, List.takeWhile_cons_of_neg hstop, List.append_nil]

theorem trim_append {value trailing : List UInt8} (hvalue : trim value = value)
    (htrailing : ∀ c ∈ trailing, isspace c) : trim (value ++ trailing) = value := by
  have hall : ∀ c ∈ trailing.reverse, isspace c := fun c hc =>
    htrailing c (List.mem_reverse.mp hc)
  rw [trim, List.rdropWhile, List.reverse_append, List.dropWhile_append_of_pos hall]
  exact hvalue

/-- What ends a line: a newline and more text, or the end of the input. -/
inductive LineEnd : List UInt8 → List UInt8 → Prop
  | inner (rest : List UInt8) : LineEnd (newline :: rest) rest
  | last : LineEnd [] []

theorem LineEnd.afterLine {text ending rest : List UInt8} (h : LineEnd ending rest)
    (htext : newline ∉ text) : afterLine (text ++ ending) = rest := by
  have hall : ∀ x ∈ text, decide (x ≠ newline) = true := fun x hx =>
    decide_eq_true fun heq => htext (heq ▸ hx)
  rw [Config.afterLine, List.dropWhile_append_of_pos hall]
  cases h with
  | inner rest => rw [List.dropWhile_cons_of_neg (by simp), List.tail_cons]
  | last => rfl

/-- The value of a line is found, unless white space stands between it and the end of the
input. -/
theorem NameValue.WellFormed.lexedValue_eq {l : NameValue} (h : l.WellFormed)
    {ending rest : List UInt8} (hend : LineEnd ending rest)
    (hcut : ending = [] → trim (l.value ++ l.trailing) = l.value ++ l.trailing) :
    lexedValue (l.value ++ (l.trailing ++ ending)) = l.value := by
  have htrim := trim_append h.value_trim fun c hc => (h.trailing c hc).1
  have hline : newline ∉ l.value ++ l.trailing := fun hmem =>
    (List.mem_append.mp hmem).elim h.value_line fun htr => (h.trailing _ htr).2 rfl
  rw [← List.append_assoc, lexedValue]
  cases hend with
  | inner rest =>
      have hall : ∀ x ∈ l.value ++ l.trailing, decide (x ≠ newline) = true := fun x hx =>
        decide_eq_true fun heq => hline (heq ▸ hx)
      rw [if_pos (List.mem_append_right _ List.mem_cons_self), line,
        List.takeWhile_append_of_pos hall, List.takeWhile_cons_of_neg (by simp), List.append_nil,
        htrim]
  | last =>
      rw [List.append_nil, if_neg hline, ← hcut rfl, htrim]

/-- The two lexemes of a line. -/
theorem NameValue.WellFormed.lexemes {l : NameValue} (h : l.WellFormed)
    {ending rest : List UInt8} (hend : LineEnd ending rest) :
    ∃ n ns v vs, lexeme (l.bytes ++ ending) = .text n ns ∧
      n :: ns.takeWhile isNameChar = l.name ∧ lexeme (afterName ns) = .text v vs ∧
      v :: vs = l.value ++ (l.trailing ++ ending) ∧ afterLine vs = rest := by
  obtain ⟨n, ns, hname, hhash, hall⟩ := h.name
  obtain ⟨g, gs, hgap⟩ := List.exists_cons_of_ne_nil h.gap_ne
  obtain ⟨v, vs, hvalue, hvhash, hv⟩ := h.value
  have hg := h.gap
  rw [hgap] at hg
  obtain ⟨⟨hgspace, -⟩, hgs⟩ := List.forall_mem_cons.mp hg
  rw [hname] at hall
  obtain ⟨hn, hns⟩ := List.forall_mem_cons.mp hall
  have htail : newline ∉ vs ++ l.trailing := fun hmem =>
    (List.mem_append.mp hmem).elim
      (fun hm => h.value_line (hvalue ▸ List.mem_cons_of_mem v hm))
      fun htr => (h.trailing _ htr).2 rfl
  have hbytes : l.bytes ++ ending =
      [] ++ n :: (ns ++ g :: (gs ++ v :: (vs ++ (l.trailing ++ ending)))) := by
    simp only [NameValue.bytes, hname, hgap, hvalue, List.append_assoc, List.cons_append,
      List.nil_append]
  refine ⟨n, ns ++ g :: (gs ++ v :: (vs ++ (l.trailing ++ ending))), v,
    vs ++ (l.trailing ++ ending), ?_, ?_, ?_, ?_, ?_⟩
  · rw [hbytes]
    exact lexeme_text (List.forall_mem_nil _) hn hhash _
  · rw [takeWhile_name hns hgspace, hname]
  · rw [afterName_space hns hgspace]
    exact lexeme_text (fun c hc => (hgs c hc).1) hv hvhash _
  · rw [hvalue, List.cons_append]
  · rw [← List.append_assoc, hend.afterLine htail]

/-- The machine comes to the value of a line. -/
theorem NameValue.WellFormed.visits {l : NameValue} (h : l.WellFormed)
    {ending rest : List UInt8} (hend : LineEnd ending rest) {values : List (List UInt8)}
    (hrest : Visits .name 0 rest values) :
    Visits .name 0 (l.bytes ++ ending) ((l.value ++ (l.trailing ++ ending)) :: values) := by
  obtain ⟨n, ns, v, vs, hname, -, hvalue, hvs, hafter⟩ := h.lexemes hend
  have hadvance : advance .name 0 (l.bytes ++ ending) = some (none, .value, 0, afterName ns) := by
    rw [advance, hname]
  refine .skip hadvance ?_
  rw [← hvs]
  exact Visits.step (v := some (v :: vs)) (by rw [advance, hvalue]; dsimp only; rw [hafter]) hrest

/-- A line is loaded: its name gets its value. -/
theorem NameValue.WellFormed.loadLoop_line {l : NameValue} (h : l.WellFormed)
    {ending rest : List UInt8} (hend : LineEnd ending rest)
    (hcut : ending = [] → trim (l.value ++ l.trailing) = l.value ++ l.trailing) {cs : CState}
    (hreads : cs.Reads (l.bytes ++ ending)) {passes : Nat}
    (hpasses : (l.bytes ++ ending).length < passes + 1) (root : CNode) :
    ∃ cs' s, cs'.Reads rest ∧ rest.length < passes ∧
      loadLoop (passes + 1) cs root =
        match loadLoop passes cs' (assign root l.name l.value) with
        | .error fault => .error fault
        | .ok (root', stored) => .ok (root', s ++ stored) := by
  obtain ⟨n, ns, v, vs, hname, htake, hvalue, hvs, hafter⟩ := h.lexemes hend
  have hless : ns.length < (l.bytes ++ ending).length :=
    length_rest hname (fun heq => by cases heq)
  have hless' : vs.length < (afterName ns).length := length_rest hvalue (fun heq => by cases heq)
  have hle := length_afterName_le ns
  have hle' := length_afterLine_le vs
  rw [hafter] at hle'
  obtain ⟨token, cs₁, hlex, hlexed⟩ := lex_eq hreads false
  cases hlexed with
  | eof h' => rw [h'] at hname; cases hname
  | dot h' _ => rw [h'] at hname; cases hname
  | obrace h' _ => rw [h'] at hname; cases hname
  | cbrace h' _ => rw [h'] at hname; cases hname
  | value hf _ _ _ => cases hf
  | name _ h' htext hreads₁ =>
      rw [h'] at hname
      obtain ⟨rfl, rfl⟩ := Lexeme.text.inj hname
      rw [htake] at htext
      obtain ⟨token₂, cs₂, hlex₂, hlexed₂⟩ := lex_eq hreads₁ true
      cases hlexed₂ with
      | eof h₂ => rw [h₂] at hvalue; cases hvalue
      | dot h₂ _ => rw [h₂] at hvalue; cases hvalue
      | obrace h₂ _ => rw [h₂] at hvalue; cases hvalue
      | cbrace h₂ _ => rw [h₂] at hvalue; cases hvalue
      | name hf _ _ _ => cases hf
      | value _ h₂ htext₂ hreads₂ =>
          rw [h₂] at hvalue
          obtain ⟨rfl, rfl⟩ := Lexeme.text.inj hvalue
          rw [hvs, h.lexedValue_eq hend hcut] at htext₂
          rw [hafter] at hreads₂
          obtain ⟨k, rfl⟩ : ∃ k, passes = k + 1 := ⟨passes - 1, by omega⟩
          refine ⟨cs₂, [⟨cs₁.pending, l.value⟩], hreads₂, by omega, ?_⟩
          rw [loadLoop, hlex]
          dsimp only
          unfold parse_expr
          dsimp only
          rw [exprLoop, hlex₂]
          dsimp only
          rw [if_neg (not_not.mpr rfl), htext, htext₂]
          rfl

/-! ## Files -/

theorem fileText_cons (l : NameValue) (lines : List NameValue) (last : Option NameValue) :
    fileText (l :: lines) last = l.bytes ++ (newline :: fileText lines last) := by
  rw [fileText, List.flatMap_cons, List.append_assoc, List.append_assoc, List.singleton_append]
  rfl

theorem advance_nil : advance .name 0 [] = none := rfl

/-- The machine comes to the value of the last line. -/
theorem visits_last {lines : List NameValue} {l : NameValue}
    (h : ∀ m ∈ lines ++ [l], NameValue.WellFormed m) :
    ∃ values, Visits .name 0 (fileText lines (some l)) values ∧
      l.value ++ l.trailing ∈ values := by
  induction lines with
  | nil =>
      have hvisits := (h l List.mem_cons_self).visits .last (.stop advance_nil)
      rw [List.append_nil, List.append_nil] at hvisits
      exact ⟨_, hvisits, List.mem_cons_self⟩
  | cons m lines ih =>
      obtain ⟨hm, hlines⟩ := List.forall_mem_cons.mp h
      obtain ⟨values, hvisits, hmem⟩ := ih hlines
      rw [fileText_cons]
      exact ⟨_, hm.visits (.inner _) hvisits, List.mem_cons_of_mem _ hmem⟩

theorem loadLoop_nil {passes : Nat} {cs : CState} (h : cs.Reads []) (hpasses : 0 < passes)
    (root : CNode) : loadLoop passes cs root = .ok (root, []) := by
  obtain ⟨k, rfl⟩ : ∃ k, passes = k + 1 := ⟨passes - 1, by omega⟩
  obtain ⟨token, cs', hlex, hlexed⟩ := lex_eq h false
  rw [loadLoop, hlex]
  cases hlexed with
  | eof _ => rfl
  | dot h' _ => cases h'
  | obrace h' _ => cases h'
  | cbrace h' _ => cases h'
  | name _ h' _ _ => cases h'
  | value hf _ _ _ => cases hf

/-- The lines are loaded one after the other. -/
theorem loadLoop_fileText {lines : List NameValue} {last : Option NameValue}
    (h : ∀ l ∈ lines ++ last.toList, NameValue.WellFormed l)
    (hcut : ∀ l ∈ last, trim (l.value ++ l.trailing) = l.value ++ l.trailing) {passes : Nat}
    {cs : CState} (hreads : cs.Reads (fileText lines last))
    (hpasses : (fileText lines last).length < passes) (root : CNode) :
    ∃ stored, loadLoop passes cs root =
      .ok ((lines ++ last.toList).foldl (fun root l => assign root l.name l.value) root,
        stored) := by
  induction lines generalizing passes cs root with
  | nil =>
      cases last with
      | none => exact ⟨[], loadLoop_nil hreads (by omega) root⟩
      | some l =>
          have hbytes : fileText [] (some l) = l.bytes ++ [] := (List.append_nil _).symm
          rw [hbytes] at hreads hpasses
          obtain ⟨k, rfl⟩ : ∃ k, passes = k + 1 := ⟨passes - 1, by omega⟩
          obtain ⟨cs', s, hreads', hlt, hload⟩ := (h l List.mem_cons_self).loadLoop_line .last
            (fun _ => hcut l rfl) hreads hpasses root
          rw [hload, loadLoop_nil hreads' hlt]
          exact ⟨_, rfl⟩
  | cons l lines ih =>
      obtain ⟨hl, hlines⟩ := List.forall_mem_cons.mp h
      rw [fileText_cons] at hreads hpasses
      obtain ⟨k, rfl⟩ : ∃ k, passes = k + 1 := ⟨passes - 1, by omega⟩
      obtain ⟨cs', s, hreads', hlt, hload⟩ := hl.loadLoop_line (.inner _)
        (fun hnil => by cases hnil) hreads hpasses root
      obtain ⟨stored, hstored⟩ := ih hlines hreads' hlt (assign root l.name l.value)
      rw [hload, hstored]
      exact ⟨_, rfl⟩

theorem config_str_foldl (lines : List NameValue) (root : CNode) (name default : List UInt8) :
    config_str (lines.foldl (fun root l => assign root l.name l.value) root) name default =
      lastValue lines name (config_str root name default) := by
  induction lines generalizing root with
  | nil => rfl
  | cons l lines ih =>
      rw [List.foldl_cons, ih, config_str_assign, lastValue, lastValue, List.foldl_cons]

/-! ## The promise -/

theorem lexedValue_eq_trim_iff (v : List UInt8) :
    lexedValue v = trim (line v) ↔ ¬ (newline ∉ v ∧ trim v ≠ v) := by
  unfold lexedValue
  by_cases hnl : newline ∈ v
  · rw [if_pos hnl]
    exact ⟨fun _ h => h.1 hnl, fun _ => rfl⟩
  · have hline : line v = v := by
      refine List.takeWhile_eq_self_iff.mpr fun x hx => decide_eq_true fun heq => hnl (heq ▸ hx)
    rw [if_neg hnl, hline]
    exact ⟨fun h hcut => hcut.2 h.symm, fun h => (not_not.mp fun hne => h ⟨hnl, hne⟩).symm⟩

/-- The value is right unless the end of the input ends it, with white space behind it. -/
theorem right_iff {s : Stored} {v : List UInt8} (h : s.value = lexedValue v ∧
    ∃ text, s.after = text ++ [0] ∧ v = Config.skip false text) :
    s.Right ↔ ¬ (newline ∉ v ∧ trim v ≠ v) := by
  obtain ⟨hvalue, text, hafter, rfl⟩ := h
  rw [← lexedValue_eq_trim_iff, ← hvalue]
  constructor
  · rintro ⟨text', hafter', hright⟩
    rwa [List.append_cancel_right (hafter.symm.trans hafter')]
  · exact fun hright => ⟨text, hafter, hright⟩

theorem loadsValues_iff (s : CString) :
    LoadsValues s.bytes ↔ ¬ EndsInValueBlank s.bytes := by
  have hreads : CState.Reads ⟨s.bytes ++ [0], [], 0⟩ s.bytes := ⟨rfl, s.noNul⟩
  constructor
  · rintro h ⟨values, hvisits, v, hv, hcut⟩
    obtain ⟨root', stored, hload, hright, -⟩ :=
      h (s.bytes.length + 1) (Nat.lt_succ_self _) (.mk [] [] [])
    obtain ⟨root'', stored', values', hload', hfollows, hvisits'⟩ :=
      loadLoop_spec hreads (Nat.lt_succ_self _) (.mk [] [] [])
    obtain ⟨-, rfl⟩ := Prod.mk.inj (Except.ok.inj (hload.symm.trans hload'))
    rw [hvisits.unique hvisits'] at hv
    obtain ⟨i, hi, rfl⟩ := List.mem_iff_getElem.mp hv
    have hi' : i < stored.length := hfollows.length_eq ▸ hi
    have hitem := hfollows.get hi' hi
    exact (right_iff hitem).mp (hright _ (List.getElem_mem hi')) hcut
  · intro hnot passes hpasses root
    obtain ⟨root', stored, values, hload, hfollows, hvisits⟩ := loadLoop_spec hreads hpasses root
    refine ⟨root', stored, hload, fun st hst => ?_, fun lines last hwell htext name default => ?_⟩
    · obtain ⟨i, hi, rfl⟩ := List.mem_iff_getElem.mp hst
      have hi' : i < values.length := hfollows.length_eq ▸ hi
      have hitem := hfollows.get hi hi'
      exact (right_iff hitem).mpr fun hcut =>
        hnot ⟨values, hvisits, _, List.getElem_mem hi', hcut⟩
    · have hcut : ∀ l ∈ last, trim (l.value ++ l.trailing) = l.value ++ l.trailing := by
        rintro l rfl
        by_contra hne
        obtain ⟨values', hvisits', hmem⟩ := visits_last hwell
        have hl := hwell l (List.mem_append_right _ List.mem_cons_self)
        refine hnot ⟨values', htext ▸ hvisits', _, hmem, fun hnl => ?_, hne⟩
        exact (List.mem_append.mp hnl).elim hl.value_line fun htr => (hl.trailing _ htr).2 rfl
      rw [htext] at hreads hpasses
      obtain ⟨stored', hload'⟩ := loadLoop_fileText hwell hcut hreads hpasses root
      rw [htext] at hload
      obtain ⟨rfl, -⟩ := Prod.mk.inj (Except.ok.inj (hload.symm.trans hload'))
      exact config_str_foldl _ root name default

/-- The input `a b` with a blank at its end: the value is `b` with the blank. -/
theorem value_keeps_blank :
    (match config_load 5 (.mk [] [] []) [97, 32, 98, 32, 0] with
      | .ok (root, _) => config_str root [97] []
      | .error _ => []) = [98, 32] ∧
      ¬ LoadsValues [97, 32, 98, 32] := by
  refine ⟨by decide, fun h => ?_⟩
  obtain ⟨root', stored, hload, hright, -⟩ := h 5 (by decide) (.mk [] [] [])
  obtain ⟨-, rfl⟩ := Prod.mk.inj (Except.ok.inj hload)
  obtain ⟨text, hafter, hvalue⟩ := hright _ List.mem_cons_self
  have htext : [98, 32] ++ [0] = text ++ [0] := hafter
  obtain rfl := List.append_cancel_right htext
  exact absurd hvalue (by decide)

end Config
end Cutils
end AndroidLinux
