import AndroidLinux.Cutils.Config
import Mathlib.Tactic

/-!
# The lexemes of a configuration

A text is what stands before the NUL.  `lexeme` tells what comes next in it, and the lexer
follows it without leaving the input.  Only the end of a value differs: a value that the end of
the input ends keeps its trailing white space.
-/

namespace AndroidLinux
namespace Cutils
namespace Config

/-- The text without the blanks and comments that it begins with. -/
def skip : Bool → List UInt8 → List UInt8
  | _, [] => []
  | true, c :: text => if c = newline then skip false text else skip true text
  | false, c :: text =>
      if isspace c then skip false text
      else if c = hash then skip true text
      else c :: text

/-- What comes next, and the text behind it.  Of a name or a value it is the first byte. -/
inductive Lexeme
  | eof
  | dot (rest : List UInt8)
  | obrace (rest : List UInt8)
  | cbrace (rest : List UInt8)
  | text (first : UInt8) (rest : List UInt8)

def lexeme (text : List UInt8) : Lexeme :=
  match skip false text with
  | [] => .eof
  | c :: rest =>
      if c = dot then .dot rest
      else if c = obrace then .obrace rest
      else if c = cbrace then .cbrace rest
      else .text c rest

def isNameChar (c : UInt8) : Bool :=
  !isspace c && c != 0 && c != dot && c != obrace && c != cbrace

/-- A name goes up to a blank, which is taken with it, or up to a byte with a meaning. -/
def afterName (text : List UInt8) : List UInt8 :=
  match text.dropWhile isNameChar with
  | [] => []
  | c :: rest => if isspace c then rest else c :: rest

def line (text : List UInt8) : List UInt8 := text.takeWhile (· ≠ newline)

def afterLine (text : List UInt8) : List UInt8 := (text.dropWhile (· ≠ newline)).tail

def trim (text : List UInt8) : List UInt8 := text.rdropWhile isspace

/-- What the lexer makes of a value. -/
def lexedValue (text : List UInt8) : List UInt8 :=
  if newline ∈ text then trim (line text) else text

/-- The lexer stands before a text. -/
structure CState.Reads (cs : CState) (text : List UInt8) : Prop where
  pending : cs.pending = text ++ [0]
  no_nul : 0 ∉ text

/-! ## Blanks and comments -/

theorem length_skip_le (comment : Bool) (text : List UInt8) :
    (skip comment text).length ≤ text.length := by
  induction text generalizing comment with
  | nil => rw [skip]
  | cons c text ih =>
      have hfalse := ih false
      have htrue := ih true
      rw [List.length_cons]
      cases comment with
      | true =>
          rw [skip]
          split <;> omega
      | false =>
          rw [skip]
          split
          · omega
          · split
            · omega
            · exact Nat.le_refl _

theorem skip_suffix (comment : Bool) (text : List UInt8) : skip comment text <:+ text := by
  induction text generalizing comment with
  | nil => rw [skip]
  | cons c text ih =>
      have hfalse := (ih false).trans (List.suffix_cons c text)
      have htrue := (ih true).trans (List.suffix_cons c text)
      cases comment with
      | true =>
          rw [skip]
          split
          · exact hfalse
          · exact htrue
      | false =>
          rw [skip]
          split
          · exact hfalse
          · split
            · exact htrue
            · exact List.suffix_rfl

/-- What is left begins with a byte that is no blank, and begins no comment. -/
theorem skip_head {comment : Bool} {text rest : List UInt8} {c : UInt8}
    (h : skip comment text = c :: rest) : isspace c = false ∧ c ≠ hash := by
  induction text generalizing comment with
  | nil =>
      rw [skip] at h
      cases h
  | cons d text ih =>
      cases comment with
      | true =>
          rw [skip] at h
          split at h
          · exact ih h
          · exact ih h
      | false =>
          rw [skip] at h
          split at h
          · exact ih h
          · split at h
            · exact ih h
            · rename_i hspace hhash
              obtain ⟨rfl, -⟩ := List.cons.inj h
              exact ⟨Bool.eq_false_iff.mpr hspace, hhash⟩

/-- The loop stops at the first byte of what is left, or at the NUL. -/
theorem skipBlanks_eq {text : List UInt8} (h : 0 ∉ text) (comment : Bool) :
    ∃ c data, skipBlanks comment (text ++ [0]) = .ok (c, data) ∧
      ((skip comment text = [] ∧ c = 0) ∨
        ∃ rest, skip comment text = c :: rest ∧ data = rest ++ [0]) := by
  induction text generalizing comment with
  | nil =>
      cases comment with
      | true => exact ⟨0, [0], rfl, .inl ⟨rfl, rfl⟩⟩
      | false => exact ⟨0, [], rfl, .inl ⟨rfl, rfl⟩⟩
  | cons c text ih =>
      obtain ⟨hc, htext⟩ := not_or.mp (List.mem_cons.not.mp h)
      cases comment with
      | true =>
          rw [skip, List.cons_append, skipBlanks, if_neg (Ne.symm hc)]
          by_cases hnl : c = newline
          · rw [if_pos hnl, if_pos hnl]
            exact ih htext false
          · rw [if_neg hnl, if_neg hnl]
            exact ih htext true
      | false =>
          rw [skip, List.cons_append, skipBlanks]
          by_cases hspace : isspace c = true
          · rw [if_pos hspace, if_pos hspace]
            exact ih htext false
          · rw [if_neg hspace, if_neg hspace]
            by_cases hhash : c = hash
            · rw [if_pos hhash, if_pos hhash]
              exact ih htext true
            · rw [if_neg hhash, if_neg hhash]
              exact ⟨c, text ++ [0], rfl, .inr ⟨text, rfl, rfl⟩⟩

/-! ## Names -/

theorem isNameChar_iff {c : UInt8} :
    isNameChar c = true ↔
      isspace c = false ∧ c ≠ 0 ∧ c ≠ dot ∧ c ≠ obrace ∧ c ≠ cbrace := by
  simp only [isNameChar, Bool.and_eq_true, Bool.not_eq_true', bne_iff_ne, and_assoc]

theorem lexName_eq {text : List UInt8} (h : 0 ∉ text) (name : List UInt8) :
    ∃ cs, lexName name (text ++ [0]) = .ok cs ∧ cs.text = name ++ text.takeWhile isNameChar ∧
      cs.Reads (afterName text) := by
  induction text generalizing name with
  | nil => exact ⟨⟨[0], name, 0⟩, rfl, (List.append_nil name).symm, rfl, List.not_mem_nil⟩
  | cons c text ih =>
      obtain ⟨hc, htext⟩ := not_or.mp (List.mem_cons.not.mp h)
      rw [List.cons_append, lexName, if_neg (Ne.symm hc)]
      by_cases hspace : isspace c = true
      · have hname : ¬ isNameChar c = true := fun hn => by
          rw [(isNameChar_iff.mp hn).1] at hspace
          cases hspace
        rw [if_pos hspace]
        refine ⟨_, rfl, ?_, ?_⟩
        · rw [List.takeWhile_cons_of_neg hname, List.append_nil]
        · rw [afterName, List.dropWhile_cons_of_neg hname]
          dsimp only
          rw [if_pos hspace]
          exact ⟨rfl, htext⟩
      · rw [if_neg hspace]
        by_cases hspecial : c = dot ∨ c = obrace ∨ c = cbrace
        · have hname : ¬ isNameChar c = true := fun hn => by
            obtain ⟨-, -, hdot, hobrace, hcbrace⟩ := isNameChar_iff.mp hn
            exact hspecial.elim hdot fun hor => hor.elim hobrace hcbrace
          rw [if_pos hspecial]
          refine ⟨_, rfl, ?_, ?_⟩
          · rw [List.takeWhile_cons_of_neg hname, List.append_nil]
          · rw [afterName, List.dropWhile_cons_of_neg hname]
            dsimp only
            rw [if_neg hspace]
            refine ⟨?_, h⟩
            rw [CState.pending, if_pos (Ne.symm hc), List.cons_append]
        · have hname : isNameChar c = true := by
            obtain ⟨hdot, hor⟩ := not_or.mp hspecial
            obtain ⟨hobrace, hcbrace⟩ := not_or.mp hor
            exact isNameChar_iff.mpr
              ⟨Bool.eq_false_iff.mpr hspace, Ne.symm hc, hdot, hobrace, hcbrace⟩
          rw [if_neg hspecial]
          obtain ⟨cs, hlex, hcs, hreads⟩ := ih htext (name ++ [c])
          refine ⟨cs, hlex, ?_, ?_⟩
          · rw [hcs, List.takeWhile_cons_of_pos hname, List.append_assoc, List.singleton_append]
          · rwa [afterName, List.dropWhile_cons_of_pos hname]

/-! ## Values -/

theorem stripLoop_eq (bytes : List UInt8) {c : UInt8} (hc : isspace c = false) :
    ∃ k, stripLoop (bytes ++ [c]) = List.replicate k 0 ++ (bytes ++ [c]).dropWhile isspace := by
  induction bytes with
  | nil => exact ⟨0, by simp [stripLoop, hc]⟩
  | cons b bytes ih =>
      obtain ⟨k, hk⟩ := ih
      obtain ⟨d, rest, hd⟩ : ∃ d rest, bytes ++ [c] = d :: rest :=
        List.exists_cons_of_ne_nil (List.append_ne_nil_of_right_ne_nil _ (List.cons_ne_nil c []))
      rw [List.cons_append, hd, stripLoop, ← hd]
      by_cases hb : isspace b = true
      · refine ⟨k + 1, ?_⟩
        rw [if_pos hb, hk, List.dropWhile_cons_of_pos hb, List.replicate_succ, List.cons_append]
      · exact ⟨0, by rw [if_neg hb, List.dropWhile_cons_of_neg hb]; rfl⟩

theorem takeWhile_no_nul {text : List UInt8} (h : 0 ∉ text) (k : Nat) :
    (text ++ List.replicate k 0).takeWhile (· ≠ 0) = text := by
  have hall : ∀ c ∈ text, decide (c ≠ 0) = true := fun c hc =>
    decide_eq_true fun heq => h (heq ▸ hc)
  rw [List.takeWhile_append_of_pos hall]
  cases k with
  | zero => rw [List.replicate_zero, List.takeWhile_nil, List.append_nil]
  | succ k => rw [List.replicate_succ, List.takeWhile_cons_of_neg (by simp), List.append_nil]

/-- A line that the newline ends is stripped. -/
theorem stripLoop_line {c : UInt8} {text : List UInt8} (hc : isspace c = false)
    (h : 0 ∉ c :: text) : stringBack (stripLoop (c :: text).reverse) = trim (c :: text) := by
  obtain ⟨k, hk⟩ := stripLoop_eq text.reverse hc
  have htrim : ((c :: text).reverse.dropWhile isspace).reverse = trim (c :: text) := rfl
  have hpre : trim (c :: text) <+: c :: text := List.rdropWhile_prefix isspace _
  have hnul : 0 ∉ trim (c :: text) := fun hmem => h (hpre.subset hmem)
  rw [List.reverse_cons, stringBack, hk, ← List.reverse_cons, List.reverse_append,
    List.reverse_replicate, htrim, takeWhile_no_nul hnul]

/-- A line that the NUL ends is left as it is. -/
theorem stripLoop_end {text : List UInt8} (h : 0 ∉ text) :
    stringBack (stripLoop (0 :: text.reverse)) = text := by
  have hstrip : stripLoop (0 :: text.reverse) = 0 :: text.reverse := by
    cases text.reverse with
    | nil => rfl
    | cons d rest => rw [stripLoop, if_neg (by decide)]
  rw [hstrip, stringBack, List.reverse_cons, List.reverse_reverse]
  exact takeWhile_no_nul h 1

theorem lexValue_eq {text : List UInt8} (h : 0 ∉ text) {acc : List UInt8} {c : UInt8}
    (rest : List UInt8) (hacc : acc = c :: rest) (hc : isspace c = false) (hnul : 0 ∉ acc)
    (hnl : newline ∉ acc) :
    ∃ cs, lexValue acc (text ++ [0]) = .ok cs ∧ cs.text = lexedValue (acc ++ text) ∧
      cs.Reads (afterLine text) := by
  induction text generalizing acc rest with
  | nil =>
      refine ⟨⟨[0], stringBack (stripLoop (0 :: acc.reverse)), 0⟩, rfl, ?_, rfl,
        List.not_mem_nil⟩
      rw [lexedValue, List.append_nil, if_neg hnl]
      exact stripLoop_end hnul
  | cons d text ih =>
      obtain ⟨hd, htext⟩ := not_or.mp (List.mem_cons.not.mp h)
      rw [List.cons_append, lexValue, if_neg (Ne.symm hd)]
      by_cases hnewline : d = newline
      · subst hnewline
        rw [if_pos rfl]
        refine ⟨_, rfl, ?_, ?_⟩
        · have hline : line (acc ++ newline :: text) = acc := by
            have hall : ∀ x ∈ acc, decide (x ≠ newline) = true := fun x hx =>
              decide_eq_true fun heq => hnl (heq ▸ hx)
            rw [line, List.takeWhile_append_of_pos hall, List.takeWhile_cons_of_neg (by simp),
              List.append_nil]
          rw [lexedValue, if_pos (List.mem_append_right _ List.mem_cons_self), hline]
          subst hacc
          exact stripLoop_line hc hnul
        · rw [afterLine, List.dropWhile_cons_of_neg (by simp), List.tail_cons]
          exact ⟨rfl, htext⟩
      · rw [if_neg hnewline]
        obtain ⟨cs, hlex, hcs, hreads⟩ := ih htext (rest ++ [d])
          (by rw [hacc, List.cons_append] : acc ++ [d] = c :: (rest ++ [d]))
          (fun hmem => (List.mem_append.mp hmem).elim hnul
            fun hs => hd (List.mem_singleton.mp hs))
          (fun hmem => (List.mem_append.mp hmem).elim hnl
            fun hs => hnewline (List.mem_singleton.mp hs).symm)
        refine ⟨cs, hlex, ?_, ?_⟩
        · rw [hcs, List.append_assoc, List.singleton_append]
        · have hpos : decide (d ≠ newline) = true := decide_eq_true hnewline
          rwa [afterLine, List.dropWhile_cons_of_pos (p := (· ≠ newline)) hpos]

/-! ## The lexer -/

/-- What the lexer returns follows the lexeme. -/
inductive Lexed (value : Bool) (text : List UInt8) : Token → CState → Prop
  | eof {cs : CState} (h : lexeme text = .eof) : Lexed value text .eof cs
  | dot {cs : CState} {rest : List UInt8} (h : lexeme text = .dot rest) (hreads : cs.Reads rest) :
      Lexed value text .dot cs
  | obrace {cs : CState} {rest : List UInt8} (h : lexeme text = .obrace rest)
      (hreads : cs.Reads rest) : Lexed value text .obrace cs
  | cbrace {cs : CState} {rest : List UInt8} (h : lexeme text = .cbrace rest)
      (hreads : cs.Reads rest) : Lexed value text .cbrace cs
  | name {cs : CState} {first : UInt8} {rest : List UInt8} (hvalue : value = false)
      (h : lexeme text = .text first rest)
      (htext : cs.text = first :: rest.takeWhile isNameChar) (hreads : cs.Reads (afterName rest)) :
      Lexed value text .text cs
  | value {cs : CState} {first : UInt8} {rest : List UInt8} (hvalue : value = true)
      (h : lexeme text = .text first rest) (htext : cs.text = lexedValue (first :: rest))
      (hreads : cs.Reads (afterLine rest)) : Lexed value text .text cs

theorem lex_eq {cs : CState} {text : List UInt8} (h : cs.Reads text) (value : Bool) :
    ∃ token cs', lex cs value = .ok (token, cs') ∧ Lexed value text token cs' := by
  unfold lex
  rw [h.pending]
  obtain ⟨c, data, hskip, ⟨hnil, rfl⟩ | ⟨rest, hcons, rfl⟩⟩ := skipBlanks_eq h.no_nul false
  · have heof : lexeme text = .eof := by rw [lexeme, hnil]
    rw [hskip]
    dsimp only
    rw [if_pos rfl]
    exact ⟨_, _, rfl, .eof heof⟩
  · have hnul : 0 ∉ c :: rest := fun hmem =>
      h.no_nul ((skip_suffix false text).subset (hcons ▸ hmem))
    obtain ⟨hc, hrest⟩ := not_or.mp (List.mem_cons.not.mp hnul)
    have hreads (t : List UInt8) : CState.Reads ⟨rest ++ [0], t, 0⟩ rest := ⟨rfl, hrest⟩
    have hlexeme : lexeme text =
        if c = dot then .dot rest
        else if c = obrace then .obrace rest
        else if c = cbrace then .cbrace rest
        else .text c rest := by
      rw [lexeme, hcons]
    rw [hskip]
    dsimp only
    rw [if_neg (Ne.symm hc)]
    by_cases hdot : c = dot
    · rw [if_pos hdot] at hlexeme
      rw [if_pos hdot]
      exact ⟨_, _, rfl, .dot hlexeme (hreads _)⟩
    rw [if_neg hdot] at hlexeme
    rw [if_neg hdot]
    by_cases hobrace : c = obrace
    · rw [if_pos hobrace] at hlexeme
      rw [if_pos hobrace]
      exact ⟨_, _, rfl, .obrace hlexeme (hreads _)⟩
    rw [if_neg hobrace] at hlexeme
    rw [if_neg hobrace]
    by_cases hcbrace : c = cbrace
    · rw [if_pos hcbrace] at hlexeme
      rw [if_pos hcbrace]
      exact ⟨_, _, rfl, .cbrace hlexeme (hreads _)⟩
    rw [if_neg hcbrace] at hlexeme
    rw [if_neg hcbrace]
    cases value with
    | false =>
        obtain ⟨cs', hname, htext, hreads'⟩ := lexName_eq hrest [c]
        rw [if_neg Bool.false_ne_true, hname]
        exact ⟨_, _, rfl, .name rfl hlexeme htext hreads'⟩
    | true =>
        have hspace := (skip_head hcons).1
        have hnl : newline ∉ [c] := fun hmem => by
          rw [← List.mem_singleton.mp hmem] at hspace
          cases hspace
        obtain ⟨cs', hvalue, htext, hreads'⟩ := lexValue_eq hrest [] rfl hspace
          (fun hmem => hc (List.mem_singleton.mp hmem)) hnl
        rw [if_pos rfl, hvalue]
        exact ⟨_, _, rfl, .value rfl hlexeme htext hreads'⟩

/-- A name or a value begins where the blanks and comments end. -/
theorem skip_of_lexeme {text rest : List UInt8} {first : UInt8}
    (h : lexeme text = .text first rest) : skip false text = first :: rest := by
  unfold lexeme at h
  split at h
  · cases h
  · rename_i c rest' hskip
    split at h
    · cases h
    · split at h
      · cases h
      · split at h
        · cases h
        · obtain ⟨rfl, rfl⟩ := Lexeme.text.inj h
          exact hskip

/-! ## The lexer consumes the text -/

/-- The text behind a lexeme. -/
def Lexeme.rest : Lexeme → List UInt8
  | eof => []
  | dot rest => rest
  | obrace rest => rest
  | cbrace rest => rest
  | text _ rest => rest

theorem length_rest {text : List UInt8} {lx : Lexeme} (h : lexeme text = lx) (hne : lx ≠ .eof) :
    lx.rest.length < text.length := by
  have hle := length_skip_le false text
  subst h
  unfold lexeme at hne ⊢
  cases hskip : skip false text with
  | nil =>
      rw [hskip] at hne
      exact absurd rfl hne
  | cons c rest =>
      rw [hskip, List.length_cons] at hle
      dsimp only
      split
      · exact hle
      · split
        · exact hle
        · split
          · exact hle
          · exact hle

theorem length_afterName_le (text : List UInt8) : (afterName text).length ≤ text.length := by
  have hle := (List.dropWhile_suffix (l := text) isNameChar).length_le
  unfold afterName
  split
  · exact Nat.zero_le _
  · rename_i c rest hdrop
    rw [hdrop, List.length_cons] at hle
    split
    · omega
    · rw [List.length_cons]
      exact hle

theorem length_afterLine_le (text : List UInt8) : (afterLine text).length ≤ text.length := by
  have hle := (List.dropWhile_suffix (l := text) fun c => decide (c ≠ newline)).length_le
  rw [afterLine, List.length_tail]
  omega

end Config
end Cutils
end AndroidLinux
