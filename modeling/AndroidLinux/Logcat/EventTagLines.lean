import AndroidLinux.Logcat.EventTagMap
import Mathlib.Tactic

/-!
# The lines of a map of event tags

A line has an indentation, and is blank, a comment, or gives a tag.  `Scans` is what the parser
takes for a line: the byte behind a number is not looked at, and neither is the first byte of a
name.  `WellFormed` is what a line should be.  The bytes determine the lines.
-/

namespace AndroidLinux
namespace Logcat
namespace EventTags

/-- A number, one byte behind it, blanks, a name, and a blank with more text behind it. -/
structure TagLine where
  digits : List UInt8
  separator : UInt8
  blanks : List UInt8
  first : UInt8
  name : List UInt8
  description : Option (UInt8 × List UInt8)

inductive Body
  | blank
  | comment (text : List UInt8)
  | tag (t : TagLine)

structure Line where
  indent : List UInt8
  body : Body

namespace TagLine

/-- The bytes from the end of the name on, with the first one replaced where it is given. -/
def ending (t : TagLine) (first : Option UInt8) : List UInt8 :=
  match t.description with
  | none => [first.getD newline]
  | some (b, text) => first.getD b :: text ++ [newline]

def bytes (t : TagLine) : List UInt8 :=
  t.digits ++ t.separator :: (t.blanks ++ t.first :: (t.name ++ t.ending none))

/-- The bytes with the NULs behind the number and behind the name. -/
def zapped (t : TagLine) : List UInt8 :=
  t.digits ++ 0 :: (t.blanks ++ t.first :: (t.name ++ t.ending (some 0)))

/-- Where the name begins. -/
def nameOffset (t : TagLine) : Nat := t.digits.length + 1 + t.blanks.length

structure Scans (t : TagLine) : Prop where
  digits_ne : t.digits ≠ []
  digits : ∀ c ∈ t.digits, isCharDigit c
  separator : isCharDigit t.separator = false
  blanks : ∀ c ∈ t.blanks, isBlank c
  first : isCharWhitespace t.first = false
  name : ∀ c ∈ t.name, isCharValidTag c
  description : ∀ b text, t.description = some (b, text) → isBlank b ∧ newline ∉ text

structure WellFormed (t : TagLine) : Prop extends t.Scans where
  separator_blank : isBlank t.separator
  first_valid : isCharValidTag t.first

/-- The number and the name are on two lines, and the name looks like a number. -/
def Splits (t : TagLine) : Prop := t.separator = newline ∧ isCharDigit t.first

instance (t : TagLine) : Decidable t.Splits := inferInstanceAs (Decidable (_ ∧ _))

end TagLine

namespace Body

def bytes : Body → List UInt8
  | blank => [newline]
  | comment text => hash :: text ++ [newline]
  | tag t => t.bytes

def zapped : Body → List UInt8
  | tag t => t.zapped
  | body => body.bytes

def Scans : Body → Prop
  | blank => True
  | comment text => newline ∉ text
  | tag t => t.Scans

def WellFormed : Body → Prop
  | tag t => t.WellFormed
  | body => body.Scans

end Body

namespace Line

def bytes (l : Line) : List UInt8 := l.indent ++ l.body.bytes

def zapped (l : Line) : List UInt8 := l.indent ++ l.body.zapped

structure Scans (l : Line) : Prop where
  indent : ∀ c ∈ l.indent, isBlank c
  body : l.body.Scans

structure WellFormed (l : Line) : Prop where
  indent : ∀ c ∈ l.indent, isBlank c
  body : l.body.WellFormed

/-- The entry that a line at this offset gives. -/
def entries (ulongMax offset : Nat) (l : Line) : List EventTag :=
  match l.body with
  | .tag t => [⟨strtoul ulongMax t.digits, offset + l.indent.length + t.nameOffset⟩]
  | _ => []

/-- How many tags `countMapLines` sees. -/
def counted (l : Line) : Nat :=
  match l.body with
  | .tag t => if t.Splits then 2 else 1
  | _ => 0

end Line

def fileBytes (lines : List Line) : List UInt8 := lines.flatMap Line.bytes

theorem whitespace_cases {c : UInt8} (h : isCharWhitespace c = true) :
    c = 32 ∨ c = newline ∨ c = 13 ∨ c = 9 := by
  simpa only [isCharWhitespace, Bool.or_eq_true, beq_iff_eq, or_assoc] using h

theorem not_whitespace_of_digit {c : UInt8} (h : isCharDigit c = true) :
    isCharWhitespace c = false := by
  refine Bool.eq_false_iff.mpr fun hws => ?_
  rcases whitespace_cases hws with rfl | rfl | rfl | rfl <;> cases h

theorem not_whitespace_of_validTag {c : UInt8} (h : isCharValidTag c = true) :
    isCharWhitespace c = false := by
  refine Bool.eq_false_iff.mpr fun hws => ?_
  rcases whitespace_cases hws with rfl | rfl | rfl | rfl <;> cases h

theorem isBlank_iff {c : UInt8} : isBlank c = true ↔ c ≠ newline ∧ isCharWhitespace c = true := by
  rw [isBlank, Bool.and_eq_true, bne_iff_ne]

theorem not_isBlank {c : UInt8} (h : isCharWhitespace c = false) : isBlank c = false := by
  rw [isBlank, h, Bool.and_false]

theorem all_ne_newline {xs : List UInt8} (h : newline ∉ xs) : ∀ c ∈ xs, (c != newline) = true :=
  fun _ hc => bne_iff_ne.mpr fun heq => h (heq ▸ hc)

/-- The last byte is a newline. -/
def Terminated (l : List UInt8) : Prop := l.getLast? = some newline

theorem Terminated.of_append (xs : List UInt8) {l : List UInt8} (h : Terminated (xs ++ l))
    (hl : l ≠ []) : Terminated l := by
  rwa [Terminated, List.getLast?_append_of_ne_nil xs hl] at h

theorem Terminated.tail {c : UInt8} {l : List UInt8} (h : Terminated (c :: l)) :
    l = [] ∨ Terminated l := by
  by_cases hl : l = []
  · exact .inl hl
  · exact .inr (Terminated.of_append [c] h hl)

theorem split_unique {p : UInt8 → Bool} {xs ys r s : List UInt8} {c d : UInt8}
    (hxs : ∀ x ∈ xs, p x) (hys : ∀ y ∈ ys, p y) (hc : p c = false) (hd : p d = false)
    (h : xs ++ c :: r = ys ++ d :: s) : xs = ys ∧ c = d ∧ r = s := by
  induction xs generalizing ys with
  | nil =>
      cases ys with
      | nil =>
          obtain ⟨rfl, rfl⟩ := List.cons.inj h
          exact ⟨rfl, rfl, rfl⟩
      | cons y ys =>
          rw [(List.cons.inj h).1, hys y List.mem_cons_self] at hc
          cases hc
  | cons x xs ih =>
      cases ys with
      | nil =>
          rw [← (List.cons.inj h).1, hxs x List.mem_cons_self] at hd
          cases hd
      | cons y ys =>
          obtain ⟨rfl, htail⟩ := List.cons.inj h
          obtain ⟨rfl, rfl, rfl⟩ := ih (fun z hz => hxs z (List.mem_cons_of_mem x hz))
            (fun z hz => hys z (List.mem_cons_of_mem x hz)) htail
          exact ⟨rfl, rfl, rfl⟩

/-- The byte behind the name is not one of a name. -/
theorem TagLine.Scans.ending_stops {t : TagLine} (h : t.Scans) :
    ∃ c rest, t.ending none = c :: rest ∧ isCharWhitespace c = true := by
  unfold TagLine.ending
  split
  · exact ⟨newline, [], rfl, rfl⟩
  · rename_i b text hdescription
    exact ⟨b, text ++ [newline], rfl, (isBlank_iff.mp (h.description b text hdescription).1).2⟩

theorem not_validTag_of_whitespace {c : UInt8} (h : isCharWhitespace c = true) :
    isCharValidTag c = false := by
  refine Bool.eq_false_iff.mpr fun hvalid => ?_
  rw [not_whitespace_of_validTag hvalid] at h
  cases h

theorem description_unique {d d' : Option (UInt8 × List UInt8)} {t t' : TagLine}
    (h : t.Scans) (h' : t'.Scans) (hd : t.description = d) (hd' : t'.description = d')
    {r r' : List UInt8} (heq : t.ending none ++ r = t'.ending none ++ r') : d = d' ∧ r = r' := by
  have hnl (b : UInt8) (hb : isBlank b) : b ≠ newline := (isBlank_iff.mp hb).1
  unfold TagLine.ending at heq
  rw [hd, hd'] at heq
  match d, d' with
  | none, none => exact ⟨rfl, (List.cons.inj heq).2⟩
  | none, some (b, text) =>
      exact absurd (List.cons.inj heq).1.symm (hnl b (h'.description b text hd').1)
  | some (b, text), none =>
      exact absurd (List.cons.inj heq).1 (hnl b (h.description b text hd).1)
  | some (b, text), some (b', text') =>
      dsimp only [Option.getD_none] at heq
      rw [List.cons_append, List.cons_append, List.append_assoc, List.append_assoc] at heq
      obtain ⟨rfl, htext⟩ := List.cons.inj heq
      obtain ⟨rfl, -, rfl⟩ := split_unique (p := (· != newline))
        (all_ne_newline (h.description b text hd).2)
        (all_ne_newline (h'.description b text' hd').2) rfl rfl htext
      exact ⟨rfl, rfl⟩

theorem TagLine.Scans.unique {t t' : TagLine} (h : t.Scans) (h' : t'.Scans) {r r' : List UInt8}
    (heq : t.bytes ++ r = t'.bytes ++ r') : t = t' ∧ r = r' := by
  simp only [TagLine.bytes, List.append_assoc, List.cons_append] at heq
  obtain ⟨hdigits, hsep, heq⟩ := split_unique h.digits h'.digits h.separator h'.separator heq
  obtain ⟨hblanks, hfirst, heq⟩ :=
    split_unique h.blanks h'.blanks (not_isBlank h.first) (not_isBlank h'.first) heq
  obtain ⟨c, rest, hc, hws⟩ := h.ending_stops
  obtain ⟨c', rest', hc', hws'⟩ := h'.ending_stops
  have hname : t.name = t'.name ∧ t.ending none ++ r = t'.ending none ++ r' := by
    rw [hc, hc', List.cons_append, List.cons_append] at heq ⊢
    obtain ⟨hn, rfl, hr⟩ := split_unique h.name h'.name (not_validTag_of_whitespace hws)
      (not_validTag_of_whitespace hws') heq
    exact ⟨hn, by rw [hr]⟩
  obtain ⟨hdescription, hr⟩ := description_unique h h' rfl rfl hname.2
  cases t
  cases t'
  simp_all only [and_self]

theorem TagLine.Scans.head_digit {t : TagLine} (h : t.Scans) :
    ∃ d rest, t.bytes = d :: rest ∧ isCharDigit d = true := by
  obtain ⟨d, ds, hd⟩ := List.exists_cons_of_ne_nil h.digits_ne
  refine ⟨d, ds ++ t.separator :: (t.blanks ++ t.first :: (t.name ++ t.ending none)), ?_,
    h.digits d (hd ▸ List.mem_cons_self)⟩
  rw [TagLine.bytes, hd, List.cons_append]

/-- A body begins with a byte that is not blank. -/
theorem Body.Scans.head {b : Body} (h : b.Scans) :
    ∃ c rest, b.bytes = c :: rest ∧ isBlank c = false := by
  cases b with
  | blank => exact ⟨newline, [], rfl, rfl⟩
  | comment text => exact ⟨hash, text ++ [newline], rfl, rfl⟩
  | tag t =>
      obtain ⟨d, rest, hbytes, hd⟩ := TagLine.Scans.head_digit h
      exact ⟨d, rest, hbytes, not_isBlank (not_whitespace_of_digit hd)⟩

/-- The first byte tells the kind of the body, and the bytes tell where it ends. -/
theorem Body.Scans.unique {b b' : Body} (h : b.Scans) (h' : b'.Scans) {r r' : List UInt8}
    (heq : b.bytes ++ r = b'.bytes ++ r') : b = b' ∧ r = r' := by
  have hdigit (t : TagLine) (ht : t.Scans) (c : UInt8) (hc : isCharDigit c = false)
      (s s' : List UInt8) : t.bytes ++ s ≠ c :: s' := by
    intro hbytes
    obtain ⟨d, rest, hd, hisdigit⟩ := ht.head_digit
    rw [hd, List.cons_append] at hbytes
    rw [(List.cons.inj hbytes).1, hc] at hisdigit
    cases hisdigit
  match b, b' with
  | .blank, .blank => exact ⟨rfl, (List.cons.inj heq).2⟩
  | .blank, .comment text => exact absurd (List.cons.inj heq).1 (by decide)
  | .blank, .tag t => exact absurd heq.symm (hdigit t h' newline rfl _ _)
  | .comment text, .blank => exact absurd (List.cons.inj heq).1 (by decide)
  | .comment text, .comment text' =>
      dsimp only [Body.bytes] at heq
      rw [List.cons_append, List.cons_append, List.append_assoc, List.append_assoc] at heq
      obtain ⟨rfl, -, rfl⟩ := split_unique (p := (· != newline)) (all_ne_newline h)
        (all_ne_newline h') rfl rfl (List.cons.inj heq).2
      exact ⟨rfl, rfl⟩
  | .comment text, .tag t => exact absurd heq.symm (hdigit t h' hash rfl _ _)
  | .tag t, .blank => exact absurd heq (hdigit t h newline rfl _ _)
  | .tag t, .comment text => exact absurd heq (hdigit t h hash rfl _ _)
  | .tag t, .tag t' =>
      obtain ⟨rfl, rfl⟩ := TagLine.Scans.unique h h' heq
      exact ⟨rfl, rfl⟩

theorem Line.Scans.unique {l l' : Line} (h : l.Scans) (h' : l'.Scans) {r r' : List UInt8}
    (heq : l.bytes ++ r = l'.bytes ++ r') : l = l' ∧ r = r' := by
  obtain ⟨c, rest, hbytes, hc⟩ := h.body.head
  obtain ⟨c', rest', hbytes', hc'⟩ := h'.body.head
  rw [Line.bytes, Line.bytes, List.append_assoc, List.append_assoc, hbytes, hbytes',
    List.cons_append, List.cons_append] at heq
  obtain ⟨hindent, hhead, htail⟩ := split_unique h.indent h'.indent hc hc' heq
  have hbodies : l.body.bytes ++ r = l'.body.bytes ++ r' := by
    rw [hbytes, hbytes', List.cons_append, List.cons_append, hhead, htail]
  obtain ⟨hbody, hr⟩ := Body.Scans.unique h.body h'.body hbodies
  cases l
  cases l'
  exact ⟨by simp_all only, hr⟩

end EventTags
end Logcat
end AndroidLinux
