import AndroidLinux.Binder.TextDelivery

/-!
# Every printed byte once

Without the fast path, an output delivers what has been printed, with the indentation in
front of each group of lines that begins a line.  With it, the same holds as long as a
newline or two bytes follow the first group whenever the fast path is taken.
-/

namespace AndroidLinux
namespace Binder

open Lib TextBuffer

/-! ## The purpose -/

/-- The text with the indentation, group by group. -/
def indented (indent : Int32) : Nat → Bool → List UInt8 → List UInt8
  | 0, _, _ => []
  | fuel + 1, front, txt =>
      if txt = [] then []
      else
        (if front ∧ 0 < indent then stringForIndent indent else []) ++
          (nextLine txt ++
            indented indent fuel (endsLine (nextLine txt)) (txt.drop (nextLine txt).length))

/-- What has been printed; `front` says that the next byte begins a line. -/
structure Printed where
  indent : Int32
  front : Bool
  text : List UInt8
  deriving DecidableEq

namespace Printed

def print (txt : List UInt8) (p : Printed) : Printed :=
  { p with
    text := p.text ++ indented p.indent txt.length p.front txt
    front := if txt = [] then p.front else endsLine txt }

def moveIndent (delta : Int32) (p : Printed) : Printed :=
  { p with indent := if p.indent + delta < 0 then 0 else p.indent + delta }

end Printed

/-- The calls on one output; `beyond` is the byte behind the text in memory. -/
inductive PrintCall
  | print (txt : List UInt8) (beyond : UInt8)
  | moveIndent (delta : Int32)
  | pushBundle
  | popBundle

/-- An output, the same output without the fast path, and what has been printed. -/
structure Printing where
  d : Delivery
  plain : Delivery
  printed : Printed

namespace Printing

def initial : Printing := ⟨⟨.fresh, [], false⟩, ⟨.fresh, [], false⟩, ⟨0, true, []⟩⟩

/-- A call, when allocations succeed.  Bundles are nested: there is one to be closed. -/
def step (s : Printing) : PrintCall → Option Printing
  | .print txt beyond =>
      some ⟨s.d.print true beyond txt Delivery.always,
        s.plain.print false beyond txt Delivery.always, s.printed.print txt⟩
  | .moveIndent delta =>
      some ⟨{ s.d with b := s.d.b.moveIndent delta },
        { s.plain with b := s.plain.b.moveIndent delta }, s.printed.moveIndent delta⟩
  | .pushBundle =>
      some ⟨{ s.d with b := s.d.b.pushBundle }, { s.plain with b := s.plain.b.pushBundle },
        s.printed⟩
  | .popBundle =>
      if 0 < s.d.b.bundle then some ⟨s.d.popBundle, s.plain.popBundle, s.printed⟩ else none

def machine : Machine Printing PrintCall where
  init s := s = initial
  step := step

/-- Every byte has been delivered once or is in the buffer, nothing else has been read, and
the fast path has made no difference. -/
structure Delivered (s : Printing) : Prop where
  once : s.d.output = s.printed.text
  inside : s.d.overread = false
  alike : s.d.output = s.plain.output

/-- A newline or two bytes follow the first group of lines, if there is a newline. -/
def MoreLines (txt : List UInt8) : Prop :=
  newline ∈ txt → newline ∈ txt.drop (nextLine txt).length ∨
    2 ≤ (txt.drop (nextLine txt).length).length

instance (txt : List UInt8) : Decidable (MoreLines txt) := inferInstanceAs (Decidable (_ → _))

/-- From where on the text begins a line. -/
def fromFront (b : TextBuffer) (txt : List UInt8) : List UInt8 :=
  if b.atFront then txt else txt.drop (nextLine txt).length

/-- The condition: the fast path is not taken with nothing or a single byte behind the first
group, and the bundles can be counted. -/
def Follows (s : Printing) : PrintCall → Prop
  | .print txt _ => 0 < s.d.b.indent ∨ s.d.b.bundle ≠ 0 ∨ MoreLines (fromFront s.d.b txt)
  | .pushBundle => 0 < s.d.b.bundle + 1
  | _ => True

instance (s : Printing) : (c : PrintCall) → Decidable (s.Follows c)
  | .print _ _ => inferInstanceAs (Decidable (_ ∨ _))
  | .pushBundle => inferInstanceAs (Decidable (_ < _))
  | .moveIndent _ => inferInstanceAs (Decidable True)
  | .popBundle => inferInstanceAs (Decidable True)

end Printing

/-! ## The buffered path -/

namespace Delivery

/-- Nothing is in the buffer at the front of a line outside of bundles. -/
def Clean (d : Delivery) : Prop := d.b.bundle = 0 → d.b.atFront = true → d.b.buffer = []

theorem addIndent_output (d : Delivery) : d.addIndent.output =
    d.output ++ if d.b.atFront ∧ 0 < d.b.indent then stringForIndent d.b.indent else [] := by
  unfold addIndent output
  split
  · rw [List.append_assoc]
  · rw [List.append_nil]

/-- What the indentation leaves as it is. -/
theorem addIndent_fields (d : Delivery) : d.addIndent.b.atFront = d.b.atFront ∧
    d.addIndent.b.indent = d.b.indent ∧ d.addIndent.b.bundle = d.b.bundle ∧
    d.addIndent.overread = d.overread := by
  unfold addIndent
  split <;> exact ⟨rfl, rfl, rfl, rfl⟩

/-- A group has been taken by the buffered path. -/
structure Taken (d e : Delivery) (line : List UInt8) : Prop where
  output : e.output = d.output ++ line
  atFront : e.b.atFront = endsLine line
  indent : e.b.indent = d.b.indent
  bundle : e.b.bundle = d.b.bundle
  clean : e.Clean
  overread : e.overread = d.overread

theorem addLine_taken (d : Delivery) (line : List UInt8) : Taken d (d.addLine line) line := by
  unfold addLine
  dsimp only
  split
  · rename_i hflush
    refine ⟨?_, hflush.1.symm, rfl, rfl, fun _ _ => rfl, rfl⟩
    simp [Delivery.output, restart]
  · rename_i hkept
    refine ⟨?_, rfl, rfl, rfl, fun hbundle hfront => absurd ⟨hfront, hbundle⟩ hkept, rfl⟩
    simp [Delivery.output]

/-- One pass of the buffered path. -/
theorem pass_taken (d : Delivery) (line : List UInt8) : Taken d (d.addIndent.addLine line)
    ((if d.b.atFront ∧ 0 < d.b.indent then stringForIndent d.b.indent else []) ++ line) ∨
    line = [] := by
  by_cases hsome : line = []
  · exact .inr hsome
  · obtain ⟨houtput, hfront, hindent, hbundle, hclean, hoverread⟩ :=
      addLine_taken d.addIndent line
    obtain ⟨-, hindent', hbundle', hoverread'⟩ := addIndent_fields d
    rw [addIndent_output, List.append_assoc] at houtput
    exact .inl ⟨houtput, hfront.trans (endsLine_append hsome _).symm, hindent.trans hindent',
      hbundle.trans hbundle', hclean, hoverread.trans hoverread'⟩

/-- A text has been printed: the output has grown by it, and no byte behind it was read. -/
structure Prints (d e : Delivery) (txt : List UInt8) : Prop where
  output : e.output = d.output ++ indented d.b.indent txt.length d.b.atFront txt
  atFront : e.b.atFront = if txt = [] then d.b.atFront else endsLine txt
  indent : e.b.indent = d.b.indent
  bundle : e.b.bundle = d.b.bundle
  clean : e.Clean
  overread : e.overread = d.overread

theorem Prints.refl {d : Delivery} (hclean : d.Clean) : Prints d d [] :=
  ⟨(List.append_nil _).symm, (if_pos rfl).symm, rfl, rfl, hclean, rfl⟩

/-- Nothing is inserted without an indentation. -/
theorem indented_of_not_pos {indent : Int32} (hindent : ¬ 0 < indent) {fuel : Nat} {front : Bool}
    {txt : List UInt8} (h : txt.length ≤ fuel) : indented indent fuel front txt = txt := by
  induction fuel generalizing front txt with
  | zero => rw [List.length_eq_zero_iff.mp (Nat.le_zero.mp h), indented]
  | succ fuel ih =>
      rw [indented]
      split
      · rename_i hnil
        exact hnil.symm
      · rename_i hsome
        have hlt := length_rest_lt hsome
        rw [if_neg fun h => hindent h.2, List.nil_append, ih (by omega), nextLine_append_drop]

theorem indented_fuel (indent : Int32) {fuel : Nat} {txt : List UInt8} (h : txt.length ≤ fuel)
    (front : Bool) : indented indent fuel front txt = indented indent txt.length front txt := by
  induction fuel using Nat.strong_induction_on generalizing txt front with
  | _ fuel ih =>
      by_cases hsome : txt = []
      · rw [hsome]
        cases fuel with
        | zero => rfl
        | succ fuel => rw [indented, if_pos rfl]; rfl
      · have hlt := length_rest_lt hsome
        obtain ⟨m, hm⟩ := Nat.exists_eq_succ_of_ne_zero (List.length_pos_of_ne_nil hsome).ne'
        obtain ⟨n, rfl⟩ := Nat.exists_eq_succ_of_ne_zero
          (Nat.lt_of_lt_of_le (List.length_pos_of_ne_nil hsome) h).ne'
        have hn := @ih n (Nat.lt_succ_self n) (txt.drop (nextLine txt).length) (by omega)
        have hm' := @ih m (by omega) (txt.drop (nextLine txt).length) (by omega)
        rw [hm, Nat.succ_eq_add_one, Nat.succ_eq_add_one, indented, indented, if_neg hsome,
          if_neg hsome, hn, hm']

/-- One group in front of a text. -/
theorem Prints.cons {d e f : Delivery} {txt : List UInt8} (hsome : txt ≠ [])
    (h : Taken d e ((if d.b.atFront ∧ 0 < d.b.indent then stringForIndent d.b.indent else []) ++
      nextLine txt)) (hrest : Prints e f (txt.drop (nextLine txt).length)) : Prints d f txt := by
  have hsplit := nextLine_append_drop txt
  obtain ⟨m, hm⟩ := Nat.exists_eq_succ_of_ne_zero (List.length_pos_of_ne_nil hsome).ne'
  have hle : (txt.drop (nextLine txt).length).length ≤ m := by
    have hlt := length_rest_lt hsome
    omega
  have hfront := h.atFront
  rw [endsLine_append (nextLine_ne_nil hsome)] at hfront
  refine ⟨?_, ?_, hrest.indent.trans h.indent, hrest.bundle.trans h.bundle, hrest.clean,
    hrest.overread.trans h.overread⟩
  · rw [hrest.output, h.output, h.indent, hfront, hm, Nat.succ_eq_add_one, indented, if_neg hsome,
      indented_fuel d.b.indent hle]
    simp only [List.append_assoc]
  · rw [hrest.atFront, hfront, if_neg hsome]
    split
    · rename_i hnil
      rw [hnil, List.append_nil] at hsplit
      rw [hsplit]
    · rename_i hnil
      rw [← endsLine_append hnil (nextLine txt), hsplit]

theorem print_plain (beyond : UInt8) {n : Nat} {txt : List UInt8} (hn : txt.length ≤ n)
    {d : Delivery} (hclean : d.Clean) : Prints d (d.print false beyond txt always) txt := by
  induction n generalizing txt d with
  | zero =>
      obtain rfl := List.length_eq_zero_iff.mp (Nat.le_zero.mp hn)
      exact .refl hclean
  | succ n ih =>
      by_cases hsome : txt = []
      · rw [hsome, print_nil]
        exact .refl hclean
      · have hlt := length_rest_lt hsome
        have htaken := (pass_taken d (nextLine txt)).resolve_right (nextLine_ne_nil hsome)
        rw [print_eq false beyond d hsome, if_neg fun h => Bool.false_ne_true h.1]
        exact .cons hsome htaken (ih (by omega) htaken.clean)

/-! ## The fast path -/

/-- It is not taken with an indentation or inside of a bundle. -/
theorem print_fast_of_kept (beyond : UInt8) {n : Nat} {txt : List UInt8} (hn : txt.length ≤ n)
    {d : Delivery} (hkept : 0 < d.b.indent ∨ d.b.bundle ≠ 0) :
    d.print true beyond txt always = d.print false beyond txt always := by
  induction n generalizing txt d with
  | zero =>
      obtain rfl := List.length_eq_zero_iff.mp (Nat.le_zero.mp hn)
      rfl
  | succ n ih =>
      by_cases hsome : txt = []
      · rw [hsome]
        rfl
      · have hlt := length_rest_lt hsome
        have hnot : ¬ (true = true ∧ d.takesFast (nextLine txt) = true) := by
          rcases hkept with h | h
          · simp [takesFast, h]
          · simp [takesFast, h]
        obtain ⟨-, -, hindent, hbundle, -, -⟩ :=
          (pass_taken d (nextLine txt)).resolve_right (nextLine_ne_nil hsome)
        rw [print_eq true beyond d hsome, print_eq false beyond d hsome, if_neg hnot,
          if_neg fun h => Bool.false_ne_true h.1]
        exact ih (by omega) (by rwa [hindent, hbundle])

/-- It is not taken without a newline. -/
theorem print_fast_of_notMem (beyond : UInt8) {txt : List UInt8} (h : newline ∉ txt)
    (d : Delivery) : d.print true beyond txt always = d.print false beyond txt always := by
  by_cases hsome : txt = []
  · rw [hsome]
    rfl
  · have hnot : ¬ (true = true ∧ d.takesFast (nextLine txt) = true) := fun hcase => by
      have hend : endsLine (nextLine txt) = true := by
        have hfast := hcase.2
        simp only [takesFast, Bool.and_eq_true] at hfast
        exact hfast.1.2
      exact h ((endsLine_nextLine txt).mp hend)
    rw [print_eq true beyond d hsome, print_eq false beyond d hsome, if_neg hnot,
      if_neg fun h => Bool.false_ne_true h.1, nextLine_of_notMem h, List.drop_length]
    rfl

/-- At the front of a line, with nothing in the buffer, no indentation and no bundle. -/
structure AtFront (d : Delivery) : Prop where
  front : d.b.atFront = true
  indent : ¬ 0 < d.b.indent
  bundle : d.b.bundle = 0
  buffer : d.b.buffer = []

theorem AtFront.clean {d : Delivery} (h : d.AtFront) : d.Clean := fun _ _ => h.buffer

theorem AtFront.takesFast {d : Delivery} (h : d.AtFront) {txt : List UInt8}
    (hmem : newline ∈ txt) : d.takesFast (nextLine txt) = true := by
  simp [Delivery.takesFast, h.front, h.indent, h.bundle, (endsLine_nextLine txt).mpr hmem]

/-- A complete line is passed to `writeLines` as it is. -/
theorem AtFront.addLine {d : Delivery} (h : d.AtFront) {line : List UInt8}
    (hend : endsLine line = true) :
    d.addIndent.addLine line = { d with written := d.written ++ line } := by
  obtain ⟨⟨buffer, front, indent, bundle⟩, written, overread⟩ := d
  obtain ⟨rfl, hindent, rfl, rfl⟩ := h
  have hnone : Delivery.addIndent ⟨⟨[], true, indent, 0⟩, written, overread⟩ =
      ⟨⟨[], true, indent, 0⟩, written, overread⟩ := if_neg fun h => hindent h.2
  rw [hnone, Delivery.addLine]
  dsimp only
  rw [if_pos ⟨hend, rfl⟩]
  rfl

/-- The buffered path passes complete lines on one after the other. -/
theorem AtFront.print_lines {d : Delivery} (h : d.AtFront) (beyond : UInt8) {n : Nat}
    {lines tail : List UInt8} (hn : lines.length ≤ n)
    (hlines : lines = [] ∨ endsLine lines = true) (htail : newline ∉ tail) :
    d.print false beyond (lines ++ tail) always =
      Delivery.print false beyond tail always { d with written := d.written ++ lines } := by
  induction n generalizing lines d with
  | zero =>
      obtain rfl := List.length_eq_zero_iff.mp (Nat.le_zero.mp hn)
      rw [List.append_nil]
      rfl
  | succ n ih =>
      rcases hlines with rfl | hend
      · rw [List.append_nil]
        rfl
      · have hmem := mem_of_endsLine hend
        have hsome : lines ++ tail ≠ [] := List.append_ne_nil_of_left_ne_nil
          (List.ne_nil_of_mem hmem) tail
        have hfirst := nextLine_append hmem htail
        have hlt := length_rest_lt (List.ne_nil_of_mem hmem)
        have hsplit := nextLine_append_drop lines
        have hdrop : (lines ++ tail).drop (nextLine lines).length =
            lines.drop (nextLine lines).length ++ tail :=
          List.drop_append_of_le_length (by
            rw [← congrArg List.length hsplit, List.length_append]
            exact Nat.le_add_right _ _)
        have hnext : AtFront { d with written := d.written ++ nextLine lines } :=
          ⟨h.front, h.indent, h.bundle, h.buffer⟩
        have hrest : lines.drop (nextLine lines).length = [] ∨
            endsLine (lines.drop (nextLine lines).length) = true := by
          by_cases hnil : lines.drop (nextLine lines).length = []
          · exact .inl hnil
          · rw [← hsplit, endsLine_append hnil] at hend
            exact .inr hend
        rw [print_eq false beyond d hsome, if_neg fun h => Bool.false_ne_true h.1, hfirst,
          h.addLine ((endsLine_nextLine lines).mpr hmem), hdrop, ih hnext (by omega) hrest]
        dsimp only
        rw [List.append_assoc, hsplit]

/-- The lines up to the last newline are those that the fast path writes at once. -/
theorem AtFront.print_lastLine {d : Delivery} (h : d.AtFront) (beyond : UInt8) {txt : List UInt8}
    (hmem : newline ∈ txt) (hrest : newline ∈ txt.drop (nextLine txt).length) :
    d.print true beyond txt always = d.print false beyond txt always := by
  obtain ⟨happend, hend, htail⟩ := linesOf_append_afterLines hrest beyond
  have hsome := List.ne_nil_of_mem hmem
  have hinside : (txt.drop (nextLine txt).length).isEmpty = false := by
    rw [List.isEmpty_eq_false_iff]
    exact List.ne_nil_of_mem hrest
  have htext : txt = nextLine txt ++ linesOf beyond (txt.drop (nextLine txt).length) ++
      afterLines (txt.drop (nextLine txt).length) := by
    rw [List.append_assoc, happend, nextLine_append_drop]
  have hends : endsLine (nextLine txt ++ linesOf beyond (txt.drop (nextLine txt).length)) =
      true := by
    rw [endsLine_append (List.ne_nil_of_mem (mem_of_endsLine hend))]
    exact hend
  have hlines := h.print_lines beyond le_rfl (.inr hends) htail
  rw [← htext] at hlines
  rw [print_eq true beyond d hsome, if_pos ⟨rfl, h.takesFast hmem⟩, hlines, writeFast, hinside,
    Bool.or_false]
  exact print_fast_of_notMem beyond htail _

/-- With no further newline, the fast path takes one byte of the line that follows. -/
theorem AtFront.print_oneByte {d : Delivery} (h : d.AtFront) (beyond : UInt8) {txt : List UInt8}
    (hmem : newline ∈ txt) {b : UInt8} {bs : List UInt8}
    (hrest : txt.drop (nextLine txt).length = b :: bs) (hsome : bs ≠ [])
    (hnone : newline ∉ b :: bs) : Prints d (d.print true beyond txt always) txt := by
  have hsplit := nextLine_append_drop txt
  rw [hrest] at hsplit
  have htail : newline ∉ bs := fun hin => hnone (List.mem_cons_of_mem b hin)
  have hlines : linesOf beyond (b :: bs) = [b] := if_neg hnone
  have hafter : afterLines (b :: bs) = bs := if_neg hnone
  have hclean : (d.writeFast beyond (nextLine txt) (b :: bs)).Clean := fun _ _ => h.buffer
  have hprints := print_plain beyond (le_refl bs.length) hclean
  rw [print_eq true beyond d (List.ne_nil_of_mem hmem), if_pos ⟨rfl, h.takesFast hmem⟩, hrest,
    hafter, print_fast_of_notMem beyond htail]
  refine ⟨?_, ?_, hprints.indent, hprints.bundle, hprints.clean,
    hprints.overread.trans (Bool.or_false _)⟩
  · have houtput : (d.writeFast beyond (nextLine txt) (b :: bs)).output =
        d.output ++ (nextLine txt ++ [b]) := by
      rw [output, output, writeFast, hlines]
      dsimp only
      rw [h.buffer, List.append_nil, List.append_nil]
    have hplain : indented (d.writeFast beyond (nextLine txt) (b :: bs)).b.indent bs.length
        (d.writeFast beyond (nextLine txt) (b :: bs)).b.atFront bs = bs :=
      indented_of_not_pos h.indent le_rfl
    rw [hprints.output, hplain, houtput, indented_of_not_pos h.indent le_rfl]
    conv_rhs => rw [← hsplit]
    rw [List.append_assoc, List.append_assoc]
    rfl
  · rw [hprints.atFront, if_neg hsome, if_neg (List.ne_nil_of_mem hmem), ← hsplit,
      List.append_cons, endsLine_append hsome]

/-- From the front of a line on. -/
theorem AtFront.print_fast {d : Delivery} (h : d.AtFront) (beyond : UInt8) {txt : List UInt8}
    (hmore : Printing.MoreLines txt) : Prints d (d.print true beyond txt always) txt := by
  by_cases hmem : newline ∈ txt
  · by_cases hrest : newline ∈ txt.drop (nextLine txt).length
    · rw [h.print_lastLine beyond hmem hrest]
      exact print_plain beyond le_rfl h.clean
    · have hlength := (hmore hmem).resolve_left hrest
      match hcase : txt.drop (nextLine txt).length with
      | b :: c :: bs =>
          exact h.print_oneByte beyond hmem hcase (List.cons_ne_nil c bs) (hcase ▸ hrest)
      | [_] | [] => simp [hcase] at hlength
  · rw [print_fast_of_notMem beyond hmem]
    exact print_plain beyond le_rfl h.clean

/-- The fast path makes no difference under the condition. -/
theorem print_fast {d : Delivery} (hclean : d.Clean) (beyond : UInt8) {txt : List UInt8}
    (h : 0 < d.b.indent ∨ d.b.bundle ≠ 0 ∨ Printing.MoreLines (Printing.fromFront d.b txt)) :
    Prints d (d.print true beyond txt always) txt := by
  by_cases hkept : 0 < d.b.indent ∨ d.b.bundle ≠ 0
  · rw [print_fast_of_kept beyond le_rfl hkept]
    exact print_plain beyond le_rfl hclean
  · obtain ⟨hindent, hbundle⟩ := not_or.mp hkept
    have hbundle := not_not.mp hbundle
    have hmore := (h.resolve_left hindent).resolve_left (not_not.mpr hbundle)
    unfold Printing.fromFront at hmore
    cases hfront : d.b.atFront with
    | true =>
        rw [if_pos hfront] at hmore
        exact AtFront.print_fast ⟨hfront, hindent, hbundle, hclean hbundle hfront⟩ beyond hmore
    | false =>
        -- the first group completes the open line, or takes all of the text
        rw [if_neg (by rw [hfront]; exact Bool.false_ne_true)] at hmore
        by_cases hsome : txt = []
        · rw [hsome]
          exact .refl hclean
        · have hnot : ¬ (true = true ∧ d.takesFast (nextLine txt) = true) := by
            simp [takesFast, hfront]
          have htaken := (pass_taken d (nextLine txt)).resolve_right (nextLine_ne_nil hsome)
          have hfront' := htaken.atFront
          rw [endsLine_append (nextLine_ne_nil hsome)] at hfront'
          rw [print_eq true beyond d hsome, if_neg hnot]
          refine .cons hsome htaken ?_
          by_cases hend : endsLine (nextLine txt) = true
          · rw [hend] at hfront'
            rw [← htaken.bundle] at hbundle
            rw [← htaken.indent] at hindent
            exact AtFront.print_fast
              ⟨hfront', hindent, hbundle, htaken.clean hbundle hfront'⟩ beyond hmore
          · have hnone : newline ∉ txt := mt (endsLine_nextLine txt).mpr hend
            rw [print_fast_of_notMem beyond fun h => hnone (List.mem_of_mem_drop h)]
            exact print_plain beyond le_rfl htaken.clean

end Delivery

/-! ## Runs -/

namespace Printing

/-- An output holds what has been printed. -/
structure Holds (d : Delivery) (p : Printed) : Prop where
  once : d.output = p.text
  inside : d.overread = false
  front : d.b.atFront = p.front
  indent : d.b.indent = p.indent
  clean : d.Clean

theorem Holds.print {d e : Delivery} {p : Printed} (h : Holds d p) {txt : List UInt8}
    (hprints : Delivery.Prints d e txt) : Holds e (p.print txt) := by
  refine ⟨?_, hprints.overread.trans h.inside, ?_, hprints.indent.trans h.indent, hprints.clean⟩
  · rw [hprints.output, h.once, h.indent, h.front, Printed.print]
  · rw [hprints.atFront, h.front, Printed.print]

theorem Holds.moveIndent {d : Delivery} {p : Printed} (h : Holds d p) (delta : Int32) :
    Holds { d with b := d.b.moveIndent delta } (p.moveIndent delta) := by
  refine ⟨h.once, h.inside, h.front, ?_, h.clean⟩
  dsimp only
  rw [Printed.moveIndent, TextBuffer.moveIndent, h.indent]

theorem Holds.pushBundle {d : Delivery} {p : Printed} (h : Holds d p)
    (hpos : 0 < d.b.bundle + 1) : Holds { d with b := d.b.pushBundle } p := by
  refine ⟨h.once, h.inside, h.front, h.indent, fun hbundle _ => ?_⟩
  have hzero : d.b.bundle + 1 = 0 := hbundle
  rw [hzero] at hpos
  exact absurd hpos (by decide)

theorem Holds.popBundle {d : Delivery} {p : Printed} (h : Holds d p) : Holds d.popBundle p := by
  unfold Delivery.popBundle
  dsimp only
  generalize (if d.b.bundle - 1 < 0 then (0 : Int32) else d.b.bundle - 1) = bundle
  by_cases hflush : bundle = 0 ∧ d.b.buffer ≠ [] ∧ d.b.atFront = true
  · rw [if_pos hflush]
    refine ⟨?_, h.inside, hflush.2.2.symm.trans h.front, h.indent, fun _ _ => rfl⟩
    rw [← h.once]
    simp [Delivery.output, restart]
  · rw [if_neg hflush]
    refine ⟨h.once, h.inside, h.front, h.indent, fun hbundle hfront => ?_⟩
    by_contra hsome
    exact hflush ⟨hbundle, hsome, hfront⟩

/-- What holds between the calls. -/
structure Inv (s : Printing) : Prop where
  holds : Holds s.d s.printed
  plain : Holds s.plain s.printed
  bundle : s.plain.b.bundle = s.d.b.bundle

theorem holds_init : Holds initial.d initial.printed := ⟨rfl, rfl, rfl, rfl, fun _ _ => rfl⟩

theorem inv_init : Inv initial := ⟨holds_init, holds_init, rfl⟩

theorem popBundle_bundle (d : Delivery) : d.popBundle.b.bundle =
    if d.b.bundle - 1 < 0 then 0 else d.b.bundle - 1 := by
  unfold Delivery.popBundle
  dsimp only
  exact (apply_ite (fun e : Delivery => e.b.bundle) _ _ _).trans (ite_self _)

theorem inv_step {s s' : Printing} {c : PrintCall} (h : s.Inv) (hfollows : s.Follows c)
    (hstep : s.step c = some s') : s'.Inv := by
  cases c with
  | print txt beyond =>
      obtain rfl := Option.some.inj hstep
      have hfast := Delivery.print_fast h.holds.clean beyond hfollows
      have hplain := Delivery.print_plain beyond (le_refl txt.length) h.plain.clean
      refine ⟨h.holds.print hfast, h.plain.print hplain, ?_⟩
      rw [hfast.bundle, hplain.bundle, h.bundle]
  | moveIndent delta =>
      obtain rfl := Option.some.inj hstep
      exact ⟨h.holds.moveIndent delta, h.plain.moveIndent delta, h.bundle⟩
  | pushBundle =>
      obtain rfl := Option.some.inj hstep
      refine ⟨h.holds.pushBundle hfollows, h.plain.pushBundle ?_, congrArg (· + 1) h.bundle⟩
      rw [h.bundle]
      exact hfollows
  | popBundle =>
      rw [step] at hstep
      split at hstep
      · obtain rfl := Option.some.inj hstep
        refine ⟨h.holds.popBundle, h.plain.popBundle, ?_⟩
        rw [popBundle_bundle, popBundle_bundle, h.bundle]
      · cases hstep

end Printing
end Binder
end AndroidLinux
