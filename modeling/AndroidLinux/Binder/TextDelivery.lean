import AndroidLinux.Binder.TextOutput
import Mathlib.Data.List.DropRight

/-!
# What `BufferedTextOutput` delivers

`print` with what it passes to `writeLines`.  The text goes group by group: a line with the
empty lines that follow it.  The fast path writes all complete lines at once, but when no
newline follows the first group its end pointer is one byte too far: it takes a byte of the
unfinished line, or the one behind the text.

`Printed` is the purpose: the printed text with the indentation in front of each group that
begins a line.
-/

namespace AndroidLinux
namespace Binder

open Lib

/-- The state of an output with all that has been passed to `writeLines`; `overread` records
a read behind a printed text. -/
structure Delivery where
  b : TextBuffer
  written : List UInt8
  overread : Bool
  deriving DecidableEq

namespace Delivery

open TextBuffer

/-- All that has been delivered or is still buffered. -/
def output (d : Delivery) : List UInt8 := d.written ++ d.b.buffer

/-- A line is appended, and passed to `writeLines` when it is complete. -/
def appendLine (d : Delivery) (line : List UInt8) (granted : Bool)
    (next : Delivery → Delivery) : Delivery :=
  match d.b.append line granted with
  | none => d
  | some c =>
      let c := { c with atFront := endsLine line }
      if c.atFront ∧ c.bundle = 0 then
        next { d with b := c.restart, written := d.written ++ c.buffer }
      else next { d with b := c }

/-- The bytes up to `lastLine`; `beyond` is the byte behind the text. -/
def linesOf (beyond : UInt8) (rest : List UInt8) : List UInt8 :=
  if newline ∈ rest then rest.rdropWhile (· ≠ newline) else [rest.headD beyond]

/-- The fast path. -/
def writeFast (d : Delivery) (beyond : UInt8) (first rest : List UInt8) : Delivery :=
  { d with
    written := d.written ++ (first ++ linesOf beyond rest)
    overread := d.overread || rest.isEmpty }

/-- The condition of the fast path. -/
def takesFast (d : Delivery) (first : List UInt8) : Bool :=
  d.b.atFront && !(0 < d.b.indent) && endsLine first && d.b.bundle = 0

/-- The loop of `print`, as `TextBuffer.printLoop`, with the fast path or without it. -/
def printLoop (fast : Bool) (beyond : UInt8) (grants : Nat → Bool) :
    Nat → Nat → Delivery → List UInt8 → Delivery
  | 0, _, d, _ => d
  | fuel + 1, k, d, txt =>
      if txt = [] then d
      else
        let first := nextLine txt
        let rest := txt.drop first.length
        if d.b.atFront ∧ 0 < d.b.indent then
          match d.b.append (stringForIndent d.b.indent) (grants k) with
          | none => d
          | some c =>
              { d with b := c }.appendLine first (grants (k + 1)) fun e =>
                printLoop fast beyond grants fuel (k + 2) e rest
        else if fast ∧ d.takesFast first then
          printLoop fast beyond grants fuel k (d.writeFast beyond first rest) (afterLines rest)
        else d.appendLine first (grants k) fun e => printLoop fast beyond grants fuel (k + 1) e rest

def print (fast : Bool) (beyond : UInt8) (txt : List UInt8) (grants : Nat → Bool)
    (d : Delivery) : Delivery :=
  printLoop fast beyond grants txt.length 0 d txt

/-- `popBundle`. -/
def popBundle (d : Delivery) : Delivery :=
  let c := { d.b with bundle := if d.b.bundle - 1 < 0 then 0 else d.b.bundle - 1 }
  if c.bundle = 0 ∧ c.buffer ≠ [] ∧ c.atFront then
    { d with b := c.restart, written := d.written ++ c.buffer }
  else { d with b := c }

/-! ## The model of the buffers alone -/

theorem appendLine_b {d : Delivery} (line : List UInt8) (granted : Bool)
    {next : Delivery → Delivery} {next' : TextBuffer → TextBuffer}
    (h : ∀ e, (next e).b = next' e.b) :
    (d.appendLine line granted next).b = d.b.appendLine line granted next' := by
  unfold appendLine TextBuffer.appendLine
  cases d.b.append line granted with
  | none => rfl
  | some c =>
      dsimp only
      split
      · exact h _
      · exact h _

theorem printLoop_b (beyond : UInt8) (grants : Nat → Bool) (fuel k : Nat) (d : Delivery)
    (txt : List UInt8) : (printLoop true beyond grants fuel k d txt).b =
      TextBuffer.printLoop grants fuel k d.b txt := by
  induction fuel generalizing k d txt with
  | zero => rfl
  | succ fuel ih =>
      rw [printLoop, TextBuffer.printLoop]
      split
      · rfl
      dsimp only
      split
      · cases d.b.append (stringForIndent d.b.indent) (grants k) with
        | none => rfl
        | some c => exact appendLine_b _ _ fun e => ih (k + 2) e _
      · rename_i hindent
        have hfast : (true = true ∧ d.takesFast (nextLine txt) = true) ↔
            d.b.atFront = true ∧ endsLine (nextLine txt) = true ∧ d.b.bundle = 0 := by
          have hnot : d.b.atFront = true → (0 < d.b.indent) = False := fun h =>
            eq_false fun hpos => hindent ⟨h, hpos⟩
          simp only [takesFast, Bool.and_eq_true, Bool.not_eq_true', decide_eq_true_eq,
            decide_eq_false_iff_not, true_and]
          constructor
          · rintro ⟨⟨⟨hfront, -⟩, hend⟩, hbundle⟩
            exact ⟨hfront, hend, hbundle⟩
          · rintro ⟨hfront, hend, hbundle⟩
            exact ⟨⟨⟨hfront, fun hpos => hindent ⟨hfront, hpos⟩⟩, hend⟩, hbundle⟩
        by_cases hcase : d.b.atFront = true ∧ endsLine (nextLine txt) = true ∧ d.b.bundle = 0
        · rw [if_pos (hfast.mpr hcase), if_pos hcase]
          exact ih k _ _
        · rw [if_neg (mt hfast.mp hcase), if_neg hcase]
          exact appendLine_b _ _ fun e => ih (k + 1) e _

/-- `print` does to the buffer what it does in the model without the delivery. -/
theorem print_b (beyond : UInt8) (txt : List UInt8) (grants : Nat → Bool) (d : Delivery) :
    (d.print true beyond txt grants).b = TextBuffer.print txt grants d.b :=
  printLoop_b beyond grants txt.length 0 d txt

theorem popBundle_b (d : Delivery) : d.popBundle.b = TextBuffer.popBundle d.b := by
  unfold popBundle TextBuffer.popBundle
  exact apply_ite Delivery.b _ _ _

/-! ## Groups of lines -/

theorem nextLine_append_drop (txt : List UInt8) :
    nextLine txt ++ txt.drop (nextLine txt).length = txt := by
  refine List.prefix_iff_eq_append.mp ⟨(txt.dropWhile (· ≠ newline)).dropWhile (· = newline), ?_⟩
  rw [nextLine, List.append_assoc, List.takeWhile_append_dropWhile]
  exact List.takeWhile_append_dropWhile

theorem endsLine_append {line : List UInt8} (hsome : line ≠ []) (front : List UInt8) :
    endsLine (front ++ line) = endsLine line := by
  rw [endsLine, endsLine, List.getLast?_append, List.getLast?_eq_getLast_of_ne_nil hsome]
  rfl

theorem mem_of_endsLine {line : List UInt8} (h : endsLine line = true) : newline ∈ line :=
  List.mem_of_getLast? (of_decide_eq_true h)

theorem nextLine_of_notMem {txt : List UInt8} (h : newline ∉ txt) : nextLine txt = txt := by
  have hall : txt.takeWhile (· ≠ newline) = txt := List.takeWhile_eq_self_iff.mpr fun b hb =>
    decide_eq_true fun heq => h (heq ▸ hb)
  have hnone : txt.dropWhile (· ≠ newline) = [] := List.dropWhile_eq_nil_iff.mpr fun b hb =>
    decide_eq_true fun heq => h (heq ▸ hb)
  rw [nextLine, hall, hnone, List.takeWhile_nil, List.append_nil]

/-- From the first newline on. -/
theorem dropWhile_eq_cons {txt : List UInt8} (h : newline ∈ txt) :
    ∃ rest, txt.dropWhile (· ≠ newline) = newline :: rest := by
  induction txt with
  | nil => cases h
  | cons b bs ih =>
      by_cases hb : b = newline
      · exact ⟨bs, by rw [List.dropWhile_cons_of_neg (by simp [hb]), hb]⟩
      · rw [List.dropWhile_cons_of_pos (by simpa using hb)]
        exact ih (List.mem_of_ne_of_mem (Ne.symm hb) h)

theorem endsLine_nextLine (txt : List UInt8) : endsLine (nextLine txt) = true ↔ newline ∈ txt := by
  constructor
  · intro h
    rw [← nextLine_append_drop txt]
    exact List.mem_append_left _ (mem_of_endsLine h)
  · intro h
    obtain ⟨rest, hrest⟩ := dropWhile_eq_cons h
    have hsome : (newline :: rest).takeWhile (· = newline) ≠ [] := by
      rw [List.takeWhile_cons_of_pos (by simp)]
      exact List.cons_ne_nil _ _
    have hlast := List.mem_takeWhile_imp (List.getLast_mem hsome)
    rw [nextLine, hrest, endsLine_append hsome, endsLine, List.getLast?_eq_getLast_of_ne_nil hsome]
    simpa using hlast

theorem nextLine_ne_nil {txt : List UInt8} (hsome : txt ≠ []) : nextLine txt ≠ [] := by
  by_cases h : newline ∈ txt
  · intro hnil
    have hend := (endsLine_nextLine txt).mpr h
    rw [hnil] at hend
    cases hend
  · rwa [nextLine_of_notMem h]

/-- The rest behind a group is shorter than the text. -/
theorem length_rest_lt {txt : List UInt8} (hsome : txt ≠ []) :
    (txt.drop (nextLine txt).length).length < txt.length := by
  have hpos := List.length_pos_of_ne_nil (nextLine_ne_nil hsome)
  have hpos' := List.length_pos_of_ne_nil hsome
  rw [List.length_drop]
  omega

/-- A text without a newline behind complete lines does not change their first group. -/
theorem nextLine_append {lines tail : List UInt8} (hlines : newline ∈ lines)
    (htail : newline ∉ tail) : nextLine (lines ++ tail) = nextLine lines := by
  obtain ⟨rest, hrest⟩ := dropWhile_eq_cons hlines
  have hlength : ¬ (lines.takeWhile (· ≠ newline)).length = lines.length := fun heq => by
    have hsplit := congrArg List.length
      (List.takeWhile_append_dropWhile (p := (· ≠ newline)) (l := lines))
    rw [List.length_append, heq, hrest, List.length_cons] at hsplit
    omega
  have hnone : tail.takeWhile (· = newline) = [] := by
    cases tail with
    | nil => rfl
    | cons b bs =>
        refine List.takeWhile_cons_of_neg ?_
        have hb : b ≠ newline := fun heq => htail (heq ▸ List.mem_cons_self)
        simpa using hb
  have hdrop : (newline :: rest ++ tail).takeWhile (· = newline) =
      (newline :: rest).takeWhile (· = newline) := by
    rw [List.takeWhile_append, hnone, List.append_nil]
    split
    · rename_i hall
      exact ((List.takeWhile_prefix _).eq_of_length hall).symm
    · rfl
  rw [nextLine, nextLine, List.takeWhile_append, if_neg hlength, List.dropWhile_append, hrest,
    List.isEmpty_cons, if_neg Bool.false_ne_true, hdrop]

theorem length_afterLines_le (rest : List UInt8) : (afterLines rest).length ≤ rest.length := by
  unfold afterLines
  split
  · rw [List.length_reverse]
    exact (List.takeWhile_prefix _).length_le.trans (List.length_reverse).le
  · exact (List.drop_sublist 1 rest).length_le

/-- With a further newline the fast path stops behind the last one. -/
theorem linesOf_append_afterLines {rest : List UInt8} (h : newline ∈ rest) (beyond : UInt8) :
    linesOf beyond rest ++ afterLines rest = rest ∧ endsLine (linesOf beyond rest) = true ∧
      newline ∉ afterLines rest := by
  have hlines : linesOf beyond rest = (rest.reverse.dropWhile (· ≠ newline)).reverse := if_pos h
  have hafter : afterLines rest = (rest.reverse.takeWhile (· ≠ newline)).reverse := if_pos h
  obtain ⟨front, hfront⟩ := dropWhile_eq_cons (List.mem_reverse.mpr h)
  refine ⟨?_, ?_, fun hin => ?_⟩
  · rw [hlines, hafter, ← List.reverse_append, List.takeWhile_append_dropWhile,
      List.reverse_reverse]
  · rw [hlines, hfront, List.reverse_cons, endsLine_append (List.cons_ne_nil _ _)]
    rfl
  · rw [hafter, List.mem_reverse] at hin
    have hne := List.mem_takeWhile_imp hin
    simp at hne

/-! ## One group after the other -/

/-- `realloc` always succeeds. -/
def always (_ : Nat) : Bool := true

/-- The indentation in front of a group. -/
def addIndent (d : Delivery) : Delivery :=
  if d.b.atFront ∧ 0 < d.b.indent then
    { d with b := { d.b with buffer := d.b.buffer ++ stringForIndent d.b.indent } }
  else d

/-- A group behind what is in the buffer. -/
def addLine (d : Delivery) (line : List UInt8) : Delivery :=
  let c := { d.b with buffer := d.b.buffer ++ line, atFront := endsLine line }
  if c.atFront ∧ c.bundle = 0 then { d with b := c.restart, written := d.written ++ c.buffer }
  else { d with b := c }

theorem append_granted (b : TextBuffer) (txt : List UInt8) (k : Nat) :
    b.append txt (always k) = some { b with buffer := b.buffer ++ txt } := if_pos (.inl rfl)

theorem appendLine_granted (d : Delivery) (line : List UInt8) (k : Nat)
    (next : Delivery → Delivery) : d.appendLine line (always k) next = next (d.addLine line) := by
  rw [appendLine, append_granted]
  exact (apply_ite next _ _ _).symm

theorem printLoop_succ (fast : Bool) (beyond : UInt8) (fuel k : Nat) (d : Delivery)
    {txt : List UInt8} (hsome : txt ≠ []) : ∃ k',
    printLoop fast beyond always (fuel + 1) k d txt =
      if fast ∧ d.takesFast (nextLine txt) then
        printLoop fast beyond always fuel k'
          (d.writeFast beyond (nextLine txt) (txt.drop (nextLine txt).length))
          (afterLines (txt.drop (nextLine txt).length))
      else printLoop fast beyond always fuel k' (d.addIndent.addLine (nextLine txt))
        (txt.drop (nextLine txt).length) := by
  rw [printLoop, if_neg hsome]
  dsimp only
  by_cases hindent : d.b.atFront = true ∧ 0 < d.b.indent
  · have hnot : ¬ (fast = true ∧ d.takesFast (nextLine txt) = true) := by
      simp [takesFast, hindent.1, hindent.2]
    refine ⟨k + 2, ?_⟩
    rw [if_pos hindent, if_neg hnot, append_granted, addIndent, if_pos hindent]
    exact appendLine_granted _ _ _ _
  · rw [if_neg hindent, addIndent, if_neg hindent]
    by_cases hcase : fast = true ∧ d.takesFast (nextLine txt) = true
    · exact ⟨k, by rw [if_pos hcase, if_pos hcase]⟩
    · exact ⟨k + 1, by rw [if_neg hcase, if_neg hcase, appendLine_granted]⟩

theorem printLoop_nil (fast : Bool) (beyond : UInt8) (fuel k : Nat) (d : Delivery) :
    printLoop fast beyond always fuel k d [] = d := by
  cases fuel with
  | zero => rfl
  | succ fuel => rw [printLoop, if_pos rfl]

/-- The bound on the passes and the count of the answers make no difference. -/
theorem printLoop_eq (fast : Bool) (beyond : UInt8) {fuel : Nat} {txt : List UInt8}
    (hfuel : txt.length ≤ fuel) (k : Nat) (d : Delivery) :
    printLoop fast beyond always fuel k d txt = d.print fast beyond txt always := by
  induction fuel using Nat.strong_induction_on generalizing txt k d with
  | _ fuel ih =>
      by_cases hsome : txt = []
      · rw [hsome, print, printLoop_nil, printLoop_nil]
      · have hlt := length_rest_lt hsome
        have hle := length_afterLines_le (txt.drop (nextLine txt).length)
        obtain ⟨m, hm⟩ := Nat.exists_eq_succ_of_ne_zero (List.length_pos_of_ne_nil hsome).ne'
        obtain ⟨n, rfl⟩ := Nat.exists_eq_succ_of_ne_zero
          (Nat.lt_of_lt_of_le (List.length_pos_of_ne_nil hsome) hfuel).ne'
        obtain ⟨k₁, h₁⟩ := printLoop_succ fast beyond n k d hsome
        obtain ⟨k₂, h₂⟩ := printLoop_succ fast beyond m 0 d hsome
        have hn : ∀ rest : List UInt8, rest.length ≤ n → ∀ k d,
            printLoop fast beyond always n k d rest = d.print fast beyond rest always :=
          fun rest hrest => ih n (Nat.lt_succ_self n) hrest
        have hm' : ∀ rest : List UInt8, rest.length ≤ m → ∀ k d,
            printLoop fast beyond always m k d rest = d.print fast beyond rest always :=
          fun rest hrest => ih m (by omega) hrest
        rw [print, hm, Nat.succ_eq_add_one, Nat.succ_eq_add_one, h₁, h₂, hn _ (by omega),
          hn _ (by omega), hm' _ (by omega), hm' _ (by omega)]

theorem print_nil (fast : Bool) (beyond : UInt8) (d : Delivery) :
    d.print fast beyond [] always = d := rfl

/-- One pass of the loop. -/
theorem print_eq (fast : Bool) (beyond : UInt8) (d : Delivery) {txt : List UInt8}
    (hsome : txt ≠ []) : d.print fast beyond txt always =
      if fast ∧ d.takesFast (nextLine txt) then
        (d.writeFast beyond (nextLine txt) (txt.drop (nextLine txt).length)).print fast beyond
          (afterLines (txt.drop (nextLine txt).length)) always
      else (d.addIndent.addLine (nextLine txt)).print fast beyond
        (txt.drop (nextLine txt).length) always := by
  have hlt := length_rest_lt hsome
  have hle := length_afterLines_le (txt.drop (nextLine txt).length)
  obtain ⟨m, hm⟩ := Nat.exists_eq_succ_of_ne_zero (List.length_pos_of_ne_nil hsome).ne'
  obtain ⟨k, h⟩ := printLoop_succ fast beyond m 0 d hsome
  rw [print, hm, Nat.succ_eq_add_one, h, printLoop_eq fast beyond (by omega),
    printLoop_eq fast beyond (by omega)]

end Delivery
end Binder
end AndroidLinux
