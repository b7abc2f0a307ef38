import Mathlib.Data.List.GetD
import Mathlib.Data.List.TakeWhile
import AndroidLinux.Logcat.FormatLine
import AndroidLinux.Logcat.BinaryOutput

/-!
# The formatted text is complete

The lines of a message by a split at the newlines, the text that is promised for them, and the
comparison with what the two scans produce.
-/

namespace AndroidLinux
namespace Logcat

open Lib

/-! ## The lines of a message -/

/-- The newline-separated lines; there is none behind a newline at the end. -/
def messageLines (message : List UInt8) : List (List UInt8) :=
  let pieces := message.splitOn (ch '\n')
  if pieces.getLast? = some [] then pieces.dropLast else pieces

theorem messageLines_nil : messageLines [] = [] := rfl

theorem messageLines_single {line : List UInt8} (hne : line ≠ []) (h : ch '\n' ∉ line) :
    messageLines line = [line] := by
  simp [messageLines, List.splitOn_eq_singleton h, hne]

theorem messageLines_append {line : List UInt8} (rest : List UInt8) (h : ch '\n' ∉ line) :
    messageLines (line ++ ch '\n' :: rest) = line :: messageLines rest := by
  have hne := List.splitOn_ne_nil (ch '\n') rest
  unfold messageLines
  rw [List.splitOn_append_cons_self_of_not_mem h]
  obtain ⟨piece, pieces, hp⟩ := List.exists_cons_of_ne_nil hne
  rw [hp]
  dsimp only
  rw [List.getLast?_cons_cons, List.dropLast_cons_cons]
  split <;> rfl

/-- The recursion over the lines of a message. -/
theorem lines_induction {P : List UInt8 → Prop} (nil : P [])
    (single : ∀ line, line ≠ [] → ch '\n' ∉ line → P line)
    (more : ∀ line rest, ch '\n' ∉ line → P rest → P (line ++ ch '\n' :: rest)) :
    ∀ message, P message := by
  intro message
  induction hn : message.length using Nat.strong_induction_on generalizing message with
  | _ n ih =>
    by_cases hmem : ch '\n' ∈ message
    · obtain ⟨line, rest, heq, hline⟩ := List.eq_append_cons_of_mem hmem
      rw [heq]
      refine more line rest hline (ih rest.length ?_ rest rfl)
      rw [← hn, heq, List.length_append, List.length_cons]
      omega
    · by_cases hempty : message = []
      · rw [hempty]
        exact nil
      · exact single message hempty hmem

theorem numLines_append (line rest : List UInt8) (h : ch '\n' ∉ line) :
    numLines (line ++ ch '\n' :: rest) = numLines rest + 1 := by
  unfold numLines
  rw [List.count_append, List.count_eq_zero.mpr h, List.count_cons_self,
    List.getLast?_append_of_ne_nil _ (List.cons_ne_nil _ _)]
  cases rest with
  | nil => rfl
  | cons b bs =>
    rw [List.getLast?_cons_cons]
    omega

/-- The first scan counts the lines. -/
theorem numLines_eq (message : List UInt8) : numLines message = (messageLines message).length := by
  induction message using lines_induction with
  | nil => rfl
  | single line hne h =>
    rw [messageLines_single hne h]
    obtain ⟨front, last, rfl⟩ := line.eq_nil_or_concat.resolve_left hne
    have hlast : last ≠ ch '\n' := by
      rintro rfl
      exact h (by simp)
    rw [numLines, List.count_eq_zero.mpr h, List.concat_eq_append, List.getLast?_concat]
    simp [hlast]
  | more line rest h ih =>
    rw [numLines_append line rest h, messageLines_append rest h, List.length_cons, ih]

/-- The text that is promised. -/
def promisedText (prefixBuf suffixBuf : List UInt8) (format : PrintFormat) (message : List UInt8) :
    List UInt8 :=
  if format = .long then prefixBuf ++ message ++ suffixBuf
  else (messageLines message).flatMap fun line => prefixBuf ++ line ++ suffixBuf

/-- The text of the lines and the newlines that are not part of it. -/
theorem length_lines (prefixBuf suffixBuf message : List UInt8) :
    ((messageLines message).flatMap fun line => prefixBuf ++ line ++ suffixBuf).length +
      message.count (ch '\n') =
    numLines message * (prefixBuf.length + suffixBuf.length) + message.length := by
  induction message using lines_induction with
  | nil => simp [messageLines_nil, numLines]
  | single line hne h =>
    have hone : numLines line = 1 := by rw [numLines_eq, messageLines_single hne h]; rfl
    rw [hone, messageLines_single hne h, List.flatMap_singleton, List.count_eq_zero.mpr h]
    simp only [List.length_append]
    omega
  | more line rest h ih =>
    rw [numLines_append line rest h, messageLines_append rest h, List.flatMap_cons,
      List.count_append, List.count_eq_zero.mpr h, List.count_cons_self, Nat.add_mul]
    simp only [List.length_append, List.length_cons]
    omega

/-- The promised text and its NUL are no longer than the size, and shorter by no more than the
message is long. -/
theorem length_promisedText (prefixBuf suffixBuf : List UInt8) (format : PrintFormat)
    (message : List UInt8) :
    ∃ newlines ≤ message.length,
      (promisedText prefixBuf suffixBuf format message).length + newlines + 1 =
        bytesNeeded prefixBuf suffixBuf (linesFor format message) message := by
  unfold promisedText bytesNeeded linesFor
  by_cases hlong : format = .long
  · rw [if_pos hlong, if_pos hlong]
    refine ⟨0, Nat.zero_le _, ?_⟩
    simp only [List.length_append]
    omega
  · rw [if_neg hlong, if_neg hlong]
    exact ⟨message.count (ch '\n'), List.count_le_length,
      congrArg (· + 1) (length_lines prefixBuf suffixBuf message)⟩

/-! ## The memory of the buffer -/

/-- The memory with a string at its start, and the cursor behind it. -/
def cursorAfter (memory : Nat → UInt8) (text : List UInt8) : Cursor :=
  ⟨text.length, storeAt memory 0 (text ++ [0])⟩

theorem storeAt_zero (memory : Nat → UInt8) (bs : List UInt8) (i : Nat) :
    storeAt memory 0 bs i = bs.getD i (memory i) := by
  simp [storeAt]

/-- A string that is stored over the NUL of another one continues it. -/
theorem storeAt_terminator (memory : Nat → UInt8) (text s : List UInt8) :
    storeAt (storeAt memory 0 (text ++ [0])) text.length (s ++ [0]) =
      storeAt memory 0 (text ++ s ++ [0]) := by
  funext i
  rw [storeAt_zero, List.append_assoc]
  unfold storeAt
  split
  · rename_i hle
    rw [List.getD_append_right _ _ _ _ hle]
    by_cases hin : i - text.length < (s ++ [0]).length
    · rw [List.getD_eq_getElem _ _ hin, List.getD_eq_getElem _ _ hin]
    · have hout : (text ++ [0]).length ≤ i := by
        rw [List.length_append, List.length_singleton] at hin ⊢
        omega
      simp only [Nat.zero_le, if_true, Nat.sub_zero]
      rw [List.getD_eq_default _ _ (Nat.le_of_not_lt hin),
        List.getD_eq_default _ _ (Nat.le_of_not_lt hin), List.getD_eq_default _ _ hout]
  · rename_i hlt
    have hin : i < text.length := Nat.lt_of_not_le hlt
    simp only [Nat.zero_le, if_true, Nat.sub_zero]
    rw [List.getD_append _ _ _ _ hin, List.getD_append _ _ _ _ hin]

/-- The text is what the memory begins with. -/
theorem range_map_storeAt (memory : Nat → UInt8) (text : List UInt8) :
    (List.range text.length).map (storeAt memory 0 (text ++ [0])) = text := by
  apply List.ext_getElem (by rw [List.length_map, List.length_range])
  intro i hi hin
  rw [List.getElem_map, List.getElem_range, storeAt_zero, List.getD_append _ _ _ _ hin,
    List.getD_eq_getElem _ _ hin]

theorem strEnd_of_eq_zero {out : Nat → UInt8} {i : Nat} (h : out i = 0) (fuel : Nat) :
    strEnd out (fuel + 1) i = some i := by
  rw [strEnd, if_pos h]

theorem strEnd_of_ne_zero {out : Nat → UInt8} (fuel : Nat) {i : Nat} (h : ∀ j, i ≤ j → out j ≠ 0) :
    strEnd out fuel i = none := by
  induction fuel generalizing i with
  | zero => rfl
  | succ fuel ih =>
    rw [strEnd, if_neg (h i (Nat.le_refl i))]
    exact ih fun j hj => h j (Nat.le_of_succ_le hj)

theorem cursorAfter_end (memory : Nat → UInt8) (text : List UInt8) :
    (cursorAfter memory text).out text.length = 0 := by
  change storeAt memory 0 (text ++ [0]) text.length = 0
  rw [storeAt_zero, List.getD_append_right _ _ _ _ (Nat.le_refl _), Nat.sub_self]
  rfl

theorem takeWhile_ne_zero {s : List UInt8} (h : 0 ∉ s) : s.takeWhile (· != 0) = s := by
  rw [List.takeWhile_eq_self_iff]
  intro b hb
  exact bne_iff_ne.mpr (ne_of_mem_of_not_mem hb h)

/-- A string without a NUL is appended whole. -/
theorem append_cursorAfter (memory : Nat → UInt8) (text : List UInt8) {s : List UInt8}
    (h : 0 ∉ s) : append s (cursorAfter memory text) = some (cursorAfter memory (text ++ s)) := by
  unfold append
  rw [takeWhile_ne_zero h]
  change (strEnd _ (4294967295 + 1) text.length).map _ = _
  rw [strEnd_of_eq_zero (cursorAfter_end memory text), Option.map_some]
  change some (Cursor.mk _ (storeAt (storeAt memory 0 _) text.length _)) = _
  rw [storeAt_terminator]
  unfold cursorAfter
  rw [List.length_append]

/-- Without a NUL behind the cursor nothing can be appended. -/
theorem append_behind (text s : List UInt8) {p : Nat} (h : text.length < p) :
    append s ⟨p, storeAt (fun _ => 1) 0 (text ++ [0])⟩ = none := by
  unfold append
  rw [strEnd_of_ne_zero, Option.map_none]
  intro j hj
  dsimp only at hj ⊢
  rw [storeAt_zero, List.getD_eq_default]
  · decide
  · rw [List.length_append, List.length_singleton]
    omega

/-- A string with a NUL leaves the cursor behind the end of the text. -/
theorem append_nul (text : List UInt8) {s : List UInt8} (h : 0 ∈ s) (s' : List UInt8) :
    (append s (cursorAfter (fun _ => 1) text)).bind (append s') = none := by
  unfold append
  change ((strEnd _ (4294967295 + 1) text.length).map _).bind _ = _
  rw [strEnd_of_eq_zero (cursorAfter_end _ text), Option.map_some, Option.bind_some]
  change append s' ⟨_, storeAt (storeAt _ 0 _) text.length _⟩ = none
  rw [storeAt_terminator]
  refine append_behind _ s' ?_
  have hshort : (s.takeWhile (· != 0)).length < s.length := by
    refine Nat.lt_of_le_of_ne (List.takeWhile_prefix _).length_le fun heq => ?_
    have hall := List.takeWhile_eq_self_iff.mp ((List.takeWhile_prefix _).eq_of_length heq) 0 h
    exact absurd hall (by decide)
  rw [List.length_append]
  exact Nat.add_lt_add_left hshort _

section Lines

variable {prefixBuf suffixBuf : List UInt8} (hpre : 0 ∉ prefixBuf) (hsuf : 0 ∉ suffixBuf)

include hpre hsuf

theorem appendLine_whole (memory : Nat → UInt8) (text : List UInt8) {line : List UInt8}
    (h : 0 ∉ line) :
    appendLine prefixBuf suffixBuf line (cursorAfter memory text) =
      some (cursorAfter memory (text ++ (prefixBuf ++ line ++ suffixBuf))) := by
  unfold appendLine
  rw [append_cursorAfter memory text hpre, Option.bind_some,
    append_cursorAfter memory _ h, Option.bind_some, append_cursorAfter memory _ hsuf]
  simp only [List.append_assoc]

omit hsuf in
theorem appendLine_nul (text : List UInt8) {line : List UInt8} (h : 0 ∈ line) :
    appendLine prefixBuf suffixBuf line (cursorAfter (fun _ => 1) text) = none := by
  unfold appendLine
  rw [append_cursorAfter _ text hpre, Option.bind_some]
  exact append_nul _ h suffixBuf

omit hpre hsuf in
/-- The second scan takes one line. -/
theorem appendLines_line {line : List UInt8} (rest : List UInt8) (h : ch '\n' ∉ line)
    (c : Cursor) :
    appendLines prefixBuf suffixBuf (line ++ ch '\n' :: rest) c =
      (appendLine prefixBuf suffixBuf line c).bind (appendLines prefixBuf suffixBuf rest) := by
  have htake : (line ++ ch '\n' :: rest).takeWhile (· != ch '\n') = line := by
    rw [List.takeWhile_append_of_pos fun b hb => bne_iff_ne.mpr (ne_of_mem_of_not_mem hb h)]
    simp
  obtain ⟨b, bs, hcons⟩ := List.exists_cons_of_ne_nil
    (List.append_ne_nil_of_right_ne_nil line (List.cons_ne_nil (ch '\n') rest))
  rw [hcons, appendLines, ← hcons, htake, ← List.drop_drop, List.drop_left]
  rfl

omit hpre hsuf in
theorem appendLines_last {line : List UInt8} (hne : line ≠ []) (h : ch '\n' ∉ line)
    (c : Cursor) :
    appendLines prefixBuf suffixBuf line c = appendLine prefixBuf suffixBuf line c := by
  have htake : line.takeWhile (· != ch '\n') = line :=
    List.takeWhile_eq_self_iff.mpr fun b hb => bne_iff_ne.mpr (ne_of_mem_of_not_mem hb h)
  obtain ⟨b, bs, rfl⟩ := List.exists_cons_of_ne_nil hne
  rw [appendLines, htake, List.drop_eq_nil_of_le (Nat.le_succ _)]
  cases appendLine prefixBuf suffixBuf (b :: bs) c with
  | none => rfl
  | some c' => rw [Option.bind_some, appendLines]

/-- The second scan writes the promised text. -/
theorem appendLines_whole (memory : Nat → UInt8) {message : List UInt8} (h : 0 ∉ message)
    (text : List UInt8) :
    appendLines prefixBuf suffixBuf message (cursorAfter memory text) =
      some (cursorAfter memory
        (text ++ (messageLines message).flatMap fun line => prefixBuf ++ line ++ suffixBuf)) := by
  induction message using lines_induction generalizing text with
  | nil => rw [appendLines, messageLines_nil, List.flatMap_nil, List.append_nil]
  | single line hne hline =>
    rw [appendLines_last hne hline, appendLine_whole hpre hsuf memory text h,
      messageLines_single hne hline, List.flatMap_singleton]
  | more line rest hline ih =>
    have hleft : 0 ∉ line := fun hmem => h (List.mem_append_left _ hmem)
    have hright : 0 ∉ rest := fun hmem =>
      h (List.mem_append_right _ (List.mem_cons_of_mem _ hmem))
    rw [appendLines_line rest hline, appendLine_whole hpre hsuf memory text hleft,
      Option.bind_some, ih hright,
      messageLines_append rest hline, List.flatMap_cons, List.append_assoc text]

/-- The second scan leaves the memory behind a NUL of the message. -/
theorem appendLines_nul {message : List UInt8} (h : 0 ∈ message) (text : List UInt8) :
    appendLines prefixBuf suffixBuf message (cursorAfter (fun _ => 1) text) = none := by
  induction message using lines_induction generalizing text with
  | nil => cases h
  | single line hne hline =>
    rw [appendLines_last hne hline, appendLine_nul hpre text h]
  | more line rest hline ih =>
    rw [appendLines_line rest hline]
    by_cases hmem : 0 ∈ line
    · rw [appendLine_nul hpre text hmem, Option.bind_none]
    · have hrest : 0 ∈ rest := by
        rcases List.mem_append.mp h with hin | hin
        · exact absurd hin hmem
        · exact (List.mem_cons.mp hin).resolve_left (by decide)
      rw [appendLine_whole hpre hsuf _ text hmem, Option.bind_some, ih hrest]

end Lines

/-! ## The two texts have no NUL -/

theorem filterPriToChar_ne_zero (priority : LogPriority) : 0 ≠ filterPriToChar priority := by
  cases priority <;> decide

theorem not_mem_leftAligned (s : CString) : 0 ∉ leftAligned s.bytes := by
  refine List.not_mem_append s.noNul fun h => ?_
  exact absurd (List.eq_of_mem_replicate h) (by decide)

theorem not_mem_padded (n : Nat) {c : UInt8} (hc : 0 ≠ c) (x : Int) :
    0 ∉ List.replicate n c ++ decimal x :=
  List.not_mem_append (fun h => hc (List.eq_of_mem_replicate h)) (not_mem_decimal x)

theorem not_mem_rightAligned (x : Int32) : 0 ∉ rightAligned x := not_mem_padded _ (by decide) _

theorem not_mem_threeDigits (x : Int) : 0 ∉ threeDigits x := by
  unfold threeDigits
  split
  · exact List.not_mem_cons_of_ne_of_not_mem (by decide) (not_mem_padded _ (by decide) _)
  · exact not_mem_padded _ (by decide) _

theorem not_mem_timeText (timeBuf : CString) (entry : LogEntry) : 0 ∉ timeText timeBuf entry :=
  List.not_mem_append timeBuf.noNul
    (List.not_mem_cons_of_ne_of_not_mem (by decide) (not_mem_threeDigits _))

theorem not_mem_prefixText (timeBuf : CString) (entry : LogEntry) (format : PrintFormat) :
    0 ∉ prefixText timeBuf entry format := by
  have hpri := filterPriToChar_ne_zero entry.priority
  have htag := not_mem_leftAligned entry.tag
  have hpid := not_mem_rightAligned entry.pid
  have htid := not_mem_rightAligned entry.tid
  have htime := not_mem_timeText timeBuf entry
  cases format <;> simp +decide [prefixText, hpri, htag, hpid, htid, htime]

theorem not_mem_suffixText (entry : LogEntry) (format : PrintFormat) :
    0 ∉ suffixText entry format := by
  have htag := entry.tag.noNul
  cases format <;> simp +decide [suffixText, htag]

theorem not_mem_truncated {text : List UInt8} (h : 0 ∉ text) : 0 ∉ truncated text :=
  fun hmem => h (List.mem_of_mem_take hmem)

/-! ## The promise -/

section Promise

variable (time : Int32 → CString) (format : PrintFormat) (defaultBufferSize : Nat)
  (entry : LogEntry)

/-- The text in front of a line, in its buffer. -/
def prefixOf : List UInt8 := truncated (prefixText (time entry.tvSec) entry format)

/-- The text behind a line, in its buffer. -/
def suffixOf : List UInt8 := truncated (suffixText entry format)

/-- The size that the text of an entry needs. -/
def entrySize : Nat :=
  bytesNeeded (prefixOf time format entry) (suffixOf format entry) (linesFor format entry.message)
    entry.message

/-- Whatever the buffer contains before: the result begins with the whole text, the memory
behind the computed size is as before, and the default buffer is used if and only if it is large
enough. -/
def FormatsWhole : Prop :=
  ∀ memory, ∃ r, formatLogLine time format defaultBufferSize entry memory = some r ∧
    (List.range r.outLength).map r.out =
      promisedText (prefixOf time format entry) (suffixOf format entry) format entry.message ∧
    (∀ i, entrySize time format entry % 2 ^ 32 ≤ i → r.out i = memory i) ∧
    (r.isDefault = true ↔ entrySize time format entry ≤ defaultBufferSize)

/-- The result for a message without a NUL. -/
theorem formatLogLine_whole (h : 0 ∉ entry.message) (memory : Nat → UInt8) :
    formatLogLine time format defaultBufferSize entry memory =
      some ⟨decide (entrySize time format entry % 2 ^ 32 ≤ defaultBufferSize),
        storeAt memory 0
          (promisedText (prefixOf time format entry) (suffixOf format entry) format entry.message ++
            [0]),
        (promisedText (prefixOf time format entry) (suffixOf format entry) format
          entry.message).length⟩ := by
  have hpre : 0 ∉ prefixOf time format entry := not_mem_truncated (not_mem_prefixText _ _ _)
  have hsuf : 0 ∉ suffixOf format entry := not_mem_truncated (not_mem_suffixText _ _)
  have hline := appendLine_whole hpre hsuf memory [] h
  have hlines := appendLines_whole hpre hsuf memory h []
  unfold formatLogLine promisedText
  dsimp only
  by_cases hlong : format = .long
  · rw [if_pos hlong, if_pos hlong]
    exact congrArg (Option.map _) hline
  · rw [if_neg hlong, if_neg hlong]
    exact congrArg (Option.map _) hlines

/-- A NUL of the message loses the end of the text. -/
theorem formatLogLine_nul (h : 0 ∈ entry.message) :
    formatLogLine time format defaultBufferSize entry (fun _ => 1) = none := by
  have hpre : 0 ∉ prefixOf time format entry := not_mem_truncated (not_mem_prefixText _ _ _)
  have hline : appendLine _ (suffixOf format entry) _ _ = none := appendLine_nul hpre [] h
  have hlines := appendLines_nul hpre
    (not_mem_truncated (not_mem_suffixText entry format)) h []
  unfold formatLogLine
  dsimp only
  by_cases hlong : format = .long
  · rw [if_pos hlong]
    exact congrArg (Option.map _) hline
  · rw [if_neg hlong]
    exact congrArg (Option.map _) hlines

/-- The promise is kept for the messages without a NUL whose size can be represented. -/
theorem formatsWhole_iff :
    FormatsWhole time format defaultBufferSize entry ↔
      0 ∉ entry.message ∧ entrySize time format entry < 2 ^ 32 := by
  obtain ⟨newlines, hle, hsize⟩ := length_promisedText (prefixOf time format entry)
    (suffixOf format entry) format entry.message
  change _ = entrySize time format entry at hsize
  have hfits := entry.fits
  constructor
  · intro h
    by_cases hmem : 0 ∈ entry.message
    · obtain ⟨r, hr, -⟩ := h fun _ => 1
      rw [formatLogLine_nul time format defaultBufferSize entry hmem] at hr
      cases hr
    · refine ⟨hmem, ?_⟩
      obtain ⟨r, hr, -, hframe, -⟩ := h fun _ => 1
      rw [formatLogLine_whole time format defaultBufferSize entry hmem] at hr
      obtain rfl := Option.some.inj hr
      by_contra hlarge
      -- the NUL of the text is behind the size modulo `2 ^ 32`
      have hnul := hframe _ (show _ ≤ (promisedText (prefixOf time format entry)
        (suffixOf format entry) format entry.message).length by omega)
      exact absurd ((cursorAfter_end _ _).symm.trans hnul) (by decide)
  · rintro ⟨hmem, hsmall⟩ memory
    refine ⟨_, formatLogLine_whole time format defaultBufferSize entry hmem memory, ?_, ?_, ?_⟩
    · exact range_map_storeAt memory _
    · intro i hi
      rw [Nat.mod_eq_of_lt hsmall] at hi
      dsimp only
      rw [storeAt_zero, List.getD_eq_default]
      rw [List.length_append, List.length_singleton]
      omega
    · rw [Nat.mod_eq_of_lt hsmall, decide_eq_true_iff]

end Promise

/-- The message is one NUL. -/
theorem nul_loses_end :
    ¬ FormatsWhole (fun _ => .empty) .brief 512
      ⟨0, 0, .info, 1, 1, .empty, [0], by decide⟩ := by
  intro h
  obtain ⟨r, hr, -⟩ := h fun _ => 1
  rw [formatLogLine_nul _ _ _ _ (List.mem_singleton_self 0)] at hr
  cases hr

end Logcat
end AndroidLinux
