import AndroidLinux.Logcat.EventTagParse

/-!
# The files of event tags

What `processFile` promises for a file, and the two kinds of files for which it breaks it.
-/

namespace AndroidLinux
namespace Logcat
namespace EventTags

/-- One entry for each line with a tag, from an offset of the file on.  Its name lies within the
line and has a NUL behind it. -/
inductive Yields (ulongMax : Nat) (mapAddr : List UInt8) : Nat → List Line → List EventTag → Prop
  | nil (offset : Nat) : Yields ulongMax mapAddr offset [] []
  | other {offset : Nat} {l : Line} {lines : List Line} {entries : List EventTag}
      (hbody : ∀ t, l.body ≠ .tag t)
      (h : Yields ulongMax mapAddr (offset + l.bytes.length) lines entries) :
      Yields ulongMax mapAddr offset (l :: lines) entries
  | tag {offset : Nat} {l : Line} {lines : List Line} {entries : List EventTag} {t : TagLine}
      {entry : EventTag} (hbody : l.body = .tag t)
      (hindex : entry.tagIndex = strtoul ulongMax t.digits) (hstart : offset ≤ entry.tagStr)
      (hname : t.first :: t.name ++ [0] <+: mapAddr.drop entry.tagStr)
      (hend : entry.tagStr + (t.first :: t.name).length < offset + l.bytes.length)
      (h : Yields ulongMax mapAddr (offset + l.bytes.length) lines entries) :
      Yields ulongMax mapAddr offset (l :: lines) (entry :: entries)

/-- The promise for a file: it is read within its bounds, and it is refused unless all lines are
as they should be and the map has their tags. -/
def Conforms (ulongMax : Nat) (map : List UInt8) : Prop :=
  ∀ granted qsort,
    (∀ tags mapAddr, parseMapLines ulongMax (countMapLines map) map = .ok (tags, mapAddr) →
      QsortResult tags (qsort tags)) →
    match processFile ulongMax granted qsort map with
    | .error fault => fault = .failed
    | .ok newTagMap => ∃ lines entries, (∀ l ∈ lines, Line.WellFormed l) ∧
        map = fileBytes lines ∧ Yields ulongMax newTagMap.mapAddr 0 lines entries ∧
        newTagMap.tagArray.Perm entries

theorem Line.Scans.terminated {l : Line} (h : l.Scans) : Terminated l.bytes := by
  have hlast : ∀ xs : List UInt8, Terminated (xs ++ [newline]) := fun xs =>
    List.getLast?_concat
  have hbody := h.body
  unfold Line.bytes
  cases l.body with
  | blank => exact hlast _
  | comment text =>
      rw [Body.bytes, ← List.append_assoc]
      exact hlast _
  | tag t =>
      have hending : ∃ xs, t.ending none = xs ++ [newline] := by
        unfold TagLine.ending
        split
        · exact ⟨[], rfl⟩
        · exact ⟨_ :: _, rfl⟩
      obtain ⟨xs, hxs⟩ := hending
      simp only [Body.bytes, TagLine.bytes, hxs, ← List.append_assoc, ← List.cons_append]
      exact hlast _

end EventTags
end Logcat
end AndroidLinux
