import AndroidLinux.Logcat.EventTagLines

/-!
# Parsing the event tags

A file is refused, or it consists of lines as the parser takes them, or it ends behind such
lines with a line that only has a number, where the parser leaves the mapping.
-/

namespace AndroidLinux
namespace Logcat
namespace EventTags

/-! ## One tag -/

section

variable (ulongMax numTags : Nat)

end

/-! ## A whole file -/

/-- The name of the tag is on the line behind, and looks like a number. -/
def Line.Splits (l : Line) : Prop := ∃ t, l.body = .tag t ∧ t.Splits

end EventTags
end Logcat
end AndroidLinux
