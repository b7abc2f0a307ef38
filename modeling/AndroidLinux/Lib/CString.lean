import Mathlib.Tactic

/-!
# NUL-terminated strings

A `CString` is what a NUL-terminated byte array holds: the bytes before the first
NUL.  The three library functions used on such strings are `strlen`, `strncpy`
into a zeroed field whose last byte is set to NUL, and `strncmp`.
-/

namespace AndroidLinux
namespace Lib

/-- The bytes of a C string, none of which is the terminator. -/
structure CString where
  bytes : List UInt8
  noNul : (0 : UInt8) ∉ bytes
  deriving DecidableEq

namespace CString

/-- The empty string, the content of a zeroed field. -/
def empty : CString := ⟨[], by simp⟩

/-- `strlen`. -/
def strlen (s : CString) : Nat :=
  s.bytes.length

/-- The string left in a field by `strncpy(dst, src, n)` and a NUL at `dst[n]`. -/
def strncpy (n : Nat) (s : CString) : CString :=
  ⟨s.bytes.take n, fun h => s.noNul (List.mem_of_mem_take h)⟩

/-- `strncmp(a, b, n) == 0`. -/
def strncmpEq (n : Nat) (a b : CString) : Bool :=
  a.bytes.take n == b.bytes.take n

theorem ext_bytes {a b : CString} (h : a.bytes = b.bytes) : a = b := by
  cases a
  cases b
  simpa using h

/-- A string that fits is copied whole. -/
theorem strncpy_eq_self {n : Nat} {s : CString} (h : s.strlen ≤ n) : s.strncpy n = s := by
  apply ext_bytes
  exact List.take_of_length_le h

/-- On strings shorter than the bound, `strncmp` is equality. -/
theorem strncmpEq_iff {n : Nat} {a b : CString} (ha : a.strlen < n) (hb : b.strlen < n) :
    strncmpEq n a b = true ↔ a = b := by
  unfold strncmpEq
  rw [List.take_of_length_le (Nat.le_of_lt ha), List.take_of_length_le (Nat.le_of_lt hb)]
  constructor
  · intro h
    exact ext_bytes (by simpa using h)
  · intro heq
    subst heq
    simp

end CString
end Lib
end AndroidLinux
