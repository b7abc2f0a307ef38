import Mathlib.Tactic

/-!
# Brackets around a zero

Between a number at which a function is not positive and a later one at which it is not
negative there is a zero, when the function never steps over it on its way up.  It may jump
down as it likes.
-/

namespace AndroidLinux
namespace Lib

structure Brackets (f : Int → Int) (lo hi : Int) : Prop where
  le : lo ≤ hi
  below : f lo ≤ 0
  above : 0 ≤ f hi
  noSkip : ∀ t, lo ≤ t → t < hi → f t < 0 → f (t + 1) ≤ 0

variable {f : Int → Int} {lo hi t : Int}

/-- The lower end moves up. -/
theorem Brackets.right (h : Brackets f lo hi) (hlo : lo ≤ t) (hhi : t ≤ hi) (hf : f t ≤ 0) :
    Brackets f t hi where
  le := hhi
  below := hf
  above := h.above
  noSkip u hu := h.noSkip u (hlo.trans hu)

/-- The upper end moves down. -/
theorem Brackets.left (h : Brackets f lo hi) (hlo : lo ≤ t) (hhi : t ≤ hi) (hf : 0 ≤ f t) :
    Brackets f lo t where
  le := hlo
  below := h.below
  above := hf
  noSkip u hu hut := h.noSkip u hu (lt_of_lt_of_le hut hhi)

theorem Brackets.lo_succ (h : Brackets f lo hi) (hlo : f lo < 0) :
    lo < hi ∧ Brackets f (lo + 1) hi := by
  have hlt : lo < hi := lt_of_le_of_ne h.le fun heq => by
    have habove := h.above
    rw [← heq] at habove
    omega
  exact ⟨hlt, h.right (by omega) hlt (h.noSkip lo le_rfl hlt hlo)⟩

theorem Brackets.hi_pred (h : Brackets f lo hi) (hhi : 0 < f hi) :
    lo < hi ∧ Brackets f lo (hi - 1) := by
  have hlt : lo < hi := lt_of_le_of_ne h.le fun heq => by
    have hbelow := h.below
    rw [heq] at hbelow
    omega
  refine ⟨hlt, h.left (by omega) (by omega) (Int.not_lt.mp fun hneg => ?_)⟩
  have hskip := h.noSkip (hi - 1) (by omega) (by omega) hneg
  rw [Int.sub_add_cancel] at hskip
  omega

end Lib
end AndroidLinux
