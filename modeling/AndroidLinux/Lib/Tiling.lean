import Mathlib.Data.List.Perm.Basic
import Mathlib.Tactic

/-!
# Tilings of a range of addresses

A list of start addresses, each with a size, tiles the range `[0, hi)` when the pieces
lie inside the range, do not overlap, and leave no gap.  The order of the list plays no
part.  Three changes keep a tiling: a permutation, cutting a piece in two, and joining
two pieces that touch.
-/

namespace AndroidLinux
namespace Lib

/-- The pieces `[a, a + size a)` for `a` in `nodes` tile `[0, hi)`. -/
structure Tiling (size : Nat → Nat) (hi : Nat) (nodes : List Nat) : Prop where
  pos : ∀ a ∈ nodes, 0 < size a
  inside : ∀ a ∈ nodes, a + size a ≤ hi
  disjoint : nodes.Pairwise fun a b => a + size a ≤ b ∨ b + size b ≤ a
  covered : ∀ x, x < hi → ∃ a ∈ nodes, a ≤ x ∧ x < a + size a

namespace Tiling

variable {size size' : Nat → Nat} {hi a b : Nat} {nodes nodes' : List Nat}

theorem single (hpos : 0 < hi) (hsize : size 0 = hi) : Tiling size hi [0] where
  pos := by simp [hsize, hpos]
  inside := by simp [hsize]
  disjoint := List.pairwise_singleton _ _
  covered := by
    intro x hx
    exact ⟨0, List.mem_singleton_self 0, Nat.zero_le x, by omega⟩

theorem perm (h : Tiling size hi nodes) (hperm : nodes'.Perm nodes) : Tiling size hi nodes' where
  pos := fun a ha => h.pos a (hperm.mem_iff.mp ha)
  inside := fun a ha => h.inside a (hperm.mem_iff.mp ha)
  disjoint := (hperm.pairwise_iff fun hab => hab.symm).mpr h.disjoint
  covered := by
    intro x hx
    obtain ⟨a, ha, hax⟩ := h.covered x hx
    exact ⟨a, hperm.mem_iff.mpr ha, hax⟩

theorem disjoint_of_mem (h : Tiling size hi nodes) (ha : a ∈ nodes) (hb : b ∈ nodes)
    (hne : a ≠ b) : a + size a ≤ b ∨ b + size b ≤ a := by
  have hsymm : Std.Symm fun a b => a + size a ≤ b ∨ b + size b ≤ a := ⟨fun _ _ hab => hab.symm⟩
  exact h.disjoint.forall ha hb hne

/-- No piece is listed twice. -/
theorem nodup (h : Tiling size hi nodes) : nodes.Nodup := by
  refine h.disjoint.imp_of_mem ?_
  intro a b ha hb hab heq
  subst heq
  have := h.pos a ha
  omega

/-- A piece gets another size and stays away from the others. -/
theorem disjoint_resize
    (hdisj : nodes.Pairwise fun c d => c + size c ≤ d ∨ d + size d ≤ c) (hpos : 0 < size a)
    (hother : ∀ c ∈ nodes, c ≠ a → size' c = size c)
    (haway : ∀ c ∈ nodes, c ≠ a → c + size' c ≤ a ∨ a + size' a ≤ c) :
    nodes.Pairwise fun c d => c + size' c ≤ d ∨ d + size' d ≤ c := by
  refine hdisj.imp_of_mem ?_
  intro c d hc hd hcd
  by_cases hca : c = a
  · by_cases hda : d = a
    · rw [hca, hda] at hcd
      omega
    · have := haway d hd hda
      subst hca
      omega
  · by_cases hda : d = a
    · have := haway c hc hca
      subst hda
      omega
    · rw [hother c hc hca, hother d hd hda]
      exact hcd

/-- A piece is cut in two at `b`. -/
theorem split (h : Tiling size hi nodes) (ha : a ∈ nodes) (hlo : a < b) (hend : b < a + size a)
    (hleft : a + size' a = b) (hright : b + size' b = a + size a)
    (hother : ∀ c ∈ nodes, c ≠ a → size' c = size c) : Tiling size' hi (b :: nodes) := by
  -- the other pieces stay where they are, on one side of the piece that is cut
  have haway : ∀ c ∈ nodes, c ≠ a → c + size' c ≤ a ∨ a + size a ≤ c := by
    intro c hc hne
    rw [hother c hc hne]
    exact h.disjoint_of_mem hc ha hne
  constructor
  · intro c hc
    rcases List.mem_cons.mp hc with rfl | hc
    · omega
    · by_cases hca : c = a
      · subst hca
        omega
      · rw [hother c hc hca]
        exact h.pos c hc
  · intro c hc
    rcases List.mem_cons.mp hc with rfl | hc
    · have := h.inside a ha
      omega
    · by_cases hca : c = a
      · have := h.inside a ha
        subst hca
        omega
      · rw [hother c hc hca]
        exact h.inside c hc
  · rw [List.pairwise_cons]
    constructor
    · intro c hc
      by_cases hca : c = a
      · subst hca
        omega
      · have := haway c hc hca
        omega
    · refine disjoint_resize h.disjoint (h.pos a ha) hother ?_
      intro c hc hca
      have := haway c hc hca
      omega
  · intro x hx
    obtain ⟨c, hc, hcx⟩ := h.covered x hx
    by_cases hca : c = a
    · subst hca
      by_cases hxb : x < b
      · exact ⟨c, List.mem_cons_of_mem _ hc, by omega⟩
      · exact ⟨b, List.mem_cons_self, by omega⟩
    · refine ⟨c, List.mem_cons_of_mem _ hc, ?_⟩
      rw [hother c hc hca]
      exact hcx

/-- The piece `b` is joined to the piece `a` that ends where it starts. -/
theorem merge (h : Tiling size hi (b :: nodes)) (ha : a ∈ nodes) (htouch : a + size a = b)
    (hsum : size' a = size a + size b) (hother : ∀ c ∈ nodes, c ≠ a → size' c = size c) :
    Tiling size' hi nodes := by
  have hb : b ∈ b :: nodes := List.mem_cons_self
  have hpair := List.pairwise_cons.mp h.disjoint
  -- no other piece lies in the sum of the two
  have haway : ∀ c ∈ nodes, c ≠ a → c + size' c ≤ a ∨ a + size' a ≤ c := by
    intro c hc hne
    have hca := h.disjoint_of_mem (List.mem_cons_of_mem b hc) (List.mem_cons_of_mem b ha) hne
    have hcb := hpair.1 c hc
    have hc0 := h.pos c (List.mem_cons_of_mem b hc)
    have ha0 := h.pos a (List.mem_cons_of_mem b ha)
    rw [hother c hc hne]
    omega
  constructor
  · intro c hc
    by_cases hca : c = a
    · have := h.pos b hb
      subst hca
      omega
    · rw [hother c hc hca]
      exact h.pos c (List.mem_cons_of_mem b hc)
  · intro c hc
    by_cases hca : c = a
    · have := h.inside b hb
      subst hca
      omega
    · rw [hother c hc hca]
      exact h.inside c (List.mem_cons_of_mem b hc)
  · exact disjoint_resize hpair.2 (h.pos a (List.mem_cons_of_mem b ha)) hother haway
  · intro x hx
    obtain ⟨c, hc, hcx⟩ := h.covered x hx
    rcases List.mem_cons.mp hc with rfl | hc
    · exact ⟨a, ha, by omega⟩
    · by_cases hca : c = a
      · subst hca
        exact ⟨c, hc, by omega⟩
      · refine ⟨c, hc, ?_⟩
        rw [hother c hc hca]
        exact hcx

/-- Where a piece ends, the range ends or another piece starts. -/
theorem next (h : Tiling size hi nodes) (ha : a ∈ nodes) :
    a + size a = hi ∨ a + size a ∈ nodes := by
  by_cases hend : a + size a = hi
  · exact Or.inl hend
  · right
    have hin := h.inside a ha
    obtain ⟨c, hc, hcx⟩ := h.covered (a + size a) (by omega)
    have hca : c ≠ a := by
      rintro rfl
      omega
    have hdisj := h.disjoint_of_mem hc ha hca
    have heq : c = a + size a := by
      have := h.pos a ha
      omega
    exact heq ▸ hc

end Tiling
end Lib
end AndroidLinux
