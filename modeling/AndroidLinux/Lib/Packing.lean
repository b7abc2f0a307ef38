import Mathlib.Tactic
import Mathlib.Algebra.BigOperators.Intervals

/-!
# Extents in a block

A family of extents, given by a start and a length each, is packed in a block of some
length when every extent lies in the block and no two overlap.  The lengths of a packed
family add up to at most the length of the block.
-/

namespace AndroidLinux
namespace Lib

/-- Two extents, by start and length, have no place in common. -/
def Apart (a m b n : Nat) : Prop :=
  a + m ≤ b ∨ b + n ≤ a

/-- The extents of the indices in `s` lie in a block of `total` places, apart from each
other. -/
structure Packed {ι : Type} (s : Finset ι) (start length : ι → Nat) (total : Nat) : Prop where
  inside : ∀ i ∈ s, start i + length i ≤ total
  apart : ∀ i ∈ s, ∀ j ∈ s, i ≠ j → Apart (start i) (length i) (start j) (length j)

namespace Packed

variable {ι : Type} {s : Finset ι} {start length : ι → Nat} {total : Nat}

/-- Packed extents do not take more places than the block has. -/
theorem sum_le (h : Packed s start length total) : ∑ i ∈ s, length i ≤ total := by
  classical
  -- count the places of all extents together
  have hdisjoint : ∀ i ∈ s, ∀ j ∈ s, i ≠ j →
      Disjoint (Finset.Ico (start i) (start i + length i))
        (Finset.Ico (start j) (start j + length j)) := by
    intro i hi j hj hij
    rw [Finset.disjoint_left]
    intro p hpi hpj
    rw [Finset.mem_Ico] at hpi hpj
    have hapart := h.apart i hi j hj hij
    unfold Apart at hapart
    omega
  have hcard := Finset.card_biUnion hdisjoint
  have hsub : s.biUnion (fun i => Finset.Ico (start i) (start i + length i)) ⊆
      Finset.range total := by
    intro p hp
    rw [Finset.mem_biUnion] at hp
    obtain ⟨i, hi, hpi⟩ := hp
    have hinside := h.inside i hi
    rw [Finset.mem_Ico] at hpi
    rw [Finset.mem_range]
    omega
  calc ∑ i ∈ s, length i
      = (s.biUnion fun i => Finset.Ico (start i) (start i + length i)).card := by
        rw [hcard]
        simp
    _ ≤ (Finset.range total).card := Finset.card_le_card hsub
    _ = total := Finset.card_range total

theorem congr {start' length' : ι → Nat} (h : Packed s start length total)
    (hstart : ∀ i ∈ s, start' i = start i) (hlength : ∀ i ∈ s, length' i = length i) :
    Packed s start' length' total where
  inside i hi := by
    rw [hstart i hi, hlength i hi]
    exact h.inside i hi
  apart i hi j hj hij := by
    rw [hstart i hi, hlength i hi, hstart j hj, hlength j hj]
    exact h.apart i hi j hj hij

/-- A family that lies behind another one. -/
theorem append {s' : Finset ι} {middle : Nat} [DecidableEq ι] (h : Packed s start length middle)
    (h' : Packed s' start length total) (hbehind : ∀ i ∈ s', middle ≤ start i)
    (hle : middle ≤ total) : Packed (s ∪ s') start length total where
  inside i hi := by
    rcases Finset.mem_union.mp hi with hi | hi
    · exact (h.inside i hi).trans hle
    · exact h'.inside i hi
  apart i hi j hj hij := by
    rcases Finset.mem_union.mp hi with hi | hi <;> rcases Finset.mem_union.mp hj with hj | hj
    · exact h.apart i hi j hj hij
    · exact .inl ((h.inside i hi).trans (hbehind j hj))
    · exact .inr ((h.inside j hj).trans (hbehind i hi))
    · exact h'.apart i hi j hj hij

/-- A family under other names. -/
theorem image {κ : Type} [DecidableEq κ] {start length : κ → Nat} (f : ι → κ)
    (h : Packed s (fun i => start (f i)) (fun i => length (f i)) total) :
    Packed (s.image f) start length total where
  inside k hk := by
    obtain ⟨i, hi, rfl⟩ := Finset.mem_image.mp hk
    exact h.inside i hi
  apart k hk l hl hkl := by
    obtain ⟨i, hi, rfl⟩ := Finset.mem_image.mp hk
    obtain ⟨j, hj, rfl⟩ := Finset.mem_image.mp hl
    exact h.apart i hi j hj fun hij => hkl (congrArg f hij)

end Packed

/-- Extents of one length, one after the other. -/
theorem packed_consecutive {count each total : Nat} (base : Nat)
    (htotal : base + count * each ≤ total) :
    Packed (Finset.range count) (fun k => base + k * each) (fun _ => each) total where
  inside k hk := by
    have hend : (k + 1) * each ≤ count * each :=
      Nat.mul_le_mul_right each (Finset.mem_range.mp hk)
    rw [Nat.succ_mul] at hend
    omega
  apart j _ k _ hjk := by
    unfold Apart
    rcases Nat.lt_or_gt_of_ne hjk with hlt | hlt
    · have hle := Nat.mul_le_mul_right each (Nat.succ_le_of_lt hlt)
      rw [Nat.succ_mul] at hle
      omega
    · have hle := Nat.mul_le_mul_right each (Nat.succ_le_of_lt hlt)
      rw [Nat.succ_mul] at hle
      omega

end Lib
end AndroidLinux
