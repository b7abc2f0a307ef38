import Mathlib.Data.List.Perm.Basic
import Mathlib.Tactic

/-!
# Delta-coded waiting lists

A waiting list in which every entry stores how much longer it waits than the entry
before it.  One unit of time then touches the first entries only: those that have
nothing left leave, and the first one that has something left loses one unit.

`absolute acc` decodes such a list, with `acc` the waiting time of what stands before
it.  The operations keep the waiting time of every other entry:
`absolute_insert_perm`, `absolute_remove_eq_filter` and `mem_absolute_elapse_snd` say so
in terms of the decoded list.
-/

namespace AndroidLinux
namespace Lib
namespace DeltaList

variable {α : Type*}

/-- The waiting times the deltas stand for. -/
def absolute : Nat → List (α × Nat) → List (α × Nat)
  | _, [] => []
  | acc, (a, d) :: rest => (a, acc + d) :: absolute (acc + d) rest

/-- Insert an entry that has to wait `t`, behind those that wait as long. -/
def insert (a : α) : Nat → List (α × Nat) → List (α × Nat)
  | t, [] => [(a, t)]
  | t, (b, d) :: rest =>
      if t < d then (a, t) :: (b, d - t) :: rest else (b, d) :: insert a (t - d) rest

/-- Remove the first entry of a key; the entry behind it takes over its delta. -/
def remove [DecidableEq α] (a : α) : List (α × Nat) → List (α × Nat)
  | [] => []
  | (b, d) :: rest =>
      if b = a then
        match rest with
        | [] => []
        | (c, e) :: tail => (c, e + d) :: tail
      else (b, d) :: remove a rest

/-- One unit of time: the keys that leave and the list that stays. -/
def elapse : List (α × Nat) → List α × List (α × Nat)
  | [] => ([], [])
  | (a, 0) :: rest => (a :: (elapse rest).1, (elapse rest).2)
  | (a, d + 1) :: rest => ([], (a, d) :: rest)

/-! ## Decoding -/

@[simp]
theorem map_fst_absolute (acc : Nat) (l : List (α × Nat)) :
    (absolute acc l).map Prod.fst = l.map Prod.fst := by
  induction l generalizing acc with
  | nil => rfl
  | cons p rest ih =>
      obtain ⟨a, d⟩ := p
      simp [absolute, ih]

theorem le_of_mem_absolute {acc t : Nat} {a : α} {l : List (α × Nat)}
    (hmem : (a, t) ∈ absolute acc l) : acc ≤ t := by
  induction l generalizing acc with
  | nil => cases hmem
  | cons p rest ih =>
      obtain ⟨b, d⟩ := p
      rw [absolute, List.mem_cons] at hmem
      cases hmem with
      | inl hhead =>
          simp only [Prod.mk.injEq] at hhead
          omega
      | inr htail =>
          have hle := ih htail
          omega

/-- Only the sum of the offset and the first delta matters. -/
theorem absolute_cons_shift (acc k d : Nat) (a : α) (rest : List (α × Nat)) :
    absolute (acc + k) ((a, d) :: rest) = absolute acc ((a, k + d) :: rest) := by
  simp [absolute, Nat.add_assoc]

/-- A later start shifts every waiting time. -/
theorem mem_absolute_add {acc k t : Nat} {a : α} {l : List (α × Nat)} :
    (a, t + k) ∈ absolute (acc + k) l ↔ (a, t) ∈ absolute acc l := by
  induction l generalizing acc with
  | nil => simp [absolute]
  | cons p rest ih =>
      obtain ⟨b, d⟩ := p
      rw [absolute, absolute, List.mem_cons, List.mem_cons,
        show acc + k + d = acc + d + k by omega, ih]
      simp only [Prod.mk.injEq]
      constructor
      · intro h
        exact h.imp_left fun hab => ⟨hab.1, by omega⟩
      · intro h
        exact h.imp_left fun hab => ⟨hab.1, by omega⟩

/-! ## Insertion and removal -/

theorem absolute_insert_perm (a : α) (acc t : Nat) (l : List (α × Nat)) :
    (absolute acc (insert a t l)).Perm ((a, acc + t) :: absolute acc l) := by
  induction l generalizing acc t with
  | nil => exact List.Perm.refl _
  | cons p rest ih =>
      obtain ⟨b, d⟩ := p
      rw [insert]
      split
      · next hlt =>
          -- the entry behind the new one starts later by what it lost
          rw [absolute, absolute_cons_shift, show t + (d - t) = d by omega]
      · next hge =>
          rw [absolute, absolute]
          have hrest := ih (acc + d) (t - d)
          rw [show acc + d + (t - d) = acc + t by omega] at hrest
          exact (hrest.cons _).trans (List.Perm.swap _ _ _)

section Remove

variable [DecidableEq α]

/-- A key that occurs at most once is erased by one erasure. -/
theorem eraseP_key_eq_filter {β : Type*} {a : α} {l : List (α × β)}
    (hnodup : (l.map Prod.fst).Nodup) :
    l.eraseP (fun p => p.1 = a) = l.filter (fun p => p.1 ≠ a) := by
  induction l with
  | nil => rfl
  | cons p rest ih =>
      rw [List.map_cons, List.nodup_cons] at hnodup
      by_cases hp : p.1 = a
      · have hrest : ∀ q ∈ rest, q.1 ≠ a := by
          intro q hq hqa
          exact hnodup.1 (hp ▸ hqa ▸ List.mem_map_of_mem hq)
        rw [List.eraseP_cons_of_pos (by simpa using hp),
          List.filter_cons_of_neg (by simpa using hp)]
        exact (List.filter_eq_self.mpr fun q hq => by simpa using hrest q hq).symm
      · rw [List.eraseP_cons_of_neg (by simpa using hp),
          List.filter_cons_of_pos (by simpa using hp), ih hnodup.2]

theorem absolute_remove (a : α) (acc : Nat) (l : List (α × Nat)) :
    absolute acc (remove a l) = (absolute acc l).eraseP (fun p => p.1 = a) := by
  induction l generalizing acc with
  | nil => rfl
  | cons p rest ih =>
      obtain ⟨b, d⟩ := p
      rw [absolute, List.eraseP_cons]
      by_cases hb : b = a
      · cases rest with
        | nil => simp [remove, hb, absolute]
        | cons q tail =>
            obtain ⟨c, e⟩ := q
            simp [remove, hb, absolute_cons_shift, Nat.add_comm e d]
      · simp [remove, hb, absolute, ih]

/-- With distinct keys a removal takes its own key and nothing else. -/
theorem absolute_remove_eq_filter {a : α} {acc : Nat} {l : List (α × Nat)}
    (hnodup : (l.map Prod.fst).Nodup) :
    absolute acc (remove a l) = (absolute acc l).filter (fun p => p.1 ≠ a) := by
  rw [absolute_remove]
  exact eraseP_key_eq_filter (by simpa using hnodup)

end Remove

/-! ## One unit of time -/

theorem keys_elapse (l : List (α × Nat)) :
    (elapse l).1 ++ (elapse l).2.map Prod.fst = l.map Prod.fst := by
  fun_induction elapse l with
  | case1 => rfl
  | case2 a rest ih => simp [ih]
  | case3 a d rest => rfl

theorem mem_elapse_fst {a : α} {l : List (α × Nat)} :
    a ∈ (elapse l).1 ↔ (a, 0) ∈ absolute 0 l := by
  fun_induction elapse l with
  | case1 => simp [absolute]
  | case2 b rest ih => simp [absolute, ih]
  | case3 b d rest =>
      have hlater : (a, 0) ∉ absolute (d + 1) rest := by
        intro hmem
        have hle := le_of_mem_absolute hmem
        omega
      simp [absolute, hlater]

theorem mem_absolute_elapse_snd {a : α} {t : Nat} {l : List (α × Nat)} :
    (a, t) ∈ absolute 0 (elapse l).2 ↔ (a, t + 1) ∈ absolute 0 l := by
  fun_induction elapse l with
  | case1 => simp [absolute]
  | case2 b rest ih => simp [absolute, ih]
  | case3 b d rest =>
      rw [absolute, absolute, List.mem_cons, List.mem_cons,
        show 0 + d.succ = 0 + d + 1 by omega, mem_absolute_add]
      simp

end DeltaList
end Lib
end AndroidLinux
