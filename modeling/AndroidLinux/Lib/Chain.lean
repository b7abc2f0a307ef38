import Mathlib.Data.List.Nodup
import Mathlib.Tactic

/-!
# Singly linked queues

A queue kept by a pointer to its first node and a pointer to its last one, where the
pointer to the last node is left as it is when the queue becomes empty.  Nodes are
elements of an arbitrary type `N` with a null pointer `nil`.

`IsQueue nil next head tail xs` says that the nodes `xs` stand in the queue, in this
order.  The edits of a queue have one lemma each: `IsQueue.enqueue`, `IsQueue.dequeue`,
and `IsQueue.frame` for pointers that are written elsewhere.
-/

namespace AndroidLinux
namespace Lib

variable {N : Type*}

/-- The pointers lead from `a` through `xs` to the null pointer. -/
def Chain (nil : N) (next : N → N) : N → List N → Prop
  | a, [] => a = nil
  | a, x :: xs => a = x ∧ x ≠ nil ∧ Chain nil next (next x) xs

/-- The nodes met from `a` on, for at most `fuel` steps. -/
def follow [DecidableEq N] (nil : N) (next : N → N) : Nat → N → List N
  | 0, _ => []
  | fuel + 1, a => if a = nil then [] else a :: follow nil next fuel (next a)

/-- The nodes `xs` stand in the queue. -/
structure IsQueue (nil : N) (next : N → N) (head tail : N) (xs : List N) : Prop where
  chain : Chain nil next head xs
  nodup : xs.Nodup
  last : ∀ x ∈ xs.getLast?, tail = x

variable {nil : N} {next next' : N → N} {a head tail : N} {xs : List N}

theorem Chain.ne_nil (h : Chain nil next a xs) : ∀ x ∈ xs, x ≠ nil := by
  induction xs generalizing a with
  | nil => exact fun x hx => absurd hx List.not_mem_nil
  | cons y ys ih =>
      obtain ⟨-, hy, hrest⟩ := h
      intro x hx
      rcases List.mem_cons.mp hx with rfl | hx
      · exact hy
      · exact ih hrest x hx

/-- A chain depends only on the pointers of its own nodes. -/
theorem Chain.congr (h : Chain nil next a xs) (hnext : ∀ x ∈ xs, next' x = next x) :
    Chain nil next' a xs := by
  induction xs generalizing a with
  | nil => exact h
  | cons x xs ih =>
      obtain ⟨ha, hx, hrest⟩ := h
      refine ⟨ha, hx, ?_⟩
      rw [hnext x List.mem_cons_self]
      exact ih hrest (fun y hy => hnext y (List.mem_cons_of_mem x hy))

/-- A chain is empty if and only if it starts with the null pointer. -/
theorem Chain.eq_nil_iff (h : Chain nil next a xs) : a = nil ↔ xs = [] := by
  cases xs with
  | nil => exact iff_of_true h rfl
  | cons x xs =>
      obtain ⟨rfl, hx, -⟩ := h
      exact iff_of_false hx (List.cons_ne_nil a xs)

/-- Following a chain lists its nodes. -/
theorem Chain.follow_eq [DecidableEq N] (h : Chain nil next a xs) {fuel : Nat}
    (hfuel : xs.length ≤ fuel) : follow nil next fuel a = xs := by
  induction xs generalizing a fuel with
  | nil =>
      cases fuel with
      | zero => rfl
      | succ fuel => exact if_pos h
  | cons x xs ih =>
      obtain ⟨rfl, hx, hrest⟩ := h
      cases fuel with
      | zero => simp at hfuel
      | succ fuel =>
          simp only [follow, if_neg hx]
          rw [ih hrest (by simpa using hfuel)]

/-- Storing a new node in the pointer of the last one makes the chain longer. -/
theorem Chain.snoc [DecidableEq N] {new last : N} (h : Chain nil next a (xs ++ [last]))
    (hnodup : (xs ++ [last]).Nodup) (hnil : new ≠ nil) (hnew : new ∉ xs ++ [last]) :
    Chain nil (Function.update (Function.update next new nil) last new) a
      (xs ++ [last] ++ [new]) := by
  have hln : last ≠ new := by
    rintro rfl
    exact hnew (List.mem_append_right _ (List.mem_singleton_self last))
  induction xs generalizing a with
  | nil =>
      obtain ⟨ha, hlast, -⟩ := h
      refine ⟨ha, hlast, ?_⟩
      rw [Function.update_self]
      refine ⟨rfl, hnil, ?_⟩
      rw [Function.update_of_ne (Ne.symm hln), Function.update_self]
      rfl
  | cons x xs ih =>
      obtain ⟨ha, hx, hrest⟩ := h
      have hsplit : x ∉ xs ++ [last] ∧ (xs ++ [last]).Nodup := List.nodup_cons.mp hnodup
      have hxl : x ≠ last := by
        rintro rfl
        exact hsplit.1 (List.mem_append_right _ (List.mem_singleton_self x))
      have hxn : x ≠ new := by
        rintro rfl
        exact hnew List.mem_cons_self
      refine ⟨ha, hx, ?_⟩
      rw [Function.update_of_ne hxl, Function.update_of_ne hxn]
      exact ih hrest hsplit.2 (fun hmem => hnew (List.mem_cons_of_mem x hmem))

namespace IsQueue

/-- A queue does not see the pointers of other nodes. -/
theorem frame (h : IsQueue nil next head tail xs) (hnext : ∀ x ∈ xs, next' x = next x) :
    IsQueue nil next' head tail xs :=
  ⟨h.chain.congr hnext, h.nodup, h.last⟩

/-- The empty queue, with any pointer to its last node. -/
theorem empty (next : N → N) (tail : N) : IsQueue nil next nil tail [] where
  chain := rfl
  nodup := List.nodup_nil
  last := fun _ hx => nomatch hx

/-- A queue with a first node. -/
theorem head_eq {x : N} (h : IsQueue nil next head tail (x :: xs)) : head = x :=
  h.chain.1

/-- Taking the first node leaves the others, whatever becomes of the last pointer. -/
theorem dequeue {x : N} (h : IsQueue nil next head tail (x :: xs)) :
    IsQueue nil next (next x) tail xs where
  chain := h.chain.2.2
  nodup := (List.nodup_cons.mp h.nodup).2
  last := by
    intro y hy
    apply h.last
    cases xs with
    | nil => cases hy
    | cons z zs => rw [List.getLast?_cons_cons]; exact hy

variable [DecidableEq N] {new : N}

/-- A node that is put into an empty queue becomes its first and its last one. -/
theorem enqueue_nil (next : N → N) (hnil : new ≠ nil) :
    IsQueue nil (Function.update next new nil) new new [new] where
  chain := by
    refine ⟨rfl, hnil, ?_⟩
    rw [Function.update_self]
    rfl
  nodup := List.nodup_singleton new
  last := fun _ hx => Option.some.inj hx

/-- A node is put behind the last one of a queue that is not empty. -/
theorem enqueue (h : IsQueue nil next head tail xs) (hne : head ≠ nil) (hnil : new ≠ nil)
    (hnew : new ∉ xs) :
    IsQueue nil (Function.update (Function.update next new nil) tail new) head new
      (xs ++ [new]) := by
  rcases List.eq_nil_or_concat xs with rfl | ⟨ys, last, rfl⟩
  · exact absurd h.chain hne
  rw [List.concat_eq_append] at h hnew ⊢
  obtain rfl : tail = last := h.last last (by simp)
  refine ⟨h.chain.snoc h.nodup hnil hnew, ?_, by simp⟩
  rw [List.nodup_append]
  refine ⟨h.nodup, List.nodup_singleton new, ?_⟩
  intro x hx y hy hxy
  rw [List.mem_singleton] at hy
  exact hnew (hy ▸ hxy ▸ hx)

end IsQueue
end Lib
end AndroidLinux
