import Mathlib.Data.List.Nodup
import Mathlib.Tactic

/-!
# Intrusive circular lists

The doubly linked list of `linux_list.h`: every node, the head included, is a pair
of pointers `next` and `prev`, and a list is a ring through its head.  Nodes are
elements of an arbitrary type `N`; `Links N` is the heap of their pointers.

`IsRing l h xs` says that the ring of the head `h` runs through `xs`, in this
order and back, and that no node occurs twice.  Each operation of the header file
has one lemma that says what it does to the represented list.
-/

namespace AndroidLinux
namespace Lib

/-- The pointers of all list nodes. -/
structure Links (N : Type*) where
  next : N → N
  prev : N → N

namespace Links

variable {N : Type*} [DecidableEq N]

/-- `INIT_LIST_HEAD`. -/
def listInit (l : Links N) (x : N) : Links N where
  next := Function.update l.next x x
  prev := Function.update l.prev x x

/-- `__list_add(new, prev, next)`. -/
def listAddBetween (l : Links N) (new before after : N) : Links N where
  next := Function.update (Function.update l.next new after) before new
  prev := Function.update (Function.update l.prev after new) new before

/-- `list_add_tail(new, head)`. -/
def listAddTail (l : Links N) (new head : N) : Links N :=
  l.listAddBetween new (l.prev head) head

/-- `list_del(entry)`.  The pointers of the removed node itself stay as they are. -/
def listDel (l : Links N) (x : N) : Links N where
  next := Function.update l.next (l.prev x) (l.next x)
  prev := Function.update l.prev (l.next x) (l.prev x)

/-- The nodes seen by `list_for_each` from `x` on, for at most `fuel` steps. -/
def walk (l : Links N) (head : N) : Nat → N → List N
  | 0, _ => []
  | fuel + 1, x => if x = head then [] else x :: walk l head fuel (l.next x)

/-- The node that `list_for_each` from `x` on meets at an index. -/
def nth (l : Links N) (head : N) : Nat → N → Option N
  | 0, x => if x = head then none else some x
  | i + 1, x => if x = head then none else nth l head i (l.next x)

/-- `list_for_each_safe` from `x` on with `list_del` of every node: the pointers it leaves
and the nodes it has met; `none` when it does not get back to the head in `fuel` steps. -/
def deleteAll (head : N) : Nat → Links N → N → Option (Links N × List N)
  | 0, l, x => if x = head then some (l, []) else none
  | fuel + 1, l, x =>
      if x = head then some (l, [])
      else (deleteAll head fuel (l.listDel x) (l.next x)).map fun r => (r.1, x :: r.2)

/-- The pointers lead from `a` through `xs` to `b`, and back. -/
def Seg (l : Links N) : N → List N → N → Prop
  | a, [], b => l.next a = b ∧ l.prev b = a
  | a, x :: xs, b => (l.next a = x ∧ l.prev x = a) ∧ Seg l x xs b

/-- The ring of the head `h` holds the nodes `xs`. -/
structure IsRing (l : Links N) (h : N) (xs : List N) : Prop where
  seg : Seg l h xs h
  nodup : (h :: xs).Nodup

omit [DecidableEq N] in
theorem seg_append {l : Links N} {a b y : N} {xs ys : List N} :
    Seg l a (xs ++ y :: ys) b ↔ Seg l a xs y ∧ Seg l y ys b := by
  induction xs generalizing a with
  | nil => rfl
  | cons x xs ih =>
      simp only [List.cons_append, Seg, ih]
      tauto

omit [DecidableEq N] in
/-- A segment depends only on the pointers along it. -/
theorem Seg.congr {l l' : Links N} {a b : N} {xs : List N} (h : Seg l a xs b)
    (hnext : ∀ x ∈ a :: xs, l'.next x = l.next x)
    (hprev : ∀ x ∈ xs ++ [b], l'.prev x = l.prev x) : Seg l' a xs b := by
  induction xs generalizing a with
  | nil =>
      obtain ⟨hn, hp⟩ := h
      exact ⟨(hnext a (by simp)).trans hn, (hprev b (by simp)).trans hp⟩
  | cons x xs ih =>
      obtain ⟨⟨hn, hp⟩, hrest⟩ := h
      refine ⟨⟨(hnext a (by simp)).trans hn, (hprev x (by simp)).trans hp⟩, ?_⟩
      refine ih hrest ?_ ?_
      · intro y hy
        exact hnext y (List.mem_cons_of_mem a hy)
      · intro y hy
        exact hprev y (by simp only [List.cons_append]; exact List.mem_cons_of_mem x hy)

omit [DecidableEq N] in
/-- A segment ends with a step from its last inner node, or from its start. -/
theorem Seg.snoc_cases {l : Links N} {a b : N} {xs : List N} (h : Seg l a xs b) :
    (xs = [] ∧ l.prev b = a) ∨
      ∃ ys p, xs = ys ++ [p] ∧ l.prev b = p ∧ Seg l a ys p := by
  rcases List.eq_nil_or_concat xs with rfl | ⟨ys, p, rfl⟩
  · exact Or.inl ⟨rfl, h.2⟩
  · right
    rw [List.concat_eq_append] at h ⊢
    obtain ⟨hfront, hlast⟩ := seg_append.mp h
    exact ⟨ys, p, rfl, hlast.2, hfront⟩

/-! ## The operations on the represented list -/

theorem isRing_listInit (l : Links N) (h : N) : IsRing (l.listInit h) h [] where
  seg := by simp [Seg, listInit]
  nodup := List.nodup_singleton h

omit [DecidableEq N] in
theorem IsRing.next_nil {l : Links N} {h : N} (hr : IsRing l h []) : l.next h = h :=
  hr.seg.1

omit [DecidableEq N] in
theorem IsRing.next_cons {l : Links N} {h x : N} {xs : List N}
    (hr : IsRing l h (x :: xs)) : l.next h = x :=
  hr.seg.1.1

/-- `list_add_tail` appends a node that is not in the ring. -/
theorem IsRing.listAddTail {l : Links N} {h new : N} {xs : List N} (hr : IsRing l h xs)
    (hnew : new ∉ h :: xs) : IsRing (l.listAddTail new h) h (xs ++ [new]) := by
  have hnh : new ≠ h := fun e => hnew (e ▸ List.mem_cons_self)
  have hnodup : (h :: (xs ++ [new])).Nodup := by
    have : ((h :: xs) ++ [new]).Nodup := by
      rw [List.nodup_append]
      refine ⟨hr.nodup, List.nodup_singleton new, ?_⟩
      intro x hx y hy hxy
      rw [List.mem_singleton] at hy
      exact hnew (hy ▸ hxy ▸ hx)
    simpa using this
  refine ⟨?_, hnodup⟩
  rcases hr.seg.snoc_cases with ⟨rfl, hprev⟩ | ⟨ys, p, rfl, hprev, hfront⟩
  · simp [Seg, Links.listAddTail, listAddBetween, hprev, hnh, Ne.symm hnh]
  · have hmem : p ∈ ys ++ [p] := by simp
    have hnp : new ≠ p := by
        intro heq
        subst heq
        exact hnew (List.mem_cons_of_mem h hmem)
    have hph : p ≠ h := by
      intro heq
      subst heq
      exact (List.nodup_cons.mp hr.nodup).1 hmem
    have hpys : p ∉ ys := by
      have := (List.nodup_cons.mp hr.nodup).2
      rw [List.nodup_append] at this
      intro hp
      exact this.2.2 p hp p (by simp) rfl
    rw [List.append_assoc, List.singleton_append, seg_append]
    constructor
    · -- the old pointers from the head up to the last node are untouched
      refine hfront.congr ?_ ?_
      · intro x hx
        have hxp : x ≠ p := by
          intro heq
          subst heq
          rcases List.mem_cons.mp hx with hxh | hxys
          · exact hph hxh
          · exact hpys hxys
        have hxn : x ≠ new := by
          intro heq
          subst heq
          rcases List.mem_cons.mp hx with hxh | hxys
          · exact hnh hxh
          · exact hnew (List.mem_cons_of_mem h (List.mem_append_left _ hxys))
        simp [Links.listAddTail, listAddBetween, hprev, hxp, hxn]
      · intro x hx
        have hxh : x ≠ h := by
          intro heq
          subst heq
          exact (List.nodup_cons.mp hr.nodup).1 hx
        have hxn : x ≠ new := by
          intro heq
          subst heq
          exact hnew (List.mem_cons_of_mem h hx)
        simp [Links.listAddTail, listAddBetween, hprev, hxh, hxn]
    · simp [Seg, Links.listAddTail, listAddBetween, hprev, hnp, Ne.symm hnh]

omit [DecidableEq N] in
/-- The step out of a node inside a segment. -/
theorem Seg.cons_cases {l : Links N} {a b : N} {xs : List N} (h : Seg l a xs b) :
    (xs = [] ∧ l.next a = b) ∨ ∃ q ys, xs = q :: ys ∧ l.next a = q ∧ Seg l q ys b := by
  cases xs with
  | nil => exact Or.inl ⟨rfl, h.1⟩
  | cons q ys => exact Or.inr ⟨q, ys, rfl, h.1.1, h.2⟩

/-- `list_del` takes one node out of the ring and keeps the order of the others. -/
theorem IsRing.listDel {l : Links N} {h x : N} {xs ys : List N}
    (hr : IsRing l h (xs ++ x :: ys)) : IsRing (l.listDel x) h (xs ++ ys) := by
  obtain ⟨hleft, hright⟩ := seg_append.mp hr.seg
  have hnodup : (h :: (xs ++ ys)).Nodup := by
    refine hr.nodup.sublist ?_
    exact (List.Sublist.append_left (List.sublist_cons_self x ys) xs).cons_cons h
  have hall := hr.nodup
  rw [List.nodup_cons, List.nodup_append] at hall
  obtain ⟨hh, hxs, hys, hdisj⟩ := hall
  rw [List.nodup_cons] at hys
  obtain ⟨hxys, hys⟩ := hys
  have hhxs : h ∉ xs := fun hm => hh (List.mem_append_left _ hm)
  have hhys : h ∉ ys := fun hm =>
    hh (List.mem_append_right _ (List.mem_cons_of_mem x hm))
  have hsep : ∀ y ∈ xs, y ∉ ys := fun y hy hy' =>
    hdisj y hy y (List.mem_cons_of_mem x hy') rfl
  -- the node behind the removed one occurs once, and it is not the head
  have hbehind : ∀ (q : N) (zs : List N), ys = q :: zs → ∀ y ∈ zs ++ [h], y ≠ q := by
    intro q zs hq y hy heq
    subst hq heq
    rcases List.mem_append.mp hy with hy' | hy'
    · exact (List.nodup_cons.mp hys).1 hy'
    · rw [List.mem_singleton] at hy'
      exact hhys (hy' ▸ List.mem_cons_self)
  refine ⟨?_, hnodup⟩
  rcases hleft.snoc_cases with ⟨rfl, hp⟩ | ⟨xs', p, rfl, hp, hfront⟩
  · rcases hright.cons_cases with ⟨rfl, hq⟩ | ⟨q, ys', rfl, hq, hback⟩
    · simp [Seg, Links.listDel, hp, hq]
    · refine ⟨by simp [Links.listDel, hp, hq], ?_⟩
      refine hback.congr ?_ ?_
      · intro y hy
        have hyh : y ≠ h := fun e => hhys (e ▸ hy)
        simp [Links.listDel, hp, hq, hyh]
      · intro y hy
        have hyq : y ≠ q := hbehind q ys' rfl y hy
        simp [Links.listDel, hp, hq, hyq]
  · have hpxs : p ∈ xs' ++ [p] := by simp
    have hpxs' : p ∉ xs' := by
      rw [List.nodup_append] at hxs
      intro hm
      exact hxs.2.2 p hm p (by simp) rfl
    have hph : p ≠ h := fun e => hhxs (e ▸ hpxs)
    -- the part before the removed node
    have hfront' : ∀ q : N, q ∉ xs' ++ [p] → l.next x = q →
        Seg (l.listDel x) h xs' p := by
      intro q hqxs hq
      refine hfront.congr ?_ ?_
      · intro y hy
        have hyp : y ≠ p := by
          intro heq
          subst heq
          rcases List.mem_cons.mp hy with hyh | hy'
          · exact hph hyh
          · exact hpxs' hy'
        simp [Links.listDel, hp, hyp]
      · intro y hy
        have hyq : y ≠ q := fun e => hqxs (e ▸ hy)
        simp [Links.listDel, hq, hyq]
    rcases hright.cons_cases with ⟨rfl, hq⟩ | ⟨q, ys', rfl, hq, hback⟩
    · rw [List.append_nil, seg_append]
      exact ⟨hfront' h hhxs hq, by simp [Seg, Links.listDel, hp, hq]⟩
    · have hqxs : q ∉ xs' ++ [p] := fun hm => hsep q hm List.mem_cons_self
      rw [List.append_assoc, List.singleton_append, seg_append]
      refine ⟨hfront' q hqxs hq, by simp [Links.listDel, hp, hq], ?_⟩
      refine hback.congr ?_ ?_
      · intro y hy
        have hyp : y ≠ p := fun e => hsep p hpxs (e ▸ hy)
        simp [Links.listDel, hp, hyp]
      · intro y hy
        have hyq : y ≠ q := hbehind q ys' rfl y hy
        simp [Links.listDel, hq, hyq]

/-- Walking a segment that ends at the head lists its nodes. -/
theorem Seg.walk_eq {l : Links N} {h a : N} {xs : List N} (hseg : Seg l a xs h)
    (hh : h ∉ xs) {fuel : Nat} (hfuel : xs.length < fuel) :
    l.walk h fuel (l.next a) = xs := by
  induction xs generalizing a fuel with
  | nil =>
      obtain ⟨fuel', rfl⟩ : ∃ f, fuel = f + 1 := ⟨fuel - 1, by simp at hfuel; omega⟩
      simp [walk, hseg.1]
  | cons x xs ih =>
      obtain ⟨fuel', rfl⟩ : ∃ f, fuel = f + 1 := ⟨fuel - 1, by omega⟩
      obtain ⟨⟨hn, -⟩, hrest⟩ := hseg
      have hxh : x ≠ h := fun e => hh (e ▸ List.mem_cons_self)
      have hfuel' : xs.length < fuel' := by simpa using hfuel
      simp only [walk, hn, if_neg hxh]
      rw [ih hrest (fun hm => hh (List.mem_cons_of_mem x hm)) hfuel']

/-- `list_for_each` visits the represented list. -/
theorem IsRing.walk_eq {l : Links N} {h : N} {xs : List N} (hr : IsRing l h xs)
    {fuel : Nat} (hfuel : xs.length < fuel) : l.walk h fuel (l.next h) = xs :=
  hr.seg.walk_eq (List.nodup_cons.mp hr.nodup).1 hfuel

theorem Seg.nth_eq {l : Links N} {h a : N} {xs : List N} (hseg : Seg l a xs h) (hh : h ∉ xs)
    (i : Nat) : l.nth h i (l.next a) = xs[i]? := by
  induction xs generalizing a i with
  | nil => cases i <;> simp [nth, hseg.1]
  | cons x xs ih =>
      obtain ⟨⟨hn, -⟩, hrest⟩ := hseg
      have hxh : x ≠ h := fun e => hh (e ▸ List.mem_cons_self)
      cases i with
      | zero => simp [nth, hn, hxh]
      | succ i =>
          rw [nth, hn, if_neg hxh, List.getElem?_cons_succ]
          exact ih hrest (fun hm => hh (List.mem_cons_of_mem x hm)) i

/-- The node at an index of the represented list. -/
theorem IsRing.nth_eq {l : Links N} {h : N} {xs : List N} (hr : IsRing l h xs) (i : Nat) :
    l.nth h i (l.next h) = xs[i]? :=
  hr.seg.nth_eq (List.nodup_cons.mp hr.nodup).1 i

/-! ## Other rings -/

omit [DecidableEq N] in
/-- A ring depends only on the pointers of its own nodes. -/
theorem IsRing.congr {l l' : Links N} {h : N} {xs : List N} (hr : IsRing l h xs)
    (hsame : ∀ x ∈ h :: xs, l'.next x = l.next x ∧ l'.prev x = l.prev x) : IsRing l' h xs where
  seg := by
    refine hr.seg.congr (fun x hx => (hsame x hx).1) fun x hx => (hsame x ?_).2
    rcases List.mem_append.mp hx with hx | hx
    · exact List.mem_cons_of_mem h hx
    · rw [List.mem_singleton] at hx
      exact hx ▸ List.mem_cons_self
  nodup := hr.nodup

omit [DecidableEq N] in
/-- The neighbours of a node of a ring are in the ring. -/
theorem IsRing.neighbours {l : Links N} {h x : N} {xs : List N} (hr : IsRing l h xs)
    (hx : x ∈ h :: xs) : l.next x ∈ h :: xs ∧ l.prev x ∈ h :: xs := by
  rcases List.mem_cons.mp hx with rfl | hx
  · constructor
    · rcases hr.seg.cons_cases with ⟨-, hq⟩ | ⟨q, ys, rfl, hq, -⟩ <;> simp [hq]
    · rcases hr.seg.snoc_cases with ⟨-, hp⟩ | ⟨ys, p, rfl, hp, -⟩ <;> simp [hp]
  · obtain ⟨ys, zs, rfl⟩ := List.append_of_mem hx
    obtain ⟨hleft, hright⟩ := seg_append.mp hr.seg
    constructor
    · rcases hright.cons_cases with ⟨-, hq⟩ | ⟨q, ys', rfl, hq, -⟩ <;> simp [hq]
    · rcases hleft.snoc_cases with ⟨-, hp⟩ | ⟨ys', p, rfl, hp, -⟩ <;> simp [hp]

/-- `list_add_tail` leaves the rings that share no node with its own. -/
theorem IsRing.listAddTail_other {l : Links N} {h h' new : N} {xs ys : List N}
    (hother : IsRing l h' ys) (hr : IsRing l h xs) (hdisj : ∀ y ∈ h' :: ys, y ∉ h :: xs)
    (hnew : new ∉ h' :: ys) : IsRing (l.listAddTail new h) h' ys := by
  refine hother.congr fun y hy => ?_
  have hyh : y ≠ h := fun e => hdisj y hy (e ▸ List.mem_cons_self)
  have hyn : y ≠ new := fun e => hnew (e ▸ hy)
  have hyp : y ≠ l.prev h := by
    rintro rfl
    exact hdisj _ hy (hr.neighbours List.mem_cons_self).2
  simp [Links.listAddTail, listAddBetween, hyh, hyn, hyp]

/-- `list_del` leaves the rings that share no node with its own. -/
theorem IsRing.listDel_other {l : Links N} {h h' x : N} {xs ys : List N}
    (hother : IsRing l h' ys) (hr : IsRing l h xs) (hx : x ∈ xs)
    (hdisj : ∀ y ∈ h' :: ys, y ∉ h :: xs) : IsRing (l.listDel x) h' ys := by
  refine hother.congr fun y hy => ?_
  obtain ⟨hnext, hprev⟩ := hr.neighbours (List.mem_cons_of_mem h hx)
  have hyp : y ≠ l.prev x := fun e => hdisj y hy (e ▸ hprev)
  have hyn : y ≠ l.next x := fun e => hdisj y hy (e ▸ hnext)
  simp [Links.listDel, hyp, hyn]

/-- Deleting every node meets the nodes of the ring and leaves the other rings. -/
theorem IsRing.deleteAll {l : Links N} {h : N} {xs : List N} (hr : IsRing l h xs) {fuel : Nat}
    (hfuel : xs.length ≤ fuel) :
    ∃ l', Links.deleteAll h fuel l (l.next h) = some (l', xs) ∧
      ∀ h' ys, IsRing l h' ys → (∀ y ∈ h' :: ys, y ∉ h :: xs) → IsRing l' h' ys := by
  induction xs generalizing l fuel with
  | nil =>
      refine ⟨l, ?_, fun h' ys hother _ => hother⟩
      rw [hr.next_nil]
      cases fuel <;> exact if_pos rfl
  | cons x xs ih =>
      obtain ⟨fuel', rfl⟩ : ∃ f, fuel = f + 1 := ⟨fuel - 1, by simp at hfuel; omega⟩
      have hxh : x ≠ h := by
        rintro rfl
        exact (List.nodup_cons.mp hr.nodup).1 List.mem_cons_self
      have hfirst : IsRing l h ([] ++ x :: xs) := hr
      have hrest : IsRing (l.listDel x) h xs := hfirst.listDel
      obtain ⟨l', hl', hothers⟩ := ih hrest (by simpa using hfuel)
      have hnext : (l.listDel x).next h = l.next x := by
        have hprev : l.prev x = h := hr.seg.1.2
        simp [Links.listDel, hprev]
      refine ⟨l', ?_, ?_⟩
      · rw [hr.next_cons, Links.deleteAll, if_neg hxh, ← hnext, hl']
        rfl
      · intro h' ys hother hdisj
        refine hothers h' ys (hother.listDel_other hr List.mem_cons_self hdisj) ?_
        intro y hy hmem
        rcases List.mem_cons.mp hmem with rfl | hmem
        · exact hdisj y hy List.mem_cons_self
        · exact hdisj y hy (List.mem_cons_of_mem h (List.mem_cons_of_mem x hmem))

end Links
end Lib
end AndroidLinux
