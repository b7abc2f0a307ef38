import AndroidLinux.Lib.Transition
import AndroidLinux.Msg.SubTab

/-!
# The subscription table as a finite relation

What the subscription table is for: it stores a set of pairs (message type, task).
`rel` reads that set off a table, `WF` is the invariant under which the four loops
of `msg_submng.c` agree about it:

* a message type has at most one row and a row holds a task at most once;
* a free row has only free slots, although it is recognised by its type alone;
* a used row holds at least one task, so the row lookup decides membership.

The invariant is preserved by an update section as soon as the row lookup it uses
is up to date, whatever the task table contains at that moment.
-/

namespace AndroidLinux
namespace Msg

open Lib

namespace SubTab

variable {n m : Nat}

/-- The pairs (message type, task) a table stores. -/
def rel (tab : SubTab n m) : Set (MsgType × TaskId) :=
  { p | p.1 ≠ vtopInvalidMsgType ∧ p.2 ≠ vtopInvalidTaskId ∧
      ∃ u x, (tab u).msgType = p.1 ∧ (tab u).taskIdList x = p.2 }

/-- The representation invariant. -/
structure WF (tab : SubTab n m) : Prop where
  typeUnique : ∀ u v, (tab u).msgType ≠ vtopInvalidMsgType →
    (tab u).msgType = (tab v).msgType → u = v
  taskUnique : ∀ u x y, (tab u).taskIdList x ≠ vtopInvalidTaskId →
    (tab u).taskIdList x = (tab u).taskIdList y → x = y
  freeClear : ∀ u, (tab u).msgType = vtopInvalidMsgType →
    ∀ x, (tab u).taskIdList x = vtopInvalidTaskId
  usedHolds : ∀ u, (tab u).msgType ≠ vtopInvalidMsgType →
    ∃ x, (tab u).taskIdList x ≠ vtopInvalidTaskId

/-- No row is free. -/
def NoRowLeft (tab : SubTab n m) : Prop :=
  ∀ u, (tab u).msgType ≠ vtopInvalidMsgType

/-- No slot is free in the rows of a type. -/
def NoSlotLeft (tab : SubTab n m) (t : MsgType) : Prop :=
  ∀ u, (tab u).msgType = t → ∀ x, (tab u).taskIdList x ≠ vtopInvalidTaskId

theorem mem_rel_of_slot {tab : SubTab n m} {u : Fin n} {x : Fin m}
    (htype : (tab u).msgType ≠ vtopInvalidMsgType)
    (hslot : (tab u).taskIdList x ≠ vtopInvalidTaskId) :
    ((tab u).msgType, (tab u).taskIdList x) ∈ tab.rel :=
  ⟨htype, hslot, u, x, rfl, rfl⟩

theorem init_wf (n m : Nat) : WF (init n m) where
  typeUnique := fun _ _ h => absurd rfl h
  taskUnique := fun _ _ _ h => absurd rfl h
  freeClear := fun _ _ _ => rfl
  usedHolds := fun _ h => absurd rfl h

theorem rel_init (n m : Nat) : (init n m).rel = ∅ := by
  ext ⟨t, k⟩
  simp only [rel, Set.mem_ofPred_eq, Set.mem_empty_iff_false, iff_false]
  intro hgiven
  obtain ⟨htype, -, u, x, hu, -⟩ := hgiven
  exact htype hu.symm

/-- The row lookup decides whether anybody is subscribed to a type. -/
theorem WF.isExist_isSome_iff {tab : SubTab n m} (hwf : tab.WF) {t : MsgType}
    (ht : t ≠ vtopInvalidMsgType) :
    (tab.isExist t).isSome ↔ ∃ k, (t, k) ∈ tab.rel := by
  constructor
  · intro hsome
    obtain ⟨u, hu⟩ := Option.isSome_iff_exists.mp hsome
    have htype := isExist_eq_some hu
    subst htype
    obtain ⟨x, hx⟩ := hwf.usedHolds u ht
    exact ⟨_, mem_rel_of_slot ht hx⟩
  · intro hgiven
    obtain ⟨k, -, -, u, x, hu, -⟩ := hgiven
    cases hlook : tab.isExist t with
    | none => exact absurd hu (isExist_eq_none_iff.mp hlook u)
    | some v => rfl

/-- In a well-formed table a pair is stored exactly in the row of its type. -/
theorem WF.mem_rel_iff_of_row {tab : SubTab n m} (hwf : tab.WF) {u : Fin n} {k : TaskId}
    (ht : (tab u).msgType ≠ vtopInvalidMsgType) (hk : k ≠ vtopInvalidTaskId) :
    ((tab u).msgType, k) ∈ tab.rel ↔ ∃ x, (tab u).taskIdList x = k := by
  constructor
  · intro hgiven
    obtain ⟨-, -, v, x, hv, hx⟩ := hgiven
    have huv : u = v := hwf.typeUnique u v ht hv.symm
    subst huv
    exact ⟨x, hx⟩
  · intro hgiven
    obtain ⟨x, hx⟩ := hgiven
    exact ⟨ht, hk, u, x, rfl, hx⟩

/-! ## Adding a pair -/

/-- Storing a task in a free slot of the row of a type. -/
theorem WF.setSlot {tab : SubTab n m} (hwf : tab.WF) {u : Fin n} {x : Fin m} {k : TaskId}
    (ht : (tab u).msgType ≠ vtopInvalidMsgType) (hk : k ≠ vtopInvalidTaskId)
    (hnew : ∀ y, (tab u).taskIdList y ≠ k) : (tab.setSlot u x k).WF where
  typeUnique := by
    intro v w
    simpa using hwf.typeUnique v w
  taskUnique := by
    intro v y z hy hyz
    by_cases hv : v = u
    · subst hv
      by_cases hyx : y = x
      · by_cases hzx : z = x
        · rw [hyx, hzx]
        · subst hyx
          rw [setSlot_slot_self, setSlot_slot_ne _ _ (Or.inr hzx)] at hyz
          exact absurd hyz.symm (hnew z)
      · rw [setSlot_slot_ne _ _ (Or.inr hyx)] at hy hyz
        by_cases hzx : z = x
        · subst hzx
          rw [setSlot_slot_self] at hyz
          exact absurd hyz (hnew y)
        · rw [setSlot_slot_ne _ _ (Or.inr hzx)] at hyz
          exact hwf.taskUnique v y z hy hyz
    · rw [setSlot_slot_ne _ _ (Or.inl hv)] at hy hyz
      rw [setSlot_slot_ne _ _ (Or.inl hv)] at hyz
      exact hwf.taskUnique v y z hy hyz
  freeClear := by
    intro v hv y
    rw [setSlot_msgType] at hv
    have hvu : v ≠ u := by
      intro heq
      subst heq
      exact ht hv
    rw [setSlot_slot_ne _ _ (Or.inl hvu)]
    exact hwf.freeClear v hv y
  usedHolds := by
    intro v hv
    rw [setSlot_msgType] at hv
    by_cases hvu : v = u
    · subst hvu
      exact ⟨x, by rw [setSlot_slot_self]; exact hk⟩
    · obtain ⟨y, hy⟩ := hwf.usedHolds v hv
      exact ⟨y, by rw [setSlot_slot_ne _ _ (Or.inl hvu)]; exact hy⟩

theorem rel_setSlot {tab : SubTab n m} {u : Fin n} {x : Fin m} {k : TaskId}
    (ht : (tab u).msgType ≠ vtopInvalidMsgType) (hk : k ≠ vtopInvalidTaskId)
    (hfree : (tab u).taskIdList x = vtopInvalidTaskId) :
    (tab.setSlot u x k).rel = insert ((tab u).msgType, k) tab.rel := by
  ext ⟨t', k'⟩
  simp only [rel, Set.mem_ofPred_eq, Set.mem_insert_iff, Prod.mk.injEq, setSlot_msgType]
  constructor
  · intro hgiven
    obtain ⟨ht', hk', v, y, hv, hy⟩ := hgiven
    by_cases hcell : v = u ∧ y = x
    · obtain ⟨rfl, rfl⟩ := hcell
      rw [setSlot_slot_self] at hy
      exact Or.inl ⟨hv.symm, hy.symm⟩
    · rw [setSlot_slot_ne _ _ (by tauto)] at hy
      exact Or.inr ⟨ht', hk', v, y, hv, hy⟩
  · rintro (⟨rfl, rfl⟩ | ⟨ht', hk', v, y, hv, hy⟩)
    · exact ⟨ht, hk, u, x, rfl, by simp⟩
    · refine ⟨ht', hk', v, y, hv, ?_⟩
      have hcell : v ≠ u ∨ y ≠ x := by
        by_contra hboth
        push Not at hboth
        obtain ⟨rfl, rfl⟩ := hboth
        exact hk' (hy.symm.trans hfree)
      rw [setSlot_slot_ne _ _ hcell]
      exact hy

/-- Giving a free row a type that has no row: the table with the empty new row is
not well formed, with its first task it is. -/
theorem WF.newRow [NeZero m] {tab : SubTab n m} (hwf : tab.WF) {u : Fin n} {t : MsgType}
    {k : TaskId} (ht : t ≠ vtopInvalidMsgType) (hk : k ≠ vtopInvalidTaskId)
    (hrow : (tab u).msgType = vtopInvalidMsgType) (hnew : ∀ v, (tab v).msgType ≠ t) :
    ((tab.setType u t).setSlot u 0 k).WF where
  typeUnique := by
    intro v w
    simp only [setSlot_msgType]
    by_cases hv : v = u
    · subst hv
      by_cases hw : w = v
      · exact fun _ _ => hw.symm
      · rw [setType_msgType_self, setType_msgType_ne _ _ hw]
        exact fun _ h => absurd h.symm (hnew w)
    · rw [setType_msgType_ne _ _ hv]
      by_cases hw : w = u
      · subst hw
        rw [setType_msgType_self]
        exact fun _ h => absurd h (hnew v)
      · rw [setType_msgType_ne _ _ hw]
        exact hwf.typeUnique v w
  taskUnique := by
    intro v y z hy hyz
    by_cases hv : v = u
    · subst hv
      -- all slots of the row but the first are free
      have hclear : ∀ i, i ≠ 0 →
          ((tab.setType v t).setSlot v 0 k v).taskIdList i = vtopInvalidTaskId := by
        intro i hi
        rw [setSlot_slot_ne _ _ (Or.inr hi), setType_slots]
        exact hwf.freeClear v hrow i
      have hy0 : y = 0 := by
        by_contra hne
        exact hy (hclear y hne)
      have hz0 : z = 0 := by
        by_contra hne
        exact hy (hyz.trans (hclear z hne))
      rw [hy0, hz0]
    · rw [setSlot_slot_ne _ _ (Or.inl hv), setType_slots] at hy hyz
      rw [setSlot_slot_ne _ _ (Or.inl hv), setType_slots] at hyz
      exact hwf.taskUnique v y z hy hyz
  freeClear := by
    intro v hv y
    rw [setSlot_msgType] at hv
    have hvu : v ≠ u := by
      intro heq
      subst heq
      rw [setType_msgType_self] at hv
      exact ht hv
    rw [setType_msgType_ne _ _ hvu] at hv
    rw [setSlot_slot_ne _ _ (Or.inl hvu), setType_slots]
    exact hwf.freeClear v hv y
  usedHolds := by
    intro v hv
    by_cases hvu : v = u
    · subst hvu
      exact ⟨0, by rw [setSlot_slot_self]; exact hk⟩
    · rw [setSlot_msgType, setType_msgType_ne _ _ hvu] at hv
      obtain ⟨y, hy⟩ := hwf.usedHolds v hv
      refine ⟨y, ?_⟩
      rw [setSlot_slot_ne _ _ (Or.inl hvu), setType_slots]
      exact hy

/-- Retyping a row without tasks stores no pair and loses none. -/
theorem rel_setType_of_clear {tab : SubTab n m} {u : Fin n} (t : MsgType)
    (hclear : ∀ x, (tab u).taskIdList x = vtopInvalidTaskId) :
    (tab.setType u t).rel = tab.rel := by
  ext ⟨t', k'⟩
  simp only [rel, Set.mem_ofPred_eq, setType_slots]
  refine and_congr_right fun _ => and_congr_right fun hk' => ?_
  refine exists_congr fun v => exists_congr fun y => ?_
  by_cases hv : v = u
  · subst hv
    rw [hclear y]
    constructor
    · exact fun h => absurd h.2.symm hk'
    · exact fun h => absurd h.2.symm hk'
  · rw [setType_msgType_ne _ _ hv]

theorem rel_newRow [NeZero m] {tab : SubTab n m} (hwf : tab.WF) {u : Fin n} {t : MsgType}
    {k : TaskId} (ht : t ≠ vtopInvalidMsgType) (hk : k ≠ vtopInvalidTaskId)
    (hrow : (tab u).msgType = vtopInvalidMsgType) :
    ((tab.setType u t).setSlot u 0 k).rel = insert (t, k) tab.rel := by
  have hclear := hwf.freeClear u hrow
  have hstored : ((tab.setType u t).setSlot u 0 k).rel =
      insert ((tab.setType u t u).msgType, k) (tab.setType u t).rel := by
    apply rel_setSlot
    · rw [setType_msgType_self]
      exact ht
    · exact hk
    · rw [setType_slots]
      exact hclear 0
  rw [hstored, setType_msgType_self, rel_setType_of_clear t hclear]

/-! ## Removing a pair -/

theorem rel_clearSlot {tab : SubTab n m} (hwf : tab.WF) {u : Fin n} {x : Fin m}
    (ht : (tab u).msgType ≠ vtopInvalidMsgType)
    (hslot : (tab u).taskIdList x ≠ vtopInvalidTaskId) :
    (tab.setSlot u x vtopInvalidTaskId).rel =
      tab.rel \ {((tab u).msgType, (tab u).taskIdList x)} := by
  ext ⟨t', k'⟩
  simp only [rel, Set.mem_ofPred_eq, Set.mem_sdiff, Set.mem_singleton_iff, Prod.mk.injEq,
    setSlot_msgType]
  constructor
  · intro hgiven
    obtain ⟨ht', hk', v, y, hv, hy⟩ := hgiven
    have hcell : v ≠ u ∨ y ≠ x := by
      by_contra hboth
      push Not at hboth
      obtain ⟨rfl, rfl⟩ := hboth
      rw [setSlot_slot_self] at hy
      exact hk' hy.symm
    rw [setSlot_slot_ne _ _ hcell] at hy
    refine ⟨⟨ht', hk', v, y, hv, hy⟩, ?_⟩
    intro hgiven
    obtain ⟨htu, hkx⟩ := hgiven
    have hvu : u = v := hwf.typeUnique u v ht (htu ▸ hv.symm)
    subst hvu
    have hyx : x = y := hwf.taskUnique u x y hslot (hkx ▸ hy.symm)
    subst hyx
    simp at hcell
  · rintro ⟨⟨ht', hk', v, y, hv, hy⟩, hne⟩
    refine ⟨ht', hk', v, y, hv, ?_⟩
    have hcell : v ≠ u ∨ y ≠ x := by
      by_contra hboth
      push Not at hboth
      obtain ⟨rfl, rfl⟩ := hboth
      exact hne ⟨hv.symm, hy.symm⟩
    rw [setSlot_slot_ne _ _ hcell]
    exact hy

theorem WF.clearSlot {tab : SubTab n m} (hwf : tab.WF) {u : Fin n} {x y : Fin m}
    (hyx : y ≠ x) (hrest : (tab u).taskIdList y ≠ vtopInvalidTaskId) :
    (tab.setSlot u x vtopInvalidTaskId).WF where
  typeUnique := by
    intro v w
    simpa using hwf.typeUnique v w
  taskUnique := by
    intro v i j hi hij
    have hicell : v ≠ u ∨ i ≠ x := by
      by_contra hboth
      push Not at hboth
      obtain ⟨rfl, rfl⟩ := hboth
      simp at hi
    rw [setSlot_slot_ne _ _ hicell] at hi hij
    have hjcell : v ≠ u ∨ j ≠ x := by
      by_contra hboth
      push Not at hboth
      obtain ⟨rfl, rfl⟩ := hboth
      rw [setSlot_slot_self] at hij
      exact hi hij
    rw [setSlot_slot_ne _ _ hjcell] at hij
    exact hwf.taskUnique v i j hi hij
  freeClear := by
    intro v hv i
    rw [setSlot_msgType] at hv
    by_cases hcell : v = u ∧ i = x
    · obtain ⟨rfl, rfl⟩ := hcell
      simp
    · rw [setSlot_slot_ne _ _ (by tauto)]
      exact hwf.freeClear v hv i
  usedHolds := by
    intro v hv
    rw [setSlot_msgType] at hv
    by_cases hvu : v = u
    · subst hvu
      exact ⟨y, by rw [setSlot_slot_ne _ _ (Or.inr hyx)]; exact hrest⟩
    · obtain ⟨i, hi⟩ := hwf.usedHolds v hv
      exact ⟨i, by rw [setSlot_slot_ne _ _ (Or.inl hvu)]; exact hi⟩

/-- Clearing the last occupied slot and releasing the row. -/
theorem WF.releaseRow {tab : SubTab n m} (hwf : tab.WF) {u : Fin n} {x : Fin m}
    (hlast : ∀ y, y ≠ x → (tab u).taskIdList y = vtopInvalidTaskId) :
    ((tab.setSlot u x vtopInvalidTaskId).setType u vtopInvalidMsgType).WF where
  typeUnique := by
    intro v w hv hvw
    have hvu : v ≠ u := by
      intro heq
      subst heq
      simp at hv
    rw [setType_msgType_ne _ _ hvu, setSlot_msgType] at hv hvw
    have hwu : w ≠ u := by
      intro heq
      subst heq
      rw [setType_msgType_self] at hvw
      exact hv hvw
    rw [setType_msgType_ne _ _ hwu, setSlot_msgType] at hvw
    exact hwf.typeUnique v w hv hvw
  taskUnique := by
    intro v i j hi hij
    simp only [setType_slots] at hi hij
    have hvu : v ≠ u := by
      intro heq
      subst heq
      by_cases hix : i = x
      · subst hix
        simp at hi
      · rw [setSlot_slot_ne _ _ (Or.inr hix)] at hi
        exact hi (hlast i hix)
    rw [setSlot_slot_ne _ _ (Or.inl hvu)] at hi hij
    rw [setSlot_slot_ne _ _ (Or.inl hvu)] at hij
    exact hwf.taskUnique v i j hi hij
  freeClear := by
    intro v hv i
    rw [setType_slots]
    by_cases hvu : v = u
    · subst hvu
      by_cases hix : i = x
      · subst hix
        simp
      · rw [setSlot_slot_ne _ _ (Or.inr hix)]
        exact hlast i hix
    · rw [setType_msgType_ne _ _ hvu, setSlot_msgType] at hv
      rw [setSlot_slot_ne _ _ (Or.inl hvu)]
      exact hwf.freeClear v hv i
  usedHolds := by
    intro v hv
    have hvu : v ≠ u := by
      intro heq
      subst heq
      simp at hv
    rw [setType_msgType_ne _ _ hvu, setSlot_msgType] at hv
    obtain ⟨i, hi⟩ := hwf.usedHolds v hv
    refine ⟨i, ?_⟩
    rw [setType_slots, setSlot_slot_ne _ _ (Or.inl hvu)]
    exact hi

/-! ## The update sections with an up-to-date row lookup -/

/-- The outcomes of the second section of `SUB_TAB_Add` when the answer of
`SUB_TAB_IsExist` still holds.  The four cases exclude each other. -/
theorem WF.addLocked_outcome [NeZero m] {tab : SubTab n m} (hwf : tab.WF) {t : MsgType}
    {k : TaskId} (ht : t ≠ vtopInvalidMsgType) (hk : k ≠ vtopInvalidTaskId) :
    ((t, k) ∈ tab.rel ∧
      tab.addLocked (tab.isExist t) t k = (.err .subExist, tab)) ∨
    ((t, k) ∉ tab.rel ∧ (∃ k', (t, k') ∈ tab.rel) ∧ tab.NoSlotLeft t ∧
      tab.addLocked (tab.isExist t) t k = (.err .subMemberFull, tab)) ∨
    ((¬ ∃ k', (t, k') ∈ tab.rel) ∧ tab.NoRowLeft ∧
      tab.addLocked (tab.isExist t) t k = (.err .subFull, tab)) ∨
    ((t, k) ∉ tab.rel ∧ ((∃ k', (t, k') ∈ tab.rel) → ¬ tab.NoSlotLeft t) ∧
      ((¬ ∃ k', (t, k') ∈ tab.rel) → ¬ tab.NoRowLeft) ∧
      ∃ tab', tab.addLocked (tab.isExist t) t k = (.ok, tab') ∧ tab'.WF ∧
        tab'.rel = insert (t, k) tab.rel) := by
  have hrow := hwf.isExist_isSome_iff ht
  rcases tab.addLocked_cases (tab.isExist t) t k with
    ⟨u, x, hu, hx, heq⟩ | ⟨u, x, hu, hnew, hfree, heq⟩ | ⟨u, hu, hnew, hfull, heq⟩ |
    ⟨u, hu, hfree, heq⟩ | ⟨hu, hfull, heq⟩
  · left
    have htype := isExist_eq_some hu
    exact ⟨⟨ht, hk, u, x, htype, hx⟩, heq⟩
  · right; right; right
    have htype := isExist_eq_some hu
    subst htype
    have hsome : ∃ k', ((tab u).msgType, k') ∈ tab.rel := hrow.mp (by rw [hu]; rfl)
    refine ⟨?_, ?_, ?_, _, heq, hwf.setSlot ht hk hnew, rel_setSlot ht hk hfree⟩
    · rw [hwf.mem_rel_iff_of_row ht hk]
      intro hgiven
      obtain ⟨y, hy⟩ := hgiven
      exact hnew y hy
    · intro _ hleft
      exact hleft u rfl x hfree
    · exact fun hnone => absurd hsome hnone
  · right; left
    have htype := isExist_eq_some hu
    subst htype
    refine ⟨?_, hrow.mp (by rw [hu]; rfl), ?_, heq⟩
    · rw [hwf.mem_rel_iff_of_row ht hk]
      intro hgiven
      obtain ⟨y, hy⟩ := hgiven
      exact hnew y hy
    · intro v hv y
      have hvu : u = v := hwf.typeUnique u v ht hv.symm
      subst hvu
      exact hfull y
  · right; right; right
    have hnone : ¬ ∃ k', (t, k') ∈ tab.rel := by
      rw [← hrow, hu]
      simp
    have hnew := isExist_eq_none_iff.mp hu
    refine ⟨fun hmem => hnone ⟨k, hmem⟩, fun h => absurd h hnone, ?_, _, heq,
      hwf.newRow ht hk hfree hnew, rel_newRow hwf ht hk hfree⟩
    exact fun _ hleft => hleft u hfree
  · right; right; left
    refine ⟨?_, hfull, heq⟩
    rw [← hrow, hu]
    simp

/-- The outcomes of `SUB_TAB_Del` once the task has been found registered. -/
theorem WF.delLocked_outcome {tab : SubTab n m} (hwf : tab.WF) {u : Fin n} {k : TaskId}
    (ht : (tab u).msgType ≠ vtopInvalidMsgType) (hk : k ≠ vtopInvalidTaskId) :
    (((tab u).msgType, k) ∉ tab.rel ∧ tab.delLocked u k = (.err .subNotExist, tab)) ∨
    (((tab u).msgType, k) ∈ tab.rel ∧ ∃ tab', tab.delLocked u k = (.ok, tab') ∧ tab'.WF ∧
      tab'.rel = tab.rel \ {((tab u).msgType, k)}) := by
  rcases tab.delLocked_cases u k with ⟨hnot, heq⟩ | ⟨x, hx, ⟨y, hyx, hy⟩, heq⟩ |
    ⟨x, hx, hlast, heq⟩
  · left
    refine ⟨?_, heq⟩
    rw [hwf.mem_rel_iff_of_row ht hk]
    intro hgiven
    obtain ⟨x, hx⟩ := hgiven
    exact hnot x hx
  · right
    subst hx
    exact ⟨mem_rel_of_slot ht hk, _, heq, hwf.clearSlot hyx hy, rel_clearSlot hwf ht hk⟩
  · right
    subst hx
    refine ⟨mem_rel_of_slot ht hk, _, heq, hwf.releaseRow hlast, ?_⟩
    rw [rel_setType_of_clear, rel_clearSlot hwf ht hk]
    intro y
    by_cases hyx : y = x
    · subst hyx
      simp
    · rw [setSlot_slot_ne _ _ (Or.inr hyx)]
      exact hlast y hyx

/-- The outcomes of a whole `SUB_TAB_Del` for a registered task. -/
theorem WF.del_outcome {tab : SubTab n m} (hwf : tab.WF) {r : Nat} {tasks : TaskMng r}
    {t : MsgType} {k : TaskId} (ht : t ≠ vtopInvalidMsgType) (hk : tasks.Registered k) :
    ((t, k) ∉ tab.rel ∧ tab.del tasks t k = (.err .subNotExist, tab)) ∨
    ((t, k) ∈ tab.rel ∧ ∃ tab', tab.del tasks t k = (.ok, tab') ∧ tab'.WF ∧
      tab'.rel = tab.rel \ {(t, k)}) := by
  have hexist : tasks.isTaskIdExist k = true :=
    (TaskMng.isTaskIdExist_iff_registered hk.1).mpr hk
  cases hlook : tab.isExist t with
  | none =>
      left
      refine ⟨?_, by simp [del, hexist, hlook]⟩
      intro hmem
      have := (hwf.isExist_isSome_iff ht).mpr ⟨k, hmem⟩
      rw [hlook] at this
      simp at this
  | some u =>
      have htype := isExist_eq_some hlook
      subst htype
      have hdel : tab.del tasks (tab u).msgType k = tab.delLocked u k := by
        simp [del, hexist, hlook]
      rw [hdel]
      exact hwf.delLocked_outcome ht hk.1

/-- A whole `SUB_TAB_Add` for a registered task is its second section with the
current answer of the row lookup. -/
theorem add_eq_addLocked [NeZero m] {tab : SubTab n m} {r : Nat} {tasks : TaskMng r}
    {t : MsgType} {k : TaskId} (hk : tasks.Registered k) :
    tab.add tasks t k = tab.addLocked (tab.isExist t) t k := by
  have hexist : tasks.isTaskIdExist k = true :=
    (TaskMng.isTaskIdExist_iff_registered hk.1).mpr hk
  simp [add, hexist]

/-! ## The queries -/

/-- With the capacity of a whole row, `SUB_TAB_Sub2Task` lists the tasks of the
row. -/
theorem WF.sub2Task_eq {tab : SubTab n m} (hwf : tab.WF) {t : MsgType}
    (ht : t ≠ vtopInvalidMsgType) :
    ((¬ ∃ k, (t, k) ∈ tab.rel) ∧ tab.sub2Task t m = .error .subNotExist) ∨
    (∃ l, tab.sub2Task t m = .ok l ∧ l.Nodup ∧ ∀ k, k ∈ l ↔ (t, k) ∈ tab.rel) := by
  cases hlook : tab.isExist t with
  | none =>
      left
      refine ⟨?_, by simp [sub2Task, hlook]⟩
      rw [← hwf.isExist_isSome_iff ht, hlook]
      simp
  | some u =>
      right
      have htype := isExist_eq_some hlook
      subst htype
      have hlen : ((List.finRange m).filterMap (tab.slotTask u)).length ≤ m := by
        simpa using List.length_filterMap_le (tab.slotTask u) (List.finRange m)
      refine ⟨(List.finRange m).filterMap (tab.slotTask u), ?_, ?_, ?_⟩
      · simp only [sub2Task, hlook, sub2TaskLocked, collect_eq_filterMap _ _ _ hlen]
      · apply nodup_filterMap_finRange
        intro x y k hx hy
        simp only [slotTask, Option.ite_none_right_eq_some, Option.some.injEq] at hx hy
        exact hwf.taskUnique u x y hx.1 (hx.2.trans hy.2.symm)
      · intro k
        simp only [List.mem_filterMap, List.mem_finRange, true_and, slotTask,
          Option.ite_none_right_eq_some, Option.some.injEq]
        constructor
        · intro hgiven
          obtain ⟨x, hx, rfl⟩ := hgiven
          exact mem_rel_of_slot ht hx
        · intro hmem
          obtain ⟨x, hx⟩ := (hwf.mem_rel_iff_of_row ht hmem.2.1).mp hmem
          exact ⟨x, hx ▸ hmem.2.1, hx⟩

theorem nodup_usedSlots (tab : SubTab n m) : tab.usedSlots.Nodup := by
  unfold usedSlots
  rw [List.nodup_flatMap]
  constructor
  · intro u _
    split
    · exact (List.nodup_finRange m).map fun x y h => congrArg Prod.snd h
    · exact List.nodup_nil
  · refine (List.nodup_finRange n).imp ?_
    intro u v huv
    simp only [Function.onFun, List.disjoint_left]
    intro slot hu hv
    split at hu
    · split at hv
      · simp only [List.mem_map] at hu hv
        obtain ⟨x, -, rfl⟩ := hu
        obtain ⟨y, -, hy⟩ := hv
        exact huv (congrArg Prod.fst hy).symm
      · simp at hv
    · simp at hu

theorem mem_usedSlots {tab : SubTab n m} {u : Fin n} {x : Fin m} :
    (u, x) ∈ tab.usedSlots ↔ (tab u).msgType ≠ vtopInvalidMsgType := by
  unfold usedSlots
  simp only [List.mem_flatMap, List.mem_finRange, true_and]
  constructor
  · intro hgiven
    obtain ⟨v, hv⟩ := hgiven
    split at hv
    · next htype =>
        simp only [List.mem_map] at hv
        obtain ⟨y, -, hy⟩ := hv
        obtain ⟨rfl, rfl⟩ := Prod.mk.inj hy
        exact htype
    · simp at hv
  · intro htype
    exact ⟨u, by rw [if_pos htype]; simp⟩

/-- A slot that holds a task lies in a used row. -/
theorem WF.msgType_ne_of_slot {tab : SubTab n m} (hwf : tab.WF) {u : Fin n} {x : Fin m}
    (hslot : (tab u).taskIdList x ≠ vtopInvalidTaskId) :
    (tab u).msgType ≠ vtopInvalidMsgType :=
  fun hfree => hslot (hwf.freeClear u hfree x)

/-- With the capacity of all rows, `SUB_TAB_Task2Sub` lists the types of the task. -/
theorem WF.task2Sub_eq {tab : SubTab n m} (hwf : tab.WF) {r : Nat} {tasks : TaskMng r}
    {k : TaskId} (hk : tasks.Registered k) :
    ∃ l, tab.task2Sub tasks k n = .ok l ∧ l.Nodup ∧ ∀ t, t ∈ l ↔ (t, k) ∈ tab.rel := by
  have hexist : tasks.isTaskIdExist k = true :=
    (TaskMng.isTaskIdExist_iff_registered hk.1).mpr hk
  let l := tab.usedSlots.filterMap (tab.slotType k)
  have hnodup : l.Nodup := by
    refine List.Nodup.filterMap ?_ tab.nodup_usedSlots
    rintro ⟨u, x⟩ ⟨v, y⟩ t hu hv
    simp only [slotType, Option.mem_def, Option.ite_none_right_eq_some,
      Option.some.injEq] at hu hv
    have hslot : (tab u).taskIdList x ≠ vtopInvalidTaskId := hu.1 ▸ hk.1
    have hrow : u = v :=
      hwf.typeUnique u v (hwf.msgType_ne_of_slot hslot) (hu.2.trans hv.2.symm)
    subst hrow
    rw [hwf.taskUnique u x y hslot (hu.1.trans hv.1.symm)]
  have hmem : ∀ t, t ∈ l ↔ (t, k) ∈ tab.rel := by
    intro t
    simp only [l, List.mem_filterMap, Prod.exists, mem_usedSlots, slotType,
      Option.ite_none_right_eq_some, Option.some.injEq]
    constructor
    · intro hgiven
      obtain ⟨u, x, htype, hslot, rfl⟩ := hgiven
      exact ⟨htype, hk.1, u, x, rfl, hslot⟩
    · intro hgiven
      obtain ⟨htype, -, u, x, hu, hx⟩ := hgiven
      exact ⟨u, x, fun h => htype (hu.symm.trans h), hx, hu⟩
  -- every listed type is the type of a row, so the rows bound their number
  have hlen : l.length ≤ n := by
    have hsub : l.toFinset ⊆ Finset.univ.image fun u => (tab u).msgType := by
      intro t ht
      obtain ⟨-, -, u, -, hu, -⟩ := (hmem t).mp (List.mem_toFinset.mp ht)
      exact Finset.mem_image.mpr ⟨u, Finset.mem_univ u, hu⟩
    calc
      l.length = l.toFinset.card := (List.toFinset_card_of_nodup hnodup).symm
      _ ≤ (Finset.univ.image fun u => (tab u).msgType).card := Finset.card_le_card hsub
      _ ≤ (Finset.univ : Finset (Fin n)).card := Finset.card_image_le
      _ = n := Finset.card_fin n
  refine ⟨l, ?_, hnodup, hmem⟩
  simp only [task2Sub, hexist, Bool.true_eq_false, if_false,
    task2SubLocked, collect_eq_filterMap _ _ _ hlen, l]

/-! ## Sequential runs -/

/-- One call of the update interface, made while the task table is `tasks`. -/
inductive Op (r : Nat)
  | add (tasks : TaskMng r) (t : MsgType) (k : TaskId)
  | del (tasks : TaskMng r) (t : MsgType) (k : TaskId)

/-- The callers pass a valid type and a registered task. -/
def Op.Valid {r : Nat} : Op r → Prop
  | .add tasks t k => t ≠ vtopInvalidMsgType ∧ tasks.Registered k
  | .del tasks t k => t ≠ vtopInvalidMsgType ∧ tasks.Registered k

/-- The sequential machine of the subscription table. -/
def machine (n m r : Nat) [NeZero m] : Machine (SubTab n m) (Op r) where
  init := fun tab => tab = SubTab.init n m
  step := fun tab op =>
    match op with
    | .add tasks t k => some (tab.add tasks t k).2
    | .del tasks t k => some (tab.del tasks t k).2

/-- What it means for a table to represent a set of pairs: every call acts on the
set as described, and the queries list it. -/
structure Represents [NeZero m] (tab : SubTab n m) (R : Set (MsgType × TaskId)) : Prop where
  add_exist : ∀ {r} (tasks : TaskMng r) {t k}, t ≠ vtopInvalidMsgType → tasks.Registered k →
    ((tab.add tasks t k).1 = .err .subExist ↔ (t, k) ∈ R)
  add_memberFull : ∀ {r} (tasks : TaskMng r) {t k}, t ≠ vtopInvalidMsgType →
    tasks.Registered k → ((tab.add tasks t k).1 = .err .subMemberFull ↔
      (t, k) ∉ R ∧ (∃ k', (t, k') ∈ R) ∧ tab.NoSlotLeft t)
  add_full : ∀ {r} (tasks : TaskMng r) {t k}, t ≠ vtopInvalidMsgType →
    tasks.Registered k → ((tab.add tasks t k).1 = .err .subFull ↔
      (¬ ∃ k', (t, k') ∈ R) ∧ tab.NoRowLeft)
  add_ok_or : ∀ {r} (tasks : TaskMng r) {t k}, t ≠ vtopInvalidMsgType →
    tasks.Registered k →
      ((tab.add tasks t k).1 = .ok ∧ (tab.add tasks t k).2.rel = insert (t, k) R) ∨
      ((tab.add tasks t k).1 ∈ [Ret.err .subExist, .err .subMemberFull, .err .subFull] ∧
        (tab.add tasks t k).2.rel = R)
  del_ok : ∀ {r} (tasks : TaskMng r) {t k}, t ≠ vtopInvalidMsgType →
    tasks.Registered k → ((tab.del tasks t k).1 = .ok ↔ (t, k) ∈ R)
  del_rel : ∀ {r} (tasks : TaskMng r) {t k}, t ≠ vtopInvalidMsgType →
    tasks.Registered k → (tab.del tasks t k).2.rel = R \ {(t, k)}
  isExist : ∀ {t}, t ≠ vtopInvalidMsgType →
    ((tab.isExist t).isSome ↔ ∃ k, (t, k) ∈ R)
  task2Sub : ∀ {r} (tasks : TaskMng r) {k}, tasks.Registered k →
    ∃ l, tab.task2Sub tasks k n = .ok l ∧ l.Nodup ∧ ∀ t, t ∈ l ↔ (t, k) ∈ R
  sub2Task : ∀ {t}, t ≠ vtopInvalidMsgType →
    ((¬ ∃ k, (t, k) ∈ R) ∧ tab.sub2Task t m = .error .subNotExist) ∨
    (∃ l, tab.sub2Task t m = .ok l ∧ l.Nodup ∧ ∀ k, k ∈ l ↔ (t, k) ∈ R)

/-- A well-formed table represents the set of its pairs. -/
theorem WF.represents [NeZero m] {tab : SubTab n m} (hwf : tab.WF) :
    tab.Represents tab.rel where
  add_exist := by
    intro r tasks t k ht hk
    rw [add_eq_addLocked hk]
    rcases hwf.addLocked_outcome ht hk.1 with ⟨h, heq⟩ | ⟨h, -, -, heq⟩ | ⟨h, -, heq⟩ |
      ⟨h, -, -, tab', heq, -⟩
    · simp [heq, h]
    · simp [heq, h]
    · simp only [heq, Ret.err.injEq, reduceCtorEq, false_iff]
      exact fun hmem => h ⟨k, hmem⟩
    · simp [heq, h]
  add_memberFull := by
    intro r tasks t k ht hk
    rw [add_eq_addLocked hk]
    rcases hwf.addLocked_outcome ht hk.1 with ⟨h, heq⟩ | ⟨h, hsome, hleft, heq⟩ |
      ⟨h, -, heq⟩ | ⟨h, hslot, -, tab', heq, -⟩
    · simp [heq, h]
    · simp [heq, h, hsome, hleft]
    · simp only [heq, Ret.err.injEq, reduceCtorEq, false_iff]
      exact fun hall => h hall.2.1
    · simp only [heq, reduceCtorEq, false_iff]
      exact fun hall => hslot hall.2.1 hall.2.2
  add_full := by
    intro r tasks t k ht hk
    rw [add_eq_addLocked hk]
    rcases hwf.addLocked_outcome ht hk.1 with ⟨h, heq⟩ | ⟨h, hsome, hleft, heq⟩ |
      ⟨h, hleft, heq⟩ | ⟨h, -, hrow, tab', heq, -⟩
    · simp only [heq, Ret.err.injEq, reduceCtorEq, false_iff]
      exact fun hall => hall.1 ⟨k, h⟩
    · simp only [heq, Ret.err.injEq, reduceCtorEq, false_iff]
      exact fun hall => hall.1 hsome
    · simp only [heq, true_iff]
      exact ⟨h, hleft⟩
    · simp only [heq, reduceCtorEq, false_iff]
      exact fun hall => hrow hall.1 hall.2
  add_ok_or := by
    intro r tasks t k ht hk
    rw [add_eq_addLocked hk]
    rcases hwf.addLocked_outcome ht hk.1 with ⟨-, heq⟩ | ⟨-, -, -, heq⟩ | ⟨-, -, heq⟩ |
      ⟨-, -, -, tab', heq, -, hrel⟩
    · right
      simp [heq]
    · right
      simp [heq]
    · right
      simp [heq]
    · left
      simp [heq, hrel]
  del_ok := by
    intro r tasks t k ht hk
    rcases hwf.del_outcome ht hk with ⟨h, heq⟩ | ⟨h, tab', heq, -⟩
    · simp [heq, h]
    · simp [heq, h]
  del_rel := by
    intro r tasks t k ht hk
    rcases hwf.del_outcome ht hk with ⟨h, heq⟩ | ⟨h, tab', heq, -, hrel⟩
    · simp only [heq]
      exact (Set.sdiff_singleton_eq_self h).symm
    · simp only [heq, hrel]
  isExist := hwf.isExist_isSome_iff
  task2Sub := fun _ _ hk => hwf.task2Sub_eq hk
  sub2Task := hwf.sub2Task_eq

/-- One valid call keeps the invariant. -/
theorem WF.step [NeZero m] {r : Nat} {tab tab' : SubTab n m} (hwf : tab.WF) {op : Op r}
    (hvalid : op.Valid) (hstep : (machine n m r).step tab op = some tab') : tab'.WF := by
  cases op with
  | add tasks t k =>
      obtain ⟨ht, hk⟩ := hvalid
      simp only [machine, Option.some.injEq] at hstep
      subst hstep
      rw [add_eq_addLocked hk]
      rcases hwf.addLocked_outcome ht hk.1 with ⟨-, heq⟩ | ⟨-, -, -, heq⟩ | ⟨-, -, heq⟩ |
        ⟨-, -, -, tab', heq, hwf', -⟩
      · rwa [heq]
      · rwa [heq]
      · rwa [heq]
      · rwa [heq]
  | del tasks t k =>
      obtain ⟨ht, hk⟩ := hvalid
      simp only [machine, Option.some.injEq] at hstep
      subst hstep
      rcases hwf.del_outcome ht hk with ⟨-, heq⟩ | ⟨-, tab', heq, hwf', -⟩
      · rwa [heq]
      · rwa [heq]

/-- Every sequential run keeps the invariant. -/
theorem wf_of_reach [NeZero m] {r : Nat} {tab : SubTab n m}
    (hreach : (machine n m r).ReachWhen (fun _ op => op.Valid) tab) : tab.WF :=
  hreach.invariant
    (fun _ hinit => hinit ▸ init_wf n m)
    (fun _ _ _ hwf hvalid hstep => hwf.step hvalid hstep)

/-- Every table of a sequential run of `SUB_TAB_Add` and `SUB_TAB_Del` represents
the set of its pairs, which is empty at first. -/
theorem subTab_refines_relation (n m r : Nat) [NeZero m] :
    (SubTab.init n m).rel = ∅ ∧
    ∀ tab : SubTab n m,
      (machine n m r).ReachWhen (fun _ op => op.Valid) tab → tab.Represents tab.rel :=
  ⟨rel_init n m, fun _ hreach => (wf_of_reach hreach).represents⟩

instance {r : Nat} : (op : Op r) → Decidable op.Valid
  | .add _ _ _ => inferInstanceAs (Decidable (_ ∧ _))
  | .del _ _ _ => inferInstanceAs (Decidable (_ ∧ _))

/-- Two registered tasks with the ids `0` and `1`. -/
def twoTasks : TaskMng 2 :=
  let one := ((taskTabInit 2).add2 CString.empty .task (some 0)).2
  (one.add2 CString.empty .task (some 1)).2

/-- Both tasks subscribe to type `5`, the second one to type `6`, too, and the first one gives its
subscription back. -/
def withHole : List (Op 2) :=
  [.add twoTasks 5 0, .add twoTasks 5 1, .add twoTasks 6 1, .del twoTasks 5 0]

/-- There is a hole in front of the task that is left in the row of type `5`. -/
theorem subTab_refines_relation_withHole :
    ∃ tab, (machine 2 2 2).run (SubTab.init 2 2) withHole = some tab ∧
      (machine 2 2 2).ReachWhen (fun _ op => op.Valid) tab ∧
      (tab 0).taskIdList 0 = vtopInvalidTaskId ∧ (tab 0).taskIdList 1 = 1 ∧
      (tab 1).taskIdList 0 = 1 ∧ tab.Represents tab.rel := by
  have hrun : (machine 2 2 2).runWhen (fun _ op => decide op.Valid) (SubTab.init 2 2) withHole =
      some _ := rfl
  have hreach : (machine 2 2 2).ReachWhen (fun _ op => op.Valid) _ :=
    Machine.reachWhen_of_runWhen (fun _ _ => of_decide_eq_true) _ (.init rfl) hrun
  exact ⟨_, Machine.run_of_runWhen _ hrun, hreach, rfl, rfl, rfl,
    (subTab_refines_relation 2 2 2).2 _ hreach⟩

end SubTab
end Msg
end AndroidLinux
