import AndroidLinux.Utils.VectorImpl

/-!
# The items of a buffer

`Stocked` says which slots of a buffer hold an item and what the items are.  Each function on
the slots has one lemma: it does nothing that is not allowed, and these are the items behind
it.  The loops that move items one by one and `memmove` come out the same.
-/

namespace AndroidLinux
namespace Utils

theorem Slot.live_build {α : Type*} {s : Slot α} (h : s.destroyed ≤ s.built) (val : Option α) :
    (s.build val).live = true :=
  decide_eq_true (Nat.lt_succ_of_le h)

/-- The slots `P` hold items, whose values are `f`, and no other slot does. -/
structure Stocked {α : Type*} (t : Traits) (size : Nat) (items : Nat → Slot α)
    (P : Nat → Prop) (f : Nat → Option α) : Prop where
  inside : ∀ i, P i → i < size
  live : ∀ i, P i → (items i).live = true
  val : ∀ i, P i → (items i).val = f i
  le : ∀ i, (items i).destroyed ≤ (items i).built
  here : t.trivialDtor = false → ∀ i, P i → (items i).built = (items i).destroyed + 1
  gone : t.trivialDtor = false → ∀ i, ¬ P i → (items i).built = (items i).destroyed

namespace Stocked

variable {α : Type*} {t : Traits} {size dest start num : Nat} {items : Nat → Slot α}
  {P Q : Nat → Prop} {f g : Nat → Option α}

theorem raw (t : Traits) (size : Nat) (f : Nat → Option α) :
    Stocked t size (fun _ => Slot.raw) (fun _ => False) f where
  inside _ h := h.elim
  live _ h := h.elim
  val _ h := h.elim
  le _ := le_rfl
  here _ _ h := h.elim
  gone _ _ _ := rfl

/-- The same slots and values in other words. -/
theorem congr (h : Stocked t size items P f) (hslots : ∀ i, Q i ↔ P i)
    (hvals : ∀ i, Q i → g i = f i) : Stocked t size items Q g where
  inside i hi := h.inside i ((hslots i).mp hi)
  live i hi := h.live i ((hslots i).mp hi)
  val i hi := (h.val i ((hslots i).mp hi)).trans (hvals i hi).symm
  le := h.le
  here htrivial i hi := h.here htrivial i ((hslots i).mp hi)
  gone htrivial i hi := h.gone htrivial i fun hp => hi ((hslots i).mpr hp)

/-- Types without a destructor need not be destroyed. -/
theorem part (h : Stocked t size items P f) (htrivial : t.trivialDtor = true)
    (hpart : ∀ i, Q i → P i) : Stocked t size items Q f := by
  refine ⟨fun i hi => h.inside i (hpart i hi), fun i hi => h.live i (hpart i hi),
    fun i hi => h.val i (hpart i hi), h.le, fun hno => ?_, fun hno => ?_⟩
  · rw [htrivial] at hno
    cases hno
  · rw [htrivial] at hno
    cases hno

/-- A slot without an item may be built. -/
theorem mayBuild (h : Stocked t size items P f) {i : Nat} (hi : ¬ P i) :
    t.mayBuild (items i) = true := by
  unfold Traits.mayBuild
  cases htrivial : t.trivialDtor with
  | true => rfl
  | false =>
      have hgone := h.gone htrivial i hi
      simp [Slot.live, hgone]

theorem buildItems (h : Stocked t size items P f) (val : Nat → Slot α → Option α)
    (hsize : dest + num ≤ size) (hfree : ∀ i, dest ≤ i → i < dest + num → ¬ P i) :
    ∃ items', Utils.buildItems t size dest num val items = some items' ∧
      Stocked t size items' (fun i => P i ∨ dest ≤ i ∧ i < dest + num)
        (fun i => if dest ≤ i ∧ i < dest + num then val (i - dest) (items i) else f i) := by
  have hmay : ∀ i < num, t.mayBuild (items (dest + i)) = true := fun i hi =>
    h.mayBuild (hfree _ (by omega) (by omega))
  refine ⟨_, if_pos ⟨hsize, hmay⟩, fun i hi => ?_, fun i hi => ?_, fun i hi => ?_, fun i => ?_,
    fun htrivial i hi => ?_, fun htrivial i hi => ?_⟩
  · rcases hi with hi | hi
    · exact h.inside i hi
    · omega
  · have hle := h.le i
    split
    · exact Slot.live_build hle _
    · rename_i hout
      exact h.live i (hi.resolve_right hout)
  · split
    · rfl
    · rename_i hout
      exact h.val i (hi.resolve_right hout)
  · have hle := h.le i
    split
    · simp only [Slot.build]
      omega
    · exact hle
  · split
    · rename_i hin
      have hgone := h.gone htrivial i (hfree i hin.1 hin.2)
      simp only [Slot.build]
      omega
    · rename_i hout
      exact h.here htrivial i (hi.resolve_right hout)
  · rw [if_neg fun hin => hi (Or.inr hin)]
    exact h.gone htrivial i fun hp => hi (Or.inl hp)

theorem doCopy {source : SharedBuffer α} {P₀ : Nat → Prop} {f₀ : Nat → Option α}
    (h : Stocked t size items P f) (hsource : Stocked t source.mSize source.items P₀ f₀)
    (hsize : dest + num ≤ size) (hfree : ∀ i, dest ≤ i → i < dest + num → ¬ P i)
    (hfrom : ∀ i, i < num → P₀ (start + i)) (hbound : start + num ≤ source.mSize) :
    ∃ items', Utils.doCopy t size dest source start num items = some items' ∧
      Stocked t size items' (fun i => P i ∨ dest ≤ i ∧ i < dest + num)
        (fun i => if dest ≤ i ∧ i < dest + num then f₀ (start + (i - dest)) else f i) := by
  obtain ⟨items', hbuild, hstocked⟩ :=
    h.buildItems (fun i _ => (source.items (start + i)).val) hsize hfree
  have hlive : ∀ i < num, (source.items (start + i)).live = true := fun i hi =>
    hsource.live _ (hfrom i hi)
  refine ⟨items', ?_, hstocked.congr (fun _ => Iff.rfl) fun i _ => ?_⟩
  · rw [Utils.doCopy, if_pos ⟨hbound, hlive⟩]
    exact hbuild
  · split
    · rename_i hin
      exact (hsource.val _ (hfrom (i - dest) (by omega))).symm
    · rfl

theorem doDestroy (h : Stocked t size items P f) (hsize : dest + num ≤ size)
    (hthere : ∀ i, dest ≤ i → i < dest + num → P i) :
    ∃ items', Utils.doDestroy t size dest num items = some items' ∧
      Stocked t size items' (fun i => P i ∧ ¬ (dest ≤ i ∧ i < dest + num)) f := by
  unfold Utils.doDestroy
  cases htrivial : t.trivialDtor with
  | true =>
      exact ⟨items, if_pos rfl, h.part htrivial fun i hi => hi.1⟩
  | false =>
      have hlive : ∀ i < num, (items (dest + i)).live = true := fun i hi =>
        h.live _ (hthere _ (by omega) (by omega))
      rw [if_neg Bool.false_ne_true, if_pos ⟨hsize, hlive⟩]
      refine ⟨_, rfl, fun i hi => h.inside i hi.1, fun i hi => ?_, fun i hi => ?_, fun i => ?_,
        fun _ i hi => ?_, fun _ i hi => ?_⟩
      · rw [if_neg hi.2]
        exact h.live i hi.1
      · rw [if_neg hi.2]
        exact h.val i hi.1
      · have hle := h.le i
        split
        · rename_i hin
          have hhere := h.here htrivial i (hthere i hin.1 hin.2)
          simp only [Slot.destroy]
          omega
        · exact hle
      · rw [if_neg hi.2]
        exact h.here htrivial i hi.1
      · split
        · rename_i hin
          have hhere := h.here htrivial i (hthere i hin.1 hin.2)
          simp only [Slot.destroy]
          omega
        · rename_i hout
          exact h.gone htrivial i fun hp => hi ⟨hp, hout⟩

/-- The items behind a move, when it overwrites no other item. -/
theorem moved (h : Stocked t size items P f) (hsize : dest + num ≤ size)
    (hfrom : ∀ i, start ≤ i → i < start + num → P i)
    (hfree : ∀ i, dest ≤ i → i < dest + num → P i → start ≤ i ∧ i < start + num) :
    Stocked t size (Utils.moved t dest start num items)
      (fun i => dest ≤ i ∧ i < dest + num ∨ P i ∧ ¬ (start ≤ i ∧ i < start + num))
      (fun i => if dest ≤ i ∧ i < dest + num then f (start + (i - dest)) else f i) := by
  have hleft : ∀ i, (if start ≤ i ∧ i < start + num then t.leave (items i)
      else items i).destroyed ≤ (if start ≤ i ∧ i < start + num then t.leave (items i)
      else items i).built := by
    intro i
    have hle := h.le i
    split
    · rename_i hin
      have hlive := h.live i (hfrom i hin.1 hin.2)
      simp only [Slot.live, decide_eq_true_eq] at hlive
      unfold Traits.leave
      split
      · exact hle
      · simp only [Slot.destroy]
        omega
    · exact hle
  -- what has been moved away counts as destroyed before anything is moved there
  have hempty : t.trivialDtor = false → ∀ i, ¬ (P i ∧ ¬ (start ≤ i ∧ i < start + num)) →
      (if start ≤ i ∧ i < start + num then t.leave (items i) else items i).built =
        (if start ≤ i ∧ i < start + num then t.leave (items i) else items i).destroyed := by
    intro htrivial i hi
    split
    · rename_i hin
      have hhere := h.here htrivial i (hfrom i hin.1 hin.2)
      simp only [Traits.leave, htrivial, Bool.false_eq_true, if_false, Slot.destroy]
      omega
    · rename_i hout
      exact h.gone htrivial i fun hp => hi ⟨hp, hout⟩
  refine ⟨fun i hi => ?_, fun i hi => ?_, fun i hi => ?_, fun i => ?_, fun htrivial i hi => ?_,
    fun htrivial i hi => ?_⟩
  · rcases hi with hi | hi
    · omega
    · exact h.inside i hi.1
  · have hle := hleft i
    unfold Utils.moved
    dsimp only
    split
    · exact Slot.live_build hle _
    · rename_i hout
      obtain ⟨hp, hnot⟩ := hi.resolve_left hout
      rw [if_neg hnot]
      exact h.live i hp
  · unfold Utils.moved
    dsimp only
    split
    · rename_i hin
      exact h.val _ (hfrom _ (by omega) (by omega))
    · rename_i hout
      obtain ⟨hp, hnot⟩ := hi.resolve_left hout
      rw [if_neg hnot]
      exact h.val i hp
  · have hle := hleft i
    unfold Utils.moved
    dsimp only
    split
    · simp only [Slot.build]
      omega
    · exact hle
  · unfold Utils.moved
    dsimp only
    split
    · rename_i hin
      have hbalance := hempty htrivial i fun hp =>
        hp.2 (hfree i hin.1 hin.2 hp.1)
      simp only [Slot.build]
      omega
    · rename_i hout
      obtain ⟨hp, hnot⟩ := hi.resolve_left hout
      rw [if_neg hnot]
      exact h.here htrivial i hp
  · unfold Utils.moved
    dsimp only
    rw [if_neg fun hin => hi (Or.inl hin)]
    exact hempty htrivial i fun hp => hi (Or.inr hp)

theorem memMove (h : Stocked t size items P f) (hsize : dest + num ≤ size)
    (hfrom : ∀ i, start ≤ i → i < start + num → P i) (hbound : start + num ≤ size)
    (hfree : ∀ i, dest ≤ i → i < dest + num → P i → start ≤ i ∧ i < start + num) :
    Utils.memMove t size dest start num items = some (Utils.moved t dest start num items) := by
  refine if_pos ⟨hsize, hbound, fun i hi => ?_, fun i hi hout => ?_⟩
  · exact h.live _ (hfrom _ (by omega) (by omega))
  · refine h.mayBuild fun hp => ?_
    have hin := hfree (dest + i) (by omega) (by omega) hp
    omega

theorem moveItem {d s : Nat} (h : Stocked t size items P f) (hd : d < size) (hne : d ≠ s)
    (hs : P s) (hfree : ¬ P d) :
    ∃ items', Utils.moveItem t size d s items = some items' ∧
      Stocked t size items' (fun i => i = d ∨ P i ∧ i ≠ s)
        (fun i => if i = d then f s else f i) := by
  refine ⟨_, if_pos ⟨hd, h.inside s hs, hne, h.live s hs, h.mayBuild hfree⟩, ?_⟩
  have hthere : ∀ i, s ≤ i → i < s + 1 → P i := fun i hlo hhi => by
    have heq : i = s := by omega
    exact heq ▸ hs
  have hclear : ∀ i, d ≤ i → i < d + 1 → P i → s ≤ i ∧ i < s + 1 := fun i hlo hhi hp => by
    have heq : i = d := by omega
    exact absurd (heq ▸ hp) hfree
  refine (h.moved hd hthere hclear).congr (fun i => ?_) fun i hi => ?_
  · have hdest : i = d ↔ d ≤ i ∧ i < d + 1 := by omega
    have hstart : i = s ↔ s ≤ i ∧ i < s + 1 := by omega
    rw [hdest, ne_eq, hstart]
  · have hdest : i = d ↔ d ≤ i ∧ i < d + 1 := by omega
    by_cases heq : i = d
    · rw [if_pos heq, if_pos (hdest.mp heq), heq, Nat.sub_self, Nat.add_zero]
    · rw [if_neg heq, if_neg fun hin => heq (hdest.mpr hin)]

/-- The items behind the move of a range. -/
theorem moveForwardLoop (h : Stocked t size items P f) (hlt : start < dest)
    (hsize : dest + num ≤ size) (hfrom : ∀ i, start ≤ i → i < start + num → P i)
    (hfree : ∀ i, dest ≤ i → i < dest + num → P i → start ≤ i ∧ i < start + num) :
    ∃ items', Utils.moveForwardLoop t size dest start num items = some items' ∧
      Stocked t size items'
        (fun i => dest ≤ i ∧ i < dest + num ∨ P i ∧ ¬ (start ≤ i ∧ i < start + num))
        (fun i => if dest ≤ i ∧ i < dest + num then f (start + (i - dest)) else f i) := by
  induction num generalizing items P f with
  | zero =>
      refine ⟨items, rfl, h.congr (fun i => ?_) fun i hi => if_neg (by omega)⟩
      constructor
      · rintro (hi | hi)
        · omega
        · exact hi.1
      · exact fun hp => Or.inr ⟨hp, by omega⟩
  | succ n ih =>
      -- the last item goes to a slot behind all of the items
      have hlast : ¬ P (dest + n) := fun hp => by
        have hin := hfree (dest + n) (by omega) (by omega) hp
        omega
      obtain ⟨mid, hitem, hmid⟩ := h.moveItem (d := dest + n) (s := start + n) (by omega)
        (by omega) (hfrom _ (by omega) (by omega)) hlast
      obtain ⟨items', hloop, hstocked⟩ := ih hmid (by omega)
        (fun i hlo hhi => Or.inr ⟨hfrom i hlo (by omega), by omega⟩) fun i hlo hhi hp => by
          rcases hp with hp | hp
          · omega
          · have hin := hfree i hlo (by omega) hp.1
            have hne := hp.2
            omega
      refine ⟨items', ?_, hstocked.congr (fun i => ?_) fun i hi => ?_⟩
      · rw [Utils.moveForwardLoop, hitem]
        exact hloop
      · by_cases hp : P i
        · simp only [hp, true_and]
          omega
        · simp only [hp, false_and, or_false]
          omega
      · by_cases hin : dest ≤ i ∧ i < dest + n
        · rw [if_pos hin, if_pos (by omega), if_neg (by omega)]
        · rw [if_neg hin]
          by_cases heq : i = dest + n
          · rw [if_pos heq, if_pos (by omega), heq, Nat.add_sub_cancel_left]
          · rw [if_neg heq, if_neg (by omega)]

theorem moveBackwardLoop (h : Stocked t size items P f) (hlt : dest < start)
    (hsize : dest + num ≤ size) (hfrom : ∀ i, start ≤ i → i < start + num → P i)
    (hfree : ∀ i, dest ≤ i → i < dest + num → P i → start ≤ i ∧ i < start + num) :
    ∃ items', Utils.moveBackwardLoop t size dest start num items = some items' ∧
      Stocked t size items'
        (fun i => dest ≤ i ∧ i < dest + num ∨ P i ∧ ¬ (start ≤ i ∧ i < start + num))
        (fun i => if dest ≤ i ∧ i < dest + num then f (start + (i - dest)) else f i) := by
  induction num generalizing items P f dest start with
  | zero =>
      refine ⟨items, rfl, h.congr (fun i => ?_) fun i hi => if_neg (by omega)⟩
      constructor
      · rintro (hi | hi)
        · omega
        · exact hi.1
      · exact fun hp => Or.inr ⟨hp, by omega⟩
  | succ n ih =>
      -- the first item goes to a slot before all of the items
      have hfirst : ¬ P dest := fun hp => by
        have hin := hfree dest le_rfl (by omega) hp
        omega
      obtain ⟨mid, hitem, hmid⟩ := h.moveItem (d := dest) (s := start) (by omega)
        (by omega) (hfrom _ le_rfl (by omega)) hfirst
      have hthere : ∀ i, start + 1 ≤ i → i < start + 1 + n → i = dest ∨ P i ∧ i ≠ start :=
        fun i hlo hhi => Or.inr ⟨hfrom i (by omega) (by omega), by omega⟩
      have hclear : ∀ i, dest + 1 ≤ i → i < dest + 1 + n → i = dest ∨ P i ∧ i ≠ start →
          start + 1 ≤ i ∧ i < start + 1 + n := fun i hlo hhi hp => by
        rcases hp with hp | hp
        · omega
        · have hin := hfree i (by omega) (by omega) hp.1
          have hne := hp.2
          omega
      obtain ⟨items', hloop, hstocked⟩ := ih hmid (by omega) (by omega) hthere hclear
      refine ⟨items', ?_, hstocked.congr (fun i => ?_) fun i hi => ?_⟩
      · rw [Utils.moveBackwardLoop, hitem]
        exact hloop
      · by_cases hp : P i
        · simp only [hp, true_and]
          omega
        · simp only [hp, false_and, or_false]
          omega
      · by_cases hin : dest + 1 ≤ i ∧ i < dest + 1 + n
        · rw [if_pos hin, if_pos (by omega), if_neg (by omega)]
          congr 1
          omega
        · rw [if_neg hin]
          by_cases heq : i = dest
          · rw [if_pos heq, if_pos (by omega), heq, Nat.sub_self, Nat.add_zero]
          · rw [if_neg heq, if_neg (by omega)]

/-- `_do_move_forward`. -/
theorem doMoveForward (h : Stocked t size items P f) (hlt : start < dest)
    (hsize : dest + num ≤ size) (hfrom : ∀ i, start ≤ i → i < start + num → P i)
    (hfree : ∀ i, dest ≤ i → i < dest + num → P i → start ≤ i ∧ i < start + num) :
    ∃ items', Utils.doMoveForward t size dest start num items = some items' ∧
      Stocked t size items'
        (fun i => dest ≤ i ∧ i < dest + num ∨ P i ∧ ¬ (start ≤ i ∧ i < start + num))
        (fun i => if dest ≤ i ∧ i < dest + num then f (start + (i - dest)) else f i) := by
  unfold Utils.doMoveForward
  split
  · exact ⟨_, h.memMove hsize hfrom (by omega) hfree, h.moved hsize hfrom hfree⟩
  · exact h.moveForwardLoop hlt hsize hfrom hfree

/-- `_do_move_backward`.  The loop must not be asked to move items to where they are. -/
theorem doMoveBackward (h : Stocked t size items P f)
    (hlt : dest < start ∨ dest = start ∧ t.movesBytes = true)
    (hsize : start + num ≤ size) (hfrom : ∀ i, start ≤ i → i < start + num → P i)
    (hfree : ∀ i, dest ≤ i → i < dest + num → P i → start ≤ i ∧ i < start + num) :
    ∃ items', Utils.doMoveBackward t size dest start num items = some items' ∧
      Stocked t size items'
        (fun i => dest ≤ i ∧ i < dest + num ∨ P i ∧ ¬ (start ≤ i ∧ i < start + num))
        (fun i => if dest ≤ i ∧ i < dest + num then f (start + (i - dest)) else f i) := by
  unfold Utils.doMoveBackward
  split
  · exact ⟨_, h.memMove (by omega) hfrom hsize hfree, h.moved (by omega) hfrom hfree⟩
  · rename_i hbytes
    have hbefore : dest < start := hlt.resolve_right fun hsame => hbytes hsame.2
    exact h.moveBackwardLoop hbefore (by omega) hfrom hfree

/-- The bytes that `editResize` keeps, for types without a destructor. -/
theorem kept {newSize : Nat} (h : Stocked t size items P f) (htrivial : t.trivialDtor = true)
    (hfit : ∀ i, P i → i < newSize) :
    Stocked t newSize (fun i => if i < min newSize size then items i else Slot.raw) P f := by
  have hin : ∀ i, P i → i < min newSize size := fun i hi =>
    lt_min (hfit i hi) (h.inside i hi)
  refine ⟨hfit, fun i hi => ?_, fun i hi => ?_, fun i => ?_, fun hno => ?_, fun hno => ?_⟩
  · rw [if_pos (hin i hi)]
    exact h.live i hi
  · rw [if_pos (hin i hi)]
    exact h.val i hi
  · split
    · exact h.le i
    · exact le_rfl
  · rw [htrivial] at hno
    cases hno
  · rw [htrivial] at hno
    cases hno

end Stocked
end Utils
end AndroidLinux
