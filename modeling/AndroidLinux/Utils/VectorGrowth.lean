import AndroidLinux.Utils.VectorStorage

/-!
# Growing and shrinking a vector

`_grow` makes room and `_shrink` closes a gap in one of three ways: with `realloc`, with
copies to new storage or with moves in place.  All of them come to the same.
-/

namespace AndroidLinux
namespace Utils

section Parts

variable {α : Type*} {t : Traits} {size dest start num : Nat} {items : Nat → Slot α}
  {P P₀ : Nat → Prop} {f f₀ : Nat → Option α} {source : SharedBuffer α}

/-- One of the copies to new storage. -/
theorem Stocked.copyPart (h : Stocked t size items P f)
    (hsource : Stocked t source.mSize source.items P₀ f₀) (hsize : dest + num ≤ size)
    (hfree : ∀ i, dest ≤ i → i < dest + num → ¬ P i)
    (hfrom : ∀ i, i < num → P₀ (start + i)) (rest : List (Nat × Nat × Nat)) :
    ∃ items', Vectors.copyParts t size source (Vectors.part dest start num ++ rest) items =
        Vectors.copyParts t size source rest items' ∧
      Stocked t size items' (fun i => P i ∨ dest ≤ i ∧ i < dest + num)
        (fun i => if dest ≤ i ∧ i < dest + num then f₀ (start + (i - dest)) else f i) := by
  unfold Vectors.part
  split
  · rename_i hnum
    have hlast := hsource.inside _ (hfrom (num - 1) (by omega))
    obtain ⟨items', hcopy, hitems⟩ := h.doCopy hsource hsize hfree hfrom (by omega)
    refine ⟨items', ?_, hitems⟩
    rw [List.singleton_append, Vectors.copyParts, hcopy]
    rfl
  · refine ⟨items, rfl, h.congr (fun i => ?_) fun i _ => if_neg (by omega)⟩
    constructor
    · rintro (hp | hin)
      · exact hp
      · omega
    · exact Or.inl

end Parts

namespace Vectors

variable {ι α : Type*} [Fintype ι] {t : Traits} {s s' : Vectors ι α} {v : ι}
  {full : Nat → Nat → Prop} {size pos amount : Nat}

/-- The same slots and values in other words. -/
theorem Prepared.congr {k : Nat} {P Q : Nat → Prop} {f g : Nat → Option α}
    (h : Prepared t s s' v k size P f) (hslots : ∀ i, Q i ↔ P i)
    (hvals : ∀ i, Q i → g i = f i) : Prepared t s s' v k size Q g := by
  obtain ⟨full', b, h⟩ := h
  have heq : Q = P := funext fun i => propext (hslots i)
  exact ⟨full', b, h.accounts, h.frame, h.vec, h.only, h.size_eq, heq ▸ h.full_eq,
    h.stocked.congr hslots hvals⟩

variable [DecidableEq ι]

/-- Two parts are copied to new storage. -/
theorem Sound.rehouseParts (h : Sound t s full) (v : ι) {d₁ s₁ n₁ d₂ s₂ n₂ : Nat}
    (h₁ : s₁ + n₁ ≤ (s.vecs v).mCount) (h₂ : s₂ + n₂ ≤ (s.vecs v).mCount)
    (hle : d₁ + n₁ ≤ d₂) (hsize : d₂ + n₂ ≤ size) :
    ∃ s', s.rehouse t v size (part d₁ s₁ n₁ ++ part d₂ s₂ n₂) = some s' ∧
      Prepared t s s' v (s.vecs v).mCount size
        (fun i => d₁ ≤ i ∧ i < d₁ + n₁ ∨ d₂ ≤ i ∧ i < d₂ + n₂)
        (fun i => if d₂ ≤ i ∧ i < d₂ + n₂ then s.valAt v (s₂ + (i - d₂))
          else s.valAt v (s₁ + (i - d₁))) := by
  cases hv : (s.vecs v).mStorage with
  | none =>
      have hcount := (h.tight v).none hv
      have hcopies : s.copiesOf t v size (part d₁ s₁ n₁ ++ part d₂ s₂ n₂) =
          some fun _ => Slot.raw := by
        rw [copiesOf, hv]
      refine h.rehouse hcopies ((Stocked.raw t size _).congr (fun i => ?_) fun _ _ => rfl)
      exact iff_false_intro (by omega)
  | some b =>
      have hfrom₁ : ∀ i, i < n₁ → s₁ + i < (s.vecs v).mCount := fun i hi => by omega
      have hfrom₂ : ∀ i, i < n₂ → s₂ + i < (s.vecs v).mCount := fun i hi => by omega
      have hfit : d₁ + n₁ ≤ size := by omega
      obtain ⟨items₁, hcopy₁, hitems₁⟩ := (Stocked.raw t size fun _ => none).copyPart
        (h.stocked hv) hfit (fun _ _ _ hno => hno) hfrom₁ (part d₂ s₂ n₂)
      obtain ⟨items₂, hcopy₂, hitems₂⟩ := hitems₁.copyPart (h.stocked hv) hsize
        (fun i hlo _ hno => by
          rcases hno with hno | hno
          · exact hno
          · omega) hfrom₂ []
      have hcopies : s.copiesOf t v size (part d₁ s₁ n₁ ++ part d₂ s₂ n₂) = some items₂ := by
        rw [copiesOf, hv]
        dsimp only
        rw [List.append_nil] at hcopy₂
        rw [h.freed hv, if_neg Bool.false_ne_true, hcopy₁, hcopy₂]
        rfl
      refine h.rehouse hcopies (hitems₂.congr (fun i => ?_) fun i hi => ?_)
      · simp only [false_or]
      · split
        · rfl
        · rename_i hout
          rw [if_pos (hi.resolve_right hout)]

/-- `_grow` leaves a gap for the new items. -/
theorem Sound.grow (h : Sound t s full) (hpos : pos ≤ (s.vecs v).mCount)
    (hamount : 0 < amount) :
    ∃ s' size, s.grow t v pos amount = some s' ∧ (s.vecs v).mCount + amount ≤ size ∧
      Prepared t s s' v ((s.vecs v).mCount + amount) size
        (fun i => i < pos ∨ pos + amount ≤ i ∧ i < (s.vecs v).mCount + amount)
        (fun i => if i < pos then s.valAt v i else s.valAt v (i - amount)) := by
  unfold Vectors.grow
  dsimp only
  split
  · have hroom : (s.vecs v).mCount + amount ≤
        max kMinVectorCapacity ((((s.vecs v).mCount + amount) * 3 + 1) / 2) :=
      le_max_of_le_right (by omega)
    generalize max kMinVectorCapacity ((((s.vecs v).mCount + amount) * 3 + 1) / 2) = newCapacity
      at hroom ⊢
    split
    · -- `realloc`, or a copy of the bytes when the storage is shared
      rename_i htrivial
      obtain ⟨hsome, hend, -, hdtor⟩ := htrivial
      obtain ⟨b, hv⟩ := Option.isSome_iff_exists.mp hsome
      have hfit : ∀ i, i < (s.vecs v).mCount → i < (s.vecs v).mCount ∧ i < newCapacity :=
        fun i hi => ⟨hi, by omega⟩
      obtain ⟨s', hresize, hprepared⟩ := h.editResize hv hdtor hfit
      refine ⟨_, newCapacity, by rw [hresize]; rfl, hroom,
        (hprepared.congr (fun i => ?_) fun i hi => ?_).setCount _⟩
      · omega
      · rw [if_pos (by omega)]
    · -- the items before and behind the gap are copied to new storage
      have h₁ : 0 + pos ≤ (s.vecs v).mCount := by omega
      have h₂ : pos + ((s.vecs v).mCount - pos) ≤ (s.vecs v).mCount := by omega
      have hle : 0 + pos ≤ pos + amount := by omega
      have hfit : pos + amount + ((s.vecs v).mCount - pos) ≤ newCapacity := by omega
      obtain ⟨s', hrehouse, hprepared⟩ := h.rehouseParts v h₁ h₂ hle hfit
      refine ⟨_, newCapacity, by rw [hrehouse]; rfl, hroom,
        (hprepared.congr (fun i => ?_) fun i hi => ?_).setCount _⟩
      · omega
      · by_cases hlow : i < pos
        · rw [if_pos hlow, if_neg (by omega), Nat.sub_zero, Nat.zero_add]
        · rw [if_neg hlow, if_pos (by omega)]
          congr 1
          omega
  · -- there is room in the storage, from which the vector has first to be detached
    rename_i hroom
    have hroom' : (s.vecs v).mCount + amount ≤ s.capacity v := by omega
    cases hv : (s.vecs v).mStorage with
    | none =>
        rw [capacity, hv, Option.elim_none] at hroom'
        omega
    | some b =>
        obtain ⟨m, hedit, hm⟩ := h.editArrayImpl hv
        rw [hedit, Option.bind_some]
        split
        · have hfit : pos + amount + ((s.vecs v).mCount - pos) ≤ s.capacity v := by omega
          have hthere : ∀ i, pos ≤ i → i < pos + ((s.vecs v).mCount - pos) →
              i < (s.vecs v).mCount := fun i _ hi => by omega
          have hfree : ∀ i, pos + amount ≤ i → i < pos + amount + ((s.vecs v).mCount - pos) →
              i < (s.vecs v).mCount → pos ≤ i ∧ i < pos + ((s.vecs v).mCount - pos) :=
            fun i _ _ _ => by omega
          obtain ⟨s', hmove, hprepared⟩ := hm.editItems
            (fun size => doMoveForward t size (pos + amount) pos ((s.vecs v).mCount - pos))
            fun items hitems => hitems.doMoveForward (by omega) hfit hthere hfree
          refine ⟨_, s.capacity v, by rw [hmove]; rfl, hroom',
            (hprepared.congr (fun i => ?_) fun i hi => ?_).setCount _⟩
          · omega
          · by_cases hlow : i < pos
            · rw [if_pos hlow, if_neg (by omega)]
            · rw [if_neg hlow, if_pos (by omega)]
              congr 1
              omega
        · rename_i hend
          refine ⟨_, s.capacity v, rfl, hroom',
            (hm.congr (fun i => ?_) fun i hi => ?_).setCount _⟩
          · omega
          · rw [if_pos (by omega)]

/-- Moving items in place to where they are is left to `memmove`. -/
def Movable (t : Traits) (s : Vectors ι α) (v : ι) (pos amount : Nat) : Prop :=
  0 < amount ∨ pos = (s.vecs v).mCount ∨ t.movesBytes = true ∨
    (s.vecs v).mCount * 3 < s.capacity v

/-- `_shrink` closes the gap. -/
theorem Sound.shrink (h : Sound t s full) (hpos : pos + amount ≤ (s.vecs v).mCount)
    (hmovable : Movable t s v pos amount) {b : Nat} (hv : (s.vecs v).mStorage = some b) :
    ∃ s' size, s.shrink t v pos amount = some s' ∧
      Prepared t s s' v ((s.vecs v).mCount - amount) size
        (fun i => i < (s.vecs v).mCount - amount)
        (fun i => if i < pos then s.valAt v i else s.valAt v (i + amount)) := by
  unfold Vectors.shrink
  dsimp only
  rw [if_neg (by simp [hv])]
  split
  · have hroom : (s.vecs v).mCount - amount ≤
        max kMinVectorCapacity (((s.vecs v).mCount - amount) * 2) :=
      le_max_of_le_right (by omega)
    generalize max kMinVectorCapacity (((s.vecs v).mCount - amount) * 2) = newCapacity
      at hroom ⊢
    split
    · rename_i htrivial
      obtain ⟨hend, -, hdtor⟩ := htrivial
      have hfit : ∀ i, i < (s.vecs v).mCount - amount →
          i < (s.vecs v).mCount ∧ i < newCapacity := fun i hi => ⟨by omega, by omega⟩
      obtain ⟨s', hresize, hprepared⟩ := h.editResize hv hdtor hfit
      refine ⟨_, newCapacity, by rw [hresize]; rfl,
        (hprepared.congr (fun _ => Iff.rfl) fun i hi => ?_).setCount _⟩
      rw [if_pos (by omega)]
    · -- the removed items stay behind and are destroyed with the old storage
      have h₁ : 0 + pos ≤ (s.vecs v).mCount := by omega
      have h₂ : pos + amount + ((s.vecs v).mCount - amount - pos) ≤ (s.vecs v).mCount := by
        omega
      have hle : 0 + pos ≤ pos := by omega
      have hfit : pos + ((s.vecs v).mCount - amount - pos) ≤ newCapacity := by omega
      obtain ⟨s', hrehouse, hprepared⟩ := h.rehouseParts v h₁ h₂ hle hfit
      refine ⟨_, newCapacity, by rw [hrehouse]; rfl,
        (hprepared.congr (fun i => ?_) fun i hi => ?_).setCount _⟩
      · omega
      · by_cases hlow : i < pos
        · rw [if_pos hlow, if_neg (by omega), Nat.sub_zero, Nat.zero_add]
        · rw [if_neg hlow, if_pos (by omega)]
          congr 1
          omega
  · rename_i hroom
    have hcapacity : s.capacity v = (s.heap b).mSize := by
      rw [capacity, hv]
      rfl
    have hcount : (s.vecs v).mCount ≤ s.capacity v := hcapacity ▸ h.count_le hv
    obtain ⟨m, hedit, hm⟩ := h.editArrayImpl hv
    have hfit : pos + amount ≤ s.capacity v := by omega
    obtain ⟨m', hdestroy, hm'⟩ := hm.editItems
      (fun size => doDestroy t size pos amount)
      fun items hitems => hitems.doDestroy hfit fun i _ hi => by omega
    rw [hedit, Option.bind_some, hdestroy, Option.bind_some]
    split
    · -- the only place where the condition is used
      rename_i hmore
      have hbefore : pos < pos + amount ∨ pos = pos + amount ∧ t.movesBytes = true := by
        rcases hmovable with hpositive | hend | hbytes | hbig
        · omega
        · omega
        · by_cases hzero : amount = 0
          · exact Or.inr ⟨by omega, hbytes⟩
          · omega
        · by_cases hzero : amount = 0
          · rw [hzero, Nat.sub_zero] at hroom
            omega
          · omega
      have hend : pos + amount + ((s.vecs v).mCount - amount - pos) ≤ s.capacity v := by omega
      have hthere : ∀ i, pos + amount ≤ i →
          i < pos + amount + ((s.vecs v).mCount - amount - pos) →
          i < (s.vecs v).mCount ∧ ¬ (pos ≤ i ∧ i < pos + amount) := fun i _ _ => by omega
      have hfree : ∀ i, pos ≤ i → i < pos + ((s.vecs v).mCount - amount - pos) →
          i < (s.vecs v).mCount ∧ ¬ (pos ≤ i ∧ i < pos + amount) →
          pos + amount ≤ i ∧ i < pos + amount + ((s.vecs v).mCount - amount - pos) :=
        fun i _ _ _ => by omega
      obtain ⟨s', hmove, hprepared⟩ := hm'.editItems
        (fun size =>
          doMoveBackward t size pos (pos + amount) ((s.vecs v).mCount - amount - pos))
        fun items hitems => hitems.doMoveBackward hbefore hend hthere hfree
      refine ⟨_, s.capacity v, by rw [hmove]; rfl,
        (hprepared.congr (fun i => ?_) fun i hi => ?_).setCount _⟩
      · omega
      · by_cases hlow : i < pos
        · rw [if_pos hlow, if_neg (by omega)]
        · rw [if_neg hlow, if_pos (by omega)]
          congr 1
          omega
    · refine ⟨_, s.capacity v, rfl, (hm'.congr (fun i => ?_) fun i hi => ?_).setCount _⟩
      · omega
      · rw [if_pos (by omega)]

end Vectors
end Utils
end AndroidLinux
