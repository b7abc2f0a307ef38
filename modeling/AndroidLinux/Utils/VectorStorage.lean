import AndroidLinux.Utils.VectorItems

/-!
# Who owns the storage of vectors

`Accounts` is the invariant of the buffers: the reference count of a buffer is the number of
vectors that have it as their storage, and `full` says which of its slots hold items.  A
vector is `Tight` when these are the slots below its count.

An operation first makes the vector the only owner of its storage (`Holds`), while the other
vectors stay as they are, and then changes the items there.
-/

namespace AndroidLinux
namespace Utils
namespace Vectors

variable {ι α : Type*} {t : Traits} {s s' : Vectors ι α} {v w : ι}
  {full full' : Nat → Nat → Prop} {b : Nat}

/-- The items of a vector are in the slots below its count. -/
structure Tight (s : Vectors ι α) (full : Nat → Nat → Prop) (v : ι) : Prop where
  items : ∀ b, (s.vecs v).mStorage = some b → ∀ i, full b i ↔ i < (s.vecs v).mCount
  none : (s.vecs v).mStorage = none → (s.vecs v).mCount = 0

/-- The item at an index. -/
def valAt (s : Vectors ι α) (v : ι) (i : Nat) : Option α :=
  (s.vecs v).mStorage.elim none fun b => ((s.heap b).items i).val

/-- The list that a vector stands for. -/
def contents (s : Vectors ι α) (v : ι) : List (Option α) :=
  (List.range (s.vecs v).mCount).map (s.valAt v)

theorem Tight.frame (h : s.Tight full w) (hvec : s'.vecs w = s.vecs w)
    (hfull : ∀ b, (s.vecs w).mStorage = some b → full' b = full b) : s'.Tight full' w := by
  refine ⟨fun b hb i => ?_, fun hb => ?_⟩
  · rw [hvec] at hb ⊢
    rw [hfull b hb]
    exact h.items b hb i
  · rw [hvec] at hb ⊢
    exact h.none hb

theorem contents_frame (hvec : s'.vecs w = s.vecs w)
    (hitems : ∀ b, (s.vecs w).mStorage = some b → (s'.heap b).items = (s.heap b).items) :
    s'.contents w = s.contents w := by
  unfold contents valAt
  rw [hvec]
  cases hb : (s.vecs w).mStorage with
  | none => rfl
  | some b => simp only [Option.elim_some, hitems b hb]

variable [Fintype ι]

/-- The vectors with a buffer as their storage. -/
def owners (s : Vectors ι α) (b : Nat) : Finset ι :=
  Finset.univ.filter fun v => (s.vecs v).mStorage = some b

theorem mem_owners : v ∈ s.owners b ↔ (s.vecs v).mStorage = some b := by
  simp [owners]

structure Accounts (t : Traits) (s : Vectors ι α) (full : Nat → Nat → Prop) : Prop where
  refs : ∀ b, (s.heap b).mRefs = (s.owners b).card
  alive : ∀ b v, v ∈ s.owners b → b < s.next ∧ (s.heap b).freed = false
  stocked : ∀ b, Stocked t (s.heap b).mSize (s.heap b).items (full b)
    fun i => ((s.heap b).items i).val
  empty : ∀ b, s.owners b = ∅ → ∀ i, ¬ full b i

/-- A change to one buffer and its owners. -/
theorem Accounts.change (h : Accounts t s full) (b : Nat)
    (hheap : ∀ b' ≠ b, s'.heap b' = s.heap b') (hfull : ∀ b' ≠ b, full' b' = full b')
    (howners : ∀ b' ≠ b, s'.owners b' = s.owners b') (hnext : s.next ≤ s'.next)
    (hrefs : (s'.heap b).mRefs = (s'.owners b).card)
    (halive : (s'.owners b).Nonempty → b < s'.next ∧ (s'.heap b).freed = false)
    (hstocked : Stocked t (s'.heap b).mSize (s'.heap b).items (full' b)
      fun i => ((s'.heap b).items i).val)
    (hempty : s'.owners b = ∅ → ∀ i, ¬ full' b i) : Accounts t s' full' := by
  refine ⟨fun b' => ?_, fun b' v hv => ?_, fun b' => ?_, fun b' hno => ?_⟩
  · by_cases heq : b' = b
    · exact heq ▸ hrefs
    · rw [hheap b' heq, howners b' heq]
      exact h.refs b'
  · by_cases heq : b' = b
    · subst heq
      exact halive ⟨v, hv⟩
    · rw [howners b' heq] at hv
      obtain ⟨hlt, hfreed⟩ := h.alive b' v hv
      rw [hheap b' heq]
      exact ⟨by omega, hfreed⟩
  · by_cases heq : b' = b
    · exact heq ▸ hstocked
    · rw [hheap b' heq, hfull b' heq]
      exact h.stocked b'
  · by_cases heq : b' = b
    · subst heq
      exact hempty hno
    · rw [howners b' heq] at hno
      rw [hfull b' heq]
      exact h.empty b' hno

/-- The buffers and vectors of a program. -/
structure Sound (t : Traits) (s : Vectors ι α) (full : Nat → Nat → Prop) : Prop where
  accounts : Accounts t s full
  tight : ∀ v, s.Tight full v

/-- A vector alone with its storage. -/
theorem Accounts.owners_eq (h : Accounts t s full) (hrefs : (s.heap b).mRefs = 1)
    (hv : (s.vecs v).mStorage = some b) : s.owners b = {v} := by
  have hcard : (s.owners b).card = 1 := (h.refs b).symm.trans hrefs
  obtain ⟨u, hu⟩ := Finset.card_eq_one.mp hcard
  have hmem : v ∈ s.owners b := mem_owners.mpr hv
  rw [hu, Finset.mem_singleton] at hmem
  rw [hu, hmem]

theorem Sound.count_le (h : Sound t s full) (hv : (s.vecs v).mStorage = some b) :
    (s.vecs v).mCount ≤ (s.heap b).mSize := by
  by_contra hlt
  have hlast : full b (s.heap b).mSize := ((h.tight v).items b hv _).mpr (by omega)
  exact absurd ((h.accounts.stocked b).inside _ hlast) (lt_irrefl _)

/-- A vector without storage is empty. -/
theorem Sound.vec_eq (h : Sound t s full) (hv : (s.vecs v).mStorage = none) :
    s.vecs v = ⟨none, 0⟩ := by
  have hcount := (h.tight v).none hv
  cases hfields : s.vecs v with
  | mk storage count =>
      rw [hfields] at hv hcount
      dsimp only at hv hcount
      rw [hv, hcount]

theorem Sound.freed (h : Sound t s full) (hv : (s.vecs v).mStorage = some b) :
    (s.heap b).freed = false :=
  (h.accounts.alive b v (mem_owners.mpr hv)).2

/-- The items of a vector in its storage. -/
theorem Sound.stocked (h : Sound t s full) (hv : (s.vecs v).mStorage = some b) :
    Stocked t (s.heap b).mSize (s.heap b).items (fun i => i < (s.vecs v).mCount)
      (s.valAt v) := by
  refine (h.accounts.stocked b).congr (fun i => ((h.tight v).items b hv i).symm) fun i _ => ?_
  rw [valAt, hv]
  rfl

/-- Nobody else is concerned. -/
structure Frame (s s' : Vectors ι α) (full' : Nat → Nat → Prop) (v : ι) : Prop where
  tight : ∀ w, w ≠ v → s'.Tight full' w
  same : ∀ w, w ≠ v → s'.contents w = s.contents w
  vecs : ∀ w, w ≠ v → s'.vecs w = s.vecs w

/-- A vector has come to be the only owner of a buffer with the items `P`. -/
structure Holds (t : Traits) (s s' : Vectors ι α) (full' : Nat → Nat → Prop) (v : ι)
    (b k size : Nat) (P : Nat → Prop) (f : Nat → Option α) : Prop where
  accounts : Accounts t s' full'
  frame : Frame s s' full' v
  vec : s'.vecs v = ⟨some b, k⟩
  only : s'.owners b = {v}
  size_eq : (s'.heap b).mSize = size
  full_eq : full' b = P
  stocked : Stocked t size (s'.heap b).items P f

/-- `Holds` of some buffer. -/
def Prepared (t : Traits) (s s' : Vectors ι α) (v : ι) (k size : Nat) (P : Nat → Prop)
    (f : Nat → Option α) : Prop :=
  ∃ full' b, Holds t s s' full' v b k size P f

variable {k size : Nat} {P Q : Nat → Prop} {f g : Nat → Option α} {items : Nat → Slot α}

theorem Holds.freed (h : Holds t s s' full' v b k size P f) : (s'.heap b).freed = false := by
  have hin : v ∈ s'.owners b := by rw [h.only, Finset.mem_singleton]
  exact (h.accounts.alive b v hin).2

theorem Holds.refs (h : Holds t s s' full' v b k size P f) : (s'.heap b).mRefs = 1 := by
  rw [h.accounts.refs, h.only, Finset.card_singleton]

/-- Another vector has other storage. -/
theorem Holds.storage_ne (h : Holds t s s' full' v b k size P f) (hw : w ≠ v) :
    (s'.vecs w).mStorage ≠ some b := fun hb => by
  have hin : w ∈ s'.owners b := mem_owners.mpr hb
  rw [h.only, Finset.mem_singleton] at hin
  exact hw hin

/-- All slots below the count hold items again. -/
theorem Prepared.sound (h : Prepared t s s' v k size P f) (hslots : ∀ i, P i ↔ i < k) :
    (∃ full', Sound t s' full') ∧ (∀ w, w ≠ v → s'.contents w = s.contents w) ∧
      s'.contents v = (List.range k).map f := by
  obtain ⟨full', b, h⟩ := h
  refine ⟨⟨full', h.accounts, fun w => ?_⟩, h.frame.same, ?_⟩
  · by_cases hw : w = v
    · subst hw
      refine ⟨fun b' hb' i => ?_, fun hb' => ?_⟩
      · rw [h.vec] at hb' ⊢
        obtain rfl := Option.some.inj hb'
        rw [h.full_eq]
        exact hslots i
      · rw [h.vec] at hb'
        cases hb'
    · exact h.frame.tight w hw
  · unfold contents
    rw [h.vec]
    refine List.map_congr_left fun i hi => ?_
    rw [valAt, h.vec]
    exact h.stocked.val i ((hslots i).mpr (List.mem_range.mp hi))

/-- A vector that is the only owner already. -/
theorem Sound.prepared (h : Sound t s full) (hv : (s.vecs v).mStorage = some b)
    (hrefs : (s.heap b).mRefs = 1) :
    Prepared t s s v (s.vecs v).mCount (s.heap b).mSize (fun i => i < (s.vecs v).mCount)
      (s.valAt v) := by
  refine ⟨full, b, h.accounts, ⟨fun w _ => h.tight w, fun _ _ => rfl, fun _ _ => rfl⟩, ?_,
    h.accounts.owners_eq hrefs hv, rfl, ?_, h.stocked hv⟩
  · rw [← hv]
  · funext i
    exact propext ((h.tight v).items b hv i)

/-- The contents of the buffer are changed. -/
theorem Holds.put (h : Holds t s s' full' v b k size P f) (buffer : SharedBuffer α)
    (hrefs : buffer.mRefs = 1) (hfreed : buffer.freed = false)
    (hstocked : Stocked t buffer.mSize buffer.items Q g) :
    Holds t s (s'.put b buffer) (Function.update full' b Q) v b k buffer.mSize Q g := by
  have hhere : (s'.put b buffer).heap b = buffer := Function.update_self ..
  have hheap : ∀ b' ≠ b, (s'.put b buffer).heap b' = s'.heap b' := fun b' hne =>
    Function.update_of_ne hne _ _
  have hfull : ∀ b' ≠ b, Function.update full' b Q b' = full' b' := fun b' hne =>
    Function.update_of_ne hne _ _
  have honly : (s'.put b buffer).owners b = {v} := h.only
  have hin : v ∈ s'.owners b := by rw [h.only, Finset.mem_singleton]
  refine ⟨h.accounts.change b hheap hfull (fun _ _ => rfl) le_rfl ?_ (fun _ => ?_) ?_
    fun hno => ?_, ⟨fun w hw => ?_, fun w hw => ?_, h.frame.vecs⟩, h.vec, honly, ?_,
    Function.update_self .., ?_⟩
  · rw [hhere, honly, hrefs, Finset.card_singleton]
  · rw [hhere]
    exact ⟨(h.accounts.alive b v hin).1, hfreed⟩
  · rw [hhere, Function.update_self]
    exact hstocked.congr (fun _ => Iff.rfl) fun i hi => hstocked.val i hi
  · rw [honly] at hno
    exact absurd hno (Finset.singleton_ne_empty v)
  · refine (h.frame.tight w hw).frame rfl fun b' hb' => hfull b' fun heq => ?_
    exact h.storage_ne hw (heq ▸ hb')
  · have hsame : (s'.put b buffer).contents w = s'.contents w := by
      refine contents_frame rfl fun b' hb' => ?_
      rw [hheap b' fun heq => h.storage_ne hw (heq ▸ hb')]
    exact hsame.trans (h.frame.same w hw)
  · rw [hhere]
  · rw [hhere]
    exact hstocked

/-- The items are changed, to values of which `R` is known. -/
theorem Prepared.editItemsTo (h : Prepared t s s' v k size P f)
    (edit : Nat → (Nat → Slot α) → Option (Nat → Slot α)) {R : (Nat → Option α) → Prop}
    (hedit : ∀ items, Stocked t size items P f → ∃ items' g, edit size items = some items' ∧
      R g ∧ Stocked t size items' Q g) :
    ∃ s'' g, s'.editItems v edit = some s'' ∧ R g ∧ Prepared t s s'' v k size Q g := by
  obtain ⟨full', b, h⟩ := h
  obtain ⟨items', g, hitems, hg, hstocked⟩ := hedit _ h.stocked
  have hsize := h.size_eq
  refine ⟨s'.put b { s'.heap b with items := items' }, g, ?_, hg, Function.update full' b Q, b,
    ?_⟩
  · rw [Vectors.editItems, h.vec]
    dsimp only
    rw [h.freed, if_neg Bool.false_ne_true, hsize, hitems]
    rfl
  · subst hsize
    exact h.put _ h.refs h.freed hstocked

theorem Prepared.editItems (h : Prepared t s s' v k size P f)
    (edit : Nat → (Nat → Slot α) → Option (Nat → Slot α))
    (hedit : ∀ items, Stocked t size items P f → ∃ items', edit size items = some items' ∧
      Stocked t size items' Q g) :
    ∃ s'', s'.editItems v edit = some s'' ∧ Prepared t s s'' v k size Q g := by
  obtain ⟨s'', g', hs'', rfl, hprepared⟩ := h.editItemsTo edit (R := fun g' => g' = g)
    fun items hitems => by
      obtain ⟨items', hitems', hstocked⟩ := hedit items hitems
      exact ⟨items', g, hitems', rfl, hstocked⟩
  exact ⟨s'', hs'', hprepared⟩

variable [DecidableEq ι]

theorem owners_setVec (s : Vectors ι α) (v : ι) (vec : VectorImpl) (b : Nat) :
    (s.setVec v vec).owners b =
      if vec.mStorage = some b then insert v (s.owners b) else (s.owners b).erase v := by
  ext w
  rw [mem_owners, setVec]
  dsimp only
  by_cases heq : w = v
  · subst heq
    rw [Function.update_self]
    split
    · rename_i hb
      simp [hb]
    · rename_i hb
      simp [hb]
  · rw [Function.update_of_ne heq]
    split
    · simp [heq, mem_owners]
    · simp [heq, mem_owners]

/-- One reference less to a buffer. -/
theorem Sound.reset (h : Sound t s full) (hv : (s.vecs v).mStorage = some b)
    (buffer : SharedBuffer α) (P : Nat → Prop) (hrefs : buffer.mRefs + 1 = (s.heap b).mRefs)
    (hfreed : buffer.mRefs ≠ 0 → buffer.freed = false)
    (hstocked : Stocked t buffer.mSize buffer.items P fun i => (buffer.items i).val)
    (hempty : buffer.mRefs = 0 → ∀ i, ¬ P i)
    (hshared : buffer.mRefs ≠ 0 → buffer.items = (s.heap b).items ∧ P = full b) :
    Sound t ((s.put b buffer).setVec v ⟨none, 0⟩) (Function.update full b P) ∧
      Frame s ((s.put b buffer).setVec v ⟨none, 0⟩) (Function.update full b P) v := by
  have howners : ∀ b', ((s.put b buffer).setVec v ⟨none, 0⟩).owners b' =
      (s.owners b').erase v := fun b' => by
    rw [owners_setVec, if_neg (Option.some_ne_none b').symm]
    rfl
  have hothers : ∀ b' ≠ b, (s.owners b').erase v = s.owners b' := fun b' hne => by
    refine Finset.erase_eq_of_notMem fun hin => hne ?_
    have hb' := mem_owners.mp hin
    rw [hv] at hb'
    exact (Option.some.inj hb').symm
  have hcard : ((s.owners b).erase v).card = buffer.mRefs := by
    rw [Finset.card_erase_of_mem (mem_owners.mpr hv), ← h.accounts.refs b]
    omega
  have hheap : ∀ b' ≠ b, ((s.put b buffer).setVec v ⟨none, 0⟩).heap b' = s.heap b' :=
    fun b' hne => Function.update_of_ne hne _ _
  have hhere : ((s.put b buffer).setVec v ⟨none, 0⟩).heap b = buffer := Function.update_self ..
  have hvecs : ∀ w, w ≠ v → ((s.put b buffer).setVec v ⟨none, 0⟩).vecs w = s.vecs w :=
    fun w hw => Function.update_of_ne hw _ _
  -- the buffer has another owner
  have hstill : ∀ w, w ≠ v → (s.vecs w).mStorage = some b → buffer.mRefs ≠ 0 := by
    intro w hw hb hzero
    have hin : w ∈ (s.owners b).erase v := Finset.mem_erase.mpr ⟨hw, mem_owners.mpr hb⟩
    rw [Finset.card_eq_zero.mp (hcard.trans hzero)] at hin
    exact absurd hin (Finset.notMem_empty w)
  have htight : ∀ w, w ≠ v →
      ((s.put b buffer).setVec v ⟨none, 0⟩).Tight (Function.update full b P) w := by
    intro w hw
    refine (h.tight w).frame (hvecs w hw) fun b' hb' => ?_
    by_cases heq : b' = b
    · subst heq
      rw [Function.update_self]
      exact (hshared (hstill w hw hb')).2
    · rw [Function.update_of_ne heq]
  refine ⟨⟨h.accounts.change b hheap (fun b' hne => Function.update_of_ne hne _ _)
    (fun b' hne => (howners b').trans (hothers b' hne)) le_rfl ?_ (fun hsome => ?_) ?_
    fun hno => ?_, fun w => ?_⟩, htight, fun w hw => ?_, hvecs⟩
  · rw [hhere, howners, hcard]
  · obtain ⟨w, hin⟩ := hsome
    rw [howners] at hin
    rw [hhere]
    exact ⟨(h.accounts.alive b v (mem_owners.mpr hv)).1, hfreed (hstill w
      (Finset.ne_of_mem_erase hin) (mem_owners.mp (Finset.mem_of_mem_erase hin)))⟩
  · rw [hhere, Function.update_self]
    exact hstocked
  · rw [Function.update_self]
    rw [howners] at hno
    exact hempty (by rw [← hcard, hno, Finset.card_empty])
  · by_cases heq : w = v
    · subst heq
      have hnone : ((s.put b buffer).setVec w ⟨none, 0⟩).vecs w = ⟨none, 0⟩ :=
        Function.update_self ..
      refine ⟨fun b' hb' => ?_, fun _ => ?_⟩
      · rw [hnone] at hb'
        cases hb'
      · rw [hnone]
    · exact htight w heq
  · refine contents_frame (hvecs w hw) fun b' hb' => ?_
    by_cases heq : b' = b
    · subst heq
      rw [hhere]
      exact (hshared (hstill w hw hb')).1
    · rw [hheap b' heq]

/-- `release_storage`, with the fields of the vector reset behind it. -/
theorem Sound.releaseStorage (h : Sound t s full) (v : ι) :
    ∃ s' full', s.releaseStorage t v = some s' ∧ s'.vecs = s.vecs ∧ s'.next = s.next ∧
      Sound t (s'.setVec v ⟨none, 0⟩) full' ∧
      Frame s (s'.setVec v ⟨none, 0⟩) full' v := by
  cases hv : (s.vecs v).mStorage with
  | none =>
      have hself : s.setVec v ⟨none, 0⟩ = s := by
        rw [setVec, ← h.vec_eq hv, Function.update_eq_self]
      refine ⟨s, full, ?_, rfl, rfl, hself.symm ▸ h, ?_⟩
      · rw [Vectors.releaseStorage, hv]
      · rw [hself]
        exact ⟨fun w _ => h.tight w, fun _ _ => rfl, fun _ _ => rfl⟩
  | some b =>
      by_cases hrefs : (s.heap b).mRefs = 1
      · -- the last owner, so that the items of the vector are all there are
        have hcount := h.count_le hv
        have hfit : 0 + (s.vecs v).mCount ≤ (s.heap b).mSize := by omega
        obtain ⟨items, hdestroy, hitems⟩ := (h.stocked hv).doDestroy hfit fun i _ hi => by omega
        have hnone : ∀ i, ¬ (i < (s.vecs v).mCount ∧ ¬ (0 ≤ i ∧ i < 0 + (s.vecs v).mCount)) :=
          fun i => by omega
        have hleak : t.trivialDtor ∨ ∀ i < (s.heap b).mSize, (items i).live = false := by
          cases htrivial : t.trivialDtor with
          | true => exact Or.inl rfl
          | false =>
              refine Or.inr fun i _ => ?_
              have hgone := hitems.gone htrivial i (hnone i)
              simp [Slot.live, hgone]
        have hreset := h.reset hv ⟨0, (s.heap b).mSize, items, true⟩ (fun _ => False) hrefs.symm
          (fun hno => absurd rfl hno) (hitems.congr (fun i => (iff_false_intro (hnone i)).symm)
            fun _ hi => hi.elim) (fun _ _ hi => hi) fun hno => absurd rfl hno
        refine ⟨s.put b ⟨0, (s.heap b).mSize, items, true⟩, _, ?_, rfl, rfl, hreset⟩
        rw [Vectors.releaseStorage, hv]
        dsimp only
        rw [h.freed hv, if_neg Bool.false_ne_true, if_pos hrefs, hdestroy]
        exact if_pos hleak
      · have hpos : (s.heap b).mRefs ≠ 0 := by
          rw [h.accounts.refs b]
          exact Finset.card_ne_zero_of_mem (mem_owners.mpr hv)
        have hreset := h.reset hv { s.heap b with mRefs := (s.heap b).mRefs - 1 }
          (full b) (by dsimp only; omega) (fun _ => h.freed hv) (h.accounts.stocked b)
          (fun hzero => by dsimp only at hzero; omega) fun _ => ⟨rfl, rfl⟩
        refine ⟨s.put b { s.heap b with mRefs := (s.heap b).mRefs - 1 }, _, ?_, rfl, rfl, hreset⟩
        rw [Vectors.releaseStorage, hv]
        dsimp only
        rw [h.freed hv, if_neg Bool.false_ne_true, if_neg hrefs]

/-- The count of the vector is changed. -/
theorem Prepared.setCount (h : Prepared t s s' v k size P f) (k' : Nat) :
    Prepared t s (s'.setCount v k') v k' size P f := by
  obtain ⟨full', b, h⟩ := h
  have hvecs : ∀ w, w ≠ v → (s'.setCount v k').vecs w = s'.vecs w := fun w hw =>
    Function.update_of_ne hw _ _
  have hvec : (s'.setCount v k').vecs v = ⟨some b, k'⟩ := by
    rw [Vectors.setCount, setVec]
    dsimp only
    rw [Function.update_self, h.vec]
  have howners : ∀ b', (s'.setCount v k').owners b' = s'.owners b' := by
    intro b'
    ext w
    rw [mem_owners, mem_owners]
    by_cases hw : w = v
    · subst hw
      rw [hvec, h.vec]
    · rw [hvecs w hw]
  refine ⟨full', b, ⟨⟨fun b' => ?_, fun b' w hw => ?_, h.accounts.stocked, fun b' hno => ?_⟩,
    ⟨fun w hw => ?_, fun w hw => ?_, fun w hw => ?_⟩, hvec, ?_, h.size_eq, h.full_eq,
    h.stocked⟩⟩
  · rw [howners]
    exact h.accounts.refs b'
  · rw [howners] at hw
    exact h.accounts.alive b' w hw
  · rw [howners] at hno
    exact h.accounts.empty b' hno
  · exact (h.frame.tight w hw).frame (hvecs w hw) fun _ _ => rfl
  · exact Eq.trans (contents_frame (hvecs w hw) fun _ _ => rfl) (h.frame.same w hw)
  · exact (hvecs w hw).trans (h.frame.vecs w hw)
  · rw [howners]
    exact h.only

/-- New storage takes the place of the storage that has been released. -/
theorem Sound.install (h : Sound t s full) {m : Vectors ι α}
    (hm : s.releaseStorage t v = some m) (hitems : Stocked t size items P f) :
    Prepared t s (m.install v size items) v (s.vecs v).mCount size P f := by
  obtain ⟨m', full', hrelease, hvecs, hnext, hsound, hframe⟩ := h.releaseStorage v
  obtain rfl := Option.some.inj (hrelease.symm.trans hm)
  have hlt : ∀ w b, ((m'.setVec v ⟨none, 0⟩).vecs w).mStorage = some b → b < m'.next :=
    fun w b hb => (hsound.accounts.alive b w (mem_owners.mpr hb)).1
  have hvec : (m'.install v size items).vecs v = ⟨some m'.next, (s.vecs v).mCount⟩ := by
    rw [Vectors.install]
    dsimp only
    rw [Function.update_self, hvecs]
  have hsame : ∀ w, w ≠ v →
      (m'.install v size items).vecs w = (m'.setVec v ⟨none, 0⟩).vecs w := fun w hw => by
    rw [Vectors.install, setVec]
    dsimp only
    rw [Function.update_of_ne hw, Function.update_of_ne hw]
  have hheap : ∀ b ≠ m'.next, (m'.install v size items).heap b =
      (m'.setVec v ⟨none, 0⟩).heap b := fun b hne => Function.update_of_ne hne _ _
  have hhere : (m'.install v size items).heap m'.next = ⟨1, size, items, false⟩ :=
    Function.update_self ..
  have hnone : (m'.setVec v ⟨none, 0⟩).vecs v = ⟨none, 0⟩ := Function.update_self ..
  -- a buffer that is allocated now had no owner before
  have honly : (m'.install v size items).owners m'.next = {v} := by
    ext w
    rw [mem_owners, Finset.mem_singleton]
    by_cases hw : w = v
    · subst hw
      rw [hvec]
      exact iff_of_true rfl rfl
    · rw [hsame w hw]
      exact iff_of_false (fun hb => lt_irrefl _ (hlt w _ hb)) hw
  have howners : ∀ b ≠ m'.next, (m'.install v size items).owners b =
      (m'.setVec v ⟨none, 0⟩).owners b := by
    intro b hne
    ext w
    rw [mem_owners, mem_owners]
    by_cases hw : w = v
    · subst hw
      rw [hvec, hnone]
      exact iff_of_false (fun hb => hne (Option.some.inj hb).symm) fun hb => by cases hb
    · rw [hsame w hw]
  refine ⟨Function.update full' m'.next P, m'.next,
    hsound.accounts.change m'.next hheap (fun b hne => Function.update_of_ne hne _ _) howners
      (Nat.le_succ _) ?_ (fun _ => ?_) ?_ fun hno => ?_,
    ⟨fun w hw => ?_, fun w hw => ?_, fun w hw => ?_⟩, hvec, honly, ?_,
    Function.update_self .., ?_⟩
  · rw [hhere, honly, Finset.card_singleton]
  · rw [hhere]
    exact ⟨Nat.lt_succ_self _, rfl⟩
  · rw [hhere, Function.update_self]
    exact hitems.congr (fun _ => Iff.rfl) fun i hi => hitems.val i hi
  · rw [honly] at hno
    exact absurd hno (Finset.singleton_ne_empty v)
  · refine (hframe.tight w hw).frame (hsame w hw) fun b hb => ?_
    exact Function.update_of_ne (hlt w b hb).ne _ _
  · refine Eq.trans (contents_frame (hsame w hw) fun b hb => ?_) (hframe.same w hw)
    rw [hheap b (hlt w b hb).ne]
  · exact (hsame w hw).trans (hframe.vecs w hw)
  · rw [hhere]
  · rw [hhere]
    exact hitems

theorem Sound.rehouse (h : Sound t s full) {parts : List (Nat × Nat × Nat)}
    (hcopies : s.copiesOf t v size parts = some items) (hitems : Stocked t size items P f) :
    ∃ s', s.rehouse t v size parts = some s' ∧
      Prepared t s s' v (s.vecs v).mCount size P f := by
  obtain ⟨m, _, hrelease, _⟩ := h.releaseStorage v
  refine ⟨m.install v size items, ?_, h.install hrelease hitems⟩
  rw [Vectors.rehouse, hcopies, Option.bind_some, hrelease]
  rfl

/-- Copies of all items are made. -/
theorem Sound.rehouseAll (h : Sound t s full) (v : ι) (hsize : (s.vecs v).mCount ≤ size) :
    ∃ s', s.rehouse t v size [(0, 0, (s.vecs v).mCount)] = some s' ∧
      Prepared t s s' v (s.vecs v).mCount size (fun i => i < (s.vecs v).mCount)
        (s.valAt v) := by
  cases hv : (s.vecs v).mStorage with
  | none =>
      have hcopies : s.copiesOf t v size [(0, 0, (s.vecs v).mCount)] =
          some fun _ => Slot.raw := by
        rw [copiesOf, hv]
      refine h.rehouse hcopies ((Stocked.raw t size (s.valAt v)).congr (fun i => ?_)
        fun _ _ => rfl)
      rw [(h.tight v).none hv]
      exact iff_of_false (Nat.not_lt_zero i) not_false
  | some b =>
      have hcount := h.count_le hv
      have hfit : 0 + (s.vecs v).mCount ≤ size := by omega
      have hthere : ∀ i, i < (s.vecs v).mCount → 0 + i < (s.vecs v).mCount := fun i hi => by
        omega
      obtain ⟨items, hcopy, hitems⟩ := (Stocked.raw t size fun _ => none).doCopy (h.stocked hv)
        hfit (fun _ _ _ hno => hno) hthere (by omega)
      have hcopies : s.copiesOf t v size [(0, 0, (s.vecs v).mCount)] = some items := by
        rw [copiesOf, hv]
        dsimp only
        rw [h.freed hv, if_neg Bool.false_ne_true, copyParts, hcopy]
        rfl
      refine h.rehouse hcopies (hitems.congr (fun i => ?_) fun i hi => ?_)
      · simp
      · rw [if_pos (by omega), Nat.sub_zero, Nat.zero_add]

/-- `editArrayImpl` on a vector with storage. -/
theorem Sound.editArrayImpl (h : Sound t s full) (hv : (s.vecs v).mStorage = some b) :
    ∃ s', s.editArrayImpl t v = some s' ∧
      Prepared t s s' v (s.vecs v).mCount (s.capacity v) (fun i => i < (s.vecs v).mCount)
        (s.valAt v) := by
  have hcapacity : s.capacity v = (s.heap b).mSize := by
    rw [capacity, hv]
    rfl
  by_cases hrefs : (s.heap b).mRefs = 1
  · refine ⟨s, ?_, ?_⟩
    · rw [Vectors.editArrayImpl, hv]
      exact if_pos hrefs
    · rw [hcapacity]
      exact h.prepared hv hrefs
  · have hfit : (s.vecs v).mCount ≤ s.capacity v := hcapacity.symm ▸ h.count_le hv
    obtain ⟨s', hrehouse, hprepared⟩ := h.rehouseAll v hfit
    refine ⟨s', ?_, hprepared⟩
    rw [Vectors.editArrayImpl, hv]
    dsimp only
    rw [if_neg hrefs]
    exact hrehouse

/-- `editResize` on a vector with storage, for types without constructors and destructors. -/
theorem Sound.editResize (h : Sound t s full) (hv : (s.vecs v).mStorage = some b)
    (htrivial : t.trivialDtor = true) {newSize : Nat}
    (hfit : ∀ i, P i → i < (s.vecs v).mCount ∧ i < newSize) :
    ∃ s', s.editResize v newSize = some s' ∧
      Prepared t s s' v (s.vecs v).mCount newSize P (s.valAt v) := by
  have hpart : Stocked t (s.heap b).mSize (s.heap b).items P (s.valAt v) :=
    (h.stocked hv).part htrivial fun i hi => (hfit i hi).1
  have hkept := hpart.kept htrivial fun i hi => (hfit i hi).2
  rw [Vectors.editResize, hv]
  dsimp only
  rw [h.freed hv, if_neg Bool.false_ne_true]
  by_cases hrefs : (s.heap b).mRefs = 1
  · rw [if_pos hrefs]
    obtain ⟨full', b', hholds⟩ := h.prepared hv hrefs
    have hsame : b' = b := by
      have hb' := congrArg VectorImpl.mStorage hholds.vec
      rw [hv] at hb'
      exact (Option.some.inj hb').symm
    subst hsame
    split
    · -- the items that the vector gives up need no destructor
      rename_i hsize
      subst hsize
      refine ⟨s, rfl, Function.update full' b' P, b', ?_⟩
      have hput : s.put b' (s.heap b') = s := by
        rw [put, Function.update_eq_self]
      have hagain := hholds.put (s.heap b') hrefs (h.freed hv) hpart
      rwa [hput] at hagain
    · exact ⟨_, rfl, Function.update full' b' P, b', hholds.put _ hrefs rfl hkept⟩
  · rw [if_neg hrefs]
    refine ⟨_, rfl, h.install ?_ hkept⟩
    rw [Vectors.releaseStorage, hv]
    dsimp only
    rw [h.freed hv, if_neg Bool.false_ne_true, if_neg hrefs]

/-- The copy constructor on a vector that has been finished. -/
theorem Sound.copyConstruct (h : Sound t s full) (hv : s.vecs v = ⟨none, 0⟩) (rhs : ι) :
    Sound t (s.copyConstruct v rhs) full ∧
      (∀ w, w ≠ v → (s.copyConstruct v rhs).contents w = s.contents w) ∧
      (s.copyConstruct v rhs).contents v = s.contents rhs := by
  cases hrhs : (s.vecs rhs).mStorage with
  | none =>
      -- an empty vector is shared without a count
      have hself : s.copyConstruct v rhs = s := by
        rw [Vectors.copyConstruct, hrhs]
        dsimp only
        rw [h.vec_eq hrhs, setVec, ← hv, Function.update_eq_self]
      rw [hself]
      refine ⟨h, fun _ _ => rfl, ?_⟩
      rw [contents, contents, hv, h.vec_eq hrhs]
      rfl
  | some b =>
      have hcopy : s.copyConstruct v rhs =
          (s.put b { s.heap b with mRefs := (s.heap b).mRefs + 1 }).setVec v (s.vecs rhs) := by
        rw [Vectors.copyConstruct, hrhs]
      have hvec : (s.copyConstruct v rhs).vecs v = s.vecs rhs := by
        rw [hcopy]
        exact Function.update_self ..
      have hvecs : ∀ w, w ≠ v → (s.copyConstruct v rhs).vecs w = s.vecs w := fun w hw => by
        rw [hcopy]
        exact Function.update_of_ne hw _ _
      have hheap : ∀ b' ≠ b, (s.copyConstruct v rhs).heap b' = s.heap b' := fun b' hb' => by
        rw [hcopy]
        exact Function.update_of_ne hb' _ _
      have hhere : (s.copyConstruct v rhs).heap b =
          { s.heap b with mRefs := (s.heap b).mRefs + 1 } := by
        rw [hcopy]
        exact Function.update_self ..
      have hitems : ∀ b', ((s.copyConstruct v rhs).heap b').items = (s.heap b').items := by
        intro b'
        by_cases heq : b' = b
        · rw [heq, hhere]
        · rw [hheap b' heq]
      -- `v` owns nothing yet, so the storage gets one owner more
      have hnot : ∀ b', v ∉ s.owners b' := fun b' hin => by
        have hb' := mem_owners.mp hin
        rw [hv] at hb'
        cases hb'
      have howners : ∀ b' ≠ b, (s.copyConstruct v rhs).owners b' = s.owners b' := by
        intro b' hb'
        rw [hcopy, owners_setVec, hrhs, if_neg fun heq => hb' (Option.some.inj heq).symm]
        exact Finset.erase_eq_of_notMem (hnot b')
      have hinsert : (s.copyConstruct v rhs).owners b = insert v (s.owners b) := by
        rw [hcopy, owners_setVec, if_pos hrhs]
        rfl
      refine ⟨⟨h.accounts.change b hheap (fun _ _ => rfl) howners ?_ ?_ (fun _ => ?_) ?_
        fun hno => ?_, fun w => ?_⟩, fun w hw => contents_frame (hvecs w hw) fun b' _ =>
          hitems b', ?_⟩
      · rw [hcopy]
        exact le_rfl
      · rw [hhere, hinsert, Finset.card_insert_of_notMem (hnot b), ← h.accounts.refs b]
      · rw [hhere, hcopy]
        exact h.accounts.alive b rhs (mem_owners.mpr hrhs)
      · rw [hhere]
        exact h.accounts.stocked b
      · rw [hinsert] at hno
        exact absurd hno (Finset.insert_ne_empty v _)
      · by_cases hw : w = v
        · subst hw
          refine ⟨fun b' hb' i => ?_, fun hb' => ?_⟩
          · rw [hvec] at hb' ⊢
            exact (h.tight rhs).items b' hb' i
          · rw [hvec, hrhs] at hb'
            cases hb'
        · exact (h.tight w).frame (hvecs w hw) fun _ _ => rfl
      · unfold contents
        rw [hvec]
        refine List.map_congr_left fun i _ => ?_
        rw [valAt, valAt, hvec, hrhs]
        exact congrArg (fun items => (items i).val) (hitems b)

end Vectors
end Utils
end AndroidLinux
