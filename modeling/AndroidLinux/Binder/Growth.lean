import AndroidLinux.Binder.ParcelRead

/-!
# Growing a Parcel

What a write finds in front of it: `ensure_cases` says that the buffer has room for it now,
in the same place or in a larger block with the same data and objects (`Prepared`), or
that nothing but the error and the answers has changed (`Failed`), or that `growData` has
given up because the new size does not exceed the old one.

The loops over objects change nothing but what the process holds for the Parcel, and each
of them adds or takes away one resource for each object.
-/

namespace AndroidLinux
namespace Binder

open Lib

namespace Parcel

variable {p q : Parcel}

theorem noMemory_ne : noMemory ≠ noError := by decide

/-! ## Loops over objects -/

/-- Only the held resources and the record of stray accesses are changed. -/
def Framed (p q : Parcel) : Prop :=
  q = { p with proc := { p.proc with held := q.proc.held, strayed := q.proc.strayed } }

theorem Framed.refl (p : Parcel) : Framed p p :=
  rfl

theorem Framed.trans {r : Parcel} (h : Framed p q) (h' : Framed q r) : Framed p r := by
  unfold Framed at h h' ⊢
  rw [h', h]

theorem framed_touch (p : Parcel) (limit off : UInt32) (n : Nat) :
    Framed p (p.touch limit off n) := by
  unfold touch
  split
  · exact .refl p
  · rfl

theorem framed_hold (p : Parcel) (r : Resource) : Framed p (p.hold r) :=
  rfl

theorem framed_drop (p : Parcel) (r : Resource) : Framed p (p.drop r) :=
  rfl

theorem framed_elim {f : Resource → Parcel} (hf : ∀ r, Framed p (f r)) (o : Option Resource) :
    Framed p (o.elim p f) := by
  cases o with
  | none => exact .refl p
  | some r => exact hf r

/-- The descriptor of an object. -/
def FlatBinderObject.fdOf (o : FlatBinderObject) : Option Resource :=
  if o.type = binderTypeFd then some (.fd o.handle) else none

/-- What `release_object` gives back for an object. -/
def FlatBinderObject.owned (o : FlatBinderObject) (proxy : UInt32 → Bool) : Option Resource :=
  if o.type = binderTypeFd then if o.cookie ≠ 0 then some (.fd o.handle) else none
  else o.ref proxy

theorem releaseObject_eq (o : FlatBinderObject) (p : Parcel) :
    releaseObject o p = (FlatBinderObject.owned o p.proc.answers.proxy).elim p p.drop := by
  unfold releaseObject FlatBinderObject.owned
  by_cases hfd : o.type = binderTypeFd
  · by_cases hcookie : o.cookie ≠ 0 <;> simp [hfd, hcookie]
  · simp [hfd]

theorem closeObject_eq (o : FlatBinderObject) (p : Parcel) :
    closeObject o p = (FlatBinderObject.fdOf o).elim p p.drop := by
  unfold closeObject FlatBinderObject.fdOf
  split <;> rfl

theorem framed_acquireObject (o : FlatBinderObject) (p : Parcel) :
    Framed p (acquireObject o p) :=
  framed_elim (framed_hold p) _

theorem framed_releaseObject (o : FlatBinderObject) (p : Parcel) :
    Framed p (releaseObject o p) := by
  rw [releaseObject_eq]
  exact framed_elim (framed_drop p) _

theorem framed_closeObject (o : FlatBinderObject) (p : Parcel) : Framed p (closeObject o p) := by
  rw [closeObject_eq]
  exact framed_elim (framed_drop p) _

theorem framed_forObjects {f : FlatBinderObject → Parcel → Parcel}
    (hf : ∀ o p, Framed p (f o p)) (offs : List UInt32) (p : Parcel) :
    Framed p (forObjects f offs p) := by
  induction offs generalizing p with
  | nil => exact .refl p
  | cons off offs ih =>
      exact ((framed_touch p _ off 16).trans (hf _ _)).trans (ih _)

/-- How many of the objects have the resource `x`, as `g` reads it off. -/
def amount (p : Parcel) (g : FlatBinderObject → Option Resource) (offs : List UInt32)
    (x : Resource) : Int :=
  (offs.map fun off => if g (p.flatAt off) = some x then 1 else 0).sum

theorem Framed.amount (h : Framed p q) : q.amount = p.amount := by
  unfold Parcel.amount flatAt
  rw [h]

theorem held_touch (p : Parcel) (limit off : UInt32) (n : Nat) :
    (p.touch limit off n).proc.held = p.proc.held := by
  unfold touch
  split <;> rfl

theorem held_elim_hold (p : Parcel) (o : Option Resource) (x : Resource) :
    (o.elim p p.hold).proc.held x = p.proc.held x + 1 * if o = some x then 1 else 0 := by
  cases o with
  | none => simp
  | some r =>
      by_cases hx : r = x
      · simp [hold, hx]
      · simp [hold, hx, Function.update_of_ne (Ne.symm hx)]

theorem held_elim_drop (p : Parcel) (o : Option Resource) (x : Resource) :
    (o.elim p p.drop).proc.held x = p.proc.held x + -1 * if o = some x then 1 else 0 := by
  cases o with
  | none => simp
  | some r =>
      by_cases hx : r = x
      · simp [drop, hx, sub_eq_add_neg]
      · simp [drop, hx, Function.update_of_ne (Ne.symm hx)]

/-- A loop that takes or gives back one resource for each object. -/
theorem held_forObjects {f : FlatBinderObject → Parcel → Parcel} {c : Int}
    {g : (UInt32 → Bool) → FlatBinderObject → Option Resource}
    (hf : ∀ o p x, (f o p).proc.held x =
      p.proc.held x + c * if g p.proc.answers.proxy o = some x then 1 else 0)
    (hframe : ∀ o p, Framed p (f o p)) (offs : List UInt32) (p : Parcel) (x : Resource) :
    (forObjects f offs p).proc.held x =
      p.proc.held x + c * p.amount (g p.proc.answers.proxy) offs x := by
  induction offs generalizing p with
  | nil => simp [forObjects, amount]
  | cons off offs ih =>
      have htouch := framed_touch p p.mDataCapacity off 16
      have hstep : Framed p (f (p.flatAt off) (p.touch p.mDataCapacity off 16)) :=
        htouch.trans (hframe _ _)
      have hrest := ih (f (p.flatAt off) (p.touch p.mDataCapacity off 16))
      have hproxy : (f (p.flatAt off) (p.touch p.mDataCapacity off 16)).proc.answers =
          p.proc.answers := by rw [hstep]
      have htouched : (p.touch p.mDataCapacity off 16).proc.answers = p.proc.answers := by
        rw [htouch]
      rw [hproxy, hstep.amount, hf, held_touch, htouched] at hrest
      refine hrest.trans ?_
      simp only [amount, List.map_cons, List.sum_cons]
      ring

theorem held_acquireObjects (offs : List UInt32) (p : Parcel) (x : Resource) :
    (forObjects acquireObject offs p).proc.held x =
      p.proc.held x + 1 * p.amount (·.ref p.proc.answers.proxy) offs x :=
  held_forObjects (g := fun proxy o => o.ref proxy)
    (fun o p => held_elim_hold p (o.ref p.proc.answers.proxy)) framed_acquireObject offs p x

theorem held_closeObjects (offs : List UInt32) (p : Parcel) (x : Resource) :
    (forObjects closeObject offs p).proc.held x =
      p.proc.held x + -1 * p.amount FlatBinderObject.fdOf offs x := by
  refine held_forObjects (g := fun _ o => FlatBinderObject.fdOf o) (fun o p x => ?_)
    framed_closeObject offs p x
  rw [closeObject_eq]
  exact held_elim_drop p _ x

/-- All bytes of the objects may be used. -/
def ObjectsInside (p : Parcel) (offs : List UInt32) : Prop :=
  ∀ off ∈ offs, off.toNat + 16 ≤ min p.mDataCapacity.toNat p.extent.toNat

theorem touch_eq_self {limit off : UInt32} {n : Nat}
    (h : off.toNat + n ≤ min limit.toNat p.extent.toNat) : p.touch limit off n = p :=
  if_pos (.inr h)

theorem strayed_forObjects {f : FlatBinderObject → Parcel → Parcel}
    (hf : ∀ o p, (f o p).proc.strayed = p.proc.strayed)
    (hframe : ∀ o p, Framed p (f o p)) {offs : List UInt32} (hin : p.ObjectsInside offs) :
    (forObjects f offs p).proc.strayed = p.proc.strayed := by
  induction offs generalizing p with
  | nil => rfl
  | cons off offs ih =>
      have htouch : p.touch p.mDataCapacity off 16 = p :=
        touch_eq_self (hin off List.mem_cons_self)
      have hstep := hframe (p.flatAt off) p
      have hinside : (f (p.flatAt off) p).ObjectsInside offs := by
        intro x hx
        rw [hstep]
        exact hin x (List.mem_cons_of_mem off hx)
      have hrest := ih hinside
      rw [hf] at hrest
      have hcons : forObjects f (off :: offs) p =
          forObjects f offs (f (p.flatAt off) (p.touch p.mDataCapacity off 16)) := rfl
      rw [hcons, htouch]
      exact hrest

theorem strayed_elim {f : Resource → Parcel} (hf : ∀ r, (f r).proc.strayed = p.proc.strayed)
    (o : Option Resource) : (o.elim p f).proc.strayed = p.proc.strayed := by
  cases o with
  | none => rfl
  | some r => exact hf r

theorem strayed_acquireObject (o : FlatBinderObject) (p : Parcel) :
    (acquireObject o p).proc.strayed = p.proc.strayed :=
  strayed_elim (f := p.hold) (fun _ => rfl) _

theorem strayed_closeObject (o : FlatBinderObject) (p : Parcel) :
    (closeObject o p).proc.strayed = p.proc.strayed := by
  rw [closeObject_eq]
  exact strayed_elim (f := p.drop) (fun _ => rfl) _

/-! ## The buffer -/

/-- Where the next write goes: the first data is put at the start. -/
def start (p : Parcel) : UInt32 := if p.mData then p.mDataPos else 0

/-- The fields of a Parcel fit together. -/
structure Sound (p : Parcel) : Prop where
  fits : p.mDataSize.toNat ≤ p.mDataCapacity.toNat
  extent : p.extent = p.mDataCapacity
  null : p.mData = false → p.mDataCapacity = 0 ∧ p.mOwner = false

theorem Sound.size_null (h : p.Sound) (hnull : p.mData = false) : p.mDataSize.toNat = 0 := by
  have hfits := h.fits
  rw [(h.null hnull).1] at hfits
  exact Nat.le_zero.mp hfits

theorem Sound.mData_of_cap (h : p.Sound) (hcap : 0 < p.mDataCapacity.toNat) : p.mData = true := by
  cases hnull : p.mData with
  | true => rfl
  | false =>
      rw [(h.null hnull).1] at hcap
      exact absurd hcap (Nat.lt_irrefl 0)

theorem Sound.mData_of_owner (h : p.Sound) (howner : p.mOwner = true) : p.mData = true := by
  cases hnull : p.mData with
  | true => rfl
  | false =>
      rw [(h.null hnull).2] at howner
      cases howner

theorem start_eq (hdata : p.mData = true) : p.start = p.mDataPos :=
  if_pos hdata

/-- The answers that are left when `p` has grown. -/
def grownAnswers (p : Parcel) : Answers :=
  { p.proc.answers with
    data := fun k => p.proc.answers.data (k + 1)
    newTable :=
      if p.mOwner ∧ p.mObjects ≠ [] then fun k => p.proc.answers.newTable (k + 1)
      else p.proc.answers.newTable }

/-- What taking possession of a received buffer adds to the held resources: references to
the objects, while the descriptors are closed. -/
def possession (p : Parcel) (x : Resource) : Int :=
  p.amount (·.ref p.proc.answers.proxy) p.mObjects x -
    p.amount FlatBinderObject.fdOf p.mObjects x

/-- An allocation that growing needs is refused. -/
def Refused (p : Parcel) : Prop :=
  p.proc.answers.data 0 = none ∨
    p.mOwner = true ∧ p.mObjects ≠ [] ∧ p.proc.answers.newTable 0 = false

/-- The buffer of `q` is a larger one with the data and the objects of `p`. -/
structure Grown (p q : Parcel) (desired : UInt32) : Prop where
  granted : ¬ p.Refused
  mError : q.mError = p.mError
  mData : q.mData = true
  size : q.mDataSize = p.mDataSize
  pos : q.mDataPos = p.start
  cap : q.mDataCapacity = desired
  extent : q.extent = desired
  load : ∀ (off : UInt32) (n : Nat), off.toNat + n ≤ p.mDataSize.toNat →
    q.bytes.load off n = p.bytes.load off n
  mObjects : q.mObjects = p.mObjects
  objectsCapacity : q.mObjectsCapacity =
    if p.mOwner then UInt32.ofNat p.mObjects.length else p.mObjectsCapacity
  objectsExtent : q.objectsExtent = if p.mOwner then p.mObjects.length else p.objectsExtent
  allow : q.mAllowFds = p.mAllowFds
  owner : q.mOwner = false
  answers : q.proc.answers = p.grownAnswers
  tableStrayed : q.proc.tableStrayed = p.proc.tableStrayed
  strayed : (p.mOwner = true → p.ObjectsInside p.mObjects) → q.proc.strayed = p.proc.strayed
  held : ∀ x, q.proc.held x = p.proc.held x + if p.mOwner then p.possession x else 0

/-- An allocation has failed, and nothing else has happened. -/
def Failed (p q : Parcel) : Prop :=
  ∃ data newTable, q = { p with
    mError := noMemory
    proc.answers := { p.proc.answers with data := data, newTable := newTable } }

theorem not_refused_of_some (howner : p.mOwner = false) {block : Mem}
    (hanswer : p.proc.answers.data 0 = some block) : ¬ p.Refused := by
  rintro (hnone | ⟨hreceived, -⟩)
  · rw [hanswer] at hnone
    cases hnone
  · rw [howner] at hreceived
    cases hreceived

theorem keptObjects_of_le {desired : UInt32} (h : p.mDataSize ≤ desired) :
    p.keptObjects desired = p.mObjects := by
  unfold keptObjects
  rw [if_neg (UInt32.not_lt.mpr h)]

theorem amount_reverse (p : Parcel) (g : FlatBinderObject → Option Resource) (offs : List UInt32)
    (x : Resource) : p.amount g offs.reverse x = p.amount g offs x := by
  unfold amount
  rw [List.map_reverse, List.sum_reverse]

/-- The loops of `continueWrite` over a received buffer, of which `kept` are acquired. -/
theorem possession_loops (p : Parcel) (kept : List UInt32) :
    Framed p (forObjects acquireObject kept.reverse p).freeBuffer ∧
      (∀ x, (forObjects acquireObject kept.reverse p).freeBuffer.proc.held x =
        p.proc.held x + (p.amount (·.ref p.proc.answers.proxy) kept x -
          p.amount FlatBinderObject.fdOf p.mObjects x)) ∧
      (p.ObjectsInside kept → p.ObjectsInside p.mObjects →
        (forObjects acquireObject kept.reverse p).freeBuffer.proc.strayed = p.proc.strayed) := by
  have hacquire := framed_forObjects framed_acquireObject kept.reverse p
  have hobjects : (forObjects acquireObject kept.reverse p).mObjects = p.mObjects := by
    rw [hacquire]
  unfold freeBuffer closeFileDescriptors
  rw [hobjects]
  refine ⟨hacquire.trans (framed_forObjects framed_closeObject _ _), fun x => ?_, ?_⟩
  · rw [held_closeObjects, held_acquireObjects, hacquire.amount, amount_reverse, amount_reverse]
    ring
  · intro hkept hall
    rw [strayed_forObjects strayed_closeObject framed_closeObject]
    · exact strayed_forObjects strayed_acquireObject framed_acquireObject
        (fun off hoff => hkept off (List.mem_reverse.mp hoff))
    · intro off hoff
      rw [hacquire]
      exact hall off (List.mem_reverse.mp hoff)

theorem takePossession_grown (hs : p.Sound) (howner : p.mOwner = true) {desired : UInt32}
    (hsize : p.mDataSize.toNat ≤ desired.toNat) (hgranted : ¬ p.Refused) (block : Mem)
    (hq : q = { p with proc.answers := p.grownAnswers }) :
    Grown p (q.takePossession desired p.mObjects block) desired := by
  have hdata := hs.mData_of_owner howner
  -- nothing is cut off
  have hmin : (if p.mDataSize < desired then p.mDataSize else desired) = p.mDataSize := by
    split
    · rfl
    · rename_i hlt
      rw [UInt32.lt_iff_toNat_lt] at hlt
      exact UInt32.toNat_inj.mp (by omega)
  have hamount : q.amount = p.amount := by
    rw [hq]
    rfl
  have hproxy : q.proc.answers.proxy = p.proc.answers.proxy := by
    rw [hq]
    rfl
  -- what the two loops do to the references, and that they leave the fields alone
  obtain ⟨hframe, hheld, hstrayed⟩ := possession_loops q p.mObjects
  have hqobjects : q.mObjects = p.mObjects := by rw [hq]
  rw [hamount, hproxy, hqobjects] at hheld
  rw [takePossession]
  generalize (forObjects acquireObject p.mObjects.reverse q).freeBuffer = r at *
  unfold Framed at hframe
  rw [hq] at hframe
  rw [show q.mData = p.mData by rw [hq], show q.bytes = p.bytes by rw [hq],
    show q.mDataSize = p.mDataSize by rw [hq], hmin]
  refine {
    granted := hgranted, mError := ?_, mData := rfl, size := rfl, pos := ?_, cap := rfl,
    extent := rfl, load := ?_,
    mObjects := rfl, objectsCapacity := (if_pos howner).symm,
    objectsExtent := (if_pos howner).symm, allow := ?_, owner := rfl, answers := ?_,
    tableStrayed := ?_, strayed := fun hin => ?_, held := fun x => ?_ }
  · rw [hframe]
  · rw [hframe, start_eq hdata]
  · intro off n hn
    have hlt := p.mDataSize.toNat_lt
    simp only [hdata, if_true]
    exact Mem.load_moveTo (by omega) (by omega)
  · rw [hframe]
  · rw [hframe]
  · rw [hframe]
  · have hinside : q.ObjectsInside p.mObjects := by
      rw [hq]
      exact hin howner
    exact (hstrayed hinside (by rw [hqobjects]; exact hinside)).trans (by rw [hq])
  · rw [if_pos howner, possession]
    exact (hheld x).trans (by rw [hq])

theorem continueReceived_cases (hs : p.Sound) (howner : p.mOwner = true) {desired : UInt32}
    (hsize : p.mDataSize.toNat < desired.toNat) :
    (∃ q, p.continueReceived desired p.mObjects = (noMemory, q) ∧ Failed p q ∧ p.Refused) ∨
      ∃ q, p.continueReceived desired p.mObjects = (noError, q) ∧ Grown p q desired := by
  have hdesired : desired ≠ 0 := by
    rintro rfl
    exact absurd hsize (Nat.not_lt_zero _)
  unfold continueReceived
  rw [if_neg hdesired]
  cases hanswer : p.proc.answers.data 0 with
  | none => exact .inl ⟨_, rfl, ⟨_, _, rfl⟩, .inl hanswer⟩
  | some block =>
      have hblock : ¬ p.proc.answers.data 0 = none := by
        rw [hanswer]
        exact Option.some_ne_none block
      by_cases hobjects : p.mObjects = []
      · have hgranted : ¬ p.Refused := by
          rintro (hnone | ⟨-, hne, -⟩)
          · exact hblock hnone
          · exact hne hobjects
        refine .inr ⟨_, if_pos hobjects, takePossession_grown hs howner hsize.le hgranted block ?_⟩
        simp [grownAnswers, hobjects, shiftData]
      · dsimp only
        rw [if_neg hobjects]
        cases htable : p.proc.answers.newTable 0 with
        | false => exact .inl ⟨_, rfl, ⟨_, _, rfl⟩, .inr ⟨howner, hobjects, htable⟩⟩
        | true =>
            have hgranted : ¬ p.Refused := by
              rintro (hnone | ⟨-, -, hfalse⟩)
              · exact hblock hnone
              · rw [htable] at hfalse
                cases hfalse
            refine .inr ⟨_, rfl, takePossession_grown hs howner hsize.le hgranted block ?_⟩
            simp [grownAnswers, hobjects, howner, shiftData, shiftNewTable]

theorem continueOwned_cases (hs : p.Sound) (howner : p.mOwner = false) (hdata : p.mData = true)
    {desired : UInt32} (hcap : p.mDataCapacity.toNat < desired.toNat) :
    (∃ q, p.continueOwned desired p.mObjects = (noMemory, q) ∧ Failed p q ∧ p.Refused) ∨
      ∃ q, p.continueOwned desired p.mObjects = (noError, q) ∧ Grown p q desired := by
  unfold continueOwned
  rw [if_neg (Nat.lt_irrefl _)]
  dsimp only
  rw [if_pos (UInt32.lt_iff_toNat_lt.mpr hcap)]
  cases hanswer : p.proc.answers.data 0 with
  | none => exact .inl ⟨_, rfl, ⟨_, _, rfl⟩, .inl hanswer⟩
  | some block =>
      refine .inr ⟨_, rfl, ?_⟩
      exact {
        granted := not_refused_of_some howner hanswer, mError := rfl, mData := hdata,
        size := rfl, pos := (start_eq hdata).symm, cap := rfl,
        extent := rfl, mObjects := rfl, allow := rfl, owner := howner, tableStrayed := rfl,
        objectsCapacity := by simp [shiftData, howner]
        objectsExtent := by simp [shiftData, howner]
        answers := by simp [grownAnswers, shiftData, howner]
        strayed := fun _ => rfl
        held := fun x => by simp [shiftData, howner]
        load := fun off n hn => by
          have hcaplt := p.mDataCapacity.toNat_lt
          have hfits := hs.fits
          exact Mem.load_moveTo (by omega) (by omega) }

theorem continueFirst_cases (hs : p.Sound) (hdata : p.mData = false) (desired : UInt32) :
    (∃ q, p.continueFirst desired = (noMemory, q) ∧ Failed p q ∧ p.Refused) ∨
      ∃ q, p.continueFirst desired = (noError, q) ∧ Grown p q desired := by
  have hzero := hs.size_null hdata
  have hsize : p.mDataSize = 0 := UInt32.toNat_inj.mp hzero
  have howner := (hs.null hdata).2
  unfold continueFirst
  cases hanswer : p.proc.answers.data 0 with
  | none => exact .inl ⟨_, rfl, ⟨_, _, rfl⟩, .inl hanswer⟩
  | some block =>
      refine .inr ⟨_, rfl, ?_⟩
      exact {
        granted := not_refused_of_some howner hanswer, mError := rfl, mData := rfl,
        size := hsize.symm, cap := rfl, extent := rfl,
        mObjects := rfl, allow := rfl, owner := howner, tableStrayed := rfl,
        pos := by simp [start, hdata]
        objectsCapacity := by simp [shiftData, howner]
        objectsExtent := by simp [shiftData, howner]
        answers := by simp [grownAnswers, shiftData, howner]
        strayed := fun _ => rfl
        held := fun x => by simp [shiftData, howner]
        load := fun off n hn => by
          obtain rfl : n = 0 := by omega
          rfl }

/-- `continueWrite` for more than there is room for. -/
theorem continueWrite_cases (hs : p.Sound) {desired : UInt32}
    (hcap : p.mDataCapacity.toNat < desired.toNat) :
    (∃ q, p.continueWrite desired = (noMemory, q) ∧ Failed p q ∧ p.Refused) ∨
      ∃ q, p.continueWrite desired = (noError, q) ∧ Grown p q desired := by
  have hfits := hs.fits
  have hsize : p.mDataSize.toNat < desired.toNat := by omega
  unfold continueWrite
  rw [keptObjects_of_le (UInt32.le_iff_toNat_le.mpr hsize.le)]
  cases howner : p.mOwner with
  | true => exact continueReceived_cases hs howner hsize
  | false =>
      cases hdata : p.mData with
      | true => exact continueOwned_cases hs howner hdata hcap
      | false => exact continueFirst_cases hs hdata desired

/-! ## Room for a write -/

theorem growSize_toNat {size len : UInt32} (h : (size.toNat + len.toNat) * 3 < 2 ^ 32) :
    (growSize size len).toNat = (size.toNat + len.toNat) * 3 / 2 := by
  have hsum : (size + len).toNat = size.toNat + len.toNat := by
    rw [UInt32.toNat_add]
    exact Nat.mod_eq_of_lt (by omega)
  rw [growSize, UInt32.toNat_div, UInt32.toNat_mul, hsum]
  exact congrArg (· / 2) (Nat.mod_eq_of_lt h)

/-- There is not enough room for `n` bytes at the position. -/
def Lacks (p : Parcel) (n : UInt32) : Prop :=
  p.mDataCapacity.toNat < p.mDataPos.toNat + n.toNat

instance (p : Parcel) (n : UInt32) : Decidable (p.Lacks n) :=
  inferInstanceAs (Decidable (_ < _))

/-- The end of a write of `n` bytes does not wrap, and if the buffer has to grow for it, the
size that `growData` computes from `mDataSize` does not exceed `mDataSize`, so that it
gives up, or reaches the end of the write. -/
structure Fits (p : Parcel) (n : UInt32) : Prop where
  noWrap : p.mDataPos.toNat + n.toNat < 2 ^ 32
  grows : p.Lacks n → growSize p.mDataSize n ≤ p.mDataSize ∨
    p.start.toNat + n.toNat ≤ (growSize p.mDataSize n).toNat

/-- `q` is `p` with room for `n` bytes at the position. -/
structure Prepared (p q : Parcel) (n : UInt32) : Prop extends Sound q where
  room : p.start.toNat + n.toNat ≤ q.mDataCapacity.toNat
  granted : p.Lacks n → ¬ p.Refused
  data : q.mData = (p.mData || p.Lacks n)
  pos : q.mDataPos = p.start
  size : q.mDataSize = p.mDataSize
  cap : q.mDataCapacity = if p.Lacks n then growSize p.mDataSize n else p.mDataCapacity
  load : ∀ (off : UInt32) (k : Nat), off.toNat + k ≤ p.mDataSize.toNat →
    q.bytes.load off k = p.bytes.load off k
  mError : q.mError = p.mError
  allow : q.mAllowFds = p.mAllowFds
  mObjects : q.mObjects = p.mObjects
  owner : q.mOwner = (p.mOwner && !p.Lacks n)
  objectsCapacity : q.mObjectsCapacity =
    if p.Lacks n ∧ p.mOwner = true then UInt32.ofNat p.mObjects.length else p.mObjectsCapacity
  objectsExtent : q.objectsExtent =
    if p.Lacks n ∧ p.mOwner = true then p.mObjects.length else p.objectsExtent
  answers : q.proc.answers = if p.Lacks n then p.grownAnswers else p.proc.answers
  tableStrayed : q.proc.tableStrayed = p.proc.tableStrayed
  strayed : (p.mOwner = true → p.ObjectsInside p.mObjects) → q.proc.strayed = p.proc.strayed
  held : ∀ x, q.proc.held x =
    p.proc.held x + if p.Lacks n ∧ p.mOwner = true then p.possession x else 0

theorem Prepared.mData {n : UInt32} (h : Prepared p q n) (hne : n ≠ 0) : q.mData = true := by
  have hroom := h.room
  have hpos : n.toNat ≠ 0 := fun hzero => hne (UInt32.toNat_inj.mp hzero)
  exact h.mData_of_cap (by omega)

/-- What `ensure` leaves behind. -/
inductive Ensured (p : Parcel) (n : UInt32) : Status × Parcel → Prop
  | ready {q : Parcel} (hprepared : Prepared p q n) : Ensured p n (noError, q)
  | failed {q : Parcel} (hlack : p.Lacks n) (hfailed : Failed p q) (hrefused : p.Refused) :
      Ensured p n (noMemory, q)
  | gaveUp (hlack : p.Lacks n) (hsize : growSize p.mDataSize n ≤ p.mDataSize) :
      Ensured p n (noMemory, p)

theorem Sound.prepared_self (hs : p.Sound) {n : UInt32} (hroom : ¬ p.Lacks n) :
    Prepared p p n where
  toSound := hs
  room := by
    unfold Lacks at hroom
    unfold start
    split
    · exact Nat.le_of_not_lt hroom
    · exact le_trans (Nat.add_le_add_right (Nat.zero_le _) _) (Nat.le_of_not_lt hroom)
  granted hlack := absurd hlack hroom
  data := by simp [hroom]
  pos := by
    unfold Lacks at hroom
    unfold start
    split
    · rfl
    · rename_i hnull
      -- without a buffer the capacity is 0, so the position is the start
      have hcap := (hs.null (by simpa using hnull)).1
      rw [hcap] at hroom
      exact UInt32.toNat_inj.mp (Nat.le_zero.mp (by
        have hzero : (0 : UInt32).toNat = 0 := rfl
        omega))
  size := rfl
  cap := (if_neg hroom).symm
  load _ _ _ := rfl
  mError := rfl
  allow := rfl
  mObjects := rfl
  owner := by simp [hroom]
  objectsCapacity := by simp [hroom]
  objectsExtent := by simp [hroom]
  answers := (if_neg hroom).symm
  tableStrayed := rfl
  strayed _ := rfl
  held x := by simp [hroom]

theorem Grown.prepared {n : UInt32} (h : Grown p q (growSize p.mDataSize n)) (hlack : p.Lacks n)
    (hroom : p.start.toNat + n.toNat ≤ (growSize p.mDataSize n).toNat)
    (hsize : p.mDataSize.toNat ≤ (growSize p.mDataSize n).toNat) : Prepared p q n where
  fits := by rw [h.size, h.cap]; exact hsize
  extent := by rw [h.extent, h.cap]
  null hnull := absurd h.mData (by rw [hnull]; decide)
  room := by rw [h.cap]; exact hroom
  granted _ := h.granted
  data := by simp [h.mData, hlack]
  pos := h.pos
  size := h.size
  cap := by rw [h.cap, if_pos hlack]
  load := h.load
  mError := h.mError
  allow := h.allow
  mObjects := h.mObjects
  owner := by simp [h.owner, hlack]
  objectsCapacity := by simp [h.objectsCapacity, hlack]
  objectsExtent := by simp [h.objectsExtent, hlack]
  answers := by rw [h.answers, if_pos hlack]
  tableStrayed := h.tableStrayed
  strayed := h.strayed
  held x := by simp [h.held, hlack]

/-- A write of `n` bytes finds room, or leaves everything in place. -/
theorem ensure_cases (hs : p.Sound) {n : UInt32} (hfit : p.Fits n) :
    Ensured p n (p.ensure (p.mDataPos + n ≤ p.mDataCapacity) n) := by
  have hsum : (p.mDataPos + n).toNat = p.mDataPos.toNat + n.toNat := by
    rw [UInt32.toNat_add, Nat.mod_eq_of_lt hfit.noWrap]
  have htest : p.mDataPos + n ≤ p.mDataCapacity ↔ ¬ p.Lacks n := by
    rw [UInt32.le_iff_toNat_le, hsum, Lacks, Nat.not_lt]
  by_cases hlack : p.Lacks n
  · rw [ensure, if_neg (by simpa [htest] using hlack), growData]
    split
    · exact .gaveUp hlack ‹_›
    · rename_i hgt
      have hgt' : p.mDataSize.toNat < (growSize p.mDataSize n).toNat :=
        UInt32.lt_iff_toNat_lt.mp (UInt32.not_le.mp hgt)
      have hroom := (hfit.grows hlack).resolve_left hgt
      have hcap : p.mDataCapacity.toNat < (growSize p.mDataSize n).toNat := by
        unfold Lacks at hlack
        cases hdata : p.mData with
        | true =>
            rw [start_eq hdata] at hroom
            omega
        | false =>
            rw [(hs.null hdata).1]
            exact lt_of_le_of_lt (Nat.zero_le _) hgt'
      obtain ⟨q, hq, hfailed, hrefused⟩ | ⟨q, hq, hgrown⟩ := continueWrite_cases hs hcap
      · rw [hq]
        exact .failed hlack hfailed hrefused
      · rw [hq]
        exact .ready (hgrown.prepared hlack hroom hgt'.le)
  · rw [ensure, if_pos (by simpa [htest] using hlack)]
    exact .ready (hs.prepared_self hlack)

end Parcel
end Binder
end AndroidLinux
