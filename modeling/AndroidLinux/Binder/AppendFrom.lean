import AndroidLinux.Binder.AppendLoop
import AndroidLinux.Binder.Writing

/-!
# Appending a part of another Parcel

`appendFrom` copies the bytes first, then makes room in the object table, and takes over
the objects.  Whether a call appends everything or changes nothing depends on the sums that
it computes and on what it asks for after the bytes have been copied: `Granted` lists both.
-/

namespace AndroidLinux
namespace Binder

open Lib

namespace Parcel

variable {src p q : Parcel} {offset len : UInt32}

/-! ## All or nothing -/

/-- The objects that lie in the range with all their bytes. -/
def whollyIn (src : Parcel) (offset len : UInt32) : List UInt32 :=
  src.mObjects.filter fun off =>
    offset.toNat ≤ off.toNat ∧ off.toNat + 16 ≤ offset.toNat + len.toNat

/-- Where a byte of the range goes. -/
def shifted (p : Parcel) (offset off : UInt32) : UInt32 := off - offset + p.mDataSize

/-- The range of `src` has been appended to `p`. -/
structure Appended (src p q : Parcel) (offset len : UInt32) : Prop where
  inside : len ≠ 0 → offset.toNat + len.toNat ≤ src.mDataSize.toNat
  room : len ≠ 0 → q.mDataSize.toNat ≤ q.mDataCapacity.toNat
  size : q.mDataSize.toNat = p.mDataSize.toNat + len.toNat
  pos : q.mDataPos = q.mDataSize
  old : ∀ a : UInt32, a.toNat < p.mDataSize.toNat → q.bytes a = p.bytes a
  copied : ∀ i : UInt32, i.toNat < len.toNat →
    (∀ off ∈ src.fdsAmong (src.whollyIn offset len),
      offset.toNat + i.toNat < off.toNat ∨ off.toNat + 16 ≤ offset.toNat + i.toNat) →
      q.bytes (p.mDataSize + i) = src.bytes (offset + i)
  fds : ∀ (k : Nat) (off : UInt32), (src.fdsAmong (src.whollyIn offset len))[k]? = some off →
    0 ≤ p.proc.answers.dup k ∧
      q.flatAt (p.shifted offset off) = (src.flatAt off).duplicated (p.proc.answers.dup k)
  mObjects : q.mObjects = p.mObjects ++ (src.whollyIn offset len).map (p.shifted offset)

/-- Size, position, data and objects are as before. -/
structure Untouched (p q : Parcel) : Prop where
  size : q.mDataSize = p.mDataSize
  pos : q.mDataPos = p.mDataPos
  old : ∀ a : UInt32, a.toNat < p.mDataSize.toNat → q.bytes a = p.bytes a
  mObjects : q.mObjects = p.mObjects

/-- The range has been appended, or an error is returned and nothing is changed. -/
def AllOrNothing (src p : Parcel) (offset len : UInt32) (r : Status × Parcel) : Prop :=
  (r.1 = noError → Appended src p r.2 offset len) ∧ (r.1 ≠ noError → Untouched p r.2)

/-- There is something to copy, and the range test of `appendFrom` lets it through. -/
def Passes (src : Parcel) (offset len : UInt32) : Prop :=
  len ≠ 0 ∧ ¬ (src.mDataSize < offset ∨ src.mDataSize < len ∨ src.mDataSize < offset + len)

/-- The test of `appendFrom` asks `growData` for more room. -/
def Asks (p : Parcel) (len : UInt32) : Prop := p.mDataCapacity < p.mDataSize + len

/-- `growData` is asked, and fails: its size does not exceed the old one, or the block that it
needs for it is refused. -/
def GrowthFails (p : Parcel) (len : UInt32) : Prop :=
  p.Asks len ∧ (growSize p.mDataSize len ≤ p.mDataSize ∨
    p.Refused ∧ (p.mOwner = true ∨ p.mData = false ∨
      p.mDataCapacity < growSize p.mDataSize len))

/-- The object table is too small for `n` more entries; that of a received buffer is replaced
by a full one when the data grows. -/
def LacksEntries (p : Parcel) (len n : UInt32) : Prop :=
  (if p.mDataCapacity < p.mDataSize + len ∧ p.mOwner = true then p.mObjectsSize
    else p.mObjectsCapacity) < p.mObjectsSize + n

/-- What `appendFrom` needs and does not make sure of before it copies the bytes: sums that do
not wrap, no object that reaches out of the range, a larger object table, leave to take
descriptors, and a duplicate of each of them. -/
structure Granted (src p : Parcel) (offset len : UInt32) : Prop where
  inside : offset.toNat + len.toNat ≤ src.mDataSize.toNat
  fits : p.Fits len
  chosen : src.objectsBetween offset len = src.whollyIn offset len
  table : src.whollyIn offset len ≠ [] →
    p.LacksEntries len (UInt32.ofNat (src.whollyIn offset len).length) →
      p.proc.answers.table 0 = true
  allowed : src.fdsAmong (src.whollyIn offset len) ≠ [] → p.mAllowFds = true
  fds : ∀ k < (src.fdsAmong (src.whollyIn offset len)).length, 0 ≤ p.proc.answers.dup k

theorem Untouched.refl (p : Parcel) : Untouched p p :=
  ⟨rfl, rfl, fun _ _ => rfl, rfl⟩

theorem Failed.untouched (h : Failed p q) : Untouched p q := by
  obtain ⟨data, newTable, rfl⟩ := h
  exact ⟨rfl, rfl, fun _ _ => rfl, rfl⟩

theorem mem_whollyIn {off : UInt32} (h : off ∈ src.whollyIn offset len) :
    offset.toNat ≤ off.toNat ∧ off.toNat + 16 ≤ offset.toNat + len.toNat := by
  simpa using List.of_mem_filter h

theorem shifted_injective (p : Parcel) (offset : UInt32) :
    Function.Injective (p.shifted offset) := by
  intro a b h
  have hsub : a - offset = b - offset := (UInt32.add_left_inj _).mp h
  exact (UInt32.sub_left_inj _).mp hsub

/-- An object in the range keeps its distance from the start. -/
theorem shifted_toNat {off : UInt32} (hoff : off ∈ src.whollyIn offset len)
    (hwrap : p.mDataSize.toNat + len.toNat < 2 ^ 32) :
    (p.shifted offset off).toNat = p.mDataSize.toNat + (off.toNat - offset.toNat) := by
  obtain ⟨hlo, hhi⟩ := mem_whollyIn hoff
  have hsub : (off - offset).toNat = off.toNat - offset.toNat :=
    UInt32.toNat_sub_of_le off offset (UInt32.le_iff_toNat_le.mpr hlo)
  rw [shifted, UInt32.toNat_add, hsub, Nat.mod_eq_of_lt (by omega)]
  omega

/-! ## Room for the bytes -/

/-- `q` is `p` after its test for room, which may have been misled by a sum that wraps. -/
structure Tested (p q : Parcel) (len : UInt32) : Prop where
  size : q.mDataSize = p.mDataSize
  mObjects : q.mObjects = p.mObjects
  cap : q.mDataCapacity = growSize p.mDataSize len ∨ q.mDataCapacity = p.mDataCapacity
  objectsCapacity : q.mObjectsCapacity =
    if p.mDataCapacity < p.mDataSize + len ∧ p.mOwner = true then p.mObjectsSize
    else p.mObjectsCapacity
  table : q.proc.answers.table = p.proc.answers.table

theorem Grown.tested (h : Grown p q (growSize p.mDataSize len)) (hasks : p.Asks len) :
    Tested p q len where
  size := h.size
  mObjects := h.mObjects
  cap := .inl h.cap
  objectsCapacity := by
    rw [h.objectsCapacity]
    unfold Asks at hasks
    simp only [hasks, true_and]
    rfl
  table := by
    rw [h.answers]
    rfl

/-- A buffer of its own that is large enough stays. -/
theorem continueOwned_of_room (hend : p.mDataPos = p.mDataSize) {desired : UInt32}
    (hsize : p.mDataSize < desired) (hroom : ¬ p.mDataCapacity < desired) :
    p.continueOwned desired p.mObjects = (noError, p) := by
  have hstay : ¬ desired < p.mDataSize := fun hlt => UInt32.lt_asymm hlt hsize
  unfold continueOwned
  dsimp only
  have hstay' : ¬ desired < p.mDataPos := hend ▸ hstay
  rw [if_neg (lt_irrefl _), if_neg hroom, if_neg hstay, if_neg hstay']

/-- What `growData` does when its size exceeds the old one. -/
theorem continueWrite_tested (hs : p.Sound) (hend : p.mDataPos = p.mDataSize)
    (hasks : p.Asks len) (hmore : p.mDataSize < growSize p.mDataSize len) :
    (∃ q, p.continueWrite (growSize p.mDataSize len) = (noMemory, q) ∧ Untouched p q ∧
        p.Refused ∧ (p.mOwner = true ∨ p.mData = false ∨
          p.mDataCapacity < growSize p.mDataSize len)) ∨
      ∃ q, p.continueWrite (growSize p.mDataSize len) = (noError, q) ∧ Tested p q len ∧
        ¬ (p.Refused ∧ (p.mOwner = true ∨ p.mData = false ∨
          p.mDataCapacity < growSize p.mDataSize len)) := by
  have hsize := UInt32.lt_iff_toNat_lt.mp hmore
  unfold continueWrite
  rw [keptObjects_of_le (UInt32.le_iff_toNat_le.mpr hsize.le)]
  cases howner : p.mOwner with
  | true =>
      obtain ⟨q, hq, hfailed, hrefused⟩ | ⟨q, hq, hgrown⟩ := continueReceived_cases hs howner hsize
      · exact .inl ⟨q, hq, hfailed.untouched, hrefused, .inl rfl⟩
      · exact .inr ⟨q, hq, hgrown.tested hasks, fun hrefused => hgrown.granted hrefused.1⟩
  | false =>
      cases hdata : p.mData with
      | true =>
          by_cases hcap : p.mDataCapacity < growSize p.mDataSize len
          · obtain ⟨q, hq, hfailed, hrefused⟩ | ⟨q, hq, hgrown⟩ :=
              continueOwned_cases hs howner hdata (UInt32.lt_iff_toNat_lt.mp hcap)
            · exact .inl ⟨q, hq, hfailed.untouched, hrefused, .inr (.inr hcap)⟩
            · exact .inr ⟨q, hq, hgrown.tested hasks, fun hrefused => hgrown.granted hrefused.1⟩
          · -- a sum that wraps has asked for room that is there
            refine .inr ⟨p, continueOwned_of_room hend hmore hcap, ?_, by simp [hcap]⟩
            exact ⟨rfl, rfl, .inr rfl, by simp [howner], rfl⟩
      | false =>
          obtain ⟨q, hq, hfailed, hrefused⟩ | ⟨q, hq, hgrown⟩ :=
            continueFirst_cases hs hdata (growSize p.mDataSize len)
          · exact .inl ⟨q, hq, hfailed.untouched, hrefused, .inr (.inl rfl)⟩
          · exact .inr ⟨q, hq, hgrown.tested hasks, fun hrefused => hgrown.granted hrefused.1⟩

/-- The test for room fails and changes nothing, or lets the call go on. -/
theorem ensure_tested (hs : p.Sound) (hend : p.mDataPos = p.mDataSize) (len : UInt32) :
    (∃ q, p.ensure (p.mDataSize + len ≤ p.mDataCapacity) len = (noMemory, q) ∧
        Untouched p q ∧ p.GrowthFails len) ∨
      ∃ q, p.ensure (p.mDataSize + len ≤ p.mDataCapacity) len = (noError, q) ∧
        Tested p q len ∧ ¬ p.GrowthFails len := by
  by_cases hasks : p.Asks len
  · have hnot : ¬ p.mDataSize + len ≤ p.mDataCapacity := UInt32.not_le.mpr hasks
    rw [ensure, if_neg (by simpa using hnot), growData]
    by_cases hsmall : growSize p.mDataSize len ≤ p.mDataSize
    · rw [if_pos hsmall]
      exact .inl ⟨p, rfl, .refl p, hasks, .inl hsmall⟩
    · rw [if_neg hsmall]
      obtain ⟨q, hq, hsame, hrefused⟩ | ⟨q, hq, htested, hgranted⟩ :=
        continueWrite_tested hs hend hasks (UInt32.not_le.mp hsmall)
      · exact .inl ⟨q, hq, hsame, hasks, .inr hrefused⟩
      · exact .inr ⟨q, hq, htested, fun hfails => hgranted (hfails.2.resolve_left hsmall)⟩
  · have hroom : p.mDataSize + len ≤ p.mDataCapacity := UInt32.not_lt.mp hasks
    rw [ensure, if_pos (by simpa using hroom)]
    refine .inr ⟨p, rfl, ?_, fun hfails => hasks hfails.1⟩
    unfold Asks at hasks
    exact ⟨rfl, rfl, .inr rfl, by simp [hasks], rfl⟩

/-! ## The three ends of a call -/

/-- `q` is `p` with `len` more bytes, wherever they are. -/
structure Extended (p q : Parcel) (len : UInt32) : Prop where
  size : q.mDataSize = p.mDataSize + len
  mObjects : q.mObjects = p.mObjects
  cap : q.mDataCapacity = growSize p.mDataSize len ∨ q.mDataCapacity = p.mDataCapacity

/-- `q` is `p` with the range of `src` behind its data. -/
structure Copied (src p q : Parcel) (offset len : UInt32) : Prop where
  room : q.mDataSize.toNat ≤ q.mDataCapacity.toNat
  size : q.mDataSize.toNat = p.mDataSize.toNat + len.toNat
  pos : q.mDataPos = q.mDataSize
  old : ∀ a : UInt32, a.toNat < p.mDataSize.toNat → q.bytes a = p.bytes a
  copied : ∀ i : UInt32, i.toNat < len.toNat → q.bytes (p.mDataSize + i) = src.bytes (offset + i)
  mObjects : q.mObjects = p.mObjects
  allow : q.mAllowFds = p.mAllowFds
  dup : q.proc.answers.dup = p.proc.answers.dup

/-- How a call ends that has passed the range test. -/
inductive AppendEnd (src p : Parcel) (offset len : UInt32) : Status × Parcel → Prop
  | noGrowth {s : Status} {q : Parcel} (hfails : p.GrowthFails len) (hs : s ≠ noError)
      (hsame : Untouched p q) : AppendEnd src p offset len (s, q)
  | noTable {q : Parcel} (hgrows : ¬ p.GrowthFails len) (hsome : src.objectsBetween offset len ≠ [])
      (hlack : p.LacksEntries len (UInt32.ofNat (src.objectsBetween offset len).length))
      (htable : p.proc.answers.table 0 = false) (hextended : Extended p q len) :
      AppendEnd src p offset len (noMemory, q)
  | adopted {q : Parcel} (hgrows : ¬ p.GrowthFails len)
      (htable : src.objectsBetween offset len ≠ [] →
        p.LacksEntries len (UInt32.ofNat (src.objectsBetween offset len).length) →
          p.proc.answers.table 0 = true)
      (hextended : Extended p q len) (hcopied : p.Fits len → Copied src p q offset len) :
      AppendEnd src p offset len
        (adopt (noError, q) ((src.objectsBetween offset len).map (p.shifted offset)))

theorem Extended.size_ne (h : Extended p q len) (hne : len ≠ 0) :
    q.mDataSize ≠ p.mDataSize := by
  intro hsame
  rw [h.size] at hsame
  exact hne (UInt32.add_eq_left.mp hsame)

theorem Extended.growObjects (h : Extended p q len) (n : UInt32) :
    Extended p (q.growObjects n).2 len := by
  unfold Parcel.growObjects
  split
  · exact ⟨h.size, h.mObjects, h.cap⟩
  · exact ⟨h.size, h.mObjects, h.cap⟩

theorem Copied.growObjects (h : Copied src p q offset len) (n : UInt32) :
    Copied src p (q.growObjects n).2 offset len := by
  unfold Parcel.growObjects
  split
  · exact ⟨h.room, h.size, h.pos, h.old, h.copied, h.mObjects, h.allow, h.dup⟩
  · exact ⟨h.room, h.size, h.pos, h.old, h.copied, h.mObjects, h.allow, h.dup⟩

theorem growObjects_fst (q : Parcel) (n : UInt32) :
    (q.growObjects n).1 = q.proc.answers.table 0 := by
  unfold Parcel.growObjects
  split <;> simp_all

/-- The objects of a Parcel into which the bytes have been copied. -/
theorem Extended.ended (h : Extended p q len) (hcopied : p.Fits len → Copied src p q offset len)
    (hgrows : ¬ p.GrowthFails len)
    (hcap : q.mObjectsCapacity =
      if p.mDataCapacity < p.mDataSize + len ∧ p.mOwner = true then p.mObjectsSize
      else p.mObjectsCapacity)
    (hanswer : q.proc.answers.table = p.proc.answers.table) :
    AppendEnd src p offset len
      (q.appendObjects ((src.objectsBetween offset len).map (p.shifted offset))) := by
  have hcount : q.mObjectsSize = p.mObjectsSize := congrArg (UInt32.ofNat ∘ List.length) h.mObjects
  unfold appendObjects
  dsimp only
  rw [List.length_map, hcap, hcount]
  by_cases hnone : src.objectsBetween offset len = []
  · rw [if_pos (by simp [hnone])]
    have hend := AppendEnd.adopted hgrows (fun hsome => absurd hnone hsome) h hcopied
    rw [hnone] at hend
    exact hend
  · rw [if_neg (by simpa using hnone)]
    by_cases hlack : p.LacksEntries len (UInt32.ofNat (src.objectsBetween offset len).length)
    · have hshort := hlack
      unfold LacksEntries at hshort
      rw [if_pos hshort, growObjects_fst, hanswer]
      cases htable : p.proc.answers.table 0 with
      | true =>
          exact .adopted hgrows (fun _ _ => htable) (h.growObjects _)
            fun hfit => (hcopied hfit).growObjects _
      | false => exact .noTable hgrows hnone hlack htable (h.growObjects _)
    · have hroom := hlack
      unfold LacksEntries at hroom
      rw [if_neg hroom]
      exact .adopted hgrows (fun _ hlacks => absurd hlacks hlack) h hcopied

theorem Prepared.pos_eq (h : Prepared p q len) (hs : p.Sound) (hend : p.mDataPos = p.mDataSize) :
    q.mDataPos = p.mDataSize := by
  rw [h.pos]
  unfold start
  split
  · exact hend
  · exact UInt32.toNat_inj.mp (hs.size_null (by simp_all)).symm

theorem Prepared.copy_fits (h : Prepared p q len) :
    q.mDataPos.toNat + (src.bytes.load offset len.toNat).length ≤ q.mDataCapacity.toNat := by
  have hroom := h.room
  rw [Mem.load_length, h.pos]
  exact hroom

/-- `q` with `len` bytes of `src` at the position. -/
def copyFrom (src q : Parcel) (offset len : UInt32) : Parcel :=
  let c := q.storeAt q.mDataPos (src.bytes.load offset len.toNat)
  { c with
    mDataPos := c.mDataPos + len
    mDataSize := c.mDataSize + len
    proc.strayed := c.proc.strayed || !(offset.toNat + len.toNat ≤ src.mDataSize.toNat) }

theorem Tested.extended (h : Tested p q len) : Extended p (copyFrom src q offset len) len := by
  have hstore := framed_storeAt q q.mDataPos (src.bytes.load offset len.toNat)
  unfold copyFrom
  dsimp only
  rw [hstore]
  exact ⟨congrArg (· + len) h.size, h.mObjects, h.cap⟩

/-- The copy behind the data. -/
theorem Prepared.copied (h : Prepared p q len) (hs : p.Sound) (hend : p.mDataPos = p.mDataSize)
    (hwrap : p.mDataSize.toNat + len.toNat < 2 ^ 32) :
    Copied src p (copyFrom src q offset len) offset len := by
  have hpos := h.pos_eq hs hend
  have hroom : q.mDataPos.toNat + (src.bytes.load offset len.toNat).length ≤
      q.mDataCapacity.toNat := h.copy_fits
  have hlen : (src.bytes.load offset len.toNat).length = len.toNat := Mem.load_length _ _ _
  have hsum : (p.mDataSize + len).toNat = p.mDataSize.toNat + len.toNat := by
    rw [UInt32.toNat_add, Nat.mod_eq_of_lt hwrap]
  have hdup : q.proc.answers.dup = p.proc.answers.dup := by
    rw [h.answers]
    split <;> rfl
  unfold copyFrom
  rw [h.toSound.storeAt_eq hroom]
  rw [hpos, hlen] at hroom
  refine ⟨?_, ?_, ?_, fun a ha => ?_, fun i hi => ?_, h.mObjects, h.allow, hdup⟩
  · dsimp only
    rw [h.size, hsum]
    exact hroom
  · dsimp only
    rw [h.size, hsum]
  · dsimp only
    rw [hpos, h.size]
  · have hload := h.load a 1 ha
    rw [Mem.load_one, Mem.load_one, List.cons.injEq] at hload
    dsimp only
    rw [hpos, Mem.store_apply_of_disjoint (by omega) (.inl ha)]
    exact hload.1
  · have hsub : p.mDataSize + i - p.mDataSize = i := by
      rw [UInt32.add_comm, UInt32.add_sub_cancel]
    dsimp only
    rw [hpos, Mem.store, hsub, Mem.getElem?_load hi, UInt32.ofNat_toNat, Option.getD_some]

theorem appendFrom_ended (hs : p.Sound) (hend : p.mDataPos = p.mDataSize)
    (hpass : Passes src offset len) :
    AppendEnd src p offset len (appendFrom src offset len p) := by
  unfold appendFrom
  dsimp only
  rw [if_neg hpass.1, if_neg hpass.2, hend]
  obtain ⟨q, hq, hsame, hfails⟩ | ⟨q, hq, htested, hgrows⟩ := ensure_tested hs hend len
  · rw [hq]
    exact .noGrowth hfails noMemory_ne hsame
  · rw [hq, if_pos rfl]
    have hcopied (hfit : p.Fits len) : Copied src p (copyFrom src q offset len) offset len := by
      have hensure := ensure_cases hs hfit
      have hwrap := hfit.noWrap
      rw [hend] at hwrap
      rw [hend, hq] at hensure
      cases hensure with
      | ready hprepared => exact hprepared.copied hs hend hwrap
    have hstore := framed_storeAt q q.mDataPos (src.bytes.load offset len.toNat)
    refine Extended.ended (q := copyFrom src q offset len) htested.extended hcopied hgrows ?_ ?_
    · unfold copyFrom
      dsimp only
      rw [hstore]
      exact htested.objectsCapacity
    · unfold copyFrom
      dsimp only
      rw [hstore]
      exact htested.table

/-! ## The objects of the range -/

/-- An object of the range reads in the copy as in its Parcel. -/
theorem Copied.flatAt (h : Copied src p q offset len)
    (hinside : offset.toNat + len.toNat < 2 ^ 32) {off : UInt32}
    (hoff : off ∈ src.whollyIn offset len) :
    q.flatAt (p.shifted offset off) = src.flatAt off := by
  obtain ⟨hlo, hhi⟩ := mem_whollyIn hoff
  refine congrArg FlatBinderObject.ofBytes (Mem.load_congr fun i hi => ?_)
  have hsub : (off - offset).toNat = off.toNat - offset.toNat :=
    UInt32.toNat_sub_of_le off offset (UInt32.le_iff_toNat_le.mpr hlo)
  have hindex : (off - offset + UInt32.ofNat i).toNat = off.toNat - offset.toNat + i := by
    rw [Mem.toNat_add_ofNat (by omega), hsub]
  have hbyte := h.copied (off - offset + UInt32.ofNat i) (by omega)
  have hdst : p.shifted offset off + UInt32.ofNat i =
      p.mDataSize + (off - offset + UInt32.ofNat i) := by
    rw [shifted, UInt32.add_comm (off - offset), UInt32.add_assoc]
  have hsrc : offset + (off - offset + UInt32.ofNat i) = off + UInt32.ofNat i := by
    rw [← UInt32.add_assoc, UInt32.add_comm offset, UInt32.sub_add_cancel]
  rw [hdst, hbyte, hsrc]

theorem Copied.fdsAmong (h : Copied src p q offset len)
    (hinside : offset.toNat + len.toNat < 2 ^ 32) :
    q.fdsAmong ((src.whollyIn offset len).map (p.shifted offset)) =
      (src.fdsAmong (src.whollyIn offset len)).map (p.shifted offset) := by
  unfold Parcel.fdsAmong
  rw [List.filter_map]
  refine congrArg (List.map _) (List.filter_congr fun off hoff => ?_)
  rw [Function.comp_apply, h.flatAt hinside hoff]

/-- The loop over the objects of the range. -/
theorem Copied.adopts (h : Copied src p q offset len)
    (hinside : offset.toNat + len.toNat < 2 ^ 32) (hapart : Apart src (src.whollyIn offset len)) :
    Replaced q (adopt (noError, q) ((src.whollyIn offset len).map (p.shifted offset))).2
        ((src.whollyIn offset len).map (p.shifted offset)) ∧
      (adopt (noError, q) ((src.whollyIn offset len).map (p.shifted offset))).1 =
        if src.fdsAmong (src.whollyIn offset len) ≠ [] ∧ p.mAllowFds = false then fdsNotAllowed
        else noError := by
  have hsize := h.size
  have hlt := q.mDataSize.toNat_lt
  have hplace : ∀ off ∈ src.whollyIn offset len, (p.shifted offset off).toNat =
      p.mDataSize.toNat + (off.toNat - offset.toNat) := fun off hoff =>
    shifted_toNat hoff (by omega)
  have hshifted : Apart q ((src.whollyIn offset len).map (p.shifted offset)) := by
    refine List.pairwise_map.mpr (hapart.imp_of_mem fun {a b} ha hb hab hfd => ?_)
    rw [h.flatAt hinside ha, h.flatAt hinside hb] at hfd
    have hclear := hab hfd
    have hfirst := hplace a ha
    have hsecond := hplace b hb
    have hbefore := mem_whollyIn ha
    have hbehind := mem_whollyIn hb
    omega
  have hin : ∀ o ∈ (src.whollyIn offset len).map (p.shifted offset), o.toNat + 16 ≤ 2 ^ 32 := by
    intro o ho
    obtain ⟨off, hoff, rfl⟩ := List.mem_map.mp ho
    have hhere := hplace off hoff
    have hbounds := mem_whollyIn hoff
    omega
  obtain ⟨hbytes, hstatus⟩ := adopt_bytes hin noError hshifted
  refine ⟨hbytes, hstatus.trans ?_⟩
  rw [h.fdsAmong hinside, h.allow]
  simp only [ne_eq, List.map_eq_nil_iff]

theorem max_of_nonneg {fd : Int32} (h : 0 ≤ fd) : max fd (-1) = fd := by
  refine if_neg fun hle => ?_
  have hneg : (-1 : Int32).toInt = -1 := rfl
  have hzero : (0 : Int32).toInt = 0 := rfl
  rw [Int32.le_iff_toInt_le] at h hle
  omega

/-- When every descriptor has a duplicate, the loop completes the copy. -/
theorem Copied.appended (h : Copied src p q offset len)
    (hinside : offset.toNat + len.toNat ≤ src.mDataSize.toNat)
    (hapart : Apart src (src.whollyIn offset len))
    (hfds : ∀ k < (src.fdsAmong (src.whollyIn offset len)).length, 0 ≤ p.proc.answers.dup k) :
    Appended src p (adopt (noError, q) ((src.whollyIn offset len).map (p.shifted offset))).2
      offset len := by
  have hlimit := hinside.trans_lt src.mDataSize.toNat_lt
  have hbytes := (h.adopts hlimit hapart).1
  obtain ⟨hsize, hpos, hcap, hobjects⟩ :=
    adopt_fields ((src.whollyIn offset len).map (p.shifted offset)) noError q
  have hwrap : p.mDataSize.toNat + len.toNat < 2 ^ 32 := h.size ▸ q.mDataSize.toNat_lt
  have hframe := hbytes.frame
  rw [h.fdsAmong hlimit] at hframe
  refine ⟨fun _ => hinside, fun _ => by rw [hsize, hcap]; exact h.room,
    by rw [hsize, h.size], by rw [hpos, hsize, h.pos], fun a ha => ?_, fun i hi hout => ?_,
    fun k off hk => ?_, by rw [hobjects, h.mObjects]⟩
  · -- the objects lie behind the old data
    rw [hframe a fun o ho => ?_, h.old a ha]
    obtain ⟨off, hoff, rfl⟩ := List.mem_map.mp ho
    rw [shifted_toNat (List.mem_of_mem_filter hoff) hwrap]
    omega
  · have hplace : (p.mDataSize + i).toNat = p.mDataSize.toNat + i.toNat := by
      rw [UInt32.toNat_add, Nat.mod_eq_of_lt (by omega)]
    rw [hframe _ fun o ho => ?_, h.copied i hi]
    obtain ⟨off, hoff, rfl⟩ := List.mem_map.mp ho
    have hmem := List.mem_of_mem_filter hoff
    have hbounds := mem_whollyIn hmem
    have hclear := hout off hoff
    rw [shifted_toNat hmem hwrap, hplace]
    omega
  · have hmem := List.mem_of_getElem? hk
    have hdup := hfds k (List.getElem?_eq_some_iff.mp hk).1
    refine ⟨hdup, ?_⟩
    have hread := hbytes.fds k (p.shifted offset off) (by
      rw [h.fdsAmong hlimit, List.getElem?_map, hk, Option.map_some])
    rw [hread, h.flatAt hlimit (List.mem_of_mem_filter hmem), h.dup, max_of_nonneg hdup]

theorem whollyIn_zero (src : Parcel) (offset : UInt32) : src.whollyIn offset 0 = [] := by
  refine List.filter_eq_nil_iff.mpr fun off _ => ?_
  have hzero : (0 : UInt32).toNat = 0 := rfl
  rw [decide_eq_true_eq, hzero]
  omega

theorem badValue_ne : badValue ≠ noError := by decide

/-- A call that does not pass the test has nothing to append, or is refused. -/
theorem allOrNothing_of_not_passes (hend : p.mDataPos = p.mDataSize)
    (h : ¬ Passes src offset len) :
    AllOrNothing src p offset len (appendFrom src offset len p) := by
  unfold appendFrom
  by_cases hzero : len = 0
  · subst hzero
    rw [if_pos rfl]
    refine ⟨fun _ => ?_, fun hne => absurd rfl hne⟩
    have hnone := whollyIn_zero src offset
    refine ⟨fun hne => absurd rfl hne, fun hne => absurd rfl hne, rfl, hend, fun _ _ => rfl,
      fun i hi => absurd hi (Nat.not_lt_zero _), fun k off hk => ?_, ?_⟩
    · rw [hnone] at hk
      simp [Parcel.fdsAmong] at hk
    · rw [hnone, List.map_nil, List.append_nil]
  · have hrange : src.mDataSize < offset ∨ src.mDataSize < len ∨
        src.mDataSize < offset + len := by
      by_contra hpass
      exact h ⟨hzero, hpass⟩
    rw [if_neg hzero, if_pos hrange]
    exact ⟨fun hok => absurd hok badValue_ne, fun _ => .refl p⟩

/-- A copy that is all in the buffer has not been misled by a sum that wraps. -/
theorem Extended.fits (h : Extended p q len) (hend : p.mDataPos = p.mDataSize)
    (hsize : q.mDataSize.toNat = p.mDataSize.toNat + len.toNat)
    (hroom : q.mDataSize.toNat ≤ q.mDataCapacity.toNat) : p.Fits len := by
  have hlt := q.mDataSize.toNat_lt
  refine ⟨by rw [hend]; omega, fun hlack => .inr ?_⟩
  have hstart : p.start.toNat ≤ p.mDataSize.toNat := by
    unfold start
    split
    · rw [hend]
    · exact Nat.zero_le _
  unfold Lacks at hlack
  rw [hend] at hlack
  obtain hcap | hcap := h.cap
  · rw [hcap] at hroom
    omega
  · rw [hcap] at hroom
    omega

/-- With all that is asked for, the loop completes the copy without an error. -/
theorem Granted.allOrNothing (h : Granted src p offset len)
    (hapart : Apart src (src.whollyIn offset len)) (hcopied : Copied src p q offset len) :
    AllOrNothing src p offset len
      (adopt (noError, q) ((src.objectsBetween offset len).map (p.shifted offset))) := by
  obtain ⟨hinside, hfit, hchosen, -, hallowed, hfds⟩ := h
  have hlimit := hinside.trans_lt src.mDataSize.toNat_lt
  rw [hchosen]
  refine ⟨fun _ => hcopied.appended hinside hapart hfds, fun herror => ?_⟩
  rw [(hcopied.adopts hlimit hapart).2, if_neg] at herror
  · exact absurd rfl herror
  · rintro ⟨hsome, hdenied⟩
    rw [hallowed hsome] at hdenied
    cases hdenied

/-- A loop that completes the copy has had all that it asked for. -/
theorem Extended.granted (h : Extended p q len) (hend : p.mDataPos = p.mDataSize) (hne : len ≠ 0)
    (hapart : Apart src (src.whollyIn offset len))
    (htable : src.objectsBetween offset len ≠ [] →
      p.LacksEntries len (UInt32.ofNat (src.objectsBetween offset len).length) →
        p.proc.answers.table 0 = true)
    (hcopied : p.Fits len → Copied src p q offset len)
    (hall : AllOrNothing src p offset len
      (adopt (noError, q) ((src.objectsBetween offset len).map (p.shifted offset)))) :
    Granted src p offset len := by
  obtain ⟨hsize, -, hcap, hobjects⟩ :=
    adopt_fields ((src.objectsBetween offset len).map (p.shifted offset)) noError q
  -- behind an error the size would be the old one
  have hok : (adopt (noError, q)
      ((src.objectsBetween offset len).map (p.shifted offset))).1 = noError := by
    by_contra herror
    exact h.size_ne hne (hsize.symm.trans (hall.2 herror).size)
  have happended := hall.1 hok
  have hinside := happended.inside hne
  have hlimit := hinside.trans_lt src.mDataSize.toNat_lt
  have hfit : p.Fits len := h.fits hend (by rw [← hsize]; exact happended.size)
    (by rw [← hsize, ← hcap]; exact happended.room hne)
  -- the list of the objects tells which have been selected
  have hlisted := happended.mObjects
  rw [hobjects, h.mObjects] at hlisted
  have hchosen := List.map_injective_iff.mpr (shifted_injective p offset)
    (List.append_cancel_left hlisted)
  rw [hchosen] at hok htable
  rw [((hcopied hfit).adopts hlimit hapart).2] at hok
  refine ⟨hinside, hfit, hchosen, htable, fun hsome => ?_, fun k hk => ?_⟩
  · by_contra hdenied
    rw [if_pos ⟨hsome, by simpa using hdenied⟩] at hok
    exact absurd hok (by decide)
  · exact (happended.fds k _ (List.getElem?_eq_getElem hk)).1

/-- `appendFrom` appends everything or changes nothing exactly when growing the data fails,
or all that it does not make sure of beforehand is granted. -/
theorem appendFrom_allOrNothing_iff (hs : p.Sound) (hend : p.mDataPos = p.mDataSize)
    (hapart : Apart src (src.whollyIn offset len)) :
    AllOrNothing src p offset len (appendFrom src offset len p) ↔
      (Passes src offset len → p.GrowthFails len ∨ Granted src p offset len) := by
  by_cases hpass : Passes src offset len
  · have hended := appendFrom_ended hs hend hpass
    generalize appendFrom src offset len p = t at hended ⊢
    cases hended with
    | noGrowth hfails hstatus hsame =>
        exact ⟨fun _ _ => .inl hfails, fun _ => ⟨fun hok => absurd hok hstatus, fun _ => hsame⟩⟩
    | noTable hgrows hsome hlack htable hextended =>
        constructor
        · -- the bytes have been copied by now
          intro hall
          exact absurd (hall.2 noMemory_ne).size (hextended.size_ne hpass.1)
        · intro hgranted
          have hall := (hgranted hpass).resolve_left hgrows
          rw [hall.chosen] at hsome hlack
          have hyes := hall.table hsome hlack
          rw [htable] at hyes
          cases hyes
    | adopted hgrows htable hextended hcopied =>
        constructor
        · intro hall _
          exact .inr (hextended.granted hend hpass.1 hapart htable hcopied hall)
        · intro hgranted
          have hall := (hgranted hpass).resolve_left hgrows
          exact hall.allOrNothing hapart (hcopied hall.fits)
  · exact ⟨fun _ h => absurd h hpass, fun _ => allOrNothing_of_not_passes hend hpass⟩

/-- A process in which `dup` succeeds. -/
def dupProcess : Process :=
  { roomyProcess with answers := { roomyProcess.answers with dup := fun _ => 7 } }

/-- A Parcel with one descriptor. -/
def fdParcel : Parcel := (writeFileDescriptor 3 true (rawParcel dupProcess)).2

theorem appendFrom_allOrNothing_iff_fd :
    AllOrNothing fdParcel (rawParcel dupProcess) 0 16
        (appendFrom fdParcel 0 16 (rawParcel dupProcess)) ∧
      (appendFrom fdParcel 0 16 (rawParcel dupProcess)).1 = noError := by
  refine ⟨(appendFrom_allOrNothing_iff ⟨le_rfl, rfl, fun _ => ⟨rfl, rfl⟩⟩ rfl ?_).mpr ?_, ?_⟩
  · have hone : fdParcel.whollyIn 0 16 = [0] := by decide +kernel
    rw [hone]
    exact List.pairwise_singleton _ _
  · have hgranted : Granted fdParcel (rawParcel dupProcess) 0 16 :=
      { inside := by decide +kernel
        fits := ⟨by decide, fun _ => .inr (by decide)⟩
        chosen := by decide +kernel
        table := fun _ _ => rfl
        allowed := fun _ => rfl
        fds := fun _ _ => (by decide : (0 : Int32) ≤ 7) }
    exact fun _ => .inr hgranted
  · decide +kernel

/-- A Parcel that takes no descriptors has the bytes and the object all the same. -/
theorem appendFrom_not_allowed :
    ¬ AllOrNothing fdParcel ((rawParcel dupProcess).pushAllowFds false) 0 16
      (appendFrom fdParcel 0 16 ((rawParcel dupProcess).pushAllowFds false)) := by
  rintro ⟨-, herror⟩
  have hsize := (herror (by decide +kernel)).size
  exact absurd hsize (by decide +kernel)

end Parcel
end Binder
end AndroidLinux
