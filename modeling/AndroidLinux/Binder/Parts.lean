import AndroidLinux.Binder.Writing

/-!
# The parts of a write operation

Every write operation is a series of parts that reach the buffer one by one, up to the
first error (`Part`, `runParts`).  `Ended` lists the ways in which one part can end, for a
part whose size does not wrap: in front of it the buffer has got room, or an allocation
has been refused, or `growData` has given up; an object can also find no place in the
table, or be a descriptor that is not allowed.
-/

namespace AndroidLinux
namespace Binder

open Lib

/-- One part of a write operation.  `room` is a `writeInplace` that the caller fills, with
the status that is returned for `NULL`, and `result` is what a callback returns. -/
inductive Part
  | aligned (val : List UInt8)
  | unpadded (bytes : List UInt8)
  | padded (bytes : List UInt8)
  | units (str : List UInt16)
  | room (len : UInt32) (fill : List UInt8) (null : Status)
  | object (val : FlatBinderObject) (nullMetaData : Bool)
  | dup
  | result (status : Status)

namespace Part

open Parcel

def run : Part → Parcel → Status × Parcel
  | .aligned val => writeAligned val
  | .unpadded bytes => writeUnpadded (.of bytes (UInt32.ofNat bytes.length))
  | .padded bytes => write (.of bytes (UInt32.ofNat bytes.length))
  | .units str => writeUnits str (UInt32.ofNat str.length)
  | .room len fill null => fun p =>
      match p.writeInplace len with
      | (none, q) => (null, q)
      | (some buf, q) => (noError, q.storeAt buf fill)
  | .object val nullMetaData => writeObject val nullMetaData
  | .dup => writeDupFileDescriptor
  | .result status => fun p => (status, p)

/-- The parts one after the other, up to the first error. -/
def runAll : List Part → Parcel → Status × Parcel
  | [] => fun p => (noError, p)
  | x :: xs => andThen x.run (runAll xs)

/-- The bytes that a part takes in the buffer. -/
def need : Part → UInt32
  | .aligned val => UInt32.ofNat val.length
  | .unpadded bytes => UInt32.ofNat bytes.length
  | .padded bytes => padSize (UInt32.ofNat bytes.length)
  | .units str => padSize (UInt32.ofNat str.length * 2 + 2)
  | .room len _ _ => padSize len
  | .object _ _ => 16
  | .dup => 16
  | .result _ => 0

/-- The size of a part is a `size_t`, padding included, and `NULL` is an error. -/
def Sized : Part → Prop
  | .aligned val => val.length < 2 ^ 32
  | .unpadded bytes => bytes.length < 2 ^ 32
  | .padded bytes => bytes.length + 3 < 2 ^ 32
  | .units str => 2 * str.length + 5 < 2 ^ 32
  | .room len fill null => len.toNat + 3 < 2 ^ 32 ∧ fill.length ≤ len.toNat ∧ null ≠ noError
  | .object _ _ => True
  | .dup => True
  | .result _ => True

/-- The bytes that a part is meant to leave in the buffer, given what `dup` returns. -/
def Encodes (fd : Int32) (e : List UInt8) : Part → Prop
  | .aligned val => e = val
  | .unpadded bytes => e = bytes
  | .padded bytes => e = Binder.padded bytes
  | .units str => e = Binder.padded (unitBytes str ++ [0, 0])
  | .room len fill _ => ∃ x : List UInt8, x.length = len.toNat ∧ fill <+: x ∧ e = Binder.padded x
  | .object val _ => e = val.toBytes
  | .dup => e = (fdObject fd true).toBytes
  | .result _ => e = []

/-- A part that is neither an object nor the result of a callback. -/
def Plain : Part → Prop
  | .object _ _ => False
  | .dup => False
  | .result _ => False
  | _ => True

end Part

namespace Parcel

variable {p q r : Parcel}

theorem andThen_done (f : Parcel → Status × Parcel) : andThen f (fun q => (noError, q)) = f := by
  funext p
  unfold andThen
  dsimp only
  by_cases hf : (f p).1 = noError
  · rw [if_pos hf, ← hf]
  · rw [if_neg hf]

theorem andThen_of_done {f g : Parcel → Status × Parcel} (h : f p = (noError, q)) :
    andThen f g p = g q := by
  rw [andThen, h]
  exact if_pos rfl

theorem andThen_of_error {f g : Parcel → Status × Parcel} {st : Status} (h : f p = (st, q))
    (hst : st ≠ noError) : andThen f g p = (st, q) := by
  rw [andThen, h]
  exact if_neg hst

theorem andThen_assoc (f g h : Parcel → Status × Parcel) :
    andThen (andThen f g) h = andThen f (andThen g h) := by
  funext p
  unfold andThen
  dsimp only
  by_cases hf : (f p).1 = noError
  · rw [if_pos hf, if_pos hf]
  · rw [if_neg hf, if_neg hf, if_neg hf]

/-! ## Plain data -/

/-- How a part without object ends. -/
inductive Ended (p : Parcel) (x : Part) : Status × Parcel → Prop
  | stored {r q : Parcel} {e : List UInt8} (henc : x.Encodes 0 e)
      (hprepared : Prepared p r x.need) (hput : Put r q e) : Ended p x (noError, q)
  | nothing {st : Status} {r q : Parcel} (henc : x.Encodes 0 [])
      (hprepared : Prepared p r x.need) (hput : Put r q []) (hmData : r.mData = false)
      (hst : st = q.mError ∨ ∃ len fill, x = .room len fill st) : Ended p x (st, q)
  | failed {st : Status} {q : Parcel} (hlack : p.Lacks x.need) (hfailed : Failed p q)
      (hrefused : p.Refused) (hst : st ≠ noError) : Ended p x (st, q)
  | gaveUp {st : Status} (hlack : p.Lacks x.need)
      (hsize : growSize p.mDataSize x.need ≤ p.mDataSize)
      (hst : st ≠ noError ∨ st = p.mError) : Ended p x (st, p)

theorem Failed.mError (h : Failed p q) : q.mError = noMemory := by
  obtain ⟨data, newTable, rfl⟩ := h
  rfl

theorem Written.ended {x : Part} {e : List UInt8} {w : Status × Parcel} (henc : x.Encodes 0 e)
    (h : Written p x.need e w) : Ended p x w := by
  cases h with
  | stored hprepared hput => exact .stored henc hprepared hput
  | failed hlack hfailed hrefused => exact .failed hlack hfailed hrefused noMemory_ne
  | gaveUp hlack hsize => exact .gaveUp hlack hsize (.inl noMemory_ne)

theorem Filled.ended {x : Part} {e : List UInt8} {w : Status × Parcel} (henc : x.Encodes 0 e)
    (h : Filled p x.need e w) : Ended p x w := by
  cases h with
  | stored hprepared hput => exact .stored henc hprepared hput
  | @nothing r q hprepared hput he hmData =>
      rw [he] at henc hput
      exact .nothing henc hprepared hput hmData (.inl rfl)
  | failed hlack hfailed hrefused =>
      refine .failed hlack hfailed hrefused ?_
      rw [hfailed.mError]
      exact noMemory_ne
  | gaveUp hlack hsize => exact .gaveUp hlack hsize (.inr rfl)

theorem Buffer.of_ofNat {bytes : List UInt8} (h : bytes.length < 2 ^ 32) :
    (Buffer.of bytes (UInt32.ofNat bytes.length)).data = bytes :=
  List.take_of_length_le (UInt32.toNat_ofNat_of_lt' h).ge

theorem Buffer.len_of {bytes : List UInt8} (h : bytes.length < 2 ^ 32) :
    (Buffer.of bytes (UInt32.ofNat bytes.length)).len = UInt32.ofNat bytes.length := by
  rw [Buffer.len, Buffer.of_ofNat h]

/-- The caller of `writeInplace` fills the front of its room. -/
theorem Put.fill {x fill : List UInt8} (h : Put r q (padded x)) (hr : r.Sound)
    (hroom : r.mDataPos.toNat + (padded x).length ≤ r.mDataCapacity.toNat)
    (hfill : fill.length ≤ x.length) :
    Put r (q.storeAt r.mDataPos fill) (padded (fill ++ x.drop fill.length)) := by
  have hlength : (fill ++ x.drop fill.length).length = x.length := by
    rw [List.length_append, List.length_drop]
    omega
  have hsplit : padded x = [] ++ x.take fill.length ++ (x.drop fill.length ++
      List.replicate ((x.length + 3) / 4 * 4 - x.length) 0) := by
    rw [List.nil_append, ← List.append_assoc, List.take_append_drop, padded]
  rw [hsplit] at h hroom
  have hover : Put r (q.storeAt r.mDataPos fill) ([] ++ fill ++ (x.drop fill.length ++
      List.replicate ((x.length + 3) / 4 * 4 - x.length) 0)) :=
    h.overwrite hr hroom rfl (List.length_take_of_le hfill).symm
  rw [List.nil_append, ← List.append_assoc] at hover
  rwa [padded, hlength]

theorem room_ended (hs : p.Sound) {len : UInt32} {fill : List UInt8} {null : Status}
    (hsized : (Part.room len fill null).Sized) (hfit : p.Fits (padSize len)) :
    Ended p (.room len fill null) ((Part.room len fill null).run p) := by
  obtain ⟨hlen, hfill, hnull⟩ := hsized
  have hplaced := writeInplace_placed hs hlen hfit
  unfold Part.run
  dsimp only
  generalize p.writeInplace len = w at hplaced ⊢
  cases hplaced with
  | @placed r q x hprepared hx hput =>
      have hroom := hprepared.room
      rw [← hprepared.pos, padSize_toNat hlen, ← hx, ← padded_length] at hroom
      cases hmData : r.mData with
      | true =>
          have hfilled := hput.fill hprepared.toSound hroom (hx ▸ hfill)
          refine .stored ⟨_, ?_, List.prefix_append _ _, rfl⟩ hprepared hfilled
          rw [List.length_append, List.length_drop]
          omega
      | false =>
          have hzero : padSize len = 0 := by
            by_contra hne
            rw [hprepared.mData hne] at hmData
            cases hmData
          have hnone := padSize_eq_zero hlen hzero
          obtain rfl : x = [] := List.eq_nil_of_length_eq_zero (hx.trans hnone)
          have hnofill : fill = [] := List.eq_nil_of_length_eq_zero (by omega)
          refine .nothing ⟨[], hx, ?_, rfl⟩ hprepared hput hmData (.inr ⟨len, fill, rfl⟩)
          rw [hnofill]
  | failed hlack hfailed hrefused => exact .failed hlack hfailed hrefused hnull
  | gaveUp hlack hsize => exact .gaveUp hlack hsize (.inl hnull)

/-- How the parts end that are neither an object nor the result of a callback. -/
theorem Part.ended {x : Part} (hplain : x.Plain) (hs : p.Sound) (hsized : x.Sized)
    (hfit : p.Fits x.need) : Ended p x (x.run p) := by
  cases x with
  | aligned val => exact (writeAligned_written hs hsized hfit).ended rfl
  | unpadded bytes =>
      have hdata := Buffer.of_ofNat hsized
      have hlen := Buffer.len_of hsized
      have hwritten := writeUnpadded_written hs (b := .of bytes (UInt32.ofNat bytes.length))
        (by rw [hlen]; exact hfit)
      rw [hdata, hlen] at hwritten
      exact hwritten.ended rfl
  | padded bytes =>
      have hlt : bytes.length < 2 ^ 32 := by
        have hsized' : bytes.length + 3 < 2 ^ 32 := hsized
        omega
      have hdata := Buffer.of_ofNat hlt
      have hlen := Buffer.len_of hlt
      have hfilled := write_filled hs (b := .of bytes (UInt32.ofNat bytes.length))
        (by rw [hdata]; exact hsized) (by rw [hlen]; exact hfit)
      rw [hdata, hlen] at hfilled
      exact hfilled.ended rfl
  | units str =>
      have hsized' : 2 * str.length + 5 < 2 ^ 32 := hsized
      have hlen : (UInt32.ofNat str.length).toNat = str.length :=
        UInt32.toNat_ofNat_of_lt' (show str.length < 2 ^ 32 by omega)
      exact (writeUnits_filled hs hlen hsized hfit).ended rfl
  | room len fill null => exact room_ended hs hsized hfit
  | object val nullMetaData => exact absurd hplain id
  | dup => exact absurd hplain id
  | result status => exact absurd hplain id

/-! ## Objects -/

/-- There is an entry of the table for another object. -/
def HasEntry (p : Parcel) : Prop :=
  p.mObjectsSize < p.mObjectsCapacity

instance (p : Parcel) : Decidable p.HasEntry :=
  inferInstanceAs (Decidable (_ < _))

/-- `r`, which has the data and objects of `p`, after `writeObject` has asked for a larger
table when `p` needs one. -/
def tabled (p r : Parcel) : Parcel :=
  if p.HasEntry then r else (r.growObjects (((r.mObjectsSize + 2) * 3) / 2)).2

/-- An object at the position gets into the table. -/
def listed (p : Parcel) (val : FlatBinderObject) (nullMetaData : Bool) : Parcel :=
  if nullMetaData ∨ val.binder ≠ 0 then acquireObject val (p.pushObject p.mDataPos) else p

/-- A descriptor is remembered. -/
def noteFd (p : Parcel) (val : FlatBinderObject) : Parcel :=
  if val.type = binderTypeFd then { p with mHasFds := true, mFdsKnown := true } else p

/-- How `writeObject` ends. -/
inductive ObjectEnded (p : Parcel) (val : FlatBinderObject) (nullMetaData : Bool) :
    Status × Parcel → Prop
  | stored {r q : Parcel} (hprepared : Prepared p r 16)
      (hentry : p.HasEntry ∨ p.proc.answers.table 0 = true)
      (hallow : val.type = binderTypeFd → p.mAllowFds = true)
      (hput : Put (((p.tabled r).listed val nullMetaData).noteFd val) q val.toBytes) :
      ObjectEnded p val nullMetaData (noError, q)
  | forbidden {r : Parcel} {bytes : Mem} (hprepared : Prepared p r 16)
      (hentry : p.HasEntry ∨ p.proc.answers.table 0 = true)
      (hfd : val.type = binderTypeFd) (hallow : p.mAllowFds = false)
      (hbytes : bytes = r.bytes.store r.mDataPos val.toBytes) :
      ObjectEnded p val nullMetaData
        (fdsNotAllowed, { (p.tabled r).listed val nullMetaData with bytes := bytes })
  | noEntry {r : Parcel} (hprepared : Prepared p r 16) (hentry : ¬ p.HasEntry)
      (htable : p.proc.answers.table 0 = false) :
      ObjectEnded p val nullMetaData (noMemory, p.tabled r)
  | failed {q : Parcel} (hlack : p.Lacks 16) (hfailed : Failed p q) (hrefused : p.Refused) :
      ObjectEnded p val nullMetaData (noMemory, q)
  | gaveUp (hlack : p.Lacks 16) (hsize : growSize p.mDataSize 16 ≤ p.mDataSize) :
      ObjectEnded p val nullMetaData (noMemory, p)

/-- A new entry changes the table and what is held. -/
theorem listed_eq (p : Parcel) (val : FlatBinderObject) (nullMetaData : Bool) :
    p.listed val nullMetaData =
      { p with
        mObjects := (p.listed val nullMetaData).mObjects
        proc := { p.proc with
          held := (p.listed val nullMetaData).proc.held
          tableStrayed := (p.listed val nullMetaData).proc.tableStrayed } } := by
  unfold listed
  split
  · unfold acquireObject pushObject
    cases val.ref _ <;> rfl
  · rfl

theorem listed_bytes (p : Parcel) (val : FlatBinderObject) (nullMetaData : Bool) (bytes : Mem) :
    { p with bytes := bytes }.listed val nullMetaData =
      { p.listed val nullMetaData with bytes := bytes } := by
  unfold listed
  split
  · unfold acquireObject pushObject
    cases val.ref _ <;> rfl
  · rfl

/-- `writeObject` from `restart_write` on. -/
theorem storeObject_eq (hr : r.Sound) {val : FlatBinderObject} {nullMetaData : Bool}
    (hroom : r.mDataPos.toNat + 16 ≤ r.mDataCapacity.toNat) :
    r.storeObject val nullMetaData =
      if val.type = binderTypeFd ∧ r.mAllowFds = false then
        (fdsNotAllowed,
          { r.listed val nullMetaData with bytes := r.bytes.store r.mDataPos val.toBytes })
      else
        (noError, finishWrite { (r.listed val nullMetaData).noteFd val with
          bytes := r.bytes.store r.mDataPos val.toBytes } 16) := by
  have hfits : r.mDataPos.toNat + val.toBytes.length ≤ r.mDataCapacity.toNat := by
    rw [val.toBytes_length]
    exact hroom
  have hstore := hr.storeAt_eq hfits
  have hlisted := listed_bytes r val nullMetaData (r.bytes.store r.mDataPos val.toBytes)
  have hallow : (r.listed val nullMetaData).mAllowFds = r.mAllowFds := by rw [listed_eq]
  rw [listed] at hlisted
  unfold storeObject noteFd
  dsimp only at hlisted ⊢
  rw [hstore]
  dsimp only
  rw [hlisted]
  by_cases hfd : val.type = binderTypeFd
  · by_cases hforbidden : r.mAllowFds = false
    · have hnot : ¬ (r.listed val nullMetaData).mAllowFds = true := by
        rw [hallow, hforbidden]
        exact Bool.false_ne_true
      rw [if_pos hfd, if_neg hnot, if_pos ⟨hfd, hforbidden⟩]
    · have hallowed : (r.listed val nullMetaData).mAllowFds = true := by
        rw [hallow]
        exact Bool.eq_true_of_not_eq_false hforbidden
      rw [if_pos hfd, if_pos hallowed, if_neg fun h => hforbidden h.2, if_pos hfd]
  · rw [if_neg hfd, if_neg fun h => hfd h.1, if_neg hfd]

theorem sound_tabled (hr : r.Sound) : (p.tabled r).Sound := by
  unfold tabled growObjects
  split
  · exact hr
  · split <;> exact ⟨hr.fits, hr.extent, hr.null⟩

/-- A larger table changes nothing else. -/
theorem tabled_eq (p r : Parcel) :
    p.tabled r =
      { r with
        mObjectsCapacity := (p.tabled r).mObjectsCapacity
        objectsExtent := (p.tabled r).objectsExtent
        proc := { r.proc with
          answers := (p.tabled r).proc.answers
          tableStrayed := (p.tabled r).proc.tableStrayed } } := by
  unfold tabled growObjects
  split
  · rfl
  · split <;> rfl

theorem put_object {val : FlatBinderObject} {nullMetaData : Bool}
    (hroom : r.mDataPos.toNat + 16 ≤ r.mDataCapacity.toNat) :
    Put ((r.listed val nullMetaData).noteFd val)
      (finishWrite { (r.listed val nullMetaData).noteFd val with
        bytes := r.bytes.store r.mDataPos val.toBytes } 16) val.toBytes := by
  have hlength := val.toBytes_length
  have hcap := r.mDataCapacity.toNat_lt
  have hpos : ((r.listed val nullMetaData).noteFd val).mDataPos = r.mDataPos := by
    unfold noteFd
    split <;> rw [listed_eq]
  have hbytes : ((r.listed val nullMetaData).noteFd val).bytes = r.bytes := by
    unfold noteFd
    split <;> rw [listed_eq]
  refine put_finishWrite ?_ ?_ ?_ fun off k hk hout => ?_
  · rw [hlength]
    rfl
  · rw [hlength, hpos]
    omega
  · rw [hpos]
    exact Mem.load_store (by omega)
  · rw [hpos] at hout
    rw [hbytes]
    exact Mem.load_store_of_disjoint (by omega) hk hout

theorem writeObject_ended (hs : p.Sound) {val : FlatBinderObject} {nullMetaData : Bool}
    (hfit : p.Fits 16) : ObjectEnded p val nullMetaData (writeObject val nullMetaData p) := by
  have hcases := ensure_cases hs hfit
  unfold writeObject
  dsimp only
  generalize p.ensure _ _ = w at hcases ⊢
  cases hcases with
  | @ready r hprepared =>
      have hroom := hprepared.room
      have hsixteen : (16 : UInt32).toNat = 16 := rfl
      rw [← hprepared.pos, hsixteen] at hroom
      have htabled := tabled_eq p r
      have hallow : (p.tabled r).mAllowFds = p.mAllowFds := by
        rw [htabled]
        exact hprepared.allow
      have hat : (p.tabled r).mDataPos = r.mDataPos := by rw [htabled]
      have hroom' : (p.tabled r).mDataPos.toNat + 16 ≤ (p.tabled r).mDataCapacity.toNat := by
        rw [htabled]
        exact hroom
      -- with a place in the table the object is stored, and only then may it be forbidden
      have hstored (hentry : p.HasEntry ∨ p.proc.answers.table 0 = true) :
          ObjectEnded p val nullMetaData ((p.tabled r).storeObject val nullMetaData) := by
        rw [storeObject_eq (sound_tabled hprepared.toSound) hroom', hallow]
        by_cases hforbidden : val.type = binderTypeFd ∧ p.mAllowFds = false
        · rw [if_pos hforbidden]
          refine .forbidden hprepared hentry hforbidden.1 hforbidden.2 ?_
          rw [htabled]
        · rw [if_neg hforbidden]
          refine .stored hprepared hentry (fun hfd => ?_) (put_object hroom')
          exact Bool.eq_true_of_not_eq_false fun hallowed => hforbidden ⟨hfd, hallowed⟩
      have htable : r.proc.answers.table = p.proc.answers.table := by
        rw [hprepared.answers]
        split <;> rfl
      rw [if_pos rfl]
      by_cases hentry : p.HasEntry
      · have hself : p.tabled r = r := if_pos hentry
        rw [if_pos (by simpa [HasEntry] using hentry)]
        have hresult := hstored (.inl hentry)
        rwa [hself] at hresult
      · -- the table has to grow first
        have hgrown : p.tabled r = (r.growObjects (((r.mObjectsSize + 2) * 3) / 2)).2 :=
          if_neg hentry
        have hanswer : (r.growObjects (((r.mObjectsSize + 2) * 3) / 2)).1 =
            p.proc.answers.table 0 := by
          rw [← htable]
          unfold growObjects
          dsimp only
          split
          · exact ‹r.proc.answers.table 0 = true›.symm
          · exact (Bool.eq_false_of_not_eq_true ‹_›).symm
        rw [if_neg (by simpa [HasEntry] using hentry), hanswer, ← hgrown]
        cases hgranted : p.proc.answers.table 0 with
        | true => exact hstored (.inr hgranted)
        | false => exact .noEntry hprepared hentry hgranted
  | failed hlack hfailed hrefused => exact .failed hlack hfailed hrefused
  | gaveUp hlack hsize => exact .gaveUp hlack hsize

end Parcel
end Binder
end AndroidLinux
