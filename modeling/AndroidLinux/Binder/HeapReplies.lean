import AndroidLinux.Binder.MemoryHeaps
import AndroidLinux.Binder.Parts
import AndroidLinux.Binder.RoundTrip

/-!
# The reply to `HEAP_ID`

`BnMemoryHeap::onTransact` writes a descriptor and three words to a fresh Parcel and does
not look at the statuses.  The driver copies the data; only the handles of the objects are
new.  Where the reply has no error, the words that are read from the copy are those of the
server, whether there was room for the descriptor in the object table or not.
-/

namespace AndroidLinux
namespace Binder

open Lib

/-- What an `IMemoryHeap` of this process returns. -/
structure MemoryHeap where
  getHeapID : Int32
  getSize : UInt32
  getFlags : UInt32
  getOffset : UInt32
  deriving DecidableEq

/-- `BnMemoryHeap::onTransact` for `HEAP_ID`. -/
def MemoryHeap.onTransact (heap : MemoryHeap) (reply : Parcel) : Parcel :=
  let reply := (Parcel.writeFileDescriptor heap.getHeapID false reply).2
  let reply := (Parcel.writeInt32 heap.getSize.toInt32 reply).2
  let reply := (Parcel.writeInt32 heap.getFlags.toInt32 reply).2
  (Parcel.writeInt32 heap.getOffset.toInt32 reply).2

/-- The words behind the descriptor. -/
def MemoryHeap.words (heap : MemoryHeap) : List UInt8 :=
  leBytes 4 heap.getSize.toNat ++ leBytes 4 heap.getFlags.toNat ++
    leBytes 4 heap.getOffset.toNat

namespace Parcel

/-- The buffer that a process gets for a Parcel that another one has sent. -/
structure Delivered (sent : Parcel) (r : Received) : Prop where
  size : r.dataSize = sent.mDataSize
  objects : r.objects = sent.mObjects
  /-- Outside the objects the data are the same. -/
  data : ∀ (off : UInt32) (n : Nat), off.toNat + n ≤ sent.mDataSize.toNat →
    (∀ o ∈ sent.mObjects, off.toNat + n ≤ o.toNat ∨ o.toNat + 16 ≤ off.toNat) →
      r.data.load off n = sent.bytes.load off n

variable {p q : Parcel} {bs : List UInt8}

/-! ## Writing the reply -/

theorem Contains.failed (h : Contains p bs) (hfailed : Failed p q) : Contains q bs := by
  obtain ⟨data, newTable, rfl⟩ := hfailed
  exact ⟨⟨h.fits, h.extent, h.null⟩, h.size, h.pos, h.load, h.owner⟩

/-- A word is appended, or there is no memory. -/
theorem Contains.writeInt32 (h : Contains p bs) (hlen : bs.length < 2 ^ 20) (x : UInt32) :
    ∃ bs', Contains (Parcel.writeInt32 x.toInt32 p).2 bs' ∧ bs'.length ≤ bs.length + 4 ∧
      ((Parcel.writeInt32 x.toInt32 p).2.mError = noError →
        p.mError = noError ∧ bs' = bs ++ leBytes 4 x.toNat ∧
          (Parcel.writeInt32 x.toInt32 p).2.mObjects = p.mObjects) := by
  have hfour : (UInt32.ofNat (leBytes 4 x.toNat).length).toNat = 4 := by
    rw [leBytes_length]
    rfl
  have hn : (bs.length + (UInt32.ofNat (leBytes 4 x.toNat).length).toNat) * 3 < 2 ^ 32 := by
    rw [hfour]
    omega
  have hval : (leBytes 4 x.toNat).length < 2 ^ 32 := by
    rw [leBytes_length]
    decide
  have hwritten := writeAligned_written h.toSound hval (h.fits_of_lt hn)
  have hword : x.toInt32.toUInt32 = x := rfl
  unfold Parcel.writeInt32
  rw [hword]
  generalize Parcel.writeAligned _ p = w at hwritten ⊢
  cases hwritten with
  | @stored r q hprepared hput =>
      have hopened := h.opened hprepared
      rw [hfour, ← leBytes_length 4 x.toNat] at hopened
      refine ⟨_, hopened.put hput, ?_, fun herror => ⟨?_, rfl, ?_⟩⟩
      · rw [List.length_append, leBytes_length]
      · rw [hput.same] at herror
        exact hprepared.mError.symm.trans herror
      · rw [hput.same]
        exact hprepared.mObjects
  | @failed q hlack hfailed hrefused =>
      have herror := hfailed.mError
      refine ⟨bs, h.failed hfailed, Nat.le_add_right _ _, fun hnone => ?_⟩
      exact absurd (herror.symm.trans hnone) noMemory_ne
  | gaveUp hlack hsize => exact absurd hsize (h.not_gaveUp hn hlack)

/-- The table, what is held and the cache of `hasFileDescriptors` are all that is changed
before an object is stored. -/
theorem entered_eq (p r : Parcel) (val : FlatBinderObject) (nullMetaData : Bool) :
    ((p.tabled r).listed val nullMetaData).noteFd val =
      { r with
        mObjects := (((p.tabled r).listed val nullMetaData).noteFd val).mObjects
        mObjectsCapacity := (((p.tabled r).listed val nullMetaData).noteFd val).mObjectsCapacity
        objectsExtent := (((p.tabled r).listed val nullMetaData).noteFd val).objectsExtent
        mHasFds := (((p.tabled r).listed val nullMetaData).noteFd val).mHasFds
        mFdsKnown := (((p.tabled r).listed val nullMetaData).noteFd val).mFdsKnown
        proc := (((p.tabled r).listed val nullMetaData).noteFd val).proc } := by
  have hlisted := listed_eq (p.tabled r) val nullMetaData
  have htabled := tabled_eq p r
  generalize (p.tabled r).listed val nullMetaData = x at hlisted ⊢
  generalize p.tabled r = y at hlisted htabled
  unfold noteFd
  split
  · rw [hlisted, htabled]
  · rw [hlisted, htabled]

theorem mObjects_entered (p r : Parcel) (val : FlatBinderObject) :
    (((p.tabled r).listed val true).noteFd val).mObjects = r.mObjects ++ [r.mDataPos] := by
  have htabled := tabled_eq p r
  have hnote : (((p.tabled r).listed val true).noteFd val).mObjects =
      ((p.tabled r).listed val true).mObjects := by
    unfold noteFd
    split <;> rfl
  rw [hnote]
  unfold listed
  rw [if_pos (.inl rfl), framed_acquireObject val _]
  show (p.tabled r).mObjects ++ [(p.tabled r).mDataPos] = _
  rw [htabled]

/-- A descriptor and its entry are appended; without an entry nothing is. -/
theorem Contains.writeFileDescriptor (h : Contains p []) (hobjects : p.mObjects = [])
    (hallow : p.mAllowFds = true) (fd : Int32) :
    ∃ bs', Contains (Parcel.writeFileDescriptor fd false p).2 bs' ∧ bs'.length ≤ 16 ∧
      ((Parcel.writeFileDescriptor fd false p).2.mError = noError → p.mError = noError ∧
        (bs' = (fdObject fd false).toBytes ∧
            (Parcel.writeFileDescriptor fd false p).2.mObjects = [0] ∨
          bs' = [] ∧ (Parcel.writeFileDescriptor fd false p).2.mObjects = [])) := by
  have hn : (([] : List UInt8).length + (16 : UInt32).toNat) * 3 < 2 ^ 32 := by decide
  have hended : ObjectEnded p (fdObject fd false) true (writeObject (fdObject fd false) true p) :=
    writeObject_ended h.toSound (h.fits_of_lt hn)
  have hlength := (fdObject fd false).toBytes_length
  unfold Parcel.writeFileDescriptor
  generalize writeObject _ true p = w at hended ⊢
  cases hended with
  | @stored r q hprepared hentry hallowed hput =>
      have hopened := h.opened hprepared
      have hentered := entered_eq p r (fdObject fd false) true
      have hmObjects := mObjects_entered p r (fdObject fd false)
      -- the object is the first thing in the Parcel
      have hzero : r.mDataPos = 0 := by
        have hpos := hopened.pos_toNat
        rw [List.length_nil] at hpos
        exact UInt32.toNat_inj.mp (by rw [hpos]; rfl)
      rw [hprepared.mObjects, hobjects, hzero] at hmObjects
      generalize ((p.tabled r).listed _ true).noteFd _ = r' at hentered hmObjects hput
      have hopened' : Opened r' [] (fdObject fd false).toBytes.length := by
        rw [hlength, hentered]
        exact ⟨⟨⟨hopened.fits, hopened.extent, hopened.null⟩, hopened.size, hopened.pos,
          hopened.load, hopened.owner⟩, hopened.room⟩
      have hcontains := hopened'.put hput
      rw [List.nil_append] at hcontains
      have herror : q.mError = p.mError := by
        rw [hput.same, hentered]
        exact hprepared.mError
      have hlisted : q.mObjects = [0] := by
        rw [hput.same]
        exact hmObjects
      exact ⟨_, hcontains, hlength.le, fun hnone =>
        ⟨herror.symm.trans hnone, .inl ⟨rfl, hlisted⟩⟩⟩
  | forbidden hprepared hentry hfd hnot hbytes =>
      rw [hallow] at hnot
      cases hnot
  | @noEntry r hprepared hentry htable =>
      have hopened := h.opened hprepared
      have htabled := tabled_eq p r
      refine ⟨[], ?_, Nat.zero_le _, fun herror => ⟨?_, .inr ⟨rfl, ?_⟩⟩⟩
      · rw [htabled]
        exact ⟨⟨hopened.fits, hopened.extent, hopened.null⟩, hopened.size, hopened.pos,
          hopened.load, hopened.owner⟩
      · rw [htabled] at herror
        exact hprepared.mError.symm.trans herror
      · rw [htabled]
        exact hprepared.mObjects.trans hobjects
  | @failed q hlack hfailed hrefused =>
      have herror := hfailed.mError
      refine ⟨[], h.failed hfailed, Nat.zero_le _, fun hnone => ?_⟩
      exact absurd (herror.symm.trans hnone) noMemory_ne
  | gaveUp hlack hsize => exact absurd hsize (h.not_gaveUp hn hlack)

/-! ## What is sent -/

/-- A reply without error has the words of the server at its end, and before them at most
the descriptor. -/
theorem sent_of_noError (heap : MemoryHeap) (p : Parcel)
    (h : (heap.onTransact p.initState).mError = noError) :
    ∃ front : List UInt8, Contains (heap.onTransact p.initState) (front ++ heap.words) ∧
      (front.length = 16 ∧ (heap.onTransact p.initState).mObjects = [0] ∨
        front = [] ∧ (heap.onTransact p.initState).mObjects = []) := by
  have hstart : Contains p.initState [] :=
    ⟨⟨Nat.le_refl _, rfl, fun _ => ⟨rfl, rfl⟩⟩, rfl, rfl, rfl, rfl⟩
  unfold MemoryHeap.onTransact at h ⊢
  dsimp only at h ⊢
  obtain ⟨b1, h1, hlen1, hfd⟩ := hstart.writeFileDescriptor rfl rfl heap.getHeapID
  generalize (Parcel.writeFileDescriptor heap.getHeapID false p.initState).2 = q1 at *
  obtain ⟨b2, h2, hlen2, hsize⟩ := h1.writeInt32 (by omega) heap.getSize
  generalize (Parcel.writeInt32 heap.getSize.toInt32 q1).2 = q2 at *
  obtain ⟨b3, h3, hlen3, hflags⟩ := h2.writeInt32 (by omega) heap.getFlags
  generalize (Parcel.writeInt32 heap.getFlags.toInt32 q2).2 = q3 at *
  obtain ⟨b4, h4, -, hoffset⟩ := h3.writeInt32 (by omega) heap.getOffset
  obtain ⟨herror3, rfl, hobjects3⟩ := hoffset h
  obtain ⟨herror2, rfl, hobjects2⟩ := hflags herror3
  obtain ⟨herror1, rfl, hobjects1⟩ := hsize herror2
  obtain ⟨-, hfront⟩ := hfd herror1
  rw [hobjects3, hobjects2, hobjects1]
  refine ⟨b1, ?_, ?_⟩
  · unfold MemoryHeap.words
    rw [List.append_assoc, List.append_assoc] at h4
    rwa [List.append_assoc]
  · rcases hfront with ⟨rfl, hone⟩ | hnone
    · exact .inl ⟨FlatBinderObject.toBytes_length _, hone⟩
    · exact .inr hnone

/-! ## Reading it -/

theorem framed_scan (offs : List UInt32) (p : Parcel) : Framed p (scan offs p).2 := by
  induction offs generalizing p with
  | nil => exact .refl p
  | cons off offs ih =>
      unfold scan
      dsimp only
      split
      · exact framed_touch p _ off 4
      · exact (framed_touch p _ off 4).trans (ih _)

theorem framed_foldl_hold (offs : List UInt32) (x : UInt32 → Resource) (p : Parcel) :
    Framed p (offs.foldl (fun s off => s.hold (x off)) p) := by
  induction offs generalizing p with
  | nil => exact .refl p
  | cons off offs ih => exact (framed_hold p (x off)).trans (ih _)

/-- `q` has the data and the position of `p`. -/
structure SameData (p q : Parcel) : Prop where
  mData : q.mData = p.mData
  bytes : q.bytes = p.bytes
  size : q.mDataSize = p.mDataSize
  pos : q.mDataPos = p.mDataPos

theorem Framed.sameData (h : Framed p q) : SameData p q := by
  unfold Framed at h
  constructor
  · rw [h]
  · rw [h]
  · rw [h]
  · rw [h]

theorem sameData_scanForFds (p : Parcel) : SameData p p.scanForFds :=
  have h := (framed_scan p.mObjects p).sameData
  ⟨h.mData, h.bytes, h.size, h.pos⟩

theorem ipcSetDataReference_data (p : Parcel) (r : Received) :
    (p.ipcSetDataReference r).mData = true ∧ (p.ipcSetDataReference r).bytes = r.data ∧
      (p.ipcSetDataReference r).mDataSize = r.dataSize ∧
      (p.ipcSetDataReference r).mDataPos = 0 := by
  unfold ipcSetDataReference
  dsimp only
  refine ⟨?_, ?_, ?_, ?_⟩
  · rw [(sameData_scanForFds _).mData, (framed_foldl_hold _ _ _).sameData.mData]
  · rw [(sameData_scanForFds _).bytes, (framed_foldl_hold _ _ _).sameData.bytes]
  · rw [(sameData_scanForFds _).size, (framed_foldl_hold _ _ _).sameData.size]
  · rw [(sameData_scanForFds _).pos, (framed_foldl_hold _ _ _).sameData.pos]

/-- The data of a received Parcel are unread. -/
theorem unread_ipcSetDataReference (p : Parcel) {r : Received}
    (hsmall : r.dataSize.toNat < 2 ^ 30) :
    Unread (p.ipcSetDataReference r) (r.data.load 0 r.dataSize.toNat) := by
  obtain ⟨hmData, hbytes, hsize, hpos⟩ := ipcSetDataReference_data p r
  have hlength := Mem.load_length r.data 0 r.dataSize.toNat
  refine ⟨?_, ?_, ?_, fun _ => hmData⟩
  · rw [hpos, hsize, hlength]
    exact Nat.zero_add _
  · rw [hpos, hbytes, hlength]
  · rw [hsize]
    exact hsmall

/-- An object is passed over. -/
theorem Unread.readObject {rest : List UInt8} (h : Unread p (bs ++ rest)) (hlen : bs.length = 16)
    (nullMetaData : Bool) : Unread (p.readObject nullMetaData).2 rest := by
  have havail := h.avail
  have hsmall := h.small
  rw [List.length_append, hlen] at havail
  have hsixteen : (16 : UInt32).toNat = 16 := rfl
  have hpos : (p.mDataPos + 16).toNat = p.mDataPos.toNat + bs.length := by
    rw [UInt32.toNat_add, hsixteen, hlen]
    exact Nat.mod_eq_of_lt (by omega)
  have htest : p.mDataPos + 16 ≤ p.mDataSize := by
    rw [UInt32.le_iff_toNat_le, hpos, hlen]
    omega
  have hrest := h.advance p.mDataSize p.mDataPos 16 hpos
  unfold Parcel.readObject
  dsimp only
  rw [if_pos htest]
  split
  · exact hrest
  · split
    · exact ⟨hrest.avail, hrest.load, hrest.small, hrest.mData⟩
    · exact hrest

/-- There are not the bytes of an object. -/
theorem Unread.readObject_none {rest : List UInt8} (h : Unread p rest) (hlen : rest.length < 16)
    (nullMetaData : Bool) : (p.readObject nullMetaData).2 = p := by
  have havail := h.avail
  have hsmall := h.small
  have hsixteen : (16 : UInt32).toNat = 16 := rfl
  have hpos : (p.mDataPos + 16).toNat = p.mDataPos.toNat + 16 := by
    rw [UInt32.toNat_add, hsixteen]
    exact Nat.mod_eq_of_lt (by omega)
  have htest : ¬ p.mDataPos + 16 ≤ p.mDataSize := by
    rw [UInt32.le_iff_toNat_le, hpos]
    omega
  unfold Parcel.readObject
  dsimp only
  rw [if_neg htest]

theorem MemoryHeap.words_length (heap : MemoryHeap) : heap.words.length = 12 := by
  simp only [MemoryHeap.words, List.length_append, leBytes_length]

/-- The words of the server behind at most an object. -/
theorem read_words (heap : MemoryHeap) {p : Parcel} {front : List UInt8}
    (h : Unread p (front ++ heap.words)) (hfront : front.length = 16 ∨ front = []) :
    ∃ fd, HeapReply.read p =
      ⟨fd, heap.getSize.toInt32, heap.getFlags.toInt32, heap.getOffset.toInt32⟩ := by
  have hunread : Unread p.readFileDescriptor.2 heap.words := by
    rcases hfront with hlen | rfl
    · exact h.readObject hlen true
    · rw [List.nil_append] at h
      have hlt : heap.words.length < 16 := by
        rw [MemoryHeap.words_length]
        decide
      have hnone := h.readObject_none hlt true
      show Unread (p.readObject true).2 heap.words
      rwa [hnone]
  unfold MemoryHeap.words at hunread
  rw [List.append_assoc] at hunread
  obtain ⟨q1, hq1, h1⟩ := hunread.readInt32
  obtain ⟨q2, hq2, h2⟩ := h1.readInt32
  rw [← List.append_nil (leBytes 4 heap.getOffset.toNat)] at h2
  obtain ⟨q3, hq3, -⟩ := h2.readInt32
  refine ⟨p.readFileDescriptor.1, ?_⟩
  unfold HeapReply.read
  dsimp only
  rw [hq1]
  dsimp only
  rw [hq2]
  dsimp only
  rw [hq3]

/-- The words are read, whatever the descriptor is. -/
theorem read_delivered (heap : MemoryHeap) (reply client : Parcel) {r : Received}
    (h : (heap.onTransact reply.initState).mError = noError)
    (hdelivered : Delivered (heap.onTransact reply.initState) r) :
    ∃ fd, HeapReply.read (client.ipcSetDataReference r) =
      ⟨fd, heap.getSize.toInt32, heap.getFlags.toInt32, heap.getOffset.toInt32⟩ := by
  obtain ⟨front, hsent, hfront⟩ := sent_of_noError heap reply h
  generalize heap.onTransact reply.initState = sent at *
  have hwords := MemoryHeap.words_length heap
  have hsize := hsent.size
  have hload := hsent.load
  rw [List.length_append, hwords] at hsize
  rw [List.length_append, Mem.load_add, UInt32.zero_add] at hload
  have htail := (List.append_inj hload (Mem.load_length _ _ _)).2
  -- the driver changes nothing behind the descriptor
  have hdata : r.data.load (UInt32.ofNat front.length) heap.words.length = heap.words := by
    rw [hdelivered.data, htail]
    · rcases hfront with ⟨hlen, -⟩ | ⟨rfl, -⟩
      · rw [hlen, hwords]
        rw [hlen] at hsize
        exact hsize.ge
      · exact hsize.ge
    · rcases hfront with ⟨hlen, hone⟩ | ⟨-, hnone⟩
      · intro o ho
        rw [hone, List.mem_singleton] at ho
        subst ho
        rw [hlen]
        exact .inr (Nat.le_refl _)
      · intro o ho
        rw [hnone] at ho
        exact absurd ho List.not_mem_nil
  -- in front of the words there is a descriptor or nothing
  have hfrontSize : front.length = 16 ∨ front = [] := by
    rcases hfront with ⟨hlen, -⟩ | ⟨hnil, -⟩
    · exact .inl hlen
    · exact .inr hnil
  have hsmall : front.length ≤ 16 := by
    rcases hfrontSize with hlen | rfl
    · exact hlen.le
    · exact Nat.zero_le _
  have hreceived : r.dataSize.toNat = front.length + heap.words.length := by
    rw [hdelivered.size, hsize, hwords]
  have hunread := unread_ipcSetDataReference client (r := r) (by omega)
  rw [hreceived, Mem.load_add, UInt32.zero_add, hdata] at hunread
  refine read_words heap hunread ?_
  rcases hfrontSize with hlen | rfl
  · exact .inl ((Mem.load_length _ _ _).trans hlen)
  · exact .inr rfl

end Parcel
end Binder
end AndroidLinux
