import AndroidLinux.Binder.ObjectLookup
import AndroidLinux.Binder.Writing

/-!
# Structured reads of a Parcel

`read(FlattenableHelperInterface&)` and `readNativeHandle`, with what they hand over and
where they write.  Lengths and counts come from the message.

The length is padded before it is checked, and `PAD_SIZE` wraps to 0 just below 2^32.  The
handle is written to without a test of its pointer, of the counts or of their sum, and the
status of the loop over its descriptors is overwritten by that of the `read` that follows.
-/

namespace AndroidLinux
namespace Binder

open Lib

/-- A call of `unflatten`; `start` is the offset of the buffer. -/
structure UnflattenCall where
  start : UInt32
  len : UInt32
  fds : List Int32
  fdCount : UInt32
  deriving DecidableEq

/-- What `readNativeHandle` does: the results of `dup`, whether a handle is returned, what it
was created with, and the bytes written, each with the offset from `data`. -/
structure NativeRead where
  returned : Bool
  created : Bool
  numFds : Int32
  numInts : Int32
  dups : List Int32
  room : Nat
  writes : List (Int × Nat)
  deriving DecidableEq

namespace Parcel

/-- The loop over descriptors, which stops at the first one that is not duplicated; `dup k` is
the answer of the `k`-th call of `dup` to the descriptor it is given. -/
def dupLoop (dup : Nat → Int32 → Int32) : Nat → Nat → Parcel → List Int32 × Parcel
  | _, 0, p => ([], p)
  | k, n + 1, p =>
      let r := p.readFileDescriptor
      let fd := dup k r.1
      if fd < 0 then ([fd], r.2)
      else
        let rest := dupLoop dup (k + 1) n r.2
        (fd :: rest.1, rest.2)

/-- `read(FlattenableHelperInterface&)`, with the call of `unflatten`.  `granted` is the answer
to `new`, which throws when it fails: then no status is returned. -/
def readFlattenable (dup : Nat → Int32 → Int32) (granted : Bool)
    (unflatten : UnflattenCall → Status) (p : Parcel) :
    Option Status × Option UnflattenCall × Parcel :=
  let l := p.readInt32
  let len := l.1.toUInt32
  let c := l.2.readInt32
  let fdCount := c.1.toUInt32
  let b := c.2.readInplace (padSize len)
  match b.1 with
  | none => (some badValue, none, b.2)
  | some _ =>
      if fdCount ≠ 0 ∧ granted = false then (none, none, b.2)
      else
        let d := dupLoop dup 0 fdCount.toNat b.2
        if d.1.all fun fd => 0 ≤ fd then
          let call := ⟨c.2.mDataPos, len, d.1, fdCount⟩
          (some (unflatten call), some call, d.2)
        else (some badValue, none, d.2)

/-- `sizeof(native_handle_t)`. -/
def sizeofNativeHandle : UInt32 := 12

/-- The bytes of `data` behind `native_handle_create`. -/
def nativeRoom (numFds numInts : Int32) : Nat :=
  (sizeofNativeHandle + 4 * (numFds + numInts).toUInt32).toNat - sizeofNativeHandle.toNat

/-- The counts of a native handle. -/
def nativeCounts (p : Parcel) : Option (Int32 × Int32) × Parcel :=
  let f := p.readInt32Status
  match f.1 with
  | none => (none, f.2)
  | some numFds =>
      let i := f.2.readInt32Status
      (i.1.map fun numInts => (numFds, numInts), i.2)

/-- `readNativeHandle`; `granted` is the answer to `malloc`.  What is closed behind an error is
left out. -/
def readNativeHandle (dup : Nat → Int32 → Int32) (granted : Bool) (p : Parcel) :
    NativeRead × Parcel :=
  let n := p.nativeCounts
  match n.1 with
  | none => (⟨false, false, 0, 0, [], 0, []⟩, n.2)
  | some (numFds, numInts) =>
      let d := dupLoop dup 0 numFds.toInt.toNat n.2
      let len := 4 * numInts.toUInt32
      let r := d.2.read len
      let fdWrites := (List.range d.1.length).map fun i : Nat => (4 * (i : Int), 4)
      let intWrites := if r.1.isSome ∧ len ≠ 0 then [(4 * numFds.toInt, len.toNat)] else []
      (⟨r.1.isSome && granted, granted, numFds, numInts, d.1, nativeRoom numFds numInts,
        fdWrites ++ intWrites⟩, r.2)

end Parcel

/-! ## The purpose -/

/-- A handle that is returned has counts and descriptors as it should, and all writes are to the
slots that have been allocated. -/
structure NativeRead.Bounded (r : NativeRead) : Prop where
  counts : r.returned = true → 0 ≤ r.numFds ∧ 0 ≤ r.numInts
  dups : r.returned = true → r.dups.length = r.numFds.toInt.toNat ∧ ∀ fd ∈ r.dups, 0 ≤ fd
  writes : ∀ w ∈ r.writes, r.created = true ∧ 0 ≤ w.1 ∧ w.1 + w.2 ≤ r.room ∧
    w.1 + w.2 ≤ 4 * (r.numFds.toInt + r.numInts.toInt)

namespace Parcel

/-- `unflatten` is called with a buffer inside of the data, and with descriptors that have all
been duplicated. -/
def FlattenBounded (mDataSize : UInt32) (call : Option UnflattenCall) : Prop :=
  ∀ c, call = some c → c.start.toNat + c.len.toNat ≤ mDataSize.toNat ∧
    c.fds.length = c.fdCount.toNat ∧ ∀ fd ∈ c.fds, 0 ≤ fd

/-! ## The condition -/

/-- The length does not wrap when it is padded. -/
def LenFits (p : Parcel) : Prop := p.readInt32.1.toUInt32.toNat + 3 < 2 ^ 32

instance (p : Parcel) : Decidable p.LenFits := inferInstanceAs (Decidable (_ < _))

/-- The handle is created, with counts that are not negative and a size that does not wrap. -/
def CountsFit (p : Parcel) (granted : Bool) : Prop :=
  ∀ numFds numInts, p.nativeCounts.1 = some (numFds, numInts) →
    granted = true ∧ 0 ≤ numFds ∧ 0 ≤ numInts ∧
      12 + 4 * (numFds.toInt + numInts.toInt) < 2 ^ 32

/-- The position behind `k` objects; one that does not fit is not passed. -/
def objectsEnd (p : Parcel) : Nat → UInt32
  | 0 => p.mDataPos
  | k + 1 => if p.objectsEnd k + 16 ≤ p.mDataSize then p.objectsEnd k + 16 else p.objectsEnd k

/-- The Parcel behind `k` descriptors. -/
def behindDescriptors : Nat → Parcel → Parcel
  | 0, p => p
  | k + 1, p => behindDescriptors k p.readFileDescriptor.2

/-- The `k`-th descriptor of the message. -/
def descriptor (p : Parcel) (k : Nat) : Int32 := (p.behindDescriptors k).readFileDescriptor.1

/-- `dup` duplicates every descriptor of the handle, or behind the object of the first one that
it does not duplicate there are too few bytes for the numbers. -/
def HandleComplete (p : Parcel) (dup : Nat → Int32 → Int32) : Prop :=
  ∀ numFds numInts, p.nativeCounts.1 = some (numFds, numInts) →
    let q := p.nativeCounts.2
    (∀ k < numFds.toInt.toNat, 0 ≤ dup k (q.descriptor k)) ∨
      ∃ j < numFds.toInt.toNat, (∀ k < j, 0 ≤ dup k (q.descriptor k)) ∧
        dup j (q.descriptor j) < 0 ∧
        (q.mDataSize.toNat : Int) < (q.objectsEnd (j + 1)).toNat + 4 * numInts.toInt

/-- A Parcel with data, at any position in it. -/
structure AtData (p : Parcel) : Prop where
  mData : p.mData = true
  inside : p.mDataPos ≤ p.mDataSize
  small : p.mDataSize.toNat + 4 ≤ 2 ^ 32

/-! ## What reading leaves -/

theorem readFileDescriptor_mDataSize (p : Parcel) :
    p.readFileDescriptor.2.mDataSize = p.mDataSize := by
  have htouch := (sameContent_touch p p.mDataSize p.mDataPos 16).mDataSize
  unfold readFileDescriptor readObject
  dsimp only
  split
  · split
    · exact htouch
    · split <;> exact htouch
  · rfl

theorem readFileDescriptor_mDataPos (p : Parcel) : p.readFileDescriptor.2.mDataPos =
    if p.mDataPos + 16 ≤ p.mDataSize then p.mDataPos + 16 else p.mDataPos := by
  unfold readFileDescriptor readObject
  dsimp only
  split
  · split
    · rfl
    · split <;> rfl
  · rfl

theorem behindDescriptors_succ (p : Parcel) (k : Nat) :
    p.behindDescriptors (k + 1) = (p.behindDescriptors k).readFileDescriptor.2 := by
  induction k generalizing p with
  | zero => rfl
  | succ k ih => exact ih p.readFileDescriptor.2

theorem behindDescriptors_mDataSize (p : Parcel) (k : Nat) :
    (p.behindDescriptors k).mDataSize = p.mDataSize := by
  induction k with
  | zero => rfl
  | succ k ih => rw [behindDescriptors_succ, readFileDescriptor_mDataSize, ih]

theorem behindDescriptors_mDataPos (p : Parcel) (k : Nat) :
    (p.behindDescriptors k).mDataPos = p.objectsEnd k := by
  induction k with
  | zero => rfl
  | succ k ih =>
      rw [behindDescriptors_succ, readFileDescriptor_mDataPos, behindDescriptors_mDataSize, ih]
      rfl

/-! ## The loop over descriptors -/

theorem all_nonneg {fds : List Int32} (h : (fds.all fun fd => 0 ≤ fd) = true) :
    ∀ fd ∈ fds, 0 ≤ fd := fun fd hfd =>
  of_decide_eq_true (List.all_eq_true.mp h fd hfd)

variable {dup : Nat → Int32 → Int32}

/-- Without an error, all descriptors have been read. -/
theorem length_dupLoop {n k : Nat} {p : Parcel} (h : ∀ fd ∈ (dupLoop dup k n p).1, 0 ≤ fd) :
    (dupLoop dup k n p).1.length = n := by
  induction n generalizing k p with
  | zero => rfl
  | succ n ih =>
      rw [dupLoop] at h ⊢
      dsimp only at h ⊢
      split at h
      · rename_i hneg
        have hpos := h _ (List.mem_singleton_self _)
        exact absurd hneg (Int32.not_lt.mpr hpos)
      · rename_i hpos
        rw [if_neg hpos, List.length_cons,
          ih fun fd hfd => h fd (List.mem_cons_of_mem _ hfd)]

theorem length_dupLoop_le (n k : Nat) (p : Parcel) : (dupLoop dup k n p).1.length ≤ n := by
  induction n generalizing k p with
  | zero => exact le_rfl
  | succ n ih =>
      rw [dupLoop]
      dsimp only
      split
      · exact Nat.succ_le_succ (Nat.zero_le n)
      · exact Nat.succ_le_succ (ih _ _)

/-- The loop duplicates all descriptors, or it stands behind the first one that it does not. -/
theorem dupLoop_cases (dup : Nat → Int32 → Int32) (k n : Nat) (p : Parcel) :
    ((∀ i < n, 0 ≤ dup (k + i) (p.descriptor i)) ∧ ∀ fd ∈ (dupLoop dup k n p).1, 0 ≤ fd) ∨
      ∃ j < n, (∀ i < j, 0 ≤ dup (k + i) (p.descriptor i)) ∧
        dup (k + j) (p.descriptor j) < 0 ∧
        dup (k + j) (p.descriptor j) ∈ (dupLoop dup k n p).1 ∧
        (dupLoop dup k n p).2 = p.behindDescriptors (j + 1) := by
  induction n generalizing k p with
  | zero => exact .inl ⟨fun i hi => absurd hi (Nat.not_lt_zero i), fun fd hfd => by cases hfd⟩
  | succ n ih =>
      rw [dupLoop]
      dsimp only
      by_cases hneg : dup k p.readFileDescriptor.1 < 0
      · rw [if_pos hneg]
        exact .inr ⟨0, Nat.succ_pos n, fun i hi => absurd hi (Nat.not_lt_zero i), hneg,
          List.mem_singleton_self _, rfl⟩
      · rw [if_neg hneg]
        have hfirst : 0 ≤ dup k p.readFileDescriptor.1 := Int32.not_lt.mp hneg
        have hbelow {j : Nat} (hj : ∀ i < j, 0 ≤ dup (k + 1 + i)
            (p.readFileDescriptor.2.descriptor i)) (i : Nat) (hi : i < j + 1) :
            0 ≤ dup (k + i) (p.descriptor i) := by
          cases i with
          | zero => exact hfirst
          | succ i =>
              have hstep := hj i (by omega)
              rwa [Nat.add_right_comm] at hstep
        rcases ih (k + 1) p.readFileDescriptor.2 with ⟨hall, hdups⟩ | ⟨j, hj, hall, hfd, hin, hend⟩
        · refine .inl ⟨hbelow hall, fun fd hfd => ?_⟩
          rcases List.mem_cons.mp hfd with rfl | hfd
          · exact hfirst
          · exact hdups fd hfd
        · rw [Nat.add_right_comm] at hfd hin
          exact .inr ⟨j + 1, Nat.succ_lt_succ hj, hbelow hall, hfd,
            List.mem_cons_of_mem _ hin, hend⟩

/-! ## The buffer of `unflatten` -/

theorem readInt32_mDataSize (p : Parcel) : p.readInt32.2.mDataSize = p.mDataSize := by
  have htouch := (sameContent_touch p p.mDataSize p.mDataPos 4).mDataSize
  unfold readInt32 readInt32Status readAligned
  dsimp only
  split
  · exact htouch
  · rfl

theorem AtData.readInt32 {p : Parcel} (h : p.AtData) : p.readInt32.2.AtData := by
  refine ⟨?_, ?_, (readInt32_mDataSize p).symm ▸ h.small⟩
  · unfold Parcel.readInt32 readInt32Status readAligned touch
    dsimp only
    split
    · split <;> exact h.mData
    · exact h.mData
  · rw [readInt32_mDataSize]
    unfold Parcel.readInt32 readInt32Status readAligned
    dsimp only
    split
    · assumption
    · exact h.inside

/-- The bytes that can be read are inside of the data. -/
theorem canRead_inside {p : Parcel} {len : UInt32} (h : p.canRead len = true) :
    p.mDataPos.toNat + (padSize len).toNat ≤ p.mDataSize.toNat ∧
      len.toNat ≤ (padSize len).toNat := by
  obtain ⟨hpos, hend, hlen⟩ := of_decide_eq_true h
  have hpos' := UInt32.le_iff_toNat_le.mp hpos
  have hend' := UInt32.le_iff_toNat_le.mp hend
  have hlt := p.mDataPos.toNat_lt
  have hlt' := (padSize len).toNat_lt
  rw [UInt32.toNat_add] at hpos' hend'
  exact ⟨by omega, UInt32.le_iff_toNat_le.mp hlen⟩

theorem le_padSize {len : UInt32} (h : len.toNat + 3 < 2 ^ 32) :
    len.toNat ≤ (padSize len).toNat := by
  rw [padSize_toNat h]
  omega

/-- Just below 2^32 the padded length is 0. -/
theorem padSize_wrapped {len : UInt32} (h : ¬ len.toNat + 3 < 2 ^ 32) : padSize len = 0 := by
  have hlt := len.toNat_lt
  have hcases : len = 4294967293 ∨ len = 4294967294 ∨ len = 4294967295 := by
    have hnat : len.toNat = 4294967293 ∨ len.toNat = 4294967294 ∨ len.toNat = 4294967295 := by
      omega
    rcases hnat with h | h | h
    · exact .inl (UInt32.toNat_inj.mp h)
    · exact .inr (.inl (UInt32.toNat_inj.mp h))
    · exact .inr (.inr (UInt32.toNat_inj.mp h))
  rcases hcases with rfl | rfl | rfl <;> decide

theorem readInplace_some {p : Parcel} {len : UInt32} {bs : List UInt8}
    (h : (p.readInplace len).1 = some bs) : p.canRead len = true := by
  unfold readInplace at h
  split at h
  · assumption
  · cases h

theorem readFlattenable_bounded {p : Parcel} (h : p.LenFits) (dup : Nat → Int32 → Int32)
    (granted : Bool) (unflatten : UnflattenCall → Status) :
    FlattenBounded p.mDataSize (p.readFlattenable dup granted unflatten).2.1 := by
  intro c hc
  unfold readFlattenable at hc
  dsimp only at hc
  split at hc
  · cases hc
  · rename_i bs hbs
    split at hc
    · cases hc
    · split at hc
      · rename_i hall
        obtain rfl := Option.some.inj hc
        have hdups := all_nonneg hall
        obtain ⟨hend, hpad⟩ := canRead_inside (readInplace_some hbs)
        have hlen := le_padSize h
        rw [readInt32_mDataSize, readInt32_mDataSize] at hend
        exact ⟨by dsimp only; omega, length_dupLoop hdups, hdups⟩
      · cases hc

/-- Nothing can always be read. -/
theorem AtData.readInplace_zero {p : Parcel} (h : p.AtData) :
    ∃ bs, (p.readInplace 0).1 = some bs := by
  have hpad : padSize 0 = 0 := by decide
  have hcan : p.canRead 0 = true := by
    refine decide_eq_true ?_
    rw [hpad, UInt32.add_zero]
    exact ⟨UInt32.le_refl _, h.inside, UInt32.le_refl _⟩
  unfold readInplace
  rw [if_pos hcan, if_pos h.mData]
  exact ⟨_, rfl⟩

/-- A length that wraps is passed on when all descriptors are duplicated. -/
theorem AtData.readFlattenable_called {p : Parcel} (h : p.AtData) (hwrap : ¬ p.LenFits)
    (unflatten : UnflattenCall → Status) :
    ∃ c, (p.readFlattenable (fun _ _ => 0) true unflatten).2.1 = some c ∧
      c.len = p.readInt32.1.toUInt32 := by
  obtain ⟨bs, hbs⟩ := h.readInt32.readInt32.readInplace_zero
  have hdups : ∀ fd ∈ (dupLoop (fun _ _ => 0) 0 p.readInt32.2.readInt32.1.toUInt32.toNat
      (p.readInt32.2.readInt32.2.readInplace 0).2).1, 0 ≤ fd := by
    rcases dupLoop_cases (fun _ _ => 0) 0 p.readInt32.2.readInt32.1.toUInt32.toNat
      (p.readInt32.2.readInt32.2.readInplace 0).2 with ⟨-, hdups⟩ | ⟨j, -, -, hneg, -⟩
    · exact hdups
    · exact absurd hneg (by decide)
  unfold readFlattenable
  dsimp only
  rw [padSize_wrapped hwrap, hbs]
  dsimp only
  rw [if_neg fun hno => Bool.noConfusion hno.2,
    if_pos (List.all_eq_true.mpr fun fd hfd => decide_eq_true (hdups fd hfd))]
  exact ⟨_, rfl, rfl⟩

/-- Whatever `dup` answers, the buffer is inside of the data, exactly when the length does not
wrap. -/
theorem flattenBounded_iff {p : Parcel} (h : p.AtData) :
    (∀ dup granted unflatten, FlattenBounded p.mDataSize
      (p.readFlattenable dup granted unflatten).2.1) ↔ p.LenFits := by
  constructor
  · intro hall
    by_contra hwrap
    obtain ⟨c, hc, hlen⟩ := h.readFlattenable_called hwrap fun _ => noError
    have hinside := (hall (fun _ _ => 0) true (fun _ => noError) c hc).1
    have hsmall := h.small
    rw [hlen] at hinside
    unfold LenFits at hwrap
    omega
  · exact fun hfits dup granted unflatten => readFlattenable_bounded hfits dup granted unflatten

/-! ## The handle -/

theorem nativeRoom_eq {numFds numInts : Int32} (hfds : 0 ≤ numFds) (hints : 0 ≤ numInts)
    (hsize : 12 + 4 * (numFds.toInt + numInts.toInt) < 2 ^ 32) :
    (nativeRoom numFds numInts : Int) = 4 * (numFds.toInt + numInts.toInt) := by
  have hfds' := Int32.le_iff_toInt_le.mp hfds
  have hints' := Int32.le_iff_toInt_le.mp hints
  have hzero : (0 : Int32).toInt = 0 := rfl
  have hf : numFds.toUInt32.toNat = numFds.toInt.toNat := Int32.toNat_toUInt32_of_le hfds
  have hi : numInts.toUInt32.toNat = numInts.toInt.toNat := Int32.toNat_toUInt32_of_le hints
  have hheader : sizeofNativeHandle.toNat = 12 := rfl
  have hfour : (4 : UInt32).toNat = 4 := rfl
  rw [nativeRoom, Int32.toUInt32_add, UInt32.toNat_add, UInt32.toNat_mul, UInt32.toNat_add, hf, hi,
    hheader, hfour]
  omega

/-- The bytes of the numbers. -/
theorem four_mul_toNat {numInts : Int32} (hints : 0 ≤ numInts)
    (hsize : 12 + 4 * numInts.toInt < 2 ^ 32) :
    ((4 * numInts.toUInt32).toNat : Int) = 4 * numInts.toInt := by
  have hints' := Int32.le_iff_toInt_le.mp hints
  have hzero : (0 : Int32).toInt = 0 := rfl
  have hi : numInts.toUInt32.toNat = numInts.toInt.toNat := Int32.toNat_toUInt32_of_le hints
  have hfour : (4 : UInt32).toNat = 4 := rfl
  rw [UInt32.toNat_mul, hi, hfour]
  omega

theorem read_isSome (p : Parcel) (len : UInt32) : (p.read len).1.isSome = p.canRead len := by
  unfold read
  cases p.canRead len <;> rfl

/-- The numbers can be read exactly when their bytes are there. -/
theorem canRead_ints {p : Parcel} {numInts : Int32} (hints : 0 ≤ numInts)
    (hsize : 12 + 4 * numInts.toInt < 2 ^ 32) : p.canRead (4 * numInts.toUInt32) = true ↔
      (p.mDataPos.toNat : Int) + 4 * numInts.toInt ≤ p.mDataSize.toNat := by
  have hlen := four_mul_toNat hints hsize
  have hpad : (padSize (4 * numInts.toUInt32)).toNat = (4 * numInts.toUInt32).toNat := by
    rw [padSize_toNat (by omega)]
    omega
  have hpos := p.mDataPos.toNat_lt
  have hend := p.mDataSize.toNat_lt
  unfold canRead
  rw [decide_eq_true_iff, UInt32.le_iff_toNat_le, UInt32.le_iff_toNat_le, UInt32.le_iff_toNat_le,
    UInt32.toNat_add, hpad]
  omega

/-- There is only one first answer that is negative. -/
theorem firstNegative_unique {f : Nat → Int32} {i j : Nat} (hi : ∀ k < i, 0 ≤ f k)
    (hi' : f i < 0) (hj : ∀ k < j, 0 ≤ f k) (hj' : f j < 0) : i = j := by
  rcases Nat.lt_trichotomy i j with hlt | rfl | hlt
  · exact absurd hi' (Int32.not_lt.mpr (hj i hlt))
  · rfl
  · exact absurd hj' (Int32.not_lt.mpr (hi j hlt))

/-- Where the numbers can be read behind the descriptors, all of these have been duplicated:
either they are, or behind the object of the first one that is not there are too few bytes. -/
theorem dups_iff (dup : Nat → Int32 → Int32) (q : Parcel) (n : Nat) {numInts : Int32}
    (hints : 0 ≤ numInts) (hsize : 12 + 4 * numInts.toInt < 2 ^ 32) :
    ((dupLoop dup 0 n q).2.canRead (4 * numInts.toUInt32) = true →
        ∀ fd ∈ (dupLoop dup 0 n q).1, 0 ≤ fd) ↔
      (∀ k < n, 0 ≤ dup k (q.descriptor k)) ∨
        ∃ j < n, (∀ k < j, 0 ≤ dup k (q.descriptor k)) ∧ dup j (q.descriptor j) < 0 ∧
          (q.mDataSize.toNat : Int) < (q.objectsEnd (j + 1)).toNat + 4 * numInts.toInt := by
  have hcases := dupLoop_cases dup 0 n q
  simp only [Nat.zero_add] at hcases
  -- behind the first descriptor that is not duplicated
  have hbehind (j : Nat) : (q.behindDescriptors (j + 1)).canRead (4 * numInts.toUInt32) = true ↔
      ((q.objectsEnd (j + 1)).toNat : Int) + 4 * numInts.toInt ≤ q.mDataSize.toNat := by
    rw [canRead_ints hints hsize, behindDescriptors_mDataPos, behindDescriptors_mDataSize]
  rcases hcases with ⟨hall, hdups⟩ | ⟨j, hj, hbelow, hneg, hin, hend⟩
  · exact iff_of_true (fun _ => hdups) (.inl hall)
  rw [hend, hbehind]
  constructor
  · intro hread
    refine .inr ⟨j, hj, hbelow, hneg, ?_⟩
    by_contra hroomy
    exact absurd hneg (Int32.not_lt.mpr (hread (by omega) _ hin))
  · rintro (hall | ⟨i, -, hbelow', hneg', hfew⟩) hcan
    · exact absurd hneg (Int32.not_lt.mpr (hall j hj))
    · obtain rfl := firstNegative_unique hbelow' hneg' hbelow hneg
      omega

/-- What is written to the handle lies in it. -/
theorem nativeWrites_inside {numFds numInts : Int32} (hfds : 0 ≤ numFds) (hints : 0 ≤ numInts)
    (hsize : 12 + 4 * (numFds.toInt + numInts.toInt) < 2 ^ 32) {n : Nat}
    (hn : n ≤ numFds.toInt.toNat) (wanted : Prop) [Decidable wanted] :
    ∀ w : Int × Nat, w ∈ ((List.range n).map fun i : Nat => (4 * (i : Int), 4)) ++
      (if wanted then [(4 * numFds.toInt, (4 * numInts.toUInt32).toNat)] else []) →
      0 ≤ w.1 ∧ w.1 + w.2 ≤ nativeRoom numFds numInts ∧
        w.1 + w.2 ≤ 4 * (numFds.toInt + numInts.toInt) := by
  have hfds' := Int32.le_iff_toInt_le.mp hfds
  have hints' := Int32.le_iff_toInt_le.mp hints
  have hzero : (0 : Int32).toInt = 0 := rfl
  have hroom := nativeRoom_eq hfds hints hsize
  have hlen := four_mul_toNat hints (by omega)
  intro w hw
  rcases List.mem_append.mp hw with hfd | hint
  · obtain ⟨i, hi, rfl⟩ := List.mem_map.mp hfd
    have hi := List.mem_range.mp hi
    dsimp only
    refine ⟨by omega, by omega, by omega⟩
  · split at hint
    · obtain rfl := List.mem_singleton.mp hint
      dsimp only
      refine ⟨by omega, by omega, by omega⟩
    · cases hint

theorem nativeBounded_iff {p : Parcel} {granted : Bool} (dup : Nat → Int32 → Int32)
    (h : p.CountsFit granted) :
    (p.readNativeHandle dup granted).1.Bounded ↔ p.HandleComplete dup := by
  unfold readNativeHandle HandleComplete
  dsimp only
  cases hcounts : p.nativeCounts.1 with
  | none =>
      refine iff_of_true ⟨fun hno => ?_, fun hno => ?_, fun w hw => ?_⟩ fun _ _ hsome => ?_
      · cases hno
      · cases hno
      · cases hw
      · cases hsome
  | some counts =>
      obtain ⟨numFds, numInts⟩ := counts
      obtain ⟨rfl, hfds, hints, hsize⟩ := h numFds numInts hcounts
      have hfds' := Int32.le_iff_toInt_le.mp hfds
      have hzero : (0 : Int32).toInt = 0 := rfl
      have hdups := dups_iff dup p.nativeCounts.2 numFds.toInt.toNat hints (by omega)
      dsimp only
      rw [read_isSome, Bool.and_true]
      constructor
      · intro hbounded numFds' numInts' hsome
        obtain ⟨rfl, rfl⟩ := Prod.mk.inj (Option.some.inj hsome)
        exact hdups.mp fun hcan => (hbounded.dups hcan).2
      · intro hcomplete
        refine ⟨fun _ => ⟨hfds, hints⟩, fun hcan => ?_, fun w hw => ⟨rfl, ?_⟩⟩
        · have hnonneg := hdups.mpr (hcomplete numFds numInts rfl) hcan
          exact ⟨length_dupLoop hnonneg, hnonneg⟩
        · exact nativeWrites_inside hfds hints hsize (length_dupLoop_le _ _ _) _ w hw

/-- Both reads: the exact condition for a `Flattenable`, and that for a handle whose counts
fit. -/
theorem structuredReads_bounded_iff {p : Parcel} (h : p.AtData) :
    ((∀ dup granted unflatten, FlattenBounded p.mDataSize
      (p.readFlattenable dup granted unflatten).2.1) ↔ p.LenFits) ∧
    ∀ dup granted, p.CountsFit granted →
      ((p.readNativeHandle dup granted).1.Bounded ↔ p.HandleComplete dup) :=
  ⟨flattenBounded_iff h, fun dup _ hcounts => nativeBounded_iff dup hcounts⟩

/-- A `dup` that refuses what is no descriptor. -/
def dupAbove (_ : Nat) (fd : Int32) : Int32 := if fd < 0 then -1 else fd + 32

/-- A handle with a descriptor and two numbers. -/
def handleMessage : Parcel :=
  { rawParcel roomyProcess with
    mData := true, mDataSize := 32, extent := 32, mObjects := [8]
    bytes := Mem.store (Mem.store (fun _ => 0) 0 [1, 0, 0, 0, 2]) 8 (fdObject 5 true).toBytes }

theorem structuredReads_bounded_iff_handle :
    (∀ dup granted unflatten, FlattenBounded 32
      (handleMessage.readFlattenable dup granted unflatten).2.1) ∧
    (handleMessage.readNativeHandle dupAbove true).1 =
      ⟨true, true, 1, 2, [37], 12, [(0, 4), (4, 8)]⟩ ∧
    (handleMessage.readNativeHandle dupAbove true).1.Bounded := by
  have hat : handleMessage.AtData := ⟨rfl, UInt32.zero_le, by decide⟩
  have hread : handleMessage.nativeCounts.1 = some (1, 2) := by decide +kernel
  have hcounts : handleMessage.CountsFit true := by
    intro numFds numInts hsome
    obtain ⟨rfl, rfl⟩ := Prod.mk.inj (Option.some.inj (hread.symm.trans hsome))
    exact ⟨rfl, by decide, by decide, by decide⟩
  have hcomplete : handleMessage.HandleComplete dupAbove := by
    intro numFds numInts hsome
    obtain ⟨rfl, rfl⟩ := Prod.mk.inj (Option.some.inj (hread.symm.trans hsome))
    exact .inl (by decide +kernel)
  obtain ⟨hflatten, hnative⟩ := structuredReads_bounded_iff hat
  exact ⟨hflatten.mpr (by decide +kernel), by decide +kernel,
    (hnative dupAbove true hcounts).mpr hcomplete⟩

/-- A received Parcel of eight bytes. -/
def eightBytes (bs : List UInt8) : Parcel :=
  { rawParcel roomyProcess with
    mData := true, mDataSize := 8, extent := 8, bytes := Mem.store (fun _ => 0) 0 bs }

/-- A length of 2^32 - 1 is passed to `unflatten`, and a handle is returned with a descriptor
that has not been duplicated. -/
theorem wrapped_length_passed_on :
    ((eightBytes [255, 255, 255, 255]).readFlattenable dupAbove true fun _ => noError).2.1 =
        some ⟨8, UInt32.ofNat 4294967295, [], 0⟩ ∧
      ¬ FlattenBounded 8
        ((eightBytes [255, 255, 255, 255]).readFlattenable dupAbove true fun _ => noError).2.1 ∧
      ((eightBytes [1]).readNativeHandle dupAbove true).1 =
        ⟨true, true, 1, 0, [-1], 4, [(0, 4)]⟩ ∧
      ¬ ((eightBytes [1]).readNativeHandle dupAbove true).1.Bounded := by
  have hcall :
      ((eightBytes [255, 255, 255, 255]).readFlattenable dupAbove true fun _ => noError).2.1 =
      some ⟨8, UInt32.ofNat 4294967295, [], 0⟩ := by decide +kernel
  have hhandle : ((eightBytes [1]).readNativeHandle dupAbove true).1 =
      ⟨true, true, 1, 0, [-1], 4, [(0, 4)]⟩ := by decide +kernel
  refine ⟨hcall, fun h => ?_, hhandle, fun h => ?_⟩
  · have hinside : (8 : UInt32).toNat + (UInt32.ofNat 4294967295).toNat ≤ (8 : UInt32).toNat :=
      (h _ hcall).1
    have hlen : (UInt32.ofNat 4294967295).toNat = 4294967295 := rfl
    have height : (8 : UInt32).toNat = 8 := rfl
    omega
  · rw [hhandle] at h
    exact absurd ((h.dups rfl).2 (-1) (List.mem_singleton_self _)) (by decide)

end Parcel
end Binder
end AndroidLinux
