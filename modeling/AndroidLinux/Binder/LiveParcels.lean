import AndroidLinux.Binder.Statistics

/-!
# The Parcels of a process

All live Parcels with the counters of the process (`Parcels`).  Every call is given its own
answers of the system.  The counters are exact along all runs in which `setData` does not
get the first buffer of a Parcel; one run shows that the counter of the buffers falls
behind otherwise, and wraps when the buffer is freed.
-/

namespace AndroidLinux
namespace Binder

open Lib

/-- A call of one Parcel. -/
inductive ParcelCall
  | write (op : WriteOp)
  | setData (buffer : Parcel.Buffer)
  | setDataSize (size : UInt32)
  | setDataCapacity (size : UInt32)
  | setDataPosition (pos : UInt32)
  | ipcSetDataReference (received : Parcel.Received)
  | freeData

/-- The Parcel after a call. -/
def ParcelCall.run : ParcelCall → Parcel → Parcel
  | .write op => fun p => (op.run p).2
  | .setData buffer => fun p => (p.setData buffer).2
  | .setDataSize size => fun p => (p.setDataSize size).2
  | .setDataCapacity size => fun p => (p.setDataCapacity size).2
  | .setDataPosition pos => fun p => p.setDataPosition pos
  | .ipcSetDataReference received => fun p => p.ipcSetDataReference received
  | .freeData => Parcel.freeData

/-- `parcels` has `none` in place of a Parcel that has been destroyed. -/
structure Parcels where
  parcels : List (Option Parcel)
  proc : Process

inductive ParcelsAction
  | construct
  | call (i : Nat) (answers : Answers) (c : ParcelCall)
  | appendFrom (i j : Nat) (answers : Answers) (offset len : UInt32)
  | destroy (i : Nat) (answers : Answers)

namespace Parcels

/-- A live Parcel, in the process as it is now. -/
def parcel (s : Parcels) (i : Nat) (answers : Answers) : Option Parcel :=
  s.parcels[i]?.join.map fun p => { p with proc := { s.proc with answers := answers } }

/-- The Parcel after a call; the process keeps what the call did to it. -/
def store (s : Parcels) (i : Nat) (p : Parcel) : Parcels :=
  ⟨s.parcels.set i (some p), p.proc⟩

def step (s : Parcels) : ParcelsAction → Option Parcels
  | .construct => some ⟨s.parcels ++ [some (rawParcel s.proc).initState], s.proc⟩
  | .call i answers c => (s.parcel i answers).map fun p => s.store i (c.run p)
  | .appendFrom i j answers offset len =>
      if i = j then none
      else
        (s.parcel i answers).bind fun p => (s.parcel j answers).map fun src =>
          s.store i (Parcel.appendFrom src offset len p).2
  | .destroy i answers => (s.parcel i answers).map fun p =>
      ⟨s.parcels.set i none, p.freeDataNoInit.proc⟩

def machine : Machine Parcels ParcelsAction where
  init s := s = ⟨[], roomyProcess⟩
  step := step

/-- The capacity of a buffer that a live Parcel owns. -/
def capacityOf (o : Option Parcel) : Nat := o.elim 0 Parcel.ownCapacity

def ownerOf (o : Option Parcel) : Nat := o.elim 0 fun p => p.owns.toNat

/-- The capacities of the buffers that live Parcels own. -/
def allocSize (s : Parcels) : Nat := (s.parcels.map capacityOf).sum

/-- The number of these Parcels. -/
def allocCount (s : Parcels) : Nat := (s.parcels.map ownerOf).sum

/-- Both counters, of type `size_t`. -/
structure Exact (s : Parcels) : Prop where
  size : s.proc.gParcelGlobalAllocSize.toNat = s.allocSize % 2 ^ 32
  count : s.proc.gParcelGlobalAllocCount.toNat = s.allocCount % 2 ^ 32

/-- The Parcels and their buffers fit into the memory of a process. -/
def Inside (s : Parcels) : Prop :=
  s.allocSize < 2 ^ 32 ∧ s.allocCount < 2 ^ 32

instance (s : Parcels) : Decidable s.Inside :=
  inferInstanceAs (Decidable (_ ∧ _))

/-- `setData` is not what gives a Parcel its first buffer. -/
def KeepsBuffers (s : Parcels) : ParcelsAction → Prop
  | .call i answers (.setData _) => ∀ p, s.parcel i answers = some p → p.KeepsBuffer
  | _ => True

/-! ## One step -/

/-- The counters as machine numbers. -/
structure Booked (s : Parcels) : Prop where
  size : s.proc.gParcelGlobalAllocSize = UInt32.ofNat s.allocSize
  count : s.proc.gParcelGlobalAllocCount = UInt32.ofNat s.allocCount

variable {s : Parcels} {i : Nat} {answers : Answers} {p : Parcel}

theorem Booked.exact (h : s.Booked) : s.Exact :=
  ⟨by rw [h.size, UInt32.toNat_ofNat'], by rw [h.count, UInt32.toNat_ofNat']⟩

theorem Exact.toNat (h : s.Exact) (hinside : s.Inside) :
    s.proc.gParcelGlobalAllocSize.toNat = s.allocSize ∧
      s.proc.gParcelGlobalAllocCount.toNat = s.allocCount :=
  ⟨h.size.trans (Nat.mod_eq_of_lt hinside.1), h.count.trans (Nat.mod_eq_of_lt hinside.2)⟩

theorem parcel_cases (hp : s.parcel i answers = some p) :
    ∃ p₀, s.parcels[i]? = some (some p₀) ∧
      p = { p₀ with proc := { s.proc with answers := answers } } := by
  unfold parcel at hp
  obtain ⟨p₀, hp₀, heq⟩ := Option.map_eq_some_iff.mp hp
  exact ⟨p₀, Option.join_eq_some_iff.mp hp₀, heq.symm⟩

/-- One place is filled anew, with the counters changed by the difference. -/
theorem Booked.set (h : s.Booked) (hp : s.parcel i answers = some p) {new : Option Parcel}
    {proc : Process}
    (hsize : proc.gParcelGlobalAllocSize + UInt32.ofNat p.ownCapacity =
      p.proc.gParcelGlobalAllocSize + UInt32.ofNat (capacityOf new))
    (hcount : proc.gParcelGlobalAllocCount + UInt32.ofNat p.owns.toNat =
      p.proc.gParcelGlobalAllocCount + UInt32.ofNat (ownerOf new)) :
    Booked ⟨s.parcels.set i new, proc⟩ := by
  obtain ⟨p₀, hp₀, rfl⟩ := parcel_cases hp
  constructor
  · have hsum := congrArg UInt32.ofNat (sum_map_set hp₀ capacityOf new)
    rw [UInt32.ofNat_add, UInt32.ofNat_add] at hsum
    refine (UInt32.add_left_inj (UInt32.ofNat (capacityOf (some p₀)))).mp (Eq.trans ?_ hsum.symm)
    rw [← allocSize, ← h.size]
    exact hsize
  · have hsum := congrArg UInt32.ofNat (sum_map_set hp₀ ownerOf new)
    rw [UInt32.ofNat_add, UInt32.ofNat_add] at hsum
    refine (UInt32.add_left_inj (UInt32.ofNat (ownerOf (some p₀)))).mp (Eq.trans ?_ hsum.symm)
    rw [← allocCount, ← h.count]
    exact hcount

theorem Booked.store (h : s.Booked) (hp : s.parcel i answers = some p) {q : Parcel}
    (hbalanced : p.Balanced q) : (s.store i q).Booked :=
  h.set hp hbalanced.size hbalanced.count

/-- A call whose first buffer, if it gets one, does not come from `setData`. -/
theorem balanced_call {c : ParcelCall}
    (h : ∀ buffer, c = .setData buffer → p.KeepsBuffer) : p.Balanced (c.run p) := by
  cases c with
  | write op => exact op.keeps p
  | setData buffer => exact Parcel.balanced_setData (h buffer rfl) buffer
  | setDataSize size => exact Parcel.balanced_setDataSize size p
  | setDataCapacity size => exact Parcel.balanced_setDataCapacity size p
  | setDataPosition pos => exact Parcel.balanced_of_books rfl
  | ipcSetDataReference received => exact Parcel.balanced_ipcSetDataReference p received
  | freeData => exact Parcel.balanced_freeData p

theorem booked_step {s' : Parcels} {act : ParcelsAction} (h : s.Booked)
    (hguard : s.KeepsBuffers act) (hstep : s.step act = some s') : s'.Booked := by
  cases act with
  | construct =>
      obtain rfl := Option.some.inj hstep
      constructor
      · rw [allocSize, sum_map_concat]
        exact h.size
      · rw [allocCount, sum_map_concat]
        exact h.count
  | call i answers c =>
      obtain ⟨p, hp, rfl⟩ := Option.map_eq_some_iff.mp hstep
      refine h.store hp (balanced_call ?_)
      rintro buffer rfl
      exact hguard p hp
  | appendFrom i j answers offset len =>
      obtain ⟨-, hstep⟩ := Option.ite_none_left_eq_some.mp hstep
      obtain ⟨p, hp, hstep⟩ := Option.bind_eq_some_iff.mp hstep
      obtain ⟨src, -, rfl⟩ := Option.map_eq_some_iff.mp hstep
      exact h.store hp (Parcel.keeps_appendFrom src offset len p)
  | destroy i answers =>
      obtain ⟨p, hp, rfl⟩ := Option.map_eq_some_iff.mp hstep
      obtain ⟨hsize, hcount⟩ := p.freeDataNoInit_counters
      exact h.set hp (hsize.trans (UInt32.add_zero _).symm) (hcount.trans (UInt32.add_zero _).symm)

/-! ## Runs -/

/-- Whatever the Parcels of a process do, in any order and with any answers to their
allocations, the statistics are exact as long as `setData` is not called on a Parcel that
has no buffer yet. -/
theorem counters_exact (hreach : machine.ReachWhen KeepsBuffers s) :
    s.Exact ∧ (s.Inside → s.proc.gParcelGlobalAllocSize.toNat = s.allocSize ∧
      s.proc.gParcelGlobalAllocCount.toNat = s.allocCount) := by
  have hbooked : s.Booked := by
    refine hreach.invariant (I := Booked) ?_ fun _ _ _ h hguard hstep =>
      booked_step h hguard hstep
    rintro s rfl
    exact ⟨rfl, rfl⟩
  exact ⟨hbooked.exact, hbooked.exact.toNat⟩

/-- A test for `KeepsBuffers`. -/
def keepsBuffersTest (s : Parcels) : ParcelsAction → Bool
  | .call i answers (.setData _) =>
      (s.parcel i answers).all fun p => p.mOwner || p.mData || (p.proc.answers.data 0).isNone
  | _ => true

theorem keepsBuffersTest_sound (s : Parcels) (act : ParcelsAction)
    (h : s.keepsBuffersTest act = true) : s.KeepsBuffers act := by
  cases act with
  | call i answers c =>
      cases c with
      | setData buffer =>
          intro p hp
          rw [keepsBuffersTest, hp, Option.all_some, Bool.or_eq_true, Bool.or_eq_true,
            Option.isNone_iff_eq_none, or_assoc] at h
          exact h
      | _ => trivial
  | _ => trivial

def fiveBytes : Parcel.Buffer := .of [1, 2, 3, 4, 5] 5

/-- A number is written, the data is set, and another Parcel takes a part of it. -/
def keepingRun : List ParcelsAction :=
  [.construct, .construct, .call 0 roomyProcess.answers (.write (.int32 7)),
    .call 0 roomyProcess.answers (.setData fiveBytes),
    .appendFrom 1 0 roomyProcess.answers 0 4, .destroy 0 roomyProcess.answers]

theorem counters_exact_keepingRun :
    let s := (machine.runWhen keepsBuffersTest ⟨[], roomyProcess⟩ keepingRun).get (by decide)
    s.Exact ∧ (s.Inside → s.proc.gParcelGlobalAllocSize.toNat = s.allocSize ∧
      s.proc.gParcelGlobalAllocCount.toNat = s.allocCount) :=
  counters_exact (Machine.reachWhen_of_runWhen keepsBuffersTest_sound _ (.init rfl)
    (Option.some_get _).symm)

/-- `setData` gets the first buffer, which is freed with the Parcel. -/
def restartedRun : List ParcelsAction :=
  [.construct, .call 0 roomyProcess.answers (.setData fiveBytes),
    .destroy 0 roomyProcess.answers]

/-- No Parcel is left, and the counter of the buffers is below zero. -/
theorem count_wraps : ¬ ∀ s, machine.Reach s → s.Inside →
    s.proc.gParcelGlobalAllocSize.toNat = s.allocSize ∧
      s.proc.gParcelGlobalAllocCount.toNat = s.allocCount := by
  intro h
  have hreach : machine.Reach ((machine.run ⟨[], roomyProcess⟩ restartedRun).get (by decide)) :=
    Machine.reach_of_run restartedRun rfl (Option.some_get _).symm
  exact absurd (h _ hreach (by decide)).2 (by decide)

end Parcels
end Binder
end AndroidLinux
