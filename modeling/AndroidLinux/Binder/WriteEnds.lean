import AndroidLinux.Binder.WriteRecords

/-!
# How a write operation ends

`WriteOp.Recorded` is the condition of `WriteRecords` for an operation.  Three operations are
not their parts alone: `writeInterfaceToken` goes on behind a first number that has failed,
`writeBlob` may need shared memory, and `writeNativeHandle` refuses a handle.
-/

namespace AndroidLinux
namespace Binder

open Lib

namespace Parcel

variable {p q : Parcel} {n : UInt32}

/-- The Parcel whose request for memory has been refused. -/
def turnedDown (p : Parcel) : Parcel :=
  { p with
    mError := noMemory
    proc.answers := { p.proc.answers with
      data := fun k => p.proc.answers.data (k + 1)
      newTable :=
        if (p.proc.answers.data 0).isSome then fun k => p.proc.answers.newTable (k + 1)
        else p.proc.answers.newTable } }

theorem not_enough (hwrap : p.mDataPos.toNat + n.toNat < 2 ^ 32) (hlack : p.Lacks n) :
    decide (p.mDataPos + n ≤ p.mDataCapacity) = false := by
  rw [decide_eq_false_iff_not, UInt32.le_iff_toNat_le, UInt32.toNat_add, Nat.mod_eq_of_lt hwrap]
  exact Nat.not_le.mpr hlack

theorem ensure_givesUp (hwrap : p.mDataPos.toNat + n.toNat < 2 ^ 32) (h : p.GivesUp n) :
    p.ensure (p.mDataPos + n ≤ p.mDataCapacity) n = (noMemory, p) := by
  rw [ensure, not_enough hwrap h.1, if_neg Bool.false_ne_true, growData, if_pos h.2]

/-- Where an allocation is refused, only the error and the answers change. -/
theorem ensure_turnedDown (hfit : p.Fits n) (h : p.TurnsDown n)
    (hgrows : ¬ p.GivesUp n) :
    p.ensure (p.mDataPos + n ≤ p.mDataCapacity) n = (noMemory, p.turnedDown) := by
  have hsize : ¬ growSize p.mDataSize n ≤ p.mDataSize := fun hle => hgrows ⟨h.1, hle⟩
  have hgt := UInt32.not_le.mp hsize
  rw [ensure, not_enough hfit.noWrap h.1, if_neg Bool.false_ne_true, growData, if_neg hsize,
    continueWrite, keptObjects_of_le (UInt32.le_of_lt hgt)]
  -- the new size is not 0, so nothing is freed
  have hdesired : growSize p.mDataSize n ≠ 0 := by
    intro hzero
    rw [hzero, UInt32.lt_iff_toNat_lt] at hgt
    exact absurd hgt (Nat.not_lt_zero _)
  rcases h.2 with hnone | ⟨howner, hobjects, htable⟩
  · -- the buffer itself is refused
    have hturned : p.shiftData.outOfMemory = (noMemory, p.turnedDown) := by
      simp [outOfMemory, shiftData, turnedDown, hnone]
    cases howner : p.mOwner with
    | true =>
        rw [if_pos rfl, continueReceived, if_neg hdesired, hnone]
        exact hturned
    | false =>
        rw [if_neg Bool.false_ne_true]
        cases hdata : p.mData with
        | true =>
            have hroom := (hfit.grows h.1).resolve_left hsize
            rw [start_eq hdata] at hroom
            have hcap : p.mDataCapacity < growSize p.mDataSize n := by
              rw [UInt32.lt_iff_toNat_lt]
              exact lt_of_lt_of_le h.1 hroom
            rw [if_pos rfl, continueOwned, if_neg (Nat.lt_irrefl _)]
            simp only [if_pos hcap, hnone]
            exact hturned
        | false =>
            rw [if_neg Bool.false_ne_true, continueFirst, hnone]
            exact hturned
  · rw [if_pos howner, continueReceived, if_neg hdesired]
    cases hanswer : p.proc.answers.data 0 with
    | none => simp [outOfMemory, shiftData, turnedDown, hanswer]
    | some block =>
        simp [outOfMemory, shiftData, shiftNewTable, turnedDown, hanswer, hobjects, htable]

theorem writeAligned_of_ensure {val : List UInt8} (hn : n = UInt32.ofNat val.length)
    (h : p.ensure (p.mDataPos + n ≤ p.mDataCapacity) n = (noMemory, q)) :
    writeAligned val p = (noMemory, q) := by
  subst hn
  unfold writeAligned
  dsimp only
  rw [h, if_neg noMemory_ne]

theorem settled_turnedDown (hp : p.Settled) : p.turnedDown.Settled :=
  ⟨⟨hp.fits, hp.extent, hp.null⟩, hp.atStart⟩

/-- A resource that is given back. -/
theorem Settled.drop (hp : p.Settled) (x : Resource) : (p.drop x).Settled :=
  ⟨⟨hp.fits, hp.extent, hp.null⟩, hp.atStart⟩

theorem Settled.hold (hp : p.Settled) (x : Resource) : (p.hold x).Settled :=
  ⟨⟨hp.fits, hp.extent, hp.null⟩, hp.atStart⟩

/-- The system puts a blob into shared memory. -/
def Ashmem.Works (a : Ashmem) : Prop :=
  ¬ a.createRegion < 0 ∧ ¬ a.setProtReadWrite < 0 ∧ a.mmap = noError ∧ ¬ a.setProtRead < 0

end Parcel

/-! ## The operations -/

namespace WriteOp

open Parcel

variable {p : Parcel}

/-- What `writeInterfaceToken` writes behind its first number. -/
def tokenRest (interface : Units) : List Part :=
  [lenPart interface.units.length, .units interface.units]

/-- The parts of the operation meet the condition.  `writeInterfaceToken` goes on when an
allocation for its first number has been refused, and must then fail behind it; a blob in
shared memory needs the system before its parts are written. -/
def Recorded (p : Parcel) : WriteOp → Prop
  | .interfaceToken policy interface =>
      Part.Recorded (p.mError = noError)
          (parts p.mAllowFds (.interfaceToken policy interface)) p ∧
        (p.TurnsDown 4 → ¬ p.GivesUp 4 →
          Part.Recorded False (tokenRest interface) p.turnedDown ∧
            Part.Stopped (tokenRest interface) p.turnedDown)
  | .blob len a =>
      if !p.mAllowFds || len ≤ inPlaceBlobLimit then
        Part.Recorded (p.mError = noError) (parts p.mAllowFds (.blob len a)) p
      else
        (p.mError = noError → a.Works) ∧
          (a.Works → Part.Recorded (p.mError = noError) (parts p.mAllowFds (.blob len a)) p)
  | op => Part.Recorded (p.mError = noError) (op.parts p.mAllowFds) p

theorem sized_of_roomy {x : Part} (h : x.Roomy p) : x.Sized := by
  cases x with
  | dup => trivial
  | result status => trivial
  | _ => exact h.1

theorem need_int32Part (val : Int32) : (int32Part val).need ≠ 0 := by
  have hneed : (int32Part val).need = UInt32.ofNat (leBytes 4 val.toUInt32.toNat).length := rfl
  rw [hneed, leBytes_length]
  decide

/-- An operation of several parts starts with a part that has bytes. -/
theorem parts_first (op : WriteOp) (allowFds : Bool)
    (hsized : ∀ x ∈ (op.parts allowFds).head?, x.Sized) :
    (op.parts allowFds).length ≤ 1 ∨ ∀ x ∈ (op.parts allowFds).head?, x.need ≠ 0 := by
  have hword (val : Int32) (xs : List Part) : ∀ x ∈ (int32Part val :: xs).head?, x.need ≠ 0 := by
    rintro x hx
    obtain rfl : int32Part val = x := Option.some.inj hx
    exact need_int32Part val
  cases op with
  | int32Array val => cases val <;> exact .inr (hword _ _)
  | byteArray val => cases val <;> exact .inr (hword _ _)
  | string8 str => exact .inr (hword _ _)
  | string16 str => exact .inr (hword _ _)
  | chars str => cases str <;> exact .inr (hword _ _)
  | interfaceToken policy interface => exact .inr (hword _ _)
  | parcelFileDescriptor fd commChannel =>
      rw [parts]
      split <;> exact .inr (hword _ _)
  | nativeHandle handle =>
      cases handle with
      | none => exact .inl (Nat.zero_le _)
      | some h => exact .inr (hword _ _)
  | blob len a =>
      rw [parts]
      split <;> exact .inr (hword _ _)
  | flattenable val => exact .inr (hword _ _)
  | lightFlattenable val =>
      rw [parts] at hsized ⊢
      cases hfixed : val.isFixedSize with
      | false => exact .inr (hword _ _)
      | true =>
          rw [hfixed, if_pos rfl, List.nil_append] at hsized
          rw [if_pos rfl, List.nil_append]
          by_cases hempty : val.data.data = []
          · rw [if_pos hempty]
            exact .inl (Nat.zero_le _)
          · rw [if_neg hempty] at hsized ⊢
            refine .inr fun x hx => ?_
            obtain rfl : Part.room val.data.len val.data.data noMemory = x := Option.some.inj hx
            have hroom := (hsized _ rfl).1
            intro hzero
            have hlen := padSize_eq_zero hroom hzero
            rw [val.data.len_toNat, List.length_eq_zero_iff] at hlen
            exact hempty hlen
  | _ => exact .inl (Nat.le_refl 1)

/-- The parts of an operation, one after the other. -/
theorem parts_finished (op : WriteOp) (hp : p.Settled)
    (hrec : Part.Recorded (p.mError = noError) (op.parts p.mAllowFds) p) :
    Part.Finished p (op.parts p.mAllowFds) (Part.runAll (op.parts p.mAllowFds) p) := by
  refine Part.runAll_finished hp (.inr (op.parts_first p.mAllowFds fun x hx => ?_)) hrec
  generalize op.parts p.mAllowFds = xs at hrec hx
  cases xs with
  | nil => cases hx
  | cons y ys =>
      obtain rfl : y = x := Option.some.inj hx
      exact sized_of_roomy hrec.1

theorem run_tokenRest (interface : Units) :
    writeString16Of interface = Part.runAll (tokenRest interface) := by
  rw [writeString16Of, run_chars]
  rfl

theorem run_interfaceToken (policy : Int32) (interface : Units) (p : Parcel) :
    run (.interfaceToken policy interface) p =
      Part.runAll (tokenRest interface) (writeInt32 (policy ||| 0x100) p).2 := by
  rw [← run_tokenRest]
  rfl

/-- A number where `growData` gives up, or is refused memory. -/
theorem writeInt32_givesUp (val : Int32) (hfit : p.Fits 4) (h : p.GivesUp 4) :
    writeInt32 val p = (noMemory, p) :=
  writeAligned_of_ensure (by rw [leBytes_length]; rfl) (ensure_givesUp hfit.noWrap h)

theorem writeInt32_turnedDown (val : Int32) (hfit : p.Fits 4) (h : p.TurnsDown 4)
    (hgrows : ¬ p.GivesUp 4) : writeInt32 val p = (noMemory, p.turnedDown) :=
  writeAligned_of_ensure (by rw [leBytes_length]; rfl) (ensure_turnedDown hfit h hgrows)

theorem interfaceToken_finished (policy : Int32) (interface : Units) (hp : p.Settled)
    (hrec : Recorded p (.interfaceToken policy interface)) :
    Part.Finished p (parts p.mAllowFds (.interfaceToken policy interface))
      (run (.interfaceToken policy interface) p) := by
  obtain ⟨hparts, hrefused⟩ := hrec
  have hall := parts_finished (.interfaceToken policy interface) hp hparts
  have hroomy : (int32Part (policy ||| 0x100)).Roomy p := hparts.1
  rw [run_interfaceToken]
  by_cases hgives : p.GivesUp 4
  · -- the length finds no room either
    have hdirty : p.mError ≠ noError := fun hclean => hparts.2.1 hclean hgives
    rw [writeInt32_givesUp _ hroomy.2 hgives]
    have hrest : Part.runAll (tokenRest interface) p = (noMemory, p) := by
      refine andThen_of_error ?_ noMemory_ne
      exact writeInt32_givesUp (UInt32.ofNat interface.units.length).toInt32 hroomy.2 hgives
    rw [hrest]
    exact .recorded noMemory_ne hp hdirty
  by_cases hturns : p.TurnsDown 4
  · rw [writeInt32_turnedDown _ hroomy.2 hturns hgives]
    obtain ⟨hrest, hstopped⟩ := hrefused hturns hgives
    have hhead : ∀ x ∈ (tokenRest interface).head?, x.need ≠ 0 := by
      intro x hx
      obtain rfl : lenPart interface.units.length = x := Option.some.inj hx
      exact need_int32Part _
    have hfinished := Part.runAll_finished (settled_turnedDown hp) (.inr (.inr hhead))
      (hrest.mono fun hclean => noMemory_ne hclean)
    generalize Part.runAll (tokenRest interface) p.turnedDown = w at hfinished
    cases hfinished with
    | @stored st q e henc hwrote hgoes hq herror =>
        refine .recorded (fun hst => hgoes hst hstopped) hq ?_
        rw [herror]
        exact noMemory_ne
    | recorded hst hq herror => exact .recorded hst hq herror
  · have hend := Part.outcome hp hroomy
    generalize hw : (int32Part (policy ||| 0x100)).run p = w at hend
    have hdone : ∃ q, (int32Part (policy ||| 0x100)).run p = (noError, q) := by
      rw [hw]
      cases hend with
      | stored henc hwrote hgoes halike hdata hq herror => exact ⟨_, rfl⟩
      | passed henc hgoes hafter hneed => exact ⟨_, rfl⟩
      | nothing henc hnull hgoes hq herror =>
          exact absurd (.inr (need_int32Part _)) hnull
      | recorded hrefuses hst hq herror => exact absurd hrefuses hturns
      | quiet hquiet hst hq herror => exact absurd hquiet hgives
    obtain ⟨q, hq⟩ := hdone
    have hparts' : Part.runAll (parts p.mAllowFds (.interfaceToken policy interface)) p =
        Part.runAll (tokenRest interface) q := andThen_of_done hq
    rw [hparts'] at hall
    have hsecond : (writeInt32 (policy ||| 0x100) p).2 = q := congrArg Prod.snd hq
    rw [hsecond]
    exact hall

/-- A blob in the buffer. -/
theorem run_blobInPlace {len : UInt32} {a : Ashmem}
    (hplace : (!p.mAllowFds || decide (len ≤ inPlaceBlobLimit)) = true) :
    run (.blob len a) p = Part.runAll (parts p.mAllowFds (.blob len a)) p := by
  rw [parts, if_pos hplace, Part.runAll, runAll_singleton, run_int32Part, run_room_nil]
  show writeBlob len a p = _
  unfold writeBlob
  rw [if_pos hplace]
  rfl

/-- A blob in shared memory, where the system does its part. -/
theorem writeAshmem_works {a : Ashmem} (h : a.Works) (p : Parcel) :
    writeAshmem a p =
      let r := Part.runAll [int32Part 1, .object (fdObject a.createRegion true) true]
        (p.hold (.fd a.createRegion.toUInt32))
      if r.1 = noError then r else (r.1, r.2.drop (.fd a.createRegion.toUInt32)) := by
  obtain ⟨hregion, hreadWrite, hmmap, hread⟩ := h
  unfold writeAshmem
  dsimp only
  rw [if_neg hregion, if_neg hreadWrite, if_neg (not_not.mpr hmmap), if_neg hread, Part.runAll,
    runAll_singleton]
  rfl

/-- Where the system does not, the call returns an error and writes nothing. -/
theorem writeAshmem_fails {a : Ashmem} (h : ¬ a.Works) (hp : p.Settled) :
    (writeAshmem a p).1 ≠ noError ∧ (writeAshmem a p).2.Settled ∧
      (writeAshmem a p).2.mError = p.mError := by
  have hneg {st : Status} (hst : st < 0) : st ≠ noError := by
    rintro rfl
    exact absurd hst (by decide)
  unfold writeAshmem
  dsimp only
  by_cases hregion : a.createRegion < 0
  · rw [if_pos hregion]
    exact ⟨noMemory_ne, hp, rfl⟩
  have hdropped := (hp.hold (.fd a.createRegion.toUInt32)).drop (.fd a.createRegion.toUInt32)
  rw [if_neg hregion]
  by_cases hreadWrite : a.setProtReadWrite < 0
  · rw [if_pos hreadWrite, if_neg (hneg hreadWrite)]
    exact ⟨hneg hreadWrite, hdropped, rfl⟩
  rw [if_neg hreadWrite]
  by_cases hmmap : a.mmap ≠ noError
  · rw [if_pos hmmap, if_neg hmmap]
    exact ⟨hmmap, hdropped, rfl⟩
  rw [if_neg hmmap]
  by_cases hread : a.setProtRead < 0
  · rw [if_pos hread, if_neg (hneg hread)]
    exact ⟨hneg hread, hdropped, rfl⟩
  · exact absurd ⟨hregion, hreadWrite, not_not.mp hmmap, hread⟩ h

theorem blob_finished (len : UInt32) (a : Ashmem) (hp : p.Settled)
    (hrec : Recorded p (.blob len a)) :
    Part.Finished p (parts p.mAllowFds (.blob len a)) (run (.blob len a) p) := by
  rw [Recorded] at hrec
  by_cases hplace : (!p.mAllowFds || decide (len ≤ inPlaceBlobLimit)) = true
  · rw [if_pos hplace] at hrec
    rw [run_blobInPlace hplace]
    exact parts_finished _ hp hrec
  rw [if_neg hplace] at hrec
  have hrun : run (.blob len a) p = writeAshmem a p := by
    show writeBlob len a p = _
    unfold writeBlob
    rw [if_neg hplace]
  rw [hrun]
  by_cases hworks : a.Works
  · -- the descriptor is held while the parts are written, and closed if one of them fails
    have hparts := hrec.2 hworks
    have hall : parts p.mAllowFds (.blob len a) =
        [int32Part 1, .object (fdObject a.createRegion true) true] := by
      rw [parts, if_neg hplace]
    rw [hall] at hparts ⊢
    have halike : Alike p (p.hold (.fd a.createRegion.toUInt32)) := rfl
    have hend := Part.runAll_finished (hp.hold (.fd a.createRegion.toUInt32))
      (.inr (.inr fun x hx => by
        obtain rfl : int32Part 1 = x := Option.some.inj hx
        exact need_int32Part _))
      (Part.recorded_alike halike hparts)
    rw [writeAshmem_works hworks]
    dsimp only
    generalize Part.runAll [int32Part 1, .object (fdObject a.createRegion true) true]
      (p.hold (.fd a.createRegion.toUInt32)) = w at hend
    cases hend with
    | @stored st q e henc hwrote hgoes hq herror =>
        have hwrote' : Wrote p q e := by
          rcases hwrote with hwrote | ⟨rfl, -⟩
          · exact ⟨hwrote.pos, hwrote.load, hwrote.size, hwrote.cap, hwrote.kept⟩
          · obtain ⟨e₁, e₂, hnil, hfirst, -⟩ := henc
            have hlen := congrArg List.length hnil
            rw [show e₁ = leBytes 4 1 from hfirst, List.length_append, leBytes_length,
              List.length_nil] at hlen
            omega
        by_cases hst : st = noError
        · rw [if_pos hst]
          exact .stored henc (.inl hwrote')
            (fun hst => mt (Part.stopped_alike halike _).mpr (hgoes hst)) hq herror
        · rw [if_neg hst]
          exact .stored henc
            (.inl ⟨hwrote'.pos, hwrote'.load, hwrote'.size, hwrote'.cap, hwrote'.kept⟩)
            (fun hzero => absurd hzero hst) (hq.drop _) herror
    | recorded hst hq herror =>
        rw [if_neg hst]
        exact .recorded hst (hq.drop _) herror
  · have hfails := writeAshmem_fails hworks hp
    generalize writeAshmem a p = w at hfails
    obtain ⟨st, q⟩ := w
    obtain ⟨hst, hq, herror⟩ := hfails
    refine .recorded hst hq fun hclean => hworks (hrec.1 (herror.symm.trans hclean))

/-- How a write operation under the condition ends. -/
theorem finished (op : WriteOp) (hp : p.Settled) (hrec : op.Recorded p) :
    Part.Finished p (op.parts p.mAllowFds) (op.run p) := by
  by_cases hdirect : op.Direct
  · rw [run_eq hdirect]
    refine op.parts_finished hp ?_
    cases op with
    | interfaceToken policy interface => exact absurd hdirect id
    | blob len a => exact absurd hdirect id
    | _ => exact hrec
  · cases op with
    | interfaceToken policy interface => exact interfaceToken_finished policy interface hp hrec
    | nativeHandle handle =>
        cases handle with
        | none =>
            exact .stored rfl (.inr ⟨rfl, .inl rfl⟩) (fun hst => absurd hst (by decide)) hp rfl
        | some h => exact absurd trivial hdirect
    | blob len a => exact blob_finished len a hp hrec
    | _ => exact absurd trivial hdirect

end WriteOp
end Binder
end AndroidLinux
