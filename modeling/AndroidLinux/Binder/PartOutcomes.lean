import AndroidLinux.Binder.WriteOps

/-!
# Which failures of a write are recorded

A write that does not find room fails in two ways.  When an allocation is refused, `mError`
is set; when `growData` gives up, it is not.  Nor is it set when the object table cannot
grow, when a descriptor is not allowed or cannot be duplicated, and when a callback fails.
`Outcome` sorts the ways in which a part ends by this, and `Part.Quiet` says, in front of
the part, whether it fails without a record.
-/

namespace AndroidLinux
namespace Binder

open Lib

namespace Parcel

variable {p q r : Parcel} {e e' : List UInt8} {n : UInt32}

/-- A Parcel whose fields fit together, and that is at its start as long as it has no buffer. -/
structure Settled (p : Parcel) : Prop extends Sound p where
  atStart : p.mData = false → p.mDataPos = 0

theorem Settled.start_eq (h : p.Settled) : p.start = p.mDataPos := by
  unfold start
  split
  · rfl
  · next hnull => exact (h.atStart (by simpa using hnull)).symm

/-- `growData` returns an error without asking for memory. -/
def GivesUp (p : Parcel) (n : UInt32) : Prop :=
  p.Lacks n ∧ growSize p.mDataSize n ≤ p.mDataSize

/-- `continueWrite` is refused an allocation. -/
def TurnsDown (p : Parcel) (n : UInt32) : Prop :=
  p.Lacks n ∧ p.Refused

/-- `q` has the bytes `e` where `p` is written, they are part of its data, and its position
is behind them. -/
structure Wrote (p q : Parcel) (e : List UInt8) : Prop where
  pos : q.mDataPos.toNat = p.mDataPos.toNat + e.length
  load : q.bytes.load p.mDataPos e.length = e
  size : q.mDataPos.toNat ≤ q.mDataSize.toNat
  cap : q.mDataSize.toNat ≤ q.mDataCapacity.toNat
  kept : ∀ (off : UInt32) (k : Nat), off.toNat + k ≤ p.mDataPos.toNat →
    off.toNat + k ≤ p.mDataSize.toNat → q.bytes.load off k = p.bytes.load off k

/-- One write behind another. -/
theorem Wrote.trans (h : Wrote p q e) (h' : Wrote q r e') : Wrote p r (e ++ e') := by
  have hpos := h.pos
  have hpos' := h'.pos
  have hsize := h.size
  have hlt := q.mDataPos.toNat_lt
  refine ⟨?_, ?_, h'.size, h'.cap, fun off k hk hk' => ?_⟩
  · rw [List.length_append]
    omega
  · have hat : p.mDataPos + UInt32.ofNat e.length = q.mDataPos := by
      rw [← UInt32.toNat_inj, Mem.toNat_add_ofNat (by omega), hpos]
    rw [List.length_append, Mem.load_add, hat, h'.load,
      h'.kept p.mDataPos e.length (by omega) (by omega), h.load]
  · rw [h'.kept off k (by omega) (by omega), h.kept off k hk hk']

/-- Bytes that are put into the room that has been made. -/
theorem Settled.wrote (h : p.Settled) (hprepared : Prepared p r n) {r' : Parcel}
    (hpos : r'.mDataPos = r.mDataPos) (hsize : r'.mDataSize = r.mDataSize)
    (hcap : r'.mDataCapacity = r.mDataCapacity) (hbytes : r'.bytes = r.bytes)
    (hput : Put r' q e) (he : e.length = n.toNat) : Wrote p q e := by
  have hroom := hprepared.room
  have hfits := hprepared.fits
  have hlt := p.mDataPos.toNat_lt
  have hqcap : q.mDataCapacity = r.mDataCapacity := by rw [hput.same, ← hcap]
  have hqsize := hput.size
  have hqpos := hput.pos
  have hqload := hput.load
  have hframe := hput.frame
  rw [hsize] at hqsize
  rw [hpos, hprepared.pos, h.start_eq] at hqpos hqload hframe
  rw [h.start_eq] at hroom
  refine ⟨hqpos, hqload, ?_, ?_, fun off k hk hk' => ?_⟩
  · omega
  · rw [hqcap]
    omega
  · rw [hframe off k (by omega) (.inl hk), hbytes, hprepared.load off k hk']

theorem Prepared.not_turnsDown (h : Prepared p r n) : ¬ p.TurnsDown n :=
  fun hturns => h.granted hturns.1 hturns.2

/-- Where `growData` gives up, no room is made. -/
theorem Settled.not_givesUp (h : p.Settled) (hprepared : Prepared p r n) : ¬ p.GivesUp n := by
  rintro ⟨hlack, hsize⟩
  have hroom := hprepared.room
  have hfits := h.fits
  rw [hprepared.cap, if_pos hlack, h.start_eq] at hroom
  rw [UInt32.le_iff_toNat_le] at hsize
  unfold Lacks at hlack
  omega

/-- A Parcel after a write is settled again. -/
theorem Settled.next (h : p.Settled) (hprepared : Prepared p r n) {r' : Parcel} (hr' : r'.Sound)
    (hpos : r'.mDataPos = r.mDataPos) (hcap : r'.mDataCapacity = r.mDataCapacity)
    (hmData : r'.mData = r.mData) (hput : Put r' q e) (he : e.length = n.toNat) : q.Settled := by
  have hroom := hprepared.room
  rw [h.start_eq] at hroom
  have hrpos : r'.mDataPos = p.mDataPos := hpos.trans (hprepared.pos.trans h.start_eq)
  refine { toSound := hput.sound hr' (by rw [hrpos, hcap]; omega), atStart := ?_ }
  intro hnull
  have hrnull : r.mData = false := by
    rw [hput.same] at hnull
    exact hmData.symm.trans hnull
  have hdata := hprepared.data
  rw [hrnull] at hdata
  have hpnull : p.mData = false := by
    cases hp : p.mData with
    | false => rfl
    | true => simp [hp] at hdata
  -- without a buffer there is no room, and nothing has been put
  have hlack : ¬ p.Lacks n := by simpa [hpnull] using hdata
  have hcapZero := (h.null hpnull).1
  have hposZero := h.atStart hpnull
  have hzero : (0 : UInt32).toNat = 0 := rfl
  unfold Lacks at hlack
  rw [hcapZero, hposZero] at hlack
  have hqpos := hput.pos
  rw [hrpos, hposZero] at hqpos
  exact UInt32.toNat_inj.mp (by omega)

theorem Settled.of_failed (h : p.Settled) (hfailed : Failed p q) : q.Settled := by
  obtain ⟨data, newTable, rfl⟩ := hfailed
  exact ⟨⟨h.fits, h.extent, h.null⟩, h.atStart⟩

end Parcel

/-! ## The parts -/

namespace Part

open Parcel

variable {p q : Parcel} {x : Part} {e : List UInt8}

/-- There is no place for an object, or it is a descriptor that is not allowed. -/
def Unplaced (p : Parcel) (val : FlatBinderObject) : Prop :=
  ¬ p.TurnsDown 16 ∧ (¬ p.HasEntry ∧ p.proc.answers.table 0 = false ∨
    val.type = binderTypeFd ∧ p.mAllowFds = false)

/-- The part fails, and its failure is not recorded in `mError`. -/
def Quiet (p : Parcel) : Part → Prop
  | .object val _ => p.GivesUp 16 ∨ Unplaced p val
  | .dup =>
      p.proc.answers.dup 0 < 0 ∨ p.GivesUp 16 ∨ Unplaced p (fdObject (p.proc.answers.dup 0) true)
  | .result status => status ≠ noError
  | x => p.GivesUp x.need

/-- An allocation for the part is refused. -/
def Refuses (p : Parcel) : Part → Prop
  | .dup => ¬ p.proc.answers.dup 0 < 0 ∧ p.TurnsDown 16
  | .result _ => False
  | x => p.TurnsDown x.need

/-- The part fails. -/
def Stops (x : Part) (p : Parcel) : Prop :=
  x.Quiet p ∨ x.Refuses p

/-- The size of the part is a `size_t`, its end does not wrap, and if the buffer grows for it,
it grows far enough. -/
def Roomy (p : Parcel) : Part → Prop
  | .dup => ¬ p.proc.answers.dup 0 < 0 → p.Fits 16
  | .result _ => True
  | x => x.Sized ∧ p.Fits x.need

/-- What a part that succeeds makes of a Parcel, up to `Alike`. -/
def after (p : Parcel) : Part → Parcel
  | .object val nullMetaData => p.withObject val nullMetaData
  | .dup => p.shiftDup.withObject (fdObject (p.proc.answers.dup 0) true) true
  | .result _ => p
  | x => p.advanced x.need

/-- The ways in which a part ends. -/
inductive Outcome (p : Parcel) (x : Part) : Status × Parcel → Prop
  | stored {q : Parcel} {e : List UInt8} (henc : x.Encodes (p.proc.answers.dup 0) e)
      (hwrote : Wrote p q e) (hgoes : ¬ x.Stops p) (halike : Alike (x.after p) q)
      (hdata : p.mData = true ∨ x.need ≠ 0 → q.mData = true) (hsettled : q.Settled)
      (herror : q.mError = p.mError) : Outcome p x (noError, q)
  | passed (henc : x.Encodes (p.proc.answers.dup 0) []) (hgoes : ¬ x.Stops p)
      (hafter : x.after p = p) (hneed : x.need = 0) : Outcome p x (noError, p)
  | nothing {st : Status} {q : Parcel} (henc : x.Encodes (p.proc.answers.dup 0) [])
      (hnull : ¬ (p.mData = true ∨ x.need ≠ 0)) (hgoes : ¬ x.Stops p) (hsettled : q.Settled)
      (herror : q.mError = p.mError) : Outcome p x (st, q)
  | recorded {st : Status} {q : Parcel} (hrefuses : x.Refuses p) (hst : st ≠ noError)
      (hsettled : q.Settled) (herror : q.mError ≠ noError) : Outcome p x (st, q)
  | quiet {st : Status} {q : Parcel} (hquiet : x.Quiet p)
      (hst : st ≠ noError ∨ st = p.mError) (hsettled : q.Settled)
      (herror : q.mError = p.mError) : Outcome p x (st, q)

theorem length_of_encodes (hplain : x.Plain) (hsized : x.Sized) (henc : x.Encodes 0 e) :
    e.length = x.need.toNat := by
  cases x with
  | aligned val =>
      rw [show e = val from henc]
      exact (UInt32.toNat_ofNat_of_lt' hsized).symm
  | unpadded bytes =>
      rw [show e = bytes from henc]
      exact (UInt32.toNat_ofNat_of_lt' hsized).symm
  | padded bytes =>
      have hsized' : bytes.length + 3 < 2 ^ 32 := hsized
      have hlen : (UInt32.ofNat bytes.length).toNat = bytes.length :=
        UInt32.toNat_ofNat_of_lt' (show bytes.length < 2 ^ 32 by omega)
      rw [show e = Binder.padded bytes from henc, padded_length, need,
        padSize_toNat (by omega), hlen]
  | units str =>
      have hsized' : 2 * str.length + 5 < 2 ^ 32 := hsized
      have hlen : (UInt32.ofNat str.length).toNat = str.length :=
        UInt32.toNat_ofNat_of_lt' (show str.length < 2 ^ 32 by omega)
      have hsum := units_size hlen (by omega)
      rw [show e = Binder.padded (unitBytes str ++ [0, 0]) from henc, padded_length,
        List.length_append, unitBytes_length, need, padSize_toNat (by omega), hsum]
      rfl
  | room len fill null =>
      obtain ⟨y, hy, -, rfl⟩ := henc
      have hsized' : len.toNat + 3 < 2 ^ 32 := hsized.1
      rw [padded_length, need, padSize_toNat hsized', hy]
  | object val nullMetaData => exact absurd hplain id
  | dup => exact absurd hplain id
  | result status => exact absurd hplain id

/-- What does not depend on descriptors. -/
theorem encodes_plain (hplain : x.Plain) (fd : Int32) (henc : x.Encodes 0 e) : x.Encodes fd e := by
  cases x with
  | dup => exact absurd hplain id
  | _ => exact henc

theorem quiet_plain (hplain : x.Plain) (p : Parcel) : x.Quiet p ↔ p.GivesUp x.need := by
  cases x with
  | object val nullMetaData => exact absurd hplain id
  | dup => exact absurd hplain id
  | result status => exact absurd hplain id
  | _ => rfl

theorem refuses_plain (hplain : x.Plain) (p : Parcel) : x.Refuses p ↔ p.TurnsDown x.need := by
  cases x with
  | object val nullMetaData => exact absurd hplain id
  | dup => exact absurd hplain id
  | result status => exact absurd hplain id
  | _ => rfl

/-- A part without object gives up, is refused memory, or goes. -/
theorem stops_plain (hplain : x.Plain) (p : Parcel) :
    x.Stops p ↔ p.GivesUp x.need ∨ p.TurnsDown x.need := by
  rw [Stops, quiet_plain hplain, refuses_plain hplain]

theorem after_plain (hplain : x.Plain) (p : Parcel) : x.after p = p.advanced x.need := by
  cases x with
  | object val nullMetaData => exact absurd hplain id
  | dup => exact absurd hplain id
  | result status => exact absurd hplain id
  | _ => rfl

theorem outcome_of_ended (hplain : x.Plain) (hsized : x.Sized) (hp : p.Settled)
    {w : Status × Parcel} (h : Ended p x w) : Outcome p x w := by
  cases h with
  | @stored r q e henc hprepared hput =>
      have he := length_of_encodes hplain hsized henc
      have hgoes : ¬ x.Stops p := by
        rw [stops_plain hplain]
        exact not_or.mpr ⟨hp.not_givesUp hprepared, hprepared.not_turnsDown⟩
      refine .stored (encodes_plain hplain _ henc)
        (hp.wrote hprepared rfl rfl rfl rfl hput he) hgoes ?_ (fun hdata => ?_)
        (hp.next hprepared hprepared.toSound rfl rfl rfl hput he) ?_
      · rw [after_plain hplain]
        exact (hprepared.alike.finishWrite _).trans (hput.alike he)
      · rw [show q.mData = r.mData by rw [hput.same]]
        rcases hdata with hdata | hne
        · rw [hprepared.data, hdata, Bool.true_or]
        · exact hprepared.mData hne
      · rw [hput.same]
        exact hprepared.mError
  | @nothing st r q henc hprepared hput hmData hst =>
      have he : ([] : List UInt8).length = x.need.toNat := length_of_encodes hplain hsized henc
      have hgoes : ¬ x.Stops p := by
        rw [stops_plain hplain]
        exact not_or.mpr ⟨hp.not_givesUp hprepared, hprepared.not_turnsDown⟩
      refine .nothing (encodes_plain hplain _ henc) ?_ hgoes
        (hp.next hprepared hprepared.toSound rfl rfl rfl hput he) ?_
      · rintro (hdata | hne)
        · rw [hprepared.data, hdata, Bool.true_or] at hmData
          cases hmData
        · exact hne (UInt32.toNat_inj.mp he.symm)
      · rw [hput.same]
        exact hprepared.mError
  | failed hlack hfailed hrefused hst =>
      refine .recorded ((refuses_plain hplain p).mpr ⟨hlack, hrefused⟩) hst
        (hp.of_failed hfailed) ?_
      rw [hfailed.mError]
      exact noMemory_ne
  | gaveUp hlack hsize hst =>
      exact .quiet ((quiet_plain hplain p).mpr ⟨hlack, hsize⟩) hst hp rfl

/-! ## Objects -/

/-- What does not change when an object gets into the table. -/
theorem listed_fields (p r : Parcel) (val : FlatBinderObject) (nullMetaData : Bool) :
    (p.tabled r).listed val nullMetaData =
      { r with
        mObjects := ((p.tabled r).listed val nullMetaData).mObjects
        mObjectsCapacity := ((p.tabled r).listed val nullMetaData).mObjectsCapacity
        objectsExtent := ((p.tabled r).listed val nullMetaData).objectsExtent
        proc := ((p.tabled r).listed val nullMetaData).proc } := by
  have htabled := tabled_eq p r
  have hlisted := listed_eq (p.tabled r) val nullMetaData
  generalize p.tabled r = t at htabled hlisted ⊢
  generalize t.listed val nullMetaData = l at hlisted ⊢
  rw [hlisted, htabled]

theorem noteFd_fields (r : Parcel) (val : FlatBinderObject) :
    r.noteFd val =
      { r with mHasFds := (r.noteFd val).mHasFds, mFdsKnown := (r.noteFd val).mFdsKnown } := by
  unfold noteFd
  split <;> rfl

theorem sound_listed (hr : q.Sound) (val : FlatBinderObject) (nullMetaData : Bool) :
    ((p.tabled q).listed val nullMetaData).Sound := by
  rw [listed_fields]
  exact ⟨hr.fits, hr.extent, hr.null⟩

theorem object_outcome (hp : p.Settled) (hfit : p.Fits 16) (val : FlatBinderObject)
    (nullMetaData : Bool) :
    Outcome p (.object val nullMetaData) (writeObject val nullMetaData p) := by
  have hended : ObjectEnded p val nullMetaData (writeObject val nullMetaData p) :=
    writeObject_ended hp.toSound hfit
  generalize writeObject val nullMetaData p = w at hended
  cases hended with
  | @stored r q hprepared hentry hallow hput =>
      have he : val.toBytes.length = (16 : UInt32).toNat := val.toBytes_length
      have hlisted := listed_fields p r val nullMetaData
      have hsound := sound_listed (p := p) hprepared.toSound val nullMetaData
      -- the entry and the permission exclude each way to fail
      have hgoes : ¬ (Part.object val nullMetaData).Stops p := by
        rintro ((hgives | ⟨-, hnone | hforbidden⟩) | hturns)
        · exact hp.not_givesUp hprepared hgives
        · rcases hentry with hentry | hentry
          · exact hnone.1 hentry
          · rw [hnone.2] at hentry
            cases hentry
        · rw [hallow hforbidden.1] at hforbidden
          cases hforbidden.2
        · exact hprepared.not_turnsDown hturns
      have halike : Alike (p.withObject val nullMetaData) q :=
        ((((Alike.refl p).tabled hprepared.alike).listed val nullMetaData).noteFd val
          |>.finishWrite 16).trans (hput.alike he)
      generalize (p.tabled r).listed val nullMetaData = l at hlisted hsound hput
      have hnoted := noteFd_fields l val
      generalize l.noteFd val = l' at hnoted hput
      have hsound' : l'.Sound := by
        rw [hnoted]
        exact ⟨hsound.fits, hsound.extent, hsound.null⟩
      rw [hlisted] at hnoted
      have hmData : q.mData = true := by
        rw [hput.same, hnoted]
        exact hprepared.mData (by decide)
      refine .stored rfl ?_ hgoes halike (fun _ => hmData) ?_ ?_
      · exact hp.wrote hprepared (by rw [hnoted]) (by rw [hnoted]) (by rw [hnoted])
          (by rw [hnoted]) hput he
      · exact hp.next hprepared hsound' (by rw [hnoted]) (by rw [hnoted]) (by rw [hnoted]) hput he
      · rw [hput.same, hnoted]
        exact hprepared.mError
  | @forbidden r bytes hprepared hentry hfd hallow hbytes =>
      have hlisted := listed_fields p r val nullMetaData
      have hsound := sound_listed (p := p) hprepared.toSound val nullMetaData
      generalize (p.tabled r).listed val nullMetaData = l at hlisted hsound ⊢
      have hmData : l.mData = true := by
        rw [hlisted]
        exact hprepared.mData (by decide)
      refine .quiet (.inr ⟨hprepared.not_turnsDown, .inr ⟨hfd, hallow⟩⟩) (.inl (by decide))
        ⟨⟨hsound.fits, hsound.extent, hsound.null⟩, fun hnull => ?_⟩ ?_
      · exact absurd (hmData.symm.trans hnull) (by decide)
      · rw [hlisted]
        exact hprepared.mError
  | @noEntry r hprepared hentry htable =>
      have htabled := tabled_eq p r
      have hsound := sound_tabled (p := p) hprepared.toSound
      generalize p.tabled r = t at htabled hsound ⊢
      have hmData : t.mData = true := by
        rw [htabled]
        exact hprepared.mData (by decide)
      refine .quiet (.inr ⟨hprepared.not_turnsDown, .inl ⟨hentry, htable⟩⟩) (.inl (by decide))
        ⟨hsound, fun hnull => ?_⟩ ?_
      · exact absurd (hmData.symm.trans hnull) (by decide)
      · rw [htabled]
        exact hprepared.mError
  | failed hlack hfailed hrefused =>
      refine .recorded ⟨hlack, hrefused⟩ noMemory_ne (hp.of_failed hfailed) ?_
      rw [hfailed.mError]
      exact noMemory_ne
  | gaveUp hlack hsize => exact .quiet (.inl ⟨hlack, hsize⟩) (.inl noMemory_ne) hp rfl

/-- The descriptor that has been duplicated is an object. -/
theorem dup_outcome (hp : p.Settled) (hroomy : Roomy p .dup) :
    Outcome p .dup (writeDupFileDescriptor p) := by
  unfold writeDupFileDescriptor
  dsimp only
  by_cases hfd : p.proc.answers.dup 0 < 0
  · rw [if_pos hfd]
    refine .quiet (.inl hfd) (.inl ?_) ⟨⟨hp.fits, hp.extent, hp.null⟩, hp.atStart⟩ rfl
    intro hzero
    rw [hzero] at hfd
    exact absurd hfd (by decide)
  rw [if_neg hfd]
  obtain ⟨held, hheld⟩ : ∃ held, held = p.shiftDup.hold (.fd (p.proc.answers.dup 0).toUInt32) :=
    ⟨_, rfl⟩
  -- the descriptor that is held changes nothing that the write looks at
  have hsettled : held.Settled := by
    rw [hheld]
    exact ⟨⟨hp.fits, hp.extent, hp.null⟩, hp.atStart⟩
  have hfit : held.Fits 16 := by
    have hfits : p.Fits 16 := hroomy hfd
    rw [hheld]
    exact ⟨hfits.noWrap, hfits.grows⟩
  have halike : Alike p.shiftDup held := by
    rw [hheld]
    rfl
  have hend := object_outcome hsettled hfit (fdObject (p.proc.answers.dup 0) true) true
  rw [← hheld]
  unfold writeFileDescriptor
  generalize writeObject (fdObject (p.proc.answers.dup 0) true) true held = w at hend
  cases hend with
  | @stored q e henc hwrote hgoes hafter hdata hq herror =>
      rw [if_pos rfl]
      refine .stored henc ?_ ?_ ((halike.withObject _ _).trans hafter) (fun _ => ?_) hq ?_
      · rw [hheld] at hwrote
        exact ⟨hwrote.pos, hwrote.load, hwrote.size, hwrote.cap, hwrote.kept⟩
      · rw [hheld] at hgoes
        rintro ((hneg | hquiet) | ⟨-, hturns⟩)
        · exact hfd hneg
        · exact hgoes (.inl hquiet)
        · exact hgoes (.inr hturns)
      · exact hdata (.inr (show (16 : UInt32) ≠ 0 by decide))
      · rw [herror, hheld]
        rfl
  | passed henc hgoes hafter hneed =>
      have hlength := congrArg List.length henc
      rw [FlatBinderObject.toBytes_length] at hlength
      cases hlength
  | nothing henc hnull hgoes hq herror =>
      exact absurd (.inr (show (16 : UInt32) ≠ 0 by decide)) hnull
  | @recorded st q hrefuses hst hq herror =>
      rw [hheld] at hrefuses
      rw [if_neg hst]
      exact .recorded ⟨hfd, hrefuses⟩ hst ⟨⟨hq.fits, hq.extent, hq.null⟩, hq.atStart⟩ herror
  | @quiet st q hquiet hst hq herror =>
      have hquiet' : Quiet p .dup := by
        rw [hheld] at hquiet
        exact .inr hquiet
      have herror' : q.mError = p.mError := by
        rw [herror, hheld]
        rfl
      have hst' : st ≠ noError ∨ st = p.mError := by
        rw [hheld] at hst
        exact hst
      by_cases hzero : st = noError
      · rw [if_pos hzero]
        exact .quiet hquiet' hst' hq herror'
      · rw [if_neg hzero]
        exact .quiet hquiet' hst' ⟨⟨hq.fits, hq.extent, hq.null⟩, hq.atStart⟩ herror'

theorem plain_outcome (hplain : x.Plain) (hp : p.Settled) (hsized : x.Sized)
    (hfit : p.Fits x.need) : Outcome p x (x.run p) :=
  outcome_of_ended hplain hsized hp (Part.ended hplain hp.toSound hsized hfit)

/-- How a part of any kind ends. -/
theorem outcome (hp : p.Settled) (hroomy : x.Roomy p) : Outcome p x (x.run p) := by
  cases x with
  | aligned val => exact plain_outcome (x := .aligned val) trivial hp hroomy.1 hroomy.2
  | unpadded bytes => exact plain_outcome (x := .unpadded bytes) trivial hp hroomy.1 hroomy.2
  | padded bytes => exact plain_outcome (x := .padded bytes) trivial hp hroomy.1 hroomy.2
  | units str => exact plain_outcome (x := .units str) trivial hp hroomy.1 hroomy.2
  | room len fill null =>
      exact plain_outcome (x := .room len fill null) trivial hp hroomy.1 hroomy.2
  | object val nullMetaData => exact object_outcome hp hroomy.2 val nullMetaData
  | dup => exact dup_outcome hp hroomy
  | result status =>
      by_cases hst : status = noError
      · subst hst
        exact .passed rfl (by rintro (h | h); exacts [h rfl, h]) rfl rfl
      · exact .quiet hst (.inl hst) hp rfl

end Part
end Binder
end AndroidLinux
