import AndroidLinux.Binder.PartOutcomes

/-!
# The parts of a call, and what is recorded

`Recorded` is a condition on the parts of a call and on the Parcel in front of it: no part
that is reached fails without a record.  A call under this condition stores all of its parts,
or returns an error and leaves `mError` set (`runAll_finished`).
-/

namespace AndroidLinux
namespace Binder

open Lib

namespace Part

open Parcel

/-- The answers of `dup` that the part leaves. -/
def nextFds (fds : Nat → Int32) : Part → Nat → Int32
  | .dup => fun k => fds (k + 1)
  | _ => fds

/-- The callback has filled its room. -/
def Filled : Part → Prop
  | .result status => status = noError
  | _ => True

/-- The bytes of several parts, with the descriptors that `dup` returns. -/
def EncodesAll : (Nat → Int32) → List Part → List UInt8 → Prop
  | _, [], e => e = []
  | fds, x :: xs, e =>
      ∃ e₁ e₂, e = e₁ ++ e₂ ∧ x.Encodes (fds 0) e₁ ∧ x.Filled ∧ EncodesAll (x.nextFds fds) xs e₂

/-- Every part that is reached has a size without a wrap, and if nothing has been recorded
before, then no part that is reached fails without a record. -/
def Recorded (clean : Prop) : List Part → Parcel → Prop
  | [], _ => True
  | x :: xs, p =>
      x.Roomy p ∧ (clean → ¬ x.Quiet p) ∧ (¬ x.Stops p → Recorded clean xs (x.after p))

/-- One of the parts fails. -/
def Stopped : List Part → Parcel → Prop
  | [], _ => False
  | x :: xs, p => x.Stops p ∨ Stopped xs (x.after p)

/-- How several parts end. -/
inductive Finished (p : Parcel) (xs : List Part) : Status × Parcel → Prop
  | stored {st : Status} {q : Parcel} {e : List UInt8}
      (henc : EncodesAll p.proc.answers.dup xs e)
      (hwrote : Wrote p q e ∨ e = [] ∧ (q = p ∨ xs ≠ [] ∧ p.mData = false))
      (hgoes : st = noError → ¬ Stopped xs p) (hsettled : q.Settled)
      (herror : q.mError = p.mError) : Finished p xs (st, q)
  | recorded {st : Status} {q : Parcel} (hst : st ≠ noError) (hsettled : q.Settled)
      (herror : q.mError ≠ noError) : Finished p xs (st, q)

variable {p q : Parcel} {x : Part} {xs : List Part} {clean clean' : Prop}

/-! ## Parcels that are alike -/

theorem roomy_alike (h : Alike p q) (x : Part) : x.Roomy q ↔ x.Roomy p := by
  have hfits (n : UInt32) : q.Fits n ↔ p.Fits n := by
    rw [h]
    exact ⟨fun hfit => ⟨hfit.noWrap, hfit.grows⟩, fun hfit => ⟨hfit.noWrap, hfit.grows⟩⟩
  have hdup : q.proc.answers.dup = p.proc.answers.dup := by rw [h]
  cases x with
  | dup => simp only [Roomy, hfits, hdup]
  | result status => rfl
  | _ => simp only [Roomy, hfits]

theorem quiet_alike (h : Alike p q) (x : Part) : x.Quiet q ↔ x.Quiet p := by
  rw [h]
  cases x <;> rfl

theorem stops_alike (h : Alike p q) (x : Part) : x.Stops q ↔ x.Stops p := by
  rw [Stops, Stops, quiet_alike h]
  rw [h]
  cases x <;> rfl

theorem after_alike (h : Alike p q) (x : Part) : Alike (x.after p) (x.after q) := by
  have hdup : q.proc.answers.dup = p.proc.answers.dup := by rw [h]
  cases x with
  | object val nullMetaData => exact h.withObject val nullMetaData
  | dup =>
      have hshift : Alike p.shiftDup q.shiftDup := by
        rw [h]
        rfl
      simp only [after, hdup]
      exact hshift.withObject _ true
  | result status => exact h
  | _ => exact h.advanced _

theorem recorded_alike (h : Alike p q) (hrec : Recorded clean xs p) : Recorded clean xs q := by
  induction xs generalizing p q with
  | nil => trivial
  | cons x xs ih =>
      obtain ⟨hroomy, hquiet, hrest⟩ := hrec
      exact ⟨(roomy_alike h x).mpr hroomy, fun hclean => mt (quiet_alike h x).mp (hquiet hclean),
        fun hgoes => ih (after_alike h x) (hrest (mt (stops_alike h x).mpr hgoes))⟩

theorem stopped_alike (h : Alike p q) (xs : List Part) : Stopped xs q ↔ Stopped xs p := by
  induction xs generalizing p q with
  | nil => rfl
  | cons x xs ih => rw [Stopped, Stopped, stops_alike h, ih (after_alike h x)]

theorem Recorded.mono (himp : clean' → clean) (hrec : Recorded clean xs p) :
    Recorded clean' xs p := by
  induction xs generalizing p with
  | nil => trivial
  | cons x xs ih =>
      obtain ⟨hroomy, hquiet, hrest⟩ := hrec
      exact ⟨hroomy, fun hclean => hquiet (himp hclean), fun hgoes => ih (hrest hgoes)⟩

/-! ## The parts one after the other -/

theorem withObject_dup (p : Parcel) (val : FlatBinderObject) (nullMetaData : Bool) :
    (p.withObject val nullMetaData).proc.answers.dup = p.proc.answers.dup := by
  have hready : (p.readied 16).proc.answers.dup = p.proc.answers.dup := by
    simp only [readied]
    split <;> rfl
  have htabled : (p.tabled (p.readied 16)).proc.answers.dup = p.proc.answers.dup := by
    unfold tabled growObjects
    split
    · exact hready
    · split <;> exact hready
  unfold withObject finishWrite
  rw [listed_eq]
  exact htabled

/-- A part that succeeds uses the answers of `dup` that it encodes. -/
theorem after_dups (x : Part) (p : Parcel) :
    (x.after p).proc.answers.dup = x.nextFds p.proc.answers.dup := by
  cases x with
  | object val nullMetaData => exact withObject_dup p val nullMetaData
  | dup => exact withObject_dup p.shiftDup _ true
  | result status => rfl
  | _ =>
      simp only [after, advanced, finishWrite, readied, nextFds]
      split <;> rfl

theorem filled_of_goes (hgoes : ¬ x.Stops p) : x.Filled := by
  cases x with
  | result status => exact not_not.mp fun hfails => hgoes (.inl hfails)
  | _ => trivial

/-- Behind a part that has been stored. -/
theorem Finished.cons {e : List UInt8} {w : Status × Parcel}
    (henc : x.Encodes (p.proc.answers.dup 0) e) (hwrote : Wrote p q e) (hgoes : ¬ x.Stops p)
    (halike : Alike (x.after p) q) (hdata : xs ≠ [] → q.mData = true)
    (herror : q.mError = p.mError) (h : Finished q xs w) :
    Finished p (x :: xs) w := by
  have hdup : q.proc.answers.dup = x.nextFds p.proc.answers.dup := by
    rw [← after_dups, show q.proc.answers = (x.after p).proc.answers by rw [halike]]
  cases h with
  | @stored st r e' henc' hwrote' hgoes' hr herror' =>
      rw [hdup] at henc'
      have hall : Wrote p r (e ++ e') := by
        rcases hwrote' with hwrote' | ⟨rfl, rfl | ⟨hne, hnull⟩⟩
        · exact hwrote.trans hwrote'
        · rw [List.append_nil]
          exact hwrote
        · rw [hdata hne] at hnull
          cases hnull
      refine .stored ⟨e, e', rfl, henc, filled_of_goes hgoes, henc'⟩ (.inl hall) (fun hst => ?_) hr
        (herror'.trans herror)
      exact not_or.mpr ⟨hgoes, mt (stopped_alike halike xs).mpr (hgoes' hst)⟩
  | recorded hst hr herror' => exact .recorded hst hr herror'

/-- Behind a part that leaves the Parcel as it is. -/
theorem Finished.skip {w : Status × Parcel} (h : Finished p xs w)
    (henc : x.Encodes (p.proc.answers.dup 0) []) (hgoes : ¬ x.Stops p) (hafter : x.after p = p) :
    Finished p (x :: xs) w := by
  have hdup : p.proc.answers.dup = x.nextFds p.proc.answers.dup := by
    rw [← after_dups, hafter]
  cases h with
  | @stored st r e henc' hwrote hgoes' hr herror =>
      rw [hdup] at henc'
      refine .stored ⟨[], e, rfl, henc, filled_of_goes hgoes, henc'⟩ ?_ (fun hst => ?_) hr herror
      · rcases hwrote with hwrote | ⟨rfl, rfl | ⟨-, hnull⟩⟩
        · exact .inl hwrote
        · exact .inr ⟨rfl, .inl rfl⟩
        · exact .inr ⟨rfl, .inr ⟨List.cons_ne_nil _ _, hnull⟩⟩
      · rw [Stopped, hafter]
        exact not_or.mpr ⟨hgoes, hgoes' hst⟩
  | recorded hst hr herror => exact .recorded hst hr herror

theorem finished_nil (hp : p.Settled) : Finished p [] (noError, p) :=
  .stored rfl (.inr ⟨rfl, .inl rfl⟩) (fun _ => id) hp rfl

/-- A call under the condition stores all of its parts, or its failure is recorded. -/
theorem runAll_finished (hp : p.Settled)
    (hfirst : p.mData = true ∨ xs.length ≤ 1 ∨ ∀ x ∈ xs.head?, x.need ≠ 0)
    (hrec : Recorded (p.mError = noError) xs p) : Finished p xs (runAll xs p) := by
  induction xs generalizing p with
  | nil => exact finished_nil hp
  | cons x xs ih =>
      obtain ⟨hroomy, hquiet, hrest⟩ := hrec
      have hready : xs ≠ [] → p.mData = true ∨ x.need ≠ 0 := by
        intro hne
        rcases hfirst with hdata | hone | hneed
        · exact .inl hdata
        · have hpos := List.length_pos_of_ne_nil hne
          rw [List.length_cons] at hone
          omega
        · exact .inr (hneed x rfl)
      have hend := outcome hp hroomy
      generalize hw : x.run p = w at hend
      rw [runAll]
      cases hend with
      | @stored q e henc hwrote hgoes halike hdata hq herror =>
          rw [andThen_of_done hw]
          have hnext := recorded_alike halike (hrest hgoes)
          rw [← herror] at hnext
          have hdata' : xs ≠ [] → q.mData = true := fun hne => hdata (hready hne)
          refine Finished.cons henc hwrote hgoes halike hdata' herror (ih hq ?_ hnext)
          by_cases hne : xs = []
          · exact .inr (.inl (by simp [hne]))
          · exact .inl (hdata' hne)
      | passed henc hgoes hafter hneed =>
          rw [andThen_of_done hw]
          have hnext := hrest hgoes
          rw [hafter] at hnext
          refine (ih hp ?_ hnext).skip henc hgoes hafter
          by_cases hne : xs = []
          · exact .inr (.inl (by simp [hne]))
          · exact .inl ((hready hne).resolve_right (not_not.mpr hneed))
      | @nothing st q henc hnull hgoes hq herror =>
          -- only a single part can be without bytes and without a buffer
          have hnil : xs = [] := by
            by_contra hne
            exact hnull (hready hne)
          subst hnil
          have hdata : p.mData = false := by simpa using fun hdata => hnull (.inl hdata)
          have hrun : andThen x.run (runAll []) p = (st, q) := by
            rw [← hw]
            exact congrFun (andThen_done x.run) p
          rw [hrun]
          exact .stored ⟨[], [], rfl, henc, filled_of_goes hgoes, rfl⟩
            (.inr ⟨rfl, .inr ⟨List.cons_ne_nil _ _, hdata⟩⟩)
            (fun _ => not_or.mpr ⟨hgoes, id⟩) hq herror
      | @recorded st q hrefuses hst hq herror =>
          rw [andThen_of_error hw hst]
          exact .recorded hst hq herror
      | @quiet st q hfails hst hq herror =>
          have hdirty : p.mError ≠ noError := fun hclean => hquiet hclean hfails
          have hst' : st ≠ noError := by
            rcases hst with hst | rfl
            · exact hst
            · exact hdirty
          rw [andThen_of_error hw hst']
          exact .recorded hst' hq (by rwa [herror])

end Part
end Binder
end AndroidLinux
