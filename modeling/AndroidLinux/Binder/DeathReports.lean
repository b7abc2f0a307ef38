import AndroidLinux.Binder.DeathNotices

/-!
# Recipients are told of a death once

`Exact` collects what the clients of a proxy rely on.  It holds along all runs in which
`unlinkToDeath` is not refused the smaller buffer that it asks for when an obituary is
removed: `removeItemsAt` then leaves the vector as it was, and `unlinkToDeath` reports
success.

The invariant splits the registrations into the removed ones, the reported ones, those in
the vector and those that one call of `sendObituary` holds.
-/

namespace AndroidLinux
namespace Binder

open Lib

namespace DeathSystem

/-- Requests and clears take turns; `outstanding` is whether the last one was a request. -/
inductive Alternates : (outstanding : Bool) → List DeathCommand → Prop
  | nil : Alternates false []
  | request {l : List DeathCommand} {handle : Int32} (h : Alternates false l) :
      Alternates true (l ++ [.requestDeathNotification handle])
  | clear {l : List DeathCommand} {handle : Int32} (h : Alternates true l) :
      Alternates false (l ++ [.clearDeathNotification handle])

/-- The obituaries are sent exactly once, and the proxy stays for them.  The driver
acknowledges the clear of `sendObituary` after `BC_DEAD_BINDER_DONE`, so that a proxy whose
last clear is not acknowledged is still there for the reports. -/
structure Exact (s : DeathSystem) : Prop where
  once : s.reported.Nodup
  registered : ∀ n ∈ s.reported, n ∈ s.linked ∧ n ∉ s.removed
  sent : ∀ c, s.calls c = .returned → s.proxy.mObitsSent = true
  served : s.proxy.mObitsSent = true → (∀ c obits, s.calls c ≠ .reporting obits) →
    ∀ n ∈ s.linked, n ∉ s.removed → n ∈ s.reported
  refused : s.proxy.mObitsSent = true → ∀ recipient cookie flags vector items,
    s.linkToDeath recipient cookie flags vector items = (deadObject, s)
  alternate : Alternates s.proxy.mObituaries.isSome s.commands
  matched : s.mWeak + s.acknowledged = s.held + s.requested
  alive : s.proxy.mObituaries ≠ none → s.destroyed = false
  pending : ∀ n ∈ s.linked, n ∉ s.removed → n ∉ s.reported →
    (s.proxy.mObitsSent = true → s.acknowledged < s.cleared) → s.destroyed = false

/-- An obituary that is to be removed can be. -/
def Removable (s : DeathSystem) : Action → Prop
  | .unlinkToDeath recipient cookie flags granted =>
      ∀ v i, s.proxy.mObitsSent = false → s.found recipient cookie flags = some (v, i) →
        v.shrinks → granted = true
  | _ => True

/-- The registrations that a call of `sendObituary` has still to report. -/
inductive InFlight (calls : Nat → ObituaryCall) : List Nat → Prop
  | none (h : ∀ c obits, calls c ≠ .reporting obits) : InFlight calls []
  | one (c : Nat) (obits : List Obituary) (hc : calls c = .reporting obits)
      (honly : ∀ c' obits', calls c' = .reporting obits' → c' = c) :
      InFlight calls (obits.map Obituary.registration)

/-- The registrations in the vector. -/
def waiting (s : DeathSystem) : List Nat :=
  (s.proxy.mObituaries.elim [] Obituaries.items).map Obituary.registration

structure Inv (s : DeathSystem) : Prop where
  split : ∃ fly, InFlight s.calls fly ∧
    s.linked.Perm (s.removed ++ (s.reported ++ (s.waiting ++ fly)))
  nodup : s.linked.Nodup
  numbered : ∀ n ∈ s.linked, n < s.registrations
  silent : s.proxy.mObitsSent = false →
    ∀ c, s.calls c ≠ .returned ∧ ∀ obits, s.calls c ≠ .reporting obits
  emptied : s.proxy.mObitsSent = true → s.proxy.mObituaries = none
  alternate : Alternates s.proxy.mObituaries.isSome s.commands
  matched : s.mWeak + s.acknowledged = s.held + s.requested
  owed : s.acknowledged ≤ s.cleared
  gone : s.destroyed = true → s.mWeak = 0

/-! ## Counting commands -/

theorem Alternates.count {b : Bool} {l : List DeathCommand} (h : Alternates b l) :
    l.countP (fun c => !isClear c) = l.countP isClear + b.toNat := by
  induction h with
  | nil => rfl
  | request _ ih =>
      rw [List.countP_append, List.countP_append, ih]
      rfl
  | clear _ ih =>
      rw [List.countP_append, List.countP_append, ih]
      rfl

theorem Inv.requested_eq {s : DeathSystem} (h : s.Inv) :
    s.requested = s.cleared + s.proxy.mObituaries.isSome.toNat :=
  h.alternate.count

theorem Inv.held_le {s : DeathSystem} (h : s.Inv) : s.held ≤ s.mWeak := by
  have hcount := h.requested_eq
  have hmatched := h.matched
  have howed := h.owed
  omega

theorem Inv.alive {s : DeathSystem} (h : s.Inv)
    (hpos : 0 < s.held ∨ s.acknowledged < s.cleared ∨ s.proxy.mObituaries ≠ none) :
    s.destroyed = false := by
  by_contra hne
  have hweak := h.gone (Bool.not_eq_false _ ▸ hne)
  have hcount := h.requested_eq
  have hmatched := h.matched
  have howed := h.owed
  rcases hpos with hpos | hpos | hpos
  · omega
  · omega
  · rw [Option.isSome_iff_ne_none.mpr hpos] at hcount
    simp only [Bool.toNat_true] at hcount
    omega

theorem inv_initial (handle : Int32) : (initial handle).Inv where
  split := ⟨[], .none (fun _ _ h => nomatch h), List.Perm.refl []⟩
  nodup := List.nodup_nil
  numbered _ hn := absurd hn List.not_mem_nil
  silent _ _ := ⟨fun h => (nomatch h), fun _ h => (nomatch h)⟩
  emptied h := nomatch h
  alternate := .nil
  matched := rfl
  owed := Nat.le_refl 0
  gone h := nomatch h

/-! ## References and acknowledgements -/

theorem Inv.incRef {s : DeathSystem} (h : s.Inv) (hheld : 0 < s.held) :
    Inv { s with mWeak := s.mWeak + 1, held := s.held + 1 } where
  split := h.split
  nodup := h.nodup
  numbered := h.numbered
  silent := h.silent
  emptied := h.emptied
  alternate := h.alternate
  matched := by
    have hmatched := h.matched
    show s.mWeak + 1 + s.acknowledged = s.held + 1 + s.requested
    omega
  owed := h.owed
  gone hgone := by
    have halive := h.alive (.inl hheld)
    rw [halive] at hgone
    cases hgone

theorem Inv.decRef {s : DeathSystem} (h : s.Inv) (hheld : 0 < s.held) :
    Inv { s with mWeak := s.mWeak - 1, held := s.held - 1 } where
  split := h.split
  nodup := h.nodup
  numbered := h.numbered
  silent := h.silent
  emptied := h.emptied
  alternate := h.alternate
  matched := by
    have hmatched := h.matched
    have hle := h.held_le
    show s.mWeak - 1 + s.acknowledged = s.held - 1 + s.requested
    omega
  owed := h.owed
  gone hgone := by
    have hweak := h.gone hgone
    show s.mWeak - 1 = 0
    omega

theorem Inv.clearDone {s : DeathSystem} (h : s.Inv) (hlt : s.acknowledged < s.cleared) :
    Inv { s with acknowledged := s.acknowledged + 1, mWeak := s.mWeak - 1 } where
  split := h.split
  nodup := h.nodup
  numbered := h.numbered
  silent := h.silent
  emptied := h.emptied
  alternate := h.alternate
  matched := by
    have hmatched := h.matched
    have hcount := h.requested_eq
    show s.mWeak - 1 + (s.acknowledged + 1) = s.held + s.requested
    omega
  owed := hlt
  gone hgone := by
    have hweak := h.gone hgone
    show s.mWeak - 1 = 0
    omega

/-- No request is outstanding when the destructor runs. -/
theorem Inv.destroy {s : DeathSystem} (h : s.Inv) (hweak : s.mWeak = 0) (ipc : Bool) :
    (s.destroy ipc).Inv := by
  have hnone : s.proxy.mObituaries = none := by
    by_contra hne
    have hcount := h.requested_eq
    have hmatched := h.matched
    have howed := h.owed
    rw [Option.isSome_iff_ne_none.mpr hne] at hcount
    simp only [Bool.toNat_true] at hcount
    omega
  have hsame : s.setObituaries none = s := by
    unfold setObituaries
    rw [← hnone]
  have heq : s.destroy ipc = { s with destroyed := true } := by
    unfold DeathSystem.destroy
    rw [if_pos (.inl hnone)]
    dsimp only
    rw [hsame]
  rw [heq]
  exact {
    split := h.split, nodup := h.nodup, numbered := h.numbered, silent := h.silent,
    emptied := h.emptied, alternate := h.alternate, matched := h.matched, owed := h.owed,
    gone := fun _ => hweak }

/-! ## Registrations -/

theorem items_of_add {v w : Obituaries} {ob : Obituary} {granted : Bool}
    (h : v.add ob granted = some w) : w.items = v.items ++ [ob] := by
  unfold Obituaries.add at h
  dsimp only at h
  split at h
  · split at h
    · cases h
      rfl
    · cases h
  · cases h
    rfl

theorem waiting_some {s : DeathSystem} {v : Obituaries} (h : s.proxy.mObituaries = some v) :
    s.waiting = v.items.map Obituary.registration := by
  rw [waiting, h]
  rfl

theorem waiting_none {s : DeathSystem} (h : s.proxy.mObituaries = none) : s.waiting = [] := by
  rw [waiting, h]
  rfl

/-- A call of `linkToDeath` that registers nothing. -/
theorem Inv.count {s : DeathSystem} (h : s.Inv) :
    Inv { s with registrations := s.registrations + 1 } where
  split := h.split
  nodup := h.nodup
  numbered n hn := Nat.lt_succ_of_lt (h.numbered n hn)
  silent := h.silent
  emptied := h.emptied
  alternate := h.alternate
  matched := h.matched
  owed := h.owed
  gone := h.gone

theorem Inv.addObituary {s : DeathSystem} (h : s.Inv) {v : Obituaries}
    (hv : s.proxy.mObituaries = some v) (ob : Obituary)
    (hreg : ob.registration = s.registrations) (granted : Bool) :
    Inv { (s.addObituary v ob granted).2 with registrations := s.registrations + 1 } := by
  unfold DeathSystem.addObituary
  cases hadd : v.add ob granted with
  | none => exact h.count
  | some w =>
      obtain ⟨fly, hfly, hperm⟩ := h.split
      have hwait : s.waiting = v.items.map Obituary.registration := waiting_some hv
      have hnew : ob.registration ∉ s.linked := fun hmem =>
        (h.numbered _ hmem).ne hreg
      exact {
        split := by
          refine ⟨fly, hfly, ?_⟩
          show (s.linked ++ [ob.registration]).Perm
            (s.removed ++ (s.reported ++ (w.items.map Obituary.registration ++ fly)))
          rw [items_of_add hadd, List.map_append, ← hwait]
          -- the new registration waits behind the others
          have hmove : (s.waiting ++ [ob].map Obituary.registration ++ fly).Perm
              (s.waiting ++ fly ++ [ob.registration]) := by
            rw [List.append_assoc, List.append_assoc]
            exact List.perm_append_comm.append_left _
          refine (hperm.append_right _).trans ?_
          rw [List.append_assoc, List.append_assoc]
          exact (hmove.symm.append_left _).append_left _
        nodup := by
          show (s.linked ++ [ob.registration]).Nodup
          refine List.nodup_append.mpr ⟨h.nodup, List.nodup_singleton _, fun a ha b hb => ?_⟩
          rintro rfl
          exact hnew (List.mem_singleton.mp hb ▸ ha)
        numbered := by
          intro n hn
          rcases List.mem_append.mp hn with hn | hn
          · exact Nat.lt_succ_of_lt (h.numbered n hn)
          · rw [List.mem_singleton.mp hn, hreg]
            exact Nat.lt_succ_self _
        silent := h.silent
        emptied := fun hsent => by
          have hnone := h.emptied hsent
          rw [hv] at hnone
          cases hnone
        alternate := by
          have halt := h.alternate
          rw [hv] at halt
          exact halt
        matched := h.matched
        owed := h.owed
        gone := h.gone }

/-- The vector is made, and the driver asked for the notification. -/
theorem Inv.request {s : DeathSystem} (h : s.Inv) (hsent : s.proxy.mObitsSent = false)
    (hnone : s.proxy.mObituaries = none) (hheld : 0 < s.held) :
    (requestDeathNotification
      { s.setObituaries (some .empty) with mWeak := s.mWeak + 1 }).Inv := by
  obtain ⟨fly, hfly, hperm⟩ := h.split
  exact {
    split := ⟨fly, hfly, by
      rw [waiting_none hnone] at hperm
      exact hperm⟩
    nodup := h.nodup
    numbered := h.numbered
    silent := h.silent
    emptied := fun hsent' => by
      have hsent'' : s.proxy.mObitsSent = true := hsent'
      rw [hsent] at hsent''
      cases hsent''
    alternate := by
      have halt := h.alternate
      rw [hnone] at halt
      exact .request halt
    matched := by
      have hmatched := h.matched
      -- one more request is in the commands
      have hcount : (s.commands ++
          [DeathCommand.requestDeathNotification s.proxy.mHandle]).countP
            (fun c => !isClear c) = s.requested + 1 := by
        rw [List.countP_append]
        rfl
      show s.mWeak + 1 + s.acknowledged = s.held + (s.commands ++
        [DeathCommand.requestDeathNotification s.proxy.mHandle]).countP (fun c => !isClear c)
      rw [hcount]
      omega
    owed := by
      show s.acknowledged ≤ (s.commands ++ _).countP isClear
      rw [List.countP_append]
      exact h.owed
    gone := fun hgone => by
      have halive := h.alive (.inl hheld)
      have hgone' : s.destroyed = true := hgone
      rw [halive] at hgone'
      cases hgone' }

theorem Inv.linkToDeath {s : DeathSystem} (h : s.Inv) (hheld : 0 < s.held)
    (recipient cookie : Nat) (flags : UInt32) (vector items : Bool) :
    Inv { (s.linkToDeath recipient cookie flags vector items).2 with
      registrations := s.registrations + 1 } := by
  unfold DeathSystem.linkToDeath
  dsimp only
  cases hsent : s.proxy.mObitsSent with
  | true => exact h.count
  | false =>
      cases hv : s.proxy.mObituaries with
      | some v => exact h.addObituary hv _ rfl items
      | none =>
          cases vector with
          | false => exact h.count
          | true => exact (h.request hsent hv hheld).addObituary rfl _ rfl items

theorem items_of_removeAt {v : Obituaries} {i : Nat} {granted : Bool}
    (h : v.shrinks → granted = true) : (v.removeAt i granted).items = v.items.eraseIdx i := by
  unfold Obituaries.removeAt
  by_cases hs : v.shrinks
  · rw [if_pos hs, h hs]
    rfl
  · rw [if_neg hs]

theorem found_eq {s : DeathSystem} {recipient : Option Nat} {cookie : Nat} {flags : UInt32}
    {v : Obituaries} {i : Nat} (h : s.found recipient cookie flags = some (v, i)) :
    s.proxy.mObituaries = some v ∧ i < v.items.length := by
  unfold found at h
  obtain ⟨w, hw, hmap⟩ := Option.bind_eq_some_iff.mp h
  obtain ⟨j, hj, hpair⟩ := Option.map_eq_some_iff.mp hmap
  cases hpair
  exact ⟨hw, (List.findIdx?_eq_some_iff_getElem.mp hj).1⟩

/-- An obituary leaves the vector. -/
theorem Inv.remove {s : DeathSystem} (h : s.Inv) {v w : Obituaries} {i : Nat}
    (hv : s.proxy.mObituaries = some v) (hi : i < v.items.length)
    (hw : w.items = v.items.eraseIdx i) :
    Inv { s.setObituaries (some w) with
      removed := s.removed ++ (v.items[i]?).toList.map Obituary.registration } := by
  obtain ⟨fly, hfly, hperm⟩ := h.split
  have hgone : (v.items[i]?).toList = [v.items[i]] := by
    rw [List.getElem?_eq_getElem hi]
    rfl
  have hitems : (v.items.map Obituary.registration).Perm
      ((v.items[i]).registration :: w.items.map Obituary.registration) := by
    rw [hw]
    exact ((List.getElem_cons_eraseIdx_perm hi).map Obituary.registration).symm
  exact {
    split := by
      refine ⟨fly, hfly, ?_⟩
      show s.linked.Perm (s.removed ++ _ ++ (s.reported ++ (w.items.map _ ++ fly)))
      rw [waiting_some hv] at hperm
      rw [hgone, List.append_assoc]
      refine hperm.trans (List.Perm.append_left _ ?_)
      have hmove := (hitems.append_right fly).append_left s.reported
      exact hmove.trans List.perm_middle
    nodup := h.nodup
    numbered := h.numbered
    silent := h.silent
    emptied := fun hsent => by
      have hnone := h.emptied hsent
      rw [hv] at hnone
      cases hnone
    alternate := by
      have halt := h.alternate
      rw [hv] at halt
      exact halt
    matched := h.matched
    owed := h.owed
    gone := h.gone }

/-- The notification is cleared, with the vector handed over to `held`. -/
theorem Inv.clear {s : DeathSystem} (h : s.Inv) {v : Obituaries}
    (hv : s.proxy.mObituaries = some v) :
    Alternates false (s.commands ++ [.clearDeathNotification s.proxy.mHandle]) ∧
      (s.clearDeathNotification.setObituaries none).requested = s.requested ∧
      (s.clearDeathNotification.setObituaries none).cleared = s.cleared + 1 := by
  have halt := h.alternate
  rw [hv] at halt
  refine ⟨.clear halt, ?_, ?_⟩
  · show (s.commands ++ _).countP _ = _
    rw [List.countP_append]
    rfl
  · show (s.commands ++ _).countP _ = _
    rw [List.countP_append]
    rfl

/-- The last obituary was removed. -/
theorem Inv.clearEmpty {s : DeathSystem} (h : s.Inv) {v : Obituaries}
    (hv : s.proxy.mObituaries = some v) (hempty : v.items = []) :
    (s.clearDeathNotification.setObituaries none).Inv := by
  obtain ⟨halt, hrequested, hcleared⟩ := h.clear hv
  obtain ⟨fly, hfly, hperm⟩ := h.split
  exact {
    split := ⟨fly, hfly, by
      rw [waiting_some hv, hempty] at hperm
      exact hperm⟩
    nodup := h.nodup
    numbered := h.numbered
    silent := h.silent
    emptied := fun _ => rfl
    alternate := halt
    matched := by
      rw [hrequested]
      exact h.matched
    owed := by
      rw [hcleared]
      exact Nat.le_succ_of_le h.owed
    gone := h.gone }

theorem Inv.unlinkToDeath {s : DeathSystem} (h : s.Inv) (recipient : Option Nat)
    (cookie : Nat) (flags : UInt32) (granted : Bool)
    (hguard : s.Removable (.unlinkToDeath recipient cookie flags granted)) :
    (s.unlinkToDeath recipient cookie flags granted).2.Inv := by
  unfold DeathSystem.unlinkToDeath
  cases hsent : s.proxy.mObitsSent with
  | true => exact h
  | false =>
      cases hfound : s.found recipient cookie flags with
      | none => exact h
      | some found =>
          obtain ⟨v, i⟩ := found
          obtain ⟨hv, hi⟩ := found_eq hfound
          have hitems := items_of_removeAt (i := i) (hguard v i hsent hfound)
          have hremoved := h.remove hv hi hitems
          dsimp only
          by_cases hempty : (v.removeAt i granted).items = []
          · rw [if_neg (by decide), if_pos hempty]
            exact hremoved.clearEmpty rfl hempty
          · rw [if_neg (by decide), if_neg hempty]
            exact hremoved

/-! ## Calls of `sendObituary` -/

theorem setCall_self (s : DeathSystem) (c : Nat) (pc : ObituaryCall) :
    (s.setCall c pc).calls c = pc :=
  Function.update_self ..

theorem setCall_of_ne (s : DeathSystem) {c c' : Nat} (h : c' ≠ c) (pc : ObituaryCall) :
    (s.setCall c pc).calls c' = s.calls c' :=
  Function.update_of_ne h ..

/-- A call that reports nothing before the step and after it. -/
theorem InFlight.setCall {s : DeathSystem} {fly : List Nat} (h : InFlight s.calls fly) {c : Nat}
    {pc : ObituaryCall} (hold : ∀ obits, s.calls c ≠ .reporting obits)
    (hnew : ∀ obits, pc ≠ .reporting obits) : InFlight (s.setCall c pc).calls fly := by
  have hback : ∀ c' obits, (s.setCall c pc).calls c' = .reporting obits →
      s.calls c' = .reporting obits := by
    intro c' obits hc'
    by_cases heq : c' = c
    · rw [heq, setCall_self] at hc'
      exact absurd hc' (hnew obits)
    · rwa [setCall_of_ne s heq] at hc'
  cases h with
  | none h => exact .none fun c' obits hc' => h c' obits (hback c' obits hc')
  | one c₀ obits hc₀ honly =>
      have hne : c₀ ≠ c := by
        rintro rfl
        exact hold obits hc₀
      exact .one c₀ obits ((setCall_of_ne s hne pc).trans hc₀)
        fun c' obits' hc' => honly c' obits' (hback c' obits' hc')

/-- A step of a call that does not report, before the obituaries are sent unless it
returns. -/
theorem Inv.setCall {s : DeathSystem} (h : s.Inv) {c : Nat} {pc : ObituaryCall}
    (hold : ∀ obits, s.calls c ≠ .reporting obits) (hnew : ∀ obits, pc ≠ .reporting obits)
    (hret : pc = .returned → s.proxy.mObitsSent = true) : (s.setCall c pc).Inv := by
  obtain ⟨fly, hfly, hperm⟩ := h.split
  exact {
    split := ⟨fly, hfly.setCall hold hnew, hperm⟩
    nodup := h.nodup
    numbered := h.numbered
    silent := fun hsent c' => by
      by_cases heq : c' = c
      · rw [heq, setCall_self]
        refine ⟨fun hpc => ?_, hnew⟩
        have hsent' : s.proxy.mObitsSent = false := hsent
        rw [hret hpc] at hsent'
        cases hsent'
      · rw [setCall_of_ne s heq]
        exact h.silent hsent c'
    emptied := h.emptied
    alternate := h.alternate
    matched := h.matched
    owed := h.owed
    gone := h.gone }

/-- The obituaries are marked as sent when there are none. -/
theorem Inv.sendNone {s : DeathSystem} (h : s.Inv) (hnone : s.proxy.mObituaries = none) :
    Inv { s with proxy := { s.proxy with mObitsSent := true } } where
  split := h.split
  nodup := h.nodup
  numbered := h.numbered
  silent hsent := nomatch hsent
  emptied _ := hnone
  alternate := h.alternate
  matched := h.matched
  owed := h.owed
  gone := h.gone

theorem sendSection_some {s : DeathSystem} {v : Obituaries}
    (hv : s.proxy.mObituaries = some v) (c : Nat) :
    s.sendSection c = { s with
      proxy := { s.proxy with mObitsSent := true, mObituaries := none }
      commands := s.commands ++ [.clearDeathNotification s.proxy.mHandle]
      calls := Function.update s.calls c (.reporting v.items) } := by
  unfold sendSection
  rw [hv]
  rfl

theorem sendSection_none {s : DeathSystem} (hnone : s.proxy.mObituaries = none) (c : Nat) :
    s.sendSection c =
      { s with proxy := { s.proxy with mObitsSent := true } }.setCall c .returned := by
  unfold sendSection
  rw [hnone]
  rfl

/-- The vector goes to a call of `sendObituary`; no other one has obituaries. -/
theorem Inv.sendSection {s : DeathSystem} (h : s.Inv) {c : Nat}
    (hc : s.calls c = .locking) : (s.sendSection c).Inv := by
  have hold : ∀ obits, s.calls c ≠ .reporting obits := by
    intro obits hrep
    rw [hc] at hrep
    cases hrep
  cases hv : s.proxy.mObituaries with
  | none =>
      rw [sendSection_none hv]
      exact (h.sendNone hv).setCall hold (fun _ hpc => nomatch hpc) fun _ => rfl
  | some v =>
      -- there is still a vector, so nothing has been sent
      have hsent : s.proxy.mObitsSent = false := by
        by_contra hne
        have hnone := h.emptied (Bool.not_eq_false _ ▸ hne)
        rw [hv] at hnone
        cases hnone
      obtain ⟨halt, hrequested, hcleared⟩ := h.clear hv
      obtain ⟨fly, hfly, hperm⟩ := h.split
      -- no other call is reporting
      have hfly' : fly = [] := by
        cases hfly with
        | none => rfl
        | one c' obits hc' => exact absurd hc' ((h.silent hsent c').2 obits)
      rw [hfly', List.append_nil, waiting_some hv] at hperm
      rw [sendSection_some hv]
      exact {
        split := by
          refine ⟨_, .one c v.items (Function.update_self ..) fun c' obits' hc' => ?_, hperm⟩
          by_contra hne
          have hback : s.calls c' = .reporting obits' :=
            (Function.update_of_ne hne _ s.calls).symm.trans hc'
          exact (h.silent hsent c').2 obits' hback
        nodup := h.nodup
        numbered := h.numbered
        silent := fun hsent' => nomatch hsent'
        emptied := fun _ => rfl
        alternate := halt
        matched := by
          show s.mWeak + s.acknowledged =
            s.held + (s.clearDeathNotification.setObituaries none).requested
          rw [hrequested]
          exact h.matched
        owed := by
          show s.acknowledged ≤ (s.clearDeathNotification.setObituaries none).cleared
          rw [hcleared]
          exact Nat.le_succ_of_le h.owed
        gone := h.gone }

/-- The only reporting call goes on. -/
theorem InFlight.eq_of_reporting {calls : Nat → ObituaryCall} {fly : List Nat}
    (h : InFlight calls fly) {c : Nat} {obits : List Obituary}
    (hc : calls c = .reporting obits) :
    fly = obits.map Obituary.registration ∧
      ∀ c' obits', calls c' = .reporting obits' → c' = c := by
  cases h with
  | none h => exact absurd hc (h c obits)
  | one c₀ obits₀ hc₀ honly =>
      have heq := honly c obits hc
      subst heq
      rw [hc₀] at hc
      cases hc
      exact ⟨rfl, honly⟩

theorem Inv.sent_of_reporting {s : DeathSystem} (h : s.Inv) {c : Nat} {obits : List Obituary}
    (hc : s.calls c = .reporting obits) : s.proxy.mObitsSent = true := by
  by_contra hne
  exact (h.silent (Bool.not_eq_true _ ▸ hne) c).2 obits hc

theorem Inv.reportNext {s : DeathSystem} (h : s.Inv) {c : Nat} {obit : Obituary}
    {rest : List Obituary} (hc : s.calls c = .reporting (obit :: rest)) :
    ({ s with reported := s.reported ++ [obit.registration] }.setCall c
      (.reporting rest)).Inv := by
  obtain ⟨fly, hfly, hperm⟩ := h.split
  obtain ⟨hflyEq, honly⟩ := hfly.eq_of_reporting hc
  have hsent := h.sent_of_reporting hc
  exact {
    split := by
      refine ⟨_, .one c rest (Function.update_self ..) fun c' obits' hc' => ?_, ?_⟩
      · by_contra hne
        rw [setCall_of_ne _ hne] at hc'
        exact hne (honly c' obits' hc')
      · show s.linked.Perm
          (s.removed ++ (s.reported ++ [obit.registration] ++ (s.waiting ++ rest.map _)))
        rw [hflyEq, waiting_none (h.emptied hsent)] at hperm
        rw [waiting_none (h.emptied hsent), List.append_assoc]
        exact hperm
    nodup := h.nodup
    numbered := h.numbered
    silent := fun hsent' => by
      have hsent'' : s.proxy.mObitsSent = false := hsent'
      rw [hsent] at hsent''
      cases hsent''
    emptied := h.emptied
    alternate := h.alternate
    matched := h.matched
    owed := h.owed
    gone := h.gone }

theorem Inv.reportLast {s : DeathSystem} (h : s.Inv) {c : Nat}
    (hc : s.calls c = .reporting []) : (s.setCall c .returned).Inv := by
  obtain ⟨fly, hfly, hperm⟩ := h.split
  obtain ⟨hflyEq, honly⟩ := hfly.eq_of_reporting hc
  have hsent := h.sent_of_reporting hc
  exact {
    split := by
      refine ⟨[], .none fun c' obits hc' => ?_, ?_⟩
      · by_cases heq : c' = c
        · rw [heq, setCall_self] at hc'
          cases hc'
        · rw [setCall_of_ne s heq] at hc'
          exact heq (honly c' obits hc')
      · rw [hflyEq] at hperm
        exact hperm
    nodup := h.nodup
    numbered := h.numbered
    silent := fun hsent' => by
      have hsent'' : s.proxy.mObitsSent = false := hsent'
      rw [hsent] at hsent''
      cases hsent''
    emptied := h.emptied
    alternate := h.alternate
    matched := h.matched
    owed := h.owed
    gone := h.gone }

theorem Inv.dying {s : DeathSystem} (h : s.Inv) :
    Inv { s with proxy := { s.proxy with mAlive := false } } where
  split := h.split
  nodup := h.nodup
  numbered := h.numbered
  silent := h.silent
  emptied := h.emptied
  alternate := h.alternate
  matched := h.matched
  owed := h.owed
  gone := h.gone

theorem Inv.stepCall {s s' : DeathSystem} (h : s.Inv) {c : Nat}
    (hstep : s.stepCall c = some s') : s'.Inv := by
  unfold DeathSystem.stepCall at hstep
  cases hc : s.calls c with
  | notCalled =>
      rw [hc] at hstep
      cases hstep
      refine h.dying.setCall (fun obits hrep => ?_) (fun _ hpc => nomatch hpc)
        (fun hpc => nomatch hpc)
      rw [show s.calls c = _ from hrep] at hc
      cases hc
  | testing =>
      rw [hc] at hstep
      cases hstep
      refine h.setCall (fun obits hrep => ?_) (fun obits hpc => ?_) (fun hpc => ?_)
      · rw [hrep] at hc
        cases hc
      · split at hpc <;> cases hpc
      · split at hpc
        · assumption
        · cases hpc
  | locking =>
      rw [hc] at hstep
      cases hstep
      exact h.sendSection hc
  | reporting obits =>
      rw [hc] at hstep
      cases obits with
      | nil =>
          cases hstep
          exact h.reportLast hc
      | cons obit rest =>
          cases hstep
          exact h.reportNext hc
  | returned =>
      rw [hc] at hstep
      cases hstep

theorem inv_step {s s' : DeathSystem} {a : Action} (h : s.Inv) (hguard : s.Removable a)
    (hstep : step s a = some s') : s'.Inv := by
  cases a with
  | incRef =>
      obtain ⟨hheld, ⟨⟩⟩ := Option.ite_none_right_eq_some.mp hstep
      exact h.incRef hheld
  | decRef =>
      obtain ⟨hheld, ⟨⟩⟩ := Option.ite_none_right_eq_some.mp hstep
      exact h.decRef hheld
  | destroy ipc =>
      obtain ⟨⟨hweak, -⟩, ⟨⟩⟩ := Option.ite_none_right_eq_some.mp hstep
      exact h.destroy hweak ipc
  | linkToDeath recipient cookie flags vector items =>
      obtain ⟨hheld, ⟨⟩⟩ := Option.ite_none_right_eq_some.mp hstep
      exact h.linkToDeath hheld recipient cookie flags vector items
  | unlinkToDeath recipient cookie flags granted =>
      obtain ⟨-, ⟨⟩⟩ := Option.ite_none_right_eq_some.mp hstep
      exact h.unlinkToDeath recipient cookie flags granted hguard
  | sendObituary c => exact h.stepCall hstep
  | clearDeathNotificationDone =>
      obtain ⟨hlt, ⟨⟩⟩ := Option.ite_none_right_eq_some.mp hstep
      exact h.clearDone hlt

theorem inv_of_reach {s : DeathSystem} (h : machine.ReachWhen Removable s) : s.Inv := by
  refine h.invariant ?_ fun s a s' hs hguard hstep => inv_step hs hguard hstep
  rintro s ⟨handle, rfl⟩
  exact inv_initial handle

/-! ## The obituaries are sent once -/

theorem Inv.exact {s : DeathSystem} (h : s.Inv) : s.Exact := by
  obtain ⟨fly, hfly, hperm⟩ := h.split
  -- every registration is removed, reported, waiting or with a call that reports
  have hmem : ∀ n, n ∈ s.linked ↔
      n ∈ s.removed ∨ n ∈ s.reported ∨ n ∈ s.waiting ∨ n ∈ fly := by
    intro n
    rw [hperm.mem_iff, List.mem_append, List.mem_append, List.mem_append]
  have hnodup := hperm.nodup_iff.mp h.nodup
  obtain ⟨-, hrest, hapart⟩ := List.nodup_append.mp hnodup
  exact {
    once := (List.nodup_append.mp hrest).1
    registered := fun n hn =>
      ⟨(hmem n).mpr (.inr (.inl hn)),
        fun hremoved => hapart n hremoved n (List.mem_append_left _ hn) rfl⟩
    sent := fun c hc => by
      by_contra hne
      exact (h.silent (Bool.not_eq_true _ ▸ hne) c).1 hc
    served := fun hsent hidle n hn hnot => by
      rw [hmem, waiting_none (h.emptied hsent)] at hn
      rcases hn with hn | hn | hn | hn
      · exact absurd hn hnot
      · exact hn
      · exact absurd hn List.not_mem_nil
      · cases hfly with
        | none => exact absurd hn List.not_mem_nil
        | one c obits hc => exact absurd hc (hidle c obits)
    refused := fun hsent recipient cookie flags vector items => by
      unfold DeathSystem.linkToDeath
      exact if_pos hsent
    alternate := h.alternate
    matched := h.matched
    alive := fun hne => h.alive (.inr (.inr hne))
    pending := fun n hn hnot hnot' hlt => by
      cases hsent : s.proxy.mObitsSent with
      | true => exact h.alive (.inr (.inl (hlt hsent)))
      | false =>
          refine h.alive (.inr (.inr fun hnone => ?_))
          rw [hmem, waiting_none hnone] at hn
          rcases hn with hn | hn | hn | hn
          · exact hnot hn
          · exact hnot' hn
          · exact List.not_mem_nil hn
          · cases hfly with
            | none => exact List.not_mem_nil hn
            | one c obits hc => exact (h.silent hsent c).2 obits hc }

/-- Death notification is exact while no removal is refused its buffer. -/
theorem exact_of_removable {s : DeathSystem} (h : machine.ReachWhen Removable s) : s.Exact :=
  (inv_of_reach h).exact

/-- A sufficient test of `Removable`. -/
def removableTest (_ : DeathSystem) : Action → Bool
  | .unlinkToDeath _ _ _ granted => granted
  | _ => true

theorem removableTest_sound (s : DeathSystem) (a : Action) (h : removableTest s a = true) :
    s.Removable a := by
  cases a with
  | unlinkToDeath recipient cookie flags granted => exact fun _ _ _ _ _ => h
  | _ => exact trivial

/-- Two recipients, of which the first one is removed, and a death that two threads
announce at once. -/
def linksAndDeath : List Action :=
  [.linkToDeath 7 0 0 true true, .linkToDeath 8 0 0 true true,
    .unlinkToDeath (some 7) 0 0 true, .sendObituary 0, .sendObituary 1, .sendObituary 0,
    .sendObituary 1, .sendObituary 1, .sendObituary 0, .clearDeathNotificationDone,
    .sendObituary 1, .sendObituary 1, .decRef]

theorem linksAndDeath_exact :
    ((machine.runWhen removableTest (initial 5) linksAndDeath).get (by decide)).Exact :=
  exact_of_removable (Machine.reachWhen_of_runWhen removableTest_sound _ (.init ⟨5, rfl⟩)
    (Option.some_get _).symm)

/-- The removal is refused its buffer. -/
def refusedRemoval : List Action :=
  [.linkToDeath 7 0 0 true true, .unlinkToDeath (some 7) 0 0 false, .sendObituary 0,
    .sendObituary 0, .sendObituary 0, .sendObituary 0]

/-- A recipient is told of the death although `unlinkToDeath` returned `NO_ERROR`. -/
theorem removed_reported : ¬ ∀ s, machine.Reach s → s.Exact := by
  intro h
  have hexact := h ((machine.run (initial 5) refusedRemoval).get (by decide))
    (Machine.reach_of_run refusedRemoval ⟨5, rfl⟩ (Option.some_get _).symm)
  have hreported := hexact.registered 0 (by decide)
  exact hreported.2 (by decide)

end DeathSystem
end Binder
end AndroidLinux
