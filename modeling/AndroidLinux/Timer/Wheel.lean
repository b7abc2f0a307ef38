import AndroidLinux.Lib.DeltaList
import AndroidLinux.Timer.Reltm

/-!
# What the wheel stores

The `sorted_link` of a bucket is a delta-coded list of whole turns of the wheel, kept in
the upper bits of `ticks_left`.  `TmHash.pending` decodes a bucket to its timers with the
turns each has to wait, and `Due` turns that into the iteration in which a timer expires.

`TmHash.WF` and `Core` are what the code relies on.  Each operation has one lemma that
says how it changes `pending` and that it keeps `TmHash.WF`.
-/

namespace AndroidLinux
namespace Timer

open Lib

/-! ## The bits of `ticks_left` -/

theorem toNat_and_tmTmlenMask (v : UInt32) :
    (v &&& tmTmlenMask).toNat = 1024 * (v.toNat / 1024) := by
  have hlt : v.toNat < 2 ^ 32 := v.toNat_lt
  have hmask : tmTmlenMask.toNat = (2 ^ 22 - 1) <<< 10 := by decide
  rw [UInt32.toNat_and, hmask, Nat.mul_comm, show (1024 : Nat) = 2 ^ 10 from rfl,
    ← Nat.shiftRight_eq_div_pow, ← Nat.shiftLeft_eq]
  apply Nat.eq_of_testBit_eq
  intro k
  simp only [Nat.testBit_and, Nat.testBit_shiftLeft, Nat.testBit_shiftRight,
    Nat.testBit_two_pow_sub_one]
  by_cases hk : 10 ≤ k
  · rw [show 10 + (k - 10) = k by omega]
    by_cases hhigh : k - 10 < 22
    · simp [hk, hhigh]
    · -- a bit above the word
      have hpow : 2 ^ 32 ≤ 2 ^ k := Nat.pow_le_pow_right (by omega) (by omega)
      have hbit : v.toNat.testBit k = false := Nat.testBit_lt_two_pow (by omega)
      simp [hbit]
  · simp [hk]

theorem val_bucket (v : UInt32) : (bucket v).val = v.toNat % 1024 :=
  toNat_tmHashFunc v

theorem bucket_eq_iff {v : UInt32} {i : Fin tmHashLen} :
    bucket v = i ↔ v.toNat % 1024 = i.val := by
  rw [Fin.ext_iff, val_bucket]

/-- The entries of a `sorted_link` as a delta-coded list of turns. -/
def deltas (link : List Entry) : List (TimerId × Nat) :=
  link.map (fun e => (e.timer, e.ticksLeft.toNat / 1024))

/-- The ten low bits of `ticks_left` are the number of the bucket. -/
def InBucket (i : Fin tmHashLen) (link : List Entry) : Prop :=
  ∀ e ∈ link, e.ticksLeft.toNat % 1024 = i.val

@[simp]
theorem deltas_nil : deltas [] = [] :=
  rfl

@[simp]
theorem deltas_cons (e : Entry) (link : List Entry) :
    deltas (e :: link) = (e.timer, e.ticksLeft.toNat / 1024) :: deltas link :=
  rfl

theorem inBucket_cons {i : Fin tmHashLen} {e : Entry} {link : List Entry} :
    InBucket i (e :: link) ↔ e.ticksLeft.toNat % 1024 = i.val ∧ InBucket i link := by
  simp [InBucket]

/-- Taking whole turns off does not touch the low bits. -/
theorem toNat_sub_tmlen {v w : UInt32} (hle : w.toNat / 1024 ≤ v.toNat / 1024) :
    (v - (w &&& tmTmlenMask)).toNat = v.toNat - 1024 * (w.toNat / 1024) := by
  rw [UInt32.toNat_sub_of_le, toNat_and_tmTmlenMask]
  rw [UInt32.le_iff_toNat_le, toNat_and_tmTmlenMask]
  omega

theorem toNat_add_tmlen {v w : UInt32} (hlt : v.toNat / 1024 + w.toNat / 1024 < 2 ^ 22) :
    (v + (w &&& tmTmlenMask)).toNat = v.toNat + 1024 * (w.toNat / 1024) := by
  rw [UInt32.toNat_add, toNat_and_tmTmlenMask, Nat.mod_eq_of_lt]
  omega

/-! ## Insertion, removal and one turn on a `sorted_link` -/

theorem deltas_insertSorted (i : Fin tmHashLen) (timer : TimerId) (ticksLeft : UInt32)
    (link : List Entry) (hticks : ticksLeft.toNat % 1024 = i.val) (hlink : InBucket i link) :
    deltas (insertSorted timer ticksLeft link)
        = DeltaList.insert timer (ticksLeft.toNat / 1024) (deltas link)
      ∧ InBucket i (insertSorted timer ticksLeft link) := by
  -- by induction on the list; the time that is left shrinks by each entry that is passed
  induction link generalizing ticksLeft with
  | nil => simp [insertSorted, DeltaList.insert, InBucket, hticks]
  | cons item rest ih =>
      obtain ⟨hitem, hrest⟩ := inBucket_cons.mp hlink
      have hcmp : ticksLeft < item.ticksLeft ↔
          ticksLeft.toNat / 1024 < item.ticksLeft.toNat / 1024 := by
        rw [UInt32.lt_iff_toNat_lt]
        omega
      rw [insertSorted, deltas_cons, DeltaList.insert]
      by_cases hlt : ticksLeft < item.ticksLeft
      · rw [if_pos hlt, if_pos (hcmp.mp hlt)]
        have hsub := toNat_sub_tmlen (Nat.le_of_lt (hcmp.mp hlt))
        constructor
        · simp only [deltas_cons, hsub]
          rw [show (item.ticksLeft.toNat - 1024 * (ticksLeft.toNat / 1024)) / 1024
            = item.ticksLeft.toNat / 1024 - ticksLeft.toNat / 1024 by omega]
        · refine inBucket_cons.mpr ⟨hticks, inBucket_cons.mpr ⟨?_, hrest⟩⟩
          rw [hsub]
          have hturns := hcmp.mp hlt
          omega
      · rw [if_neg hlt, if_neg (fun h => hlt (hcmp.mpr h))]
        have hle : item.ticksLeft.toNat / 1024 ≤ ticksLeft.toNat / 1024 :=
          Nat.le_of_not_lt fun h => hlt (hcmp.mpr h)
        have hsub := toNat_sub_tmlen hle
        obtain ⟨hdeltas, hin⟩ := ih (ticksLeft - (item.ticksLeft &&& tmTmlenMask))
          (by rw [hsub]; omega) hrest
        constructor
        · rw [deltas_cons, hdeltas, hsub, show (ticksLeft.toNat
            - 1024 * (item.ticksLeft.toNat / 1024)) / 1024
            = ticksLeft.toNat / 1024 - item.ticksLeft.toNat / 1024 by omega]
        · exact inBucket_cons.mpr ⟨hitem, hin⟩

/-- A linked timer is taken out, and the head of the bucket is recognised.  The bound on
the decoded list is what keeps the sum of two deltas below the word size. -/
theorem removeSorted_spec (i : Fin tmHashLen) (timer : TimerId) (link : List Entry)
    (hlink : InBucket i link) (acc : Nat)
    (hbound : ∀ p ∈ DeltaList.absolute acc (deltas link), p.2 < 2 ^ 22)
    (hmem : timer ∈ (deltas link).map Prod.fst) :
    ∃ link', removeSorted i timer link = some link'
      ∧ deltas link' = DeltaList.remove timer (deltas link) ∧ InBucket i link' := by
  -- by induction on the list; `acc` is the time up to the head of what is left
  induction link generalizing acc with
  | nil => simp at hmem
  | cons item rest ih =>
      obtain ⟨hitem, hrest⟩ := inBucket_cons.mp hlink
      rw [deltas_cons, DeltaList.absolute] at hbound
      by_cases htimer : item.timer = timer
      · cases rest with
        | nil =>
            refine ⟨[], ?_, ?_, hrest⟩
            · simp [removeSorted, htimer, bucket_eq_iff.mpr hitem]
            · simp [DeltaList.remove, htimer]
        | cons next rest =>
            obtain ⟨hnext, htail⟩ := inBucket_cons.mp hrest
            -- the next entry takes over the time of the one that is removed
            have hsum : next.ticksLeft.toNat / 1024 + item.ticksLeft.toNat / 1024 < 2 ^ 22 := by
              have hb := hbound (next.timer, acc + item.ticksLeft.toNat / 1024
                + next.ticksLeft.toNat / 1024) (by simp [DeltaList.absolute])
              simp only at hb
              omega
            have hadd := toNat_add_tmlen hsum
            refine ⟨_, by simp only [removeSorted, if_pos htimer]; rfl, ?_,
              inBucket_cons.mpr ⟨?_, htail⟩⟩
            · simp only [deltas_cons, DeltaList.remove, if_pos htimer, hadd]
              rw [show (next.ticksLeft.toNat + 1024 * (item.ticksLeft.toNat / 1024)) / 1024
                = next.ticksLeft.toNat / 1024 + item.ticksLeft.toNat / 1024 by omega]
            · rw [hadd]
              omega
      · have hmem' : timer ∈ (deltas rest).map Prod.fst := by
          rw [deltas_cons, List.map_cons, List.mem_cons] at hmem
          exact hmem.resolve_left fun h => htimer h.symm
        obtain ⟨link', hsome, hdeltas, hin⟩ := ih hrest (acc + item.ticksLeft.toNat / 1024)
          (fun p hp => hbound p (List.mem_cons_of_mem _ hp)) hmem'
        refine ⟨item :: link', ?_, ?_, inBucket_cons.mpr ⟨hitem, hin⟩⟩
        · simp [removeSorted, htimer, hsome]
        · simp [DeltaList.remove, htimer, hdeltas]

/-- What the loop over a `sorted_link` leaves in the list. -/
def stay : List Entry → List Entry
  | [] => []
  | item :: rest =>
      if item.ticksLeft < 1024 then stay rest
      else { item with ticksLeft := item.ticksLeft - 1024 } :: rest

/-- The timers the loop over a `sorted_link` triggers. -/
def leave : List Entry → List TimerId
  | [] => []
  | item :: rest => if item.ticksLeft < 1024 then item.timer :: leave rest else []

theorem elapse_deltas (i : Fin tmHashLen) (link : List Entry) (hlink : InBucket i link) :
    DeltaList.elapse (deltas link) = (leave link, deltas (stay link))
      ∧ InBucket i (stay link) := by
  induction link with
  | nil => exact ⟨rfl, hlink⟩
  | cons item rest ih =>
      obtain ⟨hitem, hrest⟩ := inBucket_cons.mp hlink
      obtain ⟨helapse, hin⟩ := ih hrest
      rw [deltas_cons, leave, stay]
      by_cases hlt : item.ticksLeft < 1024
      · have hzero : item.ticksLeft.toNat / 1024 = 0 := by
          rw [UInt32.lt_iff_toNat_lt] at hlt
          exact Nat.div_eq_of_lt hlt
        rw [if_pos hlt, if_pos hlt, hzero, DeltaList.elapse, helapse]
        exact ⟨rfl, hin⟩
      · have hge : 1024 ≤ item.ticksLeft.toNat := by
          rw [UInt32.lt_iff_toNat_lt] at hlt
          exact Nat.le_of_not_lt hlt
        have hsub : (item.ticksLeft - 1024).toNat = item.ticksLeft.toNat - 1024 := by
          rw [UInt32.toNat_sub_of_le]
          · rfl
          · rw [UInt32.le_iff_toNat_le]
            exact hge
        have hrounds : item.ticksLeft.toNat / 1024
            = (item.ticksLeft.toNat - 1024) / 1024 + 1 := by
          omega
        rw [if_neg hlt, if_neg hlt, hrounds, DeltaList.elapse]
        refine ⟨?_, inBucket_cons.mpr ⟨?_, hrest⟩⟩
        · rw [deltas_cons, hsub]
        · rw [hsub]
          omega

/-! ## Buckets -/

namespace TmHash

/-- The timers of a bucket with the number of times the bucket has to come round
before each of them expires. -/
def pending (b : TmHash) : List (TimerId × Nat) :=
  b.zeroLink.map (fun e => (e.timer, 0)) ++ DeltaList.absolute 0 (deltas b.sortedLink)

/-- The timers that are linked in a bucket. -/
def timers (b : TmHash) : List TimerId :=
  b.pending.map Prod.fst

/-- What the code relies on for bucket `i`. -/
structure WF (i : Fin tmHashLen) (b : TmHash) : Prop where
  low : InBucket i b.sortedLink
  bound : ∀ p ∈ b.pending, p.2 < 2 ^ 22
  nodup : b.timers.Nodup

theorem timers_eq (b : TmHash) :
    b.timers = b.zeroLink.map Entry.timer ++ (deltas b.sortedLink).map Prod.fst := by
  simp [timers, pending, Function.comp_def]

theorem holds_iff {b : TmHash} {timer : TimerId} : b.holds timer = true ↔ timer ∈ b.timers := by
  rw [timers_eq]
  simp [holds, deltas]

theorem mem_timers_iff {b : TmHash} {timer : TimerId} :
    timer ∈ b.timers ↔ ∃ turns, (timer, turns) ∈ b.pending := by
  simp [timers]

/-- A bucket with one more timer. -/
theorem WF.of_perm_cons {i : Fin tmHashLen} {b b' : TmHash} {timer : TimerId} {turns : Nat}
    (hb : b.WF i) (hlow : InBucket i b'.sortedLink)
    (hperm : b'.pending.Perm ((timer, turns) :: b.pending)) (hturns : turns < 2 ^ 22)
    (hnew : timer ∉ b.timers) : b'.WF i where
  low := hlow
  bound := by
    intro p hp
    rw [hperm.mem_iff, List.mem_cons] at hp
    cases hp with
    | inl heq => exact heq ▸ hturns
    | inr hold => exact hb.bound p hold
  nodup := by
    have hkeys : b'.timers.Perm (timer :: b.timers) := hperm.map Prod.fst
    rw [hkeys.nodup_iff, List.nodup_cons]
    exact ⟨hnew, hb.nodup⟩

theorem pending_addZero (b : TmHash) (e : Entry) :
    ({ b with zeroLink := b.zeroLink ++ [e] } : TmHash).pending.Perm
      ((e.timer, 0) :: b.pending) := by
  simp only [pending, List.map_append, List.map_cons, List.map_nil, List.append_assoc,
    List.singleton_append]
  exact List.perm_middle

theorem pending_insertSorted {i : Fin tmHashLen} {b : TmHash} (hb : b.WF i)
    (timer : TimerId) (ticksLeft : UInt32) (hticks : ticksLeft.toNat % 1024 = i.val) :
    ({ b with sortedLink := insertSorted timer ticksLeft b.sortedLink } : TmHash).pending.Perm
      ((timer, ticksLeft.toNat / 1024) :: b.pending) := by
  have hdeltas := (deltas_insertSorted i timer ticksLeft b.sortedLink hticks hb.low).1
  have hperm := DeltaList.absolute_insert_perm timer 0 (ticksLeft.toNat / 1024)
    (deltas b.sortedLink)
  rw [Nat.zero_add] at hperm
  simp only [pending, hdeltas]
  exact (hperm.append_left _).trans List.perm_middle

/-- A bucket without one of its timers. -/
theorem WF.of_filter {i : Fin tmHashLen} {b b' : TmHash} {timer : TimerId} (hb : b.WF i)
    (hlow : InBucket i b'.sortedLink)
    (hpending : b'.pending = b.pending.filter (fun p => p.1 ≠ timer)) : b'.WF i where
  low := hlow
  bound := by
    intro p hp
    rw [hpending] at hp
    exact hb.bound p (List.mem_of_mem_filter hp)
  nodup := by
    rw [timers, hpending]
    exact hb.nodup.sublist (List.filter_sublist.map Prod.fst)

/-- A bucket from which one entry has been taken. -/
theorem WF.of_perm_uncons {i : Fin tmHashLen} {b b' : TmHash} {timer : TimerId} {turns : Nat}
    (hb : b.WF i) (hlow : InBucket i b'.sortedLink)
    (hperm : b.pending.Perm ((timer, turns) :: b'.pending)) :
    b'.WF i ∧ ∀ p, p ∈ b'.pending ↔ p ∈ b.pending ∧ p.1 ≠ timer := by
  have hkeys : b.timers.Perm (timer :: b'.timers) := hperm.map Prod.fst
  have hnodup := List.nodup_cons.mp (hkeys.nodup_iff.mp hb.nodup)
  have hsub : ∀ p ∈ b'.pending, p ∈ b.pending := by
    intro p hp
    rw [hperm.mem_iff]
    exact List.mem_cons_of_mem _ hp
  refine ⟨⟨hlow, fun p hp => hb.bound p (hsub p hp), hnodup.2⟩, fun p => ?_⟩
  constructor
  · intro hp
    refine ⟨hsub p hp, ?_⟩
    intro heq
    exact hnodup.1 (heq ▸ List.mem_map_of_mem hp)
  · intro hp
    rw [hperm.mem_iff, List.mem_cons] at hp
    refine hp.1.resolve_left ?_
    intro heq
    exact hp.2 (by rw [heq])

theorem WF.nodup_zero {i : Fin tmHashLen} {b : TmHash} (hb : b.WF i) :
    (b.zeroLink.map Entry.timer).Nodup := by
  have hnodup := hb.nodup
  rw [timers_eq] at hnodup
  exact hnodup.of_append_left

theorem WF.nodup_sorted {i : Fin tmHashLen} {b : TmHash} (hb : b.WF i) :
    ((deltas b.sortedLink).map Prod.fst).Nodup := by
  have hnodup := hb.nodup
  rw [timers_eq] at hnodup
  exact hnodup.of_append_right

theorem pending_eraseZero {i : Fin tmHashLen} {b : TmHash} (hb : b.WF i) {timer : TimerId}
    (hmem : timer ∈ b.zeroLink.map Entry.timer) :
    ({ b with zeroLink := b.zeroLink.eraseP (fun e => e.timer == timer) } : TmHash).pending
      = b.pending.filter (fun p => p.1 ≠ timer) := by
  have hsorted : timer ∉ (deltas b.sortedLink).map Prod.fst := by
    have hnodup := hb.nodup
    rw [timers_eq, List.nodup_append] at hnodup
    intro hin
    exact hnodup.2.2 timer hmem timer hin rfl
  rw [pending, pending, List.filter_append]
  congr 1
  · rw [← DeltaList.eraseP_key_eq_filter (by simpa [Function.comp_def] using hb.nodup_zero),
      List.eraseP_map]
    rfl
  · refine (List.filter_eq_self.mpr fun p hp => ?_).symm
    have hkey := List.mem_map_of_mem (f := Prod.fst) hp
    rw [DeltaList.map_fst_absolute] at hkey
    simp only [ne_eq, decide_not, Bool.not_eq_true', decide_eq_false_iff_not]
    intro heq
    exact hsorted (heq ▸ hkey)

theorem pending_removeSorted {i : Fin tmHashLen} {b : TmHash} (hb : b.WF i)
    {timer : TimerId} (hzero : timer ∉ b.zeroLink.map Entry.timer)
    (hmem : timer ∈ (deltas b.sortedLink).map Prod.fst) :
    ∃ link, removeSorted i timer b.sortedLink = some link ∧ InBucket i link
      ∧ ({ b with sortedLink := link } : TmHash).pending
        = b.pending.filter (fun p => p.1 ≠ timer) := by
  have hbound : ∀ p ∈ DeltaList.absolute 0 (deltas b.sortedLink), p.2 < 2 ^ 22 :=
    fun p hp => hb.bound p (List.mem_append_right _ hp)
  obtain ⟨link, hsome, hdeltas, hlow⟩ := removeSorted_spec i timer _ hb.low 0 hbound hmem
  refine ⟨link, hsome, hlow, ?_⟩
  rw [pending, pending, List.filter_append, hdeltas,
    DeltaList.absolute_remove_eq_filter hb.nodup_sorted]
  congr 1
  refine (List.filter_eq_self.mpr fun p hp => ?_).symm
  obtain ⟨e, he, rfl⟩ := List.mem_map.mp hp
  simp only [ne_eq, decide_not, Bool.not_eq_true', decide_eq_false_iff_not]
  intro heq
  exact hzero (heq ▸ List.mem_map_of_mem he)

/-- The bucket after its two loops. -/
def turned (b : TmHash) : TmHash :=
  ⟨[], stay b.sortedLink⟩

/-- The timers that the two loops trigger. -/
def fired (b : TmHash) : List TimerId :=
  b.zeroLink.map Entry.timer ++ leave b.sortedLink

section Turn

variable {i : Fin tmHashLen} {b : TmHash} (hb : b.WF i)

include hb

theorem mem_fired_iff {timer : TimerId} : timer ∈ b.fired ↔ (timer, 0) ∈ b.pending := by
  have hleave : leave b.sortedLink = (DeltaList.elapse (deltas b.sortedLink)).1 := by
    rw [(elapse_deltas i _ hb.low).1]
  rw [fired, pending, List.mem_append, List.mem_append, hleave, DeltaList.mem_elapse_fst]
  simp

theorem mem_pending_turned {timer : TimerId} {turns : Nat} :
    (timer, turns) ∈ b.turned.pending ↔ (timer, turns + 1) ∈ b.pending := by
  have hstay : deltas (stay b.sortedLink) = (DeltaList.elapse (deltas b.sortedLink)).2 := by
    rw [(elapse_deltas i _ hb.low).1]
  rw [turned, pending, pending, List.mem_append, List.mem_append, hstay,
    DeltaList.mem_absolute_elapse_snd]
  simp

/-- Every timer of a bucket is triggered or stays. -/
theorem fired_append_timers : b.fired ++ b.turned.timers = b.timers := by
  have hkeys := DeltaList.keys_elapse (deltas b.sortedLink)
  rw [(elapse_deltas i _ hb.low).1] at hkeys
  rw [timers_eq, timers_eq, fired, ← hkeys, List.append_assoc]
  rfl

theorem WF.turned : b.turned.WF i where
  low := (elapse_deltas i _ hb.low).2
  bound := by
    intro p hp
    obtain ⟨timer, turns⟩ := p
    have hlt := hb.bound _ ((mem_pending_turned hb).mp hp)
    simp only at hlt ⊢
    omega
  nodup := by
    have hnodup := hb.nodup
    rw [← fired_append_timers hb] at hnodup
    exact hnodup.of_append_right

end Turn

end TmHash

end Timer
end AndroidLinux
