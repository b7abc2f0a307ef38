import AndroidLinux.Binder.MemoryHeaps
import AndroidLinux.Lib.Tally

/-!
# The count of a heap's users

`users h` are the proxies that are mapped from the real heap `h` and the calls that refer to
it.  The entry of the `HeapCache` counts them as long as every call that reaches the section
of `mLock` maps its proxy.  A call that finds the proxy mapped there, or that gets no
descriptor, leaves without `free_heap`; two runs show what becomes of the entry.
-/

namespace AndroidLinux
namespace Binder

open Lib

def HeapProxy.share (h : Nat) (q : HeapProxy) : Nat :=
  if q.alive ∧ q.proxy.mHeapId ≠ -1 ∧ q.source = some h then 1 else 0

def HeapCall.share (h : Nat) (c : HeapCall) : Nat :=
  if c.heap = some h then 1 else 0

namespace HeapSystem

/-- The proxies that are mapped from a heap. -/
def mappedFrom (s : HeapSystem) (h : Nat) : Nat :=
  (s.proxies.map (HeapProxy.share h)).sum

/-- The calls in progress that refer to it. -/
def inProgress (s : HeapSystem) (h : Nat) : Nat :=
  (s.calls.map (HeapCall.share h)).sum

def users (s : HeapSystem) (h : Nat) : Nat :=
  s.mappedFrom h + s.inProgress h

/-- What keeps a heap, and with it its mapping. -/
def Referred (s : HeapSystem) (h : Nat) : Prop :=
  (∃ e, s.entry = some e ∧ e.heap = h) ∨ 0 < s.inProgress h

/-- What the count of the entry is for. -/
structure Counted (s : HeapSystem) : Prop where
  exact : ∀ e, s.entry = some e → e.count.toInt = s.mappedFrom e.heap + s.inProgress e.heap
  /-- A heap that is in use is the one of the entry. -/
  kept : ∀ h, 0 < s.mappedFrom h + s.inProgress h → ∃ e, s.entry = some e ∧ e.heap = h
  /-- The entry goes with the last user, and with it the mapping. -/
  removed : (∀ h, s.mappedFrom h + s.inProgress h = 0) → s.entry = none
  released : ∀ h, s.mappedFrom h + s.inProgress h = 0 → ¬ s.Referred h
  /-- A mapped proxy is mapped from some heap. -/
  sourced : ∀ q ∈ s.proxies, q.alive = true → q.proxy.mHeapId ≠ -1 →
    ∃ h, q.source = some h ∧ 0 < s.mappedFrom h

/-! ## The entry and a number of users -/

/-- The entry against any number of users of each heap. -/
structure Booked (entry : Option HeapEntry) (users : Nat → Nat) : Prop where
  exact : ∀ e, entry = some e → e.count.toInt = users e.heap ∧ 0 < users e.heap
  others : ∀ h, (∀ e, entry = some e → e.heap ≠ h) → users h = 0

theorem Booked.of_eq {entry : Option HeapEntry} {users users' : Nat → Nat}
    (h : Booked entry users) (heq : ∀ i, users' i = users i) : Booked entry users' := by
  rw [show users' = users from funext heq]
  exact h

/-- A heap with a user is the one of the entry. -/
theorem Booked.entry_of_pos {entry : Option HeapEntry} {users : Nat → Nat}
    (h : Booked entry users) {i : Nat} (hpos : 0 < users i) :
    ∃ e, entry = some e ∧ e.heap = i := by
  by_contra hnone
  have hzero := h.others i fun e he hi => hnone ⟨e, he, hi⟩
  omega

/-- `find_heap`. -/
theorem Booked.findHeap {s : HeapSystem} {users users' : Nat → Nat}
    (h : Booked s.entry users)
    (hroom : s.entry.map HeapEntry.count ≠ some Int32.maxValue)
    (husers : ∀ i, users' i = users i + if s.findHeap.1 = i then 1 else 0) :
    Booked s.findHeap.2.entry users' := by
  unfold HeapSystem.findHeap at husers ⊢
  cases hentry : s.entry with
  | none =>
      rw [hentry] at h
      simp only [hentry] at husers ⊢
      have hzero : ∀ i, users i = 0 := fun i => h.others i fun e he => (nomatch he)
      constructor
      · rintro e ⟨⟩
        have hnew := husers s.heaps.length
        rw [if_pos rfl, hzero] at hnew
        show (1 : Int32).toInt = (users' s.heaps.length : Int) ∧ 0 < users' s.heaps.length
        rw [hnew]
        decide
      · intro i hi
        rw [husers, hzero, if_neg (hi _ rfl)]
  | some e =>
      rw [hentry] at h
      simp only [hentry] at husers ⊢
      obtain ⟨hcount, hpos⟩ := h.exact e rfl
      have hlt : e.count.toInt + 1 < 2 ^ 31 := by
        have hne : e.count.toInt ≠ Int32.maxValue.toInt := fun heq =>
          hroom (by rw [hentry, Option.map_some, Int32.toInt_inj.mp heq])
        have hle := e.count.toInt_le
        rw [Int32.toInt_maxValue] at hne hle
        omega
      constructor
      · rintro e' ⟨⟩
        have hnew := husers e.heap
        rw [if_pos rfl] at hnew
        show (e.count + 1).toInt = (users' e.heap : Int) ∧ 0 < users' e.heap
        rw [toInt_add_one hlt]
        omega
      · intro i hi
        have hne : e.heap ≠ i := hi ⟨e.heap, e.count + 1⟩ rfl
        have hzero : users i = 0 := h.others i fun e' he => by
          cases he
          exact hne
        rw [husers, hzero, if_neg hne]

/-- `free_heap` by a user of the heap. -/
theorem Booked.freeHeap {s : HeapSystem} {users users' : Nat → Nat}
    (h : Booked s.entry users) {j : Nat} (hpos : 0 < users j)
    (husers : ∀ i, users' i + (if j = i then 1 else 0) = users i) :
    Booked s.freeHeap.entry users' := by
  obtain ⟨e, hentry, rfl⟩ := h.entry_of_pos hpos
  rw [hentry] at h
  obtain ⟨hcount, -⟩ := h.exact e rfl
  have hheap := husers e.heap
  rw [if_pos rfl] at hheap
  have hothers : ∀ i, e.heap ≠ i → users' i = 0 := by
    intro i hne
    have hi := husers i
    rw [if_neg hne, h.others i fun e' he => by cases he; exact hne] at hi
    omega
  unfold HeapSystem.freeHeap
  simp only [hentry]
  by_cases hone : e.count = 1
  · rw [if_pos hone]
    rw [eq_one_iff] at hone
    refine ⟨fun e' he => (nomatch he), fun i _ => ?_⟩
    by_cases hi : e.heap = i
    · subst hi
      omega
    · exact hothers i hi
  · rw [if_neg hone]
    rw [eq_one_iff] at hone
    constructor
    · rintro e' ⟨⟩
      show (e.count - 1).toInt = (users' e.heap : Int) ∧ 0 < users' e.heap
      rw [toInt_sub_one (by omega)]
      omega
    · intro i hi
      exact hothers i (hi ⟨e.heap, e.count - 1⟩ rfl)

/-! ## Users after a step -/

theorem setCall_calls (s : HeapSystem) (i : Nat) (c : HeapCall) :
    (s.setCall i c).calls = s.calls.set i c := rfl

/-- A call goes on. -/
theorem inProgress_setCall {s : HeapSystem} {i : Nat} {old : HeapCall}
    (hold : s.calls[i]? = some old) (new : HeapCall) (h : Nat) :
    (s.setCall i new).inProgress h + old.share h = s.inProgress h + new.share h :=
  sum_map_set hold (HeapCall.share h) new

theorem findHeap_frame (s : HeapSystem) :
    s.findHeap.2.proxies = s.proxies ∧ s.findHeap.2.calls = s.calls := by
  unfold findHeap
  cases s.entry with
  | none => exact ⟨rfl, rfl⟩
  | some e => exact ⟨rfl, rfl⟩

theorem freeHeap_frame (s : HeapSystem) :
    s.freeHeap.proxies = s.proxies ∧ s.freeHeap.calls = s.calls := by
  unfold freeHeap
  cases s.entry with
  | none => exact ⟨rfl, rfl⟩
  | some e =>
      simp only
      split
      · exact ⟨rfl, rfl⟩
      · exact ⟨rfl, rfl⟩

/-! ## Runs in which every call maps its proxy -/

/-- The step of a call that neither overflows the count nor leaves without `free_heap`. -/
def CleanCall (s : HeapSystem) (a : HeapAnswers) : HeapCall → Prop
  | .finding _ => s.entry.map HeapEntry.count ≠ some Int32.maxValue
  | .locking p _ =>
      (s.proxies[p]?).map (fun q => q.proxy.mHeapId) = some (-1) ∧ a.dup ≠ -1
  | _ => True

def Clean (s : HeapSystem) : Action → Prop
  | .proceed i a => ∀ c, s.calls[i]? = some c → s.CleanCall a c
  | _ => True

structure Inv (s : HeapSystem) : Prop where
  booked : Booked s.entry s.users
  sourced : ∀ q ∈ s.proxies, q.alive = true → q.proxy.mHeapId ≠ -1 → q.source ≠ none
  busy : ∀ c ∈ s.calls, ∀ p, c.proxy = some p →
    ∃ q, s.proxies[p]? = some q ∧ q.alive = true

theorem Inv.setCall {s s' : HeapSystem} (h : s.Inv) {i : Nat} {old : HeapCall} (new : HeapCall)
    (hold : s.calls[i]? = some old) (hcalls : s'.calls = s.calls.set i new)
    (hproxies : s'.proxies = s.proxies) (hbooked : Booked s'.entry s'.users)
    (hnew : new.proxy = none ∨ new.proxy = old.proxy) : s'.Inv := by
  refine ⟨hbooked, hproxies ▸ h.sourced, fun c hc p hp => ?_⟩
  rw [hcalls] at hc
  rw [hproxies]
  rcases List.mem_or_eq_of_mem_set hc with hc | rfl
  · exact h.busy c hc p hp
  · rcases hnew with hnone | hsame
    · rw [hnone] at hp
      cases hp
    · exact h.busy old (List.mem_of_getElem? hold) p (hsame ▸ hp)

theorem Inv.finding {s : HeapSystem} (h : s.Inv) {i p : Nat}
    (hcall : s.calls[i]? = some (.finding p))
    (hroom : s.entry.map HeapEntry.count ≠ some Int32.maxValue) :
    (s.findHeap.2.setCall i (.mapping p s.findHeap.1)).Inv := by
  obtain ⟨hproxies, hcalls⟩ := s.findHeap_frame
  have hcall' : s.findHeap.2.calls[i]? = some (.finding p) := by rw [hcalls]; exact hcall
  have hset' : (s.findHeap.2.setCall i (.mapping p s.findHeap.1)).calls =
      s.calls.set i (.mapping p s.findHeap.1) := by rw [setCall_calls, hcalls]
  refine h.setCall _ hcall hset' hproxies (h.booked.findHeap hroom fun j => ?_) (.inr rfl)
  have hset := inProgress_setCall hcall' (.mapping p s.findHeap.1) j
  have hmapped : s.findHeap.2.mappedFrom j = s.mappedFrom j := by
    unfold mappedFrom
    rw [hproxies]
  have hprogress : s.findHeap.2.inProgress j = s.inProgress j := by
    unfold inProgress
    rw [hcalls]
  have hold : (HeapCall.finding p).share j = 0 := rfl
  have hnew : (HeapCall.mapping p s.findHeap.1).share j = if s.findHeap.1 = j then 1 else 0 := by
    unfold HeapCall.share
    simp only [HeapCall.heap, Option.some.injEq]
  show s.findHeap.2.mappedFrom j + (s.findHeap.2.setCall i _).inProgress j = _
  rw [hmapped]
  rw [hold, hnew, hprogress] at hset
  unfold users
  omega

/-- A call goes on with the same heap. -/
theorem Inv.goOn {s s' : HeapSystem} (h : s.Inv) {i : Nat} {old new : HeapCall}
    (hold : s.calls[i]? = some old) (hcalls : s'.calls = s.calls.set i new)
    (hproxies : s'.proxies = s.proxies) (hentry : s'.entry = s.entry)
    (hproxy : new.proxy = old.proxy) (hheap : new.heap = old.heap) : s'.Inv := by
  refine h.setCall new hold hcalls hproxies (hentry ▸ h.booked.of_eq fun j => ?_) (.inr hproxy)
  have hset := sum_map_set hold (HeapCall.share j) new
  have hshare : new.share j = old.share j := by
    unfold HeapCall.share
    rw [hheap]
  unfold users mappedFrom inProgress
  rw [hcalls, hproxies]
  omega

theorem Inv.freeing {s : HeapSystem} (h : s.Inv) {i p k : Nat}
    (hcall : s.calls[i]? = some (.freeing p k)) :
    (s.freeHeap.setCall i .returned).Inv := by
  obtain ⟨hproxies, hcalls⟩ := s.freeHeap_frame
  have hshare : ∀ j, (HeapCall.freeing p k).share j = if k = j then 1 else 0 := by
    intro j
    unfold HeapCall.share
    simp only [HeapCall.heap, Option.some.injEq]
  have hset : ∀ j, (s.freeHeap.setCall i .returned).users j + (if k = j then 1 else 0) =
      s.users j := by
    intro j
    have hsum := sum_map_set hcall (HeapCall.share j) .returned
    have hnew : HeapCall.returned.share j = 0 := rfl
    rw [hshare j, hnew] at hsum
    show (s.freeHeap.proxies.map _).sum + ((s.freeHeap.calls.set i _).map _).sum + _ =
      (s.proxies.map _).sum + (s.calls.map _).sum
    rw [hproxies, hcalls]
    omega
  have hpos : 0 < s.users k := by
    have hk := hset k
    rw [if_pos rfl] at hk
    omega
  have hset' : (s.freeHeap.setCall i .returned).calls = s.calls.set i .returned := by
    rw [setCall_calls, hcalls]
  exact h.setCall .returned hcall hset' hproxies (h.booked.freeHeap hpos hset) (.inl rfl)

/-- The call maps its proxy. -/
theorem Inv.locking {s : HeapSystem} (h : s.Inv) {i p k : Nat} {q : HeapProxy}
    (hcall : s.calls[i]? = some (.locking p k)) (hq : s.proxies[p]? = some q)
    (hunmapped : q.proxy.mHeapId = -1) {dup : Int32} (hdup : dup ≠ -1) (heap : BpMemoryHeap) :
    ({ s with proxies := s.proxies.modify p fun q => shareProxy q k heap dup }.setCall i
      .returned).Inv := by
  obtain ⟨q', hq', halive⟩ := h.busy _ (List.mem_of_getElem? hcall) p rfl
  obtain rfl : q = q' := Option.some.inj (hq.symm.trans hq')
  have hmod : (s.proxies.modify p fun q => shareProxy q k heap dup) =
      s.proxies.set p (shareProxy q k heap dup) := modify_of_getElem? hq _
  have hnew : shareProxy q k heap dup =
      { q with proxy := q.proxy.share heap dup, source := some k } := if_pos hunmapped
  have hid : (q.proxy.share heap dup).mHeapId = dup := by
    unfold BpMemoryHeap.share
    rw [if_pos hunmapped]
  have hold : ∀ j, q.share j = 0 := fun j => if_neg fun hshare => hshare.2.1 hunmapped
  -- the share of the call goes over to the proxy
  have hshare : ∀ j, (shareProxy q k heap dup).share j = if k = j then 1 else 0 := by
    intro j
    rw [hnew]
    unfold HeapProxy.share
    simp only [hid, halive, Option.some.injEq, ne_eq, hdup, not_false_eq_true, true_and]
  have hleft : ∀ j, (HeapCall.locking p k).share j = if k = j then 1 else 0 := by
    intro j
    unfold HeapCall.share
    simp only [HeapCall.heap, Option.some.injEq]
  rw [hmod]
  constructor
  · refine h.booked.of_eq fun j => ?_
    have hproxies := sum_map_set hq (HeapProxy.share j) (shareProxy q k heap dup)
    have hcalls := sum_map_set hcall (HeapCall.share j) .returned
    have hnone : HeapCall.returned.share j = 0 := rfl
    rw [hold, hshare] at hproxies
    rw [hleft, hnone] at hcalls
    show ((s.proxies.set p _).map _).sum + ((s.calls.set i _).map _).sum =
      (s.proxies.map _).sum + (s.calls.map _).sum
    omega
  · intro r hr hralive hrid
    rcases List.mem_or_eq_of_mem_set hr with hr | rfl
    · exact h.sourced r hr hralive hrid
    · rw [hnew]
      exact fun hnone => (nomatch hnone)
  · intro c hc p' hp'
    have hbusy : ∃ r, s.proxies[p']? = some r ∧ r.alive = true := by
      rcases List.mem_or_eq_of_mem_set hc with hc | rfl
      · exact h.busy c hc p' hp'
      · cases hp'
    obtain ⟨r, hr, hralive⟩ := hbusy
    by_cases heq : p' = p
    · subst heq
      refine ⟨shareProxy q k heap dup, List.getElem?_set_self' .. |>.trans ?_, hnew ▸ halive⟩
      rw [hq]
      rfl
    · exact ⟨r, (List.getElem?_set_ne (Ne.symm heq)).trans hr, hralive⟩

theorem Inv.construct {s : HeapSystem} (h : s.Inv) :
    Inv { s with proxies := s.proxies ++ [⟨.fresh, true, none⟩] } := by
  constructor
  · refine h.booked.of_eq fun j => ?_
    have hsum := sum_map_concat s.proxies (HeapProxy.share j) ⟨.fresh, true, none⟩
    have hfresh : HeapProxy.share j ⟨.fresh, true, none⟩ = 0 :=
      if_neg fun hshare => hshare.2.1 rfl
    rw [hfresh] at hsum
    exact congrArg (· + s.inProgress j) hsum
  · intro q hq halive hid
    rcases List.mem_append.mp hq with hq | hq
    · exact h.sourced q hq halive hid
    · cases List.mem_singleton.mp hq
      exact absurd rfl hid
  · intro c hc p hp
    obtain ⟨q, hq, halive⟩ := h.busy c hc p hp
    exact ⟨q, (List.getElem?_append_left (List.getElem?_eq_some_iff.mp hq).1).trans hq, halive⟩

theorem Inv.assertMapped {s : HeapSystem} (h : s.Inv) {p : Nat} {q : HeapProxy}
    (hq : s.proxies[p]? = some q) (halive : q.alive = true) :
    Inv { s with calls := s.calls ++ [.finding p] } := by
  refine ⟨h.booked.of_eq fun j => ?_, h.sourced, fun c hc p' hp' => ?_⟩
  · exact congrArg (s.mappedFrom j + ·) (sum_map_concat s.calls (HeapCall.share j) (.finding p))
  · rcases List.mem_append.mp hc with hc | hc
    · exact h.busy c hc p' hp'
    · cases List.mem_singleton.mp hc
      cases hp'
      exact ⟨q, hq, halive⟩

/-- The proxy leaves the heap that it is mapped from. -/
theorem Inv.destroyProxy {s : HeapSystem} (h : s.Inv) {p : Nat} {q : HeapProxy}
    (hq : s.proxies[p]? = some q) (halive : q.alive = true)
    (hidle : ∀ c ∈ s.calls, c.proxy ≠ some p) : (s.destroyProxy p q).Inv := by
  have hdead : ∀ j, HeapProxy.share j { q with alive := false } = 0 :=
    fun j => if_neg fun hshare => (nomatch hshare.1)
  have hproxies := fun j => sum_map_set hq (HeapProxy.share j) { q with alive := false }
  have hbusy : ∀ c ∈ s.calls, ∀ p', c.proxy = some p' →
      ∃ r, (s.proxies.set p { q with alive := false })[p']? = some r ∧ r.alive = true := by
    intro c hc p' hp'
    obtain ⟨r, hr, hralive⟩ := h.busy c hc p' hp'
    have hne : p ≠ p' := by
      rintro rfl
      exact hidle c hc hp'
    exact ⟨r, (List.getElem?_set_ne hne).trans hr, hralive⟩
  -- the proxies that are left are as before
  have hsourced : ∀ r ∈ s.proxies.set p { q with alive := false }, r.alive = true →
      r.proxy.mHeapId ≠ -1 → r.source ≠ none := by
    intro r hr hralive hrid
    rcases List.mem_or_eq_of_mem_set hr with hr | rfl
    · exact h.sourced r hr hralive hrid
    · cases hralive
  unfold HeapSystem.destroyProxy
  by_cases hid : q.proxy.mHeapId = -1
  · rw [if_pos hid]
    refine ⟨h.booked.of_eq fun j => ?_, hsourced, hbusy⟩
    have hsum := hproxies j
    have hold : q.share j = 0 := if_neg fun hshare => hshare.2.1 hid
    rw [hdead, hold] at hsum
    exact congrArg (· + s.inProgress j) hsum
  · rw [if_neg hid]
    obtain ⟨hframe, hcalls⟩ := s.freeHeap_frame
    obtain ⟨k, hk⟩ := Option.ne_none_iff_exists'.mp
      (h.sourced q (List.mem_of_getElem? hq) halive hid)
    -- the proxy had one share, in the heap it is mapped from
    have hold : ∀ j, q.share j = if k = j then 1 else 0 := by
      intro j
      unfold HeapProxy.share
      simp only [halive, hk, Option.some.injEq, ne_eq, hid, not_false_eq_true, true_and]
    have hpos : 0 < s.users k := by
      have hone := hproxies k
      rw [hdead, hold, if_pos rfl] at hone
      unfold users mappedFrom
      omega
    refine ⟨h.booked.freeHeap hpos fun j => ?_, ?_, ?_⟩
    · have hsum := hproxies j
      rw [hdead, hold] at hsum
      show ((s.freeHeap.proxies.set p _).map _).sum + (s.freeHeap.calls.map _).sum + _ =
        (s.proxies.map _).sum + (s.calls.map _).sum
      rw [hframe, hcalls]
      omega
    · show ∀ r ∈ s.freeHeap.proxies.set p _, _
      rw [hframe]
      exact hsourced
    · show ∀ c ∈ s.freeHeap.calls, ∀ p', _ → ∃ r, (s.freeHeap.proxies.set p _)[p']? = _ ∧ _
      rw [hframe, hcalls]
      exact hbusy

theorem Inv.proceed {s s' : HeapSystem} (h : s.Inv) {i : Nat} {a : HeapAnswers}
    {c : HeapCall} (hcall : s.calls[i]? = some c) (hclean : s.CleanCall a c)
    (hstep : s.stepCall i a c = some s') : s'.Inv := by
  cases c with
  | finding p =>
      cases hstep
      exact h.finding hcall hclean
  | mapping p k =>
      cases hstep
      exact h.goOn hcall rfl rfl rfl rfl rfl
  | testing p k =>
      obtain ⟨heap, -, rfl⟩ := Option.map_eq_some_iff.mp hstep
      by_cases hbase : heap.mBase = none
      · rw [if_pos hbase]
        exact h.goOn hcall rfl rfl rfl rfl rfl
      · rw [if_neg hbase]
        exact h.goOn hcall rfl rfl rfl rfl rfl
  | locking p k =>
      obtain ⟨heap, -, rfl⟩ := Option.map_eq_some_iff.mp hstep
      obtain ⟨q, hq, hid⟩ := Option.map_eq_some_iff.mp hclean.1
      exact h.locking hcall hq hid hclean.2 heap
  | freeing p k =>
      cases hstep
      exact h.freeing hcall
  | returned => cases hstep

theorem Inv.initial : HeapSystem.initial.Inv :=
  ⟨⟨fun _ he => (nomatch he), fun _ _ => rfl⟩, fun _ hq => (nomatch hq), fun _ hc => (nomatch hc)⟩

theorem Inv.step {s s' : HeapSystem} {a : Action} (h : s.Inv) (hclean : s.Clean a)
    (hstep : s.step a = some s') : s'.Inv := by
  cases a with
  | construct =>
      cases hstep
      exact h.construct
  | assertMapped p =>
      obtain ⟨q, hq, hstep⟩ := Option.bind_eq_some_iff.mp hstep
      obtain ⟨halive, ⟨⟩⟩ := Option.ite_none_right_eq_some.mp hstep
      split
      · exact h.assertMapped hq halive
      · exact h
  | proceed i a =>
      obtain ⟨c, hcall, hstep⟩ := Option.bind_eq_some_iff.mp hstep
      exact h.proceed hcall (hclean c hcall) hstep
  | destroy p =>
      obtain ⟨q, hq, hstep⟩ := Option.bind_eq_some_iff.mp hstep
      obtain ⟨⟨halive, hidle⟩, ⟨⟩⟩ := Option.ite_none_right_eq_some.mp hstep
      exact h.destroyProxy hq halive hidle

theorem Inv.of_reach {s : HeapSystem} (h : machine.ReachWhen Clean s) : s.Inv := by
  refine Machine.ReachWhen.invariant (I := Inv) ?_ (fun s a s' hs hclean hstep => ?_) h
  · rintro s rfl
    exact Inv.initial
  · exact hs.step hclean hstep

theorem Inv.counted {s : HeapSystem} (h : s.Inv) : s.Counted := by
  constructor
  · intro e he
    exact_mod_cast (h.booked.exact e he).1
  · exact fun k hk => h.booked.entry_of_pos hk
  · intro hzero
    by_contra hsome
    obtain ⟨e, he⟩ := Option.ne_none_iff_exists'.mp hsome
    have hpos := (h.booked.exact e he).2
    rw [show s.users e.heap = 0 from hzero e.heap] at hpos
    exact absurd hpos (lt_irrefl 0)
  · rintro k hzero (⟨e, he, rfl⟩ | hpos)
    · have hpos := (h.booked.exact e he).2
      rw [show s.users e.heap = 0 from hzero] at hpos
      exact absurd hpos (lt_irrefl 0)
    · omega
  · intro q hq halive hid
    obtain ⟨k, hk⟩ := Option.ne_none_iff_exists'.mp (h.sourced q hq halive hid)
    obtain ⟨i, hi, rfl⟩ := List.getElem_of_mem hq
    have hle := le_sum_map (List.getElem?_eq_getElem hi) (HeapProxy.share k)
    rw [show HeapProxy.share k s.proxies[i] = 1 from if_pos ⟨halive, hid, hk⟩] at hle
    exact ⟨k, hk, hle⟩

/-- The count of the entry is the number of its users in every run in which the count does
not overflow and every call that reaches the section of `mLock` maps its proxy there. -/
theorem counted_of_clean {s : HeapSystem} (h : machine.ReachWhen Clean s) : s.Counted :=
  (Inv.of_reach h).counted

/-- A test for `Clean`. -/
def testClean (s : HeapSystem) : Action → Bool
  | .proceed i a => (s.calls[i]?).all fun c =>
      match c with
      | .finding _ => decide (s.entry.map HeapEntry.count ≠ some Int32.maxValue)
      | .locking p _ =>
          decide ((s.proxies[p]?).map (fun q => q.proxy.mHeapId) = some (-1) ∧ a.dup ≠ -1)
      | _ => true
  | _ => true

theorem testClean_sound (s : HeapSystem) (a : Action) (h : s.testClean a = true) :
    s.Clean a := by
  cases a with
  | construct => trivial
  | assertMapped p => trivial
  | destroy p => trivial
  | proceed i a =>
      intro c hc
      unfold testClean at h
      simp only [hc, Option.all_some] at h
      cases c with
      | finding p =>
          show s.entry.map HeapEntry.count ≠ some Int32.maxValue
          exact of_decide_eq_true h
      | locking p k =>
          show (s.proxies[p]?).map (fun q => q.proxy.mHeapId) = some (-1) ∧ a.dup ≠ -1
          exact of_decide_eq_true h
      | mapping p k => trivial
      | testing p k => trivial
      | freeing p k => trivial
      | returned => trivial

/-- The server's heap has 64 bytes; every system call succeeds. -/
def answers : HeapAnswers := ⟨⟨10, 64, 0, 0⟩, 11, some 0x1000, 12⟩

/-- A proxy maps the heap and a second one shares it; then the first is destroyed. -/
theorem sharedHeap_counted :
    ((machine.runWhen testClean initial [.construct, .construct, .assertMapped 0,
      .proceed 0 answers, .assertMapped 1, .proceed 0 answers, .proceed 1 answers,
      .proceed 0 answers, .proceed 0 answers, .proceed 1 answers, .proceed 1 answers,
      .proceed 1 answers, .destroy 0]).get (by decide)).Counted :=
  counted_of_clean (Machine.reachWhen_of_runWhen testClean_sound _ (.init rfl)
    (Option.some_get _).symm)

/-- Two threads map one proxy.  The one that finds it mapped leaves its count behind, so
that the entry and the mapping stay when the proxy is gone. -/
theorem entry_leaks : ∃ s, machine.Reach s ∧ (∀ q ∈ s.proxies, q.alive = false) ∧
    (∀ c ∈ s.calls, c = .returned) ∧ s.entry = some ⟨0, 1⟩ ∧ ¬ s.Counted := by
  refine ⟨(machine.run initial [.construct, .assertMapped 0, .assertMapped 0,
      .proceed 0 answers, .proceed 1 answers, .proceed 0 answers, .proceed 1 answers,
      .proceed 0 answers, .proceed 1 answers, .proceed 0 answers, .proceed 1 answers,
      .destroy 0]).get (by decide), Machine.reach_of_run _ rfl (Option.some_get _).symm,
    by decide, by decide, by decide, fun h => ?_⟩
  exact absurd (h.exact ⟨0, 1⟩ (by decide)) (by decide)

end HeapSystem
end Binder
end AndroidLinux
