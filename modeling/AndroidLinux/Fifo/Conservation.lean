import AndroidLinux.Fifo.Sections
import AndroidLinux.Lib.Census

/-!
# Elements are neither lost nor doubled

In every run each element of a message queue is in one place.  The semaphore of a half is
posted after the mutex is released and taken before it is locked, so its value alone is
not the length of the list; the invariant (`Books`) counts the threads on their way
between the two.
-/

namespace AndroidLinux
namespace Fifo

open Lib

variable {ι : Type*}

/-- The element that a thread has inside `message_half_add` or `message_half_remove`. -/
def Pc.carries : Pc → Option UInt32
  | .lockAdd _ UsrMessage => some (UsrMessage - messageHdrSize)
  | .returning UsrMessage => if UsrMessage = 0 then none else some (UsrMessage - messageHdrSize)
  | _ => none

/-- After a `sem_trywait` that failed a thread tries again or returns a null pointer. -/
theorem retry_cases (k : Half) (timeOut timeOutMs : UInt32) :
    retry k timeOut timeOutMs = .returning 0 ∨
      retry k timeOut timeOutMs = .semTryWait k (timeOut + 10) timeOutMs := by
  unfold retry
  split
  · exact .inl rfl
  · split
    · exact .inr rfl
    · exact .inl rfl

/-- The places where an element may be. -/
inductive Place (ι : Type*)
  | half (k : Half)
  | held (t : ι)
  | inside (t : ι)

namespace Run

/-- The element `e` is at a place, when the halves hold the lists `L`. -/
def At (s : Run ι) (L : Half → List UInt32) (e : UInt32) : Place ι → Prop
  | .half k => e ∈ L k
  | .held t => e + messageHdrSize ∈ s.held t
  | .inside t => (s.pc t).carries = some e

/-- The length of each list is the value of its semaphore, plus the threads that have
taken the semaphore and not yet their element, plus those that have put their element in
and not yet posted the semaphore. -/
def Counted (s : Run ι) (L : Half → List UInt32) : Prop :=
  ∀ k, ∃ takers givers : Finset ι,
    Census s.pc (.lockRemove k) takers ∧ Census s.pc (.semPost k) givers ∧
      (L k).length = (s.q.half k).messageHalfSem + takers.card + givers.card

/-- The invariant: the lists of the halves, and the one place of each element. -/
structure Books (cfg : Config) (s : Run ι) (L : Half → List UInt32) (own : UInt32 → Place ι) :
    Prop where
  holds : ∀ k, s.q.Holds k (L k)
  place : ∀ e p, s.At L e p ↔ e ∈ cfg.elements ∧ own e = p
  nodup : ∀ t, (s.held t).Nodup
  counted : s.Counted L
  order : s.sent = s.received ++ L .queue
  noFault : ∀ t, s.pc t ≠ .fault

section Steps

variable {cfg : Config} {s s' : Run ι} {L L' : Half → List UInt32} {own : UInt32 → Place ι}
  {t : ι} {e : UInt32} {k : Half} {p p' : Pc}

/-- An element that is in a place is in no other one. -/
theorem Books.place_unique (h : s.Books cfg L own) {x y : Place ι} (hx : s.At L e x)
    (hy : s.At L e y) : x = y :=
  ((h.place e x).mp hx).2.symm.trans ((h.place e y).mp hy).2

theorem Books.mem_elements (h : s.Books cfg L own) {x : Place ι} (hx : s.At L e x) :
    e ∈ cfg.elements :=
  ((h.place e x).mp hx).1

/-- A thread that has taken the semaphore finds an element. -/
theorem Counted.ne_nil (h : s.Counted L) (hpc : s.pc t = .lockRemove k) : L k ≠ [] := by
  obtain ⟨takers, givers, htakers, -, hlen⟩ := h k
  have hpos := htakers.card_pos hpc
  intro hnil
  rw [hnil, List.length_nil] at hlen
  omega

variable [DecidableEq ι]

/-- One thread takes a step, the lists and the semaphores change accordingly. -/
theorem Counted.step (h : s.Counted L) (hpc : s.pc t = p)
    (hpc' : s'.pc = Function.update s.pc t p')
    (hcount : ∀ k, (L' k).length + (s.q.half k).messageHalfSem +
        (if p = .lockRemove k then 1 else 0) + (if p = .semPost k then 1 else 0) =
      (L k).length + (s'.q.half k).messageHalfSem +
        (if p' = .lockRemove k then 1 else 0) + (if p' = .semPost k then 1 else 0)) :
    s'.Counted L' := by
  intro k
  obtain ⟨takers, givers, htakers, hgivers, hlen⟩ := h k
  obtain ⟨takers', htakers', hcard⟩ := htakers.update t p'
  obtain ⟨givers', hgivers', hcard'⟩ := hgivers.update t p'
  refine ⟨takers', givers', hpc' ▸ htakers', hpc' ▸ hgivers', ?_⟩
  have hk := hcount k
  rw [hpc] at hcard hcard'
  omega

omit [DecidableEq ι] in
/-- One element changes its place from `x` to `y`. -/
theorem Books.place_move (h : s.Books cfg L own) {x y : Place ι} (hx : s.At L e x)
    (hframe : ∀ e' z, e' ≠ e ∨ z ≠ x ∧ z ≠ y → (s'.At L' e' z ↔ s.At L e' z))
    (hleft : ¬ s'.At L' e x) (harrived : s'.At L' e y) :
    ∀ e' z, s'.At L' e' z ↔ e' ∈ cfg.elements ∧ Function.update own e y e' = z := by
  intro e' z
  by_cases he : e' = e
  · subst he
    rw [Function.update_self]
    constructor
    · intro hz
      refine ⟨h.mem_elements hx, ?_⟩
      by_contra hne
      have hzx : z ≠ x := by
        rintro rfl
        exact hleft hz
      exact hzx (h.place_unique ((hframe e' z (.inr ⟨hzx, Ne.symm hne⟩)).mp hz) hx)
    · rintro ⟨-, rfl⟩
      exact harrived
  · rw [hframe e' z (.inl he), Function.update_of_ne he]
    exact h.place e' z

/-- A thread whose place in the code changes stays off the null pointers. -/
theorem Books.noFault_update (h : s.Books cfg L own) (t : ι) (hp' : p' ≠ .fault) :
    ∀ u, Function.update s.pc t p' u ≠ .fault := by
  intro u
  by_cases hu : u = t
  · subst hu
    rwa [Function.update_self]
  · rw [Function.update_of_ne hu]
    exact h.noFault u

/-- A step that moves no element. -/
theorem Books.quiet (h : s.Books cfg L own) {q : MessageQueue} (hpc : s.pc t = p)
    (hcarry : p'.carries = p.carries) (hfault : p' ≠ .fault) (hholds : ∀ k, q.Holds k (L k))
    (hcount : ∀ k, (s.q.half k).messageHalfSem +
        (if p = .lockRemove k then 1 else 0) + (if p = .semPost k then 1 else 0) =
      (q.half k).messageHalfSem +
        (if p' = .lockRemove k then 1 else 0) + (if p' = .semPost k then 1 else 0)) :
    ({ s with q := q }.setPc t p').Books cfg L own where
  holds := hholds
  place := by
    intro e z
    rw [← h.place e z]
    cases z with
    | half k => rfl
    | held u => rfl
    | inside u =>
        by_cases hu : u = t
        · subst hu
          simp only [At, setPc, Function.update_self, hcarry, hpc]
        · simp only [At, setPc, Function.update_of_ne hu]
  nodup := h.nodup
  counted := by
    refine h.counted.step hpc rfl fun k => ?_
    have hk := hcount k
    simp only [setPc]
    omega
  order := h.order
  noFault := h.noFault_update t hfault

/-- A thread gives an element that it holds to `message_half_add`. -/
theorem Books.give (h : s.Books cfg L own) {m : UInt32} (hpc : s.pc t = .idle)
    (hm : m ∈ s.held t) (k : Half) :
    ({ s with held := Function.update s.held t ((s.held t).erase m) }.setPc t
      (.lockAdd k m)).Books cfg L
      (Function.update own (m - messageHdrSize) (.inside t)) where
  holds := h.holds
  place := by
    have hat : s.At L (m - messageHdrSize) (.held t) := by
      rw [At, sub_add_messageHdrSize]
      exact hm
    refine h.place_move hat ?_ ?_ ?_
    · intro e z hne
      cases z with
      | half k => rfl
      | held u =>
          by_cases hu : u = t
          · subst hu
            have he : e + messageHdrSize ≠ m := by
              rintro rfl
              simp at hne
            simp only [At, setPc, Function.update_self]
            exact List.mem_erase_of_ne he
          · simp only [At, setPc, Function.update_of_ne hu]
      | inside u =>
          by_cases hu : u = t
          · subst hu
            have he : m - messageHdrSize ≠ e := by
              rintro rfl
              simp at hne
            simp [At, setPc, hpc, Pc.carries, he]
          · simp only [At, setPc, Function.update_of_ne hu]
    · simp only [At, setPc, Function.update_self, sub_add_messageHdrSize]
      exact (h.nodup t).not_mem_erase
    · simp only [At, setPc, Function.update_self, Pc.carries]
  nodup := by
    intro u
    simp only [setPc]
    by_cases hu : u = t
    · subst hu
      rw [Function.update_self]
      exact (h.nodup u).erase m
    · rw [Function.update_of_ne hu]
      exact h.nodup u
  counted := h.counted.step hpc rfl fun k => by simp [setPc]
  order := h.order
  noFault := h.noFault_update t (by simp)

/-- A call returns the element that it took. -/
theorem Books.take (h : s.Books cfg L own) {m : UInt32} (hpc : s.pc t = .returning m)
    (hm : m ≠ 0) :
    ({ s with held := Function.update s.held t (m :: s.held t) }.setPc t .idle).Books cfg L
      (Function.update own (m - messageHdrSize) (.held t)) where
  holds := h.holds
  place := by
    have hat : s.At L (m - messageHdrSize) (.inside t) := by
      simp [At, hpc, Pc.carries, hm]
    -- the element goes from the call to what the thread holds
    refine h.place_move hat ?_ ?_ ?_
    · intro e z hne
      cases z with
      | half k => rfl
      | held u =>
          by_cases hu : u = t
          · subst hu
            have he : e + messageHdrSize ≠ m := by
              rintro rfl
              simp at hne
            simp [At, setPc, he]
          · simp only [At, setPc, Function.update_of_ne hu]
      | inside u =>
          by_cases hu : u = t
          · subst hu
            have he : m - messageHdrSize ≠ e := by
              rintro rfl
              simp at hne
            simp [At, setPc, hpc, Pc.carries, he, hm]
          · simp only [At, setPc, Function.update_of_ne hu]
    · simp [At, setPc, Pc.carries]
    · simp [At, setPc]
  nodup := by
    intro u
    simp only [setPc]
    by_cases hu : u = t
    · subst hu
      rw [Function.update_self]
      refine List.nodup_cons.mpr ⟨fun hmem => ?_, h.nodup u⟩
      have hheld : s.At L (m - messageHdrSize) (.held u) := by
        rw [At, sub_add_messageHdrSize]
        exact hmem
      have hinside : s.At L (m - messageHdrSize) (.inside u) := by
        simp [At, hpc, Pc.carries, hm]
      cases h.place_unique hheld hinside
    · rw [Function.update_of_ne hu]
      exact h.nodup u
  counted := h.counted.step hpc rfl fun k => by simp [setPc]
  order := h.order
  noFault := h.noFault_update t (by simp)

omit [DecidableEq ι] in
/-- The lists of the halves when the one of `k` is `xs`. -/
theorem At_half_update (s : Run ι) (L : Half → List UInt32) (k : Half) (xs : List UInt32)
    (e : UInt32) (k' : Half) :
    s.At (Function.update L k xs) e (.half k') ↔ e ∈ if k' = k then xs else L k' := by
  simp only [At, Function.update_apply]

omit [DecidableEq ι] in
/-- The halves after a section that moves the element `e` into or out of the half `k`. -/
theorem Books.holds_section (h : s.Books cfg L own) {q' : MessageQueue} {ys : List UInt32}
    (hsec : s.q.Section q' k e (L k) ys) (he : ∀ k' ≠ k, e ∉ L k') :
    ∀ k', q'.Holds k' (Function.update L k ys k') := by
  intro k'
  by_cases hk : k' = k
  · subst hk
    rw [Function.update_self]
    exact hsec.holds
  · rw [Function.update_of_ne hk]
    refine hsec.frame hk (h.holds k') (he k' hk) ?_
    intro x hx hx'
    have heq := h.place_unique (x := .half k') (y := .half k) hx hx'
    exact hk (Place.half.inj heq)

/-- The section of `message_half_add`. -/
theorem Books.add (h : s.Books cfg L own) {m : UInt32} (hpc : s.pc t = .lockAdd k m) :
    ∃ q', s.q.addSection k (m - messageHdrSize) = some q' ∧
      ({ s with q := q', sent := log k s.sent (m - messageHdrSize) }.setPc t (.semPost k)).Books
        cfg (Function.update L k (L k ++ [m - messageHdrSize]))
        (Function.update own (m - messageHdrSize) (.half k)) := by
  have hat : s.At L (m - messageHdrSize) (.inside t) := by
    simp [At, hpc, Pc.carries]
  have hout : ∀ k', m - messageHdrSize ∉ L k' := by
    intro k' hmem
    cases h.place_unique (x := .half k') hmem hat
  obtain ⟨q', hq', hsec⟩ := MessageQueue.addSection_spec (h.holds k)
    (cfg.element_ne_zero (h.mem_elements hat)) (hout k)
  refine ⟨q', hq', h.holds_section hsec fun k' _ => hout k', ?_, h.nodup, ?_, ?_,
    h.noFault_update t (by simp)⟩
  · refine h.place_move hat ?_ ?_ ?_
    · intro e z hne
      cases z with
      | half k' =>
          rw [At_half_update]
          by_cases hk : k' = k
          · subst hk
            have he : e ≠ m - messageHdrSize := by
              rintro rfl
              simp at hne
            simp [At, he]
          · rw [if_neg hk]
            rfl
      | held u => rfl
      | inside u =>
          by_cases hu : u = t
          · subst hu
            have he : m - messageHdrSize ≠ e := by
              rintro rfl
              simp at hne
            simp [At, setPc, hpc, Pc.carries, he]
          · simp only [At, setPc, Function.update_of_ne hu]
    · simp [At, setPc, Pc.carries]
    · simp [At]
  · refine h.counted.step hpc rfl fun k' => ?_
    simp only [setPc, hsec.sem k', Function.update_apply]
    by_cases hk : k' = k
    · simp [hk]
      omega
    · simp [hk, Ne.symm hk]
  · simp only [setPc]
    cases k with
    | free => simpa [log] using h.order
    | queue => simp [log, h.order]

/-- The section of `message_half_remove`. -/
theorem Books.remove (h : s.Books cfg L own) (hpc : s.pc t = .lockRemove k) :
    ∃ e xs q', L k = e :: xs ∧ s.q.removeSection k = some (e, q') ∧
      ({ s with q := q', received := log k s.received e }.setPc t
        (.returning (e + messageHdrSize))).Books cfg (Function.update L k xs)
        (Function.update own e (.inside t)) := by
  -- the semaphore counts the elements, so the half is not empty
  obtain ⟨e, xs, hL⟩ := List.exists_cons_of_ne_nil (h.counted.ne_nil hpc)
  have hat : s.At L e (.half k) := by
    rw [At, hL]
    exact List.mem_cons_self
  have hmessage : e + messageHdrSize ≠ 0 := cfg.message_ne_zero (h.mem_elements hat)
  have hholds := h.holds k
  rw [hL] at hholds
  obtain ⟨q', hq', hsec⟩ := MessageQueue.removeSection_spec hholds
  have hnot : e ∉ xs := (List.nodup_cons.mp hholds.nodup).1
  refine ⟨e, xs, q', hL, hq', h.holds_section (hL ▸ hsec) ?_, ?_, h.nodup, ?_, ?_,
    h.noFault_update t (by simp)⟩
  · intro k' hk hmem
    exact hk (Place.half.inj (h.place_unique (x := .half k') hmem hat))
  · -- the element goes from the half to the thread; no other place changes
    refine h.place_move hat ?_ ?_ ?_
    · intro e' z hne
      cases z with
      | half k' =>
          rw [At_half_update]
          by_cases hk : k' = k
          · subst hk
            have he : e' ≠ e := by
              rintro rfl
              simp at hne
            simp [At, hL, he]
          · rw [if_neg hk]
            rfl
      | held u => rfl
      | inside u =>
          by_cases hu : u = t
          · subst hu
            have he : e ≠ e' := by
              rintro rfl
              simp at hne
            simp [At, setPc, hpc, Pc.carries, he]
          · simp only [At, setPc, Function.update_of_ne hu]
    · simpa [At] using hnot
    · simp [At, setPc, Pc.carries, hmessage]
  · refine h.counted.step hpc rfl fun k' => ?_
    simp only [setPc, hsec.sem k', Function.update_apply]
    by_cases hk : k' = k
    · subst hk
      simp [hL]
      omega
    · simp [hk, Ne.symm hk]
  · simp only [setPc]
    cases k with
    | free => simpa [log] using h.order
    | queue => simp [log, h.order, hL]

/-- Taking the semaphore of a half. -/
theorem Books.sem_wait (h : s.Books cfg L own) (hpc : s.pc t = p) (hcarry : p.carries = none)
    (hlock : ∀ k, p ≠ .lockRemove k) (hpost : ∀ k, p ≠ .semPost k)
    (hvalue : (s.q.half k).messageHalfSem ≠ 0) :
    ({ s with q := s.q.setSem k ((s.q.half k).messageHalfSem - 1) }.setPc t
      (.lockRemove k)).Books cfg L own := by
  refine h.quiet hpc (by rw [hcarry]; rfl) (by simp) (fun k' => (h.holds k').setSem k _) ?_
  intro k'
  rw [if_neg (hlock k'), if_neg (hpost k'), MessageQueue.setSem]
  by_cases hk : k' = k
  · subst hk
    simp
    omega
  · simp [MessageQueue.half_setHalf_of_ne _ _ hk, Ne.symm hk]

/-- What the thread `t` does next keeps the books. -/
theorem Books.advance (h : s.Books cfg L own) (hstep : s.advance t = some s') :
    ∃ L own, s'.Books cfg L own := by
  unfold Run.advance at hstep
  split at hstep
  · cases hstep
  · cases hstep
  · rename_i k hpc
    dsimp only at hstep
    split at hstep
    · cases hstep
    · rename_i hvalue
      obtain rfl := Option.some.inj hstep
      exact ⟨L, own, h.sem_wait hpc rfl (by simp) (by simp) hvalue⟩
  · rename_i k timeOut timeOutMs hpc
    dsimp only at hstep
    split at hstep
    · obtain rfl := Option.some.inj hstep
      refine ⟨L, own, h.quiet (q := s.q) hpc ?_ ?_ h.holds ?_⟩ <;>
        -- the semaphore is 0: the thread waits again, or its time is over
        rcases retry_cases k timeOut timeOutMs with hr | hr <;> simp [hr, Pc.carries]
    · rename_i hvalue
      obtain rfl := Option.some.inj hstep
      exact ⟨L, own, h.sem_wait hpc rfl (by simp) (by simp) hvalue⟩
  · rename_i k hpc
    obtain ⟨e, xs, q', -, hq', hbooks⟩ := h.remove hpc
    rw [hq'] at hstep
    obtain rfl := Option.some.inj hstep
    exact ⟨_, _, hbooks⟩
  · rename_i m hpc
    obtain rfl := Option.some.inj hstep
    -- a call that has timed out brings nothing
    by_cases hm : m = 0
    · refine ⟨L, own, ?_⟩
      rw [if_pos hm, Function.update_eq_self]
      refine h.quiet hpc ?_ (by simp) h.holds (by simp)
      simp [Pc.carries, hm]
    · rw [if_neg hm]
      exact ⟨_, _, h.take hpc hm⟩
  · rename_i k m hpc
    obtain ⟨q', hq', hbooks⟩ := h.add hpc
    dsimp only at hstep
    rw [hq'] at hstep
    obtain rfl := Option.some.inj hstep
    exact ⟨_, _, hbooks⟩
  · rename_i k hpc
    obtain rfl := Option.some.inj hstep
    refine ⟨L, own, h.quiet hpc rfl (by simp) (fun k' => (h.holds k').setSem k _) ?_⟩
    intro k'
    rw [MessageQueue.setSem]
    by_cases hk : k' = k
    · subst hk
      simp
    · simp [MessageQueue.half_setHalf_of_ne _ _ hk, Ne.symm hk]

omit [DecidableEq ι] in
/-- A message that a thread holds is not a null pointer. -/
theorem Books.held_ne_zero (h : s.Books cfg L own) {m : UInt32} (hm : m ∈ s.held t) : m ≠ 0 := by
  have hat : s.At L (m - messageHdrSize) (.held t) := by
    rw [At, sub_add_messageHdrSize]
    exact hm
  have hne := cfg.message_ne_zero (h.mem_elements hat)
  rwa [sub_add_messageHdrSize] at hne

/-- A call keeps the books. -/
theorem Books.call (h : s.Books cfg L own) {c : Call} (hstep : s.call t c = some s') :
    ∃ L own, s'.Books cfg L own := by
  unfold Run.call at hstep
  split at hstep
  · cases hstep
  rename_i hidle
  have hpc : s.pc t = .idle := not_not.mp hidle
  have hentry : ∀ timeoutMs k p', p' = messageHalfRemove k ∨
      p' = messageHalfRemoveTimeout k timeoutMs → (s.setPc t p').Books cfg L own := by
    intro timeoutMs k p' hp'
    refine h.quiet (q := s.q) hpc ?_ ?_ h.holds ?_ <;> rcases hp' with rfl | rfl <;>
      simp [messageHalfRemove, messageHalfRemoveTimeout, Pc.carries]
  have hgive : ∀ m k, (if m ∈ s.held t then
      some ({ s with held := Function.update s.held t ((s.held t).erase m) }.setPc t
        (messageHalfAdd k m)) else none) = some s' → ∃ L own, s'.Books cfg L own := by
    intro m k hs
    split at hs
    · rename_i hm
      obtain rfl := Option.some.inj hs
      rw [messageHalfAdd, if_neg (h.held_ne_zero hm)]
      exact ⟨_, _, h.give hpc hm k⟩
    · cases hs
  cases c with
  | claim timeoutMs =>
      obtain rfl := Option.some.inj hstep
      refine ⟨L, own, hentry timeoutMs .free _ ?_⟩
      simp only [Call.entry, hiMsgClaim]
      split
      · exact .inl rfl
      · exact .inr rfl
  | receive timeoutMs =>
      obtain rfl := Option.some.inj hstep
      refine ⟨L, own, hentry timeoutMs .queue _ ?_⟩
      simp only [Call.entry, hiMsgReceive]
      split
      · exact .inl rfl
      · exact .inr rfl
  | send m => exact hgive m .queue hstep
  | release m => exact hgive m .free hstep

/-- A new queue. -/
theorem books_init (hinit : (machine ι cfg).init s) :
    s.Books cfg (fun k => if k = .free then cfg.elements else []) (fun _ => .half .free) := by
  obtain ⟨⟨area, harea⟩, hpc, hheld, hsent, hreceived⟩ := hinit
  rw [MessageQueue.messageCreateGeneric, if_neg cfg.memory_ne] at harea
  obtain ⟨q, -, hq⟩ := Option.map_eq_some_iff.mp harea
  obtain ⟨hfree, hqueue⟩ := MessageQueue.holds_messageInitGeneric cfg q
  rw [hq] at hfree hqueue
  refine ⟨?_, ?_, ?_, ?_, ?_, ?_⟩
  · intro k
    cases k with
    | free => exact hfree
    | queue => exact hqueue
  · intro e z
    cases z with
    | half k => cases k <;> simp [At]
    | held u => simp [At, hheld]
    | inside u => simp [At, hpc, Pc.carries]
  · simp [hheld]
  · intro k
    refine ⟨∅, ∅, Census.empty (by simp [hpc]), Census.empty (by simp [hpc]), ?_⟩
    rw [← hq]
    cases k with
    | free => simp [MessageQueue.messageInitGeneric, MessageQueue.half]
    | queue => rfl
  · simp [hsent, hreceived]
  · simp [hpc]

/-- The invariant holds in every run. -/
theorem books_of_reach (hreach : (machine ι cfg).Reach s) : ∃ L own, s.Books cfg L own := by
  refine Machine.ReachWhen.invariant (I := fun s => ∃ L own, s.Books cfg L own)
    (fun s hs => ⟨_, _, books_init hs⟩) ?_ hreach
  rintro s a s' ⟨L, own, h⟩ - hstep
  cases a with
  | call t c => exact h.call hstep
  | advance t => exact h.advance hstep

end Steps

end Run
end Fifo
end AndroidLinux
