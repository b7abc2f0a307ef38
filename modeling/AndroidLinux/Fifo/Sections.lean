import AndroidLinux.Fifo.MessageQueue
import AndroidLinux.Lib.Align

/-!
# The lists of a message queue

Where the elements lie in memory, the lists that `message_init_generic` makes of them,
and what a section of `message_half_add` or `message_half_remove` does to the list of a
half (`Section`).
-/

namespace AndroidLinux
namespace Fifo

open Lib

/-! ## The elements -/

/-- The headers of `n` elements, from `hdr` on. -/
def headers (Needed : UInt32) : Nat → UInt32 → List UInt32
  | 0, _ => []
  | n + 1, hdr => hdr :: headers Needed n (hdr + Needed)

/-- The headers of all elements of a queue. -/
def Config.elements (cfg : Config) : List UInt32 :=
  headers (needed cfg.MessageSize) cfg.Messages.toNat cfg.memory

@[simp] theorem length_headers (d : UInt32) (n : Nat) (hdr : UInt32) :
    (headers d n hdr).length = n := by
  induction n generalizing hdr with
  | zero => rfl
  | succ n ih => rw [headers, List.length_cons, ih]

/-- The headers lie in the area, each with room for its element. -/
theorem headers_bounds {d : UInt32} {n : Nat} {hdr : UInt32}
    (hfits : hdr.toNat + n * d.toNat < 2 ^ 32) :
    ∀ e ∈ headers d n hdr, hdr.toNat ≤ e.toNat ∧ e.toNat + d.toNat ≤ hdr.toNat + n * d.toNat := by
  induction n generalizing hdr with
  | zero => exact fun e he => absurd he List.not_mem_nil
  | succ n ih =>
      rw [Nat.succ_mul] at hfits ⊢
      have hnext : (hdr + d).toNat = hdr.toNat + d.toNat := by
        rw [UInt32.toNat_add, Nat.mod_eq_of_lt (by omega)]
      intro e he
      rcases List.mem_cons.mp he with rfl | he
      · omega
      · have hrest := ih (by omega) e he
        omega

theorem nodup_headers {d : UInt32} {n : Nat} {hdr : UInt32} (hd : 0 < d.toNat)
    (hfits : hdr.toNat + n * d.toNat < 2 ^ 32) : (headers d n hdr).Nodup := by
  induction n generalizing hdr with
  | zero => exact List.nodup_nil
  | succ n ih =>
      rw [Nat.succ_mul] at hfits
      have hnext : (hdr + d).toNat = hdr.toNat + d.toNat := by
        rw [UInt32.toNat_add, Nat.mod_eq_of_lt (by omega)]
      refine List.nodup_cons.mpr ⟨fun hmem => ?_, ih (by omega)⟩
      have hbound := headers_bounds (by omega) hdr hmem
      omega

namespace Config

variable (cfg : Config)

/-- The size of an element does not overflow. -/
theorem toNat_needed :
    (needed cfg.MessageSize).toNat = (cfg.MessageSize.toNat + 3) / 4 * 4 + 4 := by
  have hfits := cfg.fits
  have hsize : (cfg.MessageSize.toNat + 3) / 4 * 4 + 4 < 2 ^ 32 :=
    lt_of_le_of_lt (Nat.le_mul_of_pos_right _ cfg.messages_pos) hfits
  rw [needed, UInt32.toNat_add, toNat_add_three_and_not_three (by omega),
    show messageHdrSize.toNat = 4 from rfl, Nat.mod_eq_of_lt (by omega)]

/-- The elements fit in the memory behind `memory`. -/
theorem room :
    cfg.memory.toNat + cfg.Messages.toNat * (needed cfg.MessageSize).toNat < 2 ^ 32 := by
  have harea := cfg.area
  have hfits := cfg.fits
  rw [← cfg.toNat_needed] at hfits
  rw [UInt32.toNat_mul, Nat.mod_eq_of_lt hfits] at harea
  rwa [Nat.mul_comm]

theorem nodup_elements : cfg.elements.Nodup := by
  refine nodup_headers ?_ cfg.room
  rw [cfg.toNat_needed]
  omega

@[simp] theorem length_elements : cfg.elements.length = cfg.Messages.toNat :=
  length_headers _ _ _

theorem element_bounds {e : UInt32} (he : e ∈ cfg.elements) :
    cfg.memory.toNat ≤ e.toNat ∧ e.toNat + 4 < 2 ^ 32 := by
  have hbound := headers_bounds cfg.room e he
  have hroom := cfg.room
  have hneeded := cfg.toNat_needed
  omega

theorem element_ne_zero {e : UInt32} (he : e ∈ cfg.elements) : e ≠ 0 := by
  rintro rfl
  have hbound := (cfg.element_bounds he).1
  have hne : cfg.memory.toNat ≠ 0 := fun h => cfg.memory_ne (UInt32.toNat.inj h)
  have hzero : (0 : UInt32).toNat = 0 := rfl
  omega

/-- The user's part of an element is not a null pointer. -/
theorem message_ne_zero {e : UInt32} (he : e ∈ cfg.elements) : e + messageHdrSize ≠ 0 := by
  intro h
  have hbound := (cfg.element_bounds he).2
  have hsum : (e + messageHdrSize).toNat = e.toNat + 4 := by
    rw [UInt32.toNat_add, show messageHdrSize.toNat = 4 from rfl, Nat.mod_eq_of_lt hbound]
  rw [h] at hsum
  have hzero : (0 : UInt32).toNat = 0 := rfl
  omega

end Config

@[simp] theorem add_sub_messageHdrSize (e : UInt32) :
    e + messageHdrSize - messageHdrSize = e := by
  grind

@[simp] theorem sub_add_messageHdrSize (m : UInt32) :
    m - messageHdrSize + messageHdrSize = m := by
  grind

/-! ## The initial queue -/

namespace MessageQueue

/-- `*PrevMsgP`. -/
def load (q : MessageQueue) : PrevMsg → UInt32
  | .head => q.messageQueueFree.messageHalfHead
  | .next hdr => q.messageHdrNext hdr

/-- The free half after the loop of `message_init_generic` and what follows it. -/
def initTail (r : MessageQueue × PrevMsg × UInt32) : MessageQueue :=
  { r.1.store r.2.2 r.2.1 with
    messageHdrNext := Function.update (r.1.store r.2.2 r.2.1).messageHdrNext r.2.2 0 }

/-- The place `p` is none of the headers in `l`. -/
def Outside (p : PrevMsg) (l : List UInt32) : Prop :=
  ∀ e ∈ l, p ≠ .next e

theorem load_store_self (q : MessageQueue) (v : UInt32) (p : PrevMsg) :
    (q.store v p).load p = v := by
  cases p with
  | head => rfl
  | next hdr => exact Function.update_self hdr v q.messageHdrNext

theorem load_store_of_ne (q : MessageQueue) (v : UInt32) {p p' : PrevMsg} (hne : p' ≠ p) :
    (q.store v p).load p' = q.load p' := by
  cases p with
  | head =>
      cases p' with
      | head => exact absurd rfl hne
      | next hdr => rfl
  | next hdr =>
      cases p' with
      | head => rfl
      | next hdr' =>
          exact Function.update_of_ne (fun h => hne (congrArg PrevMsg.next h)) v
            q.messageHdrNext

/-- The loop links the headers that it passes, stores the first of them where `PrevMsgP`
points to and writes nowhere else. -/
theorem initLoop_spec {d : UInt32} {n : Nat} {q : MessageQueue} {p : PrevMsg} {hdr : UInt32}
    (hnodup : (headers d (n + 1) hdr).Nodup) (hne : ∀ e ∈ headers d (n + 1) hdr, e ≠ 0)
    (hout : Outside p (headers d (n + 1) hdr)) :
    Chain 0 (initTail (initLoop d n q p hdr)).messageHdrNext hdr (headers d (n + 1) hdr) ∧
      (headers d (n + 1) hdr).getLast? = some (initLoop d n q p hdr).2.2 ∧
      (initTail (initLoop d n q p hdr)).load p = hdr ∧
      ∀ p', p' ≠ p → Outside p' (headers d (n + 1) hdr) →
        (initTail (initLoop d n q p hdr)).load p' = q.load p' := by
  -- by induction on the passes; the pointer that a pass stores to is outside of the rest
  induction n generalizing q p hdr with
  | zero =>
      have hself : ∀ p', p' ≠ PrevMsg.next hdr →
          (initTail (initLoop d 0 q p hdr)).load p' = (q.store hdr p).load p' := by
        intro p' hp'
        cases p' with
        | head => rfl
        | next hdr' =>
            exact Function.update_of_ne (fun h => hp' (congrArg PrevMsg.next h)) 0 _
      refine ⟨⟨rfl, hne hdr List.mem_cons_self, ?_⟩, rfl, ?_, ?_⟩
      · exact Function.update_self hdr 0 _
      · rw [hself p (hout hdr List.mem_cons_self), load_store_self]
      · intro p' hp' hout'
        rw [hself p' (hout' hdr List.mem_cons_self), load_store_of_ne q hdr hp']
  | succ n ih =>
      have hsplit := List.nodup_cons.mp hnodup
      have hnext : Outside (.next hdr) (headers d (n + 1) (hdr + d)) := by
        intro e he heq
        exact hsplit.1 (PrevMsg.next.inj heq ▸ he)
      obtain ⟨hchain, hlast, hload, hframe⟩ := ih (q := q.store hdr p) (p := .next hdr) hsplit.2
        (fun e he => hne e (List.mem_cons_of_mem hdr he)) hnext
      have hp : p ≠ .next hdr := hout hdr List.mem_cons_self
      refine ⟨⟨rfl, hne hdr List.mem_cons_self, ?_⟩, ?_, ?_, ?_⟩
      · -- the header's own pointer is where the rest of the loop stores the next header
        have hstep : (initTail (initLoop d (n + 1) q p hdr)).messageHdrNext hdr = hdr + d := hload
        rw [hstep]
        exact hchain
      · rw [headers, headers, List.getLast?_cons_cons]
        exact hlast
      · refine (hframe p hp fun e he => hout e (List.mem_cons_of_mem hdr he)).trans ?_
        exact load_store_self q hdr p
      · intro p' hp' hout'
        refine (hframe p' (hout' hdr List.mem_cons_self)
          fun e he => hout' e (List.mem_cons_of_mem hdr he)).trans ?_
        exact load_store_of_ne q hdr hp'

/-- The half `k` of the queue holds the headers `xs`. -/
def Holds (q : MessageQueue) (k : Half) (xs : List UInt32) : Prop :=
  IsQueue 0 q.messageHdrNext (q.half k).messageHalfHead (q.half k).messageHalfTail xs

/-- The new queue: all elements are in the free half. -/
theorem holds_messageInitGeneric (cfg : Config) (q : MessageQueue) :
    let q' := q.messageInitGeneric cfg.memory cfg.MessageSize cfg.Messages
    q'.Holds .free cfg.elements ∧ q'.Holds .queue [] := by
  refine ⟨?_, IsQueue.empty _ 0⟩
  have hpasses : cfg.Messages.toNat - 1 + 1 = cfg.Messages.toNat :=
    Nat.sub_add_cancel cfg.messages_pos
  have hspec := @initLoop_spec (needed cfg.MessageSize) (cfg.Messages.toNat - 1) q .head
    cfg.memory
  rw [hpasses] at hspec
  obtain ⟨hchain, hlast, hload, -⟩ := hspec cfg.nodup_elements
    (fun e he => cfg.element_ne_zero he) (fun e _ h => nomatch h)
  refine ⟨?_, cfg.nodup_elements, ?_⟩
  · change Chain 0 _ ((initTail (initLoop _ _ q .head cfg.memory)).load .head) _
    rw [hload]
    exact hchain
  · intro x hx
    exact Option.some.inj (hlast.symm.trans hx)

/-! ## The sections -/

variable {q q' : MessageQueue} {k k' : Half} {e : UInt32} {xs : List UInt32}

@[simp] theorem half_setHalf (q : MessageQueue) (h : MessageHalf) (k : Half) :
    (q.setHalf h k).half k = h := by
  cases k <;> rfl

theorem half_setHalf_of_ne (q : MessageQueue) (h : MessageHalf) (hne : k' ≠ k) :
    (q.setHalf h k).half k' = q.half k' := by
  cases k <;> cases k' <;> first | rfl | exact absurd rfl hne

@[simp] theorem messageHdrNext_setHalf (q : MessageQueue) (h : MessageHalf) (k : Half) :
    (q.setHalf h k).messageHdrNext = q.messageHdrNext := by
  cases k <;> rfl

/-- The semaphore's value is not part of the list. -/
theorem Holds.setSem (h : q.Holds k' xs) (k : Half) (value : Nat) :
    (q.setSem k value).Holds k' xs := by
  unfold Holds MessageQueue.setSem
  rw [messageHdrNext_setHalf]
  by_cases hk : k' = k
  · subst hk
    rw [half_setHalf]
    exact h
  · rw [half_setHalf_of_ne _ _ hk]
    exact h

/-- What a section on one half does: the list of this half becomes `ys`, and neither a
semaphore nor the other half changes, except for the pointers of `e` and of the headers
in this half. -/
structure Section (q q' : MessageQueue) (k : Half) (e : UInt32) (xs ys : List UInt32) : Prop where
  holds : q'.Holds k ys
  other : ∀ k' ≠ k, q'.half k' = q.half k'
  sem : ∀ k', (q'.half k').messageHalfSem = (q.half k').messageHalfSem
  next : ∀ x ≠ e, x ∉ xs → q'.messageHdrNext x = q.messageHdrNext x

/-- The other half holds what it held. -/
theorem Section.frame {ys zs : List UInt32} (h : Section q q' k e xs ys) (hk : k' ≠ k)
    (hholds : q.Holds k' zs) (he : e ∉ zs) (hdisj : ∀ x ∈ zs, x ∉ xs) : q'.Holds k' zs := by
  unfold Holds
  rw [h.other k' hk]
  refine hholds.frame fun x hx => h.next x ?_ (hdisj x hx)
  rintro rfl
  exact he hx

/-- The section of `message_half_add` puts the element at the end of the half. -/
theorem addSection_spec (h : q.Holds k xs) (hne : e ≠ 0) (hnew : e ∉ xs) :
    ∃ q', q.addSection k e = some q' ∧ Section q q' k e xs (xs ++ [e]) := by
  unfold addSection
  by_cases hhead : (q.half k).messageHalfHead = 0
  · obtain rfl : xs = [] := h.chain.eq_nil_iff.mp hhead
    have hhead' : ({ q with messageHdrNext := Function.update q.messageHdrNext e 0 }.half
        k).messageHalfHead = 0 := by
      cases k <;> exact hhead
    refine ⟨_, if_pos hhead', ?_, ?_, ?_, ?_⟩
    · unfold Holds
      rw [half_setHalf, messageHdrNext_setHalf]
      exact IsQueue.enqueue_nil q.messageHdrNext hne
    · intro k' hk
      rw [half_setHalf_of_ne _ _ hk]
      cases k' <;> rfl
    · intro k'
      cases k <;> cases k' <;> rfl
    · intro x hx _
      rw [messageHdrNext_setHalf]
      exact Function.update_of_ne hx 0 q.messageHdrNext
  · -- the tail is an element of the half, so it can be linked to the new one
    have htail : (q.half k).messageHalfTail ∈ xs := by
      cases hlast : xs.getLast? with
      | none =>
          rw [List.getLast?_eq_none_iff] at hlast
          exact absurd (h.chain.eq_nil_iff.mpr hlast) hhead
      | some x =>
          rw [h.last x hlast]
          exact List.mem_of_getLast? hlast
    have hhead' : ({ q with messageHdrNext := Function.update q.messageHdrNext e 0 }.half
        k).messageHalfHead ≠ 0 := by
      cases k <;> exact hhead
    have htail' : ({ q with messageHdrNext := Function.update q.messageHdrNext e 0 }.half
        k).messageHalfTail ≠ 0 := by
      cases k <;> exact h.chain.ne_nil _ htail
    refine ⟨_, by rw [if_neg hhead', if_neg htail'], ?_, ?_, ?_, ?_⟩
    · unfold Holds
      rw [half_setHalf, messageHdrNext_setHalf]
      have henq := h.enqueue hhead hne hnew
      cases k <;> exact henq
    · intro k' hk
      rw [half_setHalf_of_ne _ _ hk]
      cases k' <;> rfl
    · intro k'
      cases k <;> cases k' <;> rfl
    · intro x hx hxs
      have hxt : x ≠ (q.half k).messageHalfTail := by
        rintro rfl
        exact hxs htail
      rw [messageHdrNext_setHalf]
      have hupdate : Function.update (Function.update q.messageHdrNext e 0)
          (q.half k).messageHalfTail e x = q.messageHdrNext x := by
        rw [Function.update_of_ne hxt, Function.update_of_ne hx]
      cases k <;> exact hupdate

/-- The section of `message_half_remove` takes the first element of the half. -/
theorem removeSection_spec (h : q.Holds k (e :: xs)) :
    ∃ q', q.removeSection k = some (e, q') ∧ Section q q' k e (e :: xs) xs := by
  have hhead : (q.half k).messageHalfHead = e := h.head_eq
  have hne : (q.half k).messageHalfHead ≠ 0 := hhead ▸ h.chain.ne_nil e List.mem_cons_self
  refine ⟨q.setHalf { q.half k with messageHalfHead := q.messageHdrNext e } k,
    ?_, ?_, ?_, ?_, ?_⟩
  · unfold removeSection
    simp only [if_neg hne]
    rw [hhead]
  · unfold Holds
    rw [half_setHalf, messageHdrNext_setHalf]
    exact h.dequeue
  · intro k' hk
    exact half_setHalf_of_ne _ _ hk
  · intro k'
    cases k <;> cases k' <;> rfl
  · intro x _ _
    rw [messageHdrNext_setHalf]

end MessageQueue

end Fifo
end AndroidLinux
