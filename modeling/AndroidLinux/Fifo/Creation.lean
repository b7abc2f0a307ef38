import AndroidLinux.Fifo.Sections
import AndroidLinux.Lib.Packing

/-!
# The elements of a new queue

`message_create_generic` allocates the elements of a queue with a product of 32 bits, and
`message_init_generic` lays them out with a loop that links one element at least.  A new
queue has the elements that were asked for exactly if there is one, and their size, rounded
up and with the headers, is a `size_t`.
-/

namespace AndroidLinux
namespace Fifo

open Lib

/-- `Needed * NoElements`, as `message_create_generic` allocates it. -/
def allocated (MessageSize Messages : UInt32) : UInt32 :=
  needed MessageSize * Messages

/-- The bytes of the elements, each rounded up to words and with its header. -/
def elementBytes (MessageSize Messages : UInt32) : Nat :=
  ((MessageSize.toNat + 3) / 4 * 4 + 4) * Messages.toNat

namespace MessageQueue

/-- The free half holds `Messages` nodes `xs`; their headers and `MessageSize` bytes behind
each are packed in the area at `memory`. -/
structure BuiltOf (q : MessageQueue) (MessageSize Messages memory : UInt32)
    (xs : List UInt32) : Prop where
  list : q.Holds .free xs
  count : xs.length = Messages.toNat
  behind : ∀ e ∈ xs, memory.toNat ≤ e.toNat
  packed : Packed xs.toFinset (fun e => e.toNat - memory.toNat)
    (fun _ => messageHdrSize.toNat + MessageSize.toNat) (allocated MessageSize Messages).toNat

/-- The queue has exactly the elements that were asked for. -/
def Built (q : MessageQueue) (MessageSize Messages memory : UInt32) : Prop :=
  ∃ xs, q.BuiltOf MessageSize Messages memory xs

end MessageQueue

variable {MessageSize Messages memory : UInt32} {area : Option MessageQueue}
  {q : MessageQueue}

theorem messageCreateGeneric_cases
    (h : MessageQueue.messageCreateGeneric MessageSize Messages memory area = some q) :
    memory ≠ 0 ∧ ∃ q₀ : MessageQueue, q = q₀.messageInitGeneric memory MessageSize Messages := by
  unfold MessageQueue.messageCreateGeneric at h
  split at h
  · cases h
  · next hmemory =>
      cases area with
      | none => cases h
      | some q₀ => exact ⟨hmemory, q₀, (Option.some.inj h).symm⟩

/-- Two headers of one list are apart by the size of an element. -/
theorem headers_apart {d : UInt32} {n : Nat} {hdr : UInt32}
    (hfits : hdr.toNat + n * d.toNat < 2 ^ 32) :
    ∀ e ∈ headers d n hdr, ∀ e' ∈ headers d n hdr, e ≠ e' →
      Apart e.toNat d.toNat e'.toNat d.toNat := by
  induction n generalizing hdr with
  | zero => exact fun e he => absurd he List.not_mem_nil
  | succ n ih =>
      rw [Nat.succ_mul] at hfits
      -- every later header is behind the first element
      have hnext : (hdr + d).toNat = hdr.toNat + d.toNat := by
        rw [UInt32.toNat_add, Nat.mod_eq_of_lt (by omega)]
      have hbehind : ∀ e ∈ headers d n (hdr + d), hdr.toNat + d.toNat ≤ e.toNat := by
        intro e he
        have hbound := headers_bounds (by omega) e he
        omega
      intro e he e' he' hne
      rcases List.mem_cons.mp he with rfl | he <;> rcases List.mem_cons.mp he' with rfl | he'
      · exact absurd rfl hne
      · exact .inl (hbehind e' he')
      · exact .inr (hbehind e he)
      · exact ih (by omega) e he e' he' hne

/-- The elements of a configuration that fits are what was asked for. -/
theorem builtOf_elements (cfg : Config) (q₀ : MessageQueue) :
    (q₀.messageInitGeneric cfg.memory cfg.MessageSize cfg.Messages).BuiltOf cfg.MessageSize
      cfg.Messages cfg.memory cfg.elements := by
  have hfits := cfg.fits
  have hneeded := cfg.toNat_needed
  have hbounds := headers_bounds cfg.room
  have hlength : (allocated cfg.MessageSize cfg.Messages).toNat =
      cfg.Messages.toNat * (needed cfg.MessageSize).toNat := by
    rw [allocated, UInt32.toNat_mul, Nat.mul_comm, hneeded]
    rw [Nat.mul_comm] at hfits
    exact Nat.mod_eq_of_lt hfits
  refine ⟨(MessageQueue.holds_messageInitGeneric cfg q₀).1, cfg.length_elements,
    fun e he => (hbounds e he).1, ?_⟩
  have hhdr : messageHdrSize.toNat = 4 := rfl
  constructor
  · intro e he
    have hbound := hbounds e (List.mem_toFinset.mp he)
    omega
  · intro e he e' he' hne
    have hbound := (hbounds e (List.mem_toFinset.mp he)).1
    have hbound' := (hbounds e' (List.mem_toFinset.mp he')).1
    have hapart := headers_apart cfg.room e (List.mem_toFinset.mp he) e'
      (List.mem_toFinset.mp he') hne
    unfold Apart at hapart ⊢
    omega

theorem built_of_fits
    (h : MessageQueue.messageCreateGeneric MessageSize Messages memory area = some q)
    (harea : memory.toNat + (allocated MessageSize Messages).toNat < 2 ^ 32)
    (hpos : 1 ≤ Messages.toNat) (hfits : elementBytes MessageSize Messages < 2 ^ 32) :
    q.Built MessageSize Messages memory := by
  obtain ⟨hmemory, q₀, rfl⟩ := messageCreateGeneric_cases h
  exact ⟨_, builtOf_elements ⟨MessageSize, Messages, memory, hpos, hfits, hmemory, harea⟩ q₀⟩

/-- A list of no nodes does not start with the area. -/
theorem head_messageInitGeneric (q₀ : MessageQueue) (hzero : Messages.toNat = 0) :
    (q₀.messageInitGeneric memory MessageSize Messages).messageQueueFree.messageHalfHead =
      memory := by
  simp [MessageQueue.messageInitGeneric, hzero, MessageQueue.initLoop, MessageQueue.store]

/-- Elements that do not overlap need all the bytes of their product. -/
theorem fits_of_packed (hpos : 1 ≤ Messages.toNat)
    (hroom : Messages.toNat * (4 + MessageSize.toNat) ≤ (allocated MessageSize Messages).toNat) :
    elementBytes MessageSize Messages < 2 ^ 32 := by
  have hlt := (allocated MessageSize Messages).toNat_lt
  have hsize : 4 + MessageSize.toNat ≤ Messages.toNat * (4 + MessageSize.toNat) :=
    Nat.le_mul_of_pos_left _ hpos
  -- rounding up does not wrap, since one element fits
  have hround : ((MessageSize + 3) &&& ~~~3).toNat = (MessageSize.toNat + 3) / 4 * 4 :=
    toNat_add_three_and_not_three (by omega)
  by_contra hbig
  have hproduct : (allocated MessageSize Messages).toNat =
      ((MessageSize.toNat + 3) / 4 * 4 + 4) * Messages.toNat % 2 ^ 32 := by
    rw [allocated, needed, UInt32.toNat_mul, UInt32.toNat_add, hround,
      show messageHdrSize.toNat = 4 from rfl, Nat.mod_mul_mod]
  -- the bytes that rounding adds, at most three for each element
  obtain ⟨r, hr, hr3⟩ : ∃ r, (MessageSize.toNat + 3) / 4 * 4 + 4 = 4 + MessageSize.toNat + r ∧
      r ≤ 3 := ⟨(MessageSize.toNat + 3) / 4 * 4 - MessageSize.toNat, by omega, by omega⟩
  have hpadding : r * Messages.toNat ≤ 3 * Messages.toNat := Nat.mul_le_mul_right _ hr3
  have hexact : elementBytes MessageSize Messages =
      Messages.toNat * (4 + MessageSize.toNat) + r * Messages.toNat := by
    rw [elementBytes, hr]
    ring
  have hwords : Messages.toNat * 4 ≤ Messages.toNat * (4 + MessageSize.toNat) :=
    Nat.mul_le_mul_left _ (by omega)
  rw [elementBytes] at hexact hbig
  omega

theorem fits_of_built
    (h : MessageQueue.messageCreateGeneric MessageSize Messages memory area = some q)
    (hbuilt : q.Built MessageSize Messages memory) :
    1 ≤ Messages.toNat ∧ elementBytes MessageSize Messages < 2 ^ 32 := by
  obtain ⟨hmemory, q₀, rfl⟩ := messageCreateGeneric_cases h
  obtain ⟨xs, hlist, hcount, -, hpacked⟩ := hbuilt
  have hpos : 1 ≤ Messages.toNat := by
    rcases Nat.eq_zero_or_pos Messages.toNat with hzero | hpos
    · rw [hzero] at hcount
      have hnil := hlist.chain
      rw [List.length_eq_zero_iff.mp hcount] at hnil
      exact absurd ((head_messageInitGeneric q₀ hzero).symm.trans hnil) hmemory
    · exact hpos
  refine ⟨hpos, fits_of_packed hpos ?_⟩
  have hsum := hpacked.sum_le
  rw [Finset.sum_const, List.toFinset_card_of_nodup hlist.nodup, hcount] at hsum
  exact hsum

/-- A new queue has exactly the elements that were asked for, if and only if there is one
and the bytes of all of them are counted without a wrap. -/
theorem hiMsgQueueCreate_built_iff
    (h : MessageQueue.messageCreateGeneric MessageSize Messages memory area = some q)
    (harea : memory.toNat + (allocated MessageSize Messages).toNat < 2 ^ 32) :
    q.Built MessageSize Messages memory ↔
      1 ≤ Messages.toNat ∧ elementBytes MessageSize Messages < 2 ^ 32 :=
  ⟨fits_of_built h, fun ⟨hpos, hfits⟩ => built_of_fits h harea hpos hfits⟩

/-- A `message_queue_t` and a memory of zeros. -/
def zeroArea : MessageQueue :=
  ⟨⟨0, 0, 0⟩, ⟨0, 0, 0⟩, 0, fun _ => 0⟩

/-- The queue of eight messages of sixteen bytes. -/
def smallQueue : MessageQueue :=
  zeroArea.messageInitGeneric 4096 16 8

theorem hiMsgQueueCreate_built_small :
    smallQueue.Built 16 8 4096 ↔
      1 ≤ (8 : UInt32).toNat ∧ elementBytes 16 8 < 2 ^ 32 :=
  hiMsgQueueCreate_built_iff
    (show MessageQueue.messageCreateGeneric 16 8 4096 (some zeroArea) = some smallQueue from rfl)
    (by decide)

/-- For 65536 messages of 65536 bytes `malloc` is asked for 262144 bytes. -/
theorem hiMsgQueueCreate_not_built :
    (allocated 65536 65536).toNat = 262144 ∧
      ∃ q, MessageQueue.messageCreateGeneric 65536 65536 4096 (some zeroArea) = some q ∧
        ¬ q.Built 65536 65536 4096 := by
  have hcreate : MessageQueue.messageCreateGeneric 65536 65536 4096 (some zeroArea) =
      some (zeroArea.messageInitGeneric 4096 65536 65536) := rfl
  refine ⟨by decide, _, hcreate, fun hbuilt => ?_⟩
  exact absurd (fits_of_built hcreate hbuilt).2 (by decide)

end Fifo
end AndroidLinux
