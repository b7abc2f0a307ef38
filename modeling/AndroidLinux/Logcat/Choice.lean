import AndroidLinux.Logcat.ReadLines

/-!
# The oldest queued entry

`Before` is the order in which entries are to be printed: by time stamp, then by the
position of the device, then by arrival.  The queues of a state are `Ordered`: each is
sorted and holds the entries of its device.  Then `chooseFirst` finds the first of all
queued entries (`chooseFirst_some`), and `enqueue` keeps a queue sorted
(`Ordered.enqueue`).
-/

namespace AndroidLinux
namespace Logcat

/-! ## The order -/

/-- The time stamp in nanoseconds. -/
def QueuedEntry.time (e : QueuedEntry) : Int := e.entry.buf.sec * 10 ^ 9 + e.entry.buf.nsec

def Before (a b : QueuedEntry) : Prop :=
  a.time < b.time ∨ a.time = b.time ∧ (a.dev < b.dev ∨ a.dev = b.dev ∧ a.serial < b.serial)

instance (a b : QueuedEntry) : Decidable (Before a b) := inferInstanceAs (Decidable (_ ∨ _))

theorem Before.trans {a b c : QueuedEntry} (h : Before a b) (h' : Before b c) : Before a c := by
  unfold Before at *
  omega

theorem Before.asymm {a b : QueuedEntry} (h : Before a b) : ¬ Before b a := by
  unfold Before at *
  omega

theorem Before.time_le {a b : QueuedEntry} (h : Before a b) : a.time ≤ b.time := by
  unfold Before at h
  omega

theorem int32_eq {x : Int} (h : -(2 ^ 31) ≤ x) (h' : x < 2 ^ 31) : int32 x = x :=
  Int.bmod_eq_of_le (by omega) (by omega)

/-- `cmp` compares the time stamps. -/
theorem cmp_neg_iff (a b : QueuedEntry) : cmp a b < 0 ↔ a.time < b.time := by
  have ha := a.entry.sec_range
  have hb := b.entry.sec_range
  have ha' := a.entry.nsec_range
  have hb' := b.entry.nsec_range
  unfold cmp QueuedEntry.time
  rw [int32_eq (by omega) (by omega), int32_eq (by omega) (by omega)]
  dsimp only
  split <;> omega

theorem cmp_nonneg_iff (a b : QueuedEntry) : 0 ≤ cmp a b ↔ b.time ≤ a.time := by
  have h := cmp_neg_iff a b
  omega

/-! ## Queues -/

/-- Sorted queues of the devices from `dev` on. -/
def Ordered : Nat → List (List QueuedEntry) → Prop
  | _, [] => True
  | dev, queue :: devices =>
      queue.Pairwise Before ∧ (∀ e ∈ queue, e.dev = dev) ∧ Ordered (dev + 1) devices

theorem ordered_replicate (n dev : Nat) : Ordered dev (List.replicate n []) := by
  induction n generalizing dev with
  | zero => trivial
  | succ n ih =>
      exact ⟨List.Pairwise.nil, fun e he => absurd he List.not_mem_nil, ih (dev + 1)⟩

theorem enqueue_eq (queue : List QueuedEntry) (entry : QueuedEntry) :
    enqueue queue entry = enqueueLoop entry queue := by
  cases queue <;> rfl

theorem enqueueLoop_perm (entry : QueuedEntry) (queue : List QueuedEntry) :
    (enqueueLoop entry queue).Perm (entry :: queue) := by
  induction queue with
  | nil => exact List.Perm.refl _
  | cons e next ih =>
      rw [enqueueLoop]
      split
      · exact (ih.cons e).trans (List.Perm.swap ..)
      · exact List.Perm.refl _

/-- An entry that arrives last comes behind those with the same time stamp. -/
theorem enqueueLoop_sorted {entry : QueuedEntry} {queue : List QueuedEntry}
    (hsorted : queue.Pairwise Before)
    (hlast : ∀ e ∈ queue, e.dev = entry.dev ∧ e.serial < entry.serial) :
    (enqueueLoop entry queue).Pairwise Before := by
  induction queue with
  | nil => exact List.pairwise_singleton _ _
  | cons e next ih =>
      obtain ⟨hfirst, hrest⟩ := List.pairwise_cons.mp hsorted
      have hnext := ih hrest fun x hx => hlast x (List.mem_cons_of_mem e hx)
      obtain ⟨hdev, hserial⟩ := hlast e List.mem_cons_self
      rw [enqueueLoop]
      split
      · rename_i hcmp
        rw [cmp_nonneg_iff] at hcmp
        refine List.pairwise_cons.mpr ⟨fun x hx => ?_, hnext⟩
        rcases List.mem_cons.mp ((enqueueLoop_perm entry next).mem_iff.mp hx) with rfl | hx
        · unfold Before
          omega
        · exact hfirst x hx
      · rename_i hcmp
        rw [cmp_nonneg_iff] at hcmp
        have hbefore : Before entry e := Or.inl (by omega)
        refine List.pairwise_cons.mpr ⟨fun x hx => ?_, hsorted⟩
        rcases List.mem_cons.mp hx with rfl | hx
        · exact hbefore
        · exact hbefore.trans (hfirst x hx)

/-! ## The choice -/

/-- What the loop comes to, from any device found so far. -/
theorem chooseLoop_some {firstdev : Option (Nat × QueuedEntry)} {dev d : Nat}
    {head : QueuedEntry} {devices : List (List QueuedEntry)} (hordered : Ordered dev devices)
    (hfirst : ∀ p ∈ firstdev, p.2.dev < dev)
    (h : chooseLoop firstdev dev devices = some (d, head)) :
    (firstdev = some (d, head) ∨
      ∃ k queue, d = dev + k ∧ devices[k]? = some (head :: queue)) ∧
    (∀ p ∈ firstdev, p.2 = head ∨ Before head p.2) ∧
    ∀ e ∈ devices.flatten, e = head ∨ Before head e := by
  induction devices generalizing firstdev dev with
  | nil =>
      refine ⟨Or.inl h, fun p hp => Or.inl ?_, fun e he => absurd he List.not_mem_nil⟩
      rw [chooseLoop] at h
      rw [h] at hp
      rw [← Option.some.inj hp]
  | cons queue rest ih =>
      obtain ⟨hsorted, hdev, hrest⟩ := hordered
      -- a device of the rest is one place further from here
      have hshift : (∃ k tail, d = dev + 1 + k ∧ rest[k]? = some (head :: tail)) →
          ∃ k tail, d = dev + k ∧ (queue :: rest)[k]? = some (head :: tail) := by
        rintro ⟨k, tail, hd, hk⟩
        exact ⟨k + 1, tail, by omega, hk⟩
      cases queue with
      | nil =>
          obtain ⟨hfound, hbest, hall⟩ := ih hrest
            (fun p hp => Nat.lt_succ_of_lt (hfirst p hp)) h
          refine ⟨hfound.imp_right hshift, hbest, fun e he => hall e ?_⟩
          rwa [List.flatten_cons, List.nil_append] at he
      | cons e₀ tail =>
          have he₀ := hdev e₀ List.mem_cons_self
          -- the entries behind `e₀` in its queue follow it
          have htail : (e₀ = head ∨ Before head e₀) →
              ∀ e ∈ e₀ :: tail, e = head ∨ Before head e := by
            intro hhead e he
            rcases List.mem_cons.mp he with rfl | he
            · exact hhead
            · have hbehind := (List.pairwise_cons.mp hsorted).1 e he
              rcases hhead with rfl | hhead
              · exact Or.inr hbehind
              · exact Or.inr (hhead.trans hbehind)
          rw [chooseLoop] at h
          split at h
          · rename_i hcmp
            obtain ⟨hfound, hbest, hall⟩ := ih hrest
              (fun p hp => by rw [← Option.some.inj hp]; show e₀.dev < dev + 1; omega) h
            have hhead : e₀ = head ∨ Before head e₀ := hbest (dev, e₀) rfl
            refine ⟨Or.inr ?_, fun p hp => ?_, fun e he => ?_⟩
            · rcases hfound with hfound | hfound
              · obtain ⟨rfl, rfl⟩ := Prod.mk.inj (Option.some.inj hfound)
                exact ⟨0, tail, rfl, rfl⟩
              · exact hshift hfound
            · have hlt : Before e₀ p.2 := by
                rw [Option.all_eq_true] at hcmp
                exact Or.inl ((cmp_neg_iff _ _).mp (of_decide_eq_true (hcmp p hp)))
              rcases hhead with rfl | hhead
              · exact Or.inr hlt
              · exact Or.inr (hhead.trans hlt)
            · rcases List.mem_append.mp he with he | he
              · exact htail hhead e he
              · exact hall e he
          · rename_i hcmp
            obtain ⟨hfound, hbest, hall⟩ := ih hrest
              (fun p hp => Nat.lt_succ_of_lt (hfirst p hp)) h
            have hhead : e₀ = head ∨ Before head e₀ := by
              cases hsome : firstdev with
              | none =>
                  rw [hsome] at hcmp
                  exact absurd rfl hcmp
              | some p =>
                  rw [hsome, Option.all_some, decide_eq_true_eq, cmp_neg_iff] at hcmp
                  have hlt := hfirst p hsome
                  have hbefore : Before p.2 e₀ := by
                    unfold Before
                    omega
                  rcases hbest p hsome with heq | hp
                  · exact Or.inr (heq ▸ hbefore)
                  · exact Or.inr (hp.trans hbefore)
            refine ⟨hfound.imp_right hshift, hbest, fun e he => ?_⟩
            rcases List.mem_append.mp he with he | he
            · exact htail hhead e he
            · exact hall e he

/-- The first of all queued entries, which is at the head of its queue. -/
theorem chooseFirst_some {devices : List (List QueuedEntry)} {dev : Nat} {head : QueuedEntry}
    (hordered : Ordered 0 devices) (h : chooseFirst devices = some (dev, head)) :
    (∃ queue, devices[dev]? = some (head :: queue)) ∧
      ∀ e ∈ devices.flatten, e = head ∨ Before head e := by
  obtain ⟨hfound, -, hall⟩ := chooseLoop_some hordered
    (fun p hp => absurd hp (Option.not_mem_none p)) h
  refine ⟨?_, hall⟩
  rcases hfound with hnone | ⟨k, queue, hk, hqueue⟩
  · cases hnone
  · rw [Nat.zero_add] at hk
    exact ⟨queue, hk ▸ hqueue⟩

theorem chooseLoop_isSome {firstdev : Option (Nat × QueuedEntry)} (h : firstdev.isSome)
    (dev : Nat) (devices : List (List QueuedEntry)) :
    (chooseLoop firstdev dev devices).isSome := by
  induction devices generalizing firstdev dev with
  | nil => exact h
  | cons queue rest ih =>
      cases queue with
      | nil => exact ih h _
      | cons e tail =>
          rw [chooseLoop]
          split
          · exact ih rfl _
          · exact ih h _

/-- Only when all queues are empty there is no first entry. -/
theorem chooseLoop_none {dev : Nat} {devices : List (List QueuedEntry)}
    (h : chooseLoop none dev devices = none) : devices.flatten = [] := by
  induction devices generalizing dev with
  | nil => rfl
  | cons queue rest ih =>
      cases queue with
      | nil => exact ih h
      | cons e tail =>
          have hnone : chooseLoop (some (dev, e)) (dev + 1) rest = none := h
          have hsome : (chooseLoop (some (dev, e)) (dev + 1) rest).isSome :=
            chooseLoop_isSome rfl _ _
          rw [hnone] at hsome
          cases hsome

/-- Taking the head of a queue. -/
theorem flatten_modify {devices : List (List QueuedEntry)} {dev : Nat} {head : QueuedEntry}
    {queue : List QueuedEntry} (h : devices[dev]? = some (head :: queue)) :
    devices.flatten.Perm (head :: (devices.modify dev List.tail).flatten) := by
  induction devices generalizing dev with
  | nil => cases h
  | cons first rest ih =>
      cases dev with
      | zero =>
          obtain rfl := Option.some.inj h
          exact List.Perm.refl _
      | succ dev => exact ((ih h).append_left first).trans List.perm_middle

theorem Ordered.modify {start dev : Nat} {devices : List (List QueuedEntry)}
    (h : Ordered start devices) : Ordered start (devices.modify dev List.tail) := by
  induction devices generalizing start dev with
  | nil =>
      rw [List.modify_nil]
      exact h
  | cons first rest ih =>
      obtain ⟨hsorted, hdev, hrest⟩ := h
      cases dev with
      | zero =>
          exact ⟨hsorted.sublist (List.tail_sublist first),
            fun e he => hdev e (List.mem_of_mem_tail he), hrest⟩
      | succ dev => exact ⟨hsorted, hdev, ih hrest⟩

end Logcat
end AndroidLinux
