import Mathlib.Data.List.Basic
import Mathlib.Tactic

/-!
# Words of fixed width

A `Serial` reads and writes words of one width.  A number of words one behind the other is read
by reading them one by one: what has been written is accepted (`Serial.readMany_write`), and
nothing else (`Serial.readMany_sound`).
-/

namespace AndroidLinux
namespace Lib

variable {β α : Type*}

/-- The loop that reads `n` words. -/
def readMany (read : List β → Option (α × List β)) : Nat → List β → Option (List α × List β)
  | 0, s => some ([], s)
  | n + 1, s =>
      (read s).bind fun r => (readMany read n r.2).map fun rs => (r.1 :: rs.1, rs.2)

structure Serial (β α : Type*) where
  read : List β → Option (α × List β)
  write : α → List β
  legal : α → Prop
  width : Nat
  write_length : ∀ a, (write a).length = width
  read_write : ∀ a rest, legal a → read (write a ++ rest) = some (a, rest)
  read_sound : ∀ s a rest, width ≤ s.length → read s = some (a, rest) →
    legal a ∧ s = write a ++ rest

namespace Serial

variable (S : Serial β α)

def writeMany (values : List α) : List β := values.flatMap S.write

theorem writeMany_cons (a : α) (values : List α) :
    S.writeMany (a :: values) = S.write a ++ S.writeMany values := rfl

theorem writeMany_length (values : List α) :
    (S.writeMany values).length = values.length * S.width := by
  induction values with
  | nil => rw [List.length_nil, Nat.zero_mul]; rfl
  | cons a values ih =>
      rw [writeMany_cons, List.length_append, S.write_length, ih, List.length_cons, Nat.succ_mul,
        Nat.add_comm]

theorem readMany_write (values : List α) (h : ∀ a ∈ values, S.legal a) (rest : List β) :
    readMany S.read values.length (S.writeMany values ++ rest) = some (values, rest) := by
  induction values with
  | nil => rfl
  | cons a values ih =>
      rw [List.length_cons, readMany, writeMany_cons, List.append_assoc,
        S.read_write a _ (h a List.mem_cons_self), Option.bind_some,
        ih fun a ha => h a (List.mem_cons_of_mem _ ha), Option.map_some]

/-- What is long enough for that many words and is accepted consists of them and the rest. -/
theorem readMany_sound {n : Nat} {s rest : List β} {values : List α}
    (hlen : n * S.width ≤ s.length) (h : readMany S.read n s = some (values, rest)) :
    values.length = n ∧ (∀ a ∈ values, S.legal a) ∧ s = S.writeMany values ++ rest := by
  induction n generalizing s values with
  | zero =>
      obtain ⟨rfl, rfl⟩ := Prod.mk.inj (Option.some.inj h)
      exact ⟨rfl, nofun, rfl⟩
  | succ n ih =>
      rw [Nat.succ_mul] at hlen
      rw [readMany] at h
      obtain ⟨⟨a, s'⟩, hread, hmap⟩ := Option.bind_eq_some_iff.mp h
      obtain ⟨⟨values', rest'⟩, hmany, heq⟩ := Option.map_eq_some_iff.mp hmap
      obtain ⟨rfl, rfl⟩ := Prod.mk.inj heq
      obtain ⟨hlegal, rfl⟩ := S.read_sound s a s' (by omega) hread
      rw [List.length_append, S.write_length] at hlen
      obtain ⟨hcount, hall, rfl⟩ := ih (show n * S.width ≤ s'.length by omega) hmany
      exact ⟨by rw [List.length_cons, hcount], List.forall_mem_cons.mpr ⟨hlegal, hall⟩,
        by rw [writeMany_cons, List.append_assoc]⟩

theorem length_of_readMany {n : Nat} {s rest : List β} {values : List α}
    (hlen : n * S.width ≤ s.length) (h : readMany S.read n s = some (values, rest)) :
    s.length = n * S.width + rest.length := by
  obtain ⟨hcount, -, rfl⟩ := S.readMany_sound hlen h
  rw [List.length_append, writeMany_length, hcount]

end Serial
end Lib
end AndroidLinux
