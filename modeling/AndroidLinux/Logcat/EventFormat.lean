import Mathlib.Data.List.Basic
import AndroidLinux.Logcat.BinaryEvent

/-!
# The format of binary events

A number, a string behind its length, or a list of events behind their count, each with its
text.  The rendering of a payload is the text of the event at its head.
-/

namespace AndroidLinux
namespace Logcat

open Lib

/-- Bytes that are a well-formed event, and its text. -/
inductive EventText : List UInt8 → List UInt8 → Prop
  | int {bs : List UInt8} (hlen : bs.length = 4) :
      EventText (EVENT_TYPE_INT :: bs) (decimal (get4LE bs))
  | long {bs : List UInt8} (hlen : bs.length = 8) :
      EventText (EVENT_TYPE_LONG :: bs) (decimal (get8LE bs))
  | string {len body : List UInt8} (hlen : len.length = 4) (hbody : body.length = leNat len) :
      EventText (EVENT_TYPE_STRING :: (len ++ body)) body
  | list {items : List (List UInt8 × List UInt8)} (hlen : items.length < 256)
      (hitems : ∀ i ∈ items, EventText i.1 i.2) :
      EventText (EVENT_TYPE_LIST :: UInt8.ofNat items.length :: (items.map Prod.fst).flatten)
        (0x5B :: ([0x2C].intercalate (items.map Prod.snd) ++ [0x5D]))

/-- A rendering is a text, and what is left are the given bytes. -/
def Rendering.Reads (R : Rendering) (text rest : List UInt8) : Prop :=
  textOf R.chunks = text ∧ R.rest = some rest

theorem textOf_append (a b : List Chunk) : textOf (a ++ b) = textOf a ++ textOf b :=
  List.flatMap_append

theorem textOf_cons (c : Chunk) (cs : List Chunk) : textOf (c :: cs) = c.text ++ textOf cs :=
  List.flatMap_cons

/-! ## The events are rendered -/

theorem renderNumber_reads (size : Nat) (value : List UInt8 → Int) {bs : List UInt8}
    (hlen : bs.length = size) (rest : List UInt8) :
    (renderNumber size value (bs ++ rest)).Reads (decimal (value bs)) rest := by
  unfold renderNumber
  rw [if_neg (by rw [List.length_append]; omega), List.take_left' hlen, List.drop_left' hlen]
  exact ⟨List.append_nil _, rfl⟩

theorem renderString_reads {len body : List UInt8} (hlen : len.length = 4)
    (hbody : body.length = leNat len) (rest : List UInt8) :
    (renderString (len ++ body ++ rest)).Reads body rest := by
  unfold renderString
  dsimp only
  rw [List.append_assoc, List.take_left' hlen, List.drop_left' hlen,
    if_neg (by rw [List.length_append]; omega), if_neg (by rw [List.length_append]; omega),
    List.take_left' hbody, List.drop_left' hbody]
  exact ⟨List.append_nil _, rfl⟩

/-- The items of a list, by the recursion over them. -/
theorem renderItems_reads {item : List UInt8 → Rendering}
    {items : List (List UInt8 × List UInt8)}
    (hitem : ∀ i ∈ items, ∀ rest, (item (i.1 ++ rest)).Reads i.2 rest) (rest : List UInt8) :
    (renderItems item items.length ((items.map Prod.fst).flatten ++ rest)).Reads
      ([0x2C].intercalate (items.map Prod.snd) ++ [0x5D]) rest := by
  induction items with
  | nil => exact ⟨rfl, rfl⟩
  | cons i items ih =>
    obtain ⟨htext, hrest⟩ := hitem i List.mem_cons_self ((items.map Prod.fst).flatten ++ rest)
    obtain ⟨htexts, hrests⟩ := ih fun j hj => hitem j (List.mem_cons_of_mem i hj)
    rw [List.map_cons, List.flatten_cons, List.append_assoc, List.length_cons, renderItems, hrest]
    dsimp only
    cases items with
    | nil =>
      rw [List.length_nil, if_neg (Nat.lt_irrefl 0), ← List.length_nil]
      refine ⟨?_, hrests⟩
      rw [textOf_append, htext, htexts]
      simp
    | cons j items =>
      rw [if_pos (by rw [List.length_cons]; exact Nat.succ_pos _)]
      refine ⟨?_, hrests⟩
      rw [textOf_append, textOf_cons, htext, htexts]
      simp [Chunk.text]

/-- An event at the head of a payload is rendered, however deep it is nested. -/
theorem render_reads {bytes text : List UInt8} (h : EventText bytes text) {depth : Nat}
    (hdepth : bytes.length ≤ depth) (rest : List UInt8) :
    (render (depth + 1) (bytes ++ rest)).Reads text rest := by
  induction h generalizing depth rest with
  | int hlen => exact renderNumber_reads 4 get4LE hlen rest
  | long hlen => exact renderNumber_reads 8 get8LE hlen rest
  | string hlen hbody => exact renderString_reads hlen hbody rest
  | @list items hlen hitems ih =>
    rw [List.length_cons] at hdepth
    obtain ⟨depth, rfl⟩ := Nat.exists_eq_add_of_le' (Nat.le_trans (Nat.le_add_left 1 _) hdepth)
    -- each item is shorter than the list
    have hitem : ∀ i ∈ items, ∀ rest, (render (depth + 1) (i.1 ++ rest)).Reads i.2 rest := by
      intro i hi rest
      have hle := (List.sublist_flatten_of_mem (List.mem_map_of_mem (f := Prod.fst) hi)).length_le
      rw [List.length_cons] at hdepth
      exact ih i hi (by omega) rest
    have hcount : (UInt8.ofNat items.length).toNat = items.length :=
      UInt8.toNat_ofNat_of_lt' hlen
    obtain ⟨htext, hrest⟩ := renderItems_reads hitem rest
    rw [← hcount] at htext hrest
    exact ⟨congrArg (0x5B :: ·) htext, hrest⟩

/-! ## What is rendered is an event -/

theorem eventText_of_renderNumber {size : Nat} {value : List UInt8 → Int} {data rest : List UInt8}
    (h : (renderNumber size value data).rest = some rest) :
    (data.take size).length = size ∧ data = data.take size ++ rest ∧
      textOf (renderNumber size value data).chunks = decimal (value (data.take size)) := by
  unfold renderNumber at h ⊢
  split at h
  · cases h
  · rename_i hlen
    rw [if_neg hlen]
    obtain rfl := Option.some.inj h
    exact ⟨List.length_take_of_le (Nat.le_of_not_lt hlen), (List.take_append_drop size data).symm,
      List.append_nil _⟩

theorem eventText_of_renderString {data rest : List UInt8}
    (h : (renderString data).rest = some rest) :
    ∃ len body, len.length = 4 ∧ body.length = leNat len ∧ data = len ++ body ++ rest ∧
      textOf (renderString data).chunks = body := by
  unfold renderString at h ⊢
  dsimp only at h ⊢
  split at h
  · cases h
  · rename_i hlen
    split at h
    · cases h
    · rename_i hbody
      rw [if_neg hlen, if_neg hbody]
      obtain rfl := Option.some.inj h
      refine ⟨data.take 4, (data.drop 4).take (leNat (data.take 4)),
        List.length_take_of_le (Nat.le_of_not_lt hlen),
        List.length_take_of_le (Nat.le_of_not_lt hbody), ?_, List.append_nil _⟩
      rw [List.append_assoc, List.take_append_drop, List.take_append_drop]

theorem eventText_of_renderItems {item : List UInt8 → Rendering}
    (hitem : ∀ data rest, (item data).rest = some rest →
      ∃ bytes, EventText bytes (textOf (item data).chunks) ∧ data = bytes ++ rest)
    {n : Nat} {data rest : List UInt8} (h : (renderItems item n data).rest = some rest) :
    ∃ items : List (List UInt8 × List UInt8), items.length = n ∧
      (∀ i ∈ items, EventText i.1 i.2) ∧ data = (items.map Prod.fst).flatten ++ rest ∧
      textOf (renderItems item n data).chunks =
        [0x2C].intercalate (items.map Prod.snd) ++ [0x5D] := by
  induction n generalizing data with
  | zero =>
    obtain rfl := Option.some.inj h
    exact ⟨[], rfl, fun _ hi => absurd hi List.not_mem_nil, rfl, rfl⟩
  | succ n ih =>
    rw [renderItems] at h ⊢
    cases hfirst : (item data).rest with
    | none =>
      rw [hfirst] at h
      exact absurd (hfirst.symm.trans h) (by simp)
    | some middle =>
      rw [hfirst] at h
      dsimp only at h ⊢
      obtain ⟨bytes, hevent, hdata⟩ := hitem data middle hfirst
      have hrest : (renderItems item n middle).rest = some rest := by
        split at h <;> exact h
      obtain ⟨items, hlen, hitems, rfl, htext⟩ := ih hrest
      refine ⟨(bytes, textOf (item data).chunks) :: items, congrArg (· + 1) hlen, ?_, ?_, ?_⟩
      · intro i hi
        obtain rfl | hi := List.mem_cons.mp hi
        · exact hevent
        · exact hitems i hi
      · rw [hdata, List.map_cons, List.flatten_cons, List.append_assoc]
      · cases items with
        | nil =>
          obtain rfl : 0 = n := hlen
          rw [if_neg (Nat.lt_irrefl 0), textOf_append, htext]
          simp
        | cons i items =>
          rw [if_pos (by rw [← hlen, List.length_cons]; exact Nat.succ_pos _), textOf_append,
            textOf_cons, htext]
          simp [Chunk.text]

theorem eventText_of_render (depth : Nat) (data rest : List UInt8)
    (h : (render depth data).rest = some rest) :
    ∃ bytes, EventText bytes (textOf (render depth data).chunks) ∧ data = bytes ++ rest := by
  induction depth generalizing data rest with
  | zero => cases h
  | succ depth ih =>
    cases data with
    | nil => cases h
    | cons type data =>
      rw [render] at h ⊢
      split at h
      · rename_i hint
        obtain ⟨hlen, hdata, htext⟩ := eventText_of_renderNumber h
        rw [if_pos hint, htext, hint]
        exact ⟨_, .int hlen, congrArg _ hdata⟩
      rename_i hint
      rw [if_neg hint]
      split at h
      · rename_i hlong
        obtain ⟨hlen, hdata, htext⟩ := eventText_of_renderNumber h
        rw [if_pos hlong, htext, hlong]
        exact ⟨_, .long hlen, congrArg _ hdata⟩
      rename_i hlong
      rw [if_neg hlong]
      split at h
      · rename_i hstring
        obtain ⟨len, body, hlen, hbody, hdata, htext⟩ := eventText_of_renderString h
        rw [if_pos hstring, htext, hstring]
        exact ⟨_, .string hlen hbody, congrArg _ hdata⟩
      rename_i hstring
      rw [if_neg hstring]
      split at h
      · rename_i hlist
        rw [if_pos hlist, hlist]
        cases data with
        | nil => cases h
        | cons count data =>
          obtain ⟨items, hlen, hitems, hdata, htext⟩ := eventText_of_renderItems ih h
          have hcount : UInt8.ofNat items.length = count := by rw [hlen, UInt8.ofNat_toNat]
          have hevent := EventText.list (hlen ▸ count.toNat_lt) hitems
          rw [← htext, hcount] at hevent
          exact ⟨_, hevent, congrArg (fun bs => _ :: _ :: bs) hdata⟩
      · cases h

/-- The rendering of a payload is whole exactly when an event stands at its head, and is the
text of this event. -/
theorem rendering_reads_iff (data text rest : List UInt8) :
    (rendering data).Reads text rest ↔ ∃ bytes, EventText bytes text ∧ data = bytes ++ rest := by
  constructor
  · rintro ⟨rfl, hrest⟩
    exact eventText_of_render _ data rest hrest
  · rintro ⟨bytes, hevent, rfl⟩
    refine render_reads hevent ?_ rest
    rw [List.length_append]
    omega

end Logcat
end AndroidLinux
