import AndroidLinux.Logcat.BinaryEvent

/-!
# The text of a binary event

The printer puts out the pieces of the rendering one after another and stops when one has no
room.  Within a list each number and each string is followed by a comma or a bracket, so that
only an event that is a number or a string itself can go wrong.
-/

namespace AndroidLinux
namespace Logcat

open Lib

/-! ## The cursors of the payload -/

namespace Source

/-- The bytes that are left. -/
def data (s : Source) (m : Nat → UInt8) : List UInt8 := s.fetch m s.eventDataLen

theorem length_data (s : Source) (m : Nat → UInt8) : (s.data m).length = s.eventDataLen := by
  unfold data fetch
  rw [List.length_map, List.length_range']

theorem fetch_eq {s : Source} {n : Nat} (m : Nat → UInt8) (h : n ≤ s.eventDataLen) :
    s.fetch m n = (s.data m).take n := by
  unfold data fetch
  rw [← List.map_take, List.take_range'_of_length_ge h]

theorem data_skip (s : Source) (m : Nat → UInt8) (n : Nat) :
    (s.skip n).data m = (s.data m).drop n := by
  unfold data fetch skip
  rw [← List.map_drop, List.drop_range', Nat.mul_one]

theorem data_cons {s : Source} (m : Nat → UInt8) (h : 0 < s.eventDataLen) :
    s.data m = m s.eventData :: (s.skip 1).data m := by
  obtain ⟨n, hn⟩ := Nat.exists_eq_succ_of_ne_zero (Nat.ne_of_gt h)
  unfold data fetch skip
  rw [hn, List.range'_succ, List.map_cons]
  rfl

/-- The cursors have moved towards the end, and all that was read lies in between. -/
structure Moved (s s' : Source) : Prop where
  ends : s'.eventData + s'.eventDataLen = s.eventData + s.eventDataLen
  forward : s.eventData ≤ s'.eventData
  inside : ∀ i ∈ s'.reads, i ∈ s.reads ∨ s.eventData ≤ i ∧ i < s.eventData + s.eventDataLen

theorem Moved.refl (s : Source) : s.Moved s := ⟨rfl, Nat.le_refl _, fun _ hi => .inl hi⟩

theorem Moved.trans {a b c : Source} (hab : a.Moved b) (hbc : b.Moved c) : a.Moved c where
  ends := hbc.ends.trans hab.ends
  forward := Nat.le_trans hab.forward hbc.forward
  inside i hi := by
    obtain hb | ⟨hlow, hhigh⟩ := hbc.inside i hi
    · exact hab.inside i hb
    · exact .inr ⟨Nat.le_trans hab.forward hlow, hab.ends ▸ hhigh⟩

theorem Moved.eventDataLen_le {s s' : Source} (h : s.Moved s') :
    s'.eventDataLen ≤ s.eventDataLen := by
  have hends := h.ends
  have hforward := h.forward
  omega

theorem moved_read {s : Source} {n : Nat} (h : n ≤ s.eventDataLen) : s.Moved (s.read n) where
  ends := rfl
  forward := Nat.le_refl _
  inside i hi := by
    obtain hold | hnew := List.mem_append.mp hi
    · exact .inl hold
    · have hrange := List.mem_range'_1.mp hnew
      exact .inr ⟨hrange.1, by omega⟩

theorem moved_skip {s : Source} {n : Nat} (h : n ≤ s.eventDataLen) : s.Moved (s.skip n) where
  ends := by
    unfold skip
    dsimp only
    omega
  forward := Nat.le_add_right _ _
  inside _ hi := .inl hi

theorem moved_read_skip {s : Source} {n : Nat} (h : n ≤ s.eventDataLen) :
    s.Moved ((s.read n).skip n) :=
  (moved_read h).trans (moved_skip h)

/-- The cursors of a caller that stay, with what was read meanwhile. -/
theorem Moved.stay {s s' : Source} (h : s.Moved s') : s.Moved { s with reads := s'.reads } :=
  ⟨rfl, Nat.le_refl _, h.inside⟩

end Source

/-! ## The printer puts out the rendering -/

theorem Chunk.feed_result (c : Chunk) (t : Sink) : (c.feed t).1 = 0 ∨ (c.feed t).1 = 1 := by
  cases c with
  | number text =>
      change (t.number text).1 = 0 ∨ (t.number text).1 = 1
      unfold Sink.number
      dsimp only
      split
      · exact .inl rfl
      · exact .inr rfl
  | raw text =>
      change (t.raw text).1 = 0 ∨ (t.raw text).1 = 1
      unfold Sink.raw
      dsimp only
      split
      · exact .inl rfl
      · split
        · exact .inr rfl
        · exact .inl rfl
  | mark c =>
      change (t.mark c).1 = 0 ∨ (t.mark c).1 = 1
      unfold Sink.mark
      split
      · exact .inl rfl
      · exact .inr rfl

theorem feedAll_result (cs : List Chunk) (t : Sink) :
    (feedAll cs t).1 = 0 ∨ (feedAll cs t).1 = 1 := by
  induction cs generalizing t with
  | nil => exact .inl rfl
  | cons c cs ih =>
      rw [feedAll]
      split
      · exact ih _
      · exact c.feed_result t

theorem feedAll_append (a b : List Chunk) (t : Sink) :
    feedAll (a ++ b) t =
      if (feedAll a t).1 = 0 then feedAll b (feedAll a t).2 else feedAll a t := by
  induction a generalizing t with
  | nil => rfl
  | cons c a ih =>
      rw [List.cons_append, feedAll, feedAll]
      by_cases h : (c.feed t).1 = 0
      · rw [if_pos h, if_pos h, ih]
      · rw [if_neg h, if_neg h, if_neg h]

theorem feedAll_singleton (c : Chunk) (t : Sink) : feedAll [c] t = c.feed t := by
  rw [feedAll]
  split
  · rename_i h
    exact Prod.ext h.symm rfl
  · rfl

/-- The result of a printer whose payload renders as `R`. -/
def outcome (R : Rendering) (t : Sink) : Int :=
  if (feedAll R.chunks t).1 = 0 then (if R.rest.isSome then 0 else -1)
  else (feedAll R.chunks t).1

/-- A call that puts out the rendering `R`. -/
structure Prints (m : Nat → UInt8) (R : Rendering) (s : Source) (t : Sink) (p : Printed) :
    Prop where
  moved : s.Moved p.2.1
  sink : p.2.2 = (feedAll R.chunks t).2
  result : p.1 = outcome R t
  rest : p.1 = 0 → R.rest = some (p.2.1.data m)

theorem prints_failed {m : Nat → UInt8} {s now : Source} (h : s.Moved now) (t : Sink) :
    Prints m ⟨[], none⟩ s t (failed s now t) :=
  ⟨h.stay, rfl, rfl, fun hzero => absurd hzero (by decide : (-1 : Int) ≠ 0)⟩

/-- One piece is put out for the whole event. -/
theorem outcome_one {c : Chunk} {rest : List UInt8} (t : Sink) :
    outcome ⟨[c], some rest⟩ t = (c.feed t).1 := by
  unfold outcome
  dsimp only
  rw [feedAll_singleton]
  split
  · rename_i h
    rw [h]
    rfl
  · rfl

theorem prints_number {m : Nat → UInt8} {entry s : Source} (size : Nat)
    (value : List UInt8 → Int) (t : Sink) (h : entry.Moved s) :
    Prints m (renderNumber size value (s.data m)) entry t
      (printNumber m size value entry s t) := by
  unfold printNumber renderNumber
  rw [s.length_data m]
  split
  · exact prints_failed h t
  · rename_i hlen
    have hle : size ≤ s.eventDataLen := Nat.not_lt.mp hlen
    dsimp only
    rw [← Source.fetch_eq m hle]
    exact {
      moved := h.trans (Source.moved_read_skip hle)
      sink := by rw [feedAll_singleton]; rfl
      result := (outcome_one (c := .number _) t).symm
      rest := fun _ => congrArg some (Source.data_skip s m size).symm }

theorem prints_string {m : Nat → UInt8} {entry s : Source} (t : Sink) (h : entry.Moved s) :
    Prints m (renderString (s.data m)) entry t (printString m entry s t) := by
  unfold printString renderString
  dsimp only
  rw [s.length_data m]
  split
  · exact prints_failed h t
  · rename_i hlen
    have hle : 4 ≤ s.eventDataLen := Nat.not_lt.mp hlen
    have hmoved : entry.Moved ((s.read 4).skip 4) := h.trans (Source.moved_read_skip hle)
    have hdata : ((s.read 4).skip 4).data m = (s.data m).drop 4 := Source.data_skip s m 4
    rw [← hdata, Source.length_data, ← Source.fetch_eq m hle]
    generalize (s.read 4).skip 4 = now at hmoved hdata ⊢
    generalize leNat (s.fetch m 4) = strLen
    split
    · exact prints_failed hmoved t
    · rename_i hbody
      have hstr : strLen ≤ now.eventDataLen := Nat.not_lt.mp hbody
      have hread : entry.Moved (now.read (min strLen t.outBufLen)) :=
        hmoved.trans (Source.moved_read (Nat.le_trans (Nat.min_le_left _ _) hstr))
      rw [← Source.fetch_eq m hstr]
      refine ⟨?_, ?_, (outcome_one (c := .raw _) t).symm, ?_⟩
      · dsimp only
        split
        · exact hread.trans (Source.moved_skip hstr)
        · exact hread
      · rw [feedAll_singleton]
        rfl
      · intro hzero
        dsimp only at hzero ⊢
        rw [if_pos hzero]
        exact congrArg some (Source.data_skip now m strLen).symm

/-- The rendering with a piece in front of it. -/
theorem outcome_cons (c : Chunk) (R : Rendering) (t : Sink) :
    outcome ⟨c :: R.chunks, R.rest⟩ t =
      if (c.feed t).1 = 0 then outcome R (c.feed t).2 else (c.feed t).1 := by
  unfold outcome
  dsimp only
  rw [feedAll]
  by_cases h : (c.feed t).1 = 0
  · rw [if_pos h, if_pos h]
  · rw [if_neg h, if_neg h, if_neg h]

/-- A piece is put out, and the rest by a call. -/
theorem Prints.cons {m : Nat → UInt8} {R : Rendering} {c : Chunk} {entry s : Source} {t : Sink}
    {p : Printed} (hmoved : entry.Moved s) (hput : (c.feed t).1 = 0)
    (h : Prints m R s (c.feed t).2 p) : Prints m ⟨c :: R.chunks, R.rest⟩ entry t p where
  moved := hmoved.trans h.moved
  sink := by
    rw [feedAll, if_pos hput]
    exact h.sink
  result := by
    rw [outcome_cons, if_pos hput]
    exact h.result
  rest := h.rest

/-- There is no room for a piece. -/
theorem prints_full {m : Nat → UInt8} {R : Rendering} {c : Chunk} {entry s : Source} {t : Sink}
    (hmoved : entry.Moved s) (hput : (c.feed t).1 ≠ 0) :
    Prints m ⟨c :: R.chunks, R.rest⟩ entry t (1, s, (c.feed t).2) where
  moved := hmoved
  sink := by rw [feedAll, if_neg hput]
  result := by
    rw [outcome_cons, if_neg hput]
    exact ((c.feed_result t).resolve_left hput).symm
  rest h := absurd h (by decide : (1 : Int) ≠ 0)

/-- A call puts out the first part, and another one the rest. -/
theorem Prints.append {m : Nat → UInt8} {R R' : Rendering} {s : Source} {t : Sink}
    {p p' : Printed} (h : Prints m R s t p) (hzero : p.1 = 0)
    (h' : Prints m R' p.2.1 p.2.2 p') :
    Prints m ⟨R.chunks ++ R'.chunks, R'.rest⟩ s t p' := by
  have hfed : (feedAll R.chunks t).1 = 0 := by
    by_contra hne
    have hresult := h.result
    unfold outcome at hresult
    rw [if_neg hne] at hresult
    exact hne (hresult.symm.trans hzero)
  have happ : feedAll (R.chunks ++ R'.chunks) t = feedAll R'.chunks p.2.2 := by
    rw [feedAll_append, if_pos hfed, h.sink]
  exact {
    moved := h.moved.trans h'.moved
    sink := by
      rw [happ]
      exact h'.sink
    result := by
      unfold outcome
      dsimp only
      rw [happ]
      exact h'.result
    rest := h'.rest }

/-- A call that stops in the first part. -/
theorem Prints.stop {m : Nat → UInt8} {R : Rendering} {s : Source} {t : Sink} {p : Printed}
    (h : Prints m R s t p) (hne : p.1 ≠ 0) {rest : List UInt8} (hrest : R.rest = some rest)
    (R' : Rendering) : Prints m ⟨R.chunks ++ R'.chunks, R'.rest⟩ s t p := by
  have hfed : (feedAll R.chunks t).1 ≠ 0 := by
    intro hzero
    have hresult := h.result
    unfold outcome at hresult
    rw [if_pos hzero, hrest] at hresult
    exact hne hresult
  have happ : feedAll (R.chunks ++ R'.chunks) t = feedAll R.chunks t := by
    rw [feedAll_append, if_neg hfed]
  exact {
    moved := h.moved
    sink := by
      rw [happ]
      exact h.sink
    result := by
      have hresult := h.result
      unfold outcome at hresult ⊢
      dsimp only
      rw [happ, if_neg hfed]
      rwa [if_neg hfed] at hresult
    rest := fun hzero => absurd hzero hne }

/-- The loop over the items: each pass puts out an item and the mark behind it. -/
theorem prints_items {m : Nat → UInt8} {printItem : Source → Sink → Option Printed}
    {item : List UInt8 → Rendering} {len : Nat}
    (hitem : ∀ s t, s.eventDataLen ≤ len →
      ∃ p, printItem s t = some p ∧ Prints m (item (s.data m)) s t p)
    (n : Nat) (s : Source) (t : Sink) (hlen : s.eventDataLen ≤ len) :
    ∃ p, printItems printItem n s t = some p ∧
      Prints m (renderItems item n (s.data m)) s t p := by
  induction n generalizing s t with
  | zero =>
      refine ⟨_, rfl, Source.Moved.refl s, ?_, (outcome_one (c := .mark _) t).symm, fun _ => rfl⟩
      rw [renderItems, feedAll_singleton]
      rfl
  | succ n ih =>
      obtain ⟨p, hp, hprints⟩ := hitem s t hlen
      rw [printItems, hp, Option.bind_some, renderItems]
      by_cases hzero : p.1 = 0
      · have hrest := hprints.rest hzero
        have hlen' : p.2.1.eventDataLen ≤ len :=
          Nat.le_trans hprints.moved.eventDataLen_le hlen
        rw [if_neg (not_not_intro hzero), hrest]
        dsimp only
        by_cases hmore : 0 < n
        · rw [if_pos hmore, if_pos hmore]
          by_cases hput : (p.2.2.mark 0x2C).1 = 0
          · rw [if_pos hput]
            obtain ⟨q, hq, hprints'⟩ := ih p.2.1 (p.2.2.mark 0x2C).2 hlen'
            exact ⟨q, hq, hprints.append hzero
              (.cons (c := .mark 0x2C) (Source.Moved.refl _) hput hprints')⟩
          · rw [if_neg hput]
            exact ⟨_, rfl, hprints.append hzero
              (prints_full (c := .mark 0x2C) (Source.Moved.refl _) hput)⟩
        · rw [if_neg hmore, if_neg hmore]
          obtain ⟨q, hq, hprints'⟩ := ih p.2.1 p.2.2 hlen'
          exact ⟨q, hq, hprints.append hzero hprints'⟩
      · rw [if_pos hzero]
        refine ⟨p, rfl, ?_⟩
        cases hrest : (item (s.data m)).rest with
        | none => exact hprints
        | some rest =>
            dsimp only
            split
            · exact hprints.stop hzero hrest ⟨.mark 0x2C :: (renderItems item n rest).chunks, _⟩
            · exact hprints.stop hzero hrest (renderItems item n rest)

theorem prints_list {m : Nat → UInt8} {printItem : Source → Sink → Option Printed}
    {item : List UInt8 → Rendering} {len : Nat} {entry s : Source} (t : Sink)
    (hitem : ∀ s t, s.eventDataLen ≤ len →
      ∃ p, printItem s t = some p ∧ Prints m (item (s.data m)) s t p)
    (hlen : s.eventDataLen ≤ len) (h : entry.Moved s) :
    ∃ p, printList m printItem entry s t = some p ∧
      Prints m (renderList item (s.data m)) entry t p := by
  unfold printList
  by_cases hempty : s.eventDataLen < 1
  · have hdata : s.data m = [] := by
      rw [← List.length_eq_zero_iff, s.length_data m]
      exact Nat.lt_one_iff.mp hempty
    rw [if_pos hempty, hdata]
    exact ⟨_, rfl, prints_failed h t⟩
  · have hpos : 1 ≤ s.eventDataLen := Nat.not_lt.mp hempty
    have hmoved : entry.Moved ((s.read 1).skip 1) := h.trans (Source.moved_read_skip hpos)
    rw [if_neg hempty, Source.data_cons m hpos, renderList]
    dsimp only
    by_cases hput : (t.mark 0x5B).1 = 0
    · rw [if_pos hput]
      have hshort : ((s.read 1).skip 1).eventDataLen ≤ len :=
        Nat.le_trans (Nat.sub_le _ _) hlen
      obtain ⟨p, hp, hprints⟩ := prints_items hitem (m s.eventData).toNat _ (t.mark 0x5B).2 hshort
      exact ⟨p, hp, .cons (c := .mark 0x5B) hmoved hput hprints⟩
    · rw [if_neg hput]
      exact ⟨_, rfl, prints_full (c := .mark 0x5B) hmoved hput⟩

/-- The printer puts out the rendering of its payload. -/
theorem prints_event (m : Nat → UInt8) (depth : Nat) (s : Source) (t : Sink)
    (hdepth : s.eventDataLen < depth) :
    ∃ p, printEvent m depth s t = some p ∧ Prints m (render depth (s.data m)) s t p := by
  induction depth generalizing s t with
  | zero => exact absurd hdepth (Nat.not_lt_zero _)
  | succ depth ih =>
      rw [printEvent]
      by_cases hempty : s.eventDataLen < 1
      · have hdata : s.data m = [] := by
          rw [← List.length_eq_zero_iff, s.length_data m]
          exact Nat.lt_one_iff.mp hempty
        rw [if_pos hempty, hdata]
        exact ⟨_, rfl, prints_failed (Source.Moved.refl s) t⟩
      · have hpos : 1 ≤ s.eventDataLen := Nat.not_lt.mp hempty
        have hmoved : s.Moved ((s.read 1).skip 1) := Source.moved_read_skip hpos
        have hdata : s.data m = m s.eventData :: ((s.read 1).skip 1).data m :=
          Source.data_cons m hpos
        have hlen : ((s.read 1).skip 1).eventDataLen ≤ depth - 1 :=
          Nat.sub_le_sub_right (Nat.lt_succ_iff.mp hdepth) 1
        have hitem (s : Source) (t : Sink) (hs : s.eventDataLen ≤ depth - 1) :
            ∃ p, printEvent m depth s t = some p ∧ Prints m (render depth (s.data m)) s t p :=
          ih s t (by omega)
        rw [if_neg hempty, hdata, render]
        dsimp only
        generalize (s.read 1).skip 1 = now at hmoved hlen ⊢
        split
        · exact ⟨_, rfl, prints_number 4 get4LE t hmoved⟩
        split
        · exact ⟨_, rfl, prints_number 8 get8LE t hmoved⟩
        split
        · exact ⟨_, rfl, prints_string t hmoved⟩
        split
        · exact prints_list t hitem hlen hmoved
        · exact ⟨_, rfl, prints_failed hmoved t⟩

end Logcat
end AndroidLinux
