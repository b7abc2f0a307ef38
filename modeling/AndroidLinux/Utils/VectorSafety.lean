import AndroidLinux.Utils.VectorSizes

/-!
# Vectors that stay inside of their storage

`Inv` says that the items fit into the storage and that the size of the storage, with the
header, has not wrapped.  The storage that `_grow` and `_shrink` leave is good for the new
count when the sizes they compute do not wrap.
-/

namespace AndroidLinux
namespace Utils

variable {α : Type*} {T : ItemType α}

/-! ## Bytes -/

namespace ItemType

theorem size_pos (T : ItemType α) : 0 < T.itemSize.toNat := UInt32.lt_iff_toNat_lt.mp T.itemSize_pos

theorem roomFor_eq {size : UInt32} (h : size.toNat + 16 < 2 ^ 32) : roomFor size = size.toNat := by
  have hheader : sizeofSharedBuffer.toNat = 16 := rfl
  rw [roomFor, UInt32.toNat_add, hheader, Nat.mod_eq_of_lt (by omega)]
  omega

theorem offset_le (T : ItemType α) (index : UInt32) :
    T.offset index ≤ index.toNat * T.itemSize.toNat := by
  rw [offset, UInt32.toNat_mul]
  exact Nat.mod_le _ _

theorem extent_le (T : ItemType α) (asBytes : Bool) (num : UInt32) :
    T.extent asBytes num ≤ num.toNat * T.itemSize.toNat := by
  unfold extent
  split
  · rw [UInt32.toNat_mul]
    exact Nat.mod_le _ _
  · exact le_rfl

/-- The end of a range of items. -/
theorem access_le (T : ItemType α) (asBytes : Bool) {index num : UInt32} {n : Nat}
    (h : index.toNat + num.toNat ≤ n) :
    T.offset index + T.extent asBytes num ≤ n * T.itemSize.toNat := by
  have hoffset := T.offset_le index
  have hextent := T.extent_le asBytes num
  have hrange := Nat.mul_le_mul_right T.itemSize.toNat h
  rw [Nat.add_mul] at hrange
  omega

/-- A function on the storage changes items below a count only. -/
def Inside (T : ItemType α) (n : Nat) (f : Block α → Block α × List Access) : Prop :=
  ∀ b, (f b).1.mSize = b.mSize ∧ (f b).1.room = b.room ∧
    ∀ room, SizedVector.Within T n room (f b).2

theorem doCopy_inside (T : ItemType α) {dest num : UInt32} {n : Nat}
    (h : dest.toNat + num.toNat ≤ n) (start : UInt32) (source : Nat → α) :
    T.Inside n (T.doCopy dest start num source) := by
  refine fun b => ⟨rfl, rfl, fun room access haccess => ?_⟩
  obtain rfl := List.mem_singleton.mp haccess
  exact T.access_le _ h

theorem doMove_inside (T : ItemType α) {dest start num : UInt32} {n : Nat}
    (hdest : dest.toNat + num.toNat ≤ n) (hstart : start.toNat + num.toNat ≤ n) :
    T.Inside n (T.doMove dest start num) := by
  refine fun b => ⟨rfl, rfl, fun room access haccess => ?_⟩
  rcases List.mem_pair.mp haccess with rfl | rfl
  · exact T.access_le _ hdest
  · exact T.access_le _ hstart

theorem doDestroy_within (T : ItemType α) {storage num : UInt32} {n : Nat}
    (h : storage.toNat + num.toNat ≤ n) (room : Nat) :
    SizedVector.Within T n room (T.doDestroy storage num) := by
  intro access haccess
  unfold doDestroy at haccess
  split at haccess
  · cases haccess
  · obtain rfl := List.mem_singleton.mp haccess
    exact T.access_le _ h

theorem fillItems_inside (T : ItemType α) (item : Option α) {storage num : UInt32} {n : Nat}
    (h : storage.toNat + num.toNat ≤ n) : T.Inside n (T.fillItems item storage num) := by
  intro b
  unfold fillItems
  split
  · exact ⟨rfl, rfl, fun room access haccess => by cases haccess⟩
  · refine ⟨rfl, rfl, fun room access haccess => ?_⟩
    obtain rfl := List.mem_singleton.mp haccess
    exact T.access_le _ h

theorem copyParts_inside (T : ItemType α) (source : Nat → α) {n : Nat}
    {parts : List (UInt32 × UInt32 × UInt32)}
    (h : ∀ p ∈ parts, p.1.toNat + p.2.2.toNat ≤ n) : T.Inside n (T.copyParts source parts) := by
  induction parts with
  | nil => exact fun b => ⟨rfl, rfl, fun room access haccess => by cases haccess⟩
  | cons p parts ih =>
      intro b
      obtain ⟨hsize, hroom, hwithin⟩ :=
        T.doCopy_inside (h p List.mem_cons_self) p.2.1 source b
      obtain ⟨hsize', hroom', hwithin'⟩ := ih (fun q hq => h q (List.mem_cons_of_mem p hq))
        (T.doCopy p.1 p.2.1 p.2.2 source b).1
      refine ⟨hsize'.trans hsize, hroom'.trans hroom, fun room access haccess => ?_⟩
      rcases List.mem_append.mp haccess with hfirst | hrest
      · exact hwithin room access hfirst
      · exact hwithin' room access hrest

end ItemType

/-! ## Storage -/

namespace SizedVector

variable {v : SizedVector α} {a : Answers} {n : Nat} {count cap : UInt32}
  {e : SizedVector α × List Access}

/-- The storage has place for a number of items. -/
structure Room (T : ItemType α) (count : UInt32) (b : Block α) : Prop where
  items : count.toNat * T.itemSize.toNat ≤ b.mSize.toNat
  small : b.mSize.toNat + 16 < 2 ^ 32
  room : b.room = b.mSize.toNat

/-- A vector that is inside of its storage. -/
structure Inv (T : ItemType α) (v : SizedVector α) : Prop where
  stored : ∀ b, v.mStorage = some b → Room T v.mCount b
  empty : v.mStorage = none → v.mCount = 0

/-- What a part of a call leaves: storage for a number of items, with changes below `n`. -/
structure Leaves (T : ItemType α) (n : Nat) (count : UInt32)
    (e : SizedVector α × List Access) : Prop where
  inv : Inv T { e.1 with mCount := count }
  within : Within T n e.1.room e.2

theorem Inv.fitting (h : Inv T v) : Fitting T v := by
  unfold Fitting room
  cases hv : v.mStorage with
  | none =>
      rw [h.empty hv]
      exact (Nat.zero_mul _).le
  | some b =>
      have hroom := h.stored b hv
      exact hroom.items.trans hroom.room.ge

theorem Inv.capacity_eq {b : Block α} (hv : v.mStorage = some b) :
    (v.capacity T).toNat = b.mSize.toNat / T.itemSize.toNat := by
  rw [capacity, hv]
  exact UInt32.toNat_div _ _

theorem capacity_none (hv : v.mStorage = none) : v.capacity T = 0 := by
  rw [capacity, hv]
  rfl

theorem capacity_mul_le {b : Block α} (hv : v.mStorage = some b) :
    (v.capacity T).toNat * T.itemSize.toNat ≤ b.mSize.toNat := by
  rw [Inv.capacity_eq hv]
  exact Nat.div_mul_le_self _ _

theorem Inv.count_le (h : Inv T v) : v.mCount ≤ v.capacity T := by
  cases hv : v.mStorage with
  | none =>
      rw [h.empty hv]
      exact UInt32.zero_le
  | some b =>
      rw [UInt32.le_iff_toNat_le, Inv.capacity_eq hv]
      exact (Nat.le_div_iff_mul_le T.size_pos).mpr (h.stored b hv).items

/-- The bytes of new storage. -/
theorem Fits.bytes (h : Fits T cap count) :
    (cap * T.itemSize).toNat = cap.toNat * T.itemSize.toNat := by
  have hsmall := h.2
  rw [UInt32.toNat_mul, Nat.mod_eq_of_lt (by omega)]

theorem Fits.items (h : Fits T cap count) :
    count.toNat * T.itemSize.toNat ≤ (cap * T.itemSize).toNat := by
  rw [h.bytes]
  exact Nat.mul_le_mul_right _ (UInt32.le_iff_toNat_le.mp h.1)

theorem Fits.small (h : Fits T cap count) : (cap * T.itemSize).toNat + 16 < 2 ^ 32 := by
  rw [h.bytes]
  exact h.2

/-- Storage of the computed size. -/
theorem Fits.room (h : Fits T cap count) {b : Block α} (hsize : b.mSize = cap * T.itemSize)
    (hroom : b.room = ItemType.roomFor (cap * T.itemSize)) : Room T count b := by
  refine ⟨hsize ▸ h.items, hsize ▸ h.small, ?_⟩
  rw [hroom, hsize]
  exact ItemType.roomFor_eq h.small

/-- Storage of a vector, with another count. -/
theorem Leaves.of_room {b : Block α} (hv : e.1.mStorage = some b) (hroom : Room T count b)
    (hwithin : Within T n b.room e.2) : Leaves T n count e := by
  refine ⟨⟨fun b' hb' => ?_, fun hnone => ?_⟩, ?_⟩
  · obtain rfl := Option.some.inj (hv.symm.trans hb')
    exact hroom
  · cases hv.symm.trans hnone
  · rw [SizedVector.room, hv]
    exact hwithin

theorem Fits.rehouse (h : Fits T cap count) {parts : List (UInt32 × UInt32 × UInt32)}
    (hparts : ∀ p ∈ parts, p.1.toNat + p.2.2.toNat ≤ n)
    (he : v.rehouse T a cap parts = some e) : Leaves T n count e := by
  obtain ⟨sb, hsb, rfl⟩ := Option.map_eq_some_iff.mp he
  unfold ItemType.alloc at hsb
  split at hsb
  · obtain rfl := Option.some.inj hsb
    obtain ⟨hsize, hroom, hwithin⟩ :=
      T.copyParts_inside (v.mStorage.elim T.fresh Block.items) hparts _
    exact .of_room rfl (h.room hsize hroom) (hwithin _)
  · cases hsb

theorem Fits.resizeStorage (h : Fits T cap count) (hinv : Inv T v)
    (he : v.resizeStorage T a cap = some e) : Leaves T n count e := by
  obtain ⟨b, hv, he⟩ := Option.bind_eq_some_iff.mp he
  obtain ⟨sb, hsb, rfl⟩ := Option.map_eq_some_iff.mp he
  unfold ItemType.editResize at hsb
  dsimp only at hsb
  split at hsb
  · rename_i hsame
    obtain rfl := Option.some.inj hsb
    have hroom := hinv.stored b hv
    refine .of_room rfl ⟨hsame.2 ▸ h.items, hroom.small, hroom.room⟩ fun access haccess => ?_
    cases haccess
  · split at hsb
    · obtain rfl := Option.some.inj hsb
      refine .of_room rfl (h.room rfl rfl) fun access haccess => ?_
      cases haccess
    · obtain ⟨nb, hnb, rfl⟩ := Option.map_eq_some_iff.mp hsb
      unfold ItemType.alloc at hnb
      split at hnb
      · obtain rfl := Option.some.inj hnb
        refine .of_room rfl (h.room rfl rfl) fun access haccess => ?_
        obtain rfl := List.mem_singleton.mp haccess
        exact (Nat.min_le_left _ _).trans (ItemType.roomFor_eq h.small).ge
      · cases hnb

/-- A change of items of the storage. -/
theorem Leaves.onStorage (h : Leaves T n count e) {f : Block α → Block α × List Access}
    (hf : T.Inside n f) : Leaves T n count (andThen e (SizedVector.onStorage f)) := by
  unfold andThen SizedVector.onStorage
  cases hv : e.1.mStorage with
  | none =>
      dsimp only
      rw [List.append_nil]
      exact h
  | some b =>
      obtain ⟨hsize, hroom, hwithin⟩ := hf b
      have hold := h.inv.stored b hv
      have hin := h.within
      rw [SizedVector.room, hv] at hin
      refine .of_room rfl ⟨hsize ▸ hold.items, hsize ▸ hold.small, ?_⟩ fun access haccess => ?_
      · rw [hroom, hsize]
        exact hold.room
      · rw [hroom]
        rcases List.mem_append.mp haccess with hfirst | hnext
        · exact hin access hfirst
        · exact hwithin b.room access hnext

/-- Nothing more is done. -/
theorem Leaves.done (h : Leaves T n count e) : Leaves T n count (andThen e fun v => (v, [])) := by
  unfold andThen
  dsimp only
  rw [List.append_nil]
  exact h

theorem capacity_fits (h : Inv T v) {b : Block α} (hv : v.mStorage = some b)
    (hcount : count ≤ v.capacity T) : Fits T (v.capacity T) count := by
  have hle := capacity_mul_le (T := T) hv
  have hsmall := (h.stored b hv).small
  exact ⟨hcount, by omega⟩

theorem Inv.editArrayImpl (h : Inv T v) (hcount : count ≤ v.capacity T)
    (hn : v.mCount.toNat ≤ n) : Leaves T n count (v.editArrayImpl T a) := by
  unfold SizedVector.editArrayImpl
  cases hv : v.mStorage with
  | none =>
      rw [capacity_none hv] at hcount
      refine ⟨⟨fun b hb => ?_, fun _ => ?_⟩, fun access haccess => ?_⟩
      · cases hv.symm.trans hb
      · exact UInt32.le_zero_iff.mp hcount
      · cases haccess
  | some b =>
      have hfits := capacity_fits h hv hcount
      have hroom := h.stored b hv
      have hhere : Leaves T n count (v, []) := by
        have hitems := hfits.items.trans (hfits.bytes.trans_le (capacity_mul_le hv))
        refine .of_room hv ⟨hitems, hroom.small, hroom.room⟩ fun access haccess => ?_
        cases haccess
      dsimp only
      split
      · exact hhere
      · cases hnew : v.rehouse T a (v.capacity T) [(0, 0, v.mCount)] with
        | none => exact hhere
        | some e =>
            refine hfits.rehouse (fun p hp => ?_) hnew
            obtain rfl := List.mem_singleton.mp hp
            exact (Nat.zero_add _).trans_le hn

/-! ## Growing and shrinking -/

theorem mem_part {dest start num : UInt32} {p : UInt32 × UInt32 × UInt32}
    (hp : p ∈ part dest start num) : p = (dest, start, num) := by
  unfold part at hp
  split at hp
  · exact List.mem_singleton.mp hp
  · cases hp

theorem mem_parts {d₁ s₁ n₁ d₂ s₂ n₂ : UInt32} (h₁ : d₁.toNat + n₁.toNat ≤ n)
    (h₂ : d₂.toNat + n₂.toNat ≤ n) :
    ∀ p ∈ part d₁ s₁ n₁ ++ part d₂ s₂ n₂, p.1.toNat + p.2.2.toNat ≤ n := by
  intro p hp
  rcases List.mem_append.mp hp with hp | hp
  · obtain rfl := mem_part hp
    exact h₁
  · obtain rfl := mem_part hp
    exact h₂

/-- A range behind another one in 32 bits. -/
theorem toNat_add_of_lt {a b : UInt32} (h : a.toNat + b.toNat < 2 ^ 32) :
    (a + b).toNat = a.toNat + b.toNat := by
  rw [UInt32.toNat_add, Nat.mod_eq_of_lt h]

theorem Inv.growStorage (h : Inv T v) {pos amount : UInt32} (hpos : pos ≤ v.mCount)
    (hfits : GrowFits T v amount) (he : v.growStorage T a pos amount = some e) :
    Leaves T (v.mCount + amount).toNat (v.mCount + amount) e := by
  have hnew := toNat_add_of_lt hfits.1
  have hpos' := UInt32.le_iff_toNat_le.mp hpos
  have hlt := hfits.1
  have hdest : (pos + amount).toNat = pos.toNat + amount.toNat := toNat_add_of_lt (by omega)
  have hsub : (v.mCount - pos).toNat = v.mCount.toNat - pos.toNat :=
    UInt32.toNat_sub_of_le _ _ hpos
  have hzero : (0 : UInt32).toNat = 0 := rfl
  unfold SizedVector.growStorage at he
  dsimp only at he
  split at he
  · rename_i hgrows
    have hnewFits := hfits.2 hgrows
    split at he
    · exact hnewFits.resizeStorage h he
    · exact hnewFits.rehouse (mem_parts (by omega) (by omega)) he
  · rename_i hkept
    obtain rfl := Option.some.inj he
    have hedit : Leaves T (v.mCount + amount).toNat (v.mCount + amount) (v.editArrayImpl T a) :=
      h.editArrayImpl (UInt32.not_lt.mp hkept) (by omega)
    split
    · exact hedit.onStorage (T.doMove_inside (by omega) (by omega))
    · exact hedit.done

theorem Inv.shrinkStorage (h : Inv T v) {pos amount : UInt32}
    (hrange : pos.toNat + amount.toNat ≤ v.mCount.toNat) (hfits : ShrinkFits T v amount)
    (he : v.shrinkStorage T a pos amount = some e) :
    Leaves T v.mCount.toNat (v.mCount - amount) e := by
  have hnew : (v.mCount - amount).toNat = v.mCount.toNat - amount.toNat :=
    UInt32.toNat_sub_of_le _ _ (UInt32.le_iff_toNat_le.mpr (by omega))
  have hcount := v.mCount.toNat_lt
  have hstart : (pos + amount).toNat = pos.toNat + amount.toNat := toNat_add_of_lt (by omega)
  have hpos : pos ≤ v.mCount - amount := UInt32.le_iff_toNat_le.mpr (by omega)
  have hsub : (v.mCount - amount - pos).toNat = (v.mCount - amount).toNat - pos.toNat :=
    UInt32.toNat_sub_of_le _ _ hpos
  have hzero : (0 : UInt32).toNat = 0 := rfl
  unfold SizedVector.shrinkStorage at he
  dsimp only at he
  split at he
  · rename_i hshrinks
    have hnewFits := hfits hshrinks
    split at he
    · exact hnewFits.resizeStorage h he
    · exact hnewFits.rehouse (mem_parts (by omega) (by omega)) he
  · obtain rfl := Option.some.inj he
    have hless : v.mCount - amount ≤ v.mCount := UInt32.le_iff_toNat_le.mpr (by omega)
    have hedit : Leaves T v.mCount.toNat (v.mCount - amount) (v.editArrayImpl T a) :=
      h.editArrayImpl (UInt32.le_trans hless h.count_le) le_rfl
    have hdestroy : Leaves T v.mCount.toNat (v.mCount - amount)
        (andThen (v.editArrayImpl T a) fun e => (e, T.doDestroy pos amount)) := by
      refine ⟨hedit.inv, fun access haccess => ?_⟩
      rcases List.mem_append.mp haccess with hfirst | hnext
      · exact hedit.within access hfirst
      · exact T.doDestroy_within hrange _ access hnext
    split
    · exact hdestroy.onStorage (T.doMove_inside (by omega) (by omega))
    · exact hdestroy.done

theorem Inv.grow (h : Inv T v) {pos amount : UInt32} (hpos : pos ≤ v.mCount)
    (hfits : GrowFits T v amount) (he : v.grow T a pos amount = some e) :
    e.1.mCount = v.mCount + amount ∧
      Leaves T (v.mCount + amount).toNat (v.mCount + amount) e := by
  obtain ⟨e', he', rfl⟩ := Option.map_eq_some_iff.mp he
  have hleaves := h.growStorage hpos hfits he'
  exact ⟨rfl, hleaves.inv, hleaves.within⟩

theorem Inv.shrink (h : Inv T v) (a : Answers) {pos amount : UInt32}
    (hrange : pos.toNat + amount.toNat ≤ v.mCount.toNat) (hfits : ShrinkFits T v amount) :
    Leaves T v.mCount.toNat (v.shrink T a pos amount).1.mCount (v.shrink T a pos amount) := by
  have hsame : Leaves T v.mCount.toNat v.mCount (v, []) :=
    ⟨h, fun access haccess => by cases haccess⟩
  unfold SizedVector.shrink
  split
  · exact hsame
  · cases he : v.shrinkStorage T a pos amount with
    | none => exact hsame
    | some e =>
        have hleaves := h.shrinkStorage hrange hfits he
        exact ⟨hleaves.inv, hleaves.within⟩

/-! ## The calls -/

theorem Within.mono {room m : Nat} {accesses : List Access} (h : Within T n room accesses)
    (hle : n ≤ m) : Within T m room accesses := by
  intro access haccess
  have hin := h access haccess
  cases access with
  | change offset bytes => exact hin.trans (Nat.mul_le_mul_right _ hle)
  | keep bytes => exact hin

/-- A call that is safe and keeps the invariant. -/
structure Keeps (T : ItemType α) (v : SizedVector α) (r : SizedResult α) : Prop where
  safe : Safe T v r
  inv : Inv T r.vec

/-- An error before anything has been done. -/
theorem Inv.failed (h : Inv T v) {status : Int32} (hstatus : status < 0) :
    Keeps T v ⟨status, v, []⟩ := ⟨.inl ⟨hstatus, rfl, rfl⟩, h⟩

theorem Inv.unchanged (h : Inv T v) (status : Int32) : Keeps T v ⟨status, v, []⟩ :=
  ⟨.inr ⟨h.fitting, fun access haccess => by cases haccess⟩, h⟩

/-- What has been left for the count that the vector has. -/
theorem Leaves.keeps (h : Leaves T n e.1.mCount e) (status : Int32)
    (hn : n ≤ max v.mCount.toNat e.1.mCount.toNat) : Keeps T v ⟨status, e.1, e.2⟩ :=
  ⟨.inr ⟨h.inv.fitting, h.within.mono hn⟩, h.inv⟩

/-- Storage of its own holds the same items. -/
theorem editArrayImpl_contents (h : Inv T v) (a : Answers) :
    (v.editArrayImpl T a).1.contents = v.contents ∧
      (v.editArrayImpl T a).1.mCount = v.mCount := by
  unfold SizedVector.editArrayImpl
  cases hv : v.mStorage with
  | none => exact ⟨rfl, rfl⟩
  | some b =>
      dsimp only
      split
      · exact ⟨rfl, rfl⟩
      · unfold SizedVector.rehouse
        cases hnew : T.alloc (v.capacity T * T.itemSize) a.malloc with
        | none => exact ⟨rfl, rfl⟩
        | some sb =>
            refine ⟨?_, rfl⟩
            have hroom := h.stored b hv
            have hitems := hroom.items
            have hsmall := hroom.small
            have hextent : T.extent T.traits.trivialCopy v.mCount =
                v.mCount.toNat * T.itemSize.toNat := by
              unfold ItemType.extent
              split
              · rw [UInt32.toNat_mul, Nat.mod_eq_of_lt (by omega)]
              · rfl
            have hoffset : T.offset 0 = 0 :=
              Nat.le_zero.mp ((T.offset_le 0).trans (Nat.zero_mul _).le)
            unfold contents
            rw [hv]
            dsimp only [Option.map_some, Option.getD_some, Option.elim_some]
            refine List.map_congr_left fun j hj => ?_
            have hlt : j < v.mCount.toNat := List.mem_range.mp hj
            change T.copied T.traits.trivialCopy 0 0 v.mCount b.items sb.items j = b.items j
            unfold ItemType.copied
            dsimp only
            rw [hoffset, hextent, Nat.zero_div, Nat.mul_div_cancel _ T.size_pos, if_pos (by omega),
              Nat.zero_add, Nat.sub_zero]

/-- `_grow` finds no location only when nothing was to be inserted at the end. -/
theorem Inv.grow_nowhere (h : Inv T v) {pos amount : UInt32} (hpos : pos ≤ v.mCount)
    (hfits : GrowFits T v amount) (he : v.grow T a pos amount = some e)
    (hnone : e.1.itemLocation T pos = none) :
    e.1.mCount = v.mCount ∧ e.1.contents = v.contents ∧ Inv T e.1 := by
  obtain ⟨hcount, hleaves⟩ := h.grow hpos hfits he
  have hinv : Inv T e.1 := by
    have hinv := hleaves.inv
    rw [← hcount] at hinv
    exact hinv
  have hnew := toNat_add_of_lt hfits.1
  have hpos' := UInt32.le_iff_toNat_le.mp hpos
  have hend : v.mCount + amount ≤ pos := by
    cases hv : e.1.mStorage with
    | none =>
        rw [← hcount, hinv.empty hv]
        exact UInt32.zero_le
    | some b =>
        have hcap : ¬ pos < e.1.capacity T := fun hlt => by
          have hsome : e.1.mStorage.isSome = true := by rw [hv]; rfl
          unfold itemLocation at hnone
          rw [if_pos ⟨hlt, hsome⟩] at hnone
          cases hnone
        rw [← hcount]
        exact UInt32.le_trans hinv.count_le (UInt32.not_lt.mp hcap)
  have hend' := UInt32.le_iff_toNat_le.mp hend
  have hzero : amount = 0 := UInt32.toNat_inj.mp (by
    have hzero : (0 : UInt32).toNat = 0 := rfl
    omega)
  have hlast : pos = v.mCount := UInt32.toNat_inj.mp (by omega)
  subst hzero
  obtain ⟨e', he', rfl⟩ := Option.map_eq_some_iff.mp he
  unfold SizedVector.growStorage at he'
  dsimp only at he'
  rw [UInt32.add_zero, if_neg (UInt32.not_lt.mpr h.count_le), hlast] at he'
  obtain rfl := Option.some.inj he'
  obtain ⟨hcontents, hcount'⟩ := editArrayImpl_contents h a
  refine ⟨UInt32.add_zero _, ?_, hinv⟩
  rw [← hcontents]
  unfold setCount andThen contents
  simp only [ne_eq, not_true_eq_false, if_false, UInt32.add_zero, hcount']

theorem Inv.insertWith (h : Inv T v) (a : Answers) {index num : UInt32}
    (hfits : index ≤ v.mCount → GrowFits T v num) {fill : Block α → Block α × List Access}
    (hfill : ∀ n, index.toNat + num.toNat ≤ n → T.Inside n fill) :
    Keeps T v (v.insertWith T a fill index num) := by
  unfold SizedVector.insertWith
  split
  · exact h.failed (by decide)
  · rename_i hindex
    have hpos := UInt32.not_lt.mp hindex
    have hpos' := UInt32.le_iff_toNat_le.mp hpos
    have hgrow := hfits hpos
    have hnew := toNat_add_of_lt hgrow.1
    cases he : v.grow T a index num with
    | none => exact h.failed (by decide)
    | some e =>
        obtain ⟨hcount, hleaves⟩ := h.grow hpos hgrow he
        dsimp only
        cases hwhere : e.1.itemLocation T index with
        | none =>
            obtain ⟨hsame, hcontents, hinv⟩ := h.grow_nowhere hpos hgrow he hwhere
            exact ⟨.inl ⟨(by decide : noMemory < 0), hsame, hcontents⟩, hinv⟩
        | some location =>
            have hfilled := hleaves.onStorage (hfill _ (by omega))
            have hstill : (andThen e (SizedVector.onStorage fill)).1.mCount =
                v.mCount + num := by
              rw [← hcount]
              unfold andThen SizedVector.onStorage
              cases e.1.mStorage <;> rfl
            rw [← hstill] at hfilled
            exact hfilled.keeps _ (le_max_right _ _)

theorem Inv.removeItemsAt (h : Inv T v) (a : Answers) {index count : UInt32}
    (hfits : index + count ≤ v.mCount → index.toNat + count.toNat < 2 ^ 32 ∧ ShrinkFits T v count) :
    Keeps T v (v.removeItemsAt T a index count) ∧
      (v.mCount.toNat < index.toNat + count.toNat →
        v.removeItemsAt T a index count = ⟨badValue, v, []⟩) := by
  unfold SizedVector.removeItemsAt
  split
  · exact ⟨h.failed (by decide), fun _ => rfl⟩
  · rename_i hrange
    have hle := UInt32.not_lt.mp hrange
    obtain ⟨hlt, hshrink⟩ := hfits hle
    have hsum := toNat_add_of_lt hlt
    have hle' := UInt32.le_iff_toNat_le.mp hle
    have hinside : index.toNat + count.toNat ≤ v.mCount.toNat := by omega
    have hleaves := h.shrink a hinside hshrink
    exact ⟨hleaves.keeps _ (le_max_left _ _), fun hbeyond => by omega⟩

/-- Another value is returned for the same outcome. -/
theorem Keeps.withRet {r : SizedResult α} (h : Keeps T v r) {ret : Int32}
    (hret : r.ret < 0 → ret < 0) : Keeps T v { r with ret := ret } := by
  refine ⟨?_, h.inv⟩
  rcases h.safe with ⟨hneg, hsame⟩ | hgood
  · exact .inl ⟨hret hneg, hsame⟩
  · exact .inr hgood

theorem Inv.resize (h : Inv T v) (a : Answers) {size : UInt32}
    (hgrow : v.mCount < size → GrowFits T v (size - v.mCount))
    (hshrink : size < v.mCount → ShrinkFits T v (v.mCount - size)) :
    Keeps T v (v.resize T a size) := by
  unfold SizedVector.resize
  refine Keeps.withRet (r := if v.mCount < size then _ else if size < v.mCount then _ else _) ?_
    fun hneg => (if_pos hneg).trans_lt hneg
  split
  · rename_i hmore
    exact h.insertWith a (fun _ => hgrow hmore) fun n hn => T.fillItems_inside none hn
  · split
    · rename_i hless
      have hsub : (v.mCount - size).toNat = v.mCount.toNat - size.toNat :=
        UInt32.toNat_sub_of_le _ _ (UInt32.le_of_lt hless)
      have hless' := UInt32.lt_iff_toNat_lt.mp hless
      have hcount := v.mCount.toNat_lt
      exact (h.removeItemsAt a fun _ => ⟨by omega, hshrink hless⟩).1
    · exact h.unchanged 0

theorem Inv.setCapacity (h : Inv T v) (a : Answers) {newCapacity : UInt32}
    (hfits : 0 < (newCapacity - v.mCount).toInt32 → Fits T newCapacity v.mCount) :
    Keeps T v (v.setCapacity T a newCapacity) := by
  unfold SizedVector.setCapacity
  split
  · exact h.unchanged _
  · rename_i hmore
    cases he : v.rehouse T a newCapacity [(0, 0, v.mCount)] with
    | none => exact h.failed (by decide)
    | some e =>
        have hleaves : Leaves T v.mCount.toNat v.mCount e := by
          refine (hfits (Int32.not_le.mp hmore)).rehouse (fun p hp => ?_) he
          obtain rfl := List.mem_singleton.mp hp
          exact (Nat.zero_add _).le
        have hcount : e.1.mCount = v.mCount := by
          obtain ⟨sb, -, rfl⟩ := Option.map_eq_some_iff.mp he
          rfl
        rw [← hcount] at hleaves
        exact hleaves.keeps _ (le_max_right _ _)

theorem inv_empty : Inv T ⟨none, 0⟩ := by
  refine ⟨fun b hb => ?_, fun _ => rfl⟩
  cases hb

theorem Inv.call (h : Inv T v) {c : SizedCall α} (hc : NoWrap T v c) :
    Keeps T v (v.call T c) ∧ Rejects T v c := by
  cases c with
  | insertAt item index numItems a =>
      exact ⟨h.insertWith a hc fun n hn => T.fillItems_inside item hn, trivial⟩
  | insertArrayAt array index length a =>
      exact ⟨h.insertWith a hc fun n hn => T.doCopy_inside hn 0 array, trivial⟩
  | removeItemsAt index count a =>
      obtain ⟨hkeeps, hrejects⟩ := h.removeItemsAt a hc
      refine ⟨hkeeps, fun hbeyond => ?_⟩
      rw [SizedVector.call, hrejects hbeyond]
      exact ⟨(by decide : badValue < 0), rfl⟩
  | resize size a => exact ⟨h.resize a hc.1 hc.2, trivial⟩
  | setCapacity newCapacity a => exact ⟨h.setCapacity a hc, trivial⟩
  | clear a =>
      have hall : (0 : UInt32).toNat + v.mCount.toNat ≤ v.mCount.toNat := (Nat.zero_add _).le
      have hleaves := h.shrink a hall hc
      exact ⟨hleaves.keeps 0 (le_max_left _ _), trivial⟩
  | finishVector =>
      have hinv : Inv T ⟨none, 0⟩ := inv_empty
      exact ⟨⟨.inr ⟨hinv.fitting, fun access haccess => by cases haccess⟩, hinv⟩, trivial⟩
  | owned alone =>
      have hinv : Inv T (v.call T (.owned alone)).vec := by
        refine ⟨fun b hb => ?_, fun hnone => h.empty (Option.map_eq_none_iff.mp hnone)⟩
        obtain ⟨b', hb', rfl⟩ := Option.map_eq_some_iff.mp hb
        have hroom := h.stored b' hb'
        exact ⟨hroom.items, hroom.small, hroom.room⟩
      exact ⟨⟨.inr ⟨hinv.fitting, fun access haccess => by cases haccess⟩, hinv⟩, trivial⟩

/-! ## Runs -/

theorem inv_of_noWrap (h : (machine T).ReachWhen (NoWrap T) v) : Inv T v := by
  refine h.invariant (fun v hv => ?_) fun v c v' hinv hc hstep => ?_
  · rw [hv]
    exact inv_empty
  · obtain rfl := Option.some.inj hstep
    exact (hinv.call hc).1.inv

/-- In every run in which no size wraps, each further such call is safe, and `removeItemsAt`
rejects what is beyond the size. -/
theorem safe_of_noWrap (h : (machine T).ReachWhen (NoWrap T) v) {c : SizedCall α}
    (hc : NoWrap T v c) : Safe T v (v.call T c) ∧ Rejects T v c := by
  obtain ⟨hkeeps, hrejects⟩ := (inv_of_noWrap h).call hc
  exact ⟨hkeeps.safe, hrejects⟩

/-- Words of four bytes. -/
def words : ItemType Nat where
  traits := ⟨true, true, true, true⟩
  itemSize := 4
  itemSize_pos := by decide
  default := 0
  fresh _ := 0

/-- Memory is there. -/
def granted : Answers := ⟨true, true⟩

/-- Two items in a capacity of four. -/
def twoWords : SizedVector Nat :=
  ((⟨none, 0⟩ : SizedVector Nat).call words (.insertAt (some 5) 0 2 granted)).vec

theorem grow_twoWords : NoWrap words ⟨none, 0⟩ (.insertAt (some 5) 0 2 granted) := by
  refine fun _ => ⟨by decide, fun _ => ?_⟩
  exact ⟨by decide, by decide⟩

/-- A third item behind them. -/
theorem safe_twoWords : Safe words twoWords (twoWords.call words (.insertAt none 2 1 granted)) ∧
    Rejects words twoWords (.insertAt none 2 1 granted) := by
  have hreach : (machine words).ReachWhen (NoWrap words) twoWords :=
    .step (.init rfl) grow_twoWords rfl
  have hkept : NoWrap words twoWords (.insertAt none 2 1 granted) := by
    refine fun _ => ⟨by decide, fun hgrows => ?_⟩
    exact absurd hgrows (by decide)
  exact safe_of_noWrap hreach hkept

/-- A number of items that is removed wraps to one that is added, and a number of items that
is inserted to one that is removed, with the slots filled far behind the storage. -/
theorem wrapped_counts :
    (machine words).Reach twoWords ∧ twoWords.mCount = 2 ∧
      (twoWords.removeItemsAt words granted 1 4294967295).ret = 1 ∧
      (twoWords.removeItemsAt words granted 1 4294967295).vec.mCount = 3 ∧
      ¬ Rejects words twoWords (.removeItemsAt 1 4294967295 granted) ∧
      ¬ Safe words twoWords (twoWords.call words (.insertAt (some 6) 0 4294967295 granted)) := by
  refine ⟨.step (.init rfl) trivial rfl, by decide, by decide, by decide, fun h => ?_, ?_⟩
  · have hneg := (h (by decide)).1
    exact absurd hneg (by decide)
  · rintro (⟨hneg, -⟩ | ⟨-, hwithin⟩)
    · exact absurd hneg (by decide)
    · have hfill := hwithin (.change 0 17179869180) (by decide)
      exact absurd hfill (by decide)

end SizedVector
end Utils
end AndroidLinux
