import AndroidLinux.Cutils.PtrArray

/-!
# The array of pointers is a list

An array keeps its size within its capacity, and the capacity within `MAX_CAPACITY`, where no
product overflows.  The entries that `arraySetSize` clears are the new ones only where the array
was empty: the offset is scaled by the size of a pointer twice.
-/

namespace AndroidLinux
namespace Cutils

open Lib

variable {P : Type*} [Zero P] (abi : Abi)

/-! ## The capacity -/

theorem Abi.maxCapacity_bounds : 4 ≤ abi.maxCapacity ∧ abi.maxCapacity < 2 ^ 30 := by
  cases abi <;> decide

/-- The product does not overflow. -/
theorem doubledCapacity_eq {newCapacity : Int} (hpos : 0 < newCapacity)
    (hle : newCapacity ≤ abi.maxCapacity) :
    doubledCapacity abi newCapacity =
      if abi.maxCapacity < newCapacity * 2 then abi.maxCapacity else newCapacity * 2 := by
  have hmax := abi.maxCapacity_bounds.2
  have hbmod : Int.bmod (newCapacity * 2) (2 ^ 32) = newCapacity * 2 :=
    Int.bmod_eq_of_le (by omega) (by omega)
  have hgrow : ¬ newCapacity * 2 < newCapacity := by omega
  simp only [doubledCapacity, hbmod, hgrow, false_or]

/-- The loop ends within as many passes as doubling takes to reach the greatest capacity. -/
theorem capacityLoop_spec {capacity : Int} (hcapacity : capacity ≤ abi.maxCapacity) (d : Nat)
    (newCapacity : Int) (hpos : 0 < newCapacity) (hle : newCapacity ≤ abi.maxCapacity)
    (hd : abi.maxCapacity ≤ newCapacity * 2 ^ d) :
    ∃ r, capacityLoop abi capacity (d + 1) newCapacity = some r ∧
      newCapacity ≤ r ∧ capacity ≤ r ∧ r ≤ abi.maxCapacity := by
  induction d generalizing newCapacity with
  | zero =>
      have hstop : ¬ newCapacity < capacity := by omega
      exact ⟨newCapacity, by rw [capacityLoop, if_neg hstop], Int.le_refl _, by omega, hle⟩
  | succ d ih =>
      rw [capacityLoop]
      by_cases hlt : newCapacity < capacity
      · rw [if_pos hlt, doubledCapacity_eq abi hpos hle]
        have hpow : (0 : Int) < 2 ^ d := Int.pow_pos (by decide)
        split
        · obtain ⟨r, hr, hmin, hcap, hmax⟩ := ih abi.maxCapacity (by omega)
            (Int.le_refl _) (by nlinarith)
          exact ⟨r, hr, by omega, hcap, hmax⟩
        · obtain ⟨r, hr, hmin, hcap, hmax⟩ := ih (newCapacity * 2) (by omega)
            (by omega) (by rw [Int.pow_succ] at hd; linarith)
          exact ⟨r, hr, by omega, hcap, hmax⟩
      · rw [if_neg hlt]
        exact ⟨newCapacity, rfl, Int.le_refl _, by omega, hle⟩

namespace PtrArray

/-- What holds between the calls. -/
structure Inv (array : PtrArray P) : Prop where
  size_nonneg : 0 ≤ array.size
  size_le : array.size ≤ array.capacity
  capacity_le : array.capacity ≤ abi.maxCapacity
  backed : 0 < array.capacity → array.contents.isSome

variable {abi} {array : PtrArray P} {memory : Allocator P}

/-- `ensureCapacity` either fails and changes nothing, or makes room and keeps the entries. -/
inductive Ensured (abi : Abi) (array : PtrArray P) (memory : Allocator P)
    (capacity : Int) : Int × PtrArray P → Prop
  | fails (hroom : array.capacity < capacity)
      (hcause : memory.granted = false ∨ abi.maxCapacity < capacity) :
      Ensured abi array memory capacity (-1, array)
  | succeeds {array' : PtrArray P} (hinv : array'.Inv abi) (hsize : array'.size = array.size)
      (hroom : capacity ≤ array'.capacity)
      (hgranted : array.capacity < capacity → memory.granted = true ∧ capacity ≤ abi.maxCapacity)
      (hkeeps : ∀ i < array.size, array'.read i = array.read i) :
      Ensured abi array memory capacity (0, array')

theorem ensureCapacity_spec (h : array.Inv abi) (memory : Allocator P) (capacity : Int) :
    ∃ r, array.ensureCapacity abi memory capacity = some r ∧
      Ensured abi array memory capacity r := by
  have hbounds := abi.maxCapacity_bounds
  have hnonneg := h.size_nonneg
  have hsize := h.size_le
  have hcap := h.capacity_le
  unfold ensureCapacity
  dsimp only
  split
  · rename_i hroom
    split
    · rename_i hmax
      exact ⟨_, rfl, .fails hroom (.inr hmax)⟩
    · rename_i hmax
      obtain ⟨r, hr, hmin, hle, hrmax⟩ := capacityLoop_spec abi (Int.not_lt.mp hmax) 31
        (if array.capacity = 0 then initialArrayCapacity else array.capacity)
        (by unfold initialArrayCapacity; split <;> omega)
        (by unfold initialArrayCapacity; split <;> omega)
        (by unfold initialArrayCapacity; split <;> omega)
      rw [hr, Option.map_some, if_neg (by omega)]
      refine ⟨_, rfl, ?_⟩
      split
      · rename_i hgranted
        refine .succeeds ⟨hnonneg, ?_, hrmax, fun _ => rfl⟩ rfl hle
          (fun _ => ⟨hgranted, by omega⟩) fun i hi => ?_
        · change array.size ≤ r
          omega
        · exact if_pos (by omega : i < array.capacity)
      · rename_i hgranted
        exact .fails hroom (.inl (by simpa using hgranted))
  · rename_i hroom
    exact ⟨_, rfl, .succeeds h rfl (by omega) (fun hlt => absurd hlt hroom) fun _ _ => rfl⟩

/-! ## The list -/

omit [Zero P] in
@[simp] theorem size_update (f : (Int → P) → Int → P) (size : Int) :
    (array.update f size).size = size := rfl

omit [Zero P] in
@[simp] theorem capacity_update (f : (Int → P) → Int → P) (size : Int) :
    (array.update f size).capacity = array.capacity := rfl

omit [Zero P] in
/-- A call that succeeds keeps the invariant if the new size fits. -/
theorem Inv.update (h : array.Inv abi) {f : (Int → P) → Int → P} {size : Int} (hpos : 0 ≤ size)
    (hle : size ≤ array.capacity) : (array.update f size).Inv abi where
  size_nonneg := hpos
  size_le := hle
  capacity_le := h.capacity_le
  backed hcap := by
    rw [PtrArray.update, Option.isSome_map]
    exact h.backed hcap

theorem read_update (h : array.Inv abi) (hcap : 0 < array.capacity) (f : (Int → P) → Int → P)
    (size i : Int) : (array.update f size).read i = f array.read i := by
  obtain ⟨contents, hcontents⟩ := Option.isSome_iff_exists.mp (h.backed hcap)
  have hread : array.read = contents := by
    funext j
    rw [read, hcontents]
  rw [hread, read, update, hcontents]
  rfl

theorem length_toList (h : array.Inv abi) : (array.toList.length : Int) = array.size := by
  rw [toList, List.length_map, List.length_range]
  exact Int.toNat_of_nonneg h.size_nonneg

theorem getElem_toList {i : Nat} (hi : i < array.toList.length) :
    array.toList[i] = array.read i := by
  simp only [toList, List.getElem_map, List.getElem_range]

theorem toList_eq {l : List P} (hsize : array.size = l.length)
    (hread : ∀ i (hi : i < l.length), array.read i = l[i]) : array.toList = l := by
  have hlen : array.toList.length = l.length := by
    rw [toList, List.length_map, List.length_range, hsize, Int.toNat_natCast]
  exact List.ext_getElem hlen fun i _ hi => (getElem_toList _).trans (hread i hi)

/-- What a call has to show: it returns, keeps the invariant, refines the call on the list, and
writes within the capacity. -/
structure Kept (abi : Abi) (array : PtrArray P) (memory : Allocator P) (c : ArrayCall P)
    (outcome : ArrayOutcome P) : Prop where
  inv : outcome.array.Inv abi
  refines : ListCall abi.maxCapacity memory.granted array.toList c outcome.result
    outcome.array.toList
  within : outcome.written.1 < outcome.written.2 →
    0 ≤ outcome.written.1 ∧ outcome.written.2 ≤ outcome.array.capacity

theorem arrayAdd_kept (h : array.Inv abi) (memory : Allocator P) (pointer : P) :
    ∃ outcome, array.arrayAdd abi memory pointer = some outcome ∧
      Kept abi array memory (.add pointer) outcome := by
  have hlen := length_toList h
  obtain ⟨r, hr, hensured⟩ := ensureCapacity_spec h memory (array.size + 1)
  rw [arrayAdd, hr, Option.map_some]
  refine ⟨_, rfl, ?_⟩
  cases hensured with
  | fails hroom hcause =>
      dsimp only
      rw [if_pos (by decide)]
      exact ⟨h, .addFails _ _ (hlen ▸ hcause), fun hlt => absurd hlt (Int.lt_irrefl 0)⟩
  | @succeeds array' hinv hsize hroom hgranted hkeeps =>
      have hpos := h.size_nonneg
      dsimp only
      rw [if_neg (by decide), hsize]
      refine ⟨hinv.update (by omega) hroom, ?_, fun _ => ⟨hpos, hroom⟩⟩
      have hnew : (array'.update (fun old i => if i = array.size then pointer else old i)
          (array.size + 1)).toList = array.toList ++ [pointer] := by
        refine toList_eq ?_ fun i hi => ?_
        · rw [size_update, List.length_append, List.length_singleton]
          push_cast
          omega
        · rw [read_update hinv (by omega)]
          rw [List.length_append, List.length_singleton] at hi
          by_cases hlast : i < array.toList.length
          · rw [if_neg (by omega), List.getElem_append_left hlast, getElem_toList,
              hkeeps i (by omega)]
          · rw [if_pos (by omega), List.getElem_append_right (by omega), List.getElem_singleton]
      exact hnew ▸ .add _ _

/-- An index that `checkBounds` lets pass is one of the list. -/
theorem exists_index (h : array.Inv abi) {index : Int} (hindex : 0 ≤ index ∧ index < array.size) :
    ∃ i : Nat, index = i ∧ i < array.toList.length ∧ array.checkBounds index := by
  have hlen := length_toList h
  exact ⟨index.toNat, by omega, by omega, hindex.2, hindex.1⟩

theorem arrayGet_kept (h : array.Inv abi) (memory : Allocator P) {index : Int}
    (hindex : 0 ≤ index ∧ index < array.size) :
    ∃ outcome, array.arrayGet index = some outcome ∧
      Kept abi array memory (.get index) outcome := by
  obtain ⟨i, rfl, hi, hcheck⟩ := exists_index h hindex
  rw [arrayGet, if_pos hcheck, ← getElem_toList hi]
  exact ⟨_, rfl, h, .get _ i hi, fun hlt => absurd hlt (Int.lt_irrefl 0)⟩

theorem arraySet_kept (h : array.Inv abi) (memory : Allocator P) {index : Int}
    (hindex : 0 ≤ index ∧ index < array.size) (pointer : P) :
    ∃ outcome, array.arraySet index pointer = some outcome ∧
      Kept abi array memory (.set index pointer) outcome := by
  have hlen := length_toList h
  have hle := h.size_le
  obtain ⟨i, rfl, hi, hcheck⟩ := exists_index h hindex
  rw [arraySet, if_pos hcheck, ← getElem_toList hi]
  refine ⟨_, rfl, h.update h.size_nonneg hle, ?_, fun _ => ⟨hindex.1, ?_⟩⟩
  · have hnew : (array.update (fun old j => if j = i then pointer else old j) array.size).toList =
        array.toList.set i pointer := by
      refine toList_eq ?_ fun j hj => ?_
      · rw [List.length_set]
        exact hlen.symm
      · rw [List.length_set] at hj
        rw [read_update h (by omega), List.getElem_set]
        by_cases heq : i = j
        · rw [if_pos (by omega), if_pos heq]
        · rw [if_neg (by omega), if_neg heq, getElem_toList]
    exact hnew ▸ .set _ i pointer hi
  · dsimp only
    rw [capacity_update]
    omega

theorem arrayRemove_kept (h : array.Inv abi) (memory : Allocator P) {index : Int}
    (hindex : 0 ≤ index ∧ index < array.size) :
    ∃ outcome, array.arrayRemove index = some outcome ∧
      Kept abi array memory (.remove index) outcome := by
  have hlen := length_toList h
  have hle := h.size_le
  obtain ⟨i, rfl, hi, hcheck⟩ := exists_index h hindex
  rw [arrayRemove, if_pos hcheck, ← getElem_toList hi]
  refine ⟨_, rfl, h.update (by omega) (by omega), ?_, fun _ => ⟨hindex.1, ?_⟩⟩
  · have hnew : (array.update (fun old j =>
        if i ≤ j ∧ j < array.size - 1 then old (j + 1) else old j) (array.size - 1)).toList =
        array.toList.eraseIdx i := by
      refine toList_eq ?_ fun j hj => ?_
      · rw [size_update, List.length_eraseIdx_of_lt hi]
        omega
      · rw [List.length_eraseIdx_of_lt hi] at hj
        rw [read_update h (by omega), List.getElem_eraseIdx]
        by_cases hbefore : j < i
        · rw [if_neg (by omega), dif_pos hbefore, getElem_toList]
        · rw [if_pos (by omega), dif_neg hbefore, getElem_toList]
          rfl
    exact hnew ▸ .remove _ i hi
  · dsimp only
    rw [capacity_update]
    omega

/-- Where the array is empty, the entries that are cleared are the new ones. -/
theorem arraySetSize_kept (h : array.Inv abi) {newSize : Int} (hnew : 0 ≤ newSize)
    (hclears : array.ClearsFromStart abi (memory, .setSize newSize)) :
    ∃ outcome, array.arraySetSize abi memory newSize = some outcome ∧
      Kept abi array memory (.setSize newSize) outcome := by
  have hlen := length_toList h
  have hle := h.size_le
  obtain ⟨n, rfl⟩ := Int.eq_ofNat_of_zero_le hnew
  rw [arraySetSize, if_pos hnew]
  dsimp only
  split
  · rename_i hgrow
    obtain ⟨r, hr, hensured⟩ := ensureCapacity_spec h memory n
    rw [hr, Option.map_some]
    refine ⟨_, rfl, ?_⟩
    cases hensured with
    | fails hroom hcause =>
        dsimp only
        rw [if_pos (by decide)]
        exact ⟨h, .setSizeFails _ n (by omega) hcause, fun hlt => absurd hlt (Int.lt_irrefl 0)⟩
    | @succeeds array' hinv hsize hroom hgranted hkeeps =>
        have hcap := h.capacity_le
        have hempty : array.size = 0 := by
          rcases hclears n rfl hgrow with hzero | hmax | ⟨hlt, hrefused⟩
          · exact hzero
          · have := (hgranted (by omega)).2
            omega
          · rw [(hgranted hlt).1] at hrefused
            cases hrefused
        dsimp only
        rw [if_neg (by decide), hempty, Int.mul_zero, Int.zero_add, Int.sub_zero]
        refine ⟨hinv.update hnew hroom, ?_, fun _ => ⟨Int.le_refl 0, hroom⟩⟩
        have hzeros : (array'.update (fun old i => if 0 ≤ i ∧ i < (n : Int) then 0 else old i)
            n).toList = array.toList.take n ++ List.replicate (n - array.toList.length) 0 := by
          have hnil : array.toList = [] := List.eq_nil_of_length_eq_zero (by omega)
          rw [hnil, List.take_nil, List.nil_append, List.length_nil, Nat.sub_zero]
          refine toList_eq ?_ fun i hi => ?_
          · rw [List.length_replicate]
            rfl
          · rw [List.length_replicate] at hi
            rw [read_update hinv (by omega), if_pos (by omega), List.getElem_replicate]
        exact hzeros ▸ .setSize _ n
  · rename_i hshrink
    have hfits : (n : Int) ≤ array.capacity := by omega
    refine ⟨_, rfl, ⟨hnew, hfits, h.capacity_le, h.backed⟩, ?_,
      fun hlt => absurd hlt (Int.lt_irrefl 0)⟩
    have htake : toList { array with size := (n : Int) } =
        array.toList.take n ++ List.replicate (n - array.toList.length) 0 := by
      rw [Nat.sub_eq_zero_of_le (by omega), List.replicate_zero, List.append_nil]
      refine toList_eq ?_ fun i hi => ?_
      · rw [List.length_take, Nat.min_eq_left (by omega)]
      · rw [List.getElem_take, getElem_toList]
        rfl
    exact htake ▸ .setSize _ n

/-! ## Runs -/

theorem call_kept (h : array.Inv abi) (memory : Allocator P) {c : ArrayCall P}
    (hc : c.InRange array.size) (hclears : array.ClearsFromStart abi (memory, c)) :
    ∃ outcome, array.call abi memory c = some outcome ∧ Kept abi array memory c outcome := by
  cases c with
  | add pointer => exact arrayAdd_kept h memory pointer
  | get index => exact arrayGet_kept h memory hc
  | remove index => exact arrayRemove_kept h memory hc
  | set index pointer => exact arraySet_kept h memory hc pointer
  | setSize newSize => exact arraySetSize_kept h hc hclears

/-- The assertions let no other call pass. -/
theorem inRange_of_call {c : ArrayCall P} {outcome : ArrayOutcome P}
    (h : array.call abi memory c = some outcome) : c.InRange array.size := by
  cases c with
  | add pointer => trivial
  | get index => exact (Option.ite_none_right_eq_some.mp h).1.symm
  | remove index => exact (Option.ite_none_right_eq_some.mp h).1.symm
  | set index pointer => exact (Option.ite_none_right_eq_some.mp h).1.symm
  | setSize newSize => exact (Option.ite_none_right_eq_some.mp h).1

theorem inv_of_reachWhen
    (hreach : (machine abi P).ReachWhen (ClearsFromStart abi) array) : array.Inv abi := by
  refine hreach.invariant (fun array hinit => ?_) fun array action array' h hclears hstep => ?_
  · obtain rfl : array = ⟨none, 0, 0⟩ := hinit
    have hmax := abi.maxCapacity_bounds.1
    exact ⟨Int.le_refl 0, Int.le_refl 0, by change 0 ≤ abi.maxCapacity; omega,
      fun hcap => absurd hcap (Int.lt_irrefl 0)⟩
  · obtain ⟨outcome, houtcome, rfl⟩ := Option.map_eq_some_iff.mp hstep
    obtain ⟨outcome', houtcome', hkept⟩ :=
      call_kept h action.1 (inRange_of_call houtcome) hclears
    obtain rfl := Option.some.inj (houtcome.symm.trans houtcome')
    exact hkept.inv

variable (abi) in
/-- The array behaves as a list as long as no entries are cleared behind the first one. -/
theorem refinesList_of_clearsFromStart (P : Type*) [Zero P] :
    RefinesList abi P (ClearsFromStart abi) := by
  intro array hreach
  have hinv := inv_of_reachWhen hreach
  refine ⟨hinv.size_le, fun memory c hc hclears => ?_⟩
  obtain ⟨outcome, hcall, hkept⟩ := call_kept hinv memory hc hclears
  exact ⟨outcome, hcall, hkept.refines, hkept.within⟩

example : ((machine .lp64 Nat).run ⟨none, 0, 0⟩ [(⟨true, fun _ => 9⟩, .setSize 2),
    (⟨true, fun _ => 9⟩, .add 5), (⟨false, fun _ => 9⟩, .remove 0)]).map toList =
      some [0, 5] := by decide

/-- A new array after `arrayAdd` of 7, where `malloc` has left 9 in the entries. -/
def sevenAdded : PtrArray Nat :=
  ⟨some fun i => if i = 0 then 7 else if i < 0 then 0 else 9, 1, 4⟩

/-- The size is set from 1 to 2: the second entry keeps what `malloc` left in it, and the entry
behind the capacity is cleared. -/
theorem second_entry_not_cleared :
    (sevenAdded.call .ilp32 ⟨true, fun _ => 9⟩ (.setSize 2)).map
        (fun o => (o.array.toList, o.written)) = some ([7, 9], 4, 5) ∧
      ¬ RefinesList .ilp32 Nat fun _ _ => True := by
  refine ⟨by decide, fun h => ?_⟩
  have hreach : (machine .ilp32 Nat).ReachWhen (fun _ _ => True) sevenAdded :=
    .step (.init rfl) (a := (⟨true, fun _ => 9⟩, .add 7)) trivial rfl
  obtain ⟨outcome, hcall, -, hwithin⟩ :=
    (h _ hreach).2 ⟨true, fun _ => 9⟩ (.setSize 2) (by change 0 ≤ (2 : Int); decide) trivial
  obtain rfl := Option.some.inj hcall
  have hbounds := hwithin (by decide)
  exact absurd hbounds.2 (by decide)

end PtrArray
end Cutils
end AndroidLinux
