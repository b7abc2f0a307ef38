import AndroidLinux.Binder.Growth

/-!
# What a write leaves behind

`Put r q e` says that `q` is `r` with the bytes `e` at the position, which is behind them
then.  Each of the operations that reach the buffer ends in one of few ways: `Written` for
those that return a status, and `Placed` for `writeInplace`.
-/

namespace AndroidLinux
namespace Binder

open Lib

/-- Zeros up to a multiple of four bytes. -/
def padded (bs : List UInt8) : List UInt8 :=
  bs ++ List.replicate ((bs.length + 3) / 4 * 4 - bs.length) 0

theorem padded_length (bs : List UInt8) : (padded bs).length = (bs.length + 3) / 4 * 4 := by
  rw [padded, List.length_append, List.length_replicate]
  omega

theorem length_le_padded (bs : List UInt8) : bs.length ≤ (padded bs).length := by
  rw [padded_length]
  omega

theorem padSize_toNat {len : UInt32} (h : len.toNat + 3 < 2 ^ 32) :
    (padSize len).toNat = (len.toNat + 3) / 4 * 4 :=
  toNat_add_three_and_not_three h

namespace Parcel

variable {p q r : Parcel}

/-- `q` is `r` with the bytes `e` written at the position. -/
structure Put (r q : Parcel) (e : List UInt8) : Prop where
  same : q = { r with bytes := q.bytes, mDataPos := q.mDataPos, mDataSize := q.mDataSize }
  pos : q.mDataPos.toNat = r.mDataPos.toNat + e.length
  size : q.mDataSize.toNat = max r.mDataSize.toNat q.mDataPos.toNat
  load : q.bytes.load r.mDataPos e.length = e
  frame : ∀ (off : UInt32) (n : Nat), off.toNat + n ≤ 2 ^ 32 →
    off.toNat + n ≤ r.mDataPos.toNat ∨ r.mDataPos.toNat + e.length ≤ off.toNat →
      q.bytes.load off n = r.bytes.load off n

theorem Put.sound (h : Put r q bs) (hr : r.Sound)
    (hroom : r.mDataPos.toNat + bs.length ≤ r.mDataCapacity.toNat) : q.Sound := by
  have hfits := hr.fits
  have hsize := h.size
  have hpos := h.pos
  refine ⟨?_, ?_, ?_⟩
  · rw [show q.mDataCapacity = r.mDataCapacity by rw [h.same]]
    omega
  · rw [h.same]
    exact hr.extent
  · rw [h.same]
    exact hr.null

/-- Bytes that are already behind the position become part of the data. -/
theorem put_finishWrite {e : List UInt8} {n : UInt32} {m : Mem} (hn : n.toNat = e.length)
    (hwrap : r.mDataPos.toNat + e.length < 2 ^ 32) (hload : m.load r.mDataPos e.length = e)
    (hframe : ∀ (off : UInt32) (k : Nat), off.toNat + k ≤ 2 ^ 32 →
      off.toNat + k ≤ r.mDataPos.toNat ∨ r.mDataPos.toNat + e.length ≤ off.toNat →
        m.load off k = r.bytes.load off k) :
    Put r (finishWrite { r with bytes := m } n) e := by
  have hsum : (r.mDataPos + n).toNat = r.mDataPos.toNat + e.length := by
    rw [UInt32.toNat_add, hn]
    exact Nat.mod_eq_of_lt hwrap
  refine ⟨rfl, hsum, ?_, hload, hframe⟩
  unfold finishWrite
  dsimp only
  split
  · rename_i hlt
    rw [UInt32.lt_iff_toNat_lt] at hlt
    omega
  · rename_i hge
    rw [UInt32.lt_iff_toNat_lt] at hge
    omega

theorem Sound.touch_self (hr : r.Sound) {off : UInt32} {n : Nat}
    (h : off.toNat + n ≤ r.mDataCapacity.toNat) : r.touch r.mDataCapacity off n = r := by
  refine touch_eq_self ?_
  rw [hr.extent, min_self]
  exact h

theorem Sound.storeAt_eq (hr : r.Sound) {off : UInt32} {bs : List UInt8}
    (h : off.toNat + bs.length ≤ r.mDataCapacity.toNat) :
    r.storeAt off bs = { r with bytes := r.bytes.store off bs } := by
  rw [storeAt, hr.touch_self h]

/-- Bytes are stored at the position. -/
theorem Sound.put_storeAt (hr : r.Sound) {e : List UInt8} {n : UInt32} (hn : n.toNat = e.length)
    (hroom : r.mDataPos.toNat + e.length ≤ r.mDataCapacity.toNat) :
    Put r ((r.storeAt r.mDataPos e).finishWrite n) e := by
  have hcap := r.mDataCapacity.toNat_lt
  rw [hr.storeAt_eq hroom]
  refine put_finishWrite hn (by omega) (Mem.load_store (by omega)) fun off k hk hout => ?_
  exact Mem.load_store_of_disjoint (by omega) hk hout

/-- A part of what has been written is replaced. -/
theorem Put.overwrite {a x c val : List UInt8} {off : UInt32} (h : Put r q (a ++ x ++ c))
    (hr : r.Sound) (hroom : r.mDataPos.toNat + (a ++ x ++ c).length ≤ r.mDataCapacity.toNat)
    (hoff : off.toNat = r.mDataPos.toNat + a.length) (hval : val.length = x.length) :
    Put r (q.storeAt off val) (a ++ val ++ c) := by
  have hlength : (a ++ val ++ c).length = (a ++ x ++ c).length := by
    simp [hval]
  have hload := h.load
  have hcap := r.mDataCapacity.toNat_lt
  have hqcap : q.mDataCapacity = r.mDataCapacity := by rw [h.same]
  have hq := h.sound hr hroom
  simp only [List.length_append, ← hval] at hload hroom
  have hstart : r.mDataPos + UInt32.ofNat a.length = off := by
    rw [← UInt32.toNat_inj, Mem.toNat_add_ofNat (by omega), hoff]
  have hend : r.mDataPos + UInt32.ofNat (a.length + val.length) =
      off + UInt32.ofNat val.length := by
    rw [UInt32.ofNat_add, ← UInt32.add_assoc, hstart]
  have hendNat : (off + UInt32.ofNat val.length).toNat =
      r.mDataPos.toNat + a.length + val.length := by
    rw [Mem.toNat_add_ofNat (by omega), hoff]
  rw [Mem.load_add, Mem.load_add, hstart, hend] at hload
  obtain ⟨hfront, hback⟩ := List.append_inj hload (by simp [Mem.load_length, hval])
  obtain ⟨hfirst, -⟩ := List.append_inj hfront (by simp [Mem.load_length])
  rw [hq.storeAt_eq (by rw [hqcap, hoff]; omega)]
  refine ⟨?_, ?_, h.size, ?_, ?_⟩
  · rw [h.same]
  · rw [hlength]
    exact h.pos
  · dsimp only
    rw [List.length_append, List.length_append, Mem.load_add, Mem.load_add, hstart, hend,
      Mem.load_store (by omega), Mem.load_store_of_disjoint (by omega) (by omega) (.inl (by omega)),
      hfirst, Mem.load_store_of_disjoint (by omega) (by omega) (.inr (by omega)), hback]
  · intro o k hk hout
    rw [hlength] at hout
    refine (Mem.load_store_of_disjoint (by omega) hk ?_).trans (h.frame o k hk hout)
    simp only [List.length_append, ← hval] at hout
    omega

/-! ## Operations that return a status -/

/-- How a write of `n` bytes `e` ends. -/
inductive Written (p : Parcel) (n : UInt32) (e : List UInt8) : Status × Parcel → Prop
  | stored {r q : Parcel} (hprepared : Prepared p r n) (hput : Put r q e) :
      Written p n e (noError, q)
  | failed {q : Parcel} (hlack : p.Lacks n) (hfailed : Failed p q) (hrefused : p.Refused) :
      Written p n e (noMemory, q)
  | gaveUp (hlack : p.Lacks n) (hsize : growSize p.mDataSize n ≤ p.mDataSize) :
      Written p n e (noMemory, p)

theorem writeAligned_written (hs : p.Sound) {val : List UInt8} (hval : val.length < 2 ^ 32)
    (hfit : p.Fits (UInt32.ofNat val.length)) :
    Written p (UInt32.ofNat val.length) val (writeAligned val p) := by
  have hn : (UInt32.ofNat val.length).toNat = val.length := UInt32.toNat_ofNat_of_lt' hval
  have hcases := ensure_cases hs hfit
  unfold writeAligned
  dsimp only
  generalize p.ensure _ _ = r at hcases ⊢
  cases hcases with
  | ready hprepared =>
      have hroom := hprepared.room
      rw [← hprepared.pos, hn] at hroom
      exact .stored hprepared (hprepared.put_storeAt hn hroom)
  | failed hlack hfailed hrefused => exact .failed hlack hfailed hrefused
  | gaveUp hlack hsize => exact .gaveUp hlack hsize

/-- `writeUnpadded`, when its end does not wrap. -/
theorem writeUnpadded_written (hs : p.Sound) {b : Buffer} (hfit : p.Fits b.len) :
    Written p b.len b.data (writeUnpadded b p) := by
  have hnowrap : ¬ p.mDataPos + b.len < p.mDataPos := by
    rw [UInt32.lt_iff_toNat_lt, UInt32.toNat_add, Nat.mod_eq_of_lt hfit.noWrap]
    omega
  have hcases := ensure_cases hs hfit
  unfold writeUnpadded
  dsimp only
  rw [if_neg hnowrap]
  generalize p.ensure _ _ = r at hcases ⊢
  cases hcases with
  | ready hprepared =>
      have hroom := hprepared.room
      rw [← hprepared.pos, b.len_toNat] at hroom
      exact .stored hprepared (hprepared.put_storeAt b.len_toNat hroom)
  | failed hlack hfailed hrefused => exact .failed hlack hfailed hrefused
  | gaveUp hlack hsize => exact .gaveUp hlack hsize

/-! ## `writeInplace` and its callers -/

/-- How `writeInplace` of `len` bytes ends.  The caller finds any bytes `x` in place. -/
inductive Placed (p : Parcel) (len : UInt32) : Option UInt32 × Parcel → Prop
  | placed {r q : Parcel} {x : List UInt8} (hprepared : Prepared p r (padSize len))
      (hx : x.length = len.toNat) (hput : Put r q (padded x)) :
      Placed p len (if r.mData then some r.mDataPos else none, q)
  | failed {q : Parcel} (hlack : p.Lacks (padSize len)) (hfailed : Failed p q)
      (hrefused : p.Refused) : Placed p len (none, q)
  | gaveUp (hlack : p.Lacks (padSize len))
      (hsize : growSize p.mDataSize (padSize len) ≤ p.mDataSize) : Placed p len (none, p)

/-- The mask of `writeInplace` clears the padding. -/
theorem Sound.put_maskPad (hr : r.Sound) {len : UInt32} (hlen : len.toNat + 3 < 2 ^ 32)
    (hroom : r.mDataPos.toNat + (padSize len).toNat ≤ r.mDataCapacity.toNat)
    (hne : padSize len ≠ len) :
    Put r ((r.maskPad (r.mDataPos + padSize len - 4) (padSize len - len)).finishWrite (padSize len))
      (padded (r.bytes.load r.mDataPos len.toNat)) := by
  have hcap := r.mDataCapacity.toNat_lt
  have hpad := padSize_toNat hlen
  have hx := Mem.load_length r.bytes r.mDataPos len.toNat
  have hpadded : (padded (r.bytes.load r.mDataPos len.toNat)).length = (padSize len).toNat := by
    rw [padded_length, hx, hpad]
  have hne' : (padSize len).toNat ≠ len.toNat := fun heq => hne (UInt32.toNat_inj.mp heq)
  have hk : (padSize len - len).toNat = (padSize len).toNat - len.toNat :=
    UInt32.toNat_sub_of_le _ _ (by rw [UInt32.le_iff_toNat_le]; omega)
  have hat : r.mDataPos + padSize len - 4 + 4 - (padSize len - len) =
      r.mDataPos + UInt32.ofNat len.toNat := by
    rw [UInt32.ofNat_toNat]
    grind
  have hatNat : (r.mDataPos + UInt32.ofNat len.toNat).toNat = r.mDataPos.toNat + len.toNat :=
    Mem.toNat_add_ofNat (by omega)
  have hword : (r.mDataPos + padSize len - 4).toNat + 4 =
      r.mDataPos.toNat + (padSize len).toNat := by
    have hsum : (r.mDataPos + padSize len).toNat = r.mDataPos.toNat + (padSize len).toNat := by
      rw [UInt32.toNat_add]
      exact Nat.mod_eq_of_lt (by omega)
    have hfour : (4 : UInt32).toNat = 4 := rfl
    rw [UInt32.toNat_sub_of_le _ _ (by rw [UInt32.le_iff_toNat_le]; omega), hsum]
    omega
  have hzeros : (List.replicate (padSize len - len).toNat (0 : UInt8)).length =
      (padSize len).toNat - len.toNat := by rw [List.length_replicate, hk]
  rw [maskPad, hr.touch_self (by omega), hat]
  refine put_finishWrite hpadded.symm (by omega) ?_ ?_
  · rw [padded, List.length_append, List.length_replicate, hx, Mem.load_add,
      Mem.load_store_of_disjoint (by omega) (by omega) (.inl (by omega)), ← hpad, ← hk]
    congr 1
    have hload : Mem.load (r.bytes.store (r.mDataPos + UInt32.ofNat len.toNat)
        (List.replicate (padSize len - len).toNat 0)) (r.mDataPos + UInt32.ofNat len.toNat)
        (List.replicate (padSize len - len).toNat (0 : UInt8)).length =
          List.replicate (padSize len - len).toNat 0 := Mem.load_store (by omega)
    rwa [List.length_replicate] at hload
  · intro off n hn hout
    refine Mem.load_store_of_disjoint (by omega) hn ?_
    rw [hpadded] at hout
    omega

theorem writeInplace_placed (hs : p.Sound) {len : UInt32} (hlen : len.toNat + 3 < 2 ^ 32)
    (hfit : p.Fits (padSize len)) : Placed p len (p.writeInplace len) := by
  have hpad := padSize_toNat hlen
  have hnowrap : ¬ p.mDataPos + padSize len < p.mDataPos := by
    rw [UInt32.lt_iff_toNat_lt, UInt32.toNat_add, Nat.mod_eq_of_lt hfit.noWrap]
    omega
  have hcases := ensure_cases hs hfit
  unfold writeInplace
  dsimp only
  rw [if_neg hnowrap]
  generalize p.ensure _ _ = r at hcases ⊢
  cases hcases with
  | @ready r hprepared =>
      have hroom := hprepared.room
      rw [← hprepared.pos] at hroom
      have hcap := r.mDataCapacity.toNat_lt
      have hx := Mem.load_length r.bytes r.mDataPos len.toNat
      rw [if_pos rfl]
      by_cases hne : padSize len ≠ len
      · -- the last word is masked, the padding is zero
        have hput := hprepared.put_maskPad hlen hroom hne
        simp only [if_pos hne]
        have hmData :
            (r.maskPad (r.mDataPos + padSize len - 4) (padSize len - len)).mData = r.mData := by
          show (r.touch _ _ _).mData = r.mData
          rw [framed_touch r _ _ _]
        rw [hmData]
        exact .placed hprepared hx hput
      · -- the length is a multiple of 4
        have heq : padSize len = len := not_not.mp hne
        have hnone : padded (r.bytes.load r.mDataPos len.toNat) =
            r.bytes.load r.mDataPos len.toNat := by
          have hzero : (len.toNat + 3) / 4 * 4 - len.toNat = 0 := by
            rw [← hpad, heq, Nat.sub_self]
          rw [padded, hx, hzero]
          exact List.append_nil _
        simp only [if_neg hne]
        refine .placed hprepared hx ?_
        rw [hnone]
        refine put_finishWrite (m := r.bytes) ?_ ?_ ?_ (fun _ _ _ _ => rfl)
        · rw [hx, heq]
        · rw [hx, ← heq]
          omega
        · rw [hx]
  | failed hlack hfailed hrefused => exact .failed hlack hfailed hrefused
  | gaveUp hlack hsize => exact .gaveUp hlack hsize

/-- How a write ends that fills what `writeInplace` returns, and returns `mError` when this
is `NULL`. -/
inductive Filled (p : Parcel) (n : UInt32) (e : List UInt8) : Status × Parcel → Prop
  | stored {r q : Parcel} (hprepared : Prepared p r n) (hput : Put r q e) :
      Filled p n e (noError, q)
  | nothing {r q : Parcel} (hprepared : Prepared p r n) (hput : Put r q e) (he : e = [])
      (hmData : r.mData = false) : Filled p n e (q.mError, q)
  | failed {q : Parcel} (hlack : p.Lacks n) (hfailed : Failed p q) (hrefused : p.Refused) :
      Filled p n e (q.mError, q)
  | gaveUp (hlack : p.Lacks n) (hsize : growSize p.mDataSize n ≤ p.mDataSize) :
      Filled p n e (p.mError, p)

theorem padSize_eq_zero {len : UInt32} (hlen : len.toNat + 3 < 2 ^ 32) (h : padSize len = 0) :
    len.toNat = 0 := by
  have hpad := padSize_toNat hlen
  rw [h] at hpad
  have hzero : (0 : UInt32).toNat = 0 := rfl
  omega

theorem write_filled (hs : p.Sound) {b : Buffer} (hlen : b.data.length + 3 < 2 ^ 32)
    (hfit : p.Fits (padSize b.len)) : Filled p (padSize b.len) (padded b.data) (write b p) := by
  have hblen : b.len.toNat + 3 < 2 ^ 32 := by rwa [b.len_toNat]
  have hplaced := writeInplace_placed hs hblen hfit
  unfold write
  generalize p.writeInplace b.len = w at hplaced ⊢
  cases hplaced with
  | @placed r q x hprepared hx hput =>
      rw [b.len_toNat] at hx
      cases hmData : r.mData with
      | true =>
          have hroom := hprepared.room
          rw [← hprepared.pos, padSize_toNat hblen, b.len_toNat, ← hx, ← padded_length] at hroom
          rw [padded, ← List.nil_append x] at hput hroom
          have hover : Put r (q.storeAt r.mDataPos b.data)
              ([] ++ b.data ++ List.replicate ((x.length + 3) / 4 * 4 - x.length) 0) :=
            hput.overwrite hprepared.toSound hroom rfl hx.symm
          rw [List.nil_append, hx] at hover
          exact .stored hprepared hover
      | false =>
          -- nothing is written to a Parcel without a buffer
          have hzero : padSize b.len = 0 := by
            by_contra hne
            rw [hprepared.mData hne] at hmData
            cases hmData
          have hnil : b.data = [] := by
            rw [← List.length_eq_zero_iff, ← b.len_toNat]
            exact padSize_eq_zero hblen hzero
          obtain rfl : x = [] := by
            rw [← List.length_eq_zero_iff, hx, hnil]
            rfl
          rw [hnil]
          exact .nothing hprepared hput rfl hmData
  | failed hlack hfailed hrefused => exact .failed hlack hfailed hrefused
  | gaveUp hlack hsize => exact .gaveUp hlack hsize

theorem unitBytes_length (units : List UInt16) : (unitBytes units).length = 2 * units.length := by
  induction units with
  | nil => rfl
  | cons u units ih =>
      have hcons : unitBytes (u :: units) = leBytes 2 u.toNat ++ unitBytes units := rfl
      rw [hcons, List.length_append, leBytes_length, ih, List.length_cons]
      omega

/-- The size of UTF-16 text with its terminator. -/
theorem units_size {units : List UInt16} {len : UInt32} (hunits : len.toNat = units.length)
    (hlen : 2 * units.length + 2 < 2 ^ 32) : (len * 2 + 2).toNat = 2 * units.length + 2 := by
  have hmul : (len * 2).toNat = 2 * units.length := by
    rw [UInt32.toNat_mul, hunits]
    exact (Nat.mod_eq_of_lt (by simp; omega)).trans (Nat.mul_comm _ _)
  rw [UInt32.toNat_add, hmul]
  exact Nat.mod_eq_of_lt (by simp; omega)

theorem writeUnits_filled (hs : p.Sound) {units : List UInt16} {len : UInt32}
    (hunits : len.toNat = units.length) (hlen : 2 * units.length + 5 < 2 ^ 32)
    (hfit : p.Fits (padSize (len * 2 + 2))) :
    Filled p (padSize (len * 2 + 2)) (padded (unitBytes units ++ [0, 0]))
      (writeUnits units len p) := by
  have hmul : (len * 2).toNat = 2 * units.length := by
    rw [UInt32.toNat_mul, hunits]
    exact (Nat.mod_eq_of_lt (by simp; omega)).trans (Nat.mul_comm _ _)
  have hsum := units_size hunits (by omega)
  have hbytes := unitBytes_length units
  have htake : (unitBytes units).take (len * 2).toNat = unitBytes units :=
    List.take_of_length_le (by omega)
  have hroomy : (len * 2 + 2).toNat + 3 < 2 ^ 32 := by omega
  have hpad := padSize_toNat hroomy
  have hplaced := writeInplace_placed hs (by omega) hfit
  unfold writeUnits
  dsimp only
  generalize p.writeInplace (len * 2 + 2) = w at hplaced ⊢
  cases hplaced with
  | @placed r q x hprepared hx hput =>
      have hmData : r.mData = true := by
        refine hprepared.mData fun hzero => ?_
        have hnone := padSize_eq_zero hroomy hzero
        omega
      have hroom := hprepared.room
      rw [← hprepared.pos, hpad] at hroom
      have hcap := r.mDataCapacity.toNat_lt
      rw [hmData, if_pos rfl, htake]
      -- first the units, then the terminator
      have hsplit : padded x = [] ++ x.take (2 * units.length) ++ (x.drop (2 * units.length) ++
          List.replicate ((x.length + 3) / 4 * 4 - x.length) 0) := by
        rw [List.nil_append, ← List.append_assoc, List.take_append_drop, padded]
      have hlength := padded_length x
      rw [hsplit] at hput hlength
      have hat : (r.mDataPos + len * 2).toNat = r.mDataPos.toNat + (unitBytes units).length := by
        rw [UInt32.toNat_add, hmul, hbytes]
        exact Nat.mod_eq_of_lt (by omega)
      have hfirst : Put r (q.storeAt r.mDataPos (unitBytes units)) ([] ++ unitBytes units ++
          (x.drop (2 * units.length) ++
            List.replicate ((x.length + 3) / 4 * 4 - x.length) 0)) :=
        hput.overwrite hprepared.toSound (by omega) rfl (by simp; omega)
      rw [List.nil_append, ← List.append_assoc] at hfirst
      have hsecond : Put r
          ((q.storeAt r.mDataPos (unitBytes units)).storeAt (r.mDataPos + len * 2) [0, 0])
          (unitBytes units ++ [0, 0] ++
            List.replicate ((x.length + 3) / 4 * 4 - x.length) 0) :=
        hfirst.overwrite hprepared.toSound (by simp; omega) hat (by simp; omega)
      have hlast : (unitBytes units ++ [0, 0]).length = x.length := by
        rw [List.length_append, hbytes, hx, hsum]
        rfl
      refine .stored hprepared ?_
      rw [padded, hlast]
      exact hsecond
  | failed hlack hfailed hrefused => exact .failed hlack hfailed hrefused
  | gaveUp hlack hsize => exact .gaveUp hlack hsize

end Parcel
end Binder
end AndroidLinux
