import AndroidLinux.Binder.Growth

/-!
# The objects of an appended part

The loop of `appendFrom` lists the objects one by one, and puts a duplicate in the place of
each descriptor.  It is described by what it leaves alone (`adopt_fields`) and, where no
object overlaps one of a descriptor, by the bytes it replaces (`adopt_bytes`).
-/

namespace AndroidLinux
namespace Binder

open Lib

/-- The object of a descriptor with a duplicate in its place, which the Parcel owns. -/
def FlatBinderObject.duplicated (o : FlatBinderObject) (fd : Int32) : FlatBinderObject :=
  { o with binder := fd.toUInt32, cookie := 1 }

namespace Parcel

variable {q r : Parcel}

/-- The objects of descriptors. -/
def fdsAmong (p : Parcel) (offs : List UInt32) : List UInt32 :=
  offs.filter fun off => (p.flatAt off).type = binderTypeFd

/-- What one pass of the loop does. -/
structure Adopts (q r : Parcel) (off : UInt32) : Prop where
  pos : r.mDataPos = q.mDataPos
  size : r.mDataSize = q.mDataSize
  cap : r.mDataCapacity = q.mDataCapacity
  allow : r.mAllowFds = q.mAllowFds
  mObjects : r.mObjects = q.mObjects ++ [off]
  bytes : r.bytes = if (q.flatAt off).type = binderTypeFd then
      q.bytes.store off
        ((q.flatAt off).duplicated (max (q.proc.answers.dup 0) (-1))).toBytes
    else q.bytes
  dup : r.proc.answers.dup = if (q.flatAt off).type = binderTypeFd then
      fun k => q.proc.answers.dup (k + 1)
    else q.proc.answers.dup

theorem framed_storeAt (a : Parcel) (off : UInt32) (bs : List UInt8) :
    Framed { a with bytes := a.bytes.store off bs } (a.storeAt off bs) := by
  have htouch := framed_touch a a.mDataCapacity off bs.length
  unfold storeAt
  unfold Framed at htouch ⊢
  rw [htouch]

/-- An object is replaced, and a descriptor is held unless there is none. -/
theorem framed_replace (a : Parcel) (off : UInt32) (bs : List UInt8) (c : Prop) [Decidable c]
    (x : Resource) :
    Framed { a.shiftDup with bytes := a.bytes.store off bs }
      (if c then a.shiftDup.storeAt off bs else (a.shiftDup.storeAt off bs).hold x) := by
  split
  · exact framed_storeAt a.shiftDup off bs
  · exact (framed_storeAt a.shiftDup off bs).trans (framed_hold _ x)

theorem appendObject_spec (off : UInt32) (s : Status) (q : Parcel) :
    Adopts q (appendObject off (s, q)).2 off ∧
      (appendObject off (s, q)).1 =
        if (q.flatAt off).type = binderTypeFd ∧ q.mAllowFds = false then fdsNotAllowed else s := by
  have htouch := framed_touch (q.pushObject off) q.mDataCapacity off 16
  have hflat : ((q.pushObject off).touch q.mDataCapacity off 16).flatAt off = q.flatAt off := by
    unfold flatAt
    rw [htouch]
    rfl
  have hacquire := htouch.trans (framed_acquireObject (q.flatAt off) _)
  unfold appendObject
  dsimp only
  rw [hflat]
  generalize acquireObject (q.flatAt off) _ = a at hacquire ⊢
  have hdup : a.proc.answers.dup = q.proc.answers.dup := by
    rw [hacquire]
    rfl
  by_cases hfd : (q.flatAt off).type = binderTypeFd
  · rw [if_pos hfd, hdup]
    have hheld := framed_replace a off
      ((q.flatAt off).duplicated (max (q.proc.answers.dup 0) (-1))).toBytes
      (max (q.proc.answers.dup 0) (-1) < 0) (.fd (max (q.proc.answers.dup 0) (-1)).toUInt32)
    unfold FlatBinderObject.duplicated at hheld
    generalize ite (max (q.proc.answers.dup 0) (-1) < 0) (a.shiftDup.storeAt off _) _ = b
      at hheld ⊢
    have hallow : b.mAllowFds = q.mAllowFds := by
      rw [hheld, hacquire]
      rfl
    refine ⟨?_, by cases h : q.mAllowFds <;> simp [hfd, hallow, h]⟩
    rw [hheld, hacquire]
    exact ⟨rfl, rfl, rfl, rfl, rfl, by rw [if_pos hfd]; rfl, by rw [if_pos hfd]; rfl⟩
  · rw [if_neg hfd]
    refine ⟨?_, by simp [hfd]⟩
    rw [hacquire]
    exact ⟨rfl, rfl, rfl, rfl, rfl, by rw [if_neg hfd]; rfl, by rw [if_neg hfd]; rfl⟩

/-- The loop of `appendFrom`. -/
def adopt (r : Status × Parcel) (offs : List UInt32) : Status × Parcel :=
  offs.foldl (fun r off => appendObject off r) r

theorem adopt_cons (r : Status × Parcel) (off : UInt32) (offs : List UInt32) :
    adopt r (off :: offs) = adopt (appendObject off r) offs :=
  rfl

/-- The loop lists all objects and leaves the buffer in its place. -/
theorem adopt_fields (offs : List UInt32) (s : Status) (q : Parcel) :
    (adopt (s, q) offs).2.mDataSize = q.mDataSize ∧
      (adopt (s, q) offs).2.mDataPos = q.mDataPos ∧
      (adopt (s, q) offs).2.mDataCapacity = q.mDataCapacity ∧
      (adopt (s, q) offs).2.mObjects = q.mObjects ++ offs := by
  induction offs generalizing s q with
  | nil => exact ⟨rfl, rfl, rfl, (List.append_nil _).symm⟩
  | cons off offs ih =>
      have hstep := (appendObject_spec off s q).1
      rw [adopt_cons]
      generalize appendObject off (s, q) = t at hstep ⊢
      obtain ⟨hsize, hpos, hcap, hobjects⟩ := ih t.1 t.2
      refine ⟨hsize.trans hstep.size, hpos.trans hstep.pos, hcap.trans hstep.cap,
        hobjects.trans ?_⟩
      rw [hstep.mObjects, List.append_assoc, List.singleton_append]

/-- What the loop does to the bytes: outside of the objects of descriptors they stay, and each
of these objects has the next answer of `dup`. -/
structure Replaced (q r : Parcel) (offs : List UInt32) : Prop where
  frame : ∀ a : UInt32,
    (∀ off ∈ q.fdsAmong offs, a.toNat < off.toNat ∨ off.toNat + 16 ≤ a.toNat) →
      r.bytes a = q.bytes a
  fds : ∀ (k : Nat) (off : UInt32), (q.fdsAmong offs)[k]? = some off →
    r.flatAt off = (q.flatAt off).duplicated (max (q.proc.answers.dup k) (-1))

/-- No object overlaps one of a descriptor. -/
def Apart (p : Parcel) (offs : List UInt32) : Prop :=
  offs.Pairwise fun a b =>
    (p.flatAt a).type = binderTypeFd ∨ (p.flatAt b).type = binderTypeFd →
      a.toNat + 16 ≤ b.toNat ∨ b.toNat + 16 ≤ a.toNat

theorem flatAt_congr {off : UInt32} (hoff : off.toNat + 16 ≤ 2 ^ 32)
    (h : ∀ a : UInt32, off.toNat ≤ a.toNat → a.toNat < off.toNat + 16 → r.bytes a = q.bytes a) :
    r.flatAt off = q.flatAt off := by
  refine congrArg FlatBinderObject.ofBytes (Mem.load_congr fun i hi => ?_)
  have hat : (off + UInt32.ofNat i).toNat = off.toNat + i := Mem.toNat_add_ofNat (by omega)
  exact h _ (by omega) (by omega)

/-- A pass touches no byte outside of its object. -/
theorem Adopts.outside {off : UInt32} (h : Adopts q r off) (hoff : off.toNat + 16 ≤ 2 ^ 32)
    {a : UInt32} (ha : a.toNat < off.toNat ∨ off.toNat + 16 ≤ a.toNat) :
    r.bytes a = q.bytes a := by
  rw [h.bytes]
  split
  · refine Mem.store_apply_of_disjoint ?_ ?_
    · rw [FlatBinderObject.toBytes_length]
      exact hoff
    · rw [FlatBinderObject.toBytes_length]
      exact ha
  · rfl

/-- The object of a descriptor is replaced. -/
theorem Adopts.flatAt_self {off : UInt32} (h : Adopts q r off)
    (hfd : (q.flatAt off).type = binderTypeFd) :
    r.flatAt off = (q.flatAt off).duplicated (max (q.proc.answers.dup 0) (-1)) := by
  have hlen := FlatBinderObject.toBytes_length
    ((q.flatAt off).duplicated (max (q.proc.answers.dup 0) (-1)))
  have hload : (q.bytes.store off ((q.flatAt off).duplicated
      (max (q.proc.answers.dup 0) (-1))).toBytes).load off _ = _ :=
    Mem.load_store (hlen.le.trans (by decide))
  rw [hlen] at hload
  unfold flatAt at hload ⊢
  rw [h.bytes, if_pos hfd, flatAt, hload, FlatBinderObject.ofBytes_toBytes]

theorem fdsAmong_cons (q : Parcel) (off : UInt32) (offs : List UInt32) :
    q.fdsAmong (off :: offs) =
      if (q.flatAt off).type = binderTypeFd then off :: q.fdsAmong offs else q.fdsAmong offs := by
  unfold fdsAmong
  rw [List.filter_cons]
  simp only [decide_eq_true_eq]

/-- The objects that the pass keeps clear of are read as before. -/
theorem Adopts.others {off : UInt32} (h : Adopts q r off) (hoff : off.toNat + 16 ≤ 2 ^ 32)
    {offs : List UInt32} (hin : ∀ o ∈ offs, o.toNat + 16 ≤ 2 ^ 32)
    (hclear : (q.flatAt off).type = binderTypeFd →
      ∀ o ∈ offs, off.toNat + 16 ≤ o.toNat ∨ o.toNat + 16 ≤ off.toNat) :
    ∀ o ∈ offs, r.flatAt o = q.flatAt o := by
  intro o ho
  refine flatAt_congr (hin o ho) fun a hlo hhi => ?_
  by_cases hfd : (q.flatAt off).type = binderTypeFd
  · have haside := hclear hfd o ho
    exact h.outside hoff (by omega)
  · rw [h.bytes, if_neg hfd]

theorem fdsAmong_congr {offs : List UInt32} (h : ∀ o ∈ offs, r.flatAt o = q.flatAt o) :
    r.fdsAmong offs = q.fdsAmong offs :=
  List.filter_congr fun o ho => by rw [h o ho]

theorem mem_of_fdsAmong {offs : List UInt32} {k : Nat} {o : UInt32}
    (h : (q.fdsAmong offs)[k]? = some o) : o ∈ offs :=
  List.mem_of_mem_filter (List.mem_of_getElem? h)

/-- A pass over a descriptor, with the rest of the loop. -/
theorem Replaced.cons_fd {q' : Parcel} {off : UInt32} {offs : List UInt32} (hstep : Adopts q q' off)
    (hoff : off.toNat + 16 ≤ 2 ^ 32) (hfd : (q.flatAt off).type = binderTypeFd)
    (hclear : ∀ o ∈ offs, off.toNat + 16 ≤ o.toNat ∨ o.toNat + 16 ≤ off.toNat)
    (hflat : ∀ o ∈ offs, q'.flatAt o = q.flatAt o) (h : Replaced q' r offs) :
    Replaced q r (off :: offs) := by
  obtain ⟨hframe, hfds⟩ := h
  rw [fdsAmong_congr hflat] at hframe hfds
  have hcons : q.fdsAmong (off :: offs) = off :: q.fdsAmong offs := by
    rw [fdsAmong_cons, if_pos hfd]
  refine ⟨fun a ha => ?_, fun k o hk => ?_⟩
  · rw [hcons] at ha
    obtain ⟨hhere, hthere⟩ := List.forall_mem_cons.mp ha
    exact (hframe a hthere).trans (hstep.outside hoff hhere)
  · rw [hcons] at hk
    cases k with
    | zero =>
        obtain rfl : off = o := Option.some.inj hk
        -- the rest of the loop leaves the new object alone
        have hkept : r.flatAt off = q'.flatAt off :=
          flatAt_congr hoff fun a hlo hhi => hframe a fun o ho => by
            have haside := hclear o (List.mem_of_mem_filter ho)
            omega
        rw [hkept]
        exact hstep.flatAt_self hfd
    | succ k =>
        have hbehind : (q.fdsAmong offs)[k]? = some o := hk
        rw [hfds k o hbehind, hflat o (mem_of_fdsAmong hbehind), hstep.dup, if_pos hfd]

/-- A pass over another object, with the rest of the loop. -/
theorem Replaced.cons_other {q' : Parcel} {off : UInt32} {offs : List UInt32}
    (hstep : Adopts q q' off) (hfd : (q.flatAt off).type ≠ binderTypeFd)
    (hflat : ∀ o ∈ offs, q'.flatAt o = q.flatAt o) (h : Replaced q' r offs) :
    Replaced q r (off :: offs) := by
  obtain ⟨hframe, hfds⟩ := h
  rw [fdsAmong_congr hflat] at hframe hfds
  have hcons : q.fdsAmong (off :: offs) = q.fdsAmong offs := by
    rw [fdsAmong_cons, if_neg hfd]
  refine ⟨fun a ha => ?_, fun k o hk => ?_⟩
  · rw [hcons] at ha
    rw [hframe a ha, hstep.bytes, if_neg hfd]
  · rw [hcons] at hk
    rw [hfds k o hk, hflat o (mem_of_fdsAmong hk), hstep.dup, if_neg hfd]

/-- The loop over objects of which none overlaps one of a descriptor. -/
theorem adopt_bytes {offs : List UInt32} (hin : ∀ off ∈ offs, off.toNat + 16 ≤ 2 ^ 32)
    (s : Status) {q : Parcel} (hapart : Apart q offs) :
    Replaced q (adopt (s, q) offs).2 offs ∧
      (adopt (s, q) offs).1 =
        if q.fdsAmong offs ≠ [] ∧ q.mAllowFds = false then fdsNotAllowed else s := by
  induction offs generalizing s q with
  | nil => exact ⟨⟨fun _ _ => rfl, fun k off h => by simp [fdsAmong] at h⟩, rfl⟩
  | cons off offs ih =>
      obtain ⟨hstep, hstatus⟩ := appendObject_spec off s q
      obtain ⟨hclear, hapart⟩ := List.pairwise_cons.mp hapart
      obtain ⟨hoff, hrest⟩ := List.forall_mem_cons.mp hin
      rw [adopt_cons]
      generalize appendObject off (s, q) = t at hstep hstatus ⊢
      obtain ⟨s', q'⟩ := t
      dsimp only at hstep hstatus
      have hflat := hstep.others hoff hrest fun hfd o ho => hclear o ho (.inl hfd)
      have hapart' : Apart q' offs := hapart.imp_of_mem fun {a b} ha hb hab => by
        rw [hflat a ha, hflat b hb]
        exact hab
      obtain ⟨hreplaced, hloop⟩ := ih hrest s' hapart'
      rw [fdsAmong_congr hflat, hstep.allow] at hloop
      by_cases hfd : (q.flatAt off).type = binderTypeFd
      · refine ⟨hreplaced.cons_fd hstep hoff hfd (fun o ho => hclear o ho (.inl hfd)) hflat, ?_⟩
        rw [fdsAmong_cons, hloop, hstatus]
        by_cases hallow : q.mAllowFds = false <;> simp [hfd, hallow]
      · refine ⟨hreplaced.cons_other hstep hfd hflat, ?_⟩
        rw [fdsAmong_cons, hloop, hstatus]
        simp [hfd]

end Parcel
end Binder
end AndroidLinux
