import AndroidLinux.Udisk.Partitions

/-!
# Updates of partitions

As long as a setter writes back what it has read, and `UDISK_AttachPart` works on a disk
that is still attached, the lists in memory are the rings of the attached disks and
partitions, and every node holds exactly what the operations have stored (`Isolated`).
Neither condition is checked by the code; the last part of the module has a run in which
a partition that is attached between the two sections of a setter is lost.
-/

namespace AndroidLinux
namespace Udisk

open Lib

/-- The disk that a thread in `UDISK_AttachDisk` works on. -/
def AttachPc.disk : AttachPc → Option Nat
  | .idle => none
  | .add _ => none
  | .parts d => some d
  | .devPath d _ _ _ => some d
  | .mntPath d _ _ => some d
  | .stat d _ => some d

/-- What a thread in `UDISK_AttachDisk` relies on while its disk is attached. -/
def AttachPc.Sound (r : Report) : AttachPc → Prop
  | .devPath d p _ _ => d ∈ r.disks → p ∈ r.parts d
  | .mntPath d p _ => d ∈ r.disks → p ∈ r.parts d
  | .stat d pos => d ∈ r.disks → pos ∈ Node.partListHead d :: (r.parts d).map Node.part
  | _ => True

/-- What a thread relies on survives when partitions are added. -/
theorem AttachPc.Sound.mono {r r' : Report} {pc : AttachPc} (hpc : pc.Sound r)
    (hdisks : ∀ d ∈ r'.disks, d ∈ r.disks) (hparts : ∀ d, ∀ p ∈ r.parts d, p ∈ r'.parts d) :
    pc.Sound r' := by
  cases pc with
  | devPath d p _ _ => exact fun hd => hparts d p (hpc (hdisks d hd))
  | mntPath d p _ => exact fun hd => hparts d p (hpc (hdisks d hd))
  | stat d pos =>
      intro hd
      rcases List.mem_cons.mp (hpc (hdisks d hd)) with heq | hmem
      · exact heq ▸ List.mem_cons_self
      · obtain ⟨p, hp, rfl⟩ := List.mem_map.mp hmem
        exact List.mem_cons_of_mem _ (List.mem_map_of_mem (hparts d p hp))
  | _ => trivial

namespace Disks

variable {ι : Type*} {s s' : Disks ι} {t : ι} {d p : Nat}

/-- The lists in memory are those of the attached disks and partitions, and each node
holds what the operations have stored. -/
structure Isolated (s : Disks ι) : Prop where
  disks : s.links.IsRing .diskListHead (s.report.disks.map .disk)
  parts : ∀ d ∈ s.report.disks,
    s.links.IsRing (.partListHead d) ((s.report.parts d).map .part)
  node : ∀ d ∈ s.report.disks, ∀ p ∈ s.report.parts d, s.partNode p = s.report.node p
  intact : s.fault = false

/-- The invariant. -/
structure Inv (s : Disks ι) : Prop extends Isolated s where
  diskLt : ∀ d ∈ s.report.disks, d < s.allocated
  partLt : ∀ d ∈ s.report.disks, ∀ p ∈ s.report.parts d, p < s.allocated
  apart : ∀ d ∈ s.report.disks, ∀ d' ∈ s.report.disks, ∀ p ∈ s.report.parts d,
    p ∈ s.report.parts d' → d = d'
  aliveHead : ∀ d, s.alive (.partListHead d) = true ↔ d ∈ s.report.disks
  alivePart : ∀ d ∈ s.report.disks, ∀ p ∈ s.report.parts d, s.alive (.part p) = true
  sound : ∀ t, (s.attacher t).Sound s.report
  known : ∀ t, ∀ d ∈ (s.attacher t).disk, d < s.allocated

theorem inv_initial (h : s.Initial) : s.Inv := by
  obtain ⟨hring, halive, -, -, hattacher, hfault, hdisks⟩ := h
  have hnone : ∀ d, d ∉ s.report.disks := by simp [hdisks]
  refine ⟨⟨by rw [hdisks]; exact hring, ?_, ?_, hfault⟩, ?_, ?_, ?_, ?_, ?_, ?_, ?_⟩
  · exact fun d hd => absurd hd (hnone d)
  · exact fun d hd => absurd hd (hnone d)
  · exact fun d hd => absurd hd (hnone d)
  · exact fun d hd => absurd hd (hnone d)
  · exact fun d hd => absurd hd (hnone d)
  · intro d
    exact iff_of_false (fun ha => nomatch (halive _).mp ha) (hnone d)
  · exact fun d hd => absurd hd (hnone d)
  · intro t
    rw [hattacher t]
    trivial
  · intro t d hd
    rw [hattacher t] at hd
    cases hd

/-! ## What the loops find -/

theorem length_le_of_lt {l : List Nat} {n : Nat} (hnodup : l.Nodup) (hlt : ∀ x ∈ l, x < n) :
    l.length ≤ n := by
  have hsub := (hnodup.subperm fun x hx => List.mem_range.mpr (hlt x hx)).length_le
  rwa [List.length_range] at hsub

theorem Isolated.nodup_disks (h : s.Isolated) : s.report.disks.Nodup :=
  List.Nodup.of_map _ (List.nodup_cons.mp h.disks.nodup).2

theorem Isolated.nodup_parts (h : s.Isolated) (hd : d ∈ s.report.disks) :
    (s.report.parts d).Nodup :=
  List.Nodup.of_map _ (List.nodup_cons.mp (h.parts d hd).nodup).2

/-- A partition that is found at some indices is one of an attached disk. -/
theorem Isolated.partAt_mem (h : s.Isolated) {i j : UInt32} {x : Node}
    (hfind : s.partAt i j = some x) :
    ∃ d ∈ s.report.disks, ∃ p ∈ s.report.parts d, x = .part p := by
  unfold partAt at hfind
  rw [h.disks.nth_eq, List.getElem?_map] at hfind
  cases hdisk : s.report.disks[i.toNat]? with
  | none => simp [hdisk] at hfind
  | some d =>
      have hd := List.mem_of_getElem? hdisk
      simp only [hdisk, Option.map_some] at hfind
      rw [(h.parts d hd).nth_eq, List.getElem?_map] at hfind
      obtain ⟨p, hp, rfl⟩ := Option.map_eq_some_iff.mp hfind
      exact ⟨d, hd, p, List.mem_of_getElem? hp, rfl⟩

/-- `UDISK_FindDisk` looks at the attached disks only. -/
theorem Inv.findDisk_mem (h : s.Inv) {path : CString} {found : Option Nat}
    (hfind : s.udiskFindDisk path = some found) : ∀ d ∈ found, d ∈ s.report.disks := by
  have hlen : (s.report.disks.map Node.disk).length ≤ s.allocated := by
    rw [List.length_map]
    exact length_le_of_lt h.nodup_disks h.diskLt
  unfold udiskFindDisk nodesOf at hfind
  rw [h.disks.walk_eq (Nat.lt_succ_of_le hlen)] at hfind
  simp only [hlen, if_true, Option.map_some, Option.some.injEq] at hfind
  intro d hd
  rw [← hfind] at hd
  obtain ⟨x, hx, hsome⟩ := List.exists_of_findSome?_eq_some hd
  obtain ⟨d', hd', rfl⟩ := List.mem_map.mp hx
  simp only [Option.ite_none_right_eq_some, Option.some.injEq] at hsome
  exact hsome.2 ▸ hd'

/-! ## Steps that keep the lists -/

section Steps

variable [DecidableEq ι]

theorem Inv.setSetter (h : s.Inv) (t : ι) (pc : SetterPc) : (s.setSetter t pc).Inv where
  toIsolated := ⟨h.disks, h.parts, h.node, h.intact⟩
  diskLt := h.diskLt
  partLt := h.partLt
  apart := h.apart
  aliveHead := h.aliveHead
  alivePart := h.alivePart
  sound := h.sound
  known := h.known

theorem Inv.setAttacher (h : s.Inv) (t : ι) {pc : AttachPc} (hsound : pc.Sound s.report)
    (hknown : ∀ d ∈ pc.disk, d < s.allocated) : (s.setAttacher t pc).Inv where
  toIsolated := ⟨h.disks, h.parts, h.node, h.intact⟩
  diskLt := h.diskLt
  partLt := h.partLt
  apart := h.apart
  aliveHead := h.aliveHead
  alivePart := h.alivePart
  sound u := by
    simp only [Disks.setAttacher, Function.update_apply]
    split
    · exact hsound
    · exact h.sound u
  known u := by
    simp only [Disks.setAttacher, Function.update_apply]
    split
    · exact hknown
    · exact h.known u

omit [DecidableEq ι] in
/-- An update that the history records keeps memory and history in step. -/
theorem Inv.write (h : s.Inv) (p : Nat) (f : PartNode → PartNode) : (s.write p f).Inv where
  toIsolated := by
    refine ⟨h.disks, h.parts, ?_, h.intact⟩
    intro d hd q hq
    have hold := h.node d hd q hq
    simp only [Disks.write, note, Function.update_apply]
    by_cases hqp : q = p
    · subst hqp
      rw [if_pos rfl, if_pos rfl, hold]
    · rw [if_neg hqp, if_neg hqp, hold]
  diskLt := h.diskLt
  partLt := h.partLt
  apart := h.apart
  aliveHead := h.aliveHead
  alivePart := h.alivePart
  sound u := by
    have hu := h.sound u
    simp only [Disks.write, note]
    cases hpc : s.attacher u with
    | idle => trivial
    | add _ => trivial
    | parts _ => trivial
    | devPath d q _ _ => rw [hpc] at hu; exact hu
    | mntPath d q _ => rw [hpc] at hu; exact hu
    | stat d pos => rw [hpc] at hu; exact hu
  known := h.known

theorem Inv.get (h : s.Inv) {i j : UInt32} {op : SetOp} (hstep : s.get t i j op = some s') :
    s'.Inv := by
  unfold Disks.get at hstep
  split at hstep
  · cases hfind : s.partAt i j with
    | none =>
        rw [hfind] at hstep
        obtain rfl := Option.some.inj hstep
        exact h
    | some x =>
        obtain ⟨d, hd, p, hp, rfl⟩ := h.partAt_mem hfind
        rw [hfind] at hstep
        obtain rfl := Option.some.inj hstep
        rw [access, if_pos (h.alivePart d hd p hp)]
        exact h.setSetter t _
  · cases hstep

/-- A setter writes back what it has read, apart from what it sets itself. -/
def WritesBack (s : Disks ι) (t : ι) : Prop :=
  ∀ i j op p copy, s.setter t = .got i j op p copy → ∀ x, s.partAt i j = some x →
    x = .part p ∧ copy.next = s.links.next (.part p) ∧ copy.prev = s.links.prev (.part p) ∧
      op.apply copy.node = op.apply (s.partNode p)

omit [DecidableEq ι] in
/-- Writing back an unchanged copy with one update is that update. -/
theorem copyIn_eq_write {copy : PartCopy} {op : SetOp}
    (hnext : copy.next = s.links.next (.part p)) (hprev : copy.prev = s.links.prev (.part p))
    (hnode : op.apply copy.node = op.apply (s.partNode p)) :
    (s.copyIn p { copy with node := op.apply copy.node }).note p op.apply = s.write p op.apply := by
  simp only [copyIn, hnext, hprev, hnode, Function.update_eq_self]
  rfl

theorem Inv.set (h : s.Inv) (hback : s.WritesBack t) (hstep : s.set t = some s') : s'.Inv := by
  unfold Disks.set at hstep
  split at hstep
  · rename_i i j op p copy hpc
    cases hfind : s.partAt i j with
    | none =>
        rw [hfind] at hstep
        obtain rfl := Option.some.inj hstep
        exact h.setSetter t _
    | some x =>
        obtain ⟨rfl, hnext, hprev, hnode⟩ := hback i j op p copy hpc x hfind
        obtain ⟨d, hd, q, hq, hqp⟩ := h.partAt_mem hfind
        obtain rfl : p = q := Node.part.inj hqp
        rw [hfind] at hstep
        obtain rfl := Option.some.inj hstep
        rw [access, if_pos (h.alivePart d hd p hq), copyIn_eq_write hnext hprev hnode]
        exact (h.write p op.apply).setSetter t _
  · cases hstep

/-- The disk that a thread in `UDISK_AttachDisk` works on has not been detached. -/
def StillAttached (s : Disks ι) (t : ι) : Prop :=
  ∀ d ∈ (s.attacher t).disk, s.alive (.partListHead d) = true

theorem Inv.attachFind (h : s.Inv) {path : CString} (hstep : s.attachFind t path = some s') :
    s'.Inv := by
  unfold Disks.attachFind at hstep
  split at hstep
  · obtain rfl := Option.some.inj hstep
    exact h.setAttacher t trivial fun d hd => nomatch hd
  · obtain rfl := Option.some.inj hstep
    exact h
  · cases hstep

theorem Inv.storePath (h : s.Inv) (hattached : s.StillAttached t)
    (hstep : s.storePath t = some s') : s'.Inv := by
  have hsound := h.sound t
  have hknown := h.known t
  unfold Disks.storePath at hstep
  unfold StillAttached at hattached
  split at hstep
  · rename_i d p dev mnt hpc
    rw [hpc] at hsound hknown hattached
    have hd := (h.aliveHead d).mp (hattached d rfl)
    obtain rfl := Option.some.inj hstep
    rw [access, if_pos (h.alivePart d hd p (hsound hd))]
    exact (h.write p _).setAttacher t (fun _ => hsound hd) (fun d' hd' => hknown d' hd')
  · rename_i d p mnt hpc
    rw [hpc] at hsound hknown hattached
    have hd := (h.aliveHead d).mp (hattached d rfl)
    obtain rfl := Option.some.inj hstep
    rw [access, if_pos (h.alivePart d hd p (hsound hd))]
    exact (h.write p _).setAttacher t trivial (fun d' hd' => hknown d' hd')
  · cases hstep

theorem Inv.partsDone (h : s.Inv) (hattached : s.StillAttached t)
    (hstep : s.partsDone t = some s') : s'.Inv := by
  have hknown := h.known t
  unfold Disks.partsDone at hstep
  unfold StillAttached at hattached
  split at hstep
  · rename_i d hpc
    rw [hpc] at hknown hattached
    have hd := hattached d rfl
    obtain rfl := Option.some.inj hstep
    rw [access, if_pos hd]
    refine h.setAttacher t (fun hd' => ?_) (fun d' hd' => hknown d' hd')
    exact ((h.parts d hd').neighbours List.mem_cons_self).1
  · cases hstep

theorem Inv.statPart (h : s.Inv) (hattached : s.StillAttached t)
    {stat : Option (UInt64 × UInt64)} (hstep : s.statPart t stat = some s') : s'.Inv := by
  have hsound := h.sound t
  have hknown := h.known t
  unfold Disks.statPart at hstep
  unfold StillAttached at hattached
  split at hstep
  · rename_i d p hpc
    rw [hpc] at hsound hknown hattached
    have hd := (h.aliveHead d).mp (hattached d rfl)
    have hmem := hsound hd
    have hp : p ∈ s.report.parts d := by simpa using hmem
    obtain rfl := Option.some.inj hstep
    rw [access, if_pos (h.alivePart d hd p hp)]
    refine (h.write p _).setAttacher t (fun _ => ?_) (fun d' hd' => hknown d' hd')
    exact ((h.parts d hd).neighbours hmem).1
  · rename_i d pos hnot hpc
    rw [hpc] at hsound hattached
    have hd := (h.aliveHead d).mp (hattached d rfl)
    have hpos : pos = .partListHead d := by
      rcases List.mem_cons.mp (hsound hd) with heq | hmem
      · exact heq
      · obtain ⟨p, -, rfl⟩ := List.mem_map.mp hmem
        exact absurd rfl (hnot p)
    rw [if_pos hpos] at hstep
    obtain rfl := Option.some.inj hstep
    exact h.setAttacher t trivial fun d hd => nomatch hd
  · cases hstep

/-! ## Attaching and detaching -/

omit [DecidableEq ι] in
/-- The rings of two attached disks have no node in common. -/
theorem Inv.disjoint (h : s.Inv) {d' : Nat} (hd : d ∈ s.report.disks) (hd' : d' ∈ s.report.disks)
    (hne : d' ≠ d) : ∀ y ∈ Node.partListHead d' :: (s.report.parts d').map Node.part,
      y ∉ Node.partListHead d :: (s.report.parts d).map Node.part := by
  intro y hy hy'
  rcases List.mem_cons.mp hy with rfl | hy
  · rcases List.mem_cons.mp hy' with heq | hmem
    · exact hne (Node.partListHead.inj heq)
    · obtain ⟨p, -, heq⟩ := List.mem_map.mp hmem
      cases heq
  · obtain ⟨p, hp, rfl⟩ := List.mem_map.mp hy
    rcases List.mem_cons.mp hy' with heq | hmem
    · cases heq
    · obtain ⟨q, hq, heq⟩ := List.mem_map.mp hmem
      obtain rfl : q = p := Node.part.inj heq
      exact hne (h.apart d' hd' d hd q hp hq)

/-- A ring of partitions and the ring of the disks have no node in common. -/
theorem parts_not_disks (d : Nat) (ps ds : List Nat) :
    ∀ y ∈ Node.partListHead d :: ps.map Node.part, y ∉ Node.diskListHead :: ds.map Node.disk := by
  intro y hy
  rcases List.mem_cons.mp hy with rfl | hy
  · simp
  · obtain ⟨p, -, rfl⟩ := List.mem_map.mp hy
    simp

theorem disks_not_parts (d : Nat) (ps ds : List Nat) :
    ∀ y ∈ Node.diskListHead :: ds.map Node.disk, y ∉ Node.partListHead d :: ps.map Node.part :=
  fun y hy hy' => parts_not_disks d ps ds y hy' hy

/-- Initialising a node that is not in a ring leaves the ring. -/
theorem isRing_listInit_other {l : Links Node} {x y : Node} {xs : List Node}
    (hr : l.IsRing y xs) (hx : x ∉ y :: xs) : (l.listInit x).IsRing y xs := by
  refine hr.congr fun z hz => ?_
  have hzx : z ≠ x := by
    rintro rfl
    exact hx hz
  simp [Links.listInit, hzx]

theorem Inv.attachAdd (h : s.Inv) (hstep : s.attachAdd t = some s') : s'.Inv := by
  unfold Disks.attachAdd at hstep
  split at hstep
  swap
  · cases hstep
  obtain rfl := Option.some.inj hstep
  have hfresh : s.allocated ∉ s.report.disks := fun hmem => absurd (h.diskLt _ hmem) (lt_irrefl _)
  have hne : ∀ d ∈ s.report.disks, d ≠ s.allocated := by
    rintro d hd rfl
    exact hfresh hd
  -- initialising the list of the new disk touches no ring
  have hring : (s.links.listInit (.partListHead s.allocated)).IsRing .diskListHead
      (s.report.disks.map .disk) := isRing_listInit_other h.disks (by simp)
  refine Inv.setAttacher ?_ t trivial fun d hd => ?_
  swap
  · obtain rfl := Option.some.inj hd
    exact Nat.lt_succ_self _
  refine {
    disks := ?_, parts := ?_, node := ?_, intact := h.intact, diskLt := ?_, partLt := ?_,
    apart := ?_, aliveHead := ?_, alivePart := ?_, sound := ?_, known := ?_ }
  · rw [List.map_append]
    refine hring.listAddTail ?_
    simpa using hfresh
  · intro d hd
    by_cases hda : d = s.allocated
    · subst hda
      simp only [Function.update_self, List.map_nil]
      exact (Links.isRing_listInit _ _).listAddTail_other hring (by simp) (by simp)
    · have hd' : d ∈ s.report.disks := by simpa [hda] using hd
      simp only [Function.update_of_ne hda]
      refine (isRing_listInit_other (h.parts d hd') ?_).listAddTail_other hring
        (parts_not_disks d _ _) (by simp)
      simp [Ne.symm hda]
  · intro d hd p hp
    by_cases hda : d = s.allocated
    · subst hda
      simp at hp
    · simp only [Function.update_of_ne hda] at hp
      exact h.node d (by simpa [hda] using hd) p hp
  · intro d hd
    rcases List.mem_append.mp hd with hd | hd
    · exact Nat.lt_succ_of_lt (h.diskLt d hd)
    · exact List.mem_singleton.mp hd ▸ Nat.lt_succ_self _
  · intro d hd p hp
    by_cases hda : d = s.allocated
    · subst hda
      simp at hp
    · simp only [Function.update_of_ne hda] at hp
      exact Nat.lt_succ_of_lt (h.partLt d (by simpa [hda] using hd) p hp)
  · intro d hd d' hd' p hp hp'
    by_cases hda : d = s.allocated
    · subst hda
      simp at hp
    · by_cases hda' : d' = s.allocated
      · subst hda'
        simp at hp'
      · simp only [Function.update_of_ne hda, Function.update_of_ne hda'] at hp hp'
        exact h.apart d (by simpa [hda] using hd) d' (by simpa [hda'] using hd') p hp hp'
  · intro d
    by_cases hda : d = s.allocated
    · subst hda
      simp
    · have hhead := h.aliveHead d
      simp [hda, hhead]
  · intro d hd p hp
    by_cases hda : d = s.allocated
    · subst hda
      simp at hp
    · simp only [Function.update_of_ne hda] at hp
      have halive := h.alivePart d (by simpa [hda] using hd) p hp
      simp [halive]
  · -- a thread in the middle of `UDISK_AttachDisk` works on an older disk
    have hkeep {d : Nat} (hlt : d < s.allocated) (P : List Nat → Prop)
        (hold : d ∈ s.report.disks → P (s.report.parts d)) :
        d ∈ s.report.disks ++ [s.allocated] →
          P (Function.update s.report.parts s.allocated [] d) := by
      intro hd
      have hda : d ≠ s.allocated := Nat.ne_of_lt hlt
      rw [Function.update_of_ne hda]
      exact hold (by simpa [hda] using hd)
    intro u
    have hu := h.sound u
    have hk := h.known u
    dsimp only
    cases hpc : s.attacher u with
    | idle => trivial
    | add _ => trivial
    | parts _ => trivial
    | devPath d q _ _ =>
        rw [hpc] at hu hk
        exact hkeep (hk d rfl) (q ∈ ·) hu
    | mntPath d q _ =>
        rw [hpc] at hu hk
        exact hkeep (hk d rfl) (q ∈ ·) hu
    | stat d pos =>
        rw [hpc] at hu hk
        exact hkeep (hk d rfl) (fun ps => pos ∈ Node.partListHead d :: ps.map Node.part) hu
  · exact fun u d hd => Nat.lt_succ_of_lt (h.known u d hd)

theorem Inv.attachPart (h : s.Inv) (hattached : s.StillAttached t) {fs : FsType}
    {dev mnt : CString} (hstep : s.attachPart t fs dev mnt = some s') : s'.Inv := by
  have hknown := h.known t
  unfold Disks.attachPart at hstep
  unfold StillAttached at hattached
  split at hstep
  swap
  · cases hstep
  rename_i d hpc
  rw [hpc] at hknown hattached
  have hd := (h.aliveHead d).mp (hattached d rfl)
  obtain rfl := Option.some.inj hstep
  rw [access, if_pos (hattached d rfl)]
  have hfresh : ∀ d' ∈ s.report.disks, s.allocated ∉ s.report.parts d' :=
    fun d' hd' hmem => absurd (h.partLt d' hd' _ hmem) (lt_irrefl _)
  -- neither does initialising the new partition
  have hinit : ∀ d' ∈ s.report.disks, (s.links.listInit (.part s.allocated)).IsRing
      (.partListHead d') ((s.report.parts d').map .part) := by
    intro d' hd'
    refine isRing_listInit_other (h.parts d' hd') ?_
    simpa using hfresh d' hd'
  have hparts : ∀ d', ∀ p ∈ s.report.parts d',
      p ∈ Function.update s.report.parts d (s.report.parts d ++ [s.allocated]) d' := by
    intro d' p hp
    by_cases hdd : d' = d
    · subst hdd
      rw [Function.update_self]
      exact List.mem_append_left _ hp
    · rwa [Function.update_of_ne hdd]
  have hcases : ∀ d' p,
      p ∈ Function.update s.report.parts d (s.report.parts d ++ [s.allocated]) d' →
      p ∈ s.report.parts d' ∨ d' = d ∧ p = s.allocated := by
    intro d' p hp
    by_cases hdd : d' = d
    · subst hdd
      rw [Function.update_self] at hp
      rcases List.mem_append.mp hp with hp | hp
      · exact .inl hp
      · exact .inr ⟨rfl, List.mem_singleton.mp hp⟩
    · rw [Function.update_of_ne hdd] at hp
      exact .inl hp
  refine Inv.setAttacher ?_ t (fun _ => ?_) (fun d' hd' => Nat.lt_succ_of_lt (hknown d' hd'))
  swap
  · simp
  refine {
    disks := ?_, parts := ?_, node := ?_, intact := h.intact, diskLt := ?_, partLt := ?_,
    apart := ?_, aliveHead := ?_, alivePart := ?_, sound := ?_, known := ?_ }
  · exact (isRing_listInit_other h.disks (by simp)).listAddTail_other (hinit d hd)
      (disks_not_parts d _ _) (by simp)
  · intro d' hd'
    by_cases hdd : d' = d
    · subst hdd
      simp only [Function.update_self, List.map_append]
      refine (hinit d' hd').listAddTail ?_
      simpa using hfresh d' hd'
    · simp only [Function.update_of_ne hdd]
      refine (hinit d' hd').listAddTail_other (hinit d hd) (h.disjoint hd hd' hdd) ?_
      simpa using hfresh d' hd'
  · intro d' hd' p hp
    dsimp only
    rcases hcases d' p hp with hp | ⟨-, rfl⟩
    · have hpa : p ≠ s.allocated := by
        rintro rfl
        exact hfresh d' hd' hp
      rw [Function.update_of_ne hpa, Function.update_of_ne hpa, h.node d' hd' p hp]
    · rw [Function.update_self, Function.update_self]
  · exact fun d' hd' => Nat.lt_succ_of_lt (h.diskLt d' hd')
  · intro d' hd' p hp
    rcases hcases d' p hp with hp | ⟨-, rfl⟩
    · exact Nat.lt_succ_of_lt (h.partLt d' hd' p hp)
    · exact Nat.lt_succ_self _
  · intro d₁ hd₁ d₂ hd₂ p hp₁ hp₂
    -- two lists share a partition only if both have the new one
    rcases hcases d₁ p hp₁ with hold₁ | ⟨heq₁, hnew₁⟩ <;>
      rcases hcases d₂ p hp₂ with hold₂ | ⟨heq₂, hnew₂⟩
    · exact h.apart d₁ hd₁ d₂ hd₂ p hold₁ hold₂
    · exact absurd (hnew₂ ▸ hold₁) (hfresh d₁ hd₁)
    · exact absurd (hnew₁ ▸ hold₂) (hfresh d₂ hd₂)
    · exact heq₁.trans heq₂.symm
  · intro d'
    rw [← h.aliveHead d']
    simp
  · intro d' hd' p hp
    rcases hcases d' p hp with hp | ⟨-, rfl⟩
    · simp [Function.update_apply, h.alivePart d' hd' p hp]
    · simp
  · exact fun u => AttachPc.Sound.mono (h.sound u) (fun _ hd' => hd') hparts
  · exact fun u d' hd' => Nat.lt_succ_of_lt (h.known u d' hd')

omit [DecidableEq ι] in
theorem Inv.detach (h : s.Inv) {path : CString} (hstep : s.udiskDetachDisk path = some s') :
    s'.Inv := by
  obtain ⟨found, hfind, hrest⟩ := Option.bind_eq_some_iff.mp hstep
  cases found with
  | none =>
      obtain rfl := Option.some.inj hrest
      exact h
  | some d =>
      have hd : d ∈ s.report.disks := h.findDisk_mem hfind d rfl
      have hlen : ((s.report.parts d).map Node.part).length ≤ s.allocated := by
        rw [List.length_map]
        exact length_le_of_lt (h.nodup_parts hd) (h.partLt d hd)
      -- the partitions are unlinked first; the other rings stay
      obtain ⟨l', hdelete, hothers⟩ := (h.parts d hd).deleteAll hlen
      rw [Option.elim_some, hdelete] at hrest
      obtain rfl := Option.some.inj hrest
      obtain ⟨before, after, hsplit⟩ := List.append_of_mem hd
      have hnodup := h.nodup_disks
      have herase : s.report.disks.erase d = before ++ after := by
        have hnot : d ∉ before := by
          rw [hsplit, List.nodup_append] at hnodup
          exact fun hb => hnodup.2.2 d hb d List.mem_cons_self rfl
        rw [hsplit, List.erase_append_right _ hnot, List.erase_cons_head]
      have hmem : ∀ d', d' ∈ s.report.disks.erase d ↔ d' ≠ d ∧ d' ∈ s.report.disks :=
        fun d' => hnodup.mem_erase_iff
      have hring : l'.IsRing .diskListHead (s.report.disks.map .disk) :=
        hothers _ _ h.disks (disks_not_parts d _ _)
      have hparts : ∀ d', d' ≠ d → d' ∈ s.report.disks →
          l'.IsRing (.partListHead d') ((s.report.parts d').map .part) :=
        fun d' hne hd' => hothers _ _ (h.parts d' hd') (h.disjoint hd hd' hne)
      refine {
        disks := ?_, parts := ?_, node := ?_, intact := h.intact, diskLt := ?_, partLt := ?_,
        apart := ?_, aliveHead := ?_, alivePart := ?_, sound := ?_, known := h.known }
      · rw [herase, List.map_append]
        rw [hsplit, List.map_append, List.map_cons] at hring
        exact hring.listDel
      · intro d' hd'
        obtain ⟨hne, hd'⟩ := (hmem d').mp hd'
        exact (hparts d' hne hd').listDel_other hring (List.mem_map_of_mem hd)
          (parts_not_disks d' _ _)
      · exact fun d' hd' => h.node d' ((hmem d').mp hd').2
      · exact fun d' hd' => h.diskLt d' ((hmem d').mp hd').2
      · exact fun d' hd' => h.partLt d' ((hmem d').mp hd').2
      · exact fun d₁ hd₁ d₂ hd₂ => h.apart d₁ ((hmem d₁).mp hd₁).2 d₂ ((hmem d₂).mp hd₂).2
      · intro d'
        rw [hmem d', ← h.aliveHead d']
        simp only [ne_eq, Bool.and_eq_true, decide_eq_true_eq, reduceCtorEq, not_false_eq_true,
          and_true, Node.partListHead.injEq, List.mem_map, exists_const, and_false]
        tauto
      · intro d' hd' p hp
        obtain ⟨hne, hd'⟩ := (hmem d').mp hd'
        -- a partition of another disk has not been freed
        have hout : p ∉ s.report.parts d := fun hp' => hne (h.apart d' hd' d hd p hp hp')
        simp [h.alivePart d' hd' p hp, hout]
      · exact fun u => AttachPc.Sound.mono (h.sound u) (fun d' hd' => ((hmem d').mp hd').2)
          (fun _ _ hp => hp)

end Steps

/-! ## Runs -/

variable [DecidableEq ι]

/-- The condition under which a step leaves the updates and links of others alone. -/
def Settled (s : Disks ι) : Act ι → Prop
  | .set t => s.WritesBack t
  | .attachPart t _ _ _ => s.StillAttached t
  | .storePath t => s.StillAttached t
  | .partsDone t => s.StillAttached t
  | .statPart t _ => s.StillAttached t
  | _ => True

theorem inv_step {a : Act ι} (h : s.Inv) (hsettled : s.Settled a)
    (hstep : (machine ι).step s a = some s') : s'.Inv := by
  cases a with
  | get t i j op => exact h.get hstep
  | set t => exact h.set hsettled hstep
  | attachFind t path => exact h.attachFind hstep
  | attachAdd t => exact h.attachAdd hstep
  | attachPart t fs dev mnt => exact h.attachPart hsettled hstep
  | storePath t => exact h.storePath hsettled hstep
  | partsDone t => exact h.partsDone hsettled hstep
  | statPart t stat => exact h.statPart hsettled hstep
  | detach path => exact h.detach hstep

/-- In every run that keeps the condition, the lists are those of the attached disks and
partitions and no update is lost. -/
theorem isolated_of_settled (s : Disks ι) (hreach : (machine ι).ReachWhen Settled s) :
    s.Isolated :=
  (hreach.invariant (fun _ hs => inv_initial hs)
    (fun _ _ _ h hguard hstep => inv_step h hguard hstep)).toIsolated

/-- The module after its start, with two threads. -/
def blank : Disks Bool where
  links := ⟨id, id⟩
  diskPath _ := CString.empty
  partNode _ := .mounted .fat
  alive x := x = .diskListHead
  allocated := 0
  setter _ := .idle
  attacher _ := .idle
  fault := false
  report := ⟨[], fun _ => [], fun _ => .mounted .fat⟩

theorem blank_initial : blank.Initial := by
  refine ⟨⟨⟨rfl, rfl⟩, List.nodup_singleton _⟩, fun x => ?_, rfl, fun _ => rfl, fun _ => rfl,
    rfl, rfl⟩
  exact decide_eq_true_iff

/-- A disk with one partition is attached, and its water line is set. -/
theorem waterLine_isolated :
    ∃ s : Disks Bool, s.Isolated ∧ s.report.disks = [0] ∧ s.report.parts 0 = [1] ∧
      (s.partNode 1).u64WaterLine = 4096 := by
  refine ⟨_, isolated_of_settled _ (.step (a := .set false)
    (.step (a := .get false 0 0 (.fullReport true 4096))
      (.step (a := .attachPart true .fat CString.empty CString.empty) (.step (a := .attachAdd true)
        (.step (a := .attachFind true CString.empty) (.init blank_initial) trivial rfl)
          trivial rfl) ?_ rfl) trivial rfl) ?_ rfl), rfl, rfl, rfl⟩
  · rintro d ⟨⟩
    rfl
  · rintro i j op p copy ⟨⟩ x hx
    obtain rfl : Node.part 1 = x := Option.some.inj hx
    exact ⟨rfl, rfl, rfl, rfl⟩

/-- A second partition is attached between the two sections of the setter. -/
def attachedMeanwhile : List (Act Bool) :=
  [.attachFind true CString.empty, .attachAdd true,
    .attachPart true .fat CString.empty CString.empty, .storePath true, .storePath true,
    .get false 0 0 (.fullReport true 4096),
    .attachPart true .fat CString.empty CString.empty, .set false]

/-- The list of the disk ends in front of it. -/
theorem partition_lost :
    ∃ s, (machine Bool).Reach s ∧ s.report.parts 0 = [1, 2] ∧ ¬ s.Isolated := by
  refine ⟨_, Machine.reach_of_run attachedMeanwhile blank_initial rfl, rfl, fun h => ?_⟩
  have hring := h.parts 0 List.mem_cons_self
  exact absurd hring.seg.2.1.1 (by decide)

end Disks
end Udisk
end AndroidLinux
