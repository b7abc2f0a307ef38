import AndroidLinux.Udisk.Partitions

/-!
# The status table of the partitions

`m_DiskInfo` keeps a status for each device path that has been recorded since
`UDISK_InitDiskDB`, and `UDISK_ReportDiskRemainEvent` reads it.  An entry is looked up by
`strncmp` over the length of the path that is given, so that it is found by every beginning
of its own path.

`calls` is history: what has been recorded, the last call first.
-/

namespace AndroidLinux
namespace Udisk

open Lib

/-- `UDISK_MAX_DEV_NUM`. -/
def udiskMaxDevNum : Nat := 16

/-- `MAX_DEV_NAME_LEN`. -/
def maxDevNameLen : Nat := 12

/-- `UDISK_PARTITON_STATUS_EVENT_E`. -/
inductive PartitionStatus
  | unkown
  | mounted
  | scan
  | scanMounted
  | unknown
  | butt
  deriving DecidableEq

/-- `UDISK_DISKINFO_S`. -/
structure DiskInfo where
  bUsed : Bool
  enStatus : PartitionStatus
  szDevPath : CString
  deriving DecidableEq

/-- A zeroed entry. -/
def DiskInfo.zero : DiskInfo := ⟨false, .unkown, CString.empty⟩

/-- `strncpy` of all characters of a path, without a NUL. -/
def overlay (pDevPath szDevPath : CString) : CString :=
  ⟨pDevPath.bytes ++ szDevPath.bytes.drop pDevPath.strlen, fun h =>
    (List.mem_append.mp h).elim pDevPath.noNul fun h => szDevPath.noNul (List.mem_of_mem_drop h)⟩

/-- The test of the first loop of `UDISK_RecordPartitionStatus`. -/
def DiskInfo.isFor (pDevPath : CString) (d : DiskInfo) : Bool :=
  d.bUsed && CString.strncmpEq pDevPath.strlen d.szDevPath pDevPath

/-- A loop that changes the first entry with a property and ends there. -/
def changeFirst (test : DiskInfo → Bool) (change : DiskInfo → DiskInfo) :
    List DiskInfo → Option (List DiskInfo)
  | [] => none
  | d :: ds => if test d then some (change d :: ds) else (changeFirst test change ds).map (d :: ·)

/-- `m_DiskInfo`; `strayed` records a write behind the end of a path. -/
structure DiskDb where
  mDiskInfo : List DiskInfo
  strayed : Bool

/-- `UDISK_InitDiskDB`, the `memset` of which `UDISK_ReportDiskRemainEvent` does too. -/
def udiskInitDiskDb : DiskDb := ⟨List.replicate udiskMaxDevNum .zero, false⟩

/-- `UDISK_RecordPartitionStatus` of a path that is not `NULL`. -/
def udiskRecordPartitionStatus (db : DiskDb) (pDevPath : CString) (enStatus : PartitionStatus) :
    DiskDb :=
  match changeFirst (·.isFor pDevPath) (fun d => { d with enStatus := enStatus }) db.mDiskInfo with
  | some infos => { db with mDiskInfo := infos }
  | none =>
      match changeFirst (fun d => !d.bUsed)
        (fun d => ⟨true, enStatus, overlay pDevPath d.szDevPath⟩) db.mDiskInfo with
      | some infos =>
          { mDiskInfo := infos, strayed := db.strayed || maxUdiskNameLen ≤ pDevPath.strlen }
      | none => db

/-- The events of `UDISK_ReportDiskRemainEvent` with their paths. -/
inductive RemainEvent
  | diskScanComplete (szDevPath : List CString)
  | unknownFileSys (szDevPath : List CString)

/-- The variables of the loop of `UDISK_ReportDiskRemainEvent`. -/
structure Remain where
  s32MountedCount : Nat
  stScanCmp : List CString
  stUnknown : List CString

/-- The name of a partition in an event. -/
def eventName (szDevPath : CString) : CString := szDevPath.strncpy (maxDevNameLen - 1)

/-- One pass of the loop; `access` tells for which paths there is a file. -/
def Remain.note (access : CString → Bool) (r : Remain) (d : DiskInfo) : Remain :=
  if !d.bUsed || !access d.szDevPath then r
  else
    match d.enStatus with
    | .mounted => { r with s32MountedCount := r.s32MountedCount + 1 }
    | .scan => { r with stScanCmp := r.stScanCmp ++ [eventName d.szDevPath] }
    | .scanMounted =>
        { r with
          s32MountedCount := r.s32MountedCount + 1
          stScanCmp := r.stScanCmp ++ [eventName d.szDevPath] }
    | .unknown => { r with stUnknown := r.stUnknown ++ [eventName d.szDevPath] }
    | _ => r

/-- `UDISK_ReportDiskRemainEvent`, without the pause that it makes soon after the start. -/
def udiskReportDiskRemainEvent (access : CString → Bool) (db : DiskDb) :
    List RemainEvent × DiskDb :=
  let r := db.mDiskInfo.foldl (Remain.note access) ⟨0, [], []⟩
  ((if r.stScanCmp ≠ [] then [.diskScanComplete r.stScanCmp] else []) ++
    (if r.s32MountedCount = 0 ∧ r.stUnknown ≠ [] then [.unknownFileSys r.stUnknown] else []),
    { udiskInitDiskDb with strayed := db.strayed })

/-! ## Runs and their purpose -/

/-- The table with its history. -/
structure Recording where
  db : DiskDb
  calls : List (CString × PartitionStatus)

/-- Any sequence of calls after `UDISK_InitDiskDB`. -/
def recordingMachine : Machine Recording (CString × PartitionStatus) where
  init s := s = ⟨udiskInitDiskDb, []⟩
  step s c := some ⟨udiskRecordPartitionStatus s.db c.1 c.2, c :: s.calls⟩

namespace Recording

/-- The distinct paths. -/
def paths (s : Recording) : List CString := (s.calls.map Prod.fst).dedup

/-- The status recorded last for a path. -/
def last (s : Recording) (path : CString) : Option PartitionStatus := s.calls.lookup path

/-- A partition is reported as one of an unknown file system. -/
def Reported (s : Recording) (access : CString → Bool) (path : CString) : Prop :=
  ∃ names, .unknownFileSys names ∈ (udiskReportDiskRemainEvent access s.db).1 ∧ path ∈ names

/-- The table is the map from the paths to their last status, and is reported as such. -/
structure IsMap (s : Recording) : Prop where
  once : ((s.db.mDiskInfo.filter DiskInfo.bUsed).map DiskInfo.szDevPath).Nodup
  status : ∀ d ∈ s.db.mDiskInfo, d.bUsed = true → s.last d.szDevPath = some d.enStatus
  kept : ∀ path status, s.last path = some status →
    ∃ d ∈ s.db.mDiskInfo, d.bUsed = true ∧ d.szDevPath = path
  inside : s.db.strayed = false
  reported : ∀ access path, s.Reported access path ↔
    access path = true ∧ s.last path = some .unknown ∧
      ∀ other, access other = true → s.last other ≠ some .mounted ∧
        s.last other ≠ some .scanMounted

/-- The entry that is found is the one of the path itself, and the path fits into the entry
and, as far as it may be reported, into the event. -/
def FindsOwn (s : Recording) (c : CString × PartitionStatus) : Prop :=
  (∀ d ∈ s.db.mDiskInfo.find? (·.isFor c.1), d.szDevPath = c.1) ∧
    c.1.strlen < maxUdiskNameLen ∧ (c.2 = .unknown → c.1.strlen < maxDevNameLen)

instance (s : Recording) (c : CString × PartitionStatus) : Decidable (s.FindsOwn c) :=
  inferInstanceAs (Decidable (_ ∧ _))

end Recording

/-! ## The two loops -/

theorem isFor_iff {pDevPath : CString} {d : DiskInfo} :
    d.isFor pDevPath = true ↔ d.bUsed = true ∧ pDevPath.bytes <+: d.szDevPath.bytes := by
  have htake : pDevPath.bytes.take pDevPath.strlen = pDevPath.bytes := List.take_length
  rw [DiskInfo.isFor, Bool.and_eq_true, CString.strncmpEq, beq_iff_eq, htake,
    List.prefix_iff_eq_take]
  exact and_congr_right fun _ => eq_comm

/-- An entry is found by its own path. -/
theorem isFor_self {d : DiskInfo} (hused : d.bUsed = true) : d.isFor d.szDevPath = true :=
  isFor_iff.mpr ⟨hused, List.prefix_rfl⟩

theorem changeFirst_some {test : DiskInfo → Bool} {change : DiskInfo → DiskInfo}
    {ds ds' : List DiskInfo} (h : changeFirst test change ds = some ds') :
    ∃ front d back, ds = front ++ d :: back ∧ ds' = front ++ change d :: back ∧
      test d = true ∧ ds.find? test = some d := by
  induction ds generalizing ds' with
  | nil => cases h
  | cons d ds ih =>
      rw [changeFirst] at h
      split at h
      · rename_i hd
        obtain rfl := Option.some.inj h
        exact ⟨[], d, ds, rfl, rfl, hd, by rw [List.find?_cons, hd]⟩
      · rename_i hd
        obtain ⟨rest, hrest, rfl⟩ := Option.map_eq_some_iff.mp h
        obtain ⟨front, e, back, rfl, rfl, he, hfind⟩ := ih hrest
        refine ⟨d :: front, e, back, rfl, rfl, he, ?_⟩
        rw [List.find?_cons, Bool.eq_false_of_not_eq_true hd]
        exact hfind

theorem changeFirst_none {test : DiskInfo → Bool} {change : DiskInfo → DiskInfo}
    {ds : List DiskInfo} (h : changeFirst test change ds = none) : ∀ d ∈ ds, test d = false := by
  induction ds with
  | nil =>
      intro d hd
      cases hd
  | cons d ds ih =>
      rw [changeFirst] at h
      split at h
      · cases h
      · rename_i hd
        intro e he
        rcases List.mem_cons.mp he with rfl | he
        · exact Bool.eq_false_of_not_eq_true hd
        · exact ih (Option.map_eq_none_iff.mp h) e he

/-! ## The table of a run -/

namespace Recording

/-- The paths of the entries in use. -/
def used (ds : List DiskInfo) : List CString := (ds.filter DiskInfo.bUsed).map DiskInfo.szDevPath

theorem mem_used {ds : List DiskInfo} {path : CString} :
    path ∈ used ds ↔ ∃ d ∈ ds, d.bUsed = true ∧ d.szDevPath = path := by
  simp [used, and_assoc]

theorem used_append_used {d : DiskInfo} (hd : d.bUsed = true) (front back : List DiskInfo) :
    used (front ++ d :: back) = used front ++ d.szDevPath :: used back := by
  simp [used, hd]

theorem used_append_unused {d : DiskInfo} (hd : d.bUsed = false) (front back : List DiskInfo) :
    used (front ++ d :: back) = used front ++ used back := by
  simp [used, hd]

/-- What holds of the table after each call. -/
structure Inv (s : Recording) : Prop where
  size : s.db.mDiskInfo.length = udiskMaxDevNum
  once : (used s.db.mDiskInfo).Nodup
  status : ∀ d ∈ s.db.mDiskInfo, d.bUsed = true → s.last d.szDevPath = some d.enStatus
  kept : ∀ path status, s.last path = some status → path ∈ used s.db.mDiskInfo
  free : ∀ d ∈ s.db.mDiskInfo, d.bUsed = false → d.szDevPath = CString.empty
  named : ∀ d ∈ s.db.mDiskInfo, d.bUsed = true → d.enStatus = .unknown →
    d.szDevPath.strlen < maxDevNameLen
  inside : s.db.strayed = false

theorem last_cons (db db' : DiskDb) (calls : List (CString × PartitionStatus))
    (c : CString × PartitionStatus) (path : CString) :
    (⟨db', c :: calls⟩ : Recording).last path =
      if path = c.1 then some c.2 else (⟨db, calls⟩ : Recording).last path := by
  rw [last, last, List.lookup_cons]
  by_cases heq : path = c.1
  · rw [if_pos heq, beq_iff_eq.mpr heq]
  · rw [if_neg heq, beq_eq_false_iff_ne.mpr heq]

/-- A path with a status is one of the paths. -/
theorem mem_paths {s : Recording} {path : CString} {status : PartitionStatus}
    (h : s.last path = some status) : path ∈ s.paths := by
  obtain ⟨db, calls⟩ := s
  induction calls with
  | nil => cases h
  | cons c calls ih =>
      rw [paths, List.mem_dedup, List.map_cons, List.mem_cons]
      rw [last_cons db db] at h
      split at h
      · rename_i heq
        exact .inl heq
      · have hrest := ih h
        rw [paths, List.mem_dedup] at hrest
        exact .inr hrest

theorem inv_init : Inv ⟨udiskInitDiskDb, []⟩ where
  size := rfl
  once := by decide
  status d hd hused := by
    rw [List.eq_of_mem_replicate hd] at hused
    cases hused
  kept path status h := by cases h
  free d hd _ := by rw [List.eq_of_mem_replicate hd]; rfl
  named d hd hused := by
    rw [List.eq_of_mem_replicate hd] at hused
    cases hused
  inside := rfl

/-- The status of an entry is replaced. -/
theorem Inv.replaced {db : DiskDb} {calls : List (CString × PartitionStatus)}
    (h : Inv ⟨db, calls⟩) {front back : List DiskInfo} {d : DiskInfo}
    (hds : db.mDiskInfo = front ++ d :: back) (hused : d.bUsed = true) {status : PartitionStatus}
    (hname : status = .unknown → d.szDevPath.strlen < maxDevNameLen) :
    Inv ⟨{ db with mDiskInfo := front ++ { d with enStatus := status } :: back },
      (d.szDevPath, status) :: calls⟩ := by
  have hpaths : used (front ++ { d with enStatus := status } :: back) = used db.mDiskInfo := by
    rw [hds, used_append_used hused, used_append_used (d := { d with enStatus := status }) hused]
  have honce := h.once
  have hmem : ∀ e ∈ front ++ { d with enStatus := status } :: back,
      e = { d with enStatus := status } ∨ e ∈ db.mDiskInfo ∧ (e.bUsed = true →
        e.szDevPath ≠ d.szDevPath) := by
    intro e he
    have hcases : e = { d with enStatus := status } ∨ e ∈ front ∨ e ∈ back := by
      simpa [or_left_comm] using he
    refine hcases.imp_right fun hin => ⟨?_, fun heused heq => ?_⟩
    · rw [hds]
      simpa [or_left_comm] using Or.inr hin
    · -- the same path would stand twice in the table
      rw [hds] at honce
      rw [used_append_used hused, List.nodup_middle, List.nodup_cons] at honce
      refine honce.1 (List.mem_append.mpr (hin.imp (fun hin => ?_) fun hin => ?_))
      · exact mem_used.mpr ⟨e, hin, heused, heq⟩
      · exact mem_used.mpr ⟨e, hin, heused, heq⟩
  refine ⟨?_, ?_, fun e he heused => ?_, fun path st hlast => ?_, fun e he hefree => ?_,
    fun e he heused hunknown => ?_, h.inside⟩
  · have hsize := h.size
    dsimp only at hsize ⊢
    rw [hds] at hsize
    simpa using hsize
  · dsimp only
    rw [hpaths]
    exact honce
  · rw [last_cons db]
    rcases hmem e he with rfl | ⟨hin, hne⟩
    · exact if_pos rfl
    · rw [if_neg (hne heused)]
      exact h.status e hin heused
  · dsimp only
    rw [hpaths]
    rw [last_cons db] at hlast
    split at hlast
    · rename_i heq
      rw [heq, hds]
      exact mem_used.mpr ⟨d, by simp, hused, rfl⟩
    · exact h.kept path st hlast
  · rcases hmem e he with rfl | ⟨hin, _⟩
    · rw [hused] at hefree
      cases hefree
    · exact h.free e hin hefree
  · rcases hmem e he with rfl | ⟨hin, _⟩
    · exact hname hunknown
    · exact h.named e hin heused hunknown

/-- A free entry is taken for a path that is not in the table. -/
theorem Inv.added {db : DiskDb} {calls : List (CString × PartitionStatus)}
    (h : Inv ⟨db, calls⟩) {front back : List DiskInfo} {d : DiskInfo}
    (hds : db.mDiskInfo = front ++ d :: back) (hfree : d.bUsed = false) {path : CString}
    {status : PartitionStatus} (hnew : path ∉ used db.mDiskInfo)
    (hname : status = .unknown → path.strlen < maxDevNameLen) :
    Inv ⟨{ db with mDiskInfo := front ++ ⟨true, status, path⟩ :: back },
      (path, status) :: calls⟩ := by
  have hbefore : used db.mDiskInfo = used front ++ used back := by
    rw [hds, used_append_unused hfree]
  have hafter : used (front ++ ⟨true, status, path⟩ :: back) =
      used front ++ path :: used back := used_append_used rfl front back
  have hmem : ∀ e ∈ front ++ ⟨true, status, path⟩ :: back,
      e = ⟨true, status, path⟩ ∨ e ∈ db.mDiskInfo := by
    intro e he
    have hcases : e = ⟨true, status, path⟩ ∨ e ∈ front ∨ e ∈ back := by
      simpa [or_left_comm] using he
    refine hcases.imp_right fun hin => ?_
    rw [hds]
    simpa [or_left_comm] using Or.inr hin
  refine ⟨?_, ?_, fun e he heused => ?_, fun other st hlast => ?_, fun e he hefree => ?_,
    fun e he heused hunknown => ?_, h.inside⟩
  · have hsize := h.size
    dsimp only at hsize ⊢
    rw [hds] at hsize
    simpa using hsize
  · have honce := h.once
    dsimp only at honce ⊢
    rw [hbefore] at honce hnew
    rw [hafter, List.nodup_middle, List.nodup_cons]
    exact ⟨hnew, honce⟩
  · rw [last_cons db]
    rcases hmem e he with rfl | hin
    · exact if_pos rfl
    · rw [if_neg fun heq => hnew (mem_used.mpr ⟨e, hin, heused, heq⟩)]
      exact h.status e hin heused
  · rw [last_cons db] at hlast
    dsimp only
    rw [hafter]
    split at hlast
    · rename_i heq
      rw [heq]
      simp
    · have hin := h.kept other st hlast
      dsimp only at hin
      rw [hbefore] at hin
      simpa [or_left_comm] using Or.inr (List.mem_append.mp hin)
  · rcases hmem e he with rfl | hin
    · cases hefree
    · exact h.free e hin hefree
  · rcases hmem e he with rfl | hin
    · exact hname hunknown
    · exact h.named e hin heused hunknown

/-- There is a free entry while one more path may come. -/
theorem Inv.some_free {db : DiskDb} {calls : List (CString × PartitionStatus)}
    (h : Inv ⟨db, calls⟩) {c : CString × PartitionStatus} (hnew : c.1 ∉ used db.mDiskInfo)
    (hfew : (⟨db, c :: calls⟩ : Recording).paths.length ≤ udiskMaxDevNum) :
    ∃ d ∈ db.mDiskInfo, d.bUsed = false := by
  by_contra hnone
  have hall : ∀ d ∈ db.mDiskInfo, d.bUsed = true := fun d hd =>
    Bool.eq_true_of_not_eq_false fun hfree => hnone ⟨d, hd, hfree⟩
  have hlength : (used db.mDiskInfo).length = udiskMaxDevNum := by
    rw [used, List.length_map, List.filter_eq_self.mpr hall]
    exact h.size
  -- all entries and the new path are distinct and recorded
  have hsub : c.1 :: used db.mDiskInfo ⊆ (⟨db, c :: calls⟩ : Recording).paths := by
    intro path hpath
    rw [paths, List.mem_dedup, List.map_cons, List.mem_cons]
    rcases List.mem_cons.mp hpath with rfl | hpath
    · exact .inl rfl
    · obtain ⟨d, hd, hused, rfl⟩ := mem_used.mp hpath
      have hrecorded := mem_paths (h.status d hd hused)
      rw [paths, List.mem_dedup] at hrecorded
      exact .inr hrecorded
  have hnodup : (c.1 :: used db.mDiskInfo).Nodup := List.nodup_cons.mpr ⟨hnew, h.once⟩
  have hle := (hnodup.subperm hsub).length_le
  rw [List.length_cons, hlength] at hle
  omega

theorem inv_step {s : Recording} (h : s.Inv) {c : CString × PartitionStatus}
    (hown : s.FindsOwn c)
    (hfew : (⟨s.db, c :: s.calls⟩ : Recording).paths.length ≤ udiskMaxDevNum) :
    Inv ⟨udiskRecordPartitionStatus s.db c.1 c.2, c :: s.calls⟩ := by
  obtain ⟨db, calls⟩ := s
  obtain ⟨path, status⟩ := c
  obtain ⟨hfind, hfits, hname⟩ := hown
  unfold udiskRecordPartitionStatus
  dsimp only at hfind hfits hname hfew ⊢
  cases hfirst : changeFirst (·.isFor path) (fun d => { d with enStatus := status })
      db.mDiskInfo with
  | some infos =>
      obtain ⟨front, d, back, hds, rfl, hfor, hfound⟩ := changeFirst_some hfirst
      obtain rfl := hfind d hfound
      exact h.replaced hds (isFor_iff.mp hfor).1 hname
  | none =>
      have hnot := changeFirst_none hfirst
      have hnew : path ∉ used db.mDiskInfo := fun hin => by
        obtain ⟨d, hd, hused, rfl⟩ := mem_used.mp hin
        exact absurd (isFor_self hused) (by rw [hnot d hd]; exact Bool.false_ne_true)
      cases hsecond : changeFirst (fun d => !d.bUsed)
          (fun d => ⟨true, status, overlay path d.szDevPath⟩) db.mDiskInfo with
      | none =>
          obtain ⟨d, hd, hfree⟩ := h.some_free hnew hfew
          have hused := changeFirst_none hsecond d hd
          rw [hfree] at hused
          cases hused
      | some infos =>
          obtain ⟨front, d, back, hds, rfl, hfor, -⟩ := changeFirst_some hsecond
          have hfree : d.bUsed = false := by simpa using hfor
          have hd : d ∈ db.mDiskInfo := by
            rw [hds]
            simp
          have hpath : overlay path d.szDevPath = path := by
            rw [h.free d hd hfree]
            apply CString.ext_bytes
            simp [overlay, CString.empty]
          have hinside : (db.strayed || decide (maxUdiskNameLen ≤ path.strlen)) = db.strayed := by
            rw [decide_eq_false (Nat.not_le.mpr hfits), Bool.or_false]
          dsimp only
          rw [hpath, hinside]
          exact h.added hds hfree hnew hname

/-! ## The report -/

theorem foldl_note (access : CString → Bool) (ds : List DiskInfo) (r : Remain) :
    (ds.foldl (Remain.note access) r).s32MountedCount = r.s32MountedCount +
        ds.countP (fun d => d.bUsed && access d.szDevPath &&
          (d.enStatus = .mounted || d.enStatus = .scanMounted)) ∧
      (ds.foldl (Remain.note access) r).stUnknown = r.stUnknown ++
        (ds.filter fun d => d.bUsed && access d.szDevPath && d.enStatus = .unknown).map
          (eventName ·.szDevPath) := by
  induction ds generalizing r with
  | nil => simp
  | cons d ds ih =>
      obtain ⟨hcount, hunknown⟩ := ih (r.note access d)
      rw [List.foldl_cons, hcount, hunknown, List.countP_cons, List.filter_cons]
      cases hused : d.bUsed with
      | false => simp [Remain.note, hused]
      | true =>
          cases haccess : access d.szDevPath with
          | false => simp [Remain.note, hused, haccess]
          | true =>
              cases hstatus : d.enStatus <;>
                simp [Remain.note, hused, haccess, hstatus, Nat.add_assoc, Nat.add_comm 1]

theorem eventName_eq {path : CString} (h : path.strlen < maxDevNameLen) : eventName path = path :=
  CString.strncpy_eq_self (Nat.le_sub_one_of_lt h)

/-- The last status of a path is that of its entry. -/
theorem Inv.last_iff {s : Recording} (h : s.Inv) (path : CString) (st : PartitionStatus) :
    s.last path = some st ↔
      ∃ d ∈ s.db.mDiskInfo, d.bUsed = true ∧ d.szDevPath = path ∧ d.enStatus = st := by
  constructor
  · intro hlast
    obtain ⟨d, hd, hused, rfl⟩ := mem_used.mp (h.kept path st hlast)
    have hst := h.status d hd hused
    rw [hlast] at hst
    exact ⟨d, hd, hused, rfl, (Option.some.inj hst).symm⟩
  · rintro ⟨d, hd, hused, rfl, rfl⟩
    exact h.status d hd hused

/-- Nothing is counted exactly when no present partition is mounted. -/
theorem Inv.countP_mounted {s : Recording} (h : s.Inv) (access : CString → Bool) :
    (s.db.mDiskInfo.countP fun d => d.bUsed && access d.szDevPath &&
        (d.enStatus = .mounted || d.enStatus = .scanMounted)) = 0 ↔
      ∀ other, access other = true → s.last other ≠ some .mounted ∧
        s.last other ≠ some .scanMounted := by
  rw [List.countP_eq_zero]
  constructor
  · intro hall other haccess
    refine ⟨fun hlast => ?_, fun hlast => ?_⟩
    · obtain ⟨d, hd, hused, rfl, hst⟩ := (h.last_iff other _).mp hlast
      exact hall d hd (by simp [hused, haccess, hst])
    · obtain ⟨d, hd, hused, rfl, hst⟩ := (h.last_iff other _).mp hlast
      exact hall d hd (by simp [hused, haccess, hst])
  · intro hall d hd hmounted
    simp only [Bool.and_eq_true, Bool.or_eq_true, decide_eq_true_eq] at hmounted
    obtain ⟨⟨hused, haccess⟩, hst⟩ := hmounted
    have hlast := h.status d hd hused
    obtain ⟨hno, hno'⟩ := hall d.szDevPath haccess
    rcases hst with hst | hst
    · exact hno (hst ▸ hlast)
    · exact hno' (hst ▸ hlast)

/-- The names in the report are whole paths. -/
theorem Inv.mem_names {s : Recording} (h : s.Inv) (access : CString → Bool) (path : CString) :
    path ∈ (s.db.mDiskInfo.filter fun d => d.bUsed && access d.szDevPath &&
        d.enStatus = .unknown).map (eventName ·.szDevPath) ↔
      access path = true ∧ s.last path = some .unknown := by
  rw [List.mem_map, h.last_iff]
  constructor
  · rintro ⟨d, hd, rfl⟩
    simp only [List.mem_filter, Bool.and_eq_true, decide_eq_true_eq] at hd
    obtain ⟨hd, ⟨hused, haccess⟩, hst⟩ := hd
    rw [eventName_eq (h.named d hd hused hst)]
    exact ⟨haccess, d, hd, hused, rfl, hst⟩
  · rintro ⟨haccess, d, hd, hused, rfl, hst⟩
    exact ⟨d, by simp [hd, hused, haccess, hst], eventName_eq (h.named d hd hused hst)⟩

theorem Inv.reported {s : Recording} (h : s.Inv) (access : CString → Bool) (path : CString) :
    s.Reported access path ↔ access path = true ∧ s.last path = some .unknown ∧
      ∀ other, access other = true → s.last other ≠ some .mounted ∧
        s.last other ≠ some .scanMounted := by
  obtain ⟨hcount, hnames⟩ := foldl_note access s.db.mDiskInfo ⟨0, [], []⟩
  rw [Nat.zero_add] at hcount
  rw [List.nil_append] at hnames
  rw [← h.countP_mounted access, ← and_assoc, ← h.mem_names access path, ← hcount, ← hnames]
  unfold Reported udiskReportDiskRemainEvent
  dsimp only
  generalize s.db.mDiskInfo.foldl (Remain.note access) ⟨0, [], []⟩ = r
  constructor
  · rintro ⟨names, hevent, hin⟩
    rcases List.mem_append.mp hevent with hevent | hevent
    · split at hevent
      · cases List.mem_singleton.mp hevent
      · cases hevent
    · split at hevent
      · rename_i hreport
        obtain rfl := RemainEvent.unknownFileSys.inj (List.mem_singleton.mp hevent)
        exact ⟨hin, hreport.1⟩
      · cases hevent
  · rintro ⟨hin, hzero⟩
    refine ⟨r.stUnknown, List.mem_append_right _ ?_, hin⟩
    rw [if_pos ⟨hzero, List.ne_nil_of_mem hin⟩]
    exact List.mem_singleton_self _

theorem paths_mono (db db' : DiskDb) (c : CString × PartitionStatus)
    (calls : List (CString × PartitionStatus)) :
    (⟨db, calls⟩ : Recording).paths.length ≤ (⟨db', c :: calls⟩ : Recording).paths.length := by
  have hsub : (⟨db, calls⟩ : Recording).paths ⊆ (⟨db', c :: calls⟩ : Recording).paths := by
    intro path hpath
    rw [paths, List.mem_dedup] at hpath ⊢
    exact List.mem_cons_of_mem _ hpath
  exact ((List.nodup_dedup _).subperm hsub).length_le

/-- In every run with at most `UDISK_MAX_DEV_NUM` distinct paths whose calls find the entry of
their own path or none, the table is the map from the paths to their last status. -/
theorem isMap_of_findsOwn {s : Recording} (hreach : recordingMachine.ReachWhen FindsOwn s)
    (hfew : s.paths.length ≤ udiskMaxDevNum) : s.IsMap := by
  have hinv : s.paths.length ≤ udiskMaxDevNum → s.Inv := by
    refine hreach.invariant (I := fun s => s.paths.length ≤ udiskMaxDevNum → s.Inv) ?_ ?_
    · rintro _ rfl _
      exact inv_init
    · intro s c s' hs hown hstep hfew'
      obtain rfl := Option.some.inj hstep
      exact inv_step (hs ((paths_mono s.db _ c s.calls).trans hfew')) hown hfew'
  have h := hinv hfew
  exact ⟨h.once, h.status, fun path status hlast => mem_used.mp (h.kept path status hlast),
    h.inside, h.reported⟩

def devSda : CString := ⟨[47, 100, 101, 118, 47, 115, 100, 97], by decide⟩

def devSda1 : CString := ⟨[47, 100, 101, 118, 47, 115, 100, 97, 49], by decide⟩

/-- The disk first, then a partition of it that is recorded twice. -/
def diskFirst : List (CString × PartitionStatus) :=
  [(devSda, .mounted), (devSda1, .scan), (devSda1, .unknown)]

theorem isMap_diskFirst : IsMap ((recordingMachine.runWhen (fun s c => decide (s.FindsOwn c))
    ⟨udiskInitDiskDb, []⟩ diskFirst).get (by decide)) :=
  isMap_of_findsOwn (Machine.reachWhen_of_runWhen (fun _ _ h => of_decide_eq_true h) _ (.init rfl)
    (Option.some_get _).symm) (by decide)

/-- The partition first, then the disk. -/
def diskLast : List (CString × PartitionStatus) := [(devSda1, .unknown), (devSda, .mounted)]

/-- The status of the disk goes into the entry of the partition. -/
theorem partition_overwritten :
    recordingMachine.Reach ((recordingMachine.run ⟨udiskInitDiskDb, []⟩ diskLast).get (by decide)) ∧
      ((recordingMachine.run ⟨udiskInitDiskDb, []⟩ diskLast).get (by decide)).paths.length ≤
        udiskMaxDevNum ∧
      ¬ ((recordingMachine.run ⟨udiskInitDiskDb, []⟩ diskLast).get (by decide)).IsMap := by
  refine ⟨Machine.reach_of_run diskLast rfl (Option.some_get _).symm, by decide, fun h => ?_⟩
  obtain ⟨d, hd, hused, hpath⟩ := h.kept devSda .mounted (by decide)
  have hall : ∀ d ∈ ((recordingMachine.run ⟨udiskInitDiskDb, []⟩ diskLast).get
      (by decide)).db.mDiskInfo, d.szDevPath ≠ devSda := by decide
  exact hall d hd hpath

end Recording
end Udisk
end AndroidLinux
