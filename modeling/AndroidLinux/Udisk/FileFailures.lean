import AndroidLinux.Udisk.FileListing

/-!
# Listing when allocations fail

The scans do not look at the result of `UDISK_AddFileToList`, and then set the type of the
entry `u32FileNum - 1`.  When the entry was not added, this is the entry that was added
last, or none at all.  The scans are safe exactly as long as every subdirectory and every
file that cannot be added comes behind an entry of the same type.
-/

namespace AndroidLinux
namespace Udisk

/-- Every use of the list is inside of the filled entries, and after a failure it leaves the
type of the entry as it is. -/
def SafeWrites (writes : List TypeWrite) : Prop :=
  ∀ w ∈ writes, w.index < w.u32FileNum ∧ (w.added = false → w.before = some w.after)

/-- Behind `u32FileNum` entries of which the last one has the type `last`, every candidate
that cannot be added and is a subdirectory or a file has the type of the entry that has been
added last.  Nothing is added any more from `limit` entries on. -/
def Harmless (limit : Nat) (malloc : Nat → Bool) :
    Option Nat → Nat → Nat → List Candidate → Prop
  | _, _, _, [] => True
  | last, u32FileNum, mallocs, c :: cs =>
      if limit ≤ u32FileNum then True
      else if (nodeMalloc malloc mallocs).1 = true then
        Harmless limit malloc (some c.kind.u32Type) (u32FileNum + 1)
          (nodeMalloc malloc mallocs).2 cs
      else
        (c.kind ≠ .dots → last = some c.kind.u32Type) ∧
          Harmless limit malloc last u32FileNum (nodeMalloc malloc mallocs).2 cs

/-- The type of the last entry. -/
def FileList.lastType (l : FileList) : Option Nat :=
  l.files.getLast?.bind FileInfo.u32Type

theorem safeWrites_append (writes : List TypeWrite) (w : TypeWrite) :
    SafeWrites (writes ++ [w]) ↔
      SafeWrites writes ∧ w.index < w.u32FileNum ∧ (w.added = false → w.before = some w.after) := by
  simp only [SafeWrites, List.mem_append, List.mem_singleton]
  constructor
  · intro h
    exact ⟨fun w' hw' => h w' (.inl hw'), h w (.inr rfl)⟩
  · rintro ⟨h, hw⟩ w' (hw' | rfl)
    · exact h w' hw'
    · exact hw

/-- Setting a type after a failure is safe exactly if the last entry has that type. -/
theorem safeWrites_setType {l : FileList} (t : Nat)
    (hroom : l.files.length < udiskReserveMaxFileNum) :
    SafeWrites (setType t false l).writes ↔ SafeWrites l.writes ∧ l.lastType = some t := by
  unfold udiskReserveMaxFileNum at hroom
  simp only [setType, safeWrites_append, forall_const, FileList.lastType]
  cases hfiles : l.files with
  | nil => simp
  | cons f fs =>
      rw [hfiles, List.length_cons] at hroom
      have hindex : (fs.length + 1 + (2 ^ 32 - 1)) % 2 ^ 32 = fs.length := by omega
      rw [List.length_cons, hindex, List.getLast?_eq_getElem?, List.length_cons,
        Nat.add_sub_cancel]
      simp

/-- Then it changes neither the number of the entries nor the last type. -/
theorem lastType_setType {l : FileList} (t : Nat)
    (hroom : l.files.length < udiskReserveMaxFileNum) (hlast : l.lastType = some t) :
    (setType t false l).lastType = some t := by
  unfold udiskReserveMaxFileNum at hroom
  simp only [setType, FileList.lastType] at hlast ⊢
  cases hfiles : l.files with
  | nil =>
      rw [hfiles] at hlast
      cases hlast
  | cons f fs =>
      rw [hfiles, List.length_cons] at hroom
      have hindex : (fs.length + 1 + (2 ^ 32 - 1)) % 2 ^ 32 = fs.length := by omega
      rw [List.length_cons, hindex, List.getLast?_eq_getElem?, List.length_modify,
        List.length_cons, Nat.add_sub_cancel, List.getElem?_modify_eq]
      simp

@[simp] theorem length_setType (t : Nat) (added : Bool) (l : FileList) :
    (setType t added l).files.length = l.files.length := by
  simp [setType]

/-- Listing candidates is safe exactly if the failures among them are harmless. -/
theorem safeWrites_listAll (h : Host) {limit : Nat} (hlimit : limit ≤ udiskReserveMaxFileNum)
    (cs : List Candidate) (hcs : ∀ c ∈ cs, c.Proper) (l : FileList) :
    SafeWrites (listAll h limit l cs).writes ↔
      SafeWrites l.writes ∧ Harmless limit h.malloc l.lastType l.files.length l.mallocs cs := by
  induction cs generalizing l with
  | nil => simp [Harmless]
  | cons c cs ih =>
      rw [Harmless]
      by_cases hfull : limit ≤ l.files.length
      · rw [listAll_full hfull, if_pos hfull, and_true]
      have hroom : l.files.length < udiskReserveMaxFileNum := by omega
      rw [if_neg hfull, listAll_cons, listUpTo, if_neg hfull,
        ih (fun c hc => hcs c (List.mem_cons_of_mem _ hc))]
      cases hok : (nodeMalloc h.malloc l.mallocs).1 with
      | true =>
          rw [listEntry_added (hcs c List.mem_cons_self) hroom hok, if_pos rfl]
          have hlast (writes : List TypeWrite) :
              FileList.lastType ⟨l.files ++ [fileOf h c l.files.length],
                (nodeMalloc h.malloc l.mallocs).2, writes⟩ = some c.kind.u32Type := by
            simp [FileList.lastType, fileOf]
          rw [hlast, List.length_append, List.length_singleton]
          -- the use of an entry that was added is safe
          refine and_congr_left fun _ => ?_
          unfold Kind.typeWrite
          split
          · rw [List.append_nil]
          · simp [safeWrites_append]
      | false =>
          rw [listEntry_failed hroom hok]
          simp only [Bool.false_eq_true, if_false]
          by_cases hdots : c.kind = .dots
          · rw [if_pos hdots]
            simp [hdots, FileList.lastType]
          · rw [if_neg hdots]
            -- the list as the failed call leaves it
            obtain ⟨l', hl'⟩ : ∃ l' : FileList,
                l' = { l with mallocs := (nodeMalloc h.malloc l.mallocs).2 } := ⟨_, rfl⟩
            have hlast' : l'.lastType = l.lastType := by rw [hl']; rfl
            have hfiles : l'.files.length = l.files.length := by rw [hl']
            have hwrites : l'.writes = l.writes := by rw [hl']
            have hmallocs : (setType c.kind.u32Type false l').mallocs =
                (nodeMalloc h.malloc l.mallocs).2 := by rw [hl']; rfl
            have hroom' : l'.files.length < udiskReserveMaxFileNum := by omega
            rw [← hl', safeWrites_setType _ hroom', hlast', length_setType, hfiles, hwrites,
              hmallocs, and_assoc]
            refine and_congr_right fun _ => ?_
            constructor
            · rintro ⟨hlast, hrest⟩
              rw [lastType_setType _ hroom' (hlast'.trans hlast)] at hrest
              rw [hlast]
              exact ⟨fun _ => rfl, hrest⟩
            · rintro ⟨himp, hrest⟩
              have hlast := himp hdots
              rw [lastType_setType _ hroom' (hlast'.trans hlast)]
              rw [hlast] at hrest
              exact ⟨hlast, hrest⟩

/-- What a scan of a directory visits that may not open. -/
def visited (h : Host) (opt : ScanOpt) (window : Nat → Nat → Bool) (pszDir : List UInt8)
    (opens : Bool) (entries : Entries) (start queries : Nat) : List Candidate :=
  if opens then (visit h opt window pszDir start 0 entries queries).1 else []

/-- Both scans are safe exactly if the failures among what they visit are harmless, from any
call of `malloc` and any question to the callback on. -/
theorem scans_safe_iff (h : Host) (opt : ScanOpt) (pszDir : List UInt8) (opens : Bool)
    (entries : Entries) (mallocs queries : Nat) :
    (SafeWrites (udiskScanDir h opt pszDir opens entries
          ⟨⟨[], mallocs, []⟩, queries⟩).2.list.writes ↔
        Harmless udiskReserveMaxFileNum h.malloc none 0 mallocs
          (visited h opt (fun _ _ => true) pszDir opens entries 0 queries)) ∧
      ∀ u32StartIndex u32FileCount,
        (SafeWrites (udiskScanDirWithIndex h opt pszDir opens entries u32StartIndex
            u32FileCount ⟨⟨[], mallocs, []⟩, queries⟩).2.list.writes ↔
          Harmless (pageLimit u32FileCount) h.malloc none 0 mallocs
            (visited h opt (inPage u32FileCount) pszDir opens entries u32StartIndex
              queries)) := by
  have hnone : SafeWrites [] := fun w hw => absurd hw List.not_mem_nil
  have hlast : FileList.lastType ⟨[], mallocs, []⟩ = none := rfl
  cases opens with
  | false => simp [udiskScanDir, udiskScanDirWithIndex, visited, Harmless, hnone]
  | true =>
      simp only [udiskScanDir, udiskScanDirWithIndex, visited, if_true]
      constructor
      · rw [(scanDirLoop_follows opt entries pszDir 0 0 _).list,
          safeWrites_listAll h le_rfl _ (proper_visit h opt _ entries pszDir 0 0 queries), hlast]
        simp [hnone]
      · intro u32StartIndex u32FileCount
        have hlimit : pageLimit u32FileCount ≤ udiskReserveMaxFileNum := Nat.min_le_right _ _
        rw [(withIndexLoop_follows opt u32FileCount entries pszDir u32StartIndex 0 _).list,
          safeWrites_listAll h hlimit _
            (proper_visit h opt _ entries pszDir u32StartIndex 0 queries), hlast]
        simp [hnone]

/-- A host on which only the first `n` calls of `malloc` succeed. -/
def poorHost (n : Nat) : Host :=
  { plainHost with malloc := fun k => decide (k < n) }

/-- With no memory for the first entry the index is that in front of the list, and with
memory for the subdirectory only, the file behind it makes a file of it. -/
theorem failures_unsafe :
    ¬ SafeWrites (udiskScanDir (poorHost 0) everything [slash] true
        (.cons [97] .reg false .nil .nil) ⟨FileList.empty, 0⟩).2.list.writes ∧
      ¬ SafeWrites (udiskScanDir (poorHost 3) everything [slash] true
        (.cons [97] .dir true .nil (.cons [98] .reg false .nil .nil))
        ⟨FileList.empty, 0⟩).2.list.writes := by
  unfold SafeWrites
  decide

end Udisk
end AndroidLinux
