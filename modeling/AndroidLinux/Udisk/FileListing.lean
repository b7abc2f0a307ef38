import AndroidLinux.Udisk.FileEntries

/-!
# The file list and the file count

`UDISK_ScanDirForFileNum` counts the enumeration of a directory, and `UDISK_ScanDir` lists
it up to `UDISK_RESERVE_MAX_FILE_NUM` entries.  The full name of `"."` is the directory
itself, and that of `".."` the directory above.
-/

namespace AndroidLinux
namespace Udisk

/-- The count is that of the enumeration, as a `HI_U32`. -/
theorem fileNumLoop_eq (opt : ScanOpt) (entries : Entries) :
    ∀ (pszDir : List UInt8) (u32FileNum : Nat), u32FileNum < 2 ^ 32 →
      fileNumLoop opt pszDir entries u32FileNum =
        (u32FileNum + (walk opt pszDir entries).length) % 2 ^ 32 := by
  induction entries with
  | nil =>
      intro pszDir u32FileNum hlt
      exact (Nat.mod_eq_of_lt hlt).symm
  | cons dName dType opens sub rest ihSub ihRest =>
      intro pszDir u32FileNum hlt
      have hown : (if (plan opt pszDir dName dType).lists.isSome then
            (u32FileNum + 1) % 2 ^ 32 else u32FileNum) =
          (u32FileNum + ((plan opt pszDir dName dType).candidate pszDir dName).length) %
            2 ^ 32 := by
        cases hlists : (plan opt pszDir dName dType).lists with
        | none =>
            simp only [Plan.candidate, hlists, Option.isSome_none, Bool.false_eq_true, if_false,
              List.length_nil]
            omega
        | some k => simp [Plan.candidate, hlists]
      rw [fileNumLoop, walk]
      simp only [hown, List.length_append]
      split
      · rw [ihSub _ _ (Nat.mod_lt _ (by decide)), ihRest _ _ (Nat.mod_lt _ (by decide))]
        omega
      · rw [ihRest _ _ (Nat.mod_lt _ (by decide)), List.length_nil]
        omega

/-- The node `f` lists the candidate `c` as number `i`. -/
structure ListedAs (h : Host) (c : Candidate) (i : Nat) (f : FileInfo) : Prop where
  index : f.u32Index = i
  type : f.u32Type = some c.kind.u32Type
  shortName : f.pszShortName = c.filename
  here : c.filename = [dot] → f.pszFullName = c.pathname
  above : c.filename = [dot, dot] → f.pszFullName = upperDir h c.pathname
  path : c.filename ≠ [dot] → c.filename ≠ [dot, dot] →
    f.pszFullName = subFilePath c.pathname c.filename

theorem listedAs_fileOf (h : Host) (c : Candidate) (i : Nat) : ListedAs h c i (fileOf h c i) where
  index := rfl
  type := rfl
  shortName := rfl
  here hdot := by simp [fileOf, newFile, fullName, hdot]
  above hdots := by simp [fileOf, newFile, fullName, hdots]
  path hdot hdots := by simp [fileOf, newFile, fullName, hdot, hdots]

/-- The list that `UDISK_ScanDir` makes. -/
theorem udiskScanDir_files {h : Host} (hq : h.Undisturbed) (opt : ScanOpt)
    (pszDir : List UInt8) (opens : Bool) (entries : Entries) :
    (udiskScanDir h opt pszDir opens entries ⟨FileList.empty, 0⟩).2.list.files =
      filesFrom h 0 ((enumeration opt pszDir opens entries).take udiskReserveMaxFileNum) := by
  cases opens with
  | false => rfl
  | true =>
      have hfollows := (scanDirLoop_follows (h := h) opt entries pszDir 0 0
        ⟨FileList.empty, 0⟩).list
      rw [visit_all hq] at hfollows
      have hproper := proper_visit h opt (fun _ _ => true) entries pszDir 0 0 0
      rw [visit_all hq] at hproper
      simp only [udiskScanDir, enumeration, if_true, hfollows]
      rw [listAll_undisturbed hq le_rfl _ hproper _ (Nat.zero_le _)]
      rfl

/-- The count and the list agree with the enumeration. -/
theorem udiskScanDir_counted {h : Host} (hq : h.Undisturbed) (opt : ScanOpt)
    (pszDir : List UInt8) (opens : Bool) (entries : Entries) :
    let listed := enumeration opt pszDir opens entries
    let files := (udiskScanDir h opt pszDir opens entries ⟨FileList.empty, 0⟩).2.list.files
    (udiskScanDirForFileNum opt pszDir opens entries 0).2 = listed.length % 2 ^ 32 ∧
      files.length = min listed.length udiskReserveMaxFileNum ∧
      ∀ i c, i < udiskReserveMaxFileNum → listed[i]? = some c →
        ∃ f, files[i]? = some f ∧ ListedAs h c i f := by
  intro listed files
  have hfiles : files = filesFrom h 0 (listed.take udiskReserveMaxFileNum) :=
    udiskScanDir_files hq opt pszDir opens entries
  refine ⟨?_, ?_, fun i c hi hc => ⟨fileOf h c i, ?_, listedAs_fileOf h c i⟩⟩
  · cases hopens : opens with
    | false => simp [udiskScanDirForFileNum, listed, enumeration, hopens]
    | true =>
        simp only [udiskScanDirForFileNum, listed, enumeration, hopens, if_true]
        rw [fileNumLoop_eq opt entries pszDir 0 (by decide), Nat.zero_add]
  · rw [hfiles, length_filesFrom, List.length_take, Nat.min_comm]
  · rw [hfiles, getElem?_filesFrom, List.getElem?_take_of_lt hi, hc, Option.map_some, Nat.zero_add]

/-- A host on which nothing fails, with its mounts below `/mnt`. -/
def plainHost : Host where
  mUDiskRoot := [slash, 109, 110, 116]
  stat64 _ := none
  malloc _ := true
  interrupted _ := false

theorem plainHost_undisturbed : plainHost.Undisturbed :=
  ⟨fun _ => rfl, fun _ => rfl⟩

/-- All entries of all directories. -/
def everything : ScanOpt where
  bRecursive := true
  enFilterType := 7
  pFileFilter := some [dot, 42]

/-- A directory with `"."`, and with a subdirectory `"a"` that has a file `"b"`. -/
def smallDir : Entries :=
  .cons [dot] .dir true .nil
    (.cons [97] .dir true (.cons [98, dot, 99] .reg false .nil .nil) .nil)

theorem udiskScanDir_counted_small :
    (udiskScanDirForFileNum everything [slash] true smallDir 0).2 =
        (enumeration everything [slash] true smallDir).length % 2 ^ 32 ∧
      (udiskScanDir plainHost everything [slash] true smallDir
          ⟨FileList.empty, 0⟩).2.list.files.length =
        min (enumeration everything [slash] true smallDir).length udiskReserveMaxFileNum ∧
      ∀ i c, i < udiskReserveMaxFileNum →
        (enumeration everything [slash] true smallDir)[i]? = some c →
        ∃ f, (udiskScanDir plainHost everything [slash] true smallDir
            ⟨FileList.empty, 0⟩).2.list.files[i]? = some f ∧ ListedAs plainHost c i f :=
  udiskScanDir_counted plainHost_undisturbed everything [slash] true smallDir

/-- The full name of `"."` is not the path with a slash and `"."`. -/
theorem dot_fullName :
    ∃ c f, (enumeration everything [slash] true smallDir)[0]? = some c ∧
      (udiskScanDir plainHost everything [slash] true smallDir
        ⟨FileList.empty, 0⟩).2.list.files[0]? = some f ∧
      f.pszFullName ≠ subFilePath c.pathname c.filename := by
  refine ⟨⟨[slash], [dot], .dots⟩, fileOf plainHost ⟨[slash], [dot], .dots⟩ 0, by decide, ?_,
    by decide⟩
  rw [udiskScanDir_files plainHost_undisturbed]
  rfl

end Udisk
end AndroidLinux
