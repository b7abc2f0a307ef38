import AndroidLinux.Udisk.Partitions

/-!
# What `UDISK_DetachDisk` does to the file system

The calls of one detach in their order: callbacks, `umount2`, `sleep`, `rmdir` and the
freeing of nodes.  The answers of `umount2` are given in the order of its calls.

`u32CheckUdiskTimes` is set once and counts the failures of all partitions of the disk, so
that a partition has only the tries that those before it have left.
-/

namespace AndroidLinux
namespace Udisk

open Lib

/-- A disk node with the nodes of its list. -/
structure AttachedDisk where
  szDevPath : CString
  szMntPath : CString
  parts : List PartitionInfo
  deriving DecidableEq

/-- The calls of `UDISK_DetachDisk`; `k` counts the partitions of the disk.  An index is
missing when it has not been found. -/
inductive DetachCall
  | umounted (k : Nat) (index : Option (Nat × Nat)) (szMntPath : CString)
  | umount (k : Nat) (target : CString) (ret : Int32)
  | sleep
  | rmdirPart (k : Nat) (szMntPath : CString)
  | freePart (k : Nat)
  | plugout (u32DiskIndex : Option Nat) (szMntPath : CString)
  | rmdirDisk (szMntPath : CString)
  | freeDisk
  deriving DecidableEq

/-- The comparison of a path with one in a node. -/
def samePath (pDevPath szDevPath : CString) : Bool :=
  CString.strncmpEq maxUdiskNameLen pDevPath szDevPath

/-- `UDISK_GetPartIndexByDevPath`. -/
def udiskGetPartIndexByDevPath (disks : List AttachedDisk) (pDevPath : CString) :
    Option (Nat × Nat) :=
  disks.zipIdx.findSome? fun d =>
    (d.1.parts.findIdx? fun p => samePath pDevPath p.szDevPath).map fun j => (d.2, j)

/-- `UDISK_GetDiskIndexByDevPath`. -/
def udiskGetDiskIndexByDevPath (disks : List AttachedDisk) (pDevPath : CString) : Option Nat :=
  disks.findIdx? fun d => samePath pDevPath d.szDevPath

/-- The `while` loop around `UDISK_Umount`: its calls, the tries that are left and the
number of the next call of `umount2`. -/
def umountLoop (results : Nat → Int32) (k : Nat) (target : CString) :
    (u32CheckUdiskTimes call : Nat) → List DetachCall × Nat × Nat
  | 0, call => ([], 0, call)
  | times + 1, call =>
      if results call = 0 then ([.umount k target 0], times + 1, call + 1)
      else
        let r := umountLoop results k target times (call + 1)
        (.umount k target (results call) :: .sleep :: r.1, r.2)

/-- The first loop over the partitions. -/
def umountParts (disks : List AttachedDisk) (results : Nat → Int32) :
    (k u32CheckUdiskTimes call : Nat) → List PartitionInfo → List DetachCall
  | _, _, _, [] => []
  | k, times, call, p :: parts =>
      if p.bMounted then
        let r := umountLoop results k p.szMntPath times call
        .umounted k (udiskGetPartIndexByDevPath disks p.szDevPath) (copyPath p.szMntPath) ::
          (r.1 ++ .rmdirPart k p.szMntPath :: umountParts disks results (k + 1) r.2.1 r.2.2 parts)
      else umountParts disks results (k + 1) times call parts

/-- What is done to the disk node that has been found. -/
def detachNode (disks : List AttachedDisk) (results : Nat → Int32) (d : AttachedDisk) :
    List DetachCall :=
  umountParts disks results 0 3 0 d.parts ++
    ((List.range d.parts.length).map .freePart ++
      [.plugout (udiskGetDiskIndexByDevPath disks d.szDevPath) (copyPath d.szMntPath),
        .rmdirDisk d.szMntPath, .freeDisk])

/-- `UDISK_DetachDisk`, with the calls it makes. -/
def detachDisk (disks : List AttachedDisk) (results : Nat → Int32) (pDevPath : CString) :
    List DetachCall × List AttachedDisk :=
  match disks.find? fun d => samePath pDevPath d.szDevPath with
  | none => ([], disks)
  | some d => (detachNode disks results d, disks.eraseP fun d => samePath pDevPath d.szDevPath)

/-! ## The purpose -/

/-- The directory or the node of a partition goes. -/
def DetachCall.removes (k : Nat) : DetachCall → Bool
  | .rmdirPart j _ => j = k
  | .freePart j => j = k
  | _ => false

/-- The answer of a call of `umount2` for a partition. -/
def DetachCall.answer (k : Nat) : DetachCall → Option Int32
  | .umount j _ ret => if j = k then some ret else none
  | _ => none

/-- The answers of `umount2` for a partition before its directory and its node go. -/
def tried (k : Nat) (calls : List DetachCall) : List Int32 :=
  (calls.takeWhile fun c => !c.removes k).filterMap (DetachCall.answer k)

/-- At least one call, and further ones up to the third while they fail. -/
def Retried (answers : List Int32) : Prop :=
  answers.length ≤ 3 ∧ (∀ ret ∈ answers.dropLast, ret ≠ 0) ∧
    (answers.getLast? = some 0 ∨ answers.length = 3)

instance (answers : List Int32) : Decidable (Retried answers) :=
  decidable_of_iff (answers.length ≤ 3 ∧ (answers.dropLast.all fun ret => ret ≠ 0) = true ∧
    (answers.getLast? = some 0 ∨ answers.length = 3)) (by simp [Retried])

/-- Every mounted partition has been unmounted, or tried three times. -/
def UnmountsAll (parts : List PartitionInfo) (calls : List DetachCall) : Prop :=
  ∀ k p, parts[k]? = some p → p.bMounted = true → Retried (tried k calls)

/-- The calls of `umount2` that fail, among `n` from `call` on. -/
def failures (results : Nat → Int32) : (call n : Nat) → Nat
  | _, 0 => 0
  | call, n + 1 => (if results call = 0 then 0 else 1) + failures results (call + 1) n

/-- All of `n` calls from `call` on succeed and the three behind them fail. -/
def FailsAtLast (results : Nat → Int32) (call n : Nat) : Prop :=
  failures results call n = 0 ∧ results (call + n) ≠ 0 ∧ results (call + n + 1) ≠ 0 ∧
    results (call + n + 2) ≠ 0

instance (results : Nat → Int32) (call n : Nat) : Decidable (FailsAtLast results call n) :=
  inferInstanceAs (Decidable (_ ∧ _))

/-- The number of mounted partitions. -/
def mountedCount (parts : List PartitionInfo) : Nat := parts.countP PartitionInfo.bMounted

/-- The tries suffice: at most two calls fail, or just the three for the last partition. -/
def TriesSuffice (results : Nat → Int32) (mounted : Nat) : Prop :=
  failures results 0 (mounted + 2) ≤ 2 ∨ 0 < mounted ∧ FailsAtLast results 0 (mounted - 1)

instance (results : Nat → Int32) (mounted : Nat) : Decidable (TriesSuffice results mounted) :=
  inferInstanceAs (Decidable (_ ∨ _))

/-! ## The calls for one partition -/

theorem tried_cons {k : Nat} {c : DetachCall} (h : c.removes k = false)
    (calls : List DetachCall) : tried k (c :: calls) = (c.answer k).toList ++ tried k calls := by
  rw [tried, List.takeWhile_cons, h, Bool.not_false, if_pos rfl, List.filterMap_cons]
  cases c.answer k <;> rfl

theorem tried_append {k : Nat} {calls : List DetachCall}
    (h : ∀ c ∈ calls, c.removes k = false ∧ c.answer k = none) (rest : List DetachCall) :
    tried k (calls ++ rest) = tried k rest := by
  induction calls with
  | nil => rfl
  | cons c calls ih =>
      obtain ⟨hremoves, hanswer⟩ := h c List.mem_cons_self
      have hrest := ih fun c hc => h c (List.mem_cons_of_mem _ hc)
      rw [List.cons_append, tried_cons hremoves, hanswer, hrest]
      rfl

/-- The answers of the loop. -/
def loopAnswers (results : Nat → Int32) : (times call : Nat) → List Int32
  | 0, _ => []
  | times + 1, call =>
      if results call = 0 then [0] else results call :: loopAnswers results times (call + 1)

theorem tried_umountLoop (results : Nat → Int32) (k : Nat) (target : CString)
    (times call : Nat) (path : CString) (rest : List DetachCall) :
    tried k ((umountLoop results k target times call).1 ++ .rmdirPart k path :: rest) =
      loopAnswers results times call := by
  have hanswer : ∀ ret, (DetachCall.umount k target ret).answer k = some ret := fun ret =>
    if_pos rfl
  have hend : tried k (.rmdirPart k path :: rest) = [] := by
    simp [tried, DetachCall.removes]
  induction times generalizing call with
  | zero => exact hend
  | succ times ih =>
      rw [umountLoop, loopAnswers]
      split
      · rw [List.singleton_append, tried_cons rfl, hanswer, hend]
        rfl
      · rw [List.cons_append, List.cons_append, tried_cons rfl, tried_cons rfl, hanswer, ih]
        rfl

theorem umountLoop_of_ne {results : Nat → Int32} {j k : Nat} (hne : j ≠ k) (target : CString)
    (times call : Nat) : ∀ c ∈ (umountLoop results j target times call).1,
      c.removes k = false ∧ c.answer k = none := by
  induction times generalizing call with
  | zero =>
      intro c hc
      cases hc
  | succ times ih =>
      intro c hc
      rw [umountLoop] at hc
      split at hc
      · obtain rfl := List.mem_singleton.mp hc
        exact ⟨rfl, if_neg hne⟩
      · rcases List.mem_cons.mp hc with rfl | hc
        · exact ⟨rfl, if_neg hne⟩
        rcases List.mem_cons.mp hc with rfl | hc
        · exact ⟨rfl, rfl⟩
        · exact ih (call + 1) c hc

/-- The partitions from `k` on are tried as they should be. -/
def AllRetried (k : Nat) (parts : List PartitionInfo) (calls : List DetachCall) : Prop :=
  ∀ i p, parts[i]? = some p → p.bMounted = true → Retried (tried (k + i) calls)

theorem allRetried_cons {k : Nat} {p : PartitionInfo} {parts : List PartitionInfo}
    {calls : List DetachCall} : AllRetried k (p :: parts) calls ↔
      (p.bMounted = true → Retried (tried k calls)) ∧ AllRetried (k + 1) parts calls := by
  constructor
  · intro h
    refine ⟨fun hp => h 0 p rfl hp, fun i q hq hmounted => ?_⟩
    have hnext := h (i + 1) q hq hmounted
    rwa [Nat.add_comm i 1, ← Nat.add_assoc] at hnext
  · rintro ⟨hhead, htail⟩ i q hq hmounted
    cases i with
    | zero =>
        obtain rfl := Option.some.inj hq
        exact hhead hmounted
    | succ i =>
        have hnext := htail i q hq hmounted
        rwa [Nat.add_assoc, Nat.add_comm 1 i] at hnext

/-- The calls for a partition before those of the others. -/
theorem AllRetried.append_iff {k : Nat} {calls : List DetachCall}
    (h : ∀ c ∈ calls, ∀ j, k ≤ j → c.removes j = false ∧ c.answer j = none)
    (parts : List PartitionInfo) (rest : List DetachCall) :
    AllRetried k parts (calls ++ rest) ↔ AllRetried k parts rest := by
  unfold AllRetried
  refine forall_congr' fun i => forall_congr' fun p => ?_
  rw [tried_append fun c hc => h c hc (k + i) (Nat.le_add_right k i)]

/-- One partition of the first loop. -/
theorem allRetried_umountParts_cons (disks : List AttachedDisk) (results : Nat → Int32)
    (k times call : Nat) (p : PartitionInfo) (parts : List PartitionInfo)
    (rest : List DetachCall) :
    AllRetried k (p :: parts) (umountParts disks results k times call (p :: parts) ++ rest) ↔
      if p.bMounted then
        Retried (loopAnswers results times call) ∧
          AllRetried (k + 1) parts (umountParts disks results (k + 1)
            (umountLoop results k p.szMntPath times call).2.1
            (umountLoop results k p.szMntPath times call).2.2 parts ++ rest)
      else AllRetried (k + 1) parts
        (umountParts disks results (k + 1) times call parts ++ rest) := by
  rw [allRetried_cons, umountParts]
  cases hmounted : p.bMounted with
  | false =>
      simp only [Bool.false_eq_true, if_false, false_imp_iff, true_and]
  | true =>
      simp only [if_true, true_imp_iff, List.cons_append, List.append_assoc]
      refine and_congr ?_ ?_
      · have hskip : ∀ c ∈ [DetachCall.umounted k (udiskGetPartIndexByDevPath disks p.szDevPath)
            (copyPath p.szMntPath)], c.removes k = false ∧ c.answer k = none := fun c hc => by
          obtain rfl := List.mem_singleton.mp hc
          exact ⟨rfl, rfl⟩
        have htried := tried_append hskip
        simp only [List.singleton_append] at htried
        rw [htried, tried_umountLoop]
      · -- all calls up to `rmdir` are for this partition
        have hothers : ∀ c ∈ DetachCall.umounted k
            (udiskGetPartIndexByDevPath disks p.szDevPath) (copyPath p.szMntPath) ::
              ((umountLoop results k p.szMntPath times call).1 ++
                [.rmdirPart k p.szMntPath]), ∀ j, k + 1 ≤ j →
              c.removes j = false ∧ c.answer j = none := by
          intro c hc j hj
          have hne : k ≠ j := by omega
          rcases List.mem_cons.mp hc with rfl | hc
          · exact ⟨rfl, rfl⟩
          rcases List.mem_append.mp hc with hc | hc
          · exact umountLoop_of_ne hne p.szMntPath times call c hc
          · obtain rfl := List.mem_singleton.mp hc
            exact ⟨decide_eq_false hne, rfl⟩
        have happend := AllRetried.append_iff hothers parts
        simp only [List.cons_append, List.append_assoc, List.nil_append] at happend
        exact happend _

/-! ## The tries that are left -/

/-- What becomes of `mounted` partitions with the tries that are left, one after the other. -/
def Suffices (results : Nat → Int32) : (times call mounted : Nat) → Prop
  | _, _, 0 => True
  | times, call, mounted + 1 =>
      Retried (loopAnswers results times call) ∧
        Suffices results (umountLoop results 0 CString.empty times call).2.1
          (umountLoop results 0 CString.empty times call).2.2 mounted

/-- The counters do not depend on the partition. -/
theorem umountLoop_counters (results : Nat → Int32) (k j : Nat) (target path : CString)
    (times call : Nat) : (umountLoop results k target times call).2 =
      (umountLoop results j path times call).2 := by
  induction times generalizing call with
  | zero => rfl
  | succ times ih =>
      rw [umountLoop, umountLoop]
      split
      · rfl
      · exact ih (call + 1)

theorem allRetried_umountParts (disks : List AttachedDisk) (results : Nat → Int32)
    (k times call : Nat) (parts : List PartitionInfo) (rest : List DetachCall) :
    AllRetried k parts (umountParts disks results k times call parts ++ rest) ↔
      Suffices results times call (mountedCount parts) := by
  induction parts generalizing k times call with
  | nil => exact iff_of_true (fun i p hp => by cases hp) trivial
  | cons p parts ih =>
      rw [allRetried_umountParts_cons]
      cases hmounted : p.bMounted with
      | false =>
          have hcount : mountedCount (p :: parts) = mountedCount parts :=
            List.countP_cons_of_neg (by rw [hmounted]; exact Bool.false_ne_true)
          rw [if_neg Bool.false_ne_true, hcount]
          exact ih (k + 1) times call
      | true =>
          have hcount : mountedCount (p :: parts) = mountedCount parts + 1 :=
            List.countP_cons_of_pos hmounted
          rw [if_pos rfl, hcount, ih, Suffices,
            umountLoop_counters results k 0 p.szMntPath CString.empty]

theorem suffices_zero (results : Nat → Int32) (call mounted : Nat) :
    Suffices results 0 call mounted ↔ mounted = 0 := by
  cases mounted with
  | zero => exact iff_of_true trivial rfl
  | succ mounted =>
      refine iff_of_false (fun h => ?_) (Nat.succ_ne_zero mounted)
      exact absurd h.1 (by simp [loopAnswers, Retried])

theorem suffices_one (results : Nat → Int32) (call mounted : Nat) :
    Suffices results 1 call mounted ↔ failures results call mounted = 0 := by
  induction mounted generalizing call with
  | zero => exact iff_of_true trivial rfl
  | succ mounted ih =>
      by_cases h0 : results call = 0
      · simp [Suffices, loopAnswers, umountLoop, failures, Retried, h0, ih]
      · simp [Suffices, loopAnswers, failures, Retried, h0]

theorem suffices_two (results : Nat → Int32) (call mounted : Nat) :
    Suffices results 2 call mounted ↔ failures results call (mounted + 1) ≤ 1 := by
  induction mounted generalizing call with
  | zero =>
      refine iff_of_true trivial ?_
      simp only [failures]
      split <;> omega
  | succ mounted ih =>
      rw [failures]
      by_cases h0 : results call = 0
      · simp [Suffices, loopAnswers, umountLoop, Retried, h0, ih]
      · rw [failures]
        by_cases h1 : results (call + 1) = 0
        · simp [Suffices, loopAnswers, umountLoop, Retried, h0, h1, suffices_one]
        · simp [Suffices, loopAnswers, Retried, h0, h1]

theorem suffices_three (results : Nat → Int32) (call mounted : Nat) :
    Suffices results 3 call mounted ↔ failures results call (mounted + 2) ≤ 2 ∨
      0 < mounted ∧ FailsAtLast results call (mounted - 1) := by
  induction mounted generalizing call with
  | zero =>
      refine iff_of_true trivial (.inl ?_)
      simp only [failures]
      split <;> split <;> omega
  | succ mounted ih =>
      have hrows : ∀ n, failures results call (n + 1) =
          (if results call = 0 then 0 else 1) + failures results (call + 1) n := fun n => rfl
      rw [Nat.add_sub_cancel, Nat.add_right_comm, hrows]
      by_cases h0 : results call = 0
      · rw [if_pos h0, Nat.zero_add]
        have hnext : Suffices results 3 call (mounted + 1) ↔
            Suffices results 3 (call + 1) mounted := by
          simp [Suffices, loopAnswers, umountLoop, Retried, h0]
        rw [hnext, ih]
        refine or_congr_right ?_
        cases mounted with
        | zero =>
            refine iff_of_false (fun h => lt_irrefl _ h.1) fun h => ?_
            exact h.2.2.1 h0
        | succ n =>
            have hlast : FailsAtLast results call (n + 1) ↔ FailsAtLast results (call + 1) n := by
              unfold FailsAtLast
              rw [hrows, if_pos h0, Nat.zero_add, Nat.add_right_comm call 1 n, ← Nat.add_assoc]
            rw [Nat.add_sub_cancel, hlast]
            simp
      · -- the first call fails, so that only this partition can take all tries
        have hlast : FailsAtLast results call mounted →
            mounted = 0 ∧ results (call + 1) ≠ 0 ∧ results (call + 2) ≠ 0 := fun h => by
          cases mounted with
          | zero => exact ⟨rfl, h.2.2⟩
          | succ n =>
              have hzero := h.1
              rw [hrows, if_neg h0] at hzero
              omega
        rw [if_neg h0, failures]
        by_cases h1 : results (call + 1) = 0
        · have hnot : ¬ FailsAtLast results call mounted := fun h => (hlast h).2.1 h1
          simp [Suffices, loopAnswers, umountLoop, Retried, h0, h1, suffices_two, hnot]
          omega
        rw [if_neg h1, failures]
        by_cases h2 : results (call + 2) = 0
        · have hnot : ¬ FailsAtLast results call mounted := fun h => (hlast h).2.2 h2
          simp [Suffices, loopAnswers, umountLoop, Retried, h0, h1, h2, suffices_one, hnot]
          omega
        · have hthree : FailsAtLast results call mounted ↔ mounted = 0 := by
            refine ⟨fun h => (hlast h).1, ?_⟩
            rintro rfl
            exact ⟨rfl, h0, h1, h2⟩
          simp [Suffices, loopAnswers, umountLoop, Retried, h0, h1, h2, suffices_zero, hthree]
          omega

/-! ## The whole call -/

/-- `UDISK_DetachDisk` calls `UDISK_Umount` for each mounted partition, up to three times
while it fails, before the directory and the node of the partition go, exactly when the three
tries of all partitions suffice. -/
theorem detach_unmounts_iff (disks : List AttachedDisk) (results : Nat → Int32)
    (pDevPath : CString) (d : AttachedDisk)
    (hfound : disks.find? (fun d => samePath pDevPath d.szDevPath) = some d) :
    UnmountsAll d.parts (detachDisk disks results pDevPath).1 ↔
      TriesSuffice results (mountedCount d.parts) := by
  have hcalls : (detachDisk disks results pDevPath).1 = detachNode disks results d := by
    rw [detachDisk, hfound]
  have hall : UnmountsAll d.parts (detachNode disks results d) ↔
      AllRetried 0 d.parts (detachNode disks results d) := by
    unfold UnmountsAll AllRetried
    simp only [Nat.zero_add]
  rw [hcalls, hall, detachNode, allRetried_umountParts, suffices_three]
  exact Iff.rfl

def mountedAt (path : CString) : PartitionInfo := ⟨true, .fat32, 0, 0, path, path⟩

/-- A disk with two mounted partitions, at the paths `"1"` and `"2"`. -/
def twoMounted : AttachedDisk :=
  ⟨CString.empty, CString.empty,
    [mountedAt ⟨[49], by decide⟩, mountedAt ⟨[50], by decide⟩]⟩

/-- The first partition is busy at first, the second one at the second and third call. -/
def busyOnce (call : Nat) : Int32 := if call = 0 ∨ call = 2 then -1 else 0

theorem detach_unmounts_busyOnce :
    UnmountsAll twoMounted.parts (detachDisk [twoMounted] busyOnce CString.empty).1 :=
  (detach_unmounts_iff [twoMounted] busyOnce CString.empty twoMounted (by decide)).mpr (by decide)

/-- The first partition stays busy. -/
def busyThrice (call : Nat) : Int32 := if call < 3 then -1 else 0

/-- The second partition is never unmounted, and its directory is removed. -/
theorem second_left_mounted :
    ¬ UnmountsAll twoMounted.parts (detachDisk [twoMounted] busyThrice CString.empty).1 ∧
      tried 1 (detachDisk [twoMounted] busyThrice CString.empty).1 = [] ∧
      .rmdirPart 1 ⟨[50], by decide⟩ ∈ (detachDisk [twoMounted] busyThrice CString.empty).1 := by
  have hnone : tried 1 (detachDisk [twoMounted] busyThrice CString.empty).1 = [] := by decide
  refine ⟨fun h => ?_, hnone, by decide⟩
  have hsecond := h 1 (mountedAt ⟨[50], by decide⟩) rfl rfl
  rw [hnone] at hsecond
  exact absurd hsecond (by decide)

end Udisk
end AndroidLinux
