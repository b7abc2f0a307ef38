import AndroidLinux.Lib.CString
import AndroidLinux.Msg.Types
import Mathlib.Data.Fin.Tuple.Basic

/-!
# The task table

The table of registered message tasks (`msg_taskmng.c`).  Every function below is
the body of one `TASKTABLock() ... TASKTABunLock()` section, so each of them is
one atomic step of a concurrent run.

A row is free when its `taskId` is `VTOP_INVALID_TASK_ID`.  `TASK_TAB_Add2` calls
`MSG_QueueInit` inside its section and `TASK_TAB_Del` calls `MSG_QueueDeinit`; the
queue objects themselves live in the heap, so the new handle (or the failure) is
an argument of the former and the handle to destroy a result of the latter.
-/

namespace AndroidLinux
namespace Msg

open Lib

/-- `MSG_QUEUE_HANDLE`: the identity of a `MSG_QUEUE_S` object.  The handle
`MSG_QUEUE_INVALID_HANDLE` is `none` where a handle is stored. -/
abbrev QHandle := Nat

/-- `VTOP_MSG_ERR_TASKNOTEXIST` as a number. -/
def vtopMsgErrTaskNotExist : UInt32 := 0xA2018401

/-- `TASK_OWNER_E`. -/
inductive TaskOwner
  | task
  | butt
  deriving DecidableEq, Repr

/-- `MSG_TAB_TASK_S`. -/
structure TaskRow where
  taskName : CString
  taskId : TaskId
  owner : TaskOwner
  msgtype : MsgType
  handle : Option QHandle
  deriving DecidableEq

/-- The task table with `n` rows and `counter_taskId` of the shared segment. -/
structure TaskMng (n : Nat) where
  tab : Fin n → TaskRow
  counterTaskId : TaskId

/-- `TASKTABInitUnit`, which is also what `TASK_TAB_Del` leaves in a row. -/
def taskTabInitUnit : TaskRow where
  taskName := CString.empty
  taskId := vtopInvalidTaskId
  owner := .task
  msgtype := 0
  handle := none

/-- `TASK_TAB_Init`. -/
def taskTabInit (n : Nat) : TaskMng n where
  tab := fun _ => taskTabInitUnit
  counterTaskId := 0

/-- What `TASK_TAB_Add2` leaves in `counter_taskId`. -/
def nextTaskId (counter : TaskId) : TaskId :=
  if vtopMaxTaskId ≤ counter then 0 else counter + 1

/-- The counter never leaves the range of the ordinary ids. -/
theorem nextTaskId_le {counter : TaskId} (h : counter ≤ vtopMaxTaskId) :
    nextTaskId counter ≤ vtopMaxTaskId := by
  unfold nextTaskId
  split
  · decide
  · rename_i hlt
    rw [UInt32.le_iff_toNat_le] at h hlt ⊢
    have hmax : vtopMaxTaskId.toNat = 0xFFFF0000 := rfl
    rw [UInt32.toNat_add]
    rw [hmax] at h hlt ⊢
    have hone : (1 : UInt32).toNat = 1 := rfl
    omega

/-- An ordinary id is not the invalid one. -/
theorem ne_invalid_of_le {k : TaskId} (h : k ≤ vtopMaxTaskId) : k ≠ vtopInvalidTaskId := by
  intro heq
  subst heq
  exact absurd h (by decide)

namespace TaskMng

variable {n : Nat}

/-- The loop common to the functions that look a task id up. -/
def findId (s : TaskMng n) (taskId : TaskId) : Option (Fin n) :=
  Fin.find? fun index => (s.tab index).taskId == taskId

/-- `TASK_TAB_Name2Id`. -/
def name2Id (s : TaskMng n) (taskName : CString) : TaskId :=
  match Fin.find? fun index =>
      CString.strncmpEq vtopMsgMaxTaskNameLen (s.tab index).taskName taskName with
  | some index => (s.tab index).taskId
  | none => vtopInvalidTaskId

/-- `TASK_TAB_Id2Name`: the name stored in `taskName`, or `none` for an unknown id. -/
def id2Name (s : TaskMng n) (taskId : TaskId) : Option CString :=
  (s.findId taskId).map fun index =>
    (s.tab index).taskName.strncpy (vtopMsgMaxTaskNameLen - 1)

/-- `TASK_TAB_IsTaskExist`. -/
def isTaskExist (s : TaskMng n) (taskName : CString) : Bool :=
  !(s.name2Id taskName == vtopInvalidTaskId)

/-- `TASK_TAB_IsTaskIdExist`. -/
def isTaskIdExist (s : TaskMng n) (taskId : TaskId) : Bool :=
  (s.findId taskId).isSome

/-- `TASK_TAB_GetHandle`. -/
def getHandle (s : TaskMng n) (taskId : TaskId) : Option QHandle :=
  match s.findId taskId with
  | some index => (s.tab index).handle
  | none => none

/-- The free row `TASK_TAB_Add2` will use. -/
def freeRow (s : TaskMng n) : Option (Fin n) :=
  s.findId vtopInvalidTaskId

/-- The row `TASK_TAB_Add2` writes.  `newQueue` is the handle `MSG_QueueInit`
stored, or `none` when it failed and stored nothing. -/
def newRow (s : TaskMng n) (index : Fin n) (taskName : CString) (owner : TaskOwner)
    (newQueue : Option QHandle) : TaskRow where
  taskName := taskName.strncpy (vtopMsgMaxTaskNameLen - 1)
  taskId := s.counterTaskId
  owner := owner
  msgtype := vtopInvalidMsgType
  handle := newQueue.or (s.tab index).handle

/-- `TASK_TAB_Add2`.  A failed `MSG_QueueInit` is only reported: the row keeps the
new id and name. -/
def add2 (s : TaskMng n) (taskName : CString) (owner : TaskOwner)
    (newQueue : Option QHandle) : TaskId × TaskMng n :=
  match s.freeRow with
  | some index =>
      (if newQueue.isSome then s.counterTaskId else vtopInvalidTaskId,
        { tab := Function.update s.tab index (s.newRow index taskName owner newQueue)
          counterTaskId := nextTaskId s.counterTaskId })
  | none => (vtopInvalidTaskId, s)

/-- `TASK_TAB_Del`.  The handle returned is the one passed to `MSG_QueueDeinit`. -/
def del (s : TaskMng n) (taskId : TaskId) : Ret × Option QHandle × TaskMng n :=
  match s.findId taskId with
  | some index =>
      (.ok, (s.tab index).handle,
        { s with tab := Function.update s.tab index taskTabInitUnit })
  | none => (.err .taskNotExist, none, s)

/-- `TASK_TAB_SetMerge`. -/
def setMerge (s : TaskMng n) (taskId : TaskId) (msgtype : MsgType) : Ret × TaskMng n :=
  match s.findId taskId with
  | some index =>
      let row := { s.tab index with msgtype := msgtype }
      (.ok, { s with tab := Function.update s.tab index row })
  | none => (.err .taskNotExist, s)

/-- `TASK_TAB_GetMerge`.  For an unknown task the error code is returned as a
message type. -/
def getMerge (s : TaskMng n) (taskId : TaskId) : MsgType :=
  match s.findId taskId with
  | some index => (s.tab index).msgtype
  | none => vtopMsgErrTaskNotExist

/-- The row at `index` belongs to a registered task. -/
def Used (s : TaskMng n) (index : Fin n) : Prop :=
  (s.tab index).taskId ≠ vtopInvalidTaskId

instance (s : TaskMng n) (index : Fin n) : Decidable (s.Used index) :=
  inferInstanceAs (Decidable (_ ≠ _))

/-- `k` is the id of a registered task. -/
def Registered (s : TaskMng n) (k : TaskId) : Prop :=
  k ≠ vtopInvalidTaskId ∧ ∃ index, (s.tab index).taskId = k

instance (s : TaskMng n) (k : TaskId) : Decidable (s.Registered k) :=
  inferInstanceAs (Decidable (_ ∧ _))

/-! ## What the lookups answer -/

theorem findId_eq_some {s : TaskMng n} {k : TaskId} {index : Fin n}
    (h : s.findId k = some index) : (s.tab index).taskId = k := by
  have := (Fin.find?_eq_some_iff.mp h).1
  simpa using this

theorem findId_eq_none_iff {s : TaskMng n} {k : TaskId} :
    s.findId k = none ↔ ∀ index, (s.tab index).taskId ≠ k := by
  unfold findId
  rw [Fin.find?_eq_none_iff]
  simp

theorem isTaskIdExist_iff {s : TaskMng n} {k : TaskId} :
    s.isTaskIdExist k = true ↔ ∃ index, (s.tab index).taskId = k := by
  unfold isTaskIdExist
  cases h : s.findId k with
  | none =>
      have := findId_eq_none_iff.mp h
      simp only [Option.isSome_none, Bool.false_eq_true, false_iff, not_exists]
      exact this
  | some index =>
      simp only [Option.isSome_some, true_iff]
      exact ⟨index, findId_eq_some h⟩

/-- For an id other than the invalid one, existence is registration. -/
theorem isTaskIdExist_iff_registered {s : TaskMng n} {k : TaskId}
    (hk : k ≠ vtopInvalidTaskId) : s.isTaskIdExist k = true ↔ s.Registered k := by
  rw [isTaskIdExist_iff]
  exact ⟨fun h => ⟨hk, h⟩, fun h => h.2⟩

/-! ## What the updates do -/

/-- Everything `TASK_TAB_Del` can do. -/
theorem del_cases (s : TaskMng n) (k : TaskId) :
    (∃ index, s.findId k = some index ∧ (s.tab index).taskId = k ∧
      s.del k = (.ok, (s.tab index).handle,
        { s with tab := Function.update s.tab index taskTabInitUnit })) ∨
    (s.findId k = none ∧ s.del k = (.err .taskNotExist, none, s)) := by
  cases h : s.findId k with
  | none =>
      right
      exact ⟨rfl, by simp [del, h]⟩
  | some index =>
      left
      exact ⟨index, rfl, findId_eq_some h, by simp [del, h]⟩

end TaskMng

/-! ## Two names -/

theorem nul_not_mem_a : (0 : UInt8) ∉ [97] := by
  decide

theorem nul_not_mem_b : (0 : UInt8) ∉ [98] := by
  decide

/-- The task name `"a"`. -/
def nameA : CString := ⟨[97], nul_not_mem_a⟩

/-- The task name `"b"`. -/
def nameB : CString := ⟨[98], nul_not_mem_b⟩

end Msg
end AndroidLinux
