import AndroidLinux.Lib.Scan
import AndroidLinux.Msg.TaskTab

/-!
# The subscription table

The table of `msg_submng.c`: one row per subscribed message type, each with a
fixed number of slots for the ids of the subscribers.  A row is free when its
`msgType` is `VTOP_INVALID_MSG_TYPE`, a slot is free when it holds
`VTOP_INVALID_TASK_ID`.

`SUB_TAB_Add` and `SUB_TAB_Del` look the row up in one critical section
(`SUB_TAB_IsExist`) and use it in another, so the second section is a function of
its own that takes the earlier answer as an argument: `addLocked` and `delLocked`.
The whole calls `add` and `del` run the two sections back to back.
-/

namespace AndroidLinux
namespace Msg

open Lib

/-- `MSG_TAB_SUB_S` with `m = maxTaskNumInSub` slots. -/
structure SubRow (m : Nat) where
  msgType : MsgType
  taskIdList : Fin m → TaskId

/-- The table of `n = maxSubNum` rows. -/
abbrev SubTab (n m : Nat) := Fin n → SubRow m

namespace SubTab

variable {n m : Nat}

/-- `SUBTABInitUnit`. -/
def initUnit (m : Nat) : SubRow m where
  msgType := vtopInvalidMsgType
  taskIdList := fun _ => vtopInvalidTaskId

/-- `SUB_TAB_Init`. -/
def init (n m : Nat) : SubTab n m :=
  fun _ => initUnit m

/-- `SUB_TAB_IsExist`: the first row of the type. -/
def isExist (tab : SubTab n m) (msgType : MsgType) : Option (Fin n) :=
  Fin.find? fun unitIndex => (tab unitIndex).msgType == msgType

/-- The slot of a row that holds `taskId`. -/
def findTask (tab : SubTab n m) (unitIndex : Fin n) (taskId : TaskId) : Option (Fin m) :=
  Fin.find? fun index => (tab unitIndex).taskIdList index == taskId

/-- Store a task id in one slot. -/
def setSlot (tab : SubTab n m) (unitIndex : Fin n) (index : Fin m) (taskId : TaskId) :
    SubTab n m :=
  Function.update tab unitIndex
    ⟨(tab unitIndex).msgType, Function.update (tab unitIndex).taskIdList index taskId⟩

/-- Set the type of a row. -/
def setType (tab : SubTab n m) (unitIndex : Fin n) (msgType : MsgType) : SubTab n m :=
  Function.update tab unitIndex ⟨msgType, (tab unitIndex).taskIdList⟩

/-- The second critical section of `SUB_TAB_Add`; `subExist` is what the earlier
`SUB_TAB_IsExist` answered. -/
def addLocked [NeZero m] (tab : SubTab n m) (subExist : Option (Fin n))
    (msgType : MsgType) (taskId : TaskId) : Ret × SubTab n m :=
  match subExist with
  | some unitIndex =>
      match tab.findTask unitIndex taskId with
      | some _ => (.err .subExist, tab)
      | none =>
          match tab.findTask unitIndex vtopInvalidTaskId with
          | some index => (.ok, tab.setSlot unitIndex index taskId)
          | none => (.err .subMemberFull, tab)
  | none =>
      match tab.isExist vtopInvalidMsgType with
      | some unitIndex => (.ok, (tab.setType unitIndex msgType).setSlot unitIndex 0 taskId)
      | none => (.err .subFull, tab)

/-- The second critical section of `SUB_TAB_Del`: clear the slot, then release the
row when its last slot has been cleared. -/
def delLocked (tab : SubTab n m) (unitIndex : Fin n) (taskId : TaskId) :
    Ret × SubTab n m :=
  match tab.findTask unitIndex taskId with
  | none => (.err .subNotExist, tab)
  | some index =>
      let tab' := tab.setSlot unitIndex index vtopInvalidTaskId
      match Fin.find? fun i => (tab' unitIndex).taskIdList i != vtopInvalidTaskId with
      | some _ => (.ok, tab')
      | none => (.ok, tab'.setType unitIndex vtopInvalidMsgType)

/-- `SUB_TAB_Add`. -/
def add [NeZero m] {k : Nat} (tasks : TaskMng k) (tab : SubTab n m)
    (msgType : MsgType) (taskId : TaskId) : Ret × SubTab n m :=
  if tasks.isTaskIdExist taskId = false then
    (.err .taskNotExist, tab)
  else
    tab.addLocked (tab.isExist msgType) msgType taskId

/-- `SUB_TAB_Del`. -/
def del {k : Nat} (tasks : TaskMng k) (tab : SubTab n m)
    (msgType : MsgType) (taskId : TaskId) : Ret × SubTab n m :=
  if tasks.isTaskIdExist taskId = false then
    (.err .taskNotExist, tab)
  else
    match tab.isExist msgType with
    | none => (.err .subNotExist, tab)
    | some unitIndex => tab.delLocked unitIndex taskId

/-- The ids in the occupied slots of a row, as the loop of `SUB_TAB_Sub2Task`
sees them. -/
def slotTask (tab : SubTab n m) (unitIndex : Fin n) (index : Fin m) : Option TaskId :=
  if (tab unitIndex).taskIdList index ≠ vtopInvalidTaskId then
    some ((tab unitIndex).taskIdList index)
  else
    none

/-- The second critical section of `SUB_TAB_Sub2Task`: the list written for the
capacity `num`. -/
def sub2TaskLocked (tab : SubTab n m) (unitIndex : Fin n) (num : Nat) : List TaskId :=
  collect num (tab.slotTask unitIndex) (List.finRange m) []

/-- `SUB_TAB_Sub2Task`: the list of the tasks, or the error. -/
def sub2Task (tab : SubTab n m) (msgType : MsgType) (num : Nat) :
    Except MsgErr (List TaskId) :=
  match tab.isExist msgType with
  | none => .error .subNotExist
  | some unitIndex => .ok (tab.sub2TaskLocked unitIndex num)

/-- The inner iterations of `SUB_TAB_Task2Sub`: every slot of every used row. -/
def usedSlots (tab : SubTab n m) : List (Fin n × Fin m) :=
  (List.finRange n).flatMap fun unitIndex =>
    if (tab unitIndex).msgType ≠ vtopInvalidMsgType then
      (List.finRange m).map fun index => (unitIndex, index)
    else
      []

/-- One inner iteration of `SUB_TAB_Task2Sub`. -/
def slotType (tab : SubTab n m) (taskId : TaskId) (slot : Fin n × Fin m) : Option MsgType :=
  if (tab slot.1).taskIdList slot.2 = taskId then some (tab slot.1).msgType else none

/-- The critical section of `SUB_TAB_Task2Sub`: the list written for the capacity
`num`.  The capacity is tested after every inner iteration, so leaving both loops is
leaving the flattened one. -/
def task2SubLocked (tab : SubTab n m) (taskId : TaskId) (num : Nat) : List MsgType :=
  collect num (tab.slotType taskId) tab.usedSlots []

/-- `SUB_TAB_Task2Sub`: the list of the types, or the error. -/
def task2Sub {k : Nat} (tasks : TaskMng k) (tab : SubTab n m) (taskId : TaskId)
    (num : Nat) : Except MsgErr (List MsgType) :=
  if tasks.isTaskIdExist taskId = false then
    .error .taskNotExist
  else
    .ok (tab.task2SubLocked taskId num)

/-! ## Projections of the two elementary updates -/

@[simp] theorem setSlot_msgType (tab : SubTab n m) (u v : Fin n) (x : Fin m)
    (k : TaskId) : (tab.setSlot u x k v).msgType = (tab v).msgType := by
  by_cases hv : v = u
  · subst hv
    simp [setSlot]
  · simp [setSlot, hv]

@[simp] theorem setSlot_slot_self (tab : SubTab n m) (u : Fin n) (x : Fin m)
    (k : TaskId) : (tab.setSlot u x k u).taskIdList x = k := by
  simp [setSlot]

theorem setSlot_slot_ne (tab : SubTab n m) {u v : Fin n} {x y : Fin m} (k : TaskId)
    (hne : v ≠ u ∨ y ≠ x) :
    (tab.setSlot u x k v).taskIdList y = (tab v).taskIdList y := by
  by_cases hv : v = u
  · subst hv
    have hy : y ≠ x := by tauto
    simp [setSlot, hy]
  · simp [setSlot, hv]

@[simp] theorem setType_msgType_self (tab : SubTab n m) (u : Fin n) (t : MsgType) :
    (tab.setType u t u).msgType = t := by
  simp [setType]

theorem setType_msgType_ne (tab : SubTab n m) {u v : Fin n} (t : MsgType) (hne : v ≠ u) :
    (tab.setType u t v).msgType = (tab v).msgType := by
  simp [setType, hne]

@[simp] theorem setType_slots (tab : SubTab n m) (u v : Fin n) (t : MsgType) :
    (tab.setType u t v).taskIdList = (tab v).taskIdList := by
  by_cases hv : v = u
  · subst hv
    simp [setType]
  · simp [setType, hv]

/-! ## What the lookups answer -/

theorem isExist_eq_some {tab : SubTab n m} {t : MsgType} {u : Fin n}
    (h : tab.isExist t = some u) : (tab u).msgType = t := by
  have := (Fin.find?_eq_some_iff.mp h).1
  simpa using this

theorem isExist_eq_none_iff {tab : SubTab n m} {t : MsgType} :
    tab.isExist t = none ↔ ∀ u, (tab u).msgType ≠ t := by
  unfold isExist
  rw [Fin.find?_eq_none_iff]
  simp

theorem findTask_eq_some {tab : SubTab n m} {u : Fin n} {k : TaskId} {x : Fin m}
    (h : tab.findTask u k = some x) : (tab u).taskIdList x = k := by
  have := (Fin.find?_eq_some_iff.mp h).1
  simpa using this

theorem findTask_eq_none_iff {tab : SubTab n m} {u : Fin n} {k : TaskId} :
    tab.findTask u k = none ↔ ∀ x, (tab u).taskIdList x ≠ k := by
  unfold findTask
  rw [Fin.find?_eq_none_iff]
  simp

/-! ## What the two update sections can do -/

/-- Everything the second section of `SUB_TAB_Add` can do. -/
theorem addLocked_cases [NeZero m] (tab : SubTab n m) (subExist : Option (Fin n))
    (t : MsgType) (k : TaskId) :
    (∃ u x, subExist = some u ∧ (tab u).taskIdList x = k ∧
      tab.addLocked subExist t k = (.err .subExist, tab)) ∨
    (∃ u x, subExist = some u ∧ (∀ y, (tab u).taskIdList y ≠ k) ∧
      (tab u).taskIdList x = vtopInvalidTaskId ∧
      tab.addLocked subExist t k = (.ok, tab.setSlot u x k)) ∨
    (∃ u, subExist = some u ∧ (∀ y, (tab u).taskIdList y ≠ k) ∧
      (∀ y, (tab u).taskIdList y ≠ vtopInvalidTaskId) ∧
      tab.addLocked subExist t k = (.err .subMemberFull, tab)) ∨
    (∃ u, subExist = none ∧ (tab u).msgType = vtopInvalidMsgType ∧
      tab.addLocked subExist t k = (.ok, (tab.setType u t).setSlot u 0 k)) ∨
    (subExist = none ∧ (∀ u, (tab u).msgType ≠ vtopInvalidMsgType) ∧
      tab.addLocked subExist t k = (.err .subFull, tab)) := by
  cases subExist with
  | some u =>
      cases hk : tab.findTask u k with
      | some x =>
          left
          exact ⟨u, x, rfl, findTask_eq_some hk, by simp [addLocked, hk]⟩
      | none =>
          cases hfree : tab.findTask u vtopInvalidTaskId with
          | some x =>
              right; left
              exact ⟨u, x, rfl, findTask_eq_none_iff.mp hk, findTask_eq_some hfree,
                by simp [addLocked, hk, hfree]⟩
          | none =>
              right; right; left
              exact ⟨u, rfl, findTask_eq_none_iff.mp hk, findTask_eq_none_iff.mp hfree,
                by simp [addLocked, hk, hfree]⟩
  | none =>
      cases hrow : tab.isExist vtopInvalidMsgType with
      | some u =>
          right; right; right; left
          exact ⟨u, rfl, isExist_eq_some hrow, by simp [addLocked, hrow]⟩
      | none =>
          right; right; right; right
          exact ⟨rfl, isExist_eq_none_iff.mp hrow, by simp [addLocked, hrow]⟩

/-- Everything the second section of `SUB_TAB_Del` can do. -/
theorem delLocked_cases (tab : SubTab n m) (u : Fin n) (k : TaskId) :
    ((∀ x, (tab u).taskIdList x ≠ k) ∧
      tab.delLocked u k = (.err .subNotExist, tab)) ∨
    (∃ x, (tab u).taskIdList x = k ∧
      (∃ y, y ≠ x ∧ (tab u).taskIdList y ≠ vtopInvalidTaskId) ∧
      tab.delLocked u k = (.ok, tab.setSlot u x vtopInvalidTaskId)) ∨
    (∃ x, (tab u).taskIdList x = k ∧
      (∀ y, y ≠ x → (tab u).taskIdList y = vtopInvalidTaskId) ∧
      tab.delLocked u k =
        (.ok, (tab.setSlot u x vtopInvalidTaskId).setType u vtopInvalidMsgType)) := by
  cases hk : tab.findTask u k with
  | none =>
      left
      exact ⟨findTask_eq_none_iff.mp hk, by simp only [delLocked, hk]⟩
  | some x =>
      right
      cases hleft : Fin.find? fun i =>
          ((tab.setSlot u x vtopInvalidTaskId) u).taskIdList i != vtopInvalidTaskId with
      | some y =>
          left
          have hy := (Fin.find?_eq_some_iff.mp hleft).1
          have hyx : y ≠ x := by
            intro heq
            subst heq
            simp at hy
          rw [setSlot_slot_ne _ _ (Or.inr hyx)] at hy
          refine ⟨x, findTask_eq_some hk, ⟨y, hyx, by simpa using hy⟩, ?_⟩
          simp only [delLocked, hk, hleft]
      | none =>
          right
          refine ⟨x, findTask_eq_some hk, ?_, ?_⟩
          · intro y hyx
            have := Fin.find?_eq_none_iff.mp hleft y
            rw [setSlot_slot_ne _ _ (Or.inr hyx)] at this
            simpa using this
          · simp only [delLocked, hk, hleft]

end SubTab
end Msg
end AndroidLinux
