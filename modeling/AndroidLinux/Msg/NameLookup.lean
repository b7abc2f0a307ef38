import AndroidLinux.Msg.RegisterAtomic

/-!
# Looking names and ids up

`TASK_TAB_Name2Id` compares the name with every row of the table, also with free ones,
whose names are empty.  A task with the empty name is found as long as no free row is in
front of its own, which is so when it registers; it is lost when a task in front of it goes
away.  All other names and all ids are found.
-/

namespace AndroidLinux
namespace Msg
namespace NameLookup

open Lib TaskIds RegisterAtomic

variable {n r : Nat}

/-- Names and ids of the registered tasks lead to each other. -/
structure Inverse (s : MsgSys n r) : Prop where
  name2Id : ∀ i, s.taskMng.Used i →
    s.taskMng.name2Id (s.taskMng.tab i).taskName = (s.taskMng.tab i).taskId
  id2Name : ∀ i, s.taskMng.Used i →
    s.taskMng.id2Name (s.taskMng.tab i).taskId = some (s.taskMng.tab i).taskName
  unknown : ∀ taskName, taskName.strlen < vtopMsgMaxTaskNameLen →
    ¬ s.taskMng.HasName taskName → s.taskMng.name2Id taskName = vtopInvalidTaskId
  /-- A name that is in use is refused. -/
  refused : ∀ taskName alloc, taskName.strlen < vtopMsgMaxTaskNameLen →
    s.taskMng.HasName taskName → s.vtopMsgRegister taskName alloc = (.error .taskExist, s)

/-- No free row is in front of a task with the empty name. -/
def EmptyFound (t : TaskMng n) : Prop :=
  ∀ i, t.Used i → (t.tab i).taskName = CString.empty → ∀ j, j < i → t.Used j

/-- A task that goes away is not in front of one with the empty name. -/
def LeavesBehind (s : Registration.State n r) : Registration.Act → Prop
  | .unRegister taskId mallocList =>
      taskId ≠ vtopInvalidTaskId → s.sys.hasTaskData taskId = true → mallocList = true →
        ∀ index, s.sys.taskMng.findId taskId = some index →
          ∀ i, index < i → s.sys.taskMng.Used i →
            (s.sys.taskMng.tab i).taskName ≠ CString.empty
  | _ => True

/-! ## The lookups -/

section Lookup

variable {t : TaskMng n}

/-- The lookup stops at the row of the task. -/
theorem name2Id_eq (hnames : t.NamesOk) (hempty : EmptyFound t) {i : Fin n} (hused : t.Used i) :
    t.name2Id (t.tab i).taskName = (t.tab i).taskId := by
  have hmatch (j : Fin n) : CString.strncmpEq vtopMsgMaxTaskNameLen (t.tab j).taskName
      (t.tab i).taskName = true ↔ (t.tab j).taskName = (t.tab i).taskName :=
    CString.strncmpEq_iff (hnames.fits j) (hnames.fits i)
  unfold TaskMng.name2Id
  split
  · rename_i j hfind
    obtain ⟨hj, hbefore⟩ := Fin.find?_eq_some_iff.mp hfind
    have hname := (hmatch j).mp hj
    by_cases husedj : t.Used j
    · rw [hnames.unique j i husedj hused hname]
    · -- a free row has the empty name, and so has the task
      have hzero : (t.tab i).taskName = CString.empty := hname.symm.trans (hnames.free j husedj)
      have hle : j ≤ i := by
        by_contra hlt
        have hself := hbefore i (not_le.mp hlt)
        rw [(hmatch i).mpr rfl] at hself
        cases hself
      rcases lt_or_eq_of_le hle with hlt | rfl
      · exact absurd (hempty i hused hzero j hlt) husedj
      · exact absurd hused husedj
  · rename_i hfind
    have hself := Fin.find?_eq_none_iff.mp hfind i
    rw [(hmatch i).mpr rfl] at hself
    cases hself

theorem name2Id_unknown (hnames : t.NamesOk) {taskName : CString}
    (hlen : taskName.strlen < vtopMsgMaxTaskNameLen) (hnone : ¬ t.HasName taskName) :
    t.name2Id taskName = vtopInvalidTaskId := by
  unfold TaskMng.name2Id
  split
  · rename_i j hfind
    have hname := (CString.strncmpEq_iff (hnames.fits j) hlen).mp
      (Fin.find?_eq_some_iff.mp hfind).1
    by_contra hused
    exact hnone ⟨j, hused, hname⟩
  · rfl

/-- A registered name is seen by the check in front of a registration. -/
theorem isTaskExist_of_hasName (hnames : t.NamesOk) (hempty : EmptyFound t)
    {taskName : CString} (hname : t.HasName taskName) : t.isTaskExist taskName = true := by
  obtain ⟨i, hused, rfl⟩ := hname
  unfold TaskMng.isTaskExist
  rw [name2Id_eq hnames hempty hused]
  simpa [TaskMng.Used] using hused

theorem inverse_of {s : MsgSys n r} {regs : Nat} (hlinked : Registration.Linked s regs)
    (hnames : s.taskMng.NamesOk) (hempty : EmptyFound s.taskMng) : Inverse s where
  name2Id := fun i hused => name2Id_eq hnames hempty hused
  id2Name := by
    intro i hused
    unfold TaskMng.id2Name
    cases hfind : s.taskMng.findId (s.taskMng.tab i).taskId with
    | none => exact absurd rfl (TaskMng.findId_eq_none_iff.mp hfind i)
    | some j =>
        have hfits : (s.taskMng.tab j).taskName.strlen ≤ vtopMsgMaxTaskNameLen - 1 :=
          Nat.le_pred_of_lt (hnames.fits j)
        rw [hlinked.idsUnique i j hused (TaskMng.findId_eq_some hfind).symm, Option.map_some,
          CString.strncpy_eq_self hfits]
  unknown := fun taskName hlen hnone => name2Id_unknown hnames hlen hnone
  refused := by
    intro taskName alloc hlen hname
    unfold MsgSys.vtopMsgRegister MsgSys.vtopMsgRegisterX
    rw [if_neg (Nat.not_le.mpr hlen), if_pos (isTaskExist_of_hasName hnames hempty hname)]

end Lookup

/-! ## The calls -/

/-- The rows as the lookups need them. -/
def RowsOk (t : TaskMng n) : Prop :=
  t.NamesOk ∧ EmptyFound t

/-- A new task takes the first free row. -/
theorem RowsOk.fill {t : TaskMng n} (h : RowsOk t) {taskName : CString} {owner : TaskOwner}
    {newQueue : Option QHandle} {index : Fin n} (hfree : t.freeRow = some index)
    (hlen : taskName.strlen < vtopMsgMaxTaskNameLen) (hnew : t.isTaskExist taskName = false) :
    RowsOk (filled t index (t.newRow index taskName owner newQueue)) := by
  obtain ⟨hnames, hempty⟩ := h
  have hid : (t.newRow index taskName owner newQueue).taskId ≠ vtopInvalidTaskId :=
    ne_invalid_of_le hnames.counter
  have hname : (t.newRow index taskName owner newQueue).taskName = taskName :=
    CString.strncpy_eq_self (Nat.le_pred_of_lt hlen)
  have hnone : ¬ t.HasName taskName := by
    intro hhas
    rw [isTaskExist_of_hasName hnames hempty hhas] at hnew
    cases hnew
  refine ⟨hnames.fill hid (by rw [hname]; exact hlen) (by rw [hname]; exact hnone), ?_⟩
  intro i hused hzero j hlt
  rcases TaskMng.used_update.mp hused with ⟨rfl, -⟩ | ⟨hi, hold⟩
  · -- all rows in front of the first free one are used
    refine TaskMng.used_update.mpr (.inr ⟨ne_of_lt hlt, ?_⟩)
    have hbefore := (Fin.find?_eq_some_iff.mp hfree).2 j hlt
    unfold TaskMng.Used
    simpa using hbefore
  · have hzero' : (t.tab i).taskName = CString.empty := by
      simpa [TaskIds.filled, hi] using hzero
    have husedj := hempty i hold hzero' j hlt
    by_cases hj : j = index
    · exact TaskMng.used_update.mpr (.inl ⟨hj, hid⟩)
    · exact TaskMng.used_update.mpr (.inr ⟨hj, husedj⟩)

/-- A row is cleared that is not in front of a task with the empty name. -/
theorem RowsOk.clear {t : TaskMng n} (h : RowsOk t) {index : Fin n}
    (hbehind : ∀ i, index < i → t.Used i → (t.tab i).taskName ≠ CString.empty) :
    RowsOk { t with tab := Function.update t.tab index taskTabInitUnit } := by
  obtain ⟨hnames, hempty⟩ := h
  refine ⟨hnames.clear index, fun i hused hzero j hlt => ?_⟩
  rcases TaskMng.used_update.mp hused with ⟨-, hfree⟩ | ⟨hi, hold⟩
  · exact absurd rfl hfree
  · have hzero' : (t.tab i).taskName = CString.empty := by simpa [hi] using hzero
    refine TaskMng.used_update.mpr (.inr ⟨?_, hempty i hold hzero' j hlt⟩)
    rintro rfl
    exact hbehind i hlt hold hzero'

/-- The row that was just filled is given back. -/
theorem RowsOk.undone {s : MsgSys n r} {regs : Nat} (hlinked : Registration.Linked s regs)
    (h : RowsOk s.taskMng) {taskName : CString} {owner : TaskOwner} {index : Fin n}
    (hproceeds : Proceeds s taskName index) (q : MsgQueue) (entries : Option (List TaskId)) :
    RowsOk ((created s taskName owner index q entries).taskTabDel
      s.taskMng.counterTaskId).2.taskMng := by
  rcases (created s taskName owner index q entries).taskTabDel_cases s.taskMng.counterTaskId with
    ⟨first, hfind, -, hdel⟩ | ⟨hfind, hdel⟩
  · rw [hdel]
    have hfirst : first = index := by
      rcases ((findId_created first).mp hfind).1 with heq | hid
      · exact heq
      · exact absurd ⟨ne_invalid_of_le h.1.counter, first, hid⟩ hlinked.not_registered_counter
    subst hfirst
    have hfilled : RowsOk (filled s.taskMng first
        (s.taskMng.newRow first taskName owner (some s.nextQueue))) :=
      h.fill hproceeds.free hproceeds.short hproceeds.newName
    refine hfilled.clear fun i hlt hused hzero => ?_
    rcases TaskMng.used_update.mp hused with ⟨rfl, -⟩ | ⟨hi, hold⟩
    · exact lt_irrefl i hlt
    · refine hproceeds.unused (h.2 i hold ?_ first hlt)
      simpa [TaskIds.filled, hi] using hzero
  · rw [hdel]
    exact h.fill hproceeds.free hproceeds.short hproceeds.newName

theorem RowsOk.register {s : MsgSys n r} {regs : Nat} (hlinked : Registration.Linked s regs)
    (h : RowsOk s.taskMng) (taskName : CString) (alloc : RegisterMalloc) :
    RowsOk (s.vtopMsgRegister taskName alloc).2.taskMng := by
  have hended := register_ended h.1.counter taskName .task alloc
  unfold MsgSys.vtopMsgRegister
  generalize s.vtopMsgRegisterX taskName .task alloc = res at hended
  cases hended with
  | refused hstop => exact h
  | noQueue hproceeds hqueue =>
      exact h.fill hproceeds.free hproceeds.short hproceeds.newName
  | undone hproceeds hqueue hfails hentries => exact h.undone hlinked hproceeds _ _
  | added hproceeds hqueue hfits =>
      exact h.fill hproceeds.free hproceeds.short hproceeds.newName

theorem RowsOk.unRegister {s : Registration.State n r} {regs : Nat}
    (hlinked : Registration.Linked s.sys regs) (h : RowsOk s.sys.taskMng) {taskId : TaskId}
    {mallocList : Bool} (hguard : LeavesBehind s (.unRegister taskId mallocList)) :
    RowsOk (s.sys.vtopMsgUnRegister taskId mallocList).2.taskMng := by
  by_cases hstop : taskId = vtopInvalidTaskId ∨ s.sys.hasTaskData taskId = false ∨
      mallocList = false
  · -- the call fails before it deletes anything
    have hsame : (s.sys.vtopMsgUnRegister taskId mallocList).2 = s.sys := by
      unfold MsgSys.vtopMsgUnRegister
      split
      · rfl
      split
      · rfl
      split
      · rfl
      split
      · rfl
      simp_all
    rw [hsame]
    exact h
  · simp only [not_or, Bool.not_eq_false] at hstop
    have hbehind := hguard hstop.1 hstop.2.1 hstop.2.2
    rcases hlinked.unRegister_outcome taskId mallocList with
      ⟨e, heq⟩ | ⟨-, tab, ret, entries, -, -, heq⟩
    · rw [heq]
      exact h
    · rw [heq]
      rcases ({ s.sys with subTab := tab } : MsgSys n r).taskTabDel_cases taskId with
        ⟨index, hfind, -, hdel⟩ | ⟨-, hdel⟩
      · rw [hdel]
        exact h.clear (hbehind index hfind)
      · rw [hdel]
        exact h

/-! ## Runs -/

/-- The invariant of a run with few enough registrations. -/
def Inv (s : Registration.State n r) : Prop :=
  s.regs < vtopMaxTaskId.toNat → Registration.Linked s.sys s.regs ∧ RowsOk s.sys.taskMng

theorem inv_step [NeZero n] {s s' : Registration.State n r} {a : Registration.Act}
    (hinv : Inv s) (hguard : LeavesBehind s a) (hstep : Registration.step s a = some s') :
    Inv s' := by
  intro hregs
  cases a with
  | register taskName alloc =>
      obtain rfl := Option.some.inj hstep
      have hbefore : s.regs < vtopMaxTaskId.toNat := lt_trans (Nat.lt_succ_self _) hregs
      obtain ⟨hlinked, hrows⟩ := hinv hbefore
      exact ⟨hlinked.vtopMsgRegisterX hbefore taskName .task alloc,
        hrows.register hlinked taskName alloc⟩
  | unRegister taskId mallocList =>
      obtain rfl := Option.some.inj hstep
      obtain ⟨hlinked, hrows⟩ := hinv hregs
      exact ⟨hlinked.vtopMsgUnRegister taskId mallocList, hrows.unRegister hlinked hguard⟩
  | subscribe taskId msgType =>
      obtain rfl := Option.some.inj hstep
      obtain ⟨hlinked, hrows⟩ := hinv hregs
      refine ⟨hlinked.vtopMsgSubscribe taskId msgType, ?_⟩
      rcases hlinked.subscribe_outcome taskId msgType with ⟨e, -, heq⟩ | ⟨-, tab, -, -, heq⟩
      · simpa only [heq] using hrows
      · simpa only [heq] using hrows
  | unSubscribe taskId msgType =>
      obtain rfl := Option.some.inj hstep
      obtain ⟨hlinked, hrows⟩ := hinv hregs
      refine ⟨hlinked.vtopMsgUnSubscribe taskId msgType, ?_⟩
      unfold MsgSys.vtopMsgUnSubscribe
      split
      · exact hrows
      split
      · exact hrows
      exact hrows

/-- In every run with fewer than `VTOP_MAX_TASK_ID` registrations in which no task goes away
in front of one with the empty name, names and ids lead to each other. -/
theorem inverse_of_leavesBehind (n r : Nat) [NeZero n] (s : Registration.State n r)
    (hreach : (Registration.machine n r).ReachWhen LeavesBehind s)
    (hregs : s.regs < vtopMaxTaskId.toNat) : Inverse s.sys := by
  have hinv : Inv s := by
    refine hreach.invariant (I := Inv) ?_ fun _ _ _ h hguard hstep => inv_step h hguard hstep
    rintro s ⟨svr, alloc, pool, -, rfl⟩ -
    exact ⟨Registration.linked_init svr, TaskMng.namesOk_init n, fun i hused => absurd rfl hused⟩
  obtain ⟨hlinked, hnames, hempty⟩ := hinv hregs
  exact inverse_of hlinked hnames hempty

/-- Two tables with two rows. -/
def twoRows : Registration.State 2 1 := ⟨MsgSys.init 2 1 .freshQueue, 0⟩

theorem twoRows_init : (Registration.machine 2 1).init twoRows :=
  ⟨.freshQueue, true, fun _ => true, MsgQueue.msgQueueInit_freshQueue, rfl⟩

/-- A test for `LeavesBehind`. -/
def leavesBehind (s : Registration.State n r) : Registration.Act → Bool
  | .unRegister taskId _ =>
      match s.sys.taskMng.findId taskId with
      | none => true
      | some index => decide (∀ i, index < i → s.sys.taskMng.Used i →
          (s.sys.taskMng.tab i).taskName ≠ CString.empty)
  | _ => true

theorem leavesBehind_sound (s : Registration.State n r) (a : Registration.Act)
    (h : leavesBehind s a = true) : LeavesBehind s a := by
  cases a with
  | register taskName alloc => trivial
  | unRegister taskId mallocList =>
      intro _ _ _ index hfind
      rw [leavesBehind, hfind] at h
      exact of_decide_eq_true h
  | subscribe taskId msgType => trivial
  | unSubscribe taskId msgType => trivial

/-- A task without a name and the task `a` register, and the task `a` goes away. -/
def holeBehind : Registration.State 2 1 :=
  ((Registration.machine 2 1).runWhen leavesBehind twoRows
    [.register CString.empty Registration.allGranted, .register nameA Registration.allGranted,
      .unRegister 1 true]).get (by decide +kernel)

theorem holeBehind_inverse : holeBehind.sys.taskMng.Used 0 ∧ ¬ holeBehind.sys.taskMng.Used 1 ∧
    Inverse holeBehind.sys := by
  refine ⟨by decide +kernel, by decide +kernel, ?_⟩
  refine inverse_of_leavesBehind 2 1 holeBehind ?_ (by decide +kernel)
  exact Machine.reachWhen_of_runWhen leavesBehind_sound _ (.init twoRows_init)
    (Option.some_get _).symm

/-- The task `a` and a task without a name register. -/
def named : Registration.State 2 1 :=
  ((Registration.machine 2 1).run twoRows [.register nameA Registration.allGranted,
    .register CString.empty Registration.allGranted]).get (by decide +kernel)

/-- The task `a` goes away again. -/
def holed : Registration.State 2 1 :=
  ((Registration.machine 2 1).run named [.unRegister 0 true]).get (by decide +kernel)

/-- The task without a name is still registered, and is not found. -/
theorem empty_name_lost : ¬ ∀ (n r : Nat) [NeZero n] (s : Registration.State n r),
    (Registration.machine n r).Reach s → s.regs < vtopMaxTaskId.toNat → Inverse s.sys := by
  intro h
  have hnamed : (Registration.machine 2 1).Reach named :=
    Machine.reach_of_run _ twoRows_init (Option.some_get _).symm
  have hreach : (Registration.machine 2 1).Reach holed :=
    hnamed.run [.unRegister 0 true] (Option.some_get _).symm
  have hused : (holed.sys.taskMng.tab 1).taskId ≠ vtopInvalidTaskId := by decide +kernel
  have hfound := (h 2 1 holed hreach (by decide +kernel)).name2Id 1 hused
  exact absurd hfound (by decide +kernel)

end NameLookup
end Msg
end AndroidLinux
