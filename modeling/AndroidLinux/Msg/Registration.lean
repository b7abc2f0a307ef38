import AndroidLinux.Lib.Transition
import AndroidLinux.Msg.SubRelation
import AndroidLinux.Msg.System

/-!
# Registrations and subscriptions

Sequential runs of `VTOP_MSG_Register`, `VTOP_MSG_UnRegister`, `VTOP_MSG_Subscribe`
and `VTOP_MSG_UnSubscribe`.  The task table and the subscription table are kept by
different modules; what ties them together is that every subscriber is a registered
task.  `Linked` is that invariant, together with what it needs: ids are handed out
in ascending order as long as the counter has not come round, so no two rows share
one, and the subscription table is well formed.

Since a row of the subscription table has as many slots as there are task rows, a
row without a free slot would hold every registered task, so a registered task that
is not yet in the row always finds a slot.
-/

namespace AndroidLinux
namespace Msg
namespace Registration

open Lib

variable {n r : Nat}

/-- The two tables agree after at most `regs` registrations. -/
structure Linked (s : MsgSys n r) (regs : Nat) : Prop where
  counter : s.taskMng.counterTaskId.toNat ≤ regs
  idsBelow : ∀ i, s.taskMng.Used i →
    (s.taskMng.tab i).taskId.toNat < s.taskMng.counterTaskId.toNat
  idsUnique : ∀ i j, s.taskMng.Used i →
    (s.taskMng.tab i).taskId = (s.taskMng.tab j).taskId → i = j
  subWF : s.subTab.WF
  subscribers : ∀ t k, (t, k) ∈ s.subTab.rel → s.taskMng.Registered k

theorem linked_init (svr : MsgQueue) : Linked (MsgSys.init n r svr) 0 where
  counter := by simp [MsgSys.init, taskTabInit]
  idsBelow := fun _ h => absurd rfl h
  idsUnique := fun _ _ h => absurd rfl h
  subWF := SubTab.init_wf r n
  subscribers := by
    intro t k h
    rw [show (MsgSys.init n r svr).subTab = SubTab.init r n from rfl, SubTab.rel_init] at h
    exact absurd h (Set.notMem_empty _)

/-- The next id while the counter has not come round. -/
theorem nextTaskId_toNat {c : TaskId} (h : c.toNat < vtopMaxTaskId.toNat) :
    (nextTaskId c).toNat = c.toNat + 1 := by
  have hlt : ¬ vtopMaxTaskId ≤ c := by
    rw [UInt32.le_iff_toNat_le]
    omega
  rw [nextTaskId, if_neg hlt, UInt32.toNat_add]
  have hmax : vtopMaxTaskId.toNat = 0xFFFF0000 := rfl
  have hone : (1 : UInt32).toNat = 1 := rfl
  omega

/-- Nobody is registered under the next id yet. -/
theorem Linked.not_registered_counter {s : MsgSys n r} {regs : Nat} (hs : Linked s regs) :
    ¬ s.taskMng.Registered s.taskMng.counterTaskId := by
  intro hgiven
  obtain ⟨hk, i, hi⟩ := hgiven
  have hused : s.taskMng.Used i := by
    unfold TaskMng.Used
    rw [hi]
    exact hk
  have := hs.idsBelow i hused
  rw [hi] at this
  omega

/-! ## The sections keep the tables linked -/

theorem Linked.mono {s : MsgSys n r} {regs regs' : Nat} (hs : Linked s regs)
    (hle : regs ≤ regs') : Linked s regs' :=
  { hs with counter := hs.counter.trans hle }

theorem Linked.taskTabAdd2 {s : MsgSys n r} {regs : Nat} (hs : Linked s regs)
    (hregs : regs < vtopMaxTaskId.toNat) (taskName : CString) (owner : TaskOwner)
    (alloc : QueueMalloc) : Linked (s.taskTabAdd2 taskName owner alloc).2 (regs + 1) := by
  rcases s.taskTabAdd2_cases taskName owner alloc with
    ⟨-, heq⟩ | ⟨index, newQueue, -, hfree, -, heq⟩
  · rw [heq]
    exact hs.mono (Nat.le_succ regs)
  rw [heq]
  have hcount : (nextTaskId s.taskMng.counterTaskId).toNat =
      s.taskMng.counterTaskId.toNat + 1 :=
    nextTaskId_toNat (lt_of_le_of_lt hs.counter hregs)
  generalize hrow : s.taskMng.newRow index taskName owner
    (newQueue.map fun _ => s.nextQueue) = row
  have hrowId : row.taskId = s.taskMng.counterTaskId := by
    rw [← hrow]
    rfl
  constructor
  · show (nextTaskId s.taskMng.counterTaskId).toNat ≤ regs + 1
    have := hs.counter
    omega
  · intro i hused
    show (Function.update s.taskMng.tab index row i).taskId.toNat <
      (nextTaskId s.taskMng.counterTaskId).toNat
    by_cases hi : i = index
    · rw [hi, Function.update_self, hrowId]
      omega
    · have hused' : s.taskMng.Used i := by
        simpa [TaskMng.Used, Function.update_of_ne hi] using hused
      rw [Function.update_of_ne hi]
      have := hs.idsBelow i hused'
      omega
  · intro i j hused hij
    change (Function.update s.taskMng.tab index row i).taskId ≠ vtopInvalidTaskId at hused
    change (Function.update s.taskMng.tab index row i).taskId =
      (Function.update s.taskMng.tab index row j).taskId at hij
    -- an old id is below the counter, the new one is the counter
    have hbelow : ∀ x, x ≠ index → (s.taskMng.tab x).taskId ≠ vtopInvalidTaskId →
        (s.taskMng.tab x).taskId ≠ s.taskMng.counterTaskId := by
      intro x _ hx heq
      have := hs.idsBelow x hx
      rw [heq] at this
      omega
    by_cases hi : i = index
    · by_cases hj : j = index
      · rw [hi, hj]
      · rw [hi, Function.update_self, Function.update_of_ne hj, hrowId] at hij
        rw [hi, Function.update_self, hrowId] at hused
        exact absurd hij.symm (hbelow j hj (hij ▸ hused))
    · rw [Function.update_of_ne hi] at hused hij
      by_cases hj : j = index
      · rw [hj, Function.update_self, hrowId] at hij
        exact absurd hij (hbelow i hi hused)
      · rw [Function.update_of_ne hj] at hij
        exact hs.idsUnique i j hused hij
  · exact hs.subWF
  · intro t k hmem
    obtain ⟨hk, i, hi⟩ := hs.subscribers t k hmem
    refine ⟨hk, i, ?_⟩
    have hne : i ≠ index := by
      intro e
      rw [e, hfree] at hi
      exact hk hi.symm
    show (Function.update s.taskMng.tab index row i).taskId = k
    rw [Function.update_of_ne hne]
    exact hi

/-- A row may be cleared when its task has no subscriptions. -/
theorem Linked.taskTabDel {s : MsgSys n r} {regs : Nat} (hs : Linked s regs) {k : TaskId}
    (hnone : ∀ t, (t, k) ∉ s.subTab.rel) : Linked (s.taskTabDel k).2 regs := by
  rcases s.taskTabDel_cases k with ⟨index, -, hid, heq⟩ | ⟨-, heq⟩
  swap
  · rw [heq]
    exact hs
  rw [heq]
  have hused : ∀ i, (Function.update s.taskMng.tab index taskTabInitUnit i).taskId ≠
      vtopInvalidTaskId → i ≠ index ∧ s.taskMng.Used i := by
    intro i hi
    by_cases hii : i = index
    · subst hii
      simp [taskTabInitUnit] at hi
    · exact ⟨hii, by rwa [Function.update_of_ne hii] at hi⟩
  constructor
  · exact hs.counter
  · intro i hi
    obtain ⟨hne, hui⟩ := hused i hi
    show (Function.update s.taskMng.tab index taskTabInitUnit i).taskId.toNat < _
    rw [Function.update_of_ne hne]
    exact hs.idsBelow i hui
  · intro i j hi hij
    obtain ⟨hne, hui⟩ := hused i hi
    change (Function.update s.taskMng.tab index taskTabInitUnit i).taskId =
      (Function.update s.taskMng.tab index taskTabInitUnit j).taskId at hij
    rw [Function.update_of_ne hne] at hij
    have hj := (hused j (by rw [← hij]; exact hui)).1
    rw [Function.update_of_ne hj] at hij
    exact hs.idsUnique i j hui hij
  · show (s.msgQueueDeinit _).subTab.WF
    rw [MsgSys.msgQueueDeinit_subTab]
    exact hs.subWF
  · intro t k' hmem
    change (t, k') ∈ (s.msgQueueDeinit _).subTab.rel at hmem
    rw [MsgSys.msgQueueDeinit_subTab] at hmem
    obtain ⟨hk', i, hi⟩ := hs.subscribers t k' hmem
    have hne : i ≠ index := by
      intro heq
      subst heq
      rw [hid] at hi
      exact hnone t (hi ▸ hmem)
    refine ⟨hk', i, ?_⟩
    show (Function.update s.taskMng.tab index taskTabInitUnit i).taskId = k'
    rw [Function.update_of_ne hne]
    exact hi

theorem Linked.setTaskData {s : MsgSys n r} {regs : Nat} (hs : Linked s regs)
    (entries : Option (List TaskId)) : Linked { s with gTaskData := entries } regs where
  counter := hs.counter
  idsBelow := hs.idsBelow
  idsUnique := hs.idsUnique
  subWF := hs.subWF
  subscribers := hs.subscribers

/-- The subscription table may be replaced by one without new subscribers. -/
theorem Linked.setSubTab {s : MsgSys n r} {regs : Nat} (hs : Linked s regs)
    {tab : SubTab r n} (hwf : tab.WF)
    (hsub : ∀ t k, (t, k) ∈ tab.rel → s.taskMng.Registered k) :
    Linked { s with subTab := tab } regs where
  counter := hs.counter
  idsBelow := hs.idsBelow
  idsUnique := hs.idsUnique
  subWF := hwf
  subscribers := hsub

/-! ## The calls keep the tables linked -/

/-- A new id is the counter, and it has no subscriptions. -/
theorem Linked.taskTabAdd2_rel {s : MsgSys n r} {regs : Nat} (hs : Linked s regs)
    (taskName : CString) (owner : TaskOwner) (alloc : QueueMalloc)
    (hid : (s.taskTabAdd2 taskName owner alloc).1 ≠ vtopInvalidTaskId) (t : MsgType) :
    (t, (s.taskTabAdd2 taskName owner alloc).1) ∉
      (s.taskTabAdd2 taskName owner alloc).2.subTab.rel := by
  rcases s.taskTabAdd2_cases taskName owner alloc with
    ⟨-, heq⟩ | ⟨index, newQueue, -, -, -, heq⟩
  · rw [heq] at hid
    exact absurd rfl hid
  rw [heq] at hid ⊢
  cases newQueue with
  | none => exact absurd rfl hid
  | some q => exact fun hmem => hs.not_registered_counter (hs.subscribers t _ hmem)

theorem Linked.vtopMsgRegisterX {s : MsgSys n r} {regs : Nat} (hs : Linked s regs)
    (hregs : regs < vtopMaxTaskId.toNat) (taskName : CString) (owner : TaskOwner)
    (alloc : RegisterMalloc) :
    Linked (s.vtopMsgRegisterX taskName owner alloc).2 (regs + 1) := by
  have hlinked := hs.taskTabAdd2 hregs taskName owner alloc.queue
  have hrel := hs.taskTabAdd2_rel taskName owner alloc.queue
  obtain ⟨⟨k, s₁⟩, hadd⟩ : ∃ res, s.taskTabAdd2 taskName owner alloc.queue = res := ⟨_, rfl⟩
  rw [hadd] at hlinked hrel
  rcases MsgSys.vtopMsgRegisterX_outcome hadd with
    ⟨e, heq⟩ | heq | ⟨-, entries, heq⟩ | ⟨hid, entries, e, heq⟩
  · rw [heq]
    exact hs.mono (Nat.le_succ regs)
  · rw [heq]
    exact hlinked
  · rw [heq]
    exact hlinked.setTaskData entries
  · rw [heq]
    exact (hlinked.setTaskData entries).taskTabDel (hrel hid)

/-- The deletion loop removes exactly the listed pairs. -/
theorem delSubs_eq {k : TaskId} {types : List MsgType} {s : MsgSys n r} (hwf : s.subTab.WF)
    (hk : s.taskMng.Registered k) (hnodup : types.Nodup)
    (hmem : ∀ t ∈ types, (t, k) ∈ s.subTab.rel) :
    ∃ tab : SubTab r n, s.delSubs k types = (.ok, { s with subTab := tab }) ∧ tab.WF ∧
      tab.rel = s.subTab.rel \ { p | p.1 ∈ types ∧ p.2 = k } := by
  induction types generalizing s with
  | nil =>
      refine ⟨s.subTab, rfl, hwf, ?_⟩
      ext p
      simp
  | cons t rest ih =>
      have hin := hmem t List.mem_cons_self
      rw [List.nodup_cons] at hnodup
      rcases hwf.del_outcome (t := t) hin.1 hk with ⟨hnot, -⟩ | ⟨-, tab, hdel, hwf', hrel⟩
      · exact absurd hin hnot
      obtain ⟨tab', hloop, hwf'', hrel'⟩ := ih (s := { s with subTab := tab }) hwf' hk
        hnodup.2 (by
          intro t' ht'
          show (t', k) ∈ tab.rel
          rw [hrel]
          refine ⟨hmem t' (List.mem_cons_of_mem t ht'), ?_⟩
          intro hgiven
          obtain ⟨rfl, -⟩ := hgiven
          exact hnodup.1 ht')
      refine ⟨tab', by simp only [MsgSys.delSubs, hdel, hloop], hwf'', ?_⟩
      rw [hrel', show ({ s with subTab := tab } : MsgSys n r).subTab = tab from rfl, hrel]
      ext ⟨t', k'⟩
      simp only [Set.mem_sdiff, Set.mem_singleton_iff, Set.mem_ofPred_eq, Prod.mk.injEq,
        List.mem_cons]
      tauto

/-- Everything `VTOP_MSG_UnRegister` can do: refuse, or delete the pairs of the task,
its row and its task data. -/
theorem Linked.unRegister_outcome {s : MsgSys n r} {regs : Nat} (hs : Linked s regs)
    (k : TaskId) (mallocList : Bool) :
    (∃ e, s.vtopMsgUnRegister k mallocList = (.err e, s)) ∨
    (s.taskMng.Registered k ∧ ∃ (tab : SubTab r n) (ret : Ret) (entries : Option (List TaskId)),
      tab.WF ∧ tab.rel = s.subTab.rel \ { p | p.2 = k } ∧
      s.vtopMsgUnRegister k mallocList =
        (ret, { (({ s with subTab := tab } : MsgSys n r).taskTabDel k).2 with
          gTaskData := entries })) := by
  unfold MsgSys.vtopMsgUnRegister
  split
  · exact Or.inl ⟨_, rfl⟩
  rename_i hid
  split
  · exact Or.inl ⟨_, rfl⟩
  rename_i hexist
  split
  · exact Or.inl ⟨_, rfl⟩
  split
  · exact Or.inl ⟨_, rfl⟩
  right
  have hk : s.taskMng.Registered k :=
    (TaskMng.isTaskIdExist_iff_registered hid).mp (by simpa using hexist)
  -- the loop deletes the pairs of the list that `SUB_TAB_Task2Sub` returns
  obtain ⟨types, hlist, hnodup, hmem⟩ := hs.subWF.task2Sub_eq hk
  have htypes : s.unRegisterList k = types := by
    simp only [MsgSys.unRegisterList, hlist]
  obtain ⟨tab, hloop, hwf, hrel⟩ :=
    delSubs_eq hs.subWF hk hnodup (fun t ht => (hmem t).mp ht)
  refine ⟨hk, tab, ?_⟩
  have hrel' : tab.rel = s.subTab.rel \ { p | p.2 = k } := by
    rw [hrel]
    ext ⟨t, k'⟩
    simp only [Set.mem_sdiff, Set.mem_ofPred_eq]
    constructor
    · intro hgiven
      obtain ⟨hin, hout⟩ := hgiven
      exact ⟨hin, fun hk' => hout ⟨(hmem t).mpr (hk' ▸ hin), hk'⟩⟩
    · intro hgiven
      obtain ⟨hin, hout⟩ := hgiven
      exact ⟨hin, fun h => hout h.2⟩
  obtain ⟨index, -, -, hdel⟩ | ⟨hfind, -⟩ :=
    ({ s with subTab := tab } : MsgSys n r).taskTabDel_cases k
  swap
  · obtain ⟨-, i, hi⟩ := hk
    exact absurd hi (TaskMng.findId_eq_none_iff.mp hfind i)
  generalize hs₂ : ({ s with subTab := tab } : MsgSys n r).taskTabDel k = res at hdel
  obtain ⟨ret, s₂⟩ := res
  obtain rfl : ret = .ok := congrArg Prod.fst hdel
  obtain ⟨entries, hdata⟩ := s₂.delTaskData_frame k
  generalize hs₃ : s₂.delTaskData k = res at hdata
  obtain ⟨ret, s₃⟩ := res
  obtain rfl : s₃ = { s₂ with gTaskData := entries } := hdata
  rw [htypes, hloop]
  simp only [hs₂, hs₃]
  cases ret with
  | ok => exact ⟨.ok, entries, hwf, hrel', rfl⟩
  | err e => exact ⟨.err .general, entries, hwf, hrel', rfl⟩

theorem Linked.vtopMsgUnRegister {s : MsgSys n r} {regs : Nat} (hs : Linked s regs)
    (k : TaskId) (mallocList : Bool) : Linked (s.vtopMsgUnRegister k mallocList).2 regs := by
  rcases hs.unRegister_outcome k mallocList with ⟨e, heq⟩ | ⟨-, tab, ret, entries, hwf, hrel, heq⟩
  · rw [heq]
    exact hs
  · rw [heq]
    have hsub : Linked { s with subTab := tab } regs := by
      refine hs.setSubTab hwf ?_
      intro t k' hmem
      rw [hrel] at hmem
      exact hs.subscribers t k' hmem.1
    refine (hsub.taskTabDel ?_).setTaskData entries
    intro t hmem
    change (t, k) ∈ tab.rel at hmem
    rw [hrel] at hmem
    exact hmem.2 rfl

/-- A row of the subscription table in which a registered task is missing has a free
slot: a full row would name every row of the task table. -/
theorem Linked.exists_free_slot {s : MsgSys n r} {regs : Nat} (hs : Linked s regs)
    {u : Fin r} {k : TaskId} (hk : s.taskMng.Registered k)
    (hout : ∀ x, (s.subTab u).taskIdList x ≠ k) :
    ∃ x, (s.subTab u).taskIdList x = vtopInvalidTaskId := by
  by_contra hfull
  push Not at hfull
  -- the task row of the subscriber in each slot
  have hrow : ∀ x, ∃ i, (s.taskMng.tab i).taskId = (s.subTab u).taskIdList x := by
    intro x
    have htype := hs.subWF.msgType_ne_of_slot (hfull x)
    exact (hs.subscribers _ _ (SubTab.mem_rel_of_slot htype (hfull x))).2
  choose row hrow using hrow
  have hinj : Function.Injective row := by
    intro x y hxy
    refine hs.subWF.taskUnique u x y (hfull x) ?_
    rw [← hrow x, ← hrow y, hxy]
  obtain ⟨-, i, hi⟩ := hk
  obtain ⟨x, rfl⟩ := Finite.surjective_of_injective hinj i
  exact hout x ((hrow x).symm.trans hi)

/-- Everything `VTOP_MSG_Subscribe` can do. -/
theorem Linked.subscribe_outcome [NeZero n] {s : MsgSys n r} {regs : Nat} (hs : Linked s regs)
    (k : TaskId) (t : MsgType) :
    (∃ e, e ≠ .subMemberFull ∧ s.vtopMsgSubscribe k t = (.err e, s)) ∨
    (s.taskMng.Registered k ∧ ∃ tab : SubTab r n, tab.WF ∧
      tab.rel = insert (t, k) s.subTab.rel ∧
      s.vtopMsgSubscribe k t = (.ok, { s with subTab := tab })) := by
  by_cases hid : k = vtopInvalidTaskId
  · left
    exact ⟨.invalidPara, by decide, by simp [MsgSys.vtopMsgSubscribe, hid]⟩
  by_cases ht : t = vtopInvalidMsgType
  · left
    exact ⟨.invalidPara, by decide, by simp [MsgSys.vtopMsgSubscribe, hid, ht]⟩
  have hcall : s.vtopMsgSubscribe k t = ((s.subTab.add s.taskMng t k).1,
      { s with subTab := (s.subTab.add s.taskMng t k).2 }) := by
    simp [MsgSys.vtopMsgSubscribe, hid, ht]
  rw [hcall]
  by_cases hexist : s.taskMng.isTaskIdExist k = true
  · have hk : s.taskMng.Registered k := (TaskMng.isTaskIdExist_iff_registered hid).mp hexist
    rw [SubTab.add_eq_addLocked hk]
    rcases hs.subWF.addLocked_outcome ht hid with ⟨-, heq⟩ | ⟨hnot, ⟨k', hk'⟩, hfull, -⟩ |
      ⟨-, -, heq⟩ | ⟨-, -, -, tab, heq, hwf, hrel⟩
    · left
      exact ⟨.subExist, by decide, by rw [heq]⟩
    · exfalso
      obtain ⟨-, -, u, x, hu, -⟩ := hk'
      have hout : ∀ x, (s.subTab u).taskIdList x ≠ k :=
        fun x hx => hnot ⟨ht, hid, u, x, hu, hx⟩
      obtain ⟨x, hx⟩ := hs.exists_free_slot hk hout
      exact hfull u hu x hx
    · left
      exact ⟨.subFull, by decide, by rw [heq]⟩
    · right
      exact ⟨hk, tab, hwf, hrel, by rw [heq]⟩
  · left
    have hfalse : s.taskMng.isTaskIdExist k = false := by simpa using hexist
    exact ⟨.taskNotExist, by decide, by simp [SubTab.add, hfalse]⟩

theorem Linked.vtopMsgSubscribe [NeZero n] {s : MsgSys n r} {regs : Nat} (hs : Linked s regs)
    (k : TaskId) (t : MsgType) : Linked (s.vtopMsgSubscribe k t).2 regs := by
  rcases hs.subscribe_outcome k t with ⟨e, -, heq⟩ | ⟨hk, tab, hwf, hrel, heq⟩
  · rw [heq]
    exact hs
  · rw [heq]
    refine hs.setSubTab hwf ?_
    intro t' k' hmem
    rw [hrel] at hmem
    rcases hmem with heq | hmem
    · obtain ⟨-, rfl⟩ := Prod.mk.inj heq
      exact hk
    · exact hs.subscribers t' k' hmem

theorem Linked.vtopMsgUnSubscribe {s : MsgSys n r} {regs : Nat} (hs : Linked s regs)
    (k : TaskId) (t : MsgType) : Linked (s.vtopMsgUnSubscribe k t).2 regs := by
  unfold MsgSys.vtopMsgUnSubscribe
  split
  · exact hs
  rename_i hid
  split
  · exact hs
  rename_i ht
  by_cases hexist : s.taskMng.isTaskIdExist k = true
  · have hk : s.taskMng.Registered k := (TaskMng.isTaskIdExist_iff_registered hid).mp hexist
    rcases hs.subWF.del_outcome ht hk with ⟨-, heq⟩ | ⟨-, tab, heq, hwf, hrel⟩
    · rw [heq]
      exact hs
    · rw [heq]
      refine hs.setSubTab hwf ?_
      intro t' k' hmem
      rw [hrel] at hmem
      exact hs.subscribers t' k' hmem.1
  · have hfalse : s.taskMng.isTaskIdExist k = false := by simpa using hexist
    simp only [SubTab.del, hfalse, if_true]
    exact hs

/-! ## Every call keeps the handles -/

theorem handlesOk_vtopMsgRegisterX {s : MsgSys n r} (hs : s.HandlesOk) (taskName : CString)
    (owner : TaskOwner) (alloc : RegisterMalloc) :
    (s.vtopMsgRegisterX taskName owner alloc).2.HandlesOk := by
  have hok := hs.taskTabAdd2 taskName owner alloc.queue
  obtain ⟨⟨k, s₁⟩, hadd⟩ : ∃ res, s.taskTabAdd2 taskName owner alloc.queue = res := ⟨_, rfl⟩
  rw [hadd] at hok
  have hdata : ∀ entries, ({ s₁ with gTaskData := entries } : MsgSys n r).HandlesOk :=
    fun entries => hok.congr rfl rfl rfl rfl
  rcases MsgSys.vtopMsgRegisterX_outcome hadd with
    ⟨e, heq⟩ | heq | ⟨-, entries, heq⟩ | ⟨-, entries, e, heq⟩
  · rw [heq]
    exact hs
  · rw [heq]
    exact hok
  · rw [heq]
    exact hdata entries
  · rw [heq]
    exact (hdata entries).taskTabDel k

theorem handlesOk_vtopMsgUnRegister {s : MsgSys n r} {regs : Nat} (hs : s.HandlesOk)
    (hlinked : Linked s regs) (k : TaskId) (mallocList : Bool) :
    (s.vtopMsgUnRegister k mallocList).2.HandlesOk := by
  rcases hlinked.unRegister_outcome k mallocList with ⟨e, heq⟩ | ⟨-, tab, ret, entries, -, -, heq⟩
  · rw [heq]
    exact hs
  · rw [heq]
    have hsub : ({ s with subTab := tab } : MsgSys n r).HandlesOk := hs.congr rfl rfl rfl rfl
    exact (hsub.taskTabDel k).congr rfl rfl rfl rfl

theorem handlesOk_vtopMsgSubscribe [NeZero n] {s : MsgSys n r} (hs : s.HandlesOk) (k : TaskId)
    (t : MsgType) : (s.vtopMsgSubscribe k t).2.HandlesOk := by
  unfold MsgSys.vtopMsgSubscribe
  split
  · exact hs
  split
  · exact hs
  exact hs.congr rfl rfl rfl rfl

theorem handlesOk_vtopMsgUnSubscribe {s : MsgSys n r} (hs : s.HandlesOk) (k : TaskId)
    (t : MsgType) : (s.vtopMsgUnSubscribe k t).2.HandlesOk := by
  unfold MsgSys.vtopMsgUnSubscribe
  split
  · exact hs
  split
  · exact hs
  exact hs.congr rfl rfl rfl rfl

/-! ## Sequential runs -/

/-- The message system and the number of registrations so far. -/
structure State (n r : Nat) where
  sys : MsgSys n r
  regs : Nat

/-- The calls of the clients. -/
inductive Act
  | register (taskName : CString) (alloc : RegisterMalloc)
  | unRegister (taskId : TaskId) (mallocList : Bool)
  | subscribe (taskId : TaskId) (msgType : MsgType)
  | unSubscribe (taskId : TaskId) (msgType : MsgType)

/-- One call. -/
def step [NeZero n] (s : State n r) : Act → Option (State n r)
  | .register taskName alloc => some ⟨(s.sys.vtopMsgRegister taskName alloc).2, s.regs + 1⟩
  | .unRegister taskId mallocList =>
      some { s with sys := (s.sys.vtopMsgUnRegister taskId mallocList).2 }
  | .subscribe taskId msgType =>
      some { s with sys := (s.sys.vtopMsgSubscribe taskId msgType).2 }
  | .unSubscribe taskId msgType =>
      some { s with sys := (s.sys.vtopMsgUnSubscribe taskId msgType).2 }

/-- Sequential runs from the state `VTOP_MSG_Main` leaves. -/
def machine (n r : Nat) [NeZero n] : Machine (State n r) Act where
  init := fun s => ∃ svr alloc pool,
    msgQueueInit msgDefaultQueueSize alloc pool = some svr ∧ s = ⟨MsgSys.init n r svr, 0⟩
  step := step

/-- What a successful `VTOP_MSG_UnRegister` leaves behind. -/
structure UnRegistered (s : MsgSys n r) (k : TaskId) (s' : MsgSys n r) : Prop where
  /-- The task is gone, -/
  gone : ¬ s'.taskMng.Registered k
  /-- exactly its pairs are gone, -/
  pairs : s'.subTab.rel = s.subTab.rel \ { p | p.2 = k }
  /-- every other task keeps its name, its id and its handle, -/
  others : ∀ i, (s.taskMng.tab i).taskId ≠ k → s'.taskMng.tab i = s.taskMng.tab i
  /-- and its queue. -/
  queues : ∀ i h, (s.taskMng.tab i).taskId ≠ k → (s.taskMng.tab i).handle = some h →
    s'.queues h = s.queues h

theorem unRegistered_of_ok {s s' : MsgSys n r} {regs : Nat} (hlinked : Linked s regs)
    (hs : s.HandlesOk) {k : TaskId} {mallocList : Bool}
    (hcall : s.vtopMsgUnRegister k mallocList = (.ok, s')) : UnRegistered s k s' := by
  rcases hlinked.unRegister_outcome k mallocList with
    ⟨e, heq⟩ | ⟨hk, tab, ret, entries, -, hrel, heq⟩
  · rw [heq] at hcall
    cases hcall
  rw [heq] at hcall
  obtain rfl := congrArg Prod.snd hcall
  obtain ⟨index, -, hid, hdel⟩ | ⟨hfind, -⟩ :=
    ({ s with subTab := tab } : MsgSys n r).taskTabDel_cases k
  swap
  · obtain ⟨-, i, hi⟩ := hk
    exact absurd hi (TaskMng.findId_eq_none_iff.mp hfind i)
  change (s.taskMng.tab index).taskId = k at hid
  rw [hdel]
  have hother : ∀ i, (s.taskMng.tab i).taskId ≠ k → i ≠ index := by
    rintro i hi rfl
    exact hi hid
  constructor
  · intro hgiven
    obtain ⟨hne, i, hi⟩ := hgiven
    change (Function.update s.taskMng.tab index taskTabInitUnit i).taskId = k at hi
    by_cases hii : i = index
    · rw [hii, Function.update_self] at hi
      exact hne hi.symm
    · rw [Function.update_of_ne hii] at hi
      refine hii (hlinked.idsUnique i index ?_ (hi.trans hid.symm))
      unfold TaskMng.Used
      rw [hi]
      exact hne
  · show (MsgSys.msgQueueDeinit _ _).subTab.rel = _
    rw [MsgSys.msgQueueDeinit_subTab]
    exact hrel
  · intro i hi
    exact Function.update_of_ne (hother i hi) _ _
  · intro i h hi hh
    have hne : (s.taskMng.tab index).handle ≠ some h :=
      fun e => hother i hi (hs.unique i index h hh e)
    exact MsgSys.msgQueueDeinit_queues_ne ({ s with subTab := tab } : MsgSys n r) hne

/-- Every subscriber is registered, unregistering takes exactly one task away, and
a subscriber always finds a slot. -/
structure NoDangling [NeZero n] (s : MsgSys n r) : Prop where
  subscribers : ∀ u x, (s.subTab u).taskIdList x ≠ vtopInvalidTaskId →
    s.taskMng.Registered ((s.subTab u).taskIdList x)
  unRegister : ∀ k mallocList s', s.vtopMsgUnRegister k mallocList = (.ok, s') →
    UnRegistered s k s'
  subscribe : ∀ k t, (s.vtopMsgSubscribe k t).1 ≠ .err .subMemberFull

/-- The invariant of a run with few enough registrations. -/
def Inv (s : State n r) : Prop :=
  s.regs < vtopMaxTaskId.toNat → Linked s.sys s.regs ∧ s.sys.HandlesOk

theorem inv_step [NeZero n] {s s' : State n r} {a : Act} (hinv : Inv s)
    (hstep : step s a = some s') : Inv s' := by
  intro hregs
  cases a with
  | register taskName alloc =>
      obtain rfl := Option.some.inj hstep
      have hbefore : s.regs < vtopMaxTaskId.toNat := lt_trans (Nat.lt_succ_self _) hregs
      obtain ⟨hlinked, hs⟩ := hinv hbefore
      exact ⟨hlinked.vtopMsgRegisterX hbefore taskName .task alloc,
        handlesOk_vtopMsgRegisterX hs taskName .task alloc⟩
  | unRegister taskId mallocList =>
      obtain rfl := Option.some.inj hstep
      obtain ⟨hlinked, hs⟩ := hinv hregs
      exact ⟨hlinked.vtopMsgUnRegister taskId mallocList,
        handlesOk_vtopMsgUnRegister hs hlinked taskId mallocList⟩
  | subscribe taskId msgType =>
      obtain rfl := Option.some.inj hstep
      obtain ⟨hlinked, hs⟩ := hinv hregs
      exact ⟨hlinked.vtopMsgSubscribe taskId msgType,
        handlesOk_vtopMsgSubscribe hs taskId msgType⟩
  | unSubscribe taskId msgType =>
      obtain rfl := Option.some.inj hstep
      obtain ⟨hlinked, hs⟩ := hinv hregs
      exact ⟨hlinked.vtopMsgUnSubscribe taskId msgType,
        handlesOk_vtopMsgUnSubscribe hs taskId msgType⟩

/-- In every state of a sequential run with fewer than `VTOP_MAX_TASK_ID`
registrations no subscription dangles. -/
theorem noDangling_of_reach (n r : Nat) [NeZero n] (s : State n r)
    (hreach : (machine n r).Reach s) (hregs : s.regs < vtopMaxTaskId.toNat) :
    NoDangling s.sys := by
  have hinv : Inv s := by
    refine hreach.invariant (I := Inv) ?_ (fun s a s' hinv _ hs => inv_step hinv hs)
    rintro s ⟨svr, alloc, pool, -, rfl⟩ -
    exact ⟨linked_init svr, MsgSys.handlesOk_init svr⟩
  obtain ⟨hlinked, hs⟩ := hinv hregs
  constructor
  · intro u x hslot
    have htype := hlinked.subWF.msgType_ne_of_slot hslot
    exact hlinked.subscribers _ _ (SubTab.mem_rel_of_slot htype hslot)
  · exact fun k mallocList s' hcall => unRegistered_of_ok hlinked hs hcall
  · intro k t
    rcases hlinked.subscribe_outcome k t with ⟨e, hne, heq⟩ | ⟨-, tab, -, -, heq⟩
    · rw [heq]
      simpa using hne
    · rw [heq]
      simp

/-- Outcomes of `malloc` that never fail. -/
def allGranted : RegisterMalloc where
  queue := ⟨true, fun _ => true⟩
  dataHead := true
  dataNode := true

/-- Two tasks have registered and subscribed to the message type `5`, and the first one has gone
away again. -/
def oneGone : State 2 1 :=
  ((machine 2 1).run ⟨MsgSys.init 2 1 .freshQueue, 0⟩
    [.register nameA allGranted, .register nameB allGranted, .subscribe 0 5, .subscribe 1 5,
      .unRegister 0 true]).get (by decide +kernel)

/-- The subscription of the first task is gone, and that of the second is not. -/
theorem noDangling_oneGone :
    ¬ oneGone.sys.taskMng.Registered 0 ∧
      (oneGone.sys.subTab 0).taskIdList 0 = vtopInvalidTaskId ∧
      (oneGone.sys.subTab 0).taskIdList 1 = 1 ∧ NoDangling oneGone.sys := by
  refine ⟨by decide +kernel, by decide +kernel, by decide +kernel, ?_⟩
  refine noDangling_of_reach 2 1 oneGone ?_ (by decide +kernel)
  refine Machine.reach_of_run _ ?_ (Option.some_get _).symm
  exact ⟨.freshQueue, true, fun _ => true, MsgQueue.msgQueueInit_freshQueue, rfl⟩

end Registration
end Msg
end AndroidLinux
