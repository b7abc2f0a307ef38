import AndroidLinux.Msg.QueueLifetime

/-!
# The names of the tasks

`VTOP_MSG_RegisterX` looks its name up in one section of the task table
(`TASK_TAB_IsTaskExist`) and takes a row for it in another (`TASK_TAB_Add2`).  Two
registrations of one name that both look it up before either takes its row both
succeed (`names_not_unique_of_race`).

Names stay unique in the runs in which a lookup succeeds only while no other thread
stands between these two sections with the same name.  The empty name is a case of
its own: the lookup takes a free row, whose name field is zeroed, for a row of that
name.

A registration that returned success blocks the others that overlap with it until the
task is deleted, so that no two overlapping ones of a name succeed also needs that a task
is not deleted under a registration of its name that overlaps with one that succeeded.
-/

namespace AndroidLinux
namespace Msg

open Lib

/-! ## The table -/

namespace TaskMng

variable {n : Nat}

/-- A registered task has the name. -/
def HasName (s : TaskMng n) (taskName : CString) : Prop :=
  ∃ index, s.Used index ∧ (s.tab index).taskName = taskName

/-- No two registered tasks have the same name. -/
def NamesUnique (s : TaskMng n) : Prop :=
  ∀ i j, s.Used i → s.Used j → (s.tab i).taskName = (s.tab j).taskName → i = j

/-- Unique names, and what the lookup relies on. -/
structure NamesOk (s : TaskMng n) : Prop where
  unique : s.NamesUnique
  fits : ∀ i, (s.tab i).taskName.strlen < vtopMsgMaxTaskNameLen
  free : ∀ i, ¬ s.Used i → (s.tab i).taskName = CString.empty
  counter : s.counterTaskId ≤ vtopMaxTaskId

theorem namesOk_init (n : Nat) : (taskTabInit n).NamesOk where
  unique := fun _ _ hi => absurd rfl hi
  fits := fun _ => show CString.empty.strlen < vtopMsgMaxTaskNameLen by decide
  free := fun _ _ => rfl
  counter := show (0 : TaskId) ≤ vtopMaxTaskId by decide

/-- The lookup sees a registered name, except for the empty one. -/
theorem NamesOk.not_hasName {s : TaskMng n} (hs : s.NamesOk) {taskName : CString}
    (hlen : taskName.strlen < vtopMsgMaxTaskNameLen)
    (hexist : s.isTaskExist taskName = false)
    (hempty : taskName = CString.empty → ¬ s.HasName taskName) : ¬ s.HasName taskName := by
  intro hgiven
  obtain ⟨i, hused, hname⟩ := hgiven
  have hmatch : ∀ j, CString.strncmpEq vtopMsgMaxTaskNameLen (s.tab j).taskName taskName =
      true ↔ (s.tab j).taskName = taskName :=
    fun j => CString.strncmpEq_iff (hs.fits j) hlen
  have hid : s.name2Id taskName = vtopInvalidTaskId := by
    simpa [isTaskExist] using hexist
  unfold name2Id at hid
  split at hid
  · -- the row found is free, so its name is the empty one
    rename_i j hfind
    have hj := (hmatch j).mp (Fin.find?_eq_some_iff.mp hfind).1
    have hzero : taskName = CString.empty := hj.symm.trans (hs.free j (fun h => h hid))
    exact hempty hzero ⟨i, hused, hname⟩
  · rename_i hfind
    have := Fin.find?_eq_none_iff.mp hfind i
    rw [(hmatch i).mpr hname] at this
    cases this

/-- A row is used after it has been filled with an ordinary id. -/
theorem used_update {s : TaskMng n} {index i : Fin n} {row : TaskRow} {counter : TaskId} :
    (⟨Function.update s.tab index row, counter⟩ : TaskMng n).Used i ↔
      (i = index ∧ row.taskId ≠ vtopInvalidTaskId) ∨ (i ≠ index ∧ s.Used i) := by
  unfold Used
  by_cases hi : i = index
  · subst hi
    simp
  · simp [hi]

/-- The names after a free row has been filled. -/
theorem hasName_fill {s : TaskMng n} {index : Fin n} {row : TaskRow} {counter : TaskId}
    {taskName : CString} (hfree : ¬ s.Used index) (hid : row.taskId ≠ vtopInvalidTaskId) :
    (⟨Function.update s.tab index row, counter⟩ : TaskMng n).HasName taskName ↔
      s.HasName taskName ∨ row.taskName = taskName := by
  constructor
  · intro hgiven
    obtain ⟨i, hused, hname⟩ := hgiven
    rcases used_update.mp hused with ⟨rfl, -⟩ | ⟨hi, hold⟩
    · right
      simpa using hname
    · left
      exact ⟨i, hold, by simpa [hi] using hname⟩
  · rintro (⟨i, hused, hname⟩ | hname)
    · have hi : i ≠ index := fun h => hfree (h ▸ hused)
      exact ⟨i, used_update.mpr (Or.inr ⟨hi, hused⟩), by simpa [hi] using hname⟩
    · exact ⟨index, used_update.mpr (Or.inl ⟨rfl, hid⟩), by simpa using hname⟩

theorem NamesOk.fill {s : TaskMng n} (hs : s.NamesOk) {index : Fin n} {row : TaskRow}
    (hid : row.taskId ≠ vtopInvalidTaskId)
    (hfits : row.taskName.strlen < vtopMsgMaxTaskNameLen) (hnew : ¬ s.HasName row.taskName) :
    (⟨Function.update s.tab index row, nextTaskId s.counterTaskId⟩ : TaskMng n).NamesOk where
  unique := by
    intro i j hi hj hname
    rcases used_update.mp hi with ⟨rfl, -⟩ | ⟨hii, hiold⟩
    · rcases used_update.mp hj with ⟨rfl, -⟩ | ⟨hjj, hjold⟩
      · rfl
      · exact absurd ⟨j, hjold, by simpa [hjj] using hname.symm⟩ hnew
    · rcases used_update.mp hj with ⟨rfl, -⟩ | ⟨hjj, hjold⟩
      · exact absurd ⟨i, hiold, by simpa [hii] using hname⟩ hnew
      · exact hs.unique i j hiold hjold (by simpa [hii, hjj] using hname)
  fits := by
    intro i
    by_cases hi : i = index
    · subst hi
      simpa using hfits
    · simpa [hi] using hs.fits i
  free := by
    intro i hi
    rw [used_update, not_or] at hi
    by_cases hii : i = index
    · exact absurd ⟨hii, hid⟩ hi.1
    · simpa [hii] using hs.free i (fun h => hi.2 ⟨hii, h⟩)
  counter := nextTaskId_le hs.counter

/-- A name is lost only with its row. -/
theorem HasName.clear {s : TaskMng n} {index : Fin n} {taskName : CString}
    (hname : s.HasName taskName) (hne : (s.tab index).taskName ≠ taskName) :
    ({ s with tab := Function.update s.tab index taskTabInitUnit } : TaskMng n).HasName
      taskName := by
  obtain ⟨i, hused, hi⟩ := hname
  have hii : i ≠ index := fun h => hne (h ▸ hi)
  exact ⟨i, used_update.mpr (Or.inr ⟨hii, hused⟩), by simpa [hii] using hi⟩

theorem HasName.of_clear {s : TaskMng n} {index : Fin n} {taskName : CString}
    (hname : ({ s with tab := Function.update s.tab index taskTabInitUnit } :
      TaskMng n).HasName taskName) : s.HasName taskName := by
  obtain ⟨i, hused, hi⟩ := hname
  rcases used_update.mp hused with ⟨-, h⟩ | ⟨hii, h⟩
  · exact absurd rfl h
  · exact ⟨i, h, by simpa [hii] using hi⟩

theorem NamesOk.clear {s : TaskMng n} (hs : s.NamesOk) (index : Fin n) :
    ({ s with tab := Function.update s.tab index taskTabInitUnit } : TaskMng n).NamesOk where
  unique := by
    intro i j hi hj hname
    rcases used_update.mp hi with ⟨-, h⟩ | ⟨hii, hi⟩
    · exact absurd rfl h
    rcases used_update.mp hj with ⟨-, h⟩ | ⟨hjj, hj⟩
    · exact absurd rfl h
    exact hs.unique i j hi hj (by simpa [hii, hjj] using hname)
  fits := by
    intro i
    by_cases hi : i = index
    · subst hi
      simp only [Function.update_self]
      exact (by decide : CString.empty.strlen < vtopMsgMaxTaskNameLen)
    · simpa [hi] using hs.fits i
  free := by
    intro i hi
    by_cases hii : i = index
    · subst hii
      simp [taskTabInitUnit]
    · simpa [hii] using hs.free i (fun h => hi (used_update.mpr (Or.inr ⟨hii, h⟩)))
  counter := hs.counter

end TaskMng

/-! ## The threads -/

/-- The registration a thread is in: the name and the time of the call. -/
def Pc.registration {r : Nat} : Pc r → Option (CString × Nat)
  | .regCheck taskName start => some (taskName, start)
  | .regAdd taskName start => some (taskName, start)
  | .regData taskName start _ => some (taskName, start)
  | .regUndo taskName start _ => some (taskName, start)
  | _ => none

/-- The name a thread has looked up and not taken a row for yet. -/
def Pc.adding {r : Nat} : Pc r → Option CString
  | .regAdd taskName _ => some taskName
  | _ => none

/-- The name a thread has taken a row for, before its registration returns. -/
def Pc.placed {r : Nat} : Pc r → Option CString
  | .regData taskName _ _ => some taskName
  | .regUndo taskName _ _ => some taskName
  | _ => none

/-- The two calls were in progress at the same time. -/
def RegEntry.Overlaps (e e' : RegEntry) : Prop :=
  e.start ≤ e'.finish ∧ e'.start ≤ e.finish

/-- What holds of the registrations in progress and of those that succeeded, where
`has` are the names in the table. -/
structure CallsOk {r : Nat} (has : CString → Prop) (pc : Nat → Pc r) (log : List RegEntry)
    (now : Nat) : Prop where
  fits : ∀ c nm st, (pc c).registration = some (nm, st) → nm.strlen < vtopMsgMaxTaskNameLen
  adding : ∀ c nm, (pc c).adding = some nm → ¬ has nm
  addingOne : ∀ c c' nm, (pc c).adding = some nm → (pc c').adding = some nm → c = c'
  placed : ∀ c nm, (pc c).placed = some nm → has nm
  placedOne : ∀ c c' nm, (pc c).placed = some nm → (pc c').placed = some nm → c = c'
  blocked : ∀ e ∈ log, ∀ c st, (pc c).registration = some (e.taskName, st) → st ≤ e.finish →
    has e.taskName ∧ (pc c).adding = none ∧ (pc c).placed = none
  disjoint : log.Pairwise fun e e' => e.taskName = e'.taskName → e'.finish < e.start
  past : ∀ e ∈ log, e.finish < now

/-- What the program point `p` of thread `c` has to satisfy beside the others. -/
structure Stands {r : Nat} (has : CString → Prop) (pc : Nat → Pc r) (log : List RegEntry)
    (c : Nat) (p : Pc r) : Prop where
  fits : ∀ nm st, p.registration = some (nm, st) → nm.strlen < vtopMsgMaxTaskNameLen
  adding : ∀ nm, p.adding = some nm → ¬ has nm ∧ ∀ c', c' ≠ c → (pc c').adding ≠ some nm
  placed : ∀ nm, p.placed = some nm → has nm ∧ ∀ c', c' ≠ c → (pc c').placed ≠ some nm
  blocked : ∀ e ∈ log, ∀ st, p.registration = some (e.taskName, st) → st ≤ e.finish →
    has e.taskName ∧ p.adding = none ∧ p.placed = none

section Calls

variable {r : Nat} {has has' : CString → Prop} {pc : Nat → Pc r} {log : List RegEntry}
  {now : Nat} {c : Nat} {p : Pc r}

theorem stands_of_registering (hp : p.registering = none) : Stands has pc log c p := by
  cases p <;> first
    | exact absurd hp (Option.some_ne_none _)
    | exact ⟨fun _ _ h => (by cases h), fun _ h => (by cases h), fun _ h => (by cases h),
        fun _ _ _ h => (by cases h)⟩

theorem adding_eq {nm nm' : CString} {st : Nat} (hreg : p.registration = some (nm, st))
    (hadd : p.adding = some nm') : nm' = nm := by
  cases p <;> first
    | cases hadd
      cases hreg
      rfl
    | cases hadd

theorem placed_eq {nm nm' : CString} {st : Nat} (hreg : p.registration = some (nm, st))
    (hput : p.placed = some nm') : nm' = nm := by
  cases p <;> first
    | cases hput
      cases hreg
      rfl
    | cases hput

/-- A name in the hands of at most one thread stays so when the thread that moves does
not take it from another. -/
theorem only_update {f : Pc r → Option CString}
    (h : ∀ c c' nm, f (pc c) = some nm → f (pc c') = some nm → c = c')
    (hp : ∀ nm, f p = some nm → ∀ c', c' ≠ c → f (pc c') ≠ some nm) (c₁ c₂ : Nat)
    (nm : CString) (h₁ : f (Function.update pc c p c₁) = some nm)
    (h₂ : f (Function.update pc c p c₂) = some nm) : c₁ = c₂ := by
  by_cases hc₁ : c₁ = c
  · by_cases hc₂ : c₂ = c
    · exact hc₁.trans hc₂.symm
    · subst hc₁
      rw [Function.update_self] at h₁
      rw [Function.update_of_ne hc₂] at h₂
      exact absurd h₂ (hp nm h₁ c₂ hc₂)
  · rw [Function.update_of_ne hc₁] at h₁
    by_cases hc₂ : c₂ = c
    · subst hc₂
      rw [Function.update_self] at h₂
      exact absurd h₁ (hp nm h₂ c₁ hc₁)
    · rw [Function.update_of_ne hc₂] at h₂
      exact h c₁ c₂ nm h₁ h₂

/-- One thread moves, and the table changes in a way that leaves the other threads what
they rely on. -/
theorem CallsOk.move (h : CallsOk has pc log now)
    (hadding : ∀ c' nm, c' ≠ c → (pc c').adding = some nm → ¬ has' nm)
    (hplaced : ∀ c' nm, c' ≠ c → (pc c').placed = some nm → has' nm)
    (hblocked : ∀ e ∈ log, ∀ c' st, c' ≠ c → (pc c').registration = some (e.taskName, st) →
      st ≤ e.finish → has' e.taskName)
    (hstands : Stands has' pc log c p) :
    CallsOk has' (Function.update pc c p) log now where
  fits := by
    intro c' nm st hreg
    by_cases hc : c' = c
    · subst hc
      exact hstands.fits nm st (by simpa using hreg)
    · exact h.fits c' nm st (by simpa [hc] using hreg)
  adding := by
    intro c' nm hadd
    by_cases hc : c' = c
    · subst hc
      exact (hstands.adding nm (by simpa using hadd)).1
    · exact hadding c' nm hc (by simpa [hc] using hadd)
  addingOne := only_update h.addingOne fun nm hadd => (hstands.adding nm hadd).2
  placed := by
    intro c' nm hput
    by_cases hc : c' = c
    · subst hc
      exact (hstands.placed nm (by simpa using hput)).1
    · exact hplaced c' nm hc (by simpa [hc] using hput)
  placedOne := only_update h.placedOne fun nm hput => (hstands.placed nm hput).2
  blocked := by
    intro e he c' st hreg hst
    by_cases hc : c' = c
    · subst hc
      rw [Function.update_self] at hreg ⊢
      exact hstands.blocked e he st hreg hst
    · rw [Function.update_of_ne hc] at hreg ⊢
      exact ⟨hblocked e he c' st hc hreg hst, (h.blocked e he c' st hreg hst).2⟩
  disjoint := h.disjoint
  past := h.past

/-- A thread moves while the table stays as it is. -/
theorem CallsOk.stay (h : CallsOk has pc log now) (hstands : Stands has pc log c p) :
    CallsOk has (Function.update pc c p) log now :=
  h.move (fun c' nm _ => h.adding c' nm) (fun c' nm _ => h.placed c' nm)
    (fun e he c' st _ hreg hst => (h.blocked e he c' st hreg hst).1) hstands

/-- The lookup of a registration answers that its name is free. -/
theorem CallsOk.absent (h : CallsOk has pc log now) {nm : CString} {st : Nat}
    (hpc : pc c = .regCheck nm st) (hnew : ¬ has nm)
    (halone : ∀ c', c' ≠ c → (pc c').adding ≠ some nm) :
    CallsOk has (Function.update pc c (.regAdd nm st)) log now := by
  have hreg : (pc c).registration = some (nm, st) := by rw [hpc]; rfl
  refine h.stay ⟨?_, ?_, fun _ hput => (by cases hput), ?_⟩
  · rintro _ _ ⟨⟩
    exact h.fits c nm st hreg
  · rintro _ ⟨⟩
    exact ⟨hnew, halone⟩
  · -- an overlapping registration that succeeded would still have its row
    intro e he st' hreg' hst
    have hboth : (pc c).registration = some (e.taskName, st') := hreg.trans hreg'
    have hname : nm = e.taskName := by
      rw [hreg] at hboth
      exact congrArg Prod.fst (Option.some.inj hboth)
    exact absurd (hname ▸ (h.blocked e he c st' hboth hst).1) hnew

/-- A registration takes a row for its name. -/
theorem CallsOk.add (h : CallsOk has pc log now) {nm : CString} {st : Nat}
    (hpc : pc c = .regAdd nm st) (hhas : ∀ nm', has' nm' ↔ has nm' ∨ nm = nm')
    (hp : p = .idle ∨ ∃ taskId, p = .regData nm st taskId) :
    CallsOk has' (Function.update pc c p) log now := by
  have hadd : (pc c).adding = some nm := by rw [hpc]; rfl
  have hreg : (pc c).registration = some (nm, st) := by rw [hpc]; rfl
  refine h.move ?_ (fun c' nm' _ hput => (hhas nm').mpr (Or.inl (h.placed c' nm' hput)))
    (fun e he c' st' _ hreg' hst =>
      (hhas _).mpr (Or.inl (h.blocked e he c' st' hreg' hst).1)) ?_
  · intro c' nm' hc hadd' hhas'
    rcases (hhas nm').mp hhas' with hold | rfl
    · exact h.adding c' nm' hadd' hold
    · exact hc (h.addingOne c' c nm hadd' hadd)
  · rcases hp with rfl | ⟨taskId, rfl⟩
    · exact stands_of_registering rfl
    · refine ⟨?_, fun _ hadd' => (by cases hadd'), ?_, ?_⟩
      · rintro _ _ ⟨⟩
        exact h.fits c nm st hreg
      · rintro _ ⟨⟩
        refine ⟨(hhas nm).mpr (Or.inr rfl), ?_⟩
        intro c' _ hput
        exact h.adding c nm hadd (h.placed c' nm hput)
      · intro e he st' hreg' hst
        have hnone := (h.blocked e he c st' (hreg.trans hreg') hst).2.1
        rw [hadd] at hnone
        cases hnone

/-- A registration fails after it took its row. -/
theorem CallsOk.noData (h : CallsOk has pc log now) {nm : CString} {st : Nat} {k : TaskId}
    (hpc : pc c = .regData nm st k) :
    CallsOk has (Function.update pc c (.regUndo nm st k)) log now := by
  have hreg : (pc c).registration = some (nm, st) := by rw [hpc]; rfl
  have hput : (pc c).placed = some nm := by rw [hpc]; rfl
  refine h.stay ⟨?_, fun _ hadd => (by cases hadd), ?_, ?_⟩
  · rintro _ _ ⟨⟩
    exact h.fits c nm st hreg
  · rintro _ ⟨⟩
    exact ⟨h.placed c nm hput, fun c' hc hput' => hc (h.placedOne c' c nm hput' hput)⟩
  · intro e he st' hreg' hst
    have hnone := (h.blocked e he c st' (hreg.trans hreg') hst).2.2
    rw [hput] at hnone
    cases hnone

/-- A registration returns success. -/
theorem CallsOk.success (h : CallsOk has pc log now) {nm : CString} {st : Nat} {k : TaskId}
    (hpc : pc c = .regData nm st k) :
    CallsOk has (Function.update pc c .idle) (⟨nm, st, now⟩ :: log) (now + 1) := by
  have hreg : (pc c).registration = some (nm, st) := by rw [hpc]; rfl
  have hput : (pc c).placed = some nm := by rw [hpc]; rfl
  have hidle : CallsOk has (Function.update pc c .idle) log now :=
    h.stay (stands_of_registering rfl)
  refine ⟨hidle.fits, hidle.adding, hidle.addingOne, hidle.placed, hidle.placedOne, ?_, ?_, ?_⟩
  · intro e he c' st' hreg' hst
    rcases List.mem_cons.mp he with rfl | he
    · -- every other registration of the name is still before its lookup
      have hc : c' ≠ c := by
        intro heq
        subst heq
        rw [Function.update_self] at hreg'
        cases hreg'
      rw [Function.update_of_ne hc] at hreg' ⊢
      refine ⟨h.placed c nm hput, Option.eq_none_iff_forall_ne_some.mpr ?_,
        Option.eq_none_iff_forall_ne_some.mpr ?_⟩
      · intro nm' hadd
        obtain rfl := adding_eq hreg' hadd
        exact h.adding c' _ hadd (h.placed c _ hput)
      · intro nm' hput'
        obtain rfl := placed_eq hreg' hput'
        exact hc (h.placedOne c' c _ hput' hput)
    · exact hidle.blocked e he c' st' hreg' hst
  · refine List.pairwise_cons.mpr ⟨?_, h.disjoint⟩
    intro e he hname
    by_contra hlt
    have hnone := (h.blocked e he c st (hname ▸ hreg) (Nat.le_of_not_lt hlt)).2.2
    rw [hput] at hnone
    cases hnone
  · intro e he
    rcases List.mem_cons.mp he with rfl | he
    · exact Nat.lt_succ_self now
    · exact Nat.lt_succ_of_lt (h.past e he)

/-- A task is deleted; the other threads do not rely on its name. -/
theorem CallsOk.delete (h : CallsOk has pc log now) (hp : p.registering = none)
    (hless : ∀ nm, has' nm → has nm)
    (hkeep : ∀ c' nm, c' ≠ c → has nm → ((pc c').placed = some nm ∨
      ∃ st, ∃ e ∈ log, (pc c').registration = some (nm, st) ∧ e.taskName = nm ∧
        st ≤ e.finish) → has' nm) :
    CallsOk has' (Function.update pc c p) log now := by
  refine h.move (fun c' nm _ hadd hhas => h.adding c' nm hadd (hless nm hhas)) ?_ ?_
    (stands_of_registering hp)
  · intro c' nm hc hput
    exact hkeep c' nm hc (h.placed c' nm hput) (Or.inl hput)
  · intro e he c' st hc hreg hst
    exact hkeep c' _ hc (h.blocked e he c' st hreg hst).1 (Or.inr ⟨st, e, he, hreg, rfl, hst⟩)

/-- A registration is called. -/
theorem CallsOk.call (h : CallsOk has pc log now) {nm : CString}
    (hfits : nm.strlen < vtopMsgMaxTaskNameLen) :
    CallsOk has (Function.update pc c (.regCheck nm now)) log now := by
  refine h.stay ⟨?_, fun _ hadd => (by cases hadd), fun _ hput => (by cases hput), ?_⟩
  · rintro _ _ ⟨⟩
    exact hfits
  · rintro e he _ ⟨⟩ hst
    exact absurd (h.past e he) (Nat.not_lt_of_le hst)

end Calls

/-! ## Steps -/

namespace Threads

variable {n r : Nat}

/-- The condition on a step: a lookup that finds its name free is the only
registration of the name past its lookup, an empty name is really free, and a task is
not deleted while another registration relies on its row. -/
def CheckedAlone (s : Threads n r) : Act → Prop
  | .call _ _ => True
  | .next c _ =>
      (∀ nm st, s.pc c = .regCheck nm st → s.sys.taskMng.isTaskExist nm = false →
        (∀ c', c' ≠ c → (s.pc c').adding ≠ some nm) ∧
        (nm = CString.empty → ¬ s.sys.taskMng.HasName nm)) ∧
      ∀ k i, (s.pc c).deletes = some k → s.sys.taskMng.findId k = some i →
        ∀ c', c' ≠ c → (s.pc c').placed ≠ some (s.sys.taskMng.tab i).taskName ∧
          ∀ st, (s.pc c').registration = some ((s.sys.taskMng.tab i).taskName, st) →
            ∀ e ∈ s.regLog, e.taskName = (s.sys.taskMng.tab i).taskName → e.finish < st

/-- The invariant of the runs that meet the condition, at the time `now`. -/
structure Named (s : Threads n r) (now : Nat) : Prop where
  table : s.sys.taskMng.NamesOk
  calls : CallsOk s.sys.taskMng.HasName s.pc s.regLog now

theorem SameTasks.used_iff {sys sys' : MsgSys n r} (h : SameTasks sys sys') (i : Fin n) :
    sys'.taskMng.Used i ↔ sys.taskMng.Used i := by
  unfold TaskMng.Used
  rw [(h.rows i).1]

theorem SameTasks.hasName {sys sys' : MsgSys n r} (h : SameTasks sys sys') :
    sys'.taskMng.HasName = sys.taskMng.HasName := by
  funext nm
  refine propext (exists_congr fun i => ?_)
  rw [h.used_iff, (h.rows i).2.1]

theorem SameTasks.namesOk {sys sys' : MsgSys n r} (h : SameTasks sys sys')
    (hsys : sys.taskMng.NamesOk) : sys'.taskMng.NamesOk where
  unique := by
    intro i j hi hj hname
    rw [(h.rows i).2.1, (h.rows j).2.1] at hname
    exact hsys.unique i j ((h.used_iff i).mp hi) ((h.used_iff j).mp hj) hname
  fits := fun i => (h.rows i).2.1 ▸ hsys.fits i
  free := by
    intro i hi
    rw [(h.rows i).2.1]
    exact hsys.free i (fun hused => hi ((h.used_iff i).mpr hused))
  counter := h.counter ▸ hsys.counter

theorem Named.later {s : Threads n r} {now : Nat} (h : s.Named now) : s.Named (now + 1) where
  table := h.table
  calls := { h.calls with past := fun e he => Nat.lt_succ_of_lt (h.calls.past e he) }

theorem Named.quiet {s s' : Threads n r} {c now : Nat} (hs : s.Named now)
    (hquiet : Quiet s c s') : s'.Named now := by
  obtain ⟨s₁, pc, hwork, hreach, rfl⟩ := hquiet
  refine ⟨hwork.tasks.namesOk hs.table, ?_⟩
  show CallsOk s₁.sys.taskMng.HasName (Function.update s₁.pc c pc) s₁.regLog now
  rw [hwork.tasks.hasName, hwork.pc, hwork.regLog]
  exact hs.calls.stay (stands_of_registering hreach.idle)

theorem Named.add {s : Threads n r} {c now : Nat} {nm : CString} {st : Nat} (hs : s.Named now)
    (hpc : s.pc c = .regAdd nm st) (alloc : QueueMalloc) :
    ((s.setSys (s.sys.taskTabAdd2 nm .task alloc).2).goto c
      (if (s.sys.taskTabAdd2 nm .task alloc).1 = vtopInvalidTaskId then .idle
        else .regData nm st (s.sys.taskTabAdd2 nm .task alloc).1)).Named now := by
  rcases s.sys.taskTabAdd2_cases nm .task alloc with
    ⟨-, heq⟩ | ⟨index, newQueue, -, hfree, -, heq⟩
  · -- no free row: the registration fails
    rw [heq]
    exact ⟨hs.table, hs.calls.stay (stands_of_registering rfl)⟩
  · have hlen : nm.strlen < vtopMsgMaxTaskNameLen := hs.calls.fits c nm st (by rw [hpc]; rfl)
    have hcopy : nm.strncpy (vtopMsgMaxTaskNameLen - 1) = nm :=
      CString.strncpy_eq_self (Nat.le_pred_of_lt hlen)
    have hid : s.sys.taskMng.counterTaskId ≠ vtopInvalidTaskId :=
      ne_invalid_of_le hs.table.counter
    have hnew : ¬ s.sys.taskMng.HasName nm := hs.calls.adding c nm (by rw [hpc]; rfl)
    -- a row without a queue stays, but the registration fails
    have hnext : ∀ k, (if k = vtopInvalidTaskId then .idle else .regData nm st k : Pc r) = .idle ∨
        ∃ taskId, (if k = vtopInvalidTaskId then .idle else .regData nm st k : Pc r) =
          .regData nm st taskId := by
      intro k
      split
      · exact Or.inl rfl
      · exact Or.inr ⟨k, rfl⟩
    rw [heq]
    refine ⟨hs.table.fill hid ?_ ?_, hs.calls.add hpc ?_ (hnext _)⟩
    · show (nm.strncpy (vtopMsgMaxTaskNameLen - 1)).strlen < vtopMsgMaxTaskNameLen
      rw [hcopy]
      exact hlen
    · show ¬ s.sys.taskMng.HasName (nm.strncpy (vtopMsgMaxTaskNameLen - 1))
      rw [hcopy]
      exact hnew
    · intro nm'
      refine (TaskMng.hasName_fill (fun hused => hused hfree) hid).trans (or_congr_right ?_)
      show nm.strncpy (vtopMsgMaxTaskNameLen - 1) = nm' ↔ nm = nm'
      rw [hcopy]

theorem Named.delete {s : Threads n r} {c now : Nat} {o : Choice} {k : TaskId} {pc : Pc r}
    (hs : s.Named now) (hguard : CheckedAlone s (.next c o))
    (hdel : (s.pc c).deletes = some k) (hpc : pc.registering = none) :
    ((s.setSys (s.sys.taskTabDel k).2).goto c pc).Named now := by
  rcases s.sys.taskTabDel_cases k with ⟨index, hfind, -, heq⟩ | ⟨-, heq⟩
  · rw [heq]
    refine ⟨hs.table.clear index, hs.calls.delete hpc (fun nm => TaskMng.HasName.of_clear) ?_⟩
    intro c' nm hc hhas hrely
    refine hhas.clear ?_
    intro heq
    subst heq
    obtain ⟨hput, hreg⟩ := hguard.2 k index hdel hfind c' hc
    rcases hrely with hput' | ⟨st, e, he, hreg', hname, hst⟩
    · exact hput hput'
    · exact absurd (hreg st hreg' e he hname) (Nat.not_lt_of_le hst)
  · rw [heq]
    exact ⟨hs.table, hs.calls.stay (stands_of_registering hpc)⟩

theorem Named.taskStep {s s' : Threads n r} {c : Nat} {o : Choice} (hs : s.Named s.clock)
    (hguard : CheckedAlone s (.next c o)) (hstep : TaskStep s c o s') :
    s'.Named (s.clock + 1) := by
  cases hstep with
  | «exists» hpc hexist =>
      exact Named.later ⟨hs.table, hs.calls.stay (stands_of_registering rfl)⟩
  | absent hpc hexist =>
      obtain ⟨halone, hempty⟩ := hguard.1 _ _ hpc hexist
      have hlen := hs.calls.fits c _ _ (by rw [hpc]; rfl)
      exact Named.later ⟨hs.table,
        hs.calls.absent hpc (hs.table.not_hasName hlen hexist hempty) halone⟩
  | add hpc => exact (hs.add hpc o.queue).later
  | success hpc entries => exact ⟨hs.table, hs.calls.success hpc⟩
  | noData hpc entries => exact Named.later ⟨hs.table, hs.calls.noData hpc⟩
  | undo hpc => exact (hs.delete hguard (by rw [hpc]; rfl) rfl).later
  | delete hpc hpc' =>
      refine (hs.delete hguard (by rw [hpc]; rfl) ?_).later
      rcases hpc' with rfl | rfl
      · rfl
      · rfl

theorem Named.step [NeZero n] {s s' : Threads n r} {a : Act} (hs : s.Named s.clock)
    (hguard : CheckedAlone s a) (hstep : s.step a = some s') : s'.Named s'.clock := by
  unfold Threads.step at hstep
  obtain ⟨s₁, hact, rfl⟩ := Option.map_eq_some_iff.mp hstep
  suffices hs₁ : s₁.Named (s.clock + 1) from ⟨hs₁.table, hs₁.calls⟩
  cases a with
  | call c call =>
      simp only [act] at hact
      split at hact
      · cases hact
      · split at hact
        · refine Option.some.inj hact ▸ Named.later ⟨hs.table, ?_⟩
          rcases s.enter_cases call with hplain | ⟨nm, hlen, heq⟩
          · exact hs.calls.stay
              (stands_of_registering (reaches_of_plain (s := s) (c := c) hplain).idle)
          · show CallsOk _ (Function.update s.pc c (s.enter call)) s.regLog s.clock
            rw [heq]
            exact hs.calls.call hlen
        · cases hact
  | next c o =>
      rcases advance_cases hact with hquiet | htask
      · exact (hs.quiet hquiet).later
      · exact hs.taskStep hguard htask

theorem named_initial (svr : MsgQueue) : (initial (MsgSys.init n r svr)).Named 0 where
  table := TaskMng.namesOk_init n
  calls :=
    { fits := fun _ _ _ h => (by cases h)
      adding := fun _ _ h => (by cases h)
      addingOne := fun _ _ _ h => (by cases h)
      placed := fun _ _ h => (by cases h)
      placedOne := fun _ _ _ h => (by cases h)
      blocked := fun _ h => (by cases h)
      disjoint := .nil
      past := fun _ h => (by cases h) }

/-- In every run in which each lookup that finds its name free is alone, no two
registered tasks have the same name, and of two registrations of one name that
overlap at most one returned success. -/
theorem namesUnique_of_checkedAlone (n r : Nat) [NeZero n] (s : Threads n r)
    (hreach : (machine n r).ReachWhen CheckedAlone s) :
    s.sys.taskMng.NamesUnique ∧
      s.regLog.Pairwise fun e e' => e.taskName = e'.taskName → ¬ e.Overlaps e' := by
  have hs : s.Named s.clock := by
    refine hreach.invariant (I := fun s => s.Named s.clock) ?_
      (fun s a s' hs hguard hstep => hs.step hguard hstep)
    rintro s ⟨svr, alloc, pool, -, rfl⟩
    exact named_initial svr
  refine ⟨hs.table.unique, hs.calls.disjoint.imp ?_⟩
  intro e e' hlt hname hover
  exact absurd (hlt hname) (Nat.not_lt_of_le hover.1)

/-! ## Schedules -/

/-- Thread `c` calls for the registration of `a`. -/
def registerA (c : Nat) : Act :=
  .call c (.register nameA)

/-- A test for runs of the threads `1` and `2` in which no task is deleted. -/
def apart (s : Threads n r) (a : Act) : Bool :=
  (a.thread == 1 || a.thread == 2) &&
    match a with
    | .call _ _ => true
    | .next c _ =>
        (s.pc c).deletes.isNone &&
          match s.pc c with
          | .regCheck nm _ => s.sys.taskMng.isTaskExist nm ||
              decide (nm ≠ CString.empty ∧ (s.pc (3 - c)).adding ≠ some nm)
          | _ => true

/-- The threads `1` and `2` alone are in a call. -/
def OthersIdle (s : Threads n r) : Prop :=
  ∀ c, c ≠ 1 → c ≠ 2 → s.pc c = .idle

theorem checkedAlone_of_apart {s : Threads n r} {a : Act} (hidle : s.OthersIdle)
    (hpass : s.apart a = true) : CheckedAlone s a := by
  obtain ⟨hthread, hpass⟩ := Bool.and_eq_true_iff.mp hpass
  cases a with
  | call c call => trivial
  | next c o =>
      obtain ⟨hdel, hcheck⟩ := Bool.and_eq_true_iff.mp hpass
      refine ⟨fun nm st hpc hexist => ?_, fun k i hk => ?_⟩
      · rw [hpc] at hcheck
        dsimp only at hcheck
        rw [hexist, Bool.false_or] at hcheck
        obtain ⟨hne, hadding⟩ := of_decide_eq_true hcheck
        refine ⟨fun c' hc' => ?_, fun heq => absurd heq hne⟩
        by_cases hother : c' = 3 - c
        · rw [hother]
          exact hadding
        · have hmoves : c = 1 ∨ c = 2 := by simpa [Act.thread] using hthread
          rw [hidle c' (by omega) (by omega)]
          exact fun heq => by cases heq
      · rw [hk] at hdel
        cases hdel

/-- A step of a run of the two threads, as the test sees it. -/
def Apart (s : Threads n r) (a : Act) : Prop :=
  s.apart a = true

theorem reachWhen_of_apart [NeZero n] {s : Threads n r}
    (hreach : (machine n r).ReachWhen Apart s) :
    (machine n r).ReachWhen CheckedAlone s ∧ s.OthersIdle := by
  induction hreach with
  | init hinit =>
      refine ⟨.init hinit, ?_⟩
      obtain ⟨svr, alloc, pool, -, rfl⟩ := hinit
      exact fun c _ _ => rfl
  | @step s s' a _ hguard hstep ih =>
      refine ⟨.step ih.1 (checkedAlone_of_apart ih.2 hguard) hstep, fun c h₁ h₂ => ?_⟩
      have hthread := (Bool.and_eq_true_iff.mp hguard).1
      have hmoves : a.thread = 1 ∨ a.thread = 2 := by simpa using hthread
      exact (pc_of_step (by omega) hstep).trans (ih.2 c h₁ h₂)

/-- Thread `1` registers `a` while thread `2` registers `b`; then thread `2` finds that `a`
exists. -/
def registeredBoth : Threads 2 1 :=
  ((machine 2 1).runWhen apart (initial (MsgSys.init 2 1 .freshQueue))
    [registerA 1, .call 2 (.register nameB), .next 1 granted, .next 2 granted, .next 1 granted,
      .next 2 granted, .next 1 granted, .next 2 granted, registerA 2, .next 2 granted]).get
    (by decide +kernel)

theorem registeredBoth_namesUnique :
    registeredBoth.regLog = [⟨nameB, 1, 7⟩, ⟨nameA, 0, 6⟩] ∧
      registeredBoth.sys.taskMng.NamesUnique ∧
      registeredBoth.regLog.Pairwise fun e e' => e.taskName = e'.taskName → ¬ e.Overlaps e' := by
  refine ⟨by decide +kernel, namesUnique_of_checkedAlone 2 1 registeredBoth ?_⟩
  refine (reachWhen_of_apart (Machine.reachWhen_of_runWhen (fun _ _ => id) _ (.init ?_)
    (Option.some_get _).symm)).1
  exact ⟨.freshQueue, true, fun _ => true, MsgQueue.msgQueueInit_freshQueue, rfl⟩

/-- Both threads have looked the name up before either took a row for it. -/
def registeredTwice : Threads 2 1 :=
  ((machine 2 1).run (initial (MsgSys.init 2 1 .freshQueue))
    [registerA 1, registerA 2, .next 1 granted, .next 2 granted, .next 1 granted,
      .next 2 granted, .next 1 granted, .next 2 granted]).get (by decide +kernel)

/-- Two tasks with the same name can be reached, both of them registered with
success. -/
theorem names_not_unique_of_race :
    (machine 2 1).Reach registeredTwice ∧ ¬ registeredTwice.sys.taskMng.NamesUnique ∧
      registeredTwice.regLog = [⟨nameA, 1, 7⟩, ⟨nameA, 0, 6⟩] := by
  refine ⟨?_, ?_, by decide +kernel⟩
  · refine Machine.reach_of_run _ ?_ (Option.some_get _).symm
    exact ⟨.freshQueue, true, fun _ => true, MsgQueue.msgQueueInit_freshQueue, rfl⟩
  · intro hunique
    have hused : ∀ i, registeredTwice.sys.taskMng.Used i := by
      unfold TaskMng.Used
      decide +kernel
    exact absurd (hunique 0 1 (hused 0) (hused 1) (by decide +kernel)) (by decide)

end Threads

end Msg
end AndroidLinux
