import AndroidLinux.Msg.QueueRoom

/-!
# What a merging get drops

`MSG_QueueGetMerge` is meant for a type of which only the last message counts.  It takes
the first message out whatever its type is, and frees it as soon as it finds a message of
the type behind it.  `merge_iff` says that this is the only way in which a message of
another type gets lost.
-/

namespace AndroidLinux
namespace Msg
namespace QueueRoom

open Lib

/-- A merging get handed out `pMsg` and left `q'`, and only superseded messages of the type
have gone. -/
structure MergesOnly (q : MsgQueue) (t : MsgType) (pMsg : Nat) (q' : MsgQueue) : Prop where
  returned : ∃ b ∈ q.nodeList, pMsg = b + mbHeadLen
  /-- What is left keeps its order, -/
  order : q'.nodeList.Sublist q.nodeList
  contents : q'.contentAt = q.contentAt
  /-- the other types are all there, -/
  others : ∀ x ∈ q.nodeList, q.mem.typeAt x ≠ t → x + mbHeadLen = pMsg ∨ x ∈ q'.nodeList
  /-- and what was dropped has been superseded by the message handed out. -/
  dropped : ∀ x ∈ q.nodeList, x + mbHeadLen ≠ pMsg → x ∉ q'.nodeList → q.mem.typeAt x = t ∧
    ∃ b, pMsg = b + mbHeadLen ∧ q.mem.typeAt b = t ∧ [x, b].Sublist q.nodeList

/-- The first message is of the type, or no message behind it is. -/
def FirstKept (q : MsgQueue) (t : MsgType) : Prop :=
  ∀ a rest, q.nodeList = a :: rest → q.mem.typeAt a = t ∨ ∀ x ∈ rest, q.mem.typeAt x ≠ t

section Merge

variable {q : MsgQueue} {a : Nat} {nodes held : List Nat} {t : MsgType}

theorem mergeLast_of_none (hnone : ∀ x ∈ nodes, q.mem.typeAt x ≠ t) :
    q.mem.mergeLast t nodes a = a := by
  rcases q.mem.mergeLast_cases t nodes a with ⟨heq, -⟩ | ⟨hlast, front, back, hnodes, -⟩
  · exact heq
  · refine absurd hlast (hnone _ ?_)
    generalize q.mem.mergeLast t nodes a = b at hnodes
    rw [hnodes]
    exact List.mem_append_right front List.mem_cons_self

/-- The message handed out, against the rest of the queue. -/
theorem mergesOnly_of_firstKept {q' : MsgQueue} (hlist : q.nodeList = a :: nodes)
    (hlist' : q'.nodeList = nodes.filter fun x => q.mem.typeAt x ≠ t) (hmem : q'.mem = q.mem)
    (hkept : q.mem.typeAt a = t ∨ ∀ x ∈ nodes, q.mem.typeAt x ≠ t) :
    MergesOnly q t (q.mem.mergeLast t nodes a + mbHeadLen) q' := by
  have hsub : q'.nodeList.Sublist q.nodeList := by
    rw [hlist, hlist']
    exact List.filter_sublist.trans (List.sublist_cons_self a nodes)
  have hstays : ∀ x ∈ nodes, q.mem.typeAt x ≠ t → x ∈ q'.nodeList := by
    intro x hx htype
    rw [hlist']
    exact List.mem_filter.mpr ⟨hx, by simpa using htype⟩
  have hmergeLast := q.mem.mergeLast_cases t nodes a
  constructor
  · refine ⟨_, ?_, rfl⟩
    rw [hlist]
    exact q.mem.mergeLast_mem t nodes a
  · exact hsub
  · exact MsgQueue.contentAt_congr hmem
  · intro x hx htype
    rw [hlist] at hx
    rcases List.mem_cons.mp hx with rfl | hx
    · rcases hkept with hself | hnone
      · exact absurd hself htype
      · rw [mergeLast_of_none hnone]
        exact .inl rfl
    · exact .inr (hstays x hx htype)
  · intro x hx hother hgone
    rw [hlist] at hx
    rcases hmergeLast with ⟨heq, hnone⟩ | ⟨hlast, front, back, hnodes, hback⟩
    · -- no message of the type is behind the first one, which is handed out
      rw [heq] at hother
      rcases List.mem_cons.mp hx with rfl | hx
      · exact absurd rfl hother
      · exact absurd (hstays x hx (hnone x hx)) hgone
    · have htype : q.mem.typeAt x = t := by
        rcases List.mem_cons.mp hx with rfl | hx
        · rcases hkept with hself | hnone
          · exact hself
          · rw [mergeLast_of_none hnone] at hother
            exact absurd rfl hother
        · by_contra hne
          exact hgone (hstays x hx hne)
      refine ⟨htype, _, rfl, hlast, ?_⟩
      have hbefore : x ∈ a :: front := by
        generalize q.mem.mergeLast t nodes a = b at *
        rw [hnodes] at hx
        rcases List.mem_cons.mp hx with rfl | hx
        · exact List.mem_cons_self
        · rcases List.mem_append.mp hx with hx | hx
          · exact List.mem_cons_of_mem a hx
          · rcases List.mem_cons.mp hx with rfl | hx
            · exact absurd rfl hother
            · exact absurd htype (hback x hx)
      rw [hlist]
      generalize q.mem.mergeLast t nodes a = b at *
      rw [hnodes, ← List.cons_append]
      exact (List.singleton_sublist.mpr hbefore).append
        (List.singleton_sublist.mpr List.mem_cons_self)

/-- The first message is lost when it is of another type and one of the type follows. -/
theorem firstKept_of_mergesOnly {q' : MsgQueue} (hlist : q.nodeList = a :: nodes)
    (hnodup : (a :: nodes).Nodup)
    (hlist' : q'.nodeList = nodes.filter fun x => q.mem.typeAt x ≠ t)
    (h : MergesOnly q t (q.mem.mergeLast t nodes a + mbHeadLen) q') :
    q.mem.typeAt a = t ∨ ∀ x ∈ nodes, q.mem.typeAt x ≠ t := by
  by_cases hself : q.mem.typeAt a = t
  · exact .inl hself
  · right
    rcases q.mem.mergeLast_cases t nodes a with ⟨-, hnone⟩ | ⟨hlast, -⟩
    · exact hnone
    · have hfirst : a ∈ q.nodeList := by
        rw [hlist]
        exact List.mem_cons_self
      rcases h.others a hfirst hself with heq | hin
      · have hsame : a = q.mem.mergeLast t nodes a := Nat.add_right_cancel heq
        rw [← hsame] at hlast
        exact absurd hlast hself
      · rw [hlist'] at hin
        exact absurd (List.mem_of_mem_filter hin) (List.nodup_cons.mp hnodup).1

end Merge

/-- A merging get on a queue that is not empty returns a message; it loses nothing but
superseded messages of its type exactly when the first message is of this type or none of
the others is. -/
theorem merge_iff {s : State} (hreach : machine.Reach s) (hsome : s.q.nodeList ≠ [])
    (t : MsgType) : (∃ pMsg q', s.q.msgQueueGetMerge t = some (some (pMsg, q')) ∧
      MergesOnly s.q t pMsg q') ↔ FirstKept s.q t := by
  obtain ⟨-, nodes, blocks, hwf, -⟩ := inv_of_reach hreach
  cases nodes with
  | nil => exact absurd hwf.nodeList_eq hsome
  | cons a nodes =>
      have hlist := hwf.nodeList_eq
      obtain ⟨q', hget, hwf', hmem⟩ := hwf.msgQueueGetMerge_cons t
      have hlist' := hwf'.nodeList_eq
      constructor
      · rintro ⟨pMsg, q₁, hget₁, hmerges⟩ a' rest hlist₁
        rw [hget] at hget₁
        cases hget₁
        obtain ⟨rfl, rfl⟩ := List.cons.inj (hlist.symm.trans hlist₁)
        exact firstKept_of_mergesOnly hlist (List.nodup_append.mp hwf.nodup).1 hlist' hmerges
      · intro hkept
        exact ⟨_, q', hget, mergesOnly_of_firstKept hlist hlist' hmem (hkept a nodes hlist)⟩

/-- A message of a type, without body. -/
def plainMessage (t : MsgType) : MsgData where
  hdr := { zeroInnerBlock with msg := { zeroInnerBlock.msg with msgType := t } }
  body := fun _ => 0

/-- Messages of the types are put into a fresh queue. -/
def filledWith (types : List MsgType) : Option State :=
  machine.run ⟨.freshQueue, []⟩ (types.map fun t => .put (plainMessage t))

theorem filledWith_reach {types : List MsgType} {s : State} (h : filledWith types = some s) :
    machine.Reach s :=
  Machine.Reach.run _ freshQueue_reach h

/-- Two messages of one type. -/
def sevens : State := (filledWith [7, 7]).get (by decide +kernel)

theorem sevens_types : sevens.q.nodeList.map sevens.q.mem.typeAt = [7, 7] := by decide +kernel

theorem ne_nil_of_types {q : MsgQueue} {t : MsgType} {types : List MsgType}
    (h : q.nodeList.map q.mem.typeAt = t :: types) : q.nodeList ≠ [] := by
  intro hnil
  rw [hnil] at h
  cases h

theorem merge_sevens : ∃ pMsg q', sevens.q.msgQueueGetMerge 7 = some (some (pMsg, q')) ∧
    MergesOnly sevens.q 7 pMsg q' := by
  have hreach : machine.Reach sevens := filledWith_reach (Option.some_get _).symm
  refine (merge_iff hreach (ne_nil_of_types sevens_types) 7).mpr fun a rest hlist => .inl ?_
  have htypes := sevens_types
  rw [hlist] at htypes
  exact (List.cons.inj htypes).1

/-- A message of type 7 behind one of type 5. -/
def fiveThenSeven : State := (filledWith [5, 7]).get (by decide +kernel)

theorem fiveThenSeven_types :
    fiveThenSeven.q.nodeList.map fiveThenSeven.q.mem.typeAt = [5, 7] := by decide +kernel

/-- The message of type 5 is freed without having been received. -/
theorem merge_loses_first : ¬ ∀ (s : State) (t : MsgType), machine.Reach s → s.q.nodeList ≠ [] →
    ∃ pMsg q', s.q.msgQueueGetMerge t = some (some (pMsg, q')) ∧ MergesOnly s.q t pMsg q' := by
  intro h
  have hreach : machine.Reach fiveThenSeven := filledWith_reach (Option.some_get _).symm
  have hsome := ne_nil_of_types fiveThenSeven_types
  have hkept := (merge_iff hreach hsome 7).mp (h _ 7 hreach hsome)
  have htypes := fiveThenSeven_types
  obtain ⟨a, rest, hlist⟩ := List.exists_cons_of_ne_nil hsome
  rw [hlist] at htypes
  obtain ⟨hfirst, hrest⟩ := List.cons.inj htypes
  rcases hkept a rest hlist with hself | hnone
  · rw [hfirst] at hself
    exact absurd hself (by decide)
  · have hseven : (7 : MsgType) ∈ rest.map fiveThenSeven.q.mem.typeAt := by
      rw [show rest.map fiveThenSeven.q.mem.typeAt = [7] from hrest]
      exact List.mem_singleton_self 7
    obtain ⟨x, hx, htype⟩ := List.mem_map.mp hseven
    exact hnone x hx htype

end QueueRoom
end Msg
end AndroidLinux
