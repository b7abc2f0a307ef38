import AndroidLinux.Binder.RefShares

/-!
# The counts are right in every step

`Books` compares the counts with the references.  `mStrong` still has the initial value in
it as long as there never was a strong reference or an operation is on its way to take it
out; the condition `Proper` on the steps says that it is taken out once.
-/

namespace AndroidLinux
namespace Binder

open Lib

namespace RefSystem

/-- The step counts `mStrong` up. -/
def countsStrong (s : RefSystem) : RefOp → Prop
  | .incStrong _ => True
  | .exchange curCount => s.mStrong = curCount
  | .exchangeFirst curCount => s.mStrong = curCount
  | _ => False

/-- The step counts `mWeak` up. -/
def countsWeak : RefOp → Prop
  | .incWeak _ => True
  | .incStrongWeak _ => True
  | .attempt => True
  | _ => False

/-- There are fewer than 2^28 strong references and 2^31 references, `attemptIncStrong` does
not take out the initial value while the first `incStrong` is about to, the exchange
after a first reading of the initial value finds it still in the count, and the creator does not
use its pointer when the last weak reference has been released. -/
def Proper (s : RefSystem) : Action → Prop
  | .proceed i => ∀ op, s.ops[i]? = some op →
      (s.countsStrong op → s.strongRefs + 1 < 2 ^ 28) ∧
      (countsWeak op → s.mWeak.toInt + 1 < 2 ^ 31) ∧
      (∀ curCount, op = .fixUp curCount → s.mStrong = curCount →
        ∀ by', RefOp.dropInitial by' ∉ s.ops) ∧
      (∀ curCount, op = .exchangeFirst curCount → s.mStrong = curCount →
        initialStrongValue ≤ curCount) ∧
      (∀ by', op = .incWeak by' ∨ op = .incStrongWeak by' → ¬ s.dangling by')
  | _ => True

structure Books (s : RefSystem) : Prop where
  strong : s.mStrong.toInt = s.strongRefs ∨ s.mStrong.toInt = s.strongRefs + 2 ^ 28
  small : s.strongRefs < 2 ^ 28
  weak : s.mWeak.toInt = s.refs
  never : s.ever = false → s.strongRefs = 0 ∧ s.mStrong.toInt = 2 ^ 28
  fixing : s.ever = true → s.mStrong.toInt = s.strongRefs + 2 ^ 28 →
    0 < s.amount .fixUp + s.amount .dropInitial
  drop : 0 < s.amount .dropInitial →
    s.mStrong.toInt = s.strongRefs + 2 ^ 28 ∧ s.amount .dropInitial = 1
  seed : s.creator ≠ .done → 0 < s.amount .promoted + s.amount .fixUp ∨ s.amount .plain = 0
  releasing : 0 < s.amount .releasing → s.creator = .done
  ended : s.ever = true → s.strongRefs = 0 → s.creator = .done
  busy : s.creator = .busy → s.amount .pointer = 1
  idle : s.creator ≠ .busy → s.amount .pointer = 0
  deleted : s.ever = true → s.strongRefs = 0 → s.deleted + s.amount .deleting = 1
  kept : s.ever = true → 0 < s.strongRefs → s.deleted + s.amount .deleting = 0
  unborn : s.ever = false →
    s.deleted + s.amount .freeing = s.givenUp.toNat ∧ s.amount .deleting = 0
  freed : s.freed + s.amount .freeing = s.givenUp.toNat
  gone : s.givenUp = true → s.refs = 0
  unneeded : s.amount .unneeded = 0

/-- What an operation knows about the values that it has read. -/
def Sound : RefOp → Prop
  | .exchange curCount => 0 < curCount.toInt ∧ curCount.toInt ≠ 2 ^ 28
  | .exchangeFirst curCount => 0 < curCount.toInt
  | .fixUp curCount => 2 ^ 28 ≤ curCount.toInt
  | .incStrongWeak by' => by' ≠ .weak
  | .incStrong by' => by' ≠ .weak
  | .dropInitial by' => by' ≠ .weak
  | _ => True

structure Inv (s : RefSystem) : Prop where
  books : s.Books
  sound : ∀ op ∈ s.ops, Sound op

/-! ## Arithmetic of the counts -/

theorem toInt_initial : initialStrongValue.toInt = 2 ^ 28 := by decide

theorem toInt_sub_initial {x : Int32} (h : 0 ≤ x.toInt) :
    (x - initialStrongValue).toInt = x.toInt - 2 ^ 28 := by
  have hlt := x.toInt_lt
  rw [Int32.toInt_sub, toInt_initial]
  exact Int.bmod_eq_of_le (by omega) (by omega)

theorem eq_initial_iff {x : Int32} : x = initialStrongValue ↔ x.toInt = 2 ^ 28 := by
  rw [← Int32.toInt_inj, toInt_initial]

/-! ## Amounts after a step -/

theorem strongRefs_eq (s : RefSystem) : s.strongRefs =
    s.amount .promoted + s.amount .plain + s.amount .fixUp + s.amount .dropInitial := rfl

theorem refs_eq (s : RefSystem) : s.refs = s.strongRefs + s.amount .weak := rfl

/-- An equation for all kinds, kind by kind. -/
theorem spread {s s' : RefSystem} {loss gain : Share → Nat}
    (h : ∀ k, s'.amount k + loss k = s.amount k + gain k) :
    (s'.amount .promoted + loss .promoted = s.amount .promoted + gain .promoted ∧
      s'.amount .plain + loss .plain = s.amount .plain + gain .plain ∧
      s'.amount .weak + loss .weak = s.amount .weak + gain .weak ∧
      s'.amount .fixUp + loss .fixUp = s.amount .fixUp + gain .fixUp ∧
      s'.amount .dropInitial + loss .dropInitial = s.amount .dropInitial + gain .dropInitial) ∧
    s'.amount .releasing + loss .releasing = s.amount .releasing + gain .releasing ∧
    s'.amount .deleting + loss .deleting = s.amount .deleting + gain .deleting ∧
    s'.amount .freeing + loss .freeing = s.amount .freeing + gain .freeing ∧
    s'.amount .unneeded + loss .unneeded = s.amount .unneeded + gain .unneeded ∧
    s'.amount .pointer + loss .pointer = s.amount .pointer + gain .pointer :=
  ⟨⟨h _, h _, h _, h _, h _⟩, h _, h _, h _, h _, h _⟩

theorem sound_set {s : RefSystem} (h : ∀ op ∈ s.ops, Sound op) (i : Nat) {new : RefOp}
    (hnew : Sound new) : ∀ op ∈ s.ops.set i new, Sound op := by
  intro op hop
  rcases List.mem_or_eq_of_mem_set hop with hop | rfl
  · exact h op hop
  · exact hnew

theorem totals (s s' : RefSystem) :
    s.strongRefs = s.amount .promoted + s.amount .plain + s.amount .fixUp +
        s.amount .dropInitial ∧
      s'.strongRefs = s'.amount .promoted + s'.amount .plain + s'.amount .fixUp +
        s'.amount .dropInitial ∧
      s.refs = s.strongRefs + s.amount .weak ∧ s'.refs = s'.strongRefs + s'.amount .weak :=
  ⟨rfl, rfl, rfl, rfl⟩

/-- A reference that is not the pointer of the creator is a strong one if it is not weak. -/
theorem stock_strong {by' : Reference} (hp : by' ≠ .pointer) (hw : by' ≠ .weak) :
    by'.stock .promoted + by'.stock .plain = 1 := by
  cases by' with
  | pointer => exact absurd rfl hp
  | promoted => rfl
  | strong => rfl
  | weak => exact absurd rfl hw

theorem share_eq {by' : Reference} {k : Share} (hk : k ≠ .pointer) :
    by'.share k = by'.stock k := by
  unfold Reference.share
  rw [show Share.one .pointer k = 0 from if_neg (Ne.symm hk), ite_self, Nat.add_zero]

/-! ## The parts of the invariant -/

/-- What it says about `mStrong`. -/
structure StrongPart (s : RefSystem) : Prop where
  strong : s.mStrong.toInt = s.strongRefs ∨ s.mStrong.toInt = s.strongRefs + 2 ^ 28
  small : s.strongRefs < 2 ^ 28
  never : s.ever = false → s.strongRefs = 0 ∧ s.mStrong.toInt = 2 ^ 28
  fixing : s.ever = true → s.mStrong.toInt = s.strongRefs + 2 ^ 28 →
    0 < s.amount .fixUp + s.amount .dropInitial
  drop : 0 < s.amount .dropInitial →
    s.mStrong.toInt = s.strongRefs + 2 ^ 28 ∧ s.amount .dropInitial = 1

/-- What it says about the creator. -/
structure CreatorPart (s : RefSystem) : Prop where
  seed : s.creator ≠ .done → 0 < s.amount .promoted + s.amount .fixUp ∨ s.amount .plain = 0
  releasing : 0 < s.amount .releasing → s.creator = .done
  ended : s.ever = true → s.strongRefs = 0 → s.creator = .done
  busy : s.creator = .busy → s.amount .pointer = 1
  idle : s.creator ≠ .busy → s.amount .pointer = 0

/-- What it says about the end of the object and of its counts. -/
structure EndPart (s : RefSystem) : Prop where
  deleted : s.ever = true → s.strongRefs = 0 → s.deleted + s.amount .deleting = 1
  kept : s.ever = true → 0 < s.strongRefs → s.deleted + s.amount .deleting = 0
  unborn : s.ever = false →
    s.deleted + s.amount .freeing = s.givenUp.toNat ∧ s.amount .deleting = 0
  freed : s.freed + s.amount .freeing = s.givenUp.toNat

theorem Books.strongPart {s : RefSystem} (h : s.Books) : s.StrongPart :=
  ⟨h.strong, h.small, h.never, h.fixing, h.drop⟩

theorem Books.creatorPart {s : RefSystem} (h : s.Books) : s.CreatorPart :=
  ⟨h.seed, h.releasing, h.ended, h.busy, h.idle⟩

theorem Books.endPart {s : RefSystem} (h : s.Books) : s.EndPart :=
  ⟨h.deleted, h.kept, h.unborn, h.freed⟩

theorem Books.of_parts {s : RefSystem} (hs : s.StrongPart) (hc : s.CreatorPart)
    (he : s.EndPart) (hweak : s.mWeak.toInt = s.refs) (hgone : s.givenUp = true → s.refs = 0)
    (hunneeded : s.amount .unneeded = 0) : s.Books :=
  ⟨hs.strong, hs.small, hweak, hs.never, hs.fixing, hs.drop, hc.seed, hc.releasing, hc.ended,
    hc.busy, hc.idle, he.deleted, he.kept, he.unborn, he.freed, hgone, hunneeded⟩

theorem StrongPart.same {s s' : RefSystem} (h : s.StrongPart) (hcount : s'.mStrong = s.mStrong)
    (hever : s'.ever = s.ever) (hrefs : s'.strongRefs = s.strongRefs)
    (hfixUp : s'.amount .fixUp = s.amount .fixUp)
    (hdrop : s'.amount .dropInitial = s.amount .dropInitial) : s'.StrongPart := by
  obtain ⟨strong, small, never, fixing, drop⟩ := h
  constructor <;> simp only [hcount, hever, hrefs, hfixUp, hdrop] <;> assumption

theorem CreatorPart.same {s s' : RefSystem} (h : s.CreatorPart)
    (hcreator : s'.creator = s.creator) (hever : s'.ever = s.ever)
    (hseeds : s'.amount .promoted + s'.amount .fixUp = s.amount .promoted + s.amount .fixUp)
    (hplain : s'.amount .plain = s.amount .plain) (hrefs : s'.strongRefs = s.strongRefs)
    (hreleasing : s'.amount .releasing = s.amount .releasing)
    (hpointer : s'.amount .pointer = s.amount .pointer) : s'.CreatorPart := by
  obtain ⟨seed, releasing, ended, busy, idle⟩ := h
  constructor <;> simp only [hcreator, hever, hseeds, hplain, hrefs, hreleasing, hpointer] <;>
    assumption

/-- The creator has given its pointer away. -/
theorem CreatorPart.finished {s : RefSystem} (hcreator : s.creator = .done)
    (hpointer : s.amount .pointer = 0) : s.CreatorPart where
  seed hne := absurd hcreator hne
  releasing _ := hcreator
  ended _ _ := hcreator
  busy hbusy := by rw [hcreator] at hbusy; cases hbusy
  idle _ := hpointer

/-- The initial value is taken out of `mStrong`. -/
theorem StrongPart.takenOut {s s' : RefSystem} (h : s.StrongPart)
    (hinside : s.mStrong.toInt = s.strongRefs + 2 ^ 28) (hpos : 0 < s.strongRefs)
    (hcount : s'.mStrong.toInt = s.mStrong.toInt - 2 ^ 28) (hever : s'.ever = s.ever)
    (hrefs : s'.strongRefs = s.strongRefs) (hnone : s'.amount .dropInitial = 0) :
    s'.StrongPart where
  strong := .inl (by omega)
  small := by rw [hrefs]; exact h.small
  never hnever := by
    have hzero := (h.never (hever ▸ hnever)).1
    omega
  fixing _ heq := by omega
  drop hmore := by omega

/-- A strong reference more is counted. -/
theorem StrongPart.counted {s s' : RefSystem} (h : s.StrongPart)
    (hsmall : s.strongRefs + 1 < 2 ^ 28) (hcount : s'.mStrong.toInt = s.mStrong.toInt + 1)
    (hever : s'.ever = true) (hrefs : s'.strongRefs = s.strongRefs + 1)
    (hfixing : s'.mStrong.toInt = s'.strongRefs + 2 ^ 28 →
      0 < s'.amount .fixUp + s'.amount .dropInitial)
    (hdrop : 0 < s'.amount .dropInitial →
      s'.mStrong.toInt = s'.strongRefs + 2 ^ 28 ∧ s'.amount .dropInitial = 1) :
    s'.StrongPart where
  strong := by
    have hcases := h.strong
    omega
  small := by omega
  never hnever := by rw [hever] at hnever; cases hnever
  fixing _ := hfixing
  drop := hdrop

/-- A strong reference less is counted. -/
theorem StrongPart.dropped {s s' : RefSystem} (h : s.StrongPart)
    (hcount : s'.mStrong.toInt = s.mStrong.toInt - 1) (hrefs : s'.strongRefs + 1 = s.strongRefs)
    (hever : s'.ever = s.ever) (hfixUp : s'.amount .fixUp = s.amount .fixUp)
    (hdrop : s'.amount .dropInitial = s.amount .dropInitial) : s'.StrongPart where
  strong := by
    have hcases := h.strong
    omega
  small := by
    have hsmall := h.small
    omega
  never hnever := by
    have hzero := (h.never (hever ▸ hnever)).1
    omega
  fixing hborn heq := by
    rw [hfixUp, hdrop]
    exact h.fixing (hever ▸ hborn) (by omega)
  drop hpos := by
    have hold := h.drop (hdrop ▸ hpos)
    omega

theorem CreatorPart.counted {s s' : RefSystem} (h : s.CreatorPart)
    (hcreator : s'.creator = s.creator) (hpos : 0 < s'.strongRefs)
    (hreleasing : s'.amount .releasing = s.amount .releasing)
    (hpointer : s'.amount .pointer = s.amount .pointer)
    (hseed : s'.creator ≠ .done →
      0 < s'.amount .promoted + s'.amount .fixUp ∨ s'.amount .plain = 0) :
    s'.CreatorPart where
  seed := hseed
  releasing := by rw [hreleasing, hcreator]; exact h.releasing
  ended _ hnone := absurd hnone hpos.ne'
  busy := by rw [hcreator, hpointer]; exact h.busy
  idle := by rw [hcreator, hpointer]; exact h.idle

/-- An object with strong references is there. -/
theorem EndPart.needed {s : RefSystem} (hever : s.ever = true) (hpos : 0 < s.strongRefs)
    (hkept : s.deleted + s.amount .deleting = 0)
    (hfreed : s.freed + s.amount .freeing = s.givenUp.toNat) : s.EndPart where
  deleted _ hnone := absurd hnone hpos.ne'
  kept _ _ := hkept
  unborn hunborn := by rw [hever] at hunborn; cases hunborn
  freed := hfreed

theorem EndPart.same {s s' : RefSystem} (h : s.EndPart) (hever : s'.ever = s.ever)
    (hrefs : s'.strongRefs = s.strongRefs) (hgivenUp : s'.givenUp = s.givenUp)
    (hdeleted : s'.deleted = s.deleted) (hfreed : s'.freed = s.freed)
    (hdeleting : s'.amount .deleting = s.amount .deleting)
    (hfreeing : s'.amount .freeing = s.amount .freeing) : s'.EndPart := by
  obtain ⟨deleted, kept, unborn, freed⟩ := h
  constructor <;> simp only [hever, hrefs, hgivenUp, hdeleted, hfreed, hdeleting, hfreeing] <;>
    assumption

/-- The strong references are as many as before when each kind of them is. -/
theorem strongRefs_same {s s' : RefSystem}
    (hpromoted : s'.amount .promoted = s.amount .promoted)
    (hplain : s'.amount .plain = s.amount .plain) (hfixUp : s'.amount .fixUp = s.amount .fixUp)
    (hdrop : s'.amount .dropInitial = s.amount .dropInitial) : s'.strongRefs = s.strongRefs := by
  rw [strongRefs_eq, strongRefs_eq, hpromoted, hplain, hfixUp, hdrop]

/-! ## Steps that count nothing -/

theorem Books.same {s s' : RefSystem} (h : s.Books)
    (hamount : ∀ k, s'.amount k = s.amount k)
    (hfields : s'.mStrong = s.mStrong ∧ s'.mWeak = s.mWeak ∧ s'.ever = s.ever ∧
      s'.creator = s.creator ∧ s'.givenUp = s.givenUp ∧ s'.deleted = s.deleted ∧
      s'.freed = s.freed) : s'.Books := by
  obtain ⟨f1, f2, f3, f4, f5, f6, f7⟩ := hfields
  have hstrong : s'.strongRefs = s.strongRefs := by
    simp only [strongRefs, hamount]
  have hrefs : s'.refs = s.refs := by
    simp only [refs, hstrong, hamount]
  obtain ⟨a1, a2, a3, a4, a5, a6, a7, a8, a9, a10, a11, a12, a13, a14, a15, a16, a17⟩ := h
  constructor <;> simp only [hamount, hstrong, hrefs, f1, f2, f3, f4, f5, f6, f7] <;> assumption

theorem Books.busy_of_pointer {s : RefSystem} (h : s.Books) (hpos : 0 < s.amount .pointer) :
    s.creator = .busy := by
  by_contra hne
  have hzero := h.idle hne
  omega

theorem Books.ever_of_strong {s : RefSystem} (h : s.Books) (hpos : 0 < s.strongRefs) :
    s.ever = true := by
  by_contra hne
  have hnone := (h.never (Bool.eq_false_of_not_eq_true hne)).1
  omega

theorem Books.alive_of_weak {s : RefSystem} (h : s.Books) (hpos : 0 < s.refs) :
    s.givenUp = false := by
  by_contra hne
  have hzero := h.gone (Bool.not_eq_false _ ▸ hne)
  omega

/-- The initial value without references: there never was a strong one. -/
theorem Books.never_of_initial {s : RefSystem} (h : s.Books)
    (hinitial : s.mStrong = initialStrongValue) (hnone : s.strongRefs = 0) :
    s.ever = false := by
  by_contra hne
  have hint := eq_initial_iff.mp hinitial
  have hfixing := h.fixing (Bool.not_eq_false _ ▸ hne) (by omega)
  have heq := strongRefs_eq s
  omega

/-- An object with a positive strong count is not deleted, as long as there are references. -/
theorem Books.undeleted {s : RefSystem} (h : s.Books) (hpos : 0 < s.mStrong.toInt)
    (hrefs : 0 < s.refs) : s.deleted + s.amount .deleting = 0 := by
  cases hever : s.ever with
  | true =>
      refine h.kept hever (Nat.pos_of_ne_zero fun hzero => ?_)
      have hstrong := h.strong
      have hfixing := h.fixing hever
      have heq := strongRefs_eq s
      omega
  | false =>
      have hunborn := h.unborn hever
      rw [h.alive_of_weak hrefs, Bool.toNat_false] at hunborn
      omega

theorem Books.setSame {s : RefSystem} (h : s.Books) {i : Nat} {old new : RefOp}
    (hop : s.ops[i]? = some old) (hshare : ∀ k, new.share k = old.share k) :
    (s.setOp i new).Books := by
  refine h.same (fun k => ?_) ⟨rfl, rfl, rfl, rfl, rfl, rfl, rfl⟩
  have hamount := amount_setOp hop new k
  rw [hshare] at hamount
  exact Nat.add_right_cancel hamount

/-! ## Weak references -/

/-- `mWeak` is counted up for a reference that is on its way. -/
theorem Books.addWeak {s s' : RefSystem} (h : s.Books) (hroom : s.mWeak.toInt + 1 < 2 ^ 31)
    (halive : s.givenUp = false)
    (hamount : ∀ k, s'.amount k + 0 = s.amount k + Share.one .weak k)
    (hcount : s'.mWeak = s.mWeak + 1)
    (hfields : s'.mStrong = s.mStrong ∧ s'.ever = s.ever ∧ s'.creator = s.creator ∧
      s'.givenUp = s.givenUp ∧ s'.deleted = s.deleted ∧ s'.freed = s.freed) : s'.Books := by
  have hweak : s'.mWeak.toInt = s.mWeak.toInt + 1 := by
    rw [hcount]
    exact toInt_add_one hroom
  obtain ⟨⟨h1, h2, h3, h4, h5⟩, h6, h7, h8, h9, h10⟩ := spread hamount
  simp only [Share.one, reduceCtorEq, if_true, if_false, Nat.add_zero]
    at h1 h2 h3 h4 h5 h6 h7 h8 h9 h10
  obtain ⟨f1, f2, f3, f4, f5, f6⟩ := hfields
  have hsame := strongRefs_same h1 h2 h4 h5
  have hrefs : s'.refs = s.refs + 1 := by rw [refs_eq, refs_eq, hsame, h3, Nat.add_assoc]
  refine .of_parts (h.strongPart.same f1 f2 hsame h4 h5)
    (h.creatorPart.same f3 f2 (by rw [h1, h4]) h2 hsame h6 h10)
    (h.endPart.same f2 hsame f4 f5 f6 h7 h8) ?_ ?_ (h9.trans h.unneeded)
  · rw [hweak, h.weak, hrefs]
    rfl
  · intro hgone
    rw [f4, halive] at hgone
    cases hgone

/-- A pointer operation of the creator ends. -/
theorem Books.pointerBack {s s' : RefSystem} (h : s.Books) (hpos : 0 < s.amount .pointer)
    (hcreator : s'.creator = .ready)
    (hamount : ∀ k, s'.amount k + Share.one .pointer k = s.amount k + 0)
    (hfields : s'.mStrong = s.mStrong ∧ s'.mWeak = s.mWeak ∧ s'.ever = s.ever ∧
      s'.givenUp = s.givenUp ∧ s'.deleted = s.deleted ∧ s'.freed = s.freed) : s'.Books := by
  have hbusy := h.busy_of_pointer hpos
  obtain ⟨⟨h1, h2, h3, h4, h5⟩, h6, h7, h8, h9, h10⟩ := spread hamount
  simp only [Share.one, reduceCtorEq, if_true, if_false, Nat.add_zero]
    at h1 h2 h3 h4 h5 h6 h7 h8 h9 h10
  obtain ⟨f1, f2, f3, f4, f5, f6⟩ := hfields
  have hsame := strongRefs_same h1 h2 h4 h5
  have hrefs : s'.refs = s.refs := by rw [refs_eq, refs_eq, hsame, h3]
  have hone := h.busy hbusy
  have hseed := h.seed (by rw [hbusy]; exact fun hdone => nomatch hdone)
  have hended := h.ended
  have hreleasing := h.releasing
  rw [hbusy] at hended hreleasing
  refine .of_parts (h.strongPart.same f1 f3 hsame h4 h5) ?_
    (h.endPart.same f3 hsame f4 f5 f6 h7 h8) (by rw [f2, hrefs, h.weak])
    (by rw [f4, hrefs]; exact h.gone) (h9.trans h.unneeded)
  exact {
    seed := fun _ => by rwa [h1, h2, h4]
    releasing := fun hpos => nomatch hreleasing (h6 ▸ hpos)
    ended := fun hever hnone => nomatch hended (f3 ▸ hever) (hsame ▸ hnone)
    busy := fun hbusy' => by rw [hcreator] at hbusy'; cases hbusy'
    idle := fun _ => by omega }

/-- `mWeak` is counted down, and the counts stay. -/
theorem Books.dropWeak {s s' : RefSystem} (h : s.Books)
    (hpos : 0 < s.amount .weak)
    (hamount : ∀ k, s'.amount k + Share.one .weak k = s.amount k + 0)
    (hcount : s'.mWeak = s.mWeak - 1)
    (hfields : s'.mStrong = s.mStrong ∧ s'.ever = s.ever ∧ s'.creator = s.creator ∧
      s'.givenUp = s.givenUp ∧ s'.deleted = s.deleted ∧ s'.freed = s.freed) : s'.Books := by
  have hweak : s'.mWeak.toInt = s.mWeak.toInt - 1 := by
    have hrefs := h.weak
    have heq := refs_eq s
    rw [hcount]
    exact toInt_sub_one (by omega)
  obtain ⟨⟨h1, h2, h3, h4, h5⟩, h6, h7, h8, h9, h10⟩ := spread hamount
  simp only [Share.one, reduceCtorEq, if_true, if_false, Nat.add_zero]
    at h1 h2 h3 h4 h5 h6 h7 h8 h9 h10
  obtain ⟨f1, f2, f3, f4, f5, f6⟩ := hfields
  have hsame := strongRefs_same h1 h2 h4 h5
  have hrefs : s'.refs + 1 = s.refs := by rw [refs_eq, refs_eq, hsame, ← h3, Nat.add_assoc]
  refine .of_parts (h.strongPart.same f1 f2 hsame h4 h5)
    (h.creatorPart.same f3 f2 (by rw [h1, h4]) h2 hsame h6 h10)
    (h.endPart.same f2 hsame f4 f5 f6 h7 h8) ?_ ?_ (h9.trans h.unneeded)
  · have hcounted := h.weak
    omega
  · intro hgone
    have hnone := h.gone (f4 ▸ hgone)
    omega

/-- `mWeak` is counted down to zero. -/
theorem Books.lastWeak {s s' : RefSystem} (h : s.Books) (hlast : s.mWeak = 1)
    (hpos : 0 < s.amount .weak)
    (hamount : ∀ k, s'.amount k + Share.one .weak k = s.amount k + Share.one .freeing k)
    (hcount : s'.mWeak = s.mWeak - 1) (hgone : s'.givenUp = true)
    (hfields : s'.mStrong = s.mStrong ∧ s'.ever = s.ever ∧ s'.creator = s.creator ∧
      s'.deleted = s.deleted ∧ s'.freed = s.freed) : s'.Books := by
  have hone := eq_one_iff.mp hlast
  have hweak : s'.mWeak.toInt = s.mWeak.toInt - 1 := by
    rw [hcount]
    exact toInt_sub_one (by omega)
  have hnot := h.alive_of_weak (Nat.add_pos_right _ hpos)
  obtain ⟨⟨h1, h2, h3, h4, h5⟩, h6, h7, h8, h9, h10⟩ := spread hamount
  simp only [Share.one, reduceCtorEq, if_true, if_false, Nat.add_zero]
    at h1 h2 h3 h4 h5 h6 h7 h8 h9 h10
  obtain ⟨f1, f2, f3, f4, f5⟩ := hfields
  have hsame := strongRefs_same h1 h2 h4 h5
  have hrefs : s'.refs + 1 = s.refs := by rw [refs_eq, refs_eq, hsame, ← h3, Nat.add_assoc]
  have hcounted := h.weak
  refine .of_parts (h.strongPart.same f1 f2 hsame h4 h5)
    (h.creatorPart.same f3 f2 (by rw [h1, h4]) h2 hsame h6 h10) ?_ (by omega) (fun _ => by omega)
    (h9.trans h.unneeded)
  have hold := h.freed
  have hunborn := h.unborn
  rw [hnot, Bool.toNat_false] at hold hunborn
  exact {
    deleted := by rw [f2, hsame, f4, h7]; exact h.deleted
    kept := by rw [f2, hsame, f4, h7]; exact h.kept
    unborn := fun hever => by
      obtain ⟨hnone, hdeleting⟩ := hunborn (f2 ▸ hever)
      rw [hgone, Bool.toNat_true]
      omega
    freed := by
      rw [hgone, Bool.toNat_true]
      omega }

/-! ## Strong references -/

/-- The first strong reference is that of the creator. -/
theorem Books.firstStrong {s s' : RefSystem} (h : s.Books)
    (hinitial : s.mStrong = initialStrongValue) (hpos : 0 < s.amount .weak)
    (hnone : s.strongRefs = 0)
    (hamount : ∀ k, s'.amount k + Share.one .weak k = s.amount k + Share.one .dropInitial k)
    (hcount : s'.mStrong = s.mStrong + 1) (hever : s'.ever = true)
    (hfields : s'.mWeak = s.mWeak ∧ s'.creator = s.creator ∧
      s'.givenUp = s.givenUp ∧ s'.deleted = s.deleted ∧ s'.freed = s.freed) : s'.Books := by
  have hint := eq_initial_iff.mp hinitial
  have hnever := h.never_of_initial hinitial hnone
  have hold : s.givenUp.toNat = 0 := by
    rw [h.alive_of_weak (Nat.add_pos_right _ hpos)]
    rfl
  have hstrong : s'.mStrong.toInt = s.mStrong.toInt + 1 := by
    rw [hcount]
    exact toInt_add_one (by omega)
  obtain ⟨⟨h1, h2, h3, h4, h5⟩, h6, h7, h8, h9, h10⟩ := spread hamount
  simp only [Share.one, reduceCtorEq, if_true, if_false, Nat.add_zero]
    at h1 h2 h3 h4 h5 h6 h7 h8 h9 h10
  obtain ⟨f1, f2, f3, f4, f5⟩ := hfields
  have hmore : s'.strongRefs = s.strongRefs + 1 := by
    rw [strongRefs_eq, strongRefs_eq]
    omega
  have hrefs : s'.refs = s.refs := by
    rw [refs_eq, refs_eq]
    omega
  have heq := strongRefs_eq s
  have hunborn := h.unborn hnever
  exact .of_parts
    (h.strongPart.counted (by omega) hstrong hever hmore (fun _ => by omega)
      (fun _ => by omega))
    (h.creatorPart.counted f2 (by omega) h6 h10 (fun _ => .inr (by omega)))
    (.needed hever (by omega) (by omega) (by rw [f5, h8, f3]; exact h.freed))
    (by rw [f1, hrefs, h.weak]) (by rw [f3, hrefs]; exact h.gone) (h9.trans h.unneeded)

/-- `attemptIncStrong` has counted `mStrong` up. -/
theorem Books.addPromoted {s s' : RefSystem} (h : s.Books) (hsmall : s.strongRefs + 1 < 2 ^ 28)
    (hpos : 0 < s.mStrong.toInt) (hweak : 0 < s.amount .weak)
    (hamount : ∀ k, s'.amount k + Share.one .weak k = s.amount k + Share.one .fixUp k)
    (hcount : s'.mStrong = s.mStrong + 1) (hever : s'.ever = true)
    (hfields : s'.mWeak = s.mWeak ∧ s'.creator = s.creator ∧
      s'.givenUp = s.givenUp ∧ s'.deleted = s.deleted ∧ s'.freed = s.freed) : s'.Books := by
  have hold := h.undeleted hpos (Nat.add_pos_right _ hweak)
  have hstrong : s'.mStrong.toInt = s.mStrong.toInt + 1 := by
    have hcases := h.strong
    rw [hcount]
    exact toInt_add_one (by omega)
  obtain ⟨⟨h1, h2, h3, h4, h5⟩, h6, h7, h8, h9, h10⟩ := spread hamount
  simp only [Share.one, reduceCtorEq, if_true, if_false, Nat.add_zero]
    at h1 h2 h3 h4 h5 h6 h7 h8 h9 h10
  obtain ⟨f1, f2, f3, f4, f5⟩ := hfields
  have hmore : s'.strongRefs = s.strongRefs + 1 := by
    rw [strongRefs_eq, strongRefs_eq]
    omega
  have hrefs : s'.refs = s.refs := by
    rw [refs_eq, refs_eq]
    omega
  have hdrop := h.drop
  exact .of_parts
    (h.strongPart.counted hsmall hstrong hever hmore (fun _ => by omega) (fun _ => by omega))
    (h.creatorPart.counted f2 (by omega) h6 h10 (fun _ => .inl (by omega)))
    (.needed hever (by omega) (by omega) (by rw [f5, h8, f3]; exact h.freed))
    (by rw [f1, hrefs, h.weak]) (by rw [f3, hrefs]; exact h.gone) (h9.trans h.unneeded)

/-- `incStrong` of a holder, or of the creator after others. -/
theorem Books.addPlain {s s' : RefSystem} (h : s.Books) (hsmall : s.strongRefs + 1 < 2 ^ 28)
    (hpos : 0 < s.strongRefs) (hweak : 0 < s.amount .weak)
    (hamount : ∀ k, s'.amount k + Share.one .weak k = s.amount k + Share.one .plain k)
    (hcount : s'.mStrong = s.mStrong + 1) (hever : s'.ever = true)
    (hseed : s.creator ≠ .done → 0 < s.amount .promoted + s.amount .fixUp)
    (hfields : s'.mWeak = s.mWeak ∧ s'.creator = s.creator ∧
      s'.givenUp = s.givenUp ∧ s'.deleted = s.deleted ∧ s'.freed = s.freed) : s'.Books := by
  have hold : s.deleted + s.amount .deleting = 0 := by
    have hcases := h.strong
    exact h.undeleted (by omega) (Nat.add_pos_right _ hweak)
  have halready := h.ever_of_strong hpos
  have hstrong : s'.mStrong.toInt = s.mStrong.toInt + 1 := by
    have hcases := h.strong
    rw [hcount]
    exact toInt_add_one (by omega)
  obtain ⟨⟨h1, h2, h3, h4, h5⟩, h6, h7, h8, h9, h10⟩ := spread hamount
  simp only [Share.one, reduceCtorEq, if_true, if_false, Nat.add_zero]
    at h1 h2 h3 h4 h5 h6 h7 h8 h9 h10
  obtain ⟨f1, f2, f3, f4, f5⟩ := hfields
  have hmore : s'.strongRefs = s.strongRefs + 1 := by
    rw [strongRefs_eq, strongRefs_eq]
    omega
  have hrefs : s'.refs = s.refs := by
    rw [refs_eq, refs_eq]
    omega
  have hdrop := h.drop
  have hfixing := h.fixing halready
  refine .of_parts
    (h.strongPart.counted hsmall hstrong hever hmore (fun _ => by omega) (fun _ => by omega))
    (h.creatorPart.counted f2 (by omega) h6 h10 (fun hne => .inl ?_))
    (.needed hever (by omega) (by omega) (by rw [f5, h8, f3]; exact h.freed))
    (by rw [f1, hrefs, h.weak]) (by rw [f3, hrefs]; exact h.gone) (h9.trans h.unneeded)
  rw [h1, h4]
  exact hseed (f2 ▸ hne)

/-- The initial value is taken out by the first `incStrong`. -/
theorem Books.dropInitial {s s' : RefSystem} (h : s.Books) (hpos : 0 < s.amount .dropInitial)
    (hamount : ∀ k, s'.amount k + Share.one .dropInitial k = s.amount k + Share.one .plain k)
    (hcount : s'.mStrong = s.mStrong - initialStrongValue)
    (hseed : s'.creator ≠ .done → 0 < s.amount .promoted + s.amount .fixUp)
    (hfields : s'.mWeak = s.mWeak ∧ s'.ever = s.ever ∧ s'.creator = s.creator ∧
      s'.givenUp = s.givenUp ∧ s'.deleted = s.deleted ∧ s'.freed = s.freed) : s'.Books := by
  have hstrong : s'.mStrong.toInt = s.mStrong.toInt - 2 ^ 28 := by
    have hcases := h.strong
    rw [hcount]
    exact toInt_sub_initial (by omega)
  obtain ⟨⟨h1, h2, h3, h4, h5⟩, h6, h7, h8, h9, h10⟩ := spread hamount
  simp only [Share.one, reduceCtorEq, if_true, if_false, Nat.add_zero]
    at h1 h2 h3 h4 h5 h6 h7 h8 h9 h10
  obtain ⟨f1, f2, f3, f4, f5, f6⟩ := hfields
  have hsame : s'.strongRefs = s.strongRefs := by
    rw [strongRefs_eq, strongRefs_eq]
    omega
  have hrefs : s'.refs = s.refs := by rw [refs_eq, refs_eq, hsame, h3]
  have heq := strongRefs_eq s
  obtain ⟨hinside, hone⟩ := h.drop hpos
  refine .of_parts
    (h.strongPart.takenOut hinside (by omega) hstrong f2 hsame (by omega)) ?_
    (h.endPart.same f2 hsame f4 f5 f6 h7 h8) (by rw [f1, hrefs, h.weak])
    (by rw [f4, hrefs]; exact h.gone) (h9.trans h.unneeded)
  exact {
    seed := fun hne => .inl (by rw [h1, h4]; exact hseed hne)
    releasing := by rw [h6, f3]; exact h.releasing
    ended := by rw [f2, f3, hsame]; exact h.ended
    busy := by rw [f3, h10]; exact h.busy
    idle := by rw [f3, h10]; exact h.idle }

/-- The initial value is taken out by `attemptIncStrong`. -/
theorem Books.fixUp {s s' : RefSystem} (h : s.Books) (hpos : 0 < s.amount .fixUp)
    (hinitial : 2 ^ 28 ≤ s.mStrong.toInt) (honly : s.amount .dropInitial = 0)
    (hamount : ∀ k, s'.amount k + Share.one .fixUp k = s.amount k + Share.one .promoted k)
    (hcount : s'.mStrong = s.mStrong - initialStrongValue)
    (hfields : s'.mWeak = s.mWeak ∧ s'.ever = s.ever ∧ s'.creator = s.creator ∧
      s'.givenUp = s.givenUp ∧ s'.deleted = s.deleted ∧ s'.freed = s.freed) : s'.Books := by
  have hstrong : s'.mStrong.toInt = s.mStrong.toInt - 2 ^ 28 := by
    rw [hcount]
    exact toInt_sub_initial (by omega)
  obtain ⟨⟨h1, h2, h3, h4, h5⟩, h6, h7, h8, h9, h10⟩ := spread hamount
  simp only [Share.one, reduceCtorEq, if_true, if_false, Nat.add_zero]
    at h1 h2 h3 h4 h5 h6 h7 h8 h9 h10
  obtain ⟨f1, f2, f3, f4, f5, f6⟩ := hfields
  have hsame : s'.strongRefs = s.strongRefs := by
    rw [strongRefs_eq, strongRefs_eq]
    omega
  have hrefs : s'.refs = s.refs := by rw [refs_eq, refs_eq, hsame, h3]
  have heq := strongRefs_eq s
  have hinside : s.mStrong.toInt = s.strongRefs + 2 ^ 28 := by
    have hcases := h.strong
    have hsmall := h.small
    omega
  exact .of_parts
    (h.strongPart.takenOut hinside (by omega) hstrong f2 hsame (h5.trans honly))
    (h.creatorPart.same f3 f2 (by omega) h2 hsame h6 h10)
    (h.endPart.same f2 hsame f4 f5 f6 h7 h8) (by rw [f1, hrefs, h.weak])
    (by rw [f4, hrefs]; exact h.gone) (h9.trans h.unneeded)

/-- Somebody else has taken it out. -/
theorem Books.fixed {s s' : RefSystem} (h : s.Books)
    (hinitial : s.mStrong.toInt < 2 ^ 28)
    (hamount : ∀ k, s'.amount k + Share.one .fixUp k = s.amount k + Share.one .promoted k)
    (hfields : s'.mStrong = s.mStrong ∧ s'.mWeak = s.mWeak ∧ s'.ever = s.ever ∧
      s'.creator = s.creator ∧ s'.givenUp = s.givenUp ∧ s'.deleted = s.deleted ∧
      s'.freed = s.freed) : s'.Books := by
  obtain ⟨⟨h1, h2, h3, h4, h5⟩, h6, h7, h8, h9, h10⟩ := spread hamount
  simp only [Share.one, reduceCtorEq, if_true, if_false, Nat.add_zero]
    at h1 h2 h3 h4 h5 h6 h7 h8 h9 h10
  obtain ⟨f1, f2, f3, f4, f5, f6, f7⟩ := hfields
  have hsame : s'.strongRefs = s.strongRefs := by
    rw [strongRefs_eq, strongRefs_eq]
    omega
  have hrefs : s'.refs = s.refs := by rw [refs_eq, refs_eq, hsame, h3]
  refine .of_parts ?_ (h.creatorPart.same f4 f3 (by omega) h2 hsame h6 h10)
    (h.endPart.same f3 hsame f5 f6 f7 h7 h8) (by rw [f2, hrefs, h.weak])
    (by rw [f5, hrefs]; exact h.gone) (h9.trans h.unneeded)
  exact {
    strong := by rw [f1, hsame]; exact h.strong
    small := by rw [hsame]; exact h.small
    never := by rw [f1, f3, hsame]; exact h.never
    fixing := fun _ heq => by
      rw [f1] at heq
      omega
    drop := by rw [f1, hsame, h5]; exact h.drop }

/-! ## The creator -/

/-- The first `incStrong` of the creator ends after that of others. -/
theorem Books.creatorAfter {s s' : RefSystem} (h : s.Books) (hsmall : s.strongRefs + 1 < 2 ^ 28)
    (hinitial : s.mStrong ≠ initialStrongValue) (hpointer : 0 < s.amount .pointer)
    (hamount : ∀ k, s'.amount k + (Share.one .pointer k + Share.one .weak k) =
      s.amount k + Share.one .plain k)
    (hcount : s'.mStrong = s.mStrong + 1) (hever : s'.ever = true)
    (hcreator : s'.creator = .done)
    (hfields : s'.mWeak = s.mWeak ∧ s'.givenUp = s.givenUp ∧ s'.deleted = s.deleted ∧
      s'.freed = s.freed) : s'.Books := by
  have hbusy := h.busy_of_pointer hpointer
  have halready : s.ever = true := by
    by_contra hne
    exact hinitial (eq_initial_iff.mpr (h.never (Bool.eq_false_of_not_eq_true hne)).2)
  have hpos : 0 < s.strongRefs := by
    by_contra hne
    have hdone := h.ended halready (Nat.eq_zero_of_not_pos hne)
    rw [hbusy] at hdone
    cases hdone
  have hold := h.kept halready hpos
  have hstrong : s'.mStrong.toInt = s.mStrong.toInt + 1 := by
    have hcases := h.strong
    rw [hcount]
    exact toInt_add_one (by omega)
  obtain ⟨⟨h1, h2, h3, h4, h5⟩, h6, h7, h8, h9, h10⟩ := spread hamount
  simp only [Share.one, reduceCtorEq, if_true, if_false, Nat.add_zero]
    at h1 h2 h3 h4 h5 h6 h7 h8 h9 h10
  obtain ⟨f1, f2, f3, f4⟩ := hfields
  have hmore : s'.strongRefs = s.strongRefs + 1 := by
    rw [strongRefs_eq, strongRefs_eq]
    omega
  have hrefs : s'.refs = s.refs := by
    rw [refs_eq, refs_eq]
    omega
  have hdrop := h.drop
  have hfixing := h.fixing halready
  have hheld := h.busy hbusy
  exact .of_parts
    (h.strongPart.counted hsmall hstrong hever hmore (fun _ => by omega) (fun _ => by omega))
    (.finished hcreator (by omega))
    (.needed hever (by omega) (by omega) (by rw [f4, h8, f2]; exact h.freed))
    (by rw [f1, hrefs, h.weak]) (by rw [f2, hrefs]; exact h.gone) (h9.trans h.unneeded)

/-- The first `incStrong` of the creator ends as the first of all. -/
theorem Books.creatorFirst {s s' : RefSystem} (h : s.Books) (hpos : 0 < s.amount .dropInitial)
    (hpointer : 0 < s.amount .pointer)
    (hamount : ∀ k, s'.amount k + (Share.one .pointer k + Share.one .dropInitial k) =
      s.amount k + Share.one .plain k)
    (hcount : s'.mStrong = s.mStrong - initialStrongValue) (hcreator : s'.creator = .done)
    (hfields : s'.mWeak = s.mWeak ∧ s'.ever = s.ever ∧ s'.givenUp = s.givenUp ∧
      s'.deleted = s.deleted ∧ s'.freed = s.freed) : s'.Books := by
  have hbusy := h.busy_of_pointer hpointer
  have hstrong : s'.mStrong.toInt = s.mStrong.toInt - 2 ^ 28 := by
    have hcases := h.strong
    rw [hcount]
    exact toInt_sub_initial (by omega)
  obtain ⟨⟨h1, h2, h3, h4, h5⟩, h6, h7, h8, h9, h10⟩ := spread hamount
  simp only [Share.one, reduceCtorEq, if_true, if_false, Nat.add_zero]
    at h1 h2 h3 h4 h5 h6 h7 h8 h9 h10
  obtain ⟨f1, f2, f3, f4, f5⟩ := hfields
  have hsame : s'.strongRefs = s.strongRefs := by
    rw [strongRefs_eq, strongRefs_eq]
    omega
  have hrefs : s'.refs = s.refs := by rw [refs_eq, refs_eq, hsame, h3]
  have heq := strongRefs_eq s
  have hheld := h.busy hbusy
  obtain ⟨hinside, hone⟩ := h.drop hpos
  exact .of_parts
    (h.strongPart.takenOut hinside (by omega) hstrong f2 hsame (by omega))
    (.finished hcreator (by omega))
    (h.endPart.same f2 hsame f3 f4 f5 h7 h8) (by rw [f1, hrefs, h.weak])
    (by rw [f3, hrefs]; exact h.gone) (h9.trans h.unneeded)

/-- The creator takes its pointer. -/
theorem Books.pointerTaken {s s' : RefSystem} (h : s.Books) (hready : s.creator = .ready)
    (hcreator : s'.creator = .busy)
    (hamount : ∀ k, s'.amount k + 0 = s.amount k + Share.one .pointer k)
    (hfields : s'.mStrong = s.mStrong ∧ s'.mWeak = s.mWeak ∧ s'.ever = s.ever ∧
      s'.givenUp = s.givenUp ∧ s'.deleted = s.deleted ∧ s'.freed = s.freed) : s'.Books := by
  obtain ⟨⟨h1, h2, h3, h4, h5⟩, h6, h7, h8, h9, h10⟩ := spread hamount
  simp only [Share.one, reduceCtorEq, if_true, if_false, Nat.add_zero]
    at h1 h2 h3 h4 h5 h6 h7 h8 h9 h10
  obtain ⟨f1, f2, f3, f4, f5, f6⟩ := hfields
  have hsame := strongRefs_same h1 h2 h4 h5
  have hrefs : s'.refs = s.refs := by rw [refs_eq, refs_eq, hsame, h3]
  have hidle := h.idle (by rw [hready]; exact fun hbusy => nomatch hbusy)
  have hseed := h.seed (by rw [hready]; exact fun hdone => nomatch hdone)
  have hended := h.ended
  have hreleasing := h.releasing
  rw [hready] at hended hreleasing
  refine .of_parts (h.strongPart.same f1 f3 hsame h4 h5) ?_
    (h.endPart.same f3 hsame f4 f5 f6 h7 h8) (by rw [f2, hrefs, h.weak])
    (by rw [f4, hrefs]; exact h.gone) (h9.trans h.unneeded)
  exact {
    seed := fun _ => by rwa [h1, h2, h4]
    releasing := fun hpos => nomatch hreleasing (h6 ▸ hpos)
    ended := fun hever hnone => nomatch hended (f3 ▸ hever) (hsame ▸ hnone)
    busy := fun _ => by omega
    idle := fun hne => absurd hcreator hne }

/-- The creator gives up its pointer. -/
theorem Books.leave {s : RefSystem} (h : s.Books) (hready : s.creator = .ready) :
    Books { s with creator := .done } := by
  have hidle := h.idle (by rw [hready]; exact fun hbusy => nomatch hbusy)
  exact {
    strong := h.strong, small := h.small, weak := h.weak, never := h.never, fixing := h.fixing,
    drop := h.drop, seed := fun hne => absurd rfl hne, releasing := fun _ => rfl,
    ended := fun _ _ => rfl, busy := fun hbusy => (nomatch hbusy), idle := fun _ => hidle,
    deleted := h.deleted, kept := h.kept, unborn := h.unborn, freed := h.freed, gone := h.gone,
    unneeded := h.unneeded }

/-- A release is on its way. -/
theorem Books.release {s s' : RefSystem} (h : s.Books) (hdone : s.creator = .done)
    (hamount : ∀ k, s'.amount k + 0 = s.amount k + Share.one .releasing k)
    (hfields : s'.mStrong = s.mStrong ∧ s'.mWeak = s.mWeak ∧ s'.ever = s.ever ∧
      s'.creator = s.creator ∧ s'.givenUp = s.givenUp ∧ s'.deleted = s.deleted ∧
      s'.freed = s.freed) : s'.Books := by
  obtain ⟨⟨h1, h2, h3, h4, h5⟩, h6, h7, h8, h9, h10⟩ := spread hamount
  simp only [Share.one, reduceCtorEq, if_true, if_false, Nat.add_zero]
    at h1 h2 h3 h4 h5 h6 h7 h8 h9 h10
  obtain ⟨f1, f2, f3, f4, f5, f6, f7⟩ := hfields
  have hsame := strongRefs_same h1 h2 h4 h5
  have hrefs : s'.refs = s.refs := by rw [refs_eq, refs_eq, hsame, h3]
  have hdone' : s'.creator = .done := f4.trans hdone
  refine .of_parts (h.strongPart.same f1 f3 hsame h4 h5) ?_
    (h.endPart.same f3 hsame f5 f6 f7 h7 h8) (by rw [f2, hrefs, h.weak])
    (by rw [f5, hrefs]; exact h.gone) (h9.trans h.unneeded)
  exact {
    seed := fun hne => absurd hdone' hne
    releasing := fun _ => hdone'
    ended := fun _ _ => hdone'
    busy := by rw [f4, h10]; exact h.busy
    idle := by rw [f4, h10]; exact h.idle }

theorem Books.toInt_dropped {s s' : RefSystem} (h : s.Books) {p : Bool}
    (hpos : 0 < s.amount (if p then .promoted else .plain))
    (hcount : s'.mStrong = s.mStrong - 1) : s'.mStrong.toInt = s.mStrong.toInt - 1 := by
  have hcases := h.strong
  have heq := strongRefs_eq s
  rw [hcount]
  refine toInt_sub_one ?_
  cases p with
  | false => simp only [Bool.false_eq_true, if_false] at hpos; omega
  | true => simp only [if_true] at hpos; omega

/-- `decStrong` counts down, be it for the last strong reference or not. -/
theorem Books.dropped {s s' : RefSystem} (h : s.Books) {p : Bool}
    (hpos : 0 < s.amount (if p then .promoted else .plain))
    (hreleasing : p = true → 0 < s.amount .releasing)
    (hamount : ∀ k, k ≠ .deleting →
      s'.amount k + (RefOp.decStrong p).share k = s.amount k + Share.one .weak k)
    (hstrong : s'.mStrong.toInt = s.mStrong.toInt - 1)
    (hever : s'.ever = s.ever) (hcreator : s'.creator = s.creator) :
    s'.strongRefs + 1 = s.strongRefs ∧ s'.refs = s.refs ∧ s'.StrongPart ∧ s'.CreatorPart := by
  have h1 := hamount .promoted Share.noConfusion
  have h2 := hamount .plain Share.noConfusion
  have h3 := hamount .weak Share.noConfusion
  have h4 := hamount .fixUp Share.noConfusion
  have h5 := hamount .dropInitial Share.noConfusion
  have h6 := hamount .releasing Share.noConfusion
  have h10 := hamount .pointer Share.noConfusion
  obtain ⟨e, e', r, r'⟩ := totals s s'
  cases p with
  | false =>
      simp only [RefOp.share, Share.one, reduceCtorEq, if_true, if_false, Nat.add_zero]
        at h1 h2 h3 h4 h5 h6 h10 hpos
      have hless : s'.strongRefs + 1 = s.strongRefs := by omega
      refine ⟨hless, by omega, h.strongPart.dropped hstrong hless hever h4 h5, ?_⟩
      -- the creator has not given its pointer away: somebody else holds a strong reference
      have hothers : s'.creator ≠ .done → 0 < s'.amount .promoted + s'.amount .fixUp :=
        fun hne => by
          have hseed := h.seed (hcreator ▸ hne)
          omega
      exact {
        seed := fun hne => .inl (hothers hne)
        releasing := by rw [h6, hcreator]; exact h.releasing
        ended := fun _ hnone => by
          by_contra hne
          have hsome := hothers hne
          omega
        busy := by rw [hcreator, h10]; exact h.busy
        idle := by rw [hcreator, h10]; exact h.idle }
  | true =>
      have hdone := h.releasing (hreleasing rfl)
      have hidle := h.idle (by rw [hdone]; exact fun hbusy => nomatch hbusy)
      simp only [RefOp.share, Share.one, reduceCtorEq, if_true, if_false, Nat.add_zero]
        at h1 h2 h3 h4 h5 h6 h10 hpos
      have hless : s'.strongRefs + 1 = s.strongRefs := by omega
      exact ⟨hless, by omega, h.strongPart.dropped hstrong hless hever h4 h5,
        .finished (hcreator.trans hdone) (h10.trans hidle)⟩

/-- `decStrong` is no part of the end of the object. -/
theorem decStrong_share_end (p : Bool) : (RefOp.decStrong p).share .deleting = 0 ∧
    (RefOp.decStrong p).share .freeing = 0 ∧ (RefOp.decStrong p).share .unneeded = 0 := by
  cases p <;> exact ⟨rfl, rfl, rfl⟩

/-- The last one is taken out: the object is to be deleted. -/
theorem Books.dropLast {s s' : RefSystem} (h : s.Books) {p : Bool}
    (hpos : 0 < s.amount (if p then .promoted else .plain))
    (hreleasing : p = true → 0 < s.amount .releasing) (hlast : s.mStrong.toInt = 1)
    (hamount : ∀ k, s'.amount k + (RefOp.decStrong p).share k =
      s.amount k + (Share.one .weak k + Share.one .deleting k))
    (hstrong : s'.mStrong.toInt = s.mStrong.toInt - 1)
    (hfields : s'.mWeak = s.mWeak ∧ s'.ever = s.ever ∧ s'.creator = s.creator ∧
      s'.givenUp = s.givenUp ∧ s'.deleted = s.deleted ∧ s'.freed = s.freed) : s'.Books := by
  obtain ⟨f1, f2, f3, f4, f5, f6⟩ := hfields
  obtain ⟨hless, hrefs, hstrongPart, hcreatorPart⟩ :=
    h.dropped hpos hreleasing (fun k hk => by
      have hother : Share.one .deleting k = 0 := if_neg (Ne.symm hk)
      rw [hamount k, hother, Nat.add_zero]) hstrong f2 f3
  obtain ⟨d7, d8, d9⟩ := decStrong_share_end p
  have h7 := hamount .deleting
  have h8 := hamount .freeing
  have h9 := hamount .unneeded
  simp only [d7, d8, d9, Share.one, reduceCtorEq, if_true, if_false, Nat.add_zero,
    Nat.zero_add] at h7 h8 h9
  have hcases := h.strong
  have hever := h.ever_of_strong (by omega)
  have hkept := h.kept hever (by omega)
  refine .of_parts hstrongPart hcreatorPart ?_ (by rw [f1, hrefs, h.weak])
    (by rw [f4, hrefs]; exact h.gone) (h9.trans h.unneeded)
  exact {
    deleted := fun _ _ => by omega
    kept := fun _ hsome => by omega
    unborn := fun hunborn => by rw [f2, hever] at hunborn; cases hunborn
    freed := by rw [f6, h8, f4]; exact h.freed }

/-- One that is not the last is taken out. -/
theorem Books.dropOther {s s' : RefSystem} (h : s.Books) {p : Bool}
    (hpos : 0 < s.amount (if p then .promoted else .plain))
    (hreleasing : p = true → 0 < s.amount .releasing) (hmore : s.mStrong.toInt ≠ 1)
    (hamount : ∀ k, s'.amount k + (RefOp.decStrong p).share k =
      s.amount k + Share.one .weak k)
    (hstrong : s'.mStrong.toInt = s.mStrong.toInt - 1)
    (hfields : s'.mWeak = s.mWeak ∧ s'.ever = s.ever ∧ s'.creator = s.creator ∧
      s'.givenUp = s.givenUp ∧ s'.deleted = s.deleted ∧ s'.freed = s.freed) : s'.Books := by
  obtain ⟨f1, f2, f3, f4, f5, f6⟩ := hfields
  obtain ⟨hless, hrefs, hstrongPart, hcreatorPart⟩ :=
    h.dropped hpos hreleasing (fun k _ => hamount k) hstrong f2 f3
  obtain ⟨d7, d8, d9⟩ := decStrong_share_end p
  have h7 := hamount .deleting
  have h8 := hamount .freeing
  have h9 := hamount .unneeded
  simp only [d7, d8, d9, Share.one, reduceCtorEq, if_false, Nat.add_zero] at h7 h8 h9
  have hever := h.ever_of_strong (by omega)
  have hkept := h.kept hever (by omega)
  -- the count is the number of the strong references, or somebody is to take the initial
  -- value out who has a strong reference too
  have hsome : 0 < s'.strongRefs := by
    have hcases := hstrongPart.strong
    have hfixing := hstrongPart.fixing (f2.trans hever)
    have heq := strongRefs_eq s'
    omega
  exact .of_parts hstrongPart hcreatorPart
    (.needed (f2.trans hever) hsome (by omega) (by rw [f6, h8, f4]; exact h.freed))
    (by rw [f1, hrefs, h.weak]) (by rw [f4, hrefs]; exact h.gone) (h9.trans h.unneeded)

/-- `decStrong` counts down; the last one deletes the object. -/
theorem Books.dropStrong {s s' : RefSystem} (h : s.Books) {p : Bool}
    (hpos : 0 < s.amount (if p then .promoted else .plain))
    (hreleasing : p = true → 0 < s.amount .releasing)
    (hamount : ∀ k, s'.amount k + (RefOp.decStrong p).share k =
      s.amount k + (Share.one .weak k + if s.mStrong = 1 then Share.one .deleting k else 0))
    (hcount : s'.mStrong = s.mStrong - 1)
    (hfields : s'.mWeak = s.mWeak ∧ s'.ever = s.ever ∧ s'.creator = s.creator ∧
      s'.givenUp = s.givenUp ∧ s'.deleted = s.deleted ∧ s'.freed = s.freed) : s'.Books := by
  have hstrong := h.toInt_dropped hpos hcount
  by_cases hlast : s.mStrong = 1
  · refine h.dropLast hpos hreleasing (eq_one_iff.mp hlast) (fun k => ?_) hstrong hfields
    have hk := hamount k
    rw [if_pos hlast] at hk
    exact hk
  · refine h.dropOther hpos hreleasing (mt eq_one_iff.mpr hlast) (fun k => ?_) hstrong hfields
    have hk := hamount k
    rw [if_neg hlast] at hk
    exact hk

/-! ## The end of the object -/

/-- The count is not the initial value when `decStrong` deletes the object. -/
theorem Books.deleteObject {s s' : RefSystem} (h : s.Books) (hpos : 0 < s.amount .deleting)
    (hamount : ∀ k, s'.amount k + Share.one .deleting k = s.amount k + 0)
    (hdeleted : s'.deleted = s.deleted + 1)
    (hfreed : s'.freed = if s.mStrong = initialStrongValue then s.freed + 1 else s.freed)
    (hfields : s'.mStrong = s.mStrong ∧ s'.mWeak = s.mWeak ∧ s'.ever = s.ever ∧
      s'.creator = s.creator ∧ s'.givenUp = s.givenUp) : s'.Books := by
  have hever : s.ever = true := by
    by_contra hne
    have hnone := (h.unborn (Bool.not_eq_true _ ▸ hne)).2
    omega
  have hnone : s.strongRefs = 0 := by
    by_contra hne
    have hkept := h.kept hever (Nat.pos_of_ne_zero hne)
    omega
  have hsame : s'.freed = s.freed := by
    refine hfreed.trans (if_neg fun hinitial => ?_)
    rw [h.never_of_initial hinitial hnone] at hever
    cases hever
  obtain ⟨⟨h1, h2, h3, h4, h5⟩, h6, h7, h8, h9, h10⟩ := spread hamount
  simp only [Share.one, reduceCtorEq, if_true, if_false, Nat.add_zero]
    at h1 h2 h3 h4 h5 h6 h7 h8 h9 h10
  obtain ⟨f1, f2, f3, f4, f5⟩ := hfields
  have hsame' := strongRefs_same h1 h2 h4 h5
  have hrefs : s'.refs = s.refs := by rw [refs_eq, refs_eq, hsame', h3]
  have hdone := h.deleted hever hnone
  refine .of_parts (h.strongPart.same f1 f3 hsame' h4 h5)
    (h.creatorPart.same f4 f3 (by rw [h1, h4]) h2 hsame' h6 h10) ?_ (by rw [f2, hrefs, h.weak])
    (by rw [f5, hrefs]; exact h.gone) (h9.trans h.unneeded)
  exact {
    deleted := fun _ _ => by omega
    kept := fun _ hsome => by omega
    unborn := fun hunborn => by rw [f3, hever] at hunborn; cases hunborn
    freed := by rw [hsame, h8, f5]; exact h.freed }

/-- The counts go with the last weak reference, and the object too if it never had a strong
one. -/
theorem Books.freeRefs {s s' : RefSystem} (h : s.Books) (hpos : 0 < s.amount .freeing)
    (hamount : ∀ k, s'.amount k + Share.one .freeing k = s.amount k + 0)
    (hdeleted : s'.deleted = if s.mStrong = initialStrongValue then s.deleted + 1 else s.deleted)
    (hfreed : s'.freed = s.freed + 1)
    (hfields : s'.mStrong = s.mStrong ∧ s'.mWeak = s.mWeak ∧ s'.ever = s.ever ∧
      s'.creator = s.creator ∧ s'.givenUp = s.givenUp) : s'.Books := by
  have hgone : s.givenUp = true := by
    by_contra hne
    have hfreeing := h.freed
    rw [Bool.eq_false_of_not_eq_true hne, Bool.toNat_false] at hfreeing
    omega
  -- the last weak reference is gone, and with it every strong one
  have hnone : s.strongRefs = 0 := by
    have hrefs := h.gone hgone
    have heq := refs_eq s
    omega
  obtain ⟨⟨h1, h2, h3, h4, h5⟩, h6, h7, h8, h9, h10⟩ := spread hamount
  simp only [Share.one, reduceCtorEq, if_true, if_false, Nat.add_zero]
    at h1 h2 h3 h4 h5 h6 h7 h8 h9 h10
  obtain ⟨f1, f2, f3, f4, f5⟩ := hfields
  have hsame := strongRefs_same h1 h2 h4 h5
  have hrefs : s'.refs = s.refs := by rw [refs_eq, refs_eq, hsame, h3]
  have hlast := h.freed
  refine .of_parts (h.strongPart.same f1 f3 hsame h4 h5)
    (h.creatorPart.same f4 f3 (by rw [h1, h4]) h2 hsame h6 h10) ?_ (by rw [f2, hrefs, h.weak])
    (by rw [f5, hrefs]; exact h.gone) (h9.trans h.unneeded)
  cases hever : s.ever with
  | true =>
      have hkeeps : s'.deleted = s.deleted := by
        refine hdeleted.trans (if_neg fun hinitial => ?_)
        rw [h.never_of_initial hinitial hnone] at hever
        cases hever
      exact {
        deleted := by rw [f3, hsame, hkeeps, h7]; exact h.deleted
        kept := by rw [f3, hsame, hkeeps, h7]; exact h.kept
        unborn := fun hunborn => by rw [f3, hever] at hunborn; cases hunborn
        freed := by rw [f5]; omega }
  | false =>
      have hmore : s'.deleted = s.deleted + 1 :=
        hdeleted.trans (if_pos (eq_initial_iff.mpr (h.never hever).2))
      obtain ⟨hboth, hdeleting⟩ := h.unborn hever
      exact {
        deleted := fun hborn => by rw [f3, hever] at hborn; cases hborn
        kept := fun hborn => by rw [f3, hever] at hborn; cases hborn
        unborn := fun _ => ⟨by rw [f5]; omega, by rw [h7, hdeleting]⟩
        freed := by rw [f5]; omega }

end RefSystem
end Binder
end AndroidLinux
