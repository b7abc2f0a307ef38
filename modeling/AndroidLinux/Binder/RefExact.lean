import AndroidLinux.Binder.RefBooks

/-!
# Reference counting of one object

`Exact` is what the users of an object rely on.  It holds along all runs whose steps are
`Proper`.  Two runs that are not show how it fails: the initial value is taken out twice,
and `onLastStrongRef` is called although there are strong references.
-/

namespace AndroidLinux
namespace Binder

open Lib

namespace RefSystem

/-! ## Steps of operations -/

/-- A reference in use keeps the object from being given up. -/
theorem Books.alive_of_use {s : RefSystem} (h : s.Books) {by' : Reference}
    (hp : by' ≠ .pointer) (huse : ∀ k, by'.share k ≤ s.amount k) : s.givenUp = false := by
  have hpromoted := huse .promoted
  have hplain := huse .plain
  have hweak := huse .weak
  rw [share_eq (by decide)] at hpromoted hplain hweak
  refine h.alive_of_weak ?_
  have hrefs := refs_eq s
  have heq := strongRefs_eq s
  cases by' with
  | pointer => exact absurd rfl hp
  | promoted =>
      rw [show Reference.promoted.stock .promoted = 1 from rfl] at hpromoted
      omega
  | strong =>
      rw [show Reference.strong.stock .plain = 1 from rfl] at hplain
      omega
  | weak =>
      rw [show Reference.weak.stock .weak = 1 from rfl] at hweak
      omega

/-- Nobody has strong references but those from `attemptIncStrong` before the creator is
done, unless there is one of these. -/
theorem Books.seeded {s : RefSystem} (h : s.Books) {by' : Reference} (hp : by' ≠ .pointer)
    (hw : by' ≠ .weak) (huse : ∀ k, by'.share k ≤ s.amount k) :
    0 < s.strongRefs ∧
      (s.creator ≠ .done → 0 < s.amount .promoted + s.amount .fixUp) := by
  have hpromoted := huse .promoted
  have hplain := huse .plain
  rw [share_eq (by decide)] at hpromoted hplain
  have hone := stock_strong hp hw
  have heq := strongRefs_eq s
  refine ⟨by omega, fun hne => ?_⟩
  have hseed := h.seed hne
  omega

theorem giveBack_fields (s : RefSystem) (creator : Creator) {by' : Reference}
    (hp : by' ≠ .pointer) :
    (s.giveBack creator by').mStrong = s.mStrong ∧ (s.giveBack creator by').mWeak = s.mWeak ∧
      (s.giveBack creator by').ever = s.ever ∧ (s.giveBack creator by').creator = s.creator ∧
      (s.giveBack creator by').givenUp = s.givenUp ∧
      (s.giveBack creator by').deleted = s.deleted ∧ (s.giveBack creator by').freed = s.freed ∧
      (s.giveBack creator by').ops = s.ops := by
  cases by' with
  | pointer => exact absurd rfl hp
  | promoted => exact ⟨rfl, rfl, rfl, rfl, rfl, rfl, rfl, rfl⟩
  | strong => exact ⟨rfl, rfl, rfl, rfl, rfl, rfl, rfl, rfl⟩
  | weak => exact ⟨rfl, rfl, rfl, rfl, rfl, rfl, rfl, rfl⟩

theorem share_pointer (k : Share) : Reference.pointer.share k = Share.one .pointer k :=
  (Nat.zero_add _).trans (if_pos rfl)

theorem share_of_ne {by' : Reference} (hp : by' ≠ .pointer) (k : Share) :
    by'.share k = by'.stock k := by
  unfold Reference.share
  rw [if_neg hp, Nat.add_zero]

theorem share_strong (k : Share) : Reference.strong.share k = Share.one .plain k :=
  share_of_ne (by decide) k

theorem share_weak (k : Share) : Reference.weak.share k = Share.one .weak k :=
  share_of_ne (by decide) k

theorem cancel_left {a b c d : Nat} (h : a + c = b + (c + d)) : a + 0 = b + d := by
  omega

theorem cancel_both {a b c d e : Nat} (h : a + (c + e) = b + (c + d)) : a + e = b + d := by
  omega

theorem cancel_added {a b c e : Nat} (h : a + (c + e) = b + c + 0) : a + e = b + 0 := by
  omega

theorem giveBack_ops (s : RefSystem) (creator : Creator) (by' : Reference) :
    (s.giveBack creator by').ops = s.ops := by
  cases by' <;> rfl

/-- The operation that ends with a reference given back is no longer under way. -/
theorem sound_giveBack {s : RefSystem} (h : ∀ op ∈ s.ops, Sound op) (creator : Creator)
    (by' : Reference) (i : Nat) :
    ∀ op ∈ (s.giveBack creator by').ops.set i .finished, Sound op := by
  rw [giveBack_ops]
  exact sound_set h i trivial

theorem sound_atomicDecWeak {s : RefSystem} (h : ∀ op ∈ s.ops, Sound op) (i weak : Nat) :
    ∀ op ∈ (s.atomicDecWeak i weak).ops, Sound op := by
  unfold atomicDecWeak
  split <;> exact sound_set h i trivial

/-- A reference is put on the heap of its kind. -/
theorem amount_stock (s s' : RefSystem) {kind : Share} {n : Nat} (hops : s'.ops = s.ops)
    (hstock : ∀ k, s'.stock k = s.stock k + n * Share.one kind k) (k : Share) :
    s'.amount k = s.amount k + n * Share.one kind k := by
  rw [amount, amount, hops, hstock]
  omega

theorem amount_addWeak (s : RefSystem) (n : Nat) (k : Share) :
    ({ s with weak := s.weak + n } : RefSystem).amount k =
      s.amount k + n * Share.one .weak k := by
  refine amount_stock s { s with weak := s.weak + n } rfl (fun k => ?_) k
  cases k with
  | weak => exact congrArg (s.weak + ·) (Nat.mul_one n).symm
  | _ => rfl

theorem amount_addStrong (s : RefSystem) (k : Share) :
    ({ s with strong := s.strong + 1 } : RefSystem).amount k =
      s.amount k + 1 * Share.one .plain k := by
  refine amount_stock s { s with strong := s.strong + 1 } rfl (fun k => ?_) k
  cases k <;> rfl

theorem amount_addPromoted (s : RefSystem) (k : Share) :
    ({ s with promoted := s.promoted + 1 } : RefSystem).amount k =
      s.amount k + 1 * Share.one .promoted k := by
  refine amount_stock s { s with promoted := s.promoted + 1 } rfl (fun k => ?_) k
  cases k <;> rfl

theorem amount_endIncWeak {s : RefSystem} {i : Nat} {by' : Reference}
    (hop : s.ops[i]? = some (.incWeak by')) (k : Share) :
    ({ s.giveBack .ready by' with weak := (s.giveBack .ready by').weak + 1 }.setOp i
      .finished).amount k + by'.share k = s.amount k + (by'.stock k + Share.one .weak k) := by
  have hop' : (s.giveBack .ready by').ops[i]? = some (.incWeak by') := by
    rw [giveBack_ops]
    exact hop
  have hset := amount_setOp (s := { s.giveBack .ready by' with
    weak := (s.giveBack .ready by').weak + 1 }) hop' .finished k
  rw [amount_addWeak, amount_giveBack] at hset
  have hold : (RefOp.incWeak by').share k = by'.share k := rfl
  have hnew : RefOp.finished.share k = 0 := rfl
  omega

theorem amount_endIncStrong {s : RefSystem} {i : Nat} {op : RefOp}
    (hop : s.ops[i]? = some op) (by' : Reference) (k : Share) :
    (s.endIncStrong i by').amount k + op.share k =
      s.amount k + (by'.stock k + Share.one .plain k) := by
  have hop' : (s.giveBack .done by').ops[i]? = some op := by
    rw [giveBack_ops]
    exact hop
  have hset := amount_setOp (s := { s.giveBack .done by' with
    strong := (s.giveBack .done by').strong + 1 }) hop' .finished k
  rw [amount_addStrong, amount_giveBack] at hset
  have hnew : RefOp.finished.share k = 0 := rfl
  show (({ s.giveBack .done by' with strong := (s.giveBack .done by').strong + 1 } :
    RefSystem).setOp i .finished).amount k + op.share k = _
  omega

theorem amount_endAttempt {s : RefSystem} {i : Nat} {op : RefOp}
    (hop : s.ops[i]? = some op) (k : Share) :
    (s.endAttempt i).amount k + op.share k =
      s.amount k + (Share.one .promoted k + Share.one .weak k) := by
  have hset := amount_setOp (s := { s with promoted := s.promoted + 1, weak := s.weak + 1 })
    hop .finished k
  have hweak := amount_addWeak { s with promoted := s.promoted + 1 } 1 k
  have hpromoted := amount_addPromoted s k
  have hnew : RefOp.finished.share k = 0 := rfl
  show (({ s with promoted := s.promoted + 1, weak := s.weak + 1 } : RefSystem).setOp i
    .finished).amount k + op.share k = _
  dsimp only at hweak hset
  omega

/-- `incWeak` ends. -/
theorem Books.incWeak {s : RefSystem} (h : s.Books) {i : Nat} {by' : Reference}
    (hop : s.ops[i]? = some (.incWeak by')) (hgood : ¬ s.dangling by')
    (hroom : s.mWeak.toInt + 1 < 2 ^ 31) :
    ({ s.atomicIncWeak.giveBack .ready by' with
      weak := (s.atomicIncWeak.giveBack .ready by').weak + 1 }.setOp i .finished).Books := by
  have huse := share_le_amount hop
  have hamount := amount_endIncWeak (s := s.atomicIncWeak) hop
  by_cases hp : by' = .pointer
  · subst hp
    have halive : s.givenUp = false := Bool.eq_false_iff.mpr fun hup => hgood ⟨rfl, hup⟩
    have hpos := huse .pointer
    rw [show (RefOp.incWeak .pointer).share .pointer = 1 from rfl] at hpos
    have hadded : Books { s.atomicIncWeak with weak := s.weak + 1 } := by
      refine h.addWeak hroom halive (fun k => ?_) rfl ⟨rfl, rfl, rfl, rfl, rfl, rfl⟩
      have hone := amount_addWeak s.atomicIncWeak 1 k
      rw [Nat.one_mul] at hone
      exact hone
    refine hadded.pointerBack hpos rfl (fun k => ?_) ⟨rfl, rfl, rfl, rfl, rfl, rfl⟩
    have hone := amount_addWeak s.atomicIncWeak 1 k
    have hthis := hamount k
    rw [share_pointer, show Reference.pointer.stock k = 0 from rfl, Nat.zero_add] at hthis
    rw [Nat.one_mul] at hone
    exact hthis.trans hone.symm
  · obtain ⟨f1, f2, f3, f4, f5, f6, f7, -⟩ := giveBack_fields s.atomicIncWeak .ready hp
    refine h.addWeak hroom (h.alive_of_use hp huse) (fun k => ?_) f2 ⟨f1, f3, f4, f5, f6, f7⟩
    have hthis := hamount k
    rw [share_of_ne hp] at hthis
    exact cancel_left hthis

/-- `incStrong` counts `mStrong` up. -/
theorem Books.incStrong {s s' : RefSystem} (h : s.Books) {i : Nat} {by' : Reference}
    (hop : s.ops[i]? = some (.incStrong by')) (hby : by' ≠ .weak)
    (hsmall : s.strongRefs + 1 < 2 ^ 28) (hstep : s.stepOp i (.incStrong by') = some s') :
    s'.Books := by
  have huse := share_le_amount hop
  have hweak : 0 < s.amount .weak := by
    have hle := huse .weak
    have hshare : (RefOp.incStrong by').share .weak = by'.share .weak + 1 := rfl
    omega
  unfold stepOp at hstep
  dsimp only at hstep
  by_cases hinitial : s.mStrong = initialStrongValue
  · rw [if_pos hinitial, Option.some.injEq] at hstep
    subst hstep
    have hint := eq_initial_iff.mp hinitial
    have hcases := h.strong
    have hsmall' := h.small
    refine h.firstStrong hinitial hweak (by omega) (fun k => ?_) rfl rfl
      ⟨rfl, rfl, rfl, rfl, rfl⟩
    exact cancel_both (amount_setOp (s := s.atomicIncStrong) hop (.dropInitial by') k)
  rw [if_neg hinitial, Option.some.injEq] at hstep
  subst hstep
  have hamount := amount_endIncStrong (s := s.atomicIncStrong) hop by'
  by_cases hp : by' = .pointer
  · subst hp
    have hpointer := huse .pointer
    rw [show (RefOp.incStrong .pointer).share .pointer = 1 from rfl] at hpointer
    refine h.creatorAfter hsmall hinitial hpointer (fun k => ?_) rfl rfl rfl
      ⟨rfl, rfl, rfl, rfl⟩
    have hthis := hamount k
    rw [show (RefOp.incStrong .pointer).share k = Share.one .pointer k + Share.one .weak k from
      congrArg (· + _) (share_pointer k), show Reference.pointer.stock k = 0 from rfl,
      Nat.zero_add] at hthis
    exact hthis
  · obtain ⟨hpos, hseed⟩ := h.seeded hp hby fun k => le_trans (Nat.le_add_right _ _) (huse k)
    obtain ⟨f1, f2, f3, f4, f5, f6, f7, -⟩ := giveBack_fields s.atomicIncStrong .done hp
    refine h.addPlain hsmall hpos hweak (fun k => ?_) f1 f3 hseed
      ⟨f2, f4, f5, f6, f7⟩
    have hthis := hamount k
    rw [show (RefOp.incStrong by').share k = by'.stock k + Share.one .weak k from
      congrArg (· + _) (share_of_ne hp k)] at hthis
    exact cancel_both hthis

/-- The first `incStrong` takes out the initial value. -/
theorem Books.endFirst {s : RefSystem} (h : s.Books) {i : Nat} {by' : Reference}
    (hop : s.ops[i]? = some (.dropInitial by')) (hby : by' ≠ .weak) :
    ({ s with mStrong := s.mStrong - initialStrongValue }.endIncStrong i by').Books := by
  have huse := share_le_amount hop
  have hpos : 0 < s.amount .dropInitial := by
    have hle := huse .dropInitial
    have hshare : (RefOp.dropInitial by').share .dropInitial = by'.share .dropInitial + 1 := rfl
    omega
  have hamount := amount_endIncStrong
    (s := { s with mStrong := s.mStrong - initialStrongValue }) hop by'
  by_cases hp : by' = .pointer
  · subst hp
    have hpointer := huse .pointer
    rw [show (RefOp.dropInitial .pointer).share .pointer = 1 from rfl] at hpointer
    refine h.creatorFirst hpos hpointer (fun k => ?_) rfl rfl ⟨rfl, rfl, rfl, rfl, rfl⟩
    have hthis := hamount k
    rw [show (RefOp.dropInitial .pointer).share k =
      Share.one .pointer k + Share.one .dropInitial k from congrArg (· + _) (share_pointer k),
      show Reference.pointer.stock k = 0 from rfl, Nat.zero_add] at hthis
    exact hthis
  · obtain ⟨-, hseed⟩ := h.seeded hp hby fun k => le_trans (Nat.le_add_right _ _) (huse k)
    obtain ⟨f1, f2, f3, f4, f5, f6, f7, -⟩ :=
      giveBack_fields { s with mStrong := s.mStrong - initialStrongValue } .done hp
    refine h.dropInitial hpos (fun k => ?_) f1 (fun hne => hseed ?_) ⟨f2, f3, f4, f5, f6, f7⟩
    · have hthis := hamount k
      rw [show (RefOp.dropInitial by').share k = by'.stock k + Share.one .dropInitial k from
        congrArg (· + _) (share_of_ne hp k)] at hthis
      exact cancel_both hthis
    · exact fun hdone => hne (f4.trans hdone)

/-- The decrement of `decWeak` and of a failed `attemptIncStrong`. -/
theorem Books.atomicDecWeak {s : RefSystem} (h : s.Books) {i n : Nat} {op : RefOp}
    (hop : s.ops[i]? = some op) (hshare : ∀ k, op.share k = (n + 1) * Share.one .weak k) :
    (s.atomicDecWeak i n).Books := by
  have hpos : n + 1 ≤ s.amount .weak := by
    have hle := share_le_amount hop .weak
    rw [hshare] at hle
    exact le_trans (Nat.mul_one (n + 1)).ge hle
  unfold RefSystem.atomicDecWeak
  by_cases hlast : s.mWeak = 1
  · rw [if_pos hlast]
    have hn : n = 0 := by
      have hone := eq_one_iff.mp hlast
      have hweak := h.weak
      have hrefs := refs_eq s
      omega
    subst hn
    refine h.lastWeak hlast hpos (fun k => ?_) rfl rfl ⟨rfl, rfl, rfl, rfl, rfl⟩
    have hset := amount_setOp (s := { s with mWeak := s.mWeak - 1, givenUp := true }) hop
      .lastWeakRef k
    rw [hshare, Nat.zero_add, Nat.one_mul] at hset
    exact hset
  · rw [if_neg hlast]
    refine h.dropWeak (Nat.zero_lt_of_lt hpos) (fun k => ?_) rfl
      ⟨rfl, rfl, rfl, rfl, rfl, rfl⟩
    have hset := amount_setOp (s := { s with mWeak := s.mWeak - 1, weak := s.weak + n }) hop
      .finished k
    have hadd := amount_addWeak { s with mWeak := s.mWeak - 1 } n k
    rw [hshare, show RefOp.finished.share k = 0 from rfl, hadd, Nat.succ_mul] at hset
    exact cancel_added hset

theorem share_dropInitial {op : RefOp} (h : ∀ by', op ≠ .dropInitial by') :
    op.share .dropInitial = 0 := by
  cases op with
  | dropInitial by' => exact absurd rfl (h by')
  | decStrong p => cases p <;> rfl
  | incWeak by' => cases by' <;> rfl
  | incStrongWeak by' => cases by' <;> rfl
  | incStrong by' => cases by' <;> rfl
  | _ => rfl

theorem amount_dropInitial {s : RefSystem} (h : ∀ by', RefOp.dropInitial by' ∉ s.ops) :
    s.amount .dropInitial = 0 := by
  refine (Nat.zero_add _).trans (List.sum_eq_zero fun n hn => ?_)
  obtain ⟨op, hop, rfl⟩ := List.mem_map.mp hn
  exact share_dropInitial fun by' heq => h by' (heq ▸ hop)

/-- `attemptIncStrong` counts `mStrong` up. -/
theorem Books.exchange {s : RefSystem} (h : s.Books) {i : Nat} {op : RefOp}
    (hop : s.ops[i]? = some op) (hshare : ∀ k, op.share k = 2 * Share.one .weak k)
    (hsmall : s.strongRefs + 1 < 2 ^ 28) (hpos : 0 < s.mStrong.toInt) :
    (s.atomicIncStrong.setOp i .readFixUp).Books := by
  have hweak : 0 < s.amount .weak := by
    have hle := share_le_amount hop .weak
    rw [hshare] at hle
    exact lt_of_lt_of_le (by decide) hle
  refine h.addPromoted hsmall hpos hweak (fun k => ?_) rfl rfl ⟨rfl, rfl, rfl, rfl, rfl⟩
  have hset := amount_setOp (s := s.atomicIncStrong) hop .readFixUp k
  rw [hshare, Nat.two_mul] at hset
  exact cancel_both hset

/-- `attemptIncStrong` is through with the initial value. -/
theorem Books.endAttempt {s : RefSystem} (h : s.Books) {i : Nat} {op : RefOp}
    (hop : s.ops[i]? = some op)
    (hshare : ∀ k, op.share k = Share.one .weak k + Share.one .fixUp k)
    (hfixed : s.mStrong.toInt < 2 ^ 28) : (s.endAttempt i).Books := by
  refine h.fixed hfixed (fun k => ?_) ⟨rfl, rfl, rfl, rfl, rfl, rfl, rfl⟩
  have hend := amount_endAttempt hop k
  rw [hshare, Nat.add_comm (Share.one .promoted k)] at hend
  exact cancel_both hend

theorem Books.endFixUp {s : RefSystem} (h : s.Books) {i : Nat} {op : RefOp}
    (hop : s.ops[i]? = some op)
    (hshare : ∀ k, op.share k = Share.one .weak k + Share.one .fixUp k)
    (hinitial : 2 ^ 28 ≤ s.mStrong.toInt) (honly : s.amount .dropInitial = 0) :
    ({ s with mStrong := s.mStrong - initialStrongValue }.endAttempt i).Books := by
  have hpos : 0 < s.amount .fixUp := by
    have hle := share_le_amount hop .fixUp
    rw [hshare] at hle
    exact lt_of_lt_of_le (by decide) hle
  refine h.fixUp hpos hinitial honly (fun k => ?_) rfl ⟨rfl, rfl, rfl, rfl, rfl, rfl⟩
  have hend := amount_endAttempt
    (s := { s with mStrong := s.mStrong - initialStrongValue }) hop k
  rw [hshare, Nat.add_comm (Share.one .promoted k)] at hend
  exact cancel_both hend

theorem Books.decStrong {s : RefSystem} (h : s.Books) {i : Nat} {p : Bool}
    (hop : s.ops[i]? = some (.decStrong p)) :
    ({ s with mStrong := s.mStrong - 1 }.setOp i
      (if s.mStrong = 1 then RefOp.lastStrongRef else .decWeak)).Books := by
  refine h.dropStrong (p := p) ?_ ?_ (fun k => ?_) rfl ⟨rfl, rfl, rfl, rfl, rfl, rfl⟩
  · cases p with
    | false => exact lt_of_lt_of_le (by decide) (share_le_amount hop .plain)
    | true => exact lt_of_lt_of_le (by decide) (share_le_amount hop .promoted)
  · rintro rfl
    exact lt_of_lt_of_le (by decide) (share_le_amount hop .releasing)
  · have hset := amount_setOp (s := { s with mStrong := s.mStrong - 1 }) hop
      (if s.mStrong = 1 then RefOp.lastStrongRef else .decWeak) k
    refine hset.trans (congrArg (s.amount k + ·) ?_)
    by_cases hlast : s.mStrong = 1
    · rw [if_pos hlast, if_pos hlast]
      rfl
    · rw [if_neg hlast, if_neg hlast]
      rfl

theorem Books.deleteThis {s : RefSystem} (h : s.Books) {i : Nat}
    (hop : s.ops[i]? = some .deleteThis) : (s.deleteObject.setOp i .decWeak).Books := by
  have hpos : 0 < s.amount .deleting :=
    lt_of_lt_of_le (by decide) (share_le_amount hop .deleting)
  refine h.deleteObject hpos (fun k => ?_) rfl rfl ⟨rfl, rfl, rfl, rfl, rfl⟩
  exact cancel_both (amount_setOp (s := s.deleteObject) hop .decWeak k)

theorem Books.lastWeakRef {s : RefSystem} (h : s.Books) {i : Nat}
    (hop : s.ops[i]? = some .lastWeakRef) :
    ((if s.mStrong = initialStrongValue then s.deleteObject
      else { s with freed := s.freed + 1 }).setOp i .finished).Books := by
  have hpos : 0 < s.amount .freeing :=
    lt_of_lt_of_le (by decide) (share_le_amount hop .freeing)
  by_cases hinitial : s.mStrong = initialStrongValue
  · rw [if_pos hinitial]
    refine h.freeRefs hpos (fun k => ?_) (if_pos hinitial).symm (if_pos hinitial)
      ⟨rfl, rfl, rfl, rfl, rfl⟩
    exact amount_setOp (s := s.deleteObject) hop .finished k
  · rw [if_neg hinitial]
    refine h.freeRefs hpos (fun k => ?_) (if_neg hinitial).symm rfl ⟨rfl, rfl, rfl, rfl, rfl⟩
    exact amount_setOp (s := { s with freed := s.freed + 1 }) hop .finished k

theorem afterRead_share (curCount : Int32) (k : Share) :
    (afterRead curCount).share k = 2 * Share.one .weak k := by
  unfold afterRead
  split
  · rfl
  · split <;> rfl

theorem afterRead_sound (curCount : Int32) : Sound (afterRead curCount) := by
  unfold afterRead
  split
  · rename_i hcur
    exact ⟨Int32.lt_iff_toInt_lt.mp hcur.1, fun heq => hcur.2 (eq_initial_iff.mpr heq)⟩
  · split
    · exact trivial
    · rename_i hneg
      exact Int32.lt_iff_toInt_lt.mp (Int32.not_le.mp hneg)

/-- One atomic operation. -/
theorem inv_stepOp {s s' : RefSystem} (h : s.Inv) {i : Nat} {op : RefOp}
    (hop : s.ops[i]? = some op) (hguard : s.Proper (.proceed i))
    (hstep : s.stepOp i op = some s') : s'.Inv := by
  obtain ⟨hstrong, hweak, honce, hneeded, hgood⟩ := hguard op hop
  have hsound := h.sound op (List.mem_of_getElem? hop)
  -- one case for each atomic operation; what it gives up and takes is read off the shares
  cases op with
  | finished => cases hstep
  | incWeak by' =>
      cases hstep
      exact ⟨h.books.incWeak hop (hgood by' (.inl rfl)) (hweak trivial),
        sound_giveBack (s := s.atomicIncWeak) h.sound .ready by' i⟩
  | incStrongWeak by' =>
      cases hstep
      refine ⟨?_, sound_set h.sound i hsound⟩
      have halive : s.givenUp = false := by
        by_cases hp : by' = .pointer
        · exact Bool.eq_false_iff.mpr fun hup => hgood by' (.inr rfl) ⟨hp, hup⟩
        · exact h.books.alive_of_use hp (share_le_amount hop)
      refine h.books.addWeak (hweak trivial) halive (fun k => ?_) rfl
        ⟨rfl, rfl, rfl, rfl, rfl, rfl⟩
      exact cancel_left (amount_setOp (s := s.atomicIncWeak) hop (.incStrong by') k)
  | incStrong by' =>
      refine ⟨h.books.incStrong hop hsound (hstrong trivial) hstep, ?_⟩
      unfold stepOp at hstep
      dsimp only at hstep
      split at hstep
      · cases hstep
        exact sound_set h.sound i hsound
      · cases hstep
        exact sound_giveBack (s := s.atomicIncStrong) h.sound .done by' i
  | dropInitial by' =>
      cases hstep
      exact ⟨h.books.endFirst hop hsound,
        sound_giveBack (s := { s with mStrong := s.mStrong - initialStrongValue }) h.sound .done
          by' i⟩
  | decStrong p =>
      cases hstep
      refine ⟨h.books.decStrong hop, sound_set h.sound i ?_⟩
      split <;> exact trivial
  | lastStrongRef =>
      cases hstep
      exact ⟨h.books.setSame hop fun _ => rfl, sound_set h.sound i trivial⟩
  | deleteThis =>
      cases hstep
      exact ⟨h.books.deleteThis hop, sound_set h.sound i trivial⟩
  | decWeak =>
      cases hstep
      exact ⟨h.books.atomicDecWeak hop fun k => (Nat.one_mul _).symm,
        sound_atomicDecWeak h.sound i 0⟩
  | lastWeakRef =>
      cases hstep
      refine ⟨h.books.lastWeakRef hop, ?_⟩
      split <;> exact sound_set h.sound i trivial
  | attempt =>
      cases hstep
      refine ⟨?_, sound_set h.sound i trivial⟩
      have halive : s.givenUp = false := by
        refine h.books.alive_of_weak (Nat.add_pos_right _ ?_)
        exact lt_of_lt_of_le (by decide) (share_le_amount hop .weak)
      refine h.books.addWeak (hweak trivial) halive (fun k => ?_) rfl
        ⟨rfl, rfl, rfl, rfl, rfl, rfl⟩
      have hset := amount_setOp (s := s.atomicIncWeak) hop .readStrong k
      rw [show RefOp.readStrong.share k = Share.one .weak k + Share.one .weak k from
        Nat.two_mul _] at hset
      exact cancel_left hset
  | readStrong =>
      cases hstep
      exact ⟨h.books.setSame hop (afterRead_share _), sound_set h.sound i (afterRead_sound _)⟩
  | exchange curCount =>
      unfold stepOp at hstep
      dsimp only at hstep
      by_cases hsame : s.mStrong = curCount
      · rw [if_pos hsame, Option.some.injEq] at hstep
        subst hstep
        refine ⟨h.books.exchange hop (fun _ => rfl) (hstrong hsame) ?_,
          sound_set h.sound i trivial⟩
        rw [hsame]
        exact hsound.1
      · rw [if_neg hsame, Option.some.injEq] at hstep
        subst hstep
        exact ⟨h.books.setSame hop fun _ => rfl, sound_set h.sound i trivial⟩
  | exchangeFirst curCount =>
      unfold stepOp at hstep
      dsimp only at hstep
      by_cases hsame : s.mStrong = curCount
      · -- the exchange succeeds only if the reference is still needed
        have hle := hneeded curCount rfl hsame
        rw [if_pos hsame, if_neg (Int32.not_lt.mpr hle), Option.some.injEq] at hstep
        subst hstep
        refine ⟨h.books.exchange hop (fun _ => rfl) (hstrong hsame) ?_,
          sound_set h.sound i trivial⟩
        rw [hsame]
        exact hsound
      · rw [if_neg hsame, Option.some.injEq] at hstep
        subst hstep
        exact ⟨h.books.setSame hop fun _ => rfl, sound_set h.sound i trivial⟩
  | readFirst =>
      cases hstep
      refine ⟨h.books.setSame hop fun _ => ?_, sound_set h.sound i ?_⟩
      · split <;> rfl
      · split
        · rename_i hpos
          exact Int32.lt_iff_toInt_lt.mp hpos
        · exact trivial
  | unneededRef =>
      -- no such operation is in the books
      have hle := share_le_amount hop .unneeded
      rw [h.books.unneeded] at hle
      exact absurd hle (by decide)
  | readFixUp =>
      unfold stepOp at hstep
      dsimp only at hstep
      by_cases hle : initialStrongValue ≤ s.mStrong
      · rw [if_pos hle, Option.some.injEq] at hstep
        subst hstep
        exact ⟨h.books.setSame hop fun _ => rfl,
          sound_set h.sound i (Int32.le_iff_toInt_le.mp hle)⟩
      · rw [if_neg hle, Option.some.injEq] at hstep
        subst hstep
        refine ⟨h.books.endAttempt hop (fun _ => rfl) ?_, sound_set h.sound i trivial⟩
        exact Int32.lt_iff_toInt_lt.mp (Int32.not_le.mp hle)
  | fixUp curCount =>
      unfold stepOp at hstep
      dsimp only at hstep
      by_cases hsame : s.mStrong = curCount
      · rw [if_pos hsame, Option.some.injEq] at hstep
        subst hstep
        refine ⟨h.books.endFixUp hop (fun _ => rfl) ?_
          (amount_dropInitial (honce curCount rfl hsame)), sound_set h.sound i trivial⟩
        rw [hsame]
        exact hsound
      · rw [if_neg hsame, Option.some.injEq] at hstep
        subst hstep
        exact ⟨h.books.setSame hop fun _ => rfl, sound_set h.sound i trivial⟩
  | giveUp =>
      cases hstep
      exact ⟨h.books.atomicDecWeak hop fun k => rfl, sound_atomicDecWeak h.sound i 1⟩

/-! ## The other steps -/

theorem take_fields {s s' : RefSystem} {by' : Reference} (h : s.take by' = some s') :
    s'.mStrong = s.mStrong ∧ s'.mWeak = s.mWeak ∧ s'.ever = s.ever ∧ s'.givenUp = s.givenUp ∧
      s'.deleted = s.deleted ∧ s'.freed = s.freed ∧ s'.ops = s.ops ∧
      (by' ≠ .pointer → s'.creator = s.creator) ∧
      (by' = .pointer → s.creator = .ready ∧ s'.creator = .busy) := by
  cases by' with
  | pointer =>
      obtain ⟨hready, ⟨⟩⟩ := Option.ite_none_right_eq_some.mp h
      exact ⟨rfl, rfl, rfl, rfl, rfl, rfl, rfl, fun hne => absurd rfl hne, fun _ => ⟨hready, rfl⟩⟩
  | promoted =>
      obtain ⟨-, ⟨⟩⟩ := Option.ite_none_right_eq_some.mp h
      exact ⟨rfl, rfl, rfl, rfl, rfl, rfl, rfl, fun _ => rfl, fun heq => nomatch heq⟩
  | strong =>
      obtain ⟨-, ⟨⟩⟩ := Option.ite_none_right_eq_some.mp h
      exact ⟨rfl, rfl, rfl, rfl, rfl, rfl, rfl, fun _ => rfl, fun heq => nomatch heq⟩
  | weak =>
      obtain ⟨-, ⟨⟩⟩ := Option.ite_none_right_eq_some.mp h
      exact ⟨rfl, rfl, rfl, rfl, rfl, rfl, rfl, fun _ => rfl, fun heq => nomatch heq⟩

theorem sound_start {s s' : RefSystem} (h : ∀ op ∈ s.ops, Sound op) (hops : s'.ops = s.ops)
    {new : RefOp} (hnew : Sound new) : ∀ op ∈ (s'.start new).ops, Sound op := by
  intro op hop
  rcases List.mem_append.mp hop with hop | hop
  · exact h op (hops ▸ hop)
  · rw [List.mem_singleton.mp hop]
    exact hnew

/-- An operation starts with the reference that it uses. -/
theorem Inv.start {s s' : RefSystem} (h : s.Inv) {by' : Reference}
    (htake : s.take by' = some s') {op : RefOp} (hshare : ∀ k, op.share k = by'.share k)
    (hsound : Sound op) : (s'.start op).Inv := by
  obtain ⟨f1, f2, f3, f4, f5, f6, f7, f8, f9⟩ := take_fields htake
  refine ⟨?_, sound_start h.sound f7 hsound⟩
  have hamount : ∀ k, (s'.start op).amount k + by'.stock k = s.amount k + by'.share k := by
    intro k
    rw [amount_start, hshare]
    have htaken := amount_take htake k
    omega
  by_cases hp : by' = .pointer
  · obtain ⟨hready, hbusy⟩ := f9 hp
    subst hp
    refine h.books.pointerTaken hready hbusy (fun k => ?_) ⟨f1, f2, f3, f4, f5, f6⟩
    rw [← share_pointer]
    exact hamount k
  · refine h.books.same (fun k => ?_) ⟨f1, f2, f3, f8 hp, f4, f5, f6⟩
    have hthis := hamount k
    rw [share_of_ne hp] at hthis
    exact Nat.add_right_cancel hthis

theorem Inv.startDecStrong {s s' : RefSystem} (h : s.Inv) {p : Bool}
    (hdone : p = true → s.creator = .done)
    (htake : s.take (if p then .promoted else .strong) = some s') :
    (s'.start (.decStrong p)).Inv := by
  cases p with
  | false =>
      have htake' : s.take .strong = some s' := htake
      exact h.start htake' (fun k => (share_strong k).symm) trivial
  | true =>
      obtain ⟨f1, f2, f3, f4, f5, f6, f7, f8, -⟩ := take_fields htake
      refine ⟨?_, sound_start h.sound f7 trivial⟩
      refine h.books.release (hdone rfl) (fun k => ?_) ⟨f1, f2, f3, f8 (by decide), f4, f5, f6⟩
      have htaken := amount_take htake k
      rw [amount_start, ← htaken]
      exact Nat.add_assoc _ _ _ |>.symm

theorem inv_step {s s' : RefSystem} {a : Action} (h : s.Inv) (hguard : s.Proper a)
    (hstep : step s a = some s') : s'.Inv := by
  cases a with
  | incWeak by' =>
      obtain ⟨t, htake, rfl⟩ := Option.map_eq_some_iff.mp hstep
      exact h.start htake (fun _ => rfl) trivial
  | incStrong by' =>
      unfold step at hstep
      dsimp only at hstep
      by_cases hw : by' = .weak
      · rw [if_pos hw] at hstep
        cases hstep
      · rw [if_neg hw] at hstep
        obtain ⟨t, htake, rfl⟩ := Option.map_eq_some_iff.mp hstep
        exact h.start htake (fun _ => rfl) hw
  | decStrong p =>
      unfold step at hstep
      dsimp only at hstep
      by_cases hearly : p = true ∧ s.creator ≠ .done
      · rw [if_pos hearly] at hstep
        cases hstep
      · rw [if_neg hearly] at hstep
        obtain ⟨t, htake, rfl⟩ := Option.map_eq_some_iff.mp hstep
        exact h.startDecStrong (fun hp => not_not.mp fun hne => hearly ⟨hp, hne⟩) htake
  | decWeak =>
      obtain ⟨t, htake, rfl⟩ := Option.map_eq_some_iff.mp hstep
      exact h.start htake (fun k => (share_weak k).symm) trivial
  | attemptIncStrong =>
      obtain ⟨t, htake, rfl⟩ := Option.map_eq_some_iff.mp hstep
      exact h.start htake (fun k => (share_weak k).symm) trivial
  | leave =>
      obtain ⟨hready, ⟨⟩⟩ := Option.ite_none_right_eq_some.mp hstep
      exact ⟨h.books.leave hready, h.sound⟩
  | proceed i =>
      obtain ⟨op, hop, hstepOp⟩ := Option.bind_eq_some_iff.mp hstep
      exact inv_stepOp h hop hguard hstepOp

theorem inv_initial : initial.Inv where
  books := {
    strong := .inr (by decide), small := by decide, weak := by decide,
    never := fun _ => by decide, fixing := fun hever => (nomatch hever),
    drop := fun hpos => absurd hpos (by decide), seed := fun _ => .inr (by decide),
    releasing := fun hpos => absurd hpos (by decide), ended := fun hever => (nomatch hever),
    busy := fun hbusy => (nomatch hbusy), idle := fun _ => by decide,
    deleted := fun hever => (nomatch hever), kept := fun hever => (nomatch hever),
    unborn := fun _ => by decide, freed := by decide, gone := fun hup => (nomatch hup),
    unneeded := by decide }
  sound op hop := absurd hop List.not_mem_nil

theorem inv_of_reach {s : RefSystem} (h : machine.ReachWhen Proper s) : s.Inv := by
  refine Machine.ReachWhen.invariant (I := Inv) ?_ (fun s a s' hs hguard hstep => ?_) h
  · rintro s rfl
    exact inv_initial
  · exact inv_step hs hguard hstep

/-! ## No strong reference after the last one -/

/-- The last strong reference was released: the object is deleted, or about to be. -/
def ends (s : RefSystem) : Nat := s.deleted + s.amount .deleting

theorem Books.ends_eq {s : RefSystem} (h : s.Books) (hever : s.ever = true) :
    s.strongRefs = 0 ↔ 0 < s.ends := by
  constructor
  · intro hnone
    exact Nat.lt_of_lt_of_eq Nat.one_pos (h.deleted hever hnone).symm
  · intro hpos
    by_contra hne
    have hkept := h.kept hever (Nat.pos_of_ne_zero hne)
    exact absurd hkept hpos.ne'

theorem reference_deleting (by' : Reference) : by'.share .deleting = 0 := by
  cases by' <;> rfl

/-- An operation other than the last part of `decStrong` does not change this. -/
theorem ends_setOp {s t : RefSystem} {i : Nat} {op new : RefOp} (hop : s.ops[i]? = some op)
    (hold : op.share .deleting = 0) (hops : t.ops = s.ops) (hdeleted : s.deleted ≤ t.deleted) :
    s.ends ≤ (t.setOp i new).ends := by
  have hset := amount_setOp (s := t) (hops ▸ hop) new .deleting
  have hsame : t.amount .deleting = s.amount .deleting := by
    rw [amount, amount, hops]
    rfl
  show s.deleted + _ ≤ t.deleted + _
  omega

theorem ends_atomicDecWeak {s : RefSystem} {i : Nat} {op : RefOp} (hop : s.ops[i]? = some op)
    (hold : op.share .deleting = 0) (weak : Nat) :
    s.ends ≤ (s.atomicDecWeak i weak).ends ∧ (s.atomicDecWeak i weak).ever = s.ever := by
  unfold atomicDecWeak
  split
  · exact ⟨ends_setOp (t := { s with mWeak := s.mWeak - 1, givenUp := true }) hop hold rfl
      le_rfl, rfl⟩
  · exact ⟨ends_setOp (t := { s with mWeak := s.mWeak - 1, weak := s.weak + weak }) hop hold rfl
      le_rfl, rfl⟩

theorem ends_stepOp {s s' : RefSystem} {i : Nat} {op : RefOp} (hop : s.ops[i]? = some op)
    (hstep : s.stepOp i op = some s') :
    s.ends ≤ s'.ends ∧ (s.ever = true → s'.ever = true) := by
  have hsame : ∀ {new : RefOp}, op.share .deleting = 0 → s.ends ≤ (s.setOp i new).ends :=
    fun h => ends_setOp (t := s) hop h rfl le_rfl
  unfold stepOp at hstep
  -- only `deleteThis` changes the two terms, and it moves one from the second to the first
  cases op with
  | finished => cases hstep
  | incWeak by' =>
      cases hstep
      refine ⟨ends_setOp hop (reference_deleting by')
        (giveBack_ops s.atomicIncWeak .ready by') ?_, ?_⟩
      · cases by' <;> exact le_rfl
      · cases by' <;> exact id
  | incStrongWeak by' =>
      cases hstep
      exact ⟨ends_setOp (t := s.atomicIncWeak) hop (reference_deleting by') rfl
        le_rfl, id⟩
  | incStrong by' =>
      dsimp only at hstep
      split at hstep
      · cases hstep
        exact ⟨ends_setOp (t := s.atomicIncStrong) hop (reference_deleting by') rfl
          le_rfl, fun _ => rfl⟩
      · cases hstep
        refine ⟨ends_setOp hop (reference_deleting by')
          (giveBack_ops s.atomicIncStrong .done by') ?_, fun _ => ?_⟩
        · cases by' <;> exact le_rfl
        · cases by' <;> rfl
  | dropInitial by' =>
      cases hstep
      refine ⟨ends_setOp hop (reference_deleting by') (giveBack_ops
        { s with mStrong := s.mStrong - initialStrongValue } .done by') ?_, ?_⟩
      · cases by' <;> exact le_rfl
      · cases by' <;> exact id
  | decStrong p =>
      cases hstep
      exact ⟨ends_setOp (t := { s with mStrong := s.mStrong - 1 }) hop
        (by cases p <;> rfl) rfl le_rfl, id⟩
  | lastStrongRef =>
      cases hstep
      have hset := amount_setOp hop .deleteThis .deleting
      exact ⟨Nat.add_le_add_left (Nat.add_right_cancel hset).ge _, id⟩
  | deleteThis =>
      cases hstep
      have hset := amount_setOp (s := s.deleteObject) hop .decWeak .deleting
      have hone : RefOp.deleteThis.share .deleting = 1 := rfl
      have hzero : RefOp.decWeak.share .deleting = 0 := rfl
      have hamount : s.deleteObject.amount .deleting = s.amount .deleting := rfl
      refine ⟨?_, id⟩
      show s.deleted + _ ≤ s.deleted + 1 + _
      omega
  | decWeak =>
      cases hstep
      obtain ⟨hends, hever⟩ := ends_atomicDecWeak hop rfl 0
      exact ⟨hends, hever.trans⟩
  | lastWeakRef =>
      cases hstep
      split
      · exact ⟨ends_setOp (t := s.deleteObject) hop rfl rfl (Nat.le_succ _), id⟩
      · exact ⟨ends_setOp (t := { s with freed := s.freed + 1 }) hop rfl rfl le_rfl, id⟩
  | attempt =>
      cases hstep
      exact ⟨ends_setOp (t := s.atomicIncWeak) hop rfl rfl le_rfl, id⟩
  | readStrong =>
      cases hstep
      exact ⟨hsame rfl, id⟩
  | exchange curCount =>
      dsimp only at hstep
      split at hstep
      · cases hstep
        exact ⟨ends_setOp (t := s.atomicIncStrong) hop rfl rfl le_rfl, fun _ => rfl⟩
      · cases hstep
        exact ⟨hsame rfl, id⟩
  | exchangeFirst curCount =>
      dsimp only at hstep
      split at hstep
      · cases hstep
        exact ⟨ends_setOp (t := s.atomicIncStrong) hop rfl rfl le_rfl, fun _ => rfl⟩
      · cases hstep
        exact ⟨hsame rfl, id⟩
  | readFirst =>
      cases hstep
      exact ⟨hsame rfl, id⟩
  | unneededRef =>
      cases hstep
      exact ⟨hsame rfl, id⟩
  | readFixUp =>
      dsimp only at hstep
      split at hstep
      · cases hstep
        exact ⟨hsame rfl, id⟩
      · cases hstep
        exact ⟨ends_setOp (t := { s with promoted := s.promoted + 1, weak := s.weak + 1 }) hop
          rfl rfl le_rfl, id⟩
  | fixUp curCount =>
      dsimp only at hstep
      split at hstep
      · cases hstep
        exact ⟨ends_setOp (t := { s with
          mStrong := s.mStrong - initialStrongValue
          promoted := s.promoted + 1
          weak := s.weak + 1 }) hop rfl rfl le_rfl, id⟩
      · cases hstep
        exact ⟨hsame rfl, id⟩
  | giveUp =>
      cases hstep
      obtain ⟨hends, hever⟩ := ends_atomicDecWeak hop rfl 1
      exact ⟨hends, hever.trans⟩

theorem ends_start {s s' : RefSystem} {by' : Reference} (h : s.take by' = some s')
    (op : RefOp) : s.ends ≤ (s'.start op).ends ∧ (s.ever = true → (s'.start op).ever = true) := by
  obtain ⟨-, -, f3, -, f5, -, f7, -⟩ := take_fields h
  have hamount := amount_start s' op .deleting
  have hsame : s'.amount .deleting = s.amount .deleting := by
    rw [amount, amount, f7]
    rfl
  refine ⟨?_, fun hever => f3.trans hever⟩
  show s.deleted + _ ≤ s'.deleted + _
  omega

theorem ends_step {s s' : RefSystem} {a : Action} (hstep : step s a = some s') :
    s.ends ≤ s'.ends ∧ (s.ever = true → s'.ever = true) := by
  cases a with
  | incWeak by' =>
      obtain ⟨t, htake, rfl⟩ := Option.map_eq_some_iff.mp hstep
      exact ends_start htake _
  | incStrong by' =>
      obtain ⟨-, hrest⟩ := Option.ite_none_left_eq_some.mp hstep
      obtain ⟨t, htake, rfl⟩ := Option.map_eq_some_iff.mp hrest
      exact ends_start htake _
  | decStrong p =>
      obtain ⟨-, hrest⟩ := Option.ite_none_left_eq_some.mp hstep
      obtain ⟨t, htake, rfl⟩ := Option.map_eq_some_iff.mp hrest
      exact ends_start htake _
  | decWeak =>
      obtain ⟨t, htake, rfl⟩ := Option.map_eq_some_iff.mp hstep
      exact ends_start htake _
  | attemptIncStrong =>
      obtain ⟨t, htake, rfl⟩ := Option.map_eq_some_iff.mp hstep
      exact ends_start htake _
  | leave =>
      obtain ⟨-, ⟨⟩⟩ := Option.ite_none_right_eq_some.mp hstep
      exact ⟨le_rfl, id⟩
  | proceed i =>
      obtain ⟨op, hop, hstepOp⟩ := Option.bind_eq_some_iff.mp hstep
      exact ends_stepOp hop hstepOp

/-! ## Exact counting -/

/-- No operation is in progress. -/
def Quiet (s : RefSystem) : Prop := ∀ op ∈ s.ops, op = .finished

/-- The next operation in place `i` is a call of `onLastStrongRef`. -/
def callsOnLastStrongRef (s : RefSystem) (i : Nat) : Prop :=
  s.ops[i]? = some .lastStrongRef ∨ s.ops[i]? = some .unneededRef

/-- The last strong reference is gone. -/
def Gone (s : RefSystem) : Prop := s.ever = true ∧ s.strongRefs = 0

structure Exact (s : RefSystem) : Prop where
  strong : s.Quiet → s.mStrong.toInt =
    if s.ever then ((s.promoted + s.strong : Nat) : Int) else initialStrongValue.toInt
  weak : s.Quiet → s.mWeak.toInt = ((s.promoted + s.strong + s.weak : Nat) : Int)
  once : s.deleted ≤ 1
  spared : 0 < s.strongRefs → s.deleted = 0
  dead : s.Quiet → s.ever = true → s.promoted + s.strong = 0 → s.deleted = 1
  unborn : s.Quiet → s.ever = false → s.deleted = s.givenUp.toNat
  refused : s.Gone → ∀ i, s.attemptReturns i ≠ some true
  stays : s.Gone → ∀ a s', s.Proper a → step s a = some s' → s'.Gone
  last : ∀ i, s.callsOnLastStrongRef i → s.strongRefs = 0

/-- A call that returns true has had a share in the repair of the count. -/
theorem fixUp_of_attemptReturns {s : RefSystem} {i : Nat}
    (h : s.attemptReturns i = some true) :
    ∃ op, s.ops[i]? = some op ∧ op.share .fixUp = 1 := by
  unfold attemptReturns at h
  cases hop : s.ops[i]? with
  | none =>
      rw [hop] at h
      cases h
  | some op =>
      rw [hop] at h
      cases op with
      | readFixUp => exact ⟨_, rfl, rfl⟩
      | fixUp curCount => exact ⟨_, rfl, rfl⟩
      | _ => cases h

theorem amount_of_quiet {s : RefSystem} (h : s.Quiet) (k : Share) : s.amount k = s.stock k := by
  have hzero : (s.ops.map (RefOp.share k)).sum = 0 := by
    refine List.sum_eq_zero fun n hn => ?_
    obtain ⟨op, hop, rfl⟩ := List.mem_map.mp hn
    rw [h op hop]
    rfl
  rw [amount, hzero, Nat.add_zero]

theorem Inv.exact {s : RefSystem} (h : s.Inv) : s.Exact := by
  have hquiet : s.Quiet → s.strongRefs = s.promoted + s.strong ∧ s.amount .fixUp = 0 ∧
      s.amount .dropInitial = 0 ∧ s.amount .deleting = 0 ∧ s.amount .freeing = 0 ∧
      s.amount .weak = s.weak := by
    intro hq
    have hk := amount_of_quiet hq
    refine ⟨?_, hk _, hk _, hk _, hk _, hk _⟩
    rw [strongRefs, hk, hk, hk, hk]
    rfl
  -- from here on every field is a linear fact about the books
  have hkept := h.books.kept
  have hdeleted := h.books.deleted
  have hunborn := h.books.unborn
  exact {
    strong := fun hq => by
      obtain ⟨hS, hfix, hdrop, -⟩ := hquiet hq
      cases hever : s.ever with
      | false =>
          rw [if_neg (by decide), toInt_initial]
          exact (h.books.never hever).2
      | true =>
          have hcases := h.books.strong
          have hfixing := h.books.fixing hever
          rw [if_pos rfl]
          omega
    weak := fun hq => by
      obtain ⟨hS, -, -, -, -, hW⟩ := hquiet hq
      have hweak := h.books.weak
      have hrefs := refs_eq s
      omega
    once := by
      cases hever : s.ever with
      | false =>
          have hle := Bool.toNat_le s.givenUp
          have hnone := hunborn hever
          omega
      | true =>
          rcases Nat.eq_zero_or_pos s.strongRefs with hnone | hpos
          · have hone := hdeleted hever hnone
            omega
          · have hzero := hkept hever hpos
            omega
    spared := fun hpos => by
      cases hever : s.ever with
      | false =>
          have hnone := (h.books.never hever).1
          omega
      | true =>
          have hzero := hkept hever hpos
          omega
    dead := fun hq hever hnone => by
      obtain ⟨hS, -, -, hdel, -⟩ := hquiet hq
      have hone := hdeleted hever (hS.trans hnone)
      omega
    unborn := fun hq hever => by
      obtain ⟨-, -, -, -, hfree, -⟩ := hquiet hq
      have hnone := (hunborn hever).1
      omega
    refused := fun hgone i hret => by
      have hnone := hgone.2
      have heq := strongRefs_eq s
      have huse : ∀ op, s.ops[i]? = some op → op.share .fixUp = 0 := by
        intro op hop
        have hle := share_le_amount hop .fixUp
        omega
      obtain ⟨op, hop, hone⟩ := fixUp_of_attemptReturns hret
      have hzero := huse op hop
      omega
    stays := fun hgone a s' hguard hstep => by
      obtain ⟨hends, hever⟩ := ends_step hstep
      have hever' := hever hgone.1
      refine ⟨hever', ?_⟩
      rw [(inv_step h hguard hstep).books.ends_eq hever']
      exact lt_of_lt_of_le ((h.books.ends_eq hgone.1).mp hgone.2) hends
    last := fun i hcall => by
      rcases hcall with hop | hop
      · have hle := share_le_amount hop .deleting
        have hone : RefOp.lastStrongRef.share .deleting = 1 := rfl
        cases hever : s.ever with
        | false => exact (h.books.never hever).1
        | true =>
            by_contra hne
            have hzero := hkept hever (Nat.pos_of_ne_zero hne)
            omega
      · have hle := share_le_amount hop .unneeded
        rw [h.books.unneeded] at hle
        exact absurd hle (by decide) }

/-- Reference counting is exact along the proper runs. -/
theorem exact_of_proper {s : RefSystem} (h : machine.ReachWhen Proper s) : s.Exact :=
  (inv_of_reach h).exact

/-- A sufficient test of `Proper` for runs with few references. -/
def properTest (s : RefSystem) : Action → Bool
  | .proceed i =>
      decide (s.strongRefs < 1000) && decide (s.mWeak < 1000) &&
        match s.ops[i]? with
        | some (.fixUp _) => decide (s.amount .dropInitial = 0)
        | some (.exchangeFirst curCount) => decide (initialStrongValue ≤ curCount)
        | some (.incWeak _) => !s.givenUp
        | some (.incStrongWeak _) => !s.givenUp
        | _ => true
  | _ => true

theorem dropInitial_notMem {s : RefSystem} (h : s.amount .dropInitial = 0) (by' : Reference) :
    RefOp.dropInitial by' ∉ s.ops := by
  intro hmem
  obtain ⟨i, hop⟩ := List.mem_iff_getElem?.mp hmem
  have hle := share_le_amount hop .dropInitial
  have hshare : (RefOp.dropInitial by').share .dropInitial = by'.share .dropInitial + 1 := rfl
  omega

theorem properTest_sound (s : RefSystem) (a : Action) (h : properTest s a = true) :
    s.Proper a := by
  cases a with
  | proceed i =>
      intro op hop
      unfold properTest at h
      dsimp only at h
      rw [hop, Bool.and_eq_true, Bool.and_eq_true] at h
      obtain ⟨⟨hsmall, hweak⟩, hrest⟩ := h
      have hsmall' := of_decide_eq_true hsmall
      have hweak' := Int32.lt_iff_toInt_lt.mp (of_decide_eq_true hweak)
      have hlimit : (1000 : Int32).toInt = 1000 := rfl
      refine ⟨fun _ => by omega, fun _ => by omega, ?_, ?_, ?_⟩
      · rintro curCount rfl -
        exact dropInitial_notMem (of_decide_eq_true hrest)
      · rintro curCount rfl -
        exact of_decide_eq_true hrest
      · rintro by' (rfl | rfl) ⟨-, hup⟩
        · exact absurd (hup.symm.trans ((Bool.not_eq_true' _).mp hrest)) Bool.noConfusion
        · exact absurd (hup.symm.trans ((Bool.not_eq_true' _).mp hrest)) Bool.noConfusion
  | _ => exact trivial

/-- The creator makes a weak reference and its first strong one, another thread promotes
the weak one, and both strong references are released. -/
def sharedObject : List Action :=
  [.incWeak .pointer, .proceed 0, .incStrong .pointer, .attemptIncStrong, .proceed 1,
    .proceed 2, .proceed 1, .proceed 2, .proceed 1, .proceed 2, .proceed 2, .proceed 2,
    .proceed 2, .decStrong true, .decStrong false, .proceed 3, .proceed 4,
    .proceed 3, .proceed 4, .proceed 4, .proceed 4, .decWeak, .proceed 5, .proceed 5]

theorem sharedObject_exact :
    ((machine.runWhen properTest initial sharedObject).get (by decide)).Exact :=
  exact_of_proper (Machine.reachWhen_of_runWhen properTest_sound _ (.init rfl)
    (Option.some_get _).symm)

/-- `attemptIncStrong` takes out the initial value between the two atomic operations of the
first `incStrong`, which takes it out again. -/
def removedTwice : List Action :=
  [.incWeak .pointer, .proceed 0, .incStrong .pointer, .proceed 1, .proceed 1,
    .attemptIncStrong, .proceed 2, .proceed 2, .proceed 2, .proceed 2, .proceed 2, .proceed 1]

/-- Two strong references are held, and the count is not two. -/
theorem count_off : ¬ ∀ s, machine.Reach s → s.Exact := by
  intro h
  have hexact := h ((machine.run initial removedTwice).get (by decide))
    (Machine.reach_of_run removedTwice rfl (Option.some_get _).symm)
  exact absurd (hexact.strong (by unfold Quiet; decide)) (by decide)

/-- `attemptIncStrong` reads the initial value, and the first `incStrong` runs before its
exchange. -/
def overtaken : List Action :=
  [.incWeak .pointer, .proceed 0, .attemptIncStrong, .proceed 1, .proceed 1,
    .incStrong .pointer, .proceed 2, .proceed 2, .proceed 2, .proceed 1, .proceed 1,
    .proceed 1]

/-- `onLastStrongRef` is called although two strong references are held. -/
theorem last_called_early : ¬ ∀ s, machine.Reach s → ∀ i, s.callsOnLastStrongRef i →
    s.strongRefs = 0 := by
  intro h
  have hnone := h ((machine.run initial overtaken).get (by decide))
    (Machine.reach_of_run overtaken rfl (Option.some_get _).symm) 1 (.inr (by decide))
  exact absurd hnone (by decide)

end RefSystem
end Binder
end AndroidLinux
