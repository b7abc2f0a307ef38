import AndroidLinux.Binder.HandleTable

/-!
# One proxy for a handle

A proxy that somebody refers to is the one in the entry of its handle, so two of them
never share a handle and every lookup returns the one there is.  A lookup makes a new
proxy only when the count of the old one is zero, which it stays: `attemptIncWeak` fails
exactly when the destructor is committed.
-/

namespace AndroidLinux
namespace Binder

open Lib

theorem update_eq_some {α β : Type*} [DecidableEq α] {f : α → Option β} {a b : α} {v q : β}
    (h : Function.update f a (some v) b = some q) :
    b = a ∧ q = v ∨ b ≠ a ∧ f b = some q := by
  by_cases heq : b = a
  · rw [heq, Function.update_self, Option.some.injEq] at h
    exact .inl ⟨heq, h.symm⟩
  · rw [Function.update_of_ne heq] at h
    exact .inr ⟨heq, h⟩

/-- The references of the running section to the proxy at `b`. -/
def Stage.references (b : Nat) : Stage → Nat
  | .attempted b' _ => if b' = b then 1 else 0
  | .taken b' _ => if b' = b then 2 else 0
  | _ => 0

/-- The proxy that a stage works on, with what it knows of it. -/
def Stage.proxy : Stage → Option (Nat × Nat)
  | .reading b refs => some (b, refs)
  | .trying b refs _ => some (b, refs)
  | .attempted b refs => some (b, refs)
  | .taken b refs => some (b, refs)
  | .creating => none

namespace HandleSystem

def references (s : HandleSystem) (b : Nat) : Nat :=
  (s.lookup.map fun l => l.stage.references b).getD 0

/-- What lookups rely on. -/
structure Consistent (s : HandleSystem) : Prop where
  designates : ∀ h b, s.binderAt h = some b →
    ∃ p, s.proxies b = some p ∧ p.mHandle = h ∧ p.life ≠ .expunged
  current : ∀ b p, s.proxies b = some p → 0 < p.held → s.binderAt p.mHandle = some b
  spared : ∀ b s', step s (.expungeHandle b) = some s' →
    ∀ h b', b' ≠ b → (s'.binderAt h = some b' ↔ s.binderAt h = some b')
  same : ∀ a h r, s.returns a = some (h, r) → ∀ b p, s.proxies b = some p → p.mHandle = h →
    0 < p.held → r = some b
  present : ∀ l x, s.lookup = some l → l.stage.proxy = some x →
    ∃ p, s.proxies x.1 = some p ∧ x.2 = x.1

/-- What a section knows at its stage. -/
structure Known (s : HandleSystem) (l : Lookup) : Prop where
  entry : l.handle < s.mHandleToObject.length
  proxy : ∀ x, l.stage.proxy = some x → s.binderAt l.handle = some x.1 ∧ x.2 = x.1
  counted : ∀ b refs n, l.stage = .trying b refs n → 0 < n
  none : l.stage = .creating →
    ∀ b p, s.proxies b = some p → p.mHandle = l.handle → p.mWeak = 0

structure Inv (s : HandleSystem) : Prop where
  refs : ∀ (h : Nat) (e : HandleEntry) (b : Nat), s.mHandleToObject[h]? = some e →
    e.binder = some b → e.refs = b
  designates : ∀ h b, s.binderAt h = some b →
    ∃ p, s.proxies b = some p ∧ p.mHandle = h ∧ p.life ≠ .expunged
  current : ∀ b p, s.proxies b = some p → p.life = .alive → s.binderAt p.mHandle = some b
  counts : ∀ b p, s.proxies b = some p → p.mWeak = p.held + s.references b
  alive : ∀ b p, s.proxies b = some p → (p.life = .alive ↔ 0 < p.mWeak)
  known : ∀ l, s.lookup = some l → s.Known l

theorem inv_initial : initial.Inv where
  refs h e b he := by simp [initial] at he
  designates h b hb := by simp [initial, binderAt] at hb
  current b p hp := nomatch hp
  counts b p hp := nomatch hp
  alive b p hp := nomatch hp
  known l hl := nomatch hl

/-! ## Consequences -/

theorem Inv.held_le {s : HandleSystem} (h : s.Inv) {b : Nat} {p : Proxy}
    (hp : s.proxies b = some p) : p.held ≤ p.mWeak := by
  have hcount := h.counts b p hp
  omega

theorem lookup_grown {table table' : List HandleEntry} {handle : Nat} {granted : Bool}
    (h : lookupHandleLocked table handle granted = some table') :
    handle < table'.length ∧ ∀ k : Nat, table'[k]? = table[k]? ∨
      table[k]? = none ∧ ∀ e, table'[k]? = some e → e.binder = none := by
  unfold lookupHandleLocked at h
  by_cases hle : table.length ≤ handle
  · rw [if_pos hle] at h
    obtain ⟨-, ⟨⟩⟩ := Option.ite_none_right_eq_some.mp h
    refine ⟨?_, fun k => ?_⟩
    · rw [List.length_append, List.length_replicate]
      omega
    · by_cases hk : k < table.length
      · exact .inl (List.getElem?_append_left hk)
      · refine .inr ⟨List.getElem?_eq_none (not_lt.mp hk), fun e he => ?_⟩
        rw [List.getElem?_append_right (not_lt.mp hk)] at he
        rw [List.eq_of_mem_replicate (List.mem_of_getElem? he)]
  · rw [if_neg hle, Option.some.injEq] at h
    subst h
    exact ⟨not_le.mp hle, fun k => .inl rfl⟩

theorem binder_of_grown {table table' : List HandleEntry} {handle : Nat} {granted : Bool}
    (h : lookupHandleLocked table handle granted = some table') (k : Nat) :
    table'[k]?.bind HandleEntry.binder = table[k]?.bind HandleEntry.binder := by
  rcases (lookup_grown h).2 k with hsame | ⟨hnone, hnew⟩
  · rw [hsame]
  · rw [hnone]
    cases hk : table'[k]? with
    | none => rfl
    | some e => exact hnew e hk

/-- The table has room for a handle that it designates a proxy for. -/
theorem lookup_of_designated {s : HandleSystem} {handle b : Nat} (granted : Bool)
    (h : s.binderAt handle = some b) :
    lookupHandleLocked s.mHandleToObject handle granted = some s.mHandleToObject := by
  unfold lookupHandleLocked
  refine if_neg fun hle => ?_
  rw [binderAt, List.getElem?_eq_none hle] at h
  cases h

theorem binderAt_expungeHandle (s : HandleSystem) (handle b k : Nat) :
    (s.expungeHandle handle b).binderAt k =
      if handle = k ∧ s.binderAt k = some b then none else s.binderAt k := by
  unfold binderAt expungeHandle
  dsimp only
  rw [List.getElem?_modify]
  cases s.mHandleToObject[k]? with
  | none => simp
  | some e =>
      by_cases hk : handle = k
      · by_cases hb : e.binder = some b <;> simp [hk, hb]
      · simp [hk]

theorem Inv.consistent {s : HandleSystem} (h : s.Inv) : s.Consistent where
  designates := h.designates
  current b p hp hheld :=
    h.current b p hp ((h.alive b p hp).mpr (lt_of_lt_of_le hheld (h.held_le hp)))
  spared b s' hstep k b' hne := by
    obtain ⟨p, hp, hif⟩ := Option.bind_eq_some_iff.mp hstep
    obtain ⟨-, ⟨⟩⟩ := Option.ite_none_right_eq_some.mp hif
    show (s.expungeHandle p.mHandle b).binderAt k = some b' ↔ _
    rw [binderAt_expungeHandle]
    by_cases hk : p.mHandle = k ∧ s.binderAt k = some b
    · rw [if_pos hk, hk.2]
      simp [Ne.symm hne]
    · rw [if_neg hk]
  same a k r hret b p hp hk hheld := by
    have hpos := lt_of_lt_of_le hheld (h.held_le hp)
    have hb := h.current b p hp ((h.alive b p hp).mpr hpos)
    rw [hk] at hb
    cases a with
    | getProxyForHandle handle strong granted =>
        obtain ⟨⟨-, hfull⟩, heq⟩ := Option.ite_none_right_eq_some.mp hret
        cases heq
        rw [lookup_of_designated granted hb] at hfull
        cases hfull
    | «section» c =>
        obtain ⟨l, hl, hstage⟩ := Option.bind_eq_some_iff.mp hret
        have hknown := h.known l hl
        cases hs : l.stage with
        | taken b' refs =>
            -- the lookup returns what its entry still names
            rw [hs] at hstage
            cases hstage
            have hentry := (hknown.proxy (b', refs) (by rw [hs]; rfl)).1
            rw [hb] at hentry
            exact hentry.symm
        | creating =>
            rw [hs] at hstage
            cases hstage
            have hzero := hknown.none hs b p hp hk
            omega
        | reading b' refs =>
            rw [hs] at hstage
            cases hstage
        | trying b' refs n =>
            rw [hs] at hstage
            cases hstage
        | attempted b' refs =>
            rw [hs] at hstage
            cases hstage
    | incWeak b' => cases hret
    | decWeak b' => cases hret
    | expungeHandle b' => cases hret
    | free b' => cases hret
  present l x hl hx := by
    obtain ⟨hentry, heq⟩ := (h.known l hl).proxy x hx
    obtain ⟨p, hp, -⟩ := h.designates _ _ hentry
    exact ⟨p, hp, heq⟩

/-! ## Changes of one proxy -/

theorem Known.change {s s' : HandleSystem} {l : Lookup} (h : s.Known l)
    (htable : s'.mHandleToObject = s.mHandleToObject)
    (hzero : ∀ b p', s'.proxies b = some p' →
      ∃ p, s.proxies b = some p ∧ p.mHandle = p'.mHandle ∧ (p.mWeak = 0 → p'.mWeak = 0)) :
    s'.Known l where
  entry := by
    rw [htable]
    exact h.entry
  proxy x hx := by
    rw [binderAt, htable]
    exact h.proxy x hx
  counted := h.counted
  none hs b p' hp' hk := by
    obtain ⟨p, hp, hhandle, hzero'⟩ := hzero b p' hp'
    exact hzero' (h.none hs b p hp (hhandle.trans hk))

/-- A proxy changes its counts, and the section its stage. -/
theorem Inv.change {s : HandleSystem} (h : s.Inv) {b : Nat} {p p' : Proxy}
    (hp : s.proxies b = some p) (lookup' : Option Lookup) (hhandle : p'.mHandle = p.mHandle)
    (hlife : p.life ≠ .expunged → p'.life ≠ .expunged)
    (halive : p'.life = .alive → p.life = .alive) (hlive : p'.life = .alive ↔ 0 < p'.mWeak)
    (hcount : p'.mWeak = p'.held + HandleSystem.references { s with lookup := lookup' } b)
    (hothers : ∀ b', b' ≠ b →
      HandleSystem.references { s with lookup := lookup' } b' = s.references b')
    (hknown : ∀ l, lookup' = some l →
      Known { s.setProxy b (some p') with lookup := lookup' } l) :
    Inv { s.setProxy b (some p') with lookup := lookup' } := by
  exact {
    refs := h.refs
    designates := fun k b' hb' => by
      obtain ⟨q, hq, hk, hne⟩ := h.designates k b' hb'
      show ∃ q', Function.update s.proxies b (some p') b' = some q' ∧ _
      by_cases heq : b' = b
      · subst heq
        rw [hp, Option.some.injEq] at hq
        subst hq
        exact ⟨p', Function.update_self .., hhandle.trans hk, hlife hne⟩
      · exact ⟨q, (Function.update_of_ne heq ..).trans hq, hk, hne⟩
    current := fun b' q' hq' hq'life => by
      rcases update_eq_some hq' with ⟨rfl, rfl⟩ | ⟨-, hq⟩
      · rw [hhandle]
        exact h.current b' p hp (halive hq'life)
      · exact h.current b' q' hq hq'life
    counts := fun b' q' hq' => by
      show q'.mWeak = q'.held + HandleSystem.references { s with lookup := lookup' } b'
      rcases update_eq_some hq' with ⟨rfl, rfl⟩ | ⟨hne, hq⟩
      · exact hcount
      · rw [hothers b' hne]
        exact h.counts b' q' hq
    alive := fun b' q' hq' => by
      rcases update_eq_some hq' with ⟨rfl, rfl⟩ | ⟨-, hq⟩
      · exact hlive
      · exact h.alive b' q' hq
    known := hknown }

theorem references_stage {s : HandleSystem} {l : Lookup} (hl : s.lookup = some l) (b : Nat) :
    s.references b = l.stage.references b := by
  rw [references, hl]
  rfl

theorem Inv.mWeak_pos {s : HandleSystem} (h : s.Inv) {b : Nat} {p : Proxy}
    (hp : s.proxies b = some p) (hpos : 0 < p.held + s.references b) : p.life = .alive := by
  have hcount := h.counts b p hp
  exact (h.alive b p hp).mpr (by omega)

/-- A holder counts up. -/
theorem Inv.incWeak {s : HandleSystem} (h : s.Inv) {b : Nat} {p : Proxy}
    (hp : s.proxies b = some p) (hheld : 0 < p.held) :
    (s.setProxy b (some { p with mWeak := p.mWeak + 1, held := p.held + 1 })).Inv := by
  have hlife := h.mWeak_pos hp (Nat.add_pos_left hheld _)
  have hcount := h.counts b p hp
  refine h.change hp s.lookup rfl (fun hne => hne) (fun hlife => hlife)
    ⟨fun _ => Nat.succ_pos _, fun _ => hlife⟩ ?_ (fun _ _ => rfl) fun l hl => ?_
  · show p.mWeak + 1 = p.held + 1 + s.references b
    omega
  · refine (h.known l hl).change rfl fun b' q' hq' => ?_
    have hq'' : Function.update s.proxies b _ b' = some q' := hq'
    rcases update_eq_some hq'' with ⟨rfl, rfl⟩ | ⟨-, hsame⟩
    · exact ⟨p, hp, rfl, fun hzero => by omega⟩
    · exact ⟨q', hsame, rfl, fun hzero => hzero⟩

/-- A holder counts down; the last one commits the destructor. -/
theorem Inv.decWeak {s : HandleSystem} (h : s.Inv) {b : Nat} {p : Proxy}
    (hp : s.proxies b = some p) (hheld : 0 < p.held) :
    (s.setProxy b (some { p with
      mWeak := p.mWeak - 1
      held := p.held - 1
      life := if p.mWeak = 1 then .dying else p.life })).Inv := by
  have hlife := h.mWeak_pos hp (Nat.add_pos_left hheld _)
  have hcount := h.counts b p hp
  refine h.change hp s.lookup rfl (fun hne => ?_) (fun _ => hlife) ?_ ?_ (fun _ _ => rfl)
    fun l hl => ?_
  · dsimp only
    split
    · exact fun hdead => nomatch hdead
    · exact hne
  · dsimp only
    by_cases hone : p.mWeak = 1
    · rw [if_pos hone, hone]
      exact ⟨fun hdead => (nomatch hdead), fun hpos => absurd hpos (Nat.lt_irrefl 0)⟩
    · rw [if_neg hone]
      exact ⟨fun _ => by omega, fun _ => hlife⟩
  · show p.mWeak - 1 = p.held - 1 + s.references b
    omega
  · refine (h.known l hl).change rfl fun b' q' hq' => ?_
    have hq'' : Function.update s.proxies b _ b' = some q' := hq'
    rcases update_eq_some hq'' with ⟨rfl, rfl⟩ | ⟨-, hsame⟩
    · exact ⟨p, hp, rfl, fun hzero => by omega⟩
    · exact ⟨q', hsame, rfl, fun hzero => hzero⟩

/-! ## The steps of a section -/

/-- A stage without references after one without references. -/
theorem Inv.setStage {s : HandleSystem} (h : s.Inv) {l : Lookup} {stage : Stage}
    (hsame : ∀ b, stage.references b = s.references b)
    (hknown : Known (s.setStage l stage) { l with stage := stage }) :
    (s.setStage l stage).Inv where
  refs := h.refs
  designates := h.designates
  current := h.current
  counts b p hp := by
    show p.mWeak = p.held + stage.references b
    rw [hsame]
    exact h.counts b p hp
  alive := h.alive
  known l' hl' := by
    cases hl'
    exact hknown

theorem Inv.readCount {s s' : HandleSystem} (h : s.Inv) {l : Lookup} (hl : s.lookup = some l)
    {b refs : Nat} (hs : l.stage = .reading b refs) (hstep : s.readCount l b refs = some s') :
    s'.Inv := by
  obtain ⟨p, hp, ⟨⟩⟩ := Option.map_eq_some_iff.mp hstep
  have hknown := h.known l hl
  obtain ⟨hentry, heq⟩ := hknown.proxy (b, refs) (by rw [hs]; rfl)
  have hnone : ∀ k, s.references k = 0 := fun k => by
    rw [references_stage hl, hs]
    rfl
  by_cases hpos : 0 < p.mWeak
  · rw [if_pos hpos]
    refine h.setStage (fun k => (hnone k).symm) {
      entry := hknown.entry
      proxy := fun x hx => by
        cases hx
        exact ⟨hentry, heq⟩
      counted := fun b' refs' n hn => by
        cases hn
        exact hpos
      none := fun hc => nomatch hc }
  · rw [if_neg hpos]
    -- The proxy of the entry is dying, and no other one of the handle is alive.
    refine h.setStage (fun k => (hnone k).symm) {
      entry := hknown.entry
      proxy := fun x hx => nomatch hx
      counted := fun b' refs' n hn => nomatch hn
      none := fun _ b' q hq hk => ?_ }
    by_contra hne
    have halive := (h.alive b' q hq).mpr (Nat.pos_of_ne_zero hne)
    have hb' := h.current b' q hq halive
    have hk' : q.mHandle = l.handle := hk
    rw [hk', hentry, Option.some.injEq] at hb'
    have hsame : refs = b' := heq.trans hb'
    rw [hsame, show s.proxies b' = some q from hq, Option.some.injEq] at hp
    rw [← hp] at hpos
    exact hne (Nat.eq_zero_of_not_pos hpos)

theorem Inv.cmpxchg {s s' : HandleSystem} (h : s.Inv) {l : Lookup} (hl : s.lookup = some l)
    {b refs n : Nat} (hs : l.stage = .trying b refs n) (hstep : s.cmpxchg l b refs n = some s') :
    s'.Inv := by
  obtain ⟨p, hp, ⟨⟩⟩ := Option.map_eq_some_iff.mp hstep
  have hknown := h.known l hl
  obtain ⟨hentry, heq⟩ := hknown.proxy (b, refs) (by rw [hs]; rfl)
  have heq' : refs = b := heq
  subst heq'
  have hnone : ∀ k, s.references k = 0 := fun k => by
    rw [references_stage hl, hs]
    rfl
  by_cases hsame : p.mWeak = n
  · rw [if_pos hsame]
    have hpos : 0 < p.mWeak := hsame ▸ hknown.counted refs refs n hs
    have hlife := (h.alive refs p hp).mpr hpos
    refine h.change hp (some { l with stage := .attempted refs refs }) rfl (fun hne => hne)
      (fun hlife => hlife) ⟨fun _ => Nat.succ_pos _, fun _ => hlife⟩ ?_ (fun b' hne => ?_)
      fun l' hl' => ?_
    · have hcount := h.counts refs p hp
      have hzero := hnone refs
      show p.mWeak + 1 = p.held + (if refs = refs then 1 else 0)
      rw [if_pos rfl]
      omega
    · show (if refs = b' then 1 else 0) = _
      rw [if_neg (Ne.symm hne), hnone]
    · cases hl'
      exact {
        entry := hknown.entry
        proxy := fun x hx => by
          cases hx
          exact ⟨hentry, rfl⟩
        counted := fun b' refs' n' hn => nomatch hn
        none := fun hc => nomatch hc }
  · rw [if_neg hsame]
    exact h.setStage (fun k => (hnone k).symm) {
      entry := hknown.entry
      proxy := fun x hx => by
        cases hx
        exact ⟨hentry, rfl⟩
      counted := fun b' refs' n' hn => nomatch hn
      none := fun hc => nomatch hc }

theorem Inv.takeResult {s s' : HandleSystem} (h : s.Inv) {l : Lookup} (hl : s.lookup = some l)
    {b refs : Nat} (hs : l.stage = .attempted b refs)
    (hstep : s.takeResult l b refs = some s') : s'.Inv := by
  obtain ⟨p, hp, ⟨⟩⟩ := Option.map_eq_some_iff.mp hstep
  have hknown := h.known l hl
  obtain ⟨hentry, heq⟩ := hknown.proxy (b, refs) (by rw [hs]; rfl)
  have href : ∀ k, s.references k = if b = k then 1 else 0 := fun k => by
    rw [references_stage hl, hs]
    rfl
  have hcount := h.counts b p hp
  rw [href, if_pos rfl] at hcount
  have hlife : p.life = .alive := (h.alive b p hp).mpr (by omega)
  refine h.change hp (some { l with stage := .taken b refs }) rfl (fun hne => hne)
    (fun hlife => hlife) ⟨fun _ => Nat.succ_pos _, fun _ => hlife⟩ ?_ (fun b' hne => ?_)
    fun l' hl' => ?_
  · show p.mWeak + 1 = p.held + (if b = b then 2 else 0)
    rw [if_pos rfl]
    omega
  · show (if b = b' then 2 else 0) = _
    rw [href, if_neg (Ne.symm hne), if_neg (Ne.symm hne)]
  · cases hl'
    exact {
      entry := hknown.entry
      proxy := fun x hx => by
        cases hx
        exact ⟨hentry, heq⟩
      counted := fun b' refs' n' hn => nomatch hn
      none := fun hc => nomatch hc }

theorem Inv.returnResult {s s' : HandleSystem} (h : s.Inv) {l : Lookup} (hl : s.lookup = some l)
    {b refs : Nat} (hs : l.stage = .taken b refs) (hstep : s.returnResult refs = some s') :
    s'.Inv := by
  obtain ⟨p, hp, ⟨⟩⟩ := Option.map_eq_some_iff.mp hstep
  obtain ⟨-, heq⟩ := (h.known l hl).proxy (b, refs) (by rw [hs]; rfl)
  have heq' : refs = b := heq
  subst heq'
  have href : ∀ k, s.references k = if refs = k then 2 else 0 := fun k => by
    rw [references_stage hl, hs]
    rfl
  have hcount := h.counts refs p hp
  rw [href, if_pos rfl] at hcount
  have hlife : p.life = .alive := (h.alive refs p hp).mpr (by omega)
  refine h.change hp none rfl (fun hne => hne) (fun hlife => hlife) ⟨fun _ => ?_, fun _ => hlife⟩
    ?_ (fun b' hne => ?_) fun l' hl' => (nomatch hl')
  · show 0 < p.mWeak - 1
    omega
  · show p.mWeak - 1 = p.held + 1 + 0
    omega
  · show 0 = _
    rw [href, if_neg (Ne.symm hne)]

/-- The section is left. -/
theorem Inv.leave {s : HandleSystem} (h : s.Inv) (hnone : ∀ k, s.references k = 0) :
    Inv { s with lookup := none } where
  refs := h.refs
  designates := h.designates
  current := h.current
  counts b p hp := by
    show p.mWeak = p.held + 0
    rw [← hnone b]
    exact h.counts b p hp
  alive := h.alive
  known l hl := nomatch hl

theorem getElem?_modify_ne {table : List HandleEntry} {h k : Nat} (f : HandleEntry → HandleEntry)
    (hne : h ≠ k) : (table.modify h f)[k]? = table[k]? := by
  rw [List.getElem?_modify]
  simp only [if_neg hne]
  cases table[k]? <;> rfl

/-- An entry is cleared: that of a handle without proxies in use. -/
theorem Inv.clearEntry {s : HandleSystem} (h : s.Inv) {handle : Nat}
    (f : HandleEntry → HandleEntry)
    (hf : ∀ e, f e = e ∨ f e = { e with binder := none })
    (hunused : ∀ b p, s.proxies b = some p → p.life = .alive → p.mHandle = handle →
      ∀ e, s.mHandleToObject[handle]? = some e → f e = e)
    (hlookup : s.lookup = none) :
    Inv { s with mHandleToObject := s.mHandleToObject.modify handle f } where
  refs k e b he hb := by
    dsimp only at he
    rw [List.getElem?_modify] at he
    obtain ⟨e₀, he₀, heq⟩ := Option.map_eq_some_iff.mp he
    by_cases hk : handle = k
    · rw [if_pos hk] at heq
      -- an entry that still names a proxy has not been cleared
      rcases hf e₀ with hsame | hclear
      · rw [hsame] at heq
        exact h.refs k e b (heq ▸ he₀) hb
      · rw [hclear] at heq
        rw [← heq] at hb
        cases hb
    · rw [if_neg hk] at heq
      exact h.refs k e b (he₀.trans (congrArg some heq)) hb
  designates k b hb := by
    refine h.designates k b ?_
    obtain ⟨e, he, hbinder⟩ := Option.bind_eq_some_iff.mp hb
    dsimp only at he
    rw [List.getElem?_modify] at he
    obtain ⟨e₀, he₀, heq⟩ := Option.map_eq_some_iff.mp he
    rw [binderAt, he₀, Option.bind_some, ← hbinder, ← heq]
    by_cases hk : handle = k
    · rw [if_pos hk] at heq ⊢
      rcases hf e₀ with hsame | hclear
      · rw [hsame]
      · rw [hclear] at heq
        rw [← heq] at hbinder
        cases hbinder
    · rw [if_neg hk]
  current b p hp hlife := by
    have hb := h.current b p hp hlife
    rw [binderAt]
    dsimp only
    by_cases hk : handle = p.mHandle
    · obtain ⟨e, he, hbinder⟩ := Option.bind_eq_some_iff.mp hb
      rw [List.getElem?_modify, he, Option.map_eq_map, Option.map_some, if_pos hk,
        hunused b p hp hlife hk.symm e (hk ▸ he)]
      exact hbinder
    · rw [getElem?_modify_ne f hk]
      exact hb
  counts := h.counts
  alive := h.alive
  known l hl := by
    rw [hlookup] at hl
    cases hl

theorem Inv.create {s s' : HandleSystem} (h : s.Inv) {l : Lookup} (hl : s.lookup = some l)
    (hs : l.stage = .creating) {c : Creation} (hstep : s.create l c = some s') : s'.Inv := by
  have hknown := h.known l hl
  have hzero : ∀ k, s.references k = 0 := fun k => by
    rw [references_stage hl, hs]
    rfl
  -- a proxy of the handle would be alive only with a count, and it has none
  have hunused : ∀ b p, s.proxies b = some p → p.life = .alive → p.mHandle ≠ l.handle := by
    intro b p hp hlife hk
    have hpos := (h.alive b p hp).mp hlife
    rw [hknown.none hs b p hp hk] at hpos
    exact Nat.lt_irrefl 0 hpos
  unfold HandleSystem.create at hstep
  by_cases hdead : l.strong ∧ l.handle = 0 ∧ c.dead
  · rw [if_pos hdead] at hstep
    cases hstep
    exact h.leave hzero
  rw [if_neg hdead] at hstep
  cases hb : c.address with
  | none =>
      rw [hb] at hstep
      cases hstep
      exact (h.leave hzero).clearEntry _ (fun e => .inr rfl)
        (fun b p hp hlife hk => absurd hk (hunused b p hp hlife)) rfl
  | some b =>
      rw [hb] at hstep
      obtain ⟨hfree, ⟨⟩⟩ := Option.ite_none_right_eq_some.mp hstep
      -- the new proxy goes to the entry of its handle
      have hset : ∀ k, (s.mHandleToObject.set l.handle ⟨some b, b⟩)[k]? =
          if l.handle = k then some ⟨some b, b⟩ else s.mHandleToObject[k]? := by
        intro k
        rw [List.getElem?_set]
        by_cases hk : l.handle = k
        · rw [if_pos hk, if_pos hk, if_pos (hk ▸ hknown.entry)]
        · rw [if_neg hk, if_neg hk]
      -- its address is that of no proxy in the table
      have hne : ∀ k b', s.binderAt k = some b' → b' ≠ b := by
        rintro k b' hb' rfl
        obtain ⟨p, hp, -⟩ := h.designates k b' hb'
        rw [hfree] at hp
        cases hp
      exact {
        refs := fun k e b' he hb' => by
          have he' := (hset k).symm.trans he
          by_cases hk : l.handle = k
          · rw [if_pos hk, Option.some.injEq] at he'
            rw [← he'] at hb' ⊢
            exact Option.some.inj hb'
          · rw [if_neg hk] at he'
            exact h.refs k e b' he' hb'
        designates := fun k b' hb' => by
          have hb'' : ((s.mHandleToObject.set l.handle ⟨some b, b⟩)[k]?).bind
              HandleEntry.binder = some b' := hb'
          rw [hset] at hb''
          show ∃ q, Function.update s.proxies b _ b' = some q ∧ _
          by_cases hk : l.handle = k
          · rw [if_pos hk] at hb''
            cases hb''
            exact ⟨_, Function.update_self .., hk, fun hlife => nomatch hlife⟩
          · rw [if_neg hk] at hb''
            obtain ⟨q, hq, hrest⟩ := h.designates k b' hb''
            exact ⟨q, (Function.update_of_ne (hne k b' hb'') ..).trans hq, hrest⟩
        current := fun b' q hq hlife => by
          show ((s.mHandleToObject.set l.handle ⟨some b, b⟩)[q.mHandle]?).bind
            HandleEntry.binder = some b'
          rw [hset]
          rcases update_eq_some hq with ⟨rfl, rfl⟩ | ⟨-, hq'⟩
          · rw [if_pos rfl]
            rfl
          · rw [if_neg (Ne.symm (hunused b' q hq' hlife))]
            exact h.current b' q hq' hlife
        counts := fun b' q hq => by
          rcases update_eq_some hq with ⟨rfl, rfl⟩ | ⟨-, hq'⟩
          · rfl
          · have hcount := h.counts b' q hq'
            rw [hzero] at hcount
            exact hcount
        alive := fun b' q hq => by
          rcases update_eq_some hq with ⟨rfl, rfl⟩ | ⟨-, hq'⟩
          · exact ⟨fun _ => Nat.one_pos, fun _ => rfl⟩
          · exact h.alive b' q hq'
        known := fun l' hl' => nomatch hl' }

theorem Inv.stepLookup {s s' : HandleSystem} (h : s.Inv) {l : Lookup} (hl : s.lookup = some l)
    {c : Creation} (hstep : s.stepLookup l c = some s') : s'.Inv := by
  unfold HandleSystem.stepLookup at hstep
  cases hs : l.stage with
  | reading b refs =>
      rw [hs] at hstep
      exact h.readCount hl hs hstep
  | trying b refs n =>
      rw [hs] at hstep
      exact h.cmpxchg hl hs hstep
  | attempted b refs =>
      rw [hs] at hstep
      exact h.takeResult hl hs hstep
  | taken b refs =>
      rw [hs] at hstep
      exact h.returnResult hl hs hstep
  | creating =>
      rw [hs] at hstep
      exact h.create hl hs hstep

theorem Inv.grown {s : HandleSystem} (h : s.Inv) (hfree : s.lookup = none)
    {handle : Nat} {granted : Bool} {table : List HandleEntry}
    (hgrown : lookupHandleLocked s.mHandleToObject handle granted = some table) :
    Inv { s with mHandleToObject := table } where
  refs k e b he hb := by
    rcases (lookup_grown hgrown).2 k with hsame | ⟨-, hnew⟩
    · exact h.refs k e b (hsame.symm.trans he) hb
    · rw [hnew e he] at hb
      cases hb
  designates k b hb := h.designates k b ((binder_of_grown hgrown k).symm.trans hb)
  current b p hp hlife := (binder_of_grown hgrown _).trans (h.current b p hp hlife)
  counts := h.counts
  alive := h.alive
  known l hl := by
    have hl' : s.lookup = some l := hl
    rw [hfree] at hl'
    cases hl'

/-- The section starts at a stage without references. -/
theorem Inv.enter {s : HandleSystem} (h : s.Inv) (hfree : s.lookup = none) (l : Lookup)
    (hzero : ∀ k, l.stage.references k = 0) (hknown : s.Known l) :
    Inv { s with lookup := some l } where
  refs := h.refs
  designates := h.designates
  current := h.current
  counts b p hp := by
    have hcount := h.counts b p hp
    rw [references, hfree] at hcount
    show p.mWeak = p.held + l.stage.references b
    rw [hzero]
    exact hcount
  alive := h.alive
  known l' hl' := by
    cases hl'
    exact hknown.change rfl fun b p hp => ⟨p, hp, rfl, fun hz => hz⟩

theorem Inv.beginLookup {s : HandleSystem} (h : s.Inv) (hfree : s.lookup = none)
    (handle : Nat) (strong granted : Bool) : (s.beginLookup handle strong granted).Inv := by
  unfold HandleSystem.beginLookup
  cases hgrown : lookupHandleLocked s.mHandleToObject handle granted with
  | none => exact h
  | some table =>
      have hinv := h.grown hfree hgrown
      have hlt := (lookup_grown hgrown).1
      have hunused : ∀ b p, s.proxies b = some p → p.mHandle = handle →
          (∀ b', table[handle]?.bind HandleEntry.binder ≠ some b') → p.mWeak = 0 := by
        intro b p hp hk hnone
        by_contra hne
        have hlife := (h.alive b p hp).mpr (Nat.pos_of_ne_zero hne)
        have hb := hinv.current b p hp hlife
        rw [hk] at hb
        exact hnone b hb
      dsimp only
      split
      · rename_i b refs he
        have hb : table[handle]?.bind HandleEntry.binder = some b := by rw [he]; rfl
        exact hinv.enter hfree _ (fun _ => rfl) {
          entry := hlt
          proxy := fun x hx => by
            cases hx
            exact ⟨hb, hinv.refs handle _ b he rfl⟩
          counted := fun b' refs' n hn => nomatch hn
          none := fun hc => nomatch hc }
      · rename_i hother
        refine hinv.enter hfree _ (fun _ => rfl) {
          entry := hlt
          proxy := fun x hx => nomatch hx
          counted := fun b' refs' n hn => nomatch hn
          none := fun _ b p hp hk => hunused b p hp hk fun b' hb' => ?_ }
        obtain ⟨⟨binder, refs⟩, he, hbinder⟩ := Option.bind_eq_some_iff.mp hb'
        have hbinder' : binder = some b' := hbinder
        subst hbinder'
        exact hother b' refs he

/-! ## The end of a proxy -/

theorem Inv.expunge {s : HandleSystem} (h : s.Inv) {b : Nat} {p : Proxy}
    (hp : s.proxies b = some p) (hlife : p.life = .dying) (hfree : s.lookup = none) :
    ((s.expungeHandle p.mHandle b).setProxy b (some { p with life := .expunged })).Inv := by
  have hcleared : (s.expungeHandle p.mHandle b).Inv := by
    refine h.clearEntry _ (fun e => ?_) (fun b' p' hp' hlife' hk e he => ?_) hfree
    · by_cases hb : e.binder = some b
      · exact .inr (if_pos hb)
      · exact .inl (if_neg hb)
    · have hb' := h.current b' p' hp' hlife'
      rw [hk, binderAt, he] at hb'
      refine if_neg fun hb => ?_
      rw [Option.bind_some, hb, Option.some.injEq] at hb'
      rw [← hb', hp, Option.some.injEq] at hp'
      rw [← hp', hlife] at hlife'
      cases hlife'
  -- no entry names the proxy any more
  have hgone : ∀ k, (s.expungeHandle p.mHandle b).binderAt k ≠ some b := by
    intro k hk
    obtain ⟨q, hq, hhandle, -⟩ := hcleared.designates k b hk
    have hqp : q = p := Option.some.inj (hq.symm.trans hp)
    rw [hqp] at hhandle
    rw [binderAt_expungeHandle] at hk
    split at hk
    · cases hk
    · rename_i hnot
      exact hnot ⟨hhandle, hk⟩
  exact {
    refs := hcleared.refs
    designates := fun k b' hb' => by
      obtain ⟨q, hq, hrest⟩ := hcleared.designates k b' hb'
      have hne : b' ≠ b := fun heq => hgone k (heq ▸ hb')
      exact ⟨q, (Function.update_of_ne hne _ s.proxies).trans hq, hrest⟩
    current := fun b' q hq hq' => by
      rcases update_eq_some hq with ⟨-, rfl⟩ | ⟨-, hsame⟩
      · cases hq'
      · exact hcleared.current b' q hsame hq'
    counts := fun b' q hq => by
      rcases update_eq_some hq with ⟨rfl, rfl⟩ | ⟨-, hsame⟩
      · exact h.counts b' p hp
      · exact h.counts b' q hsame
    alive := fun b' q hq => by
      rcases update_eq_some hq with ⟨rfl, rfl⟩ | ⟨-, hsame⟩
      · have hzero := (h.alive b' p hp).not.mp (by rw [hlife]; exact fun hdead => nomatch hdead)
        exact ⟨fun hdead => (nomatch hdead), fun hpos => absurd hpos hzero⟩
      · exact h.alive b' q hsame
    known := fun l hl => by
      have hl' : s.lookup = some l := hl
      rw [hfree] at hl'
      cases hl' }

theorem Inv.free {s : HandleSystem} (h : s.Inv) {b : Nat} {p : Proxy}
    (hp : s.proxies b = some p) (hlife : p.life = .expunged) : (s.setProxy b none).Inv := by
  have hother : ∀ b' q, Function.update s.proxies b none b' = some q →
      s.proxies b' = some q := by
    intro b' q hq
    by_cases heq : b' = b
    · rw [heq, Function.update_self] at hq
      cases hq
    · rwa [Function.update_of_ne heq] at hq
  exact {
    refs := h.refs
    designates := fun k b' hb' => by
      obtain ⟨q, hq, hk, hne⟩ := h.designates k b' hb'
      refine ⟨q, (Function.update_of_ne ?_ _ s.proxies).trans hq, hk, hne⟩
      rintro rfl
      rw [hp, Option.some.injEq] at hq
      exact hne (hq ▸ hlife)
    current := fun b' q hq => h.current b' q (hother b' q hq)
    counts := fun b' q hq => h.counts b' q (hother b' q hq)
    alive := fun b' q hq => h.alive b' q (hother b' q hq)
    known := fun l hl => (h.known l hl).change rfl fun b' q hq =>
      ⟨q, hother b' q hq, rfl, fun hzero => hzero⟩ }

theorem inv_step {s s' : HandleSystem} {a : Action} (h : s.Inv) (hstep : step s a = some s') :
    s'.Inv := by
  cases a with
  | getProxyForHandle handle strong granted =>
      obtain ⟨hfree, ⟨⟩⟩ := Option.ite_none_right_eq_some.mp hstep
      exact h.beginLookup hfree handle strong granted
  | «section» c =>
      obtain ⟨l, hl, hstage⟩ := Option.bind_eq_some_iff.mp hstep
      exact h.stepLookup hl hstage
  | incWeak b =>
      obtain ⟨p, hp, hif⟩ := Option.bind_eq_some_iff.mp hstep
      obtain ⟨hheld, ⟨⟩⟩ := Option.ite_none_right_eq_some.mp hif
      exact h.incWeak hp hheld
  | decWeak b =>
      obtain ⟨p, hp, hif⟩ := Option.bind_eq_some_iff.mp hstep
      obtain ⟨hheld, ⟨⟩⟩ := Option.ite_none_right_eq_some.mp hif
      exact h.decWeak hp hheld
  | expungeHandle b =>
      obtain ⟨p, hp, hif⟩ := Option.bind_eq_some_iff.mp hstep
      obtain ⟨⟨hlife, hfree⟩, ⟨⟩⟩ := Option.ite_none_right_eq_some.mp hif
      exact h.expunge hp hlife hfree
  | free b =>
      obtain ⟨p, hp, hif⟩ := Option.bind_eq_some_iff.mp hstep
      obtain ⟨hlife, ⟨⟩⟩ := Option.ite_none_right_eq_some.mp hif
      exact h.free hp hlife

/-- The handle table is right in every reachable state. -/
theorem consistent_of_reach {s : HandleSystem} (h : machine.Reach s) : s.Consistent := by
  have hinv : s.Inv := by
    refine Machine.ReachWhen.invariant (I := Inv) ?_ (fun s a s' hs _ hstep => ?_) h
    · rintro s rfl
      exact inv_initial
    · exact inv_step hs hstep
  exact hinv.consistent

/-- A proxy is released while a lookup reads its count, a second one takes its place, the
first one leaves the table alone, and a third lookup returns the second proxy. -/
def replacedProxy : List Action :=
  [.getProxyForHandle 3 true true, .section ⟨false, some 100⟩, .getProxyForHandle 3 false true,
    .section ⟨false, none⟩, .decWeak 100, .section ⟨false, none⟩, .section ⟨false, none⟩,
    .section ⟨false, some 200⟩, .expungeHandle 100, .free 100, .getProxyForHandle 3 true true,
    .section ⟨false, none⟩, .section ⟨false, none⟩, .section ⟨false, none⟩]

theorem replacedProxy_consistent :
    ((machine.run initial replacedProxy).get (by decide)).Consistent :=
  consistent_of_reach
    (Machine.reach_of_run replacedProxy rfl (Option.some_get _).symm)

end HandleSystem
end Binder
end AndroidLinux
