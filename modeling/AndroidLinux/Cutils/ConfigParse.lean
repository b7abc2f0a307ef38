import AndroidLinux.Cutils.ConfigLexer

/-!
# The values of a configuration

The parser is seen as a machine that goes through the lexemes with a mode and the depth of the
blocks.  It comes to the same values as the recursive functions.
-/

namespace AndroidLinux
namespace Cutils
namespace Config

/-- What may come next: a name of a block, a part of a name behind a dot, or what follows a
name. -/
inductive Mode
  | name
  | part
  | value

/-- One lexeme, and the value that begins there, with all the text behind it. -/
def advance : Mode → Nat → List UInt8 → Option (Option (List UInt8) × Mode × Nat × List UInt8)
  | .name, depth, text =>
      match lexeme text with
      | .text _ rest => some (none, .value, depth, afterName rest)
      | .cbrace rest =>
          match depth with
          | 0 => none
          | outer + 1 => some (none, .name, outer, rest)
      | _ => none
  | .part, depth, text =>
      match lexeme text with
      | .text _ rest => some (none, .value, depth, afterName rest)
      | _ => none
  | .value, depth, text =>
      match lexeme text with
      | .dot rest => some (none, .part, depth, rest)
      | .obrace rest => some (none, .name, depth + 1, rest)
      | .text first rest => some (some (first :: rest), .name, depth, afterLine rest)
      | _ => none

/-- The values that the machine comes to until it stops. -/
inductive Visits : Mode → Nat → List UInt8 → List (List UInt8) → Prop
  | stop {m : Mode} {depth : Nat} {text : List UInt8} (h : advance m depth text = none) :
      Visits m depth text []
  | step {m m' : Mode} {depth depth' : Nat} {text text' : List UInt8}
      {v : Option (List UInt8)} {values : List (List UInt8)}
      (h : advance m depth text = some (v, m', depth', text'))
      (hrest : Visits m' depth' text' values) : Visits m depth text (v.toList ++ values)

theorem Visits.unique {m : Mode} {depth : Nat} {text : List UInt8}
    {values values' : List (List UInt8)} (h : Visits m depth text values)
    (h' : Visits m depth text values') : values = values' := by
  induction h generalizing values' with
  | stop hstop =>
      cases h' with
      | stop _ => rfl
      | step hstep _ =>
          rw [hstop] at hstep
          cases hstep
  | step hstep hrest ih =>
      cases h' with
      | stop hstop =>
          rw [hstep] at hstop
          cases hstop
      | step hstep' hrest' =>
          rw [hstep] at hstep'
          obtain ⟨rfl, rfl, rfl, rfl⟩ : _ ∧ _ ∧ _ ∧ _ := by
            simpa only [Option.some.injEq, Prod.mk.injEq] using hstep'
          rw [ih hrest']

theorem CState.Reads.unique {cs : CState} {text text' : List UInt8} (h : cs.Reads text)
    (h' : cs.Reads text') : text = text' :=
  List.append_cancel_right (h.pending.symm.trans h'.pending)

/-- A step without a value. -/
theorem Visits.skip {m m' : Mode} {depth depth' : Nat} {text text' : List UInt8}
    {values : List (List UInt8)} (h : advance m depth text = some (none, m', depth', text'))
    (hrest : Visits m' depth' text' values) : Visits m depth text values :=
  .step h hrest

/-- The stored values are those that the lexer makes of the ones the machine comes to. -/
def Follows (stored : List Stored) (values : List (List UInt8)) : Prop :=
  List.Forall₂ (fun s v => s.value = lexedValue v ∧
    ∃ text, s.after = text ++ [0] ∧ v = Config.skip false text) stored values

/-- A function of the parser goes with the machine from a mode and a depth to the names at
another depth, or it fails where the machine stops. -/
def Parsed (m : Mode) (start finish : Nat) (text : List UInt8) (out : Outcome) : Prop :=
  ∃ values, Follows out.stored values ∧
    ((out.code = 0 ∧ ∃ rest, out.cs.Reads rest ∧ rest.length ≤ text.length ∧
        ∀ more, Visits .name finish rest more → Visits m start text (values ++ more)) ∨
      (out.code ≠ 0 ∧ Visits m start text values))

theorem minusOne_ne_zero : (-1 : Int) ≠ 0 := by decide

theorem Parsed.fails {m : Mode} {start : Nat} {text : List UInt8}
    (h : advance m start text = none) (finish : Nat) (cs : CState) (node : CNode) :
    Parsed m start finish text ⟨-1, cs, node, []⟩ :=
  ⟨[], .nil, .inr ⟨minusOne_ne_zero, .stop h⟩⟩

/-- A step of the machine before what a function does. -/
theorem Parsed.skip {m m' : Mode} {start start' finish : Nat} {text text' : List UInt8}
    {out : Outcome} (h : advance m start text = some (none, m', start', text'))
    (hlen : text'.length ≤ text.length) (hparsed : Parsed m' start' finish text' out) :
    Parsed m start finish text out := by
  obtain ⟨values, hfollows, ⟨hcode, rest, hreads, hle, hvisits⟩ | ⟨hcode, hvisits⟩⟩ := hparsed
  · exact ⟨values, hfollows, .inl ⟨hcode, rest, hreads, hle.trans hlen,
      fun more hmore => .skip h (hvisits more hmore)⟩⟩
  · exact ⟨values, hfollows, .inr ⟨hcode, .skip h hvisits⟩⟩

/-- One function after the other. -/
theorem Parsed.append {m : Mode} {start middle finish : Nat} {text rest : List UInt8}
    {out out' : Outcome} {values : List (List UInt8)} (hfollows : Follows out.stored values)
    (hvisits : ∀ more, Visits .name middle rest more → Visits m start text (values ++ more))
    (hlen : rest.length ≤ text.length) (h : Parsed .name middle finish rest out') :
    Parsed m start finish text { out' with stored := out.stored ++ out'.stored } := by
  obtain ⟨values', hfollows', ⟨hcode, rest', hreads, hle, hvisits'⟩ | ⟨hcode, hvisits'⟩⟩ := h
  · refine ⟨values ++ values', List.rel_append hfollows hfollows', .inl ⟨hcode, rest', hreads,
      hle.trans hlen, fun more hmore => ?_⟩⟩
    rw [List.append_assoc]
    exact hvisits _ (hvisits' more hmore)
  · exact ⟨values ++ values', List.rel_append hfollows hfollows',
      .inr ⟨hcode, hvisits _ hvisits'⟩⟩

/-- `parse_expr` does what its loop does, whichever node it takes. -/
theorem parse_expr_spec {loop : CState → CNode → Except Fault Outcome} {cs : CState}
    {P : Outcome → Prop} (hnode : ∀ out node, P out → P { out with node := node })
    (h : ∀ node, ∃ out, loop cs node = .ok out ∧ P out) (root : CNode) :
    ∃ out, parse_expr loop cs root = .ok out ∧ P out := by
  obtain ⟨out, hout, hP⟩ := h (exprPlace root cs.text).2.1
  unfold parse_expr
  dsimp only
  rw [hout]
  exact ⟨_, rfl, hnode _ _ hP⟩

/-- The loop of `parse_expr` returns and goes with the machine. -/
def ExprReturns (passes : Nat) : Prop :=
  ∀ cs node text, CState.Reads cs text → text.length < passes →
    ∃ out, exprLoop passes cs node = .ok out ∧ ∀ depth, Parsed .value depth depth text out

/-- `parse_block` returns and goes with the machine, out of the block. -/
def BlockReturns (passes : Nat) : Prop :=
  ∀ cs node text, CState.Reads cs text → text.length < passes →
    ∃ out, parse_block passes cs node = .ok out ∧
      ∀ depth, Parsed .name (depth + 1) depth text out

theorem exprLoop_succ {passes : Nat} (ihExpr : ExprReturns passes)
    (ihBlock : BlockReturns passes) : ExprReturns (passes + 1) := by
  intro cs node text hreads hlen
  obtain ⟨token, cs', hlex, hlexed⟩ := lex_eq hreads true
  rw [exprLoop, hlex]
  cases hlexed with
  | eof h => exact ⟨_, rfl, fun depth => .fails (by rw [advance, h]) _ _ _⟩
  | cbrace h _ => exact ⟨_, rfl, fun depth => .fails (by rw [advance, h]) _ _ _⟩
  | name hvalue _ _ _ => cases hvalue
  | @dot _ rest h hreads' =>
      have hlt : rest.length < text.length := length_rest h (fun heq => by cases heq)
      have hstep (depth : Nat) : advance .value depth text = some (none, .part, depth, rest) := by
        rw [advance, h]
      obtain ⟨token, cs'', hlex', hlexed'⟩ := lex_eq hreads' false
      dsimp only
      rw [hlex']
      cases hlexed' with
      | eof h' => exact ⟨_, rfl, fun depth =>
          .skip (hstep depth) hlt.le (.fails (by rw [advance, h']) _ _ _)⟩
      | dot h' _ => exact ⟨_, rfl, fun depth =>
          .skip (hstep depth) hlt.le (.fails (by rw [advance, h']) _ _ _)⟩
      | obrace h' _ => exact ⟨_, rfl, fun depth =>
          .skip (hstep depth) hlt.le (.fails (by rw [advance, h']) _ _ _)⟩
      | cbrace h' _ => exact ⟨_, rfl, fun depth =>
          .skip (hstep depth) hlt.le (.fails (by rw [advance, h']) _ _ _)⟩
      | value hvalue _ _ _ => cases hvalue
      | @name _ first rest' _ h' _ hreads'' =>
          have hlt' : rest'.length < rest.length := length_rest h' (fun heq => by cases heq)
          have hle := length_afterName_le rest'
          obtain ⟨out, hout, hparsed⟩ :=
            ihExpr cs'' (.mk cs''.text [] []) (afterName rest') hreads'' (by omega)
          dsimp only
          rw [hout]
          refine ⟨_, rfl, fun depth => .skip (hstep depth) hlt.le ?_⟩
          have hstep' :
              advance .part depth rest = some (none, .value, depth, afterName rest') := by
            rw [advance, h']
          exact .skip hstep' (by omega) (hparsed depth)
  | @obrace _ rest h hreads' =>
      have hlt : rest.length < text.length := length_rest h (fun heq => by cases heq)
      obtain ⟨out, hout, hparsed⟩ := ihBlock cs' node rest hreads' (by omega)
      exact ⟨out, hout, fun depth => (hparsed depth).skip (by rw [advance, h]) hlt.le⟩
  | @value _ first rest _ h htext hreads' =>
      have hlt : rest.length < text.length := length_rest h (fun heq => by cases heq)
      have hle := length_afterLine_le rest
      refine ⟨_, rfl, fun depth => ⟨[first :: rest], ?_, .inl ⟨rfl, afterLine rest, hreads',
        by omega, fun more hmore => ?_⟩⟩⟩
      · exact .cons ⟨htext, text, hreads.pending, (skip_of_lexeme h).symm⟩ .nil
      · exact Visits.step (v := some (first :: rest)) (by rw [advance, h]) hmore

theorem parse_block_succ {passes : Nat} (ihExpr : ExprReturns passes)
    (ihBlock : BlockReturns passes) : BlockReturns (passes + 1) := by
  intro cs node text hreads hlen
  obtain ⟨token, cs', hlex, hlexed⟩ := lex_eq hreads false
  rw [parse_block, hlex]
  cases hlexed with
  | eof h => exact ⟨_, rfl, fun depth => .fails (by rw [advance, h]) _ _ _⟩
  | dot h _ => exact ⟨_, rfl, fun depth => .fails (by rw [advance, h]) _ _ _⟩
  | obrace h _ => exact ⟨_, rfl, fun depth => .fails (by rw [advance, h]) _ _ _⟩
  | value hvalue _ _ _ => cases hvalue
  | @cbrace _ rest h hreads' =>
      have hlt : rest.length < text.length := length_rest h (fun heq => by cases heq)
      exact ⟨_, rfl, fun depth => ⟨[], .nil, .inl ⟨rfl, rest, hreads', hlt.le,
        fun more hmore => .skip (by rw [advance, h]) hmore⟩⟩⟩
  | @name _ first rest _ h _ hreads' =>
      have hlt : rest.length < text.length := length_rest h (fun heq => by cases heq)
      have hle := length_afterName_le rest
      have hstep (depth : Nat) :
          advance .name depth text = some (none, .value, depth, afterName rest) := by
        rw [advance, h]
      obtain ⟨out, hout, hparsed⟩ := parse_expr_spec
        (P := fun out => ∀ depth, Parsed .value depth depth (afterName rest) out)
        (fun _ _ h => h) (fun node => ihExpr cs' node (afterName rest) hreads' (by omega)) node
      dsimp only
      rw [hout]
      dsimp only
      by_cases hcode : out.code = 0
      · obtain ⟨_, -, ⟨-, rest', hreads'', hle', -⟩ | ⟨hne, -⟩⟩ := hparsed 0
        · obtain ⟨out', hout', hparsed'⟩ := ihBlock out.cs out.node rest' hreads'' (by omega)
          rw [if_neg (not_not.mpr hcode), hout']
          refine ⟨_, rfl, fun depth => .skip (hstep (depth + 1)) (by omega) ?_⟩
          obtain ⟨values, hfollows, ⟨-, rest'', hlast, -, hvisits⟩ | ⟨hne, -⟩⟩ :=
            hparsed (depth + 1)
          · obtain rfl := hreads''.unique hlast
            exact .append hfollows hvisits hle' (hparsed' depth)
          · exact absurd hcode hne
        · exact absurd hcode hne
      · rw [if_pos hcode]
        refine ⟨_, rfl, fun depth => .skip (hstep (depth + 1)) (by omega) ?_⟩
        obtain ⟨values, hfollows, ⟨hzero, -⟩ | ⟨-, hvisits⟩⟩ := hparsed (depth + 1)
        · exact absurd hzero hcode
        · exact ⟨values, hfollows, .inr ⟨minusOne_ne_zero, hvisits⟩⟩

/-- Both functions return if the bound is greater than the length of the text. -/
theorem parse_returns (passes : Nat) : ExprReturns passes ∧ BlockReturns passes := by
  induction passes with
  | zero => exact ⟨fun _ _ _ _ h => absurd h (Nat.not_lt_zero _),
      fun _ _ _ _ h => absurd h (Nat.not_lt_zero _)⟩
  | succ passes ih => exact ⟨exprLoop_succ ih.1 ih.2, parse_block_succ ih.1 ih.2⟩

/-- `config_load` returns, and what it stores are the values that the machine comes to. -/
theorem loadLoop_spec {passes : Nat} {cs : CState} {text : List UInt8} (hreads : cs.Reads text)
    (hlen : text.length < passes) (root : CNode) :
    ∃ root' stored values, loadLoop passes cs root = .ok (root', stored) ∧
      Follows stored values ∧ Visits .name 0 text values := by
  induction passes generalizing cs text root with
  | zero => omega
  | succ passes ih =>
      obtain ⟨token, cs', hlex, hlexed⟩ := lex_eq hreads false
      rw [loadLoop, hlex]
      cases hlexed with
      | eof h => exact ⟨_, _, [], rfl, .nil, .stop (by rw [advance, h])⟩
      | dot h _ => exact ⟨_, _, [], rfl, .nil, .stop (by rw [advance, h])⟩
      | obrace h _ => exact ⟨_, _, [], rfl, .nil, .stop (by rw [advance, h])⟩
      | cbrace h _ => exact ⟨_, _, [], rfl, .nil, .stop (by rw [advance, h])⟩
      | value hvalue _ _ _ => cases hvalue
      | @name _ first rest _ h _ hreads' =>
          have hlt : rest.length < text.length := length_rest h (fun heq => by cases heq)
          have hle := length_afterName_le rest
          have hstep : advance .name 0 text = some (none, .value, 0, afterName rest) := by
            rw [advance, h]
          obtain ⟨out, hout, values, hfollows, hcase⟩ := parse_expr_spec
            (P := fun out => Parsed .value 0 0 (afterName rest) out) (fun _ _ h => h)
            (fun node => by
              obtain ⟨out, hout, hparsed⟩ :=
                (parse_returns passes).1 cs' node (afterName rest) hreads' (by omega)
              exact ⟨out, hout, hparsed 0⟩) root
          dsimp only
          rw [hout]
          dsimp only
          rcases hcase with ⟨hcode, rest', hreads'', hle', hvisits⟩ | ⟨hcode, hvisits⟩
          · rw [if_neg (not_not.mpr hcode)]
            obtain ⟨root', stored, more, hload, hfollows', hmore⟩ := ih hreads'' (by omega) out.node
            rw [hload]
            exact ⟨_, _, _, rfl, List.rel_append hfollows hfollows', .skip hstep (hvisits _ hmore)⟩
          · rw [if_pos hcode]
            exact ⟨_, _, values, rfl, hfollows, .skip hstep hvisits⟩

end Config
end Cutils
end AndroidLinux
