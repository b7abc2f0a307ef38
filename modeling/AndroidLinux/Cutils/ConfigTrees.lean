import AndroidLinux.Cutils.ConfigLines

/-!
# Files of blocks

A tree of names with values and of blocks is written as a text, block within block, and
`config_load` makes the nodes of the tree from it.
-/

namespace AndroidLinux
namespace Cutils
namespace Config

inductive Tree
  | leaf (l : NameValue)
  | block (name : List UInt8) (items : List Tree)

namespace Tree

def name : Tree → List UInt8
  | leaf l => l.name
  | block name _ => name

end Tree

mutual

/-- A value stands on the line of its name, and a block between braces. -/
def Tree.text : Tree → List UInt8
  | .leaf l => l.bytes ++ [newline]
  | .block name items => name ++ newline :: obrace :: (itemsText items ++ [cbrace])

def itemsText : List Tree → List UInt8
  | [] => []
  | t :: items => t.text ++ itemsText items

end

mutual

def Tree.node : Tree → CNode
  | .leaf l => .mk l.name l.value []
  | .block name items => .mk name [] (itemNodes items)

def itemNodes : List Tree → List CNode
  | [] => []
  | t :: items => t.node :: itemNodes items

end

/-- The names in a block are different. -/
inductive Tree.WellFormed : Tree → Prop
  | leaf {l : NameValue} (h : l.WellFormed) : (Tree.leaf l).WellFormed
  | block {name : List UInt8} {items : List Tree}
      (hname : ∃ c rest, name = c :: rest ∧ c ≠ hash ∧ ∀ x ∈ name, isNameChar x)
      (hitems : ∀ t ∈ items, t.WellFormed) (hdistinct : (items.map Tree.name).Nodup) :
      (Tree.block name items).WellFormed

/-! ## Tokens -/

variable {cs : CState} {text rest : List UInt8} {first : UInt8}

theorem lex_name (h : cs.Reads text) (hlexeme : lexeme text = .text first rest) :
    ∃ cs', lex cs false = .ok (.text, cs') ∧ cs'.text = first :: rest.takeWhile isNameChar ∧
      cs'.Reads (afterName rest) := by
  obtain ⟨token, cs', hlex, hlexed⟩ := lex_eq h false
  cases hlexed with
  | eof h' | dot h' _ | obrace h' _ | cbrace h' _ =>
      rw [h'] at hlexeme
      cases hlexeme
  | value hf _ _ _ => cases hf
  | name _ h' htext hreads =>
      rw [h'] at hlexeme
      obtain ⟨rfl, rfl⟩ := Lexeme.text.inj hlexeme
      exact ⟨cs', hlex, htext, hreads⟩

theorem lex_value (h : cs.Reads text) (hlexeme : lexeme text = .text first rest) :
    ∃ cs', lex cs true = .ok (.text, cs') ∧ cs'.text = lexedValue (first :: rest) ∧
      cs'.Reads (afterLine rest) := by
  obtain ⟨token, cs', hlex, hlexed⟩ := lex_eq h true
  cases hlexed with
  | eof h' | dot h' _ | obrace h' _ | cbrace h' _ =>
      rw [h'] at hlexeme
      cases hlexeme
  | name hf _ _ _ => cases hf
  | value _ h' htext hreads =>
      rw [h'] at hlexeme
      obtain ⟨rfl, rfl⟩ := Lexeme.text.inj hlexeme
      exact ⟨cs', hlex, htext, hreads⟩

theorem lex_obrace (h : cs.Reads text) (value : Bool) (hlexeme : lexeme text = .obrace rest) :
    ∃ cs', lex cs value = .ok (.obrace, cs') ∧ cs'.Reads rest := by
  obtain ⟨token, cs', hlex, hlexed⟩ := lex_eq h value
  cases hlexed with
  | eof h' | dot h' _ | cbrace h' _ | name _ h' _ _ | value _ h' _ _ =>
      rw [h'] at hlexeme
      cases hlexeme
  | obrace h' hreads =>
      rw [h'] at hlexeme
      obtain rfl := Lexeme.obrace.inj hlexeme
      exact ⟨cs', hlex, hreads⟩

theorem lex_cbrace (h : cs.Reads text) (value : Bool) (hlexeme : lexeme text = .cbrace rest) :
    ∃ cs', lex cs value = .ok (.cbrace, cs') ∧ cs'.Reads rest := by
  obtain ⟨token, cs', hlex, hlexed⟩ := lex_eq h value
  cases hlexed with
  | eof h' | dot h' _ | obrace h' _ | name _ h' _ _ | value _ h' _ _ =>
      rw [h'] at hlexeme
      cases hlexeme
  | cbrace h' hreads =>
      rw [h'] at hlexeme
      obtain rfl := Lexeme.cbrace.inj hlexeme
      exact ⟨cs', hlex, hreads⟩

/-- What stands behind the name of an item. -/
def BehindName (t : Tree) (tail rest : List UInt8) : Prop :=
  match t with
  | .leaf l => ∃ v vs, lexeme tail = .text v vs ∧
      v :: vs = l.value ++ (l.trailing ++ newline :: rest) ∧ afterLine vs = rest
  | .block _ items => tail = obrace :: (itemsText items ++ cbrace :: rest)

theorem lex_item {t : Tree} (ht : t.WellFormed) (h : cs.Reads (t.text ++ rest)) :
    ∃ cs' tail, lex cs false = .ok (.text, cs') ∧ cs'.text = t.name ∧ cs'.Reads tail ∧
      BehindName t tail rest ∧ tail.length < (t.text ++ rest).length := by
  cases ht with
  | @leaf l hl =>
      obtain ⟨n, ns, v, vs, hname, htake, hvalue, hvs, hafter⟩ := hl.lexemes (.inner rest)
      rw [Tree.text, List.append_assoc, List.singleton_append] at h ⊢
      obtain ⟨cs', hlex, htext, hreads⟩ := lex_name h hname
      have hlt := length_rest hname (fun heq => by cases heq)
      exact ⟨cs', afterName ns, hlex, htext.trans htake, hreads, ⟨v, vs, hvalue, hvs, hafter⟩,
        (length_afterName_le ns).trans_lt hlt⟩
  | @block name items hname hitems hdistinct =>
      obtain ⟨c, cs₀, rfl, hhash, hall⟩ := hname
      obtain ⟨hc, hcs⟩ := List.forall_mem_cons.mp hall
      have hbytes : (Tree.block (c :: cs₀) items).text ++ rest =
          c :: (cs₀ ++ newline :: obrace :: (itemsText items ++ cbrace :: rest)) := by
        rw [Tree.text]
        simp only [List.cons_append, List.append_assoc, List.nil_append]
      rw [hbytes] at h ⊢
      have hlexeme := @lexeme_text [] (List.forall_mem_nil _) c hc hhash
        (cs₀ ++ newline :: obrace :: (itemsText items ++ cbrace :: rest))
      rw [List.nil_append] at hlexeme
      obtain ⟨cs', hlex, htext, hreads⟩ := lex_name h hlexeme
      rw [takeWhile_name hcs (show isspace newline = true by decide)] at htext
      rw [afterName_space hcs (show isspace newline = true by decide)] at hreads
      refine ⟨cs', _, hlex, htext, hreads, rfl, ?_⟩
      simp only [List.length_cons, List.length_append]
      omega

/-! ## Nodes -/

theorem Tree.name_node (t : Tree) : t.node.name = t.name := by
  cases t with
  | leaf l => rw [Tree.node]; rfl
  | block name items => rw [Tree.node]; rfl

theorem exprPlace_new {root : CNode} {name : List UInt8}
    (h : name ∉ root.children.map CNode.name) :
    exprPlace root name = (root.children, .mk name [] [], []) := by
  unfold exprPlace
  rcases findLast_spec name root.children with
    ⟨hnone, -⟩ | ⟨before, node, behind, -, hchildren, hname, -⟩
  · rw [hnone]
  · refine absurd ?_ h
    rw [hchildren, ← hname]
    exact List.mem_map_of_mem (List.mem_append_right _ List.mem_cons_self)

theorem CNode.setChildren_setChildren (node : CNode) (children children' : List CNode) :
    (node.setChildren children).setChildren children' = node.setChildren children' := by
  cases node
  rfl

theorem CNode.setChildren_children (node : CNode) : node.setChildren node.children = node := by
  cases node
  rfl

/-- An item gets a node of its own behind the others. -/
theorem parse_expr_new {loop : CState → CNode → Except Fault Outcome} {root : CNode}
    {cs' : CState} {node : CNode} {stored : List Stored}
    (hnew : cs.text ∉ root.children.map CNode.name)
    (hloop : loop cs (.mk cs.text [] []) = .ok ⟨0, cs', node, stored⟩) :
    parse_expr loop cs root =
      .ok ⟨0, cs', root.setChildren (root.children ++ [node]), stored⟩ := by
  unfold parse_expr
  dsimp only
  rw [exprPlace_new hnew]
  dsimp only
  rw [hloop]

/-! ## Blocks -/

def ExprLoads (passes : Nat) : Prop :=
  ∀ t : Tree, t.WellFormed → ∀ (cs : CState) (tail rest : List UInt8), BehindName t tail rest →
    cs.Reads tail → tail.length < passes → ∃ cs' stored,
      exprLoop passes cs (.mk t.name [] []) = .ok ⟨0, cs', t.node, stored⟩ ∧ cs'.Reads rest

def BlockLoads (passes : Nat) : Prop :=
  ∀ items : List Tree, (∀ t ∈ items, t.WellFormed) → ∀ (cs : CState) (rest : List UInt8)
    (node : CNode), (node.children.map CNode.name ++ items.map Tree.name).Nodup →
    cs.Reads (itemsText items ++ cbrace :: rest) →
    (itemsText items ++ cbrace :: rest).length < passes → ∃ cs' stored,
      parse_block passes cs node =
        .ok ⟨0, cs', node.setChildren (node.children ++ itemNodes items), stored⟩ ∧
      cs'.Reads rest

theorem exprLoads_succ {passes : Nat} (ihBlock : BlockLoads passes) : ExprLoads (passes + 1) := by
  intro t ht cs tail rest hbehind hreads hlen
  rw [exprLoop]
  cases ht with
  | @leaf l hl =>
      obtain ⟨v, vs, hvalue, hvs, hafter⟩ := hbehind
      obtain ⟨cs', hlex, htext, hreads'⟩ := lex_value hreads hvalue
      rw [hvs, hl.lexedValue_eq (.inner rest) fun h => absurd h (List.cons_ne_nil _ _)] at htext
      rw [hafter] at hreads'
      rw [hlex]
      dsimp only
      rw [htext]
      exact ⟨cs', _, by rw [Tree.node]; rfl, hreads'⟩
  | @block name items hname hitems hdistinct =>
      obtain rfl : tail = obrace :: (itemsText items ++ cbrace :: rest) := hbehind
      obtain ⟨cs', hlex, hreads'⟩ := lex_obrace hreads true
        (show lexeme (obrace :: (itemsText items ++ cbrace :: rest)) = .obrace _ from rfl)
      rw [List.length_cons] at hlen
      obtain ⟨cs'', stored, hblock, hreads''⟩ :=
        ihBlock items hitems cs' rest (.mk name [] []) hdistinct hreads' (by omega)
      rw [hlex]
      exact ⟨cs'', stored, by rw [Tree.node]; exact hblock, hreads''⟩

/-- The names of the items behind the first one are still new when it has a node. -/
theorem nodup_step {node : CNode} {t : Tree} {items : List Tree}
    (h : (node.children.map CNode.name ++ (t :: items).map Tree.name).Nodup) :
    t.name ∉ node.children.map CNode.name ∧
      ((node.setChildren (node.children ++ [t.node])).children.map CNode.name ++
        items.map Tree.name).Nodup := by
  rw [CNode.children_setChildren, List.map_append, List.map_singleton, Tree.name_node,
    List.append_assoc, List.singleton_append, ← List.map_cons]
  exact ⟨fun hmem => List.disjoint_of_nodup_append h hmem List.mem_cons_self, h⟩

theorem blockLoads_succ {passes : Nat} (ihExpr : ExprLoads passes) (ihBlock : BlockLoads passes) :
    BlockLoads (passes + 1) := by
  intro items hitems cs rest node hnodup hreads hlen
  rw [parse_block]
  cases items with
  | nil =>
      obtain ⟨cs', hlex, hreads'⟩ := lex_cbrace hreads false
        (show lexeme (itemsText [] ++ cbrace :: rest) = .cbrace rest by rw [itemsText]; rfl)
      rw [hlex, itemNodes, List.append_nil, CNode.setChildren_children]
      exact ⟨cs', [], rfl, hreads'⟩
  | cons t items =>
      obtain ⟨ht, hrest⟩ := List.forall_mem_cons.mp hitems
      obtain ⟨hnew, hnodup'⟩ := nodup_step hnodup
      rw [itemsText, List.append_assoc] at hreads hlen
      obtain ⟨cs₁, tail, hlex, hname, hreads₁, hbehind, hlt⟩ := lex_item ht hreads
      obtain ⟨cs₂, stored, hloop, hreads₂⟩ := ihExpr t ht cs₁ tail _ hbehind hreads₁ (by omega)
      rw [← hname] at hnew hloop
      have hsmall : (itemsText items ++ cbrace :: rest).length < passes := by
        rw [List.length_append] at hlen
        have hpos : 0 < t.text.length := by
          cases t with
          | leaf l => rw [Tree.text, List.length_append, List.length_singleton]; omega
          | block name items => rw [Tree.text, List.length_append, List.length_cons]; omega
        omega
      obtain ⟨cs₃, stored', hblock, hreads₃⟩ :=
        ihBlock items hrest cs₂ rest _ hnodup' hreads₂ hsmall
      rw [hlex]
      dsimp only
      rw [parse_expr_new hnew hloop]
      dsimp only
      rw [if_neg (not_not_intro rfl), hblock]
      refine ⟨cs₃, stored ++ stored', ?_, hreads₃⟩
      rw [CNode.setChildren_setChildren, CNode.children_setChildren, List.append_assoc,
        List.singleton_append, itemNodes]

/-- The two functions load items and blocks, whatever the depth. -/
theorem items_load (passes : Nat) : ExprLoads passes ∧ BlockLoads passes := by
  induction passes with
  | zero => exact ⟨fun _ _ _ _ _ _ _ h => absurd h (Nat.not_lt_zero _),
      fun _ _ _ _ _ _ _ h => absurd h (Nat.not_lt_zero _)⟩
  | succ passes ih => exact ⟨exprLoads_succ ih.2, blockLoads_succ ih.1 ih.2⟩

theorem loadLoop_items {items : List Tree} (hitems : ∀ t ∈ items, t.WellFormed) {passes : Nat}
    {root : CNode} (hnodup : (root.children.map CNode.name ++ items.map Tree.name).Nodup)
    (hreads : cs.Reads (itemsText items)) (hlen : (itemsText items).length < passes) :
    ∃ stored, loadLoop passes cs root =
      .ok (root.setChildren (root.children ++ itemNodes items), stored) := by
  induction items generalizing cs passes root with
  | nil =>
      rw [itemsText] at hreads
      rw [loadLoop_nil hreads (by omega), itemNodes, List.append_nil, CNode.setChildren_children]
      exact ⟨[], rfl⟩
  | cons t items ih =>
      obtain ⟨k, rfl⟩ : ∃ k, passes = k + 1 := ⟨passes - 1, by omega⟩
      obtain ⟨ht, hrest⟩ := List.forall_mem_cons.mp hitems
      obtain ⟨hnew, hnodup'⟩ := nodup_step hnodup
      rw [itemsText] at hreads hlen
      obtain ⟨cs₁, tail, hlex, hname, hreads₁, hbehind, hlt⟩ := lex_item ht hreads
      obtain ⟨cs₂, stored, hloop, hreads₂⟩ :=
        (items_load k).1 t ht cs₁ tail _ hbehind hreads₁ (by omega)
      rw [← hname] at hnew hloop
      have hsmall : (itemsText items).length < k := by
        rw [List.length_append] at hlen
        have hpos : 0 < t.text.length := by
          cases t with
          | leaf l => rw [Tree.text, List.length_append, List.length_singleton]; omega
          | block name items => rw [Tree.text, List.length_append, List.length_cons]; omega
        omega
      obtain ⟨stored', hload⟩ := ih hrest hnodup' hreads₂ hsmall
      rw [loadLoop, hlex]
      dsimp only
      rw [parse_expr_new hnew hloop]
      dsimp only
      rw [if_neg (not_not_intro rfl), hload]
      refine ⟨stored ++ stored', ?_⟩
      rw [CNode.setChildren_setChildren, CNode.children_setChildren, List.append_assoc,
        List.singleton_append, itemNodes]

/-- A text of blocks within blocks is loaded as the tree that it was written from. -/
theorem config_load_items {items : List Tree} (hitems : ∀ t ∈ items, t.WellFormed)
    (hdistinct : (items.map Tree.name).Nodup) (hnul : 0 ∉ itemsText items) {passes : Nat}
    (hpasses : (itemsText items).length < passes) (name value : List UInt8) :
    ∃ stored, config_load passes (.mk name value []) (itemsText items ++ [0]) =
      .ok (.mk name value (itemNodes items), stored) :=
  loadLoop_items hitems hdistinct ⟨rfl, hnul⟩ hpasses

/-- A block with a value, and a value behind it. -/
def sampleItems : List Tree :=
  [.block [97] [.leaf ⟨[98], [32], [99], []⟩], .leaf ⟨[100], [32], [101], []⟩]

theorem sampleItems_wellFormed : ∀ t ∈ sampleItems, t.WellFormed := by
  have hname {c : UInt8} (hc : isNameChar c = true) (hhash : c ≠ hash) :
      ∃ b rest, [c] = b :: rest ∧ b ≠ hash ∧ ∀ x ∈ [c], isNameChar x :=
    ⟨c, [], rfl, hhash, List.forall_mem_singleton.mpr hc⟩
  have hleaf {c v : UInt8} (hc : isNameChar c = true) (hhash : c ≠ hash)
      (hv : isNameChar v = true) (hvhash : v ≠ hash) :
      (Tree.leaf ⟨[c], [32], [v], []⟩).WellFormed := by
    have hspace := (isNameChar_iff.mp hv).1
    refine .leaf ⟨hname hc hhash, List.cons_ne_nil _ _,
      List.forall_mem_singleton.mpr ⟨rfl, by decide⟩, ⟨v, [], rfl, hvhash, hv⟩, ?_, ?_,
      List.forall_mem_nil _⟩
    · rw [List.mem_singleton]
      rintro rfl
      cases hspace
    · rw [trim, List.rdropWhile_singleton, if_neg (Bool.eq_false_iff.mp hspace)]
  rw [sampleItems, List.forall_mem_cons, List.forall_mem_singleton]
  exact ⟨.block (hname rfl (by decide))
    (List.forall_mem_singleton.mpr (hleaf rfl (by decide) rfl (by decide)))
    (List.nodup_singleton _), hleaf rfl (by decide) rfl (by decide)⟩

theorem config_load_items_sample :
    ∃ stored, config_load 20 (.mk [] [] []) (itemsText sampleItems ++ [0]) =
      .ok (.mk [] [] (itemNodes sampleItems), stored) :=
  config_load_items sampleItems_wellFormed (by decide)
    (by simp [sampleItems, itemsText, Tree.text, NameValue.bytes, newline, obrace, cbrace])
    (by simp [sampleItems, itemsText, Tree.text, NameValue.bytes]) [] []

end Config
end Cutils
end AndroidLinux
