import NotebookCell.Proofs.Ending.Group

/-!
# What stands between parentheses

A text that begins with a parenthesis and is one expression in parentheses is read by the parser of
groups, and the group ends with the text (`exists_group_of_enclosedExpression?`). Conversely such
a group makes the text one expression in parentheses (`parse?_of_group`).
-/

namespace NotebookCell.Script

open NotebookCell.Tree NotebookCell.Script.Parser

variable {sub : Parsers} {c c' : Cursor}

/-! ## Expressions that end with a parenthesis -/

/-- The kinds of assignments. -/
def isAssignment : Kind → Bool
  | .assignmentExpression | .augmentedAssignmentExpression => true
  | _ => false

theorem givesAt_assignment (asi : Bool) (left : Node) (c : Cursor) :
    GivesAt c (fun node c' => (node = left ∧ c' = c) ∨ isAssignment node.kind = true)
      (assignment sub asi left) := by
  have hstill : GivesAt c (fun node c' => (node = left ∧ c' = c) ∨ isAssignment node.kind = true)
      (pure left) := by
    intro node c' h
    cases h
    exact .inl ⟨rfl, rfl⟩
  have hnode {kind : Kind} (hkind : isAssignment kind = true) (children : List Node) :
      Gives (fun node c' => (node = left ∧ c' = c) ∨ isAssignment node.kind = true)
        (node kind left.start children) := by
    intro _ node _ h
    cases h
    exact .inr hkind
  have hvalue {kind : Kind} (hkind : isAssignment kind = true) (next : Cursor) (spelling : String)
      (children : List Node → Node → List Node) :
      Gives (fun node c' => (node = left ∧ c' = c) ∨ isAssignment node.kind = true) (do
        set next
        literal spelling
        let gap ← trivia
        let right ← sub.expression Level.lowest asi
        node kind left.start (children gap right)) :=
    .step₄ fun _ _ _ _ => hnode hkind _
  rw [assignment]
  refine .still (still_lookahead asi) fun next => ?_
  cases next with
  | none => exact hstill
  | some behind =>
    dsimp only
    split
    case h_5 => exact .ite (hvalue rfl _ _ _ c) hstill
    case h_6 => exact .ite (Gives.step (fun _ => hvalue rfl _ _ _) c) hstill
    case h_7 => exact .ite (Gives.step (fun _ => hvalue rfl _ _ _) c) hstill
    case h_8 => exact hstill
    all_goals
      refine .ite (hvalue rfl _ _ _ c) ?_
      split
      · exact hvalue rfl _ _ _ c
      · exact hstill

/-- An expression in parentheses that is a whole expression is what the parser of groups reads. -/
theorem group_of_expression {asi : Bool} {text : List Char} {pos : Nat} {node : Node}
    (h : expression sub Level.lowest asi ⟨'(' :: text, pos⟩ = some (node, c'))
    (hkind : node.kind = .parenthesizedExpression) :
    group sub asi ⟨'(' :: text, pos⟩ = some (node, c') := by
  rw [expression_eq] at h
  obtain ⟨operand, c₁, hoperand, h⟩ := exists_of_bind h
  obtain ⟨assigned, c₂, hassigned, h⟩ := exists_of_bind h
  rw [operand_paren] at hoperand
  obtain ⟨first, c₃, hfirst, hoperand⟩ := exists_of_bind hoperand
  -- an operator, an assignment or an access would be the kind of the whole
  obtain ⟨rfl, rfl⟩ : node = assigned ∧ c' = c₂ := by
    rcases Ending.iterate_cases (Ending.givesAt_operation Level.lowest) h with hsame | hother
    · exact hsame
    · rw [hkind] at hother
      cases hother
  obtain ⟨rfl, rfl⟩ : node = operand ∧ c' = c₁ := by
    rcases givesAt_assignment asi operand c₁ _ _ hassigned with hsame | hother
    · exact hsame
    · rw [hkind] at hother
      cases hother
  rcases Ending.iterate_cases (Ending.givesAt_access false true) hoperand with ⟨rfl, rfl⟩ | hother
  · exact hfirst
  · rw [hkind] at hother
    cases hother

/-! ## From the tree of a text to a group -/

theorem sequenceFrom_cases {asi : Bool} {first node : Node} (h : sequenceFrom sub asi first c = some (node, c'))
    (hkind : node.kind = .parenthesizedExpression) : node = first := by
  rw [sequenceFrom] at h
  obtain ⟨rest, c₁, -, h⟩ := exists_of_bind h
  split at h
  · cases h
    rfl
  · cases h
    cases hkind

/-- The expression of a statement is the first thing in it. -/
theorem exists_of_expressionStatement {statement node : Node}
    (h : expressionStatement sub c = some (statement, c'))
    (hfirst : statement.firstExpression? = some node) (hkind : node.kind = .parenthesizedExpression) :
    ∃ c₁, sub.expression Level.lowest true c = some (node, c₁) := by
  rw [expressionStatement] at h
  obtain ⟨first, c₁, hexpression, h⟩ := exists_of_bind h
  rw [expressionRest] at h
  obtain ⟨value, c₂, hvalue, h⟩ := exists_of_bind h
  obtain ⟨gap, c₃, hgap, h⟩ := exists_of_bind h
  cases h
  obtain ⟨-, _, _, hgaps⟩ := Ending.related_of_reads (fun _ _ => Suffix.reads_semicolon true) hgap
  have hmem : node ∈ value :: gap :=
    (List.mem_filter.mp (List.mem_of_find?_eq_some hfirst)).1
  rcases List.mem_cons.mp hmem with rfl | hmem
  · obtain rfl := sequenceFrom_cases hvalue hkind
    exact ⟨c₁, hexpression⟩
  · have hremark := (hgaps.1 node hmem).1.1
    rw [Node.isRemark, hkind] at hremark
    cases hremark

theorem eq_of_soleStatement? {root statement node : Node} {rest : List Node}
    (h : soleStatement? root = some statement) (hchildren : root.children = node :: rest)
    (hnamed : node.named = true) (hkind : isStatementKind node.kind = true) : statement = node := by
  have hcomment : node.kind ≠ .comment := by
    intro hcomment
    rw [hcomment] at hkind
    cases hkind
  have hmem : node ∈ root.namedChildren.filter (·.kind != .comment) := by
    refine List.mem_filter.mpr ⟨List.mem_filter.mpr ⟨?_, hnamed⟩, bne_iff_ne.mpr hcomment⟩
    rw [hchildren]
    exact List.mem_cons_self
  rw [filter_of_soleStatement? h, List.mem_singleton] at hmem
  exact hmem.symm

/-- The statement of a script that begins with a parenthesis, if it has only one. -/
theorem exists_statement_of_soleStatement? {text : List Char} {root statement : Node}
    (hparse : parse? ('(' :: text) = some root) (h : soleStatement? root = some statement) :
    ∃ c, expressionStatement (parsers (2 * text.length + 11)) ⟨'(' :: text, 0⟩ = some (statement, c) := by
  obtain ⟨c, hprogram⟩ := program_of_parse? hparse
  have hdepth : 2 * ('(' :: text).length + 10 = 2 * text.length + 11 + 1 := by
    rw [List.length_cons]
    omega
  rw [hdepth, program_eq (begins_paren text).trivia rfl] at hprogram
  cases hmany : many (statementStep (parsers (2 * text.length + 11 + 1)).statement) ⟨'(' :: text, 0⟩ with
  | none =>
    rw [hmany] at hprogram
    cases hprogram
  | some found =>
    obtain ⟨groups, d⟩ := found
    rw [hmany] at hprogram
    dsimp only at hprogram
    split at hprogram
    · cases hprogram
      rcases exists_of_collect hmany with ⟨-, hnone⟩ | ⟨group, more, c₁, rfl, hfirst, -⟩
      · rw [statementStep_of_begins (begins_paren text)] at hnone
        obtain ⟨_, _, -, hnone⟩ := exists_of_bind hnone
        obtain ⟨_, _, -, hnone⟩ := exists_of_bind hnone
        cases hnone
      obtain ⟨-, node, gap, c₂, rfl, hnode, -⟩ := exists_of_statementStep hfirst
      obtain ⟨-, -, hkind, hnamed⟩ := spans_statement (2 * text.length + 11) _ _ _ hnode
      refine ⟨c₂, ?_⟩
      rw [← statement_paren]
      obtain rfl := eq_of_soleStatement? h rfl hnamed hkind
      exact hnode
    · cases hprogram

/-- The only expression of a script between parentheses, if they are its first and last characters. -/
theorem exists_group_of_enclosedExpression? {text : List Char} {root value : Node}
    (hparse : parse? ('(' :: text) = some root)
    (h : enclosedExpression? (byteLength ('(' :: text)) root = some value) :
    ∃ node c, group (parsers (2 * text.length + 10)) true ⟨'(' :: text, 0⟩ = some (node, c) ∧
      node.kind = .parenthesizedExpression ∧ node.stop = byteLength ('(' :: text) ∧
      node.firstExpression? = some value ∧
      ∃ statement ∈ root.namedChildren, node ∈ statement.namedChildren := by
  rw [enclosedExpression?] at h
  simp only [Option.bind_eq_bind, Option.bind_eq_some_iff] at h
  obtain ⟨statement, hstatement, -, -, node, hnode, _, hguard, hvalue⟩ := h
  obtain ⟨⟨hkind, -⟩, hstop⟩ : (node.kind = .parenthesizedExpression ∧ node.start = 0) ∧
      node.stop = byteLength ('(' :: text) := by
    by_contra hother
    rw [guard, if_neg (by simpa only [Bool.and_eq_true, beq_iff_eq] using hother)] at hguard
    cases hguard
  obtain ⟨c, hread⟩ := exists_statement_of_soleStatement? hparse hstatement
  obtain ⟨c₁, hexpression⟩ := exists_of_expressionStatement hread hnode hkind
  exact ⟨node, c₁, group_of_expression hexpression hkind, hkind, hstop, hvalue, statement,
    mem_namedChildren_of_soleStatement? hstatement, List.mem_of_find?_eq_some hnode⟩

/-! ## From a group to the tree of a text -/

theorem enclosedExpression?_of_group {node : Node} {length : Nat} (hnamed : node.named = true)
    (hkind : node.kind = .parenthesizedExpression) (hstart : node.start = 0) (hstop : node.stop = length) :
    enclosedExpression? length (sole node length) = node.firstExpression? := by
  have hspan : (node.kind == .parenthesizedExpression && node.start == 0 && node.stop == length) = true := by
    simp [hkind, hstart, hstop]
  have hexpression : Node.firstExpression? { kind := .expressionStatement, start := node.start
                                             stop := length, children := [node] } = some node := by
    simp [Node.firstExpression?, Node.namedChildren, hnamed, hkind]
  show (do
    let group ← Node.firstExpression? { kind := .expressionStatement, start := node.start
                                        stop := length, children := [node] }
    guard (group.kind == .parenthesizedExpression && group.start == 0 && group.stop == length)
    group.firstExpression?) = node.firstExpression?
  rw [hexpression]
  show (do
    guard (node.kind == .parenthesizedExpression && node.start == 0 && node.stop == length)
    node.firstExpression?) = node.firstExpression?
  rw [hspan]
  rfl

/-- A group that ends with the text makes it one expression in parentheses. -/
theorem parse?_of_group {text : List Char} {node : Node} (hclean : '\x00' ∉ text)
    (h : group (parsers (2 * text.length + 10)) true ⟨'(' :: text, 0⟩ =
      some (node, ⟨[], byteLength ('(' :: text)⟩)) (hsettled : hasStrayDefault node = false) :
    parse? ('(' :: text) = some (sole node (byteLength ('(' :: text))) := by
  have hend := endsExpression_end (byteLength ('(' :: text))
  have hoperand := (operand_paren (parsers (2 * text.length + 10)) true text 0).trans
    ((bind_of_eq h _).trans (extend_of_none (access_end hend true _) _))
  have hstatement := @expressionStatement_end (parsers (2 * text.length + 11)) _ _ _
    (expression_of_operand hoperand hend)
  rw [← statement_paren] at hstatement
  have hprogram := program_of_statement (begins_paren text) hstatement
  have hdepth : 2 * text.length + 11 + 1 = 2 * ('(' :: text).length + 10 := by
    rw [List.length_cons]
    omega
  rw [hdepth] at hprogram
  have hparse := parse?_of_program (by simpa using hclean) hprogram
  rw [hparse]
  show (if hasStrayDefault (sole node (byteLength ('(' :: text))) then none else _) = _
  rw [hasStrayDefault_sole, hsettled]
  rfl

end NotebookCell.Script
