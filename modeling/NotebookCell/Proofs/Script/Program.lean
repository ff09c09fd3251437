import Mathlib.Data.Option.Basic
import NotebookCell.Proofs.Script.Tagged

/-!
# Scripts of one expression

What becomes of a text that is one call when it is read as a whole script: between parentheses, as
every cell is first, and as a program.

* `program_enclosed`, `program_enclosed_refused`: the tree of an expression between parentheses, and
  no tree where the expression has none;
* `parseExpression_of_expression`, `parseExpression_refused`: the expression that is read from them;
* `parseExpression_tagged`, `parse?_tagged`: a tagged template at both places.
-/

namespace NotebookCell.Script

open NotebookCell.Tree NotebookCell.Script.Parser

/-! ## Between parentheses -/

/-- An expression between parentheses. -/
def grouped (node : Node) (stop : Nat) : Node :=
  { kind := .parenthesizedExpression, start := 0, stop, children := [node] }

/-- A script of one expression statement. -/
def sole (node : Node) (stop : Nat) : Node :=
  { kind := .program, start := 0, stop,
    children := [{ kind := .expressionStatement, start := node.start, stop, children := [node] }] }

section
variable {first : Char} {rest : List Char} {depth stop : Nat} {node : Node}

theorem endsExpression_end (pos : Nat) : EndsExpression true ⟨[], pos⟩ :=
  .inl rfl

theorem endsExpression_close (pos : Nat) : EndsExpression false ⟨['\n', ')'], pos⟩ :=
  .inr ⟨[], ')', [], pos + 1, .inr (.inl rfl), rfl⟩

/-- The kinds of operands that are looked at here. -/
def isCallee (node : Node) : Prop :=
  node.kind = .identifier ∨ node.kind = .memberExpression ∨ node.kind = .callExpression

theorem group_enclosed (hfirst : isNamePart first = true)
    (h : expression (parsers depth) Level.lowest false ⟨first :: (rest ++ ['\n', ')']), 1⟩ =
      some (node, ⟨['\n', ')'], stop⟩)) (hkind : isCallee node) :
    group (parsers (depth + 1)) true ⟨'(' :: first :: (rest ++ ['\n', ')']), 0⟩ =
      some (grouped node (stop + 2), ⟨[], stop + 2⟩) := by
  have hstep := @listStep_element first _ 1 hfirst (parsers (depth + 1)) node _ ⟨[')'], stop + 1⟩ h
    rfl rfl
  have hend : listStep ")" (element (parsers (depth + 1))) ⟨[')'], stop + 1⟩ =
      some (none, ⟨[')'], stop + 1⟩) := rfl
  have hcollect := (collect_of_some hstep first (rest ++ ['\n', ')'])).trans
    (by rw [collect_of_none hend])
  have hlist := @commaList_of_collect first _ 0 hfirst _ _ _ _ hcollect
  rw [group, position_bind, bind_of_eq hlist]
  obtain ⟨kind, start, stop, named, missing, field, children⟩ := node
  rcases hkind with hkind | hkind | hkind <;> cases hkind <;> rfl

theorem group_refused (hfirst : isNamePart first = true)
    (h : expression (parsers depth) Level.lowest false ⟨first :: (rest ++ ['\n', ')']), 1⟩ = none) :
    group (parsers (depth + 1)) true ⟨'(' :: first :: (rest ++ ['\n', ')']), 0⟩ = none := by
  have hlist := @commaList_refused first (rest ++ ['\n', ')']) 0 hfirst (parsers (depth + 1))
    (listStep_refused hfirst h)
  rw [group, position_bind]
  exact bind_of_refused hlist _

/-- A statement that begins with a parenthesis is an expression. -/
theorem statement_paren (sub : Parsers) (text : List Char) (pos : Nat) :
    statement sub ⟨'(' :: text, pos⟩ = expressionStatement sub ⟨'(' :: text, pos⟩ := rfl

theorem operand_paren (sub : Parsers) (asi : Bool) (text : List Char) (pos : Nat) :
    operand sub asi ⟨'(' :: text, pos⟩ =
      (group sub asi >>= iterate (access sub asi false true) : Parser Node) ⟨'(' :: text, pos⟩ := rfl

end

/-! ## Whole scripts -/

section
variable {first : Char} {tail : List Char} {sub : Parsers} {depth stop pos : Nat} {node : Node}

theorem expressionStatement_end {c : Cursor}
    (h : sub.expression Level.lowest true c = some (node, ⟨[], stop⟩)) :
    expressionStatement sub c =
      some ({ kind := .expressionStatement, start := node.start, stop, children := [node] },
        ⟨[], stop⟩) := by
  rw [expressionStatement, bind_of_eq h]
  rfl

theorem expressionStatement_refused {c : Cursor} (h : sub.expression Level.lowest true c = none) :
    expressionStatement sub c = none := by
  exact bind_of_refused h _

/-- The text of a script that begins with a statement. -/
structure BeginsScript (first : Char) (tail : List Char) : Prop where
  trivia : Parser.trivia ⟨first :: tail, 0⟩ = some ([], ⟨first :: tail, 0⟩)
  hash : first ≠ '#'
  brace : first ≠ '\x7d'

theorem hashBangLine_of_begins (h : BeginsScript first tail) :
    hashBangLine ⟨first :: tail, 0⟩ = some ([], ⟨first :: tail, 0⟩) := by
  rw [hashBangLine, get_bind, bind_of_eq h.trivia, get_bind, startsWith_of_ne rfl h.hash]
  rfl

theorem statementStep_of_begins (h : BeginsScript first tail) (statement : Parser Node) :
    statementStep statement ⟨first :: tail, 0⟩ =
      (do return some ((← statement) :: (← Parser.trivia)) : Parser (Option (List Node)))
        ⟨first :: tail, 0⟩ := by
  rw [statementStep, get_bind, startsWith_of_ne rfl h.brace]
  rfl

/-- A script of one statement. -/
theorem program_of_statement (hbegins : BeginsScript first tail)
    (h : statement (parsers depth) ⟨first :: tail, 0⟩ = some (node, ⟨[], stop⟩)) :
    program (parsers (depth + 1)) ⟨first :: tail, 0⟩ =
      some ({ kind := .program, start := 0, stop, children := [node] }, ⟨[], stop⟩) := by
  have hstep : statementStep (parsers (depth + 1)).statement ⟨first :: tail, 0⟩ =
      some (some [node], ⟨[], stop⟩) := by
    rw [statementStep_of_begins hbegins]
    exact (bind_of_eq h _).trans rfl
  have hend := @collect_of_none _ (statementStep (parsers (depth + 1)).statement) ⟨[], stop⟩
    ⟨[], stop⟩ rfl tail
  have hstatements : statements (parsers (depth + 1)) ⟨first :: tail, 0⟩ =
      some ([node], ⟨[], stop⟩) := by
    rw [statements, bind_of_eq hbegins.trivia]
    show (collect (statementStep _) (first :: tail) ⟨first :: tail, 0⟩).bind _ = _
    rw [collect_of_some hstep, hend]
    rfl
  rw [program, bind_of_eq (hashBangLine_of_begins hbegins), bind_of_eq hstatements]
  rfl

theorem program_refused (hbegins : BeginsScript first tail)
    (h : statement (parsers depth) ⟨first :: tail, 0⟩ = none) :
    program (parsers (depth + 1)) ⟨first :: tail, 0⟩ = none := by
  have hstep : statementStep (parsers (depth + 1)).statement ⟨first :: tail, 0⟩ = none := by
    rw [statementStep_of_begins hbegins]
    exact bind_of_refused h _
  have hstatements : statements (parsers (depth + 1)) ⟨first :: tail, 0⟩ = none := by
    rw [statements, bind_of_eq hbegins.trivia]
    show (collect (statementStep _) (first :: tail) ⟨first :: tail, 0⟩).bind _ = _
    rw [collect_of_refused hstep]
    rfl
  rw [program, bind_of_eq (hashBangLine_of_begins hbegins)]
  exact bind_of_refused hstatements _

end

section
variable {first : Char} {rest : List Char} {depth stop : Nat} {node : Node}

theorem begins_paren (tail : List Char) : BeginsScript '(' tail where
  trivia := trivia_token (by decide) (by decide) (by decide) (by decide)
  hash := by decide
  brace := by decide

/-- A text between parentheses that is one expression. -/
theorem program_enclosed (hfirst : isNamePart first = true)
    (h : expression (parsers depth) Level.lowest false ⟨first :: (rest ++ ['\n', ')']), 1⟩ =
      some (node, ⟨['\n', ')'], stop⟩)) (hkind : isCallee node) :
    program (parsers (depth + 3)) (.ofText (enclose (first :: rest))) =
      some (sole (grouped node (stop + 2)) (stop + 2), ⟨[], stop + 2⟩) := by
  have hend := @endsExpression_end (stop + 2)
  have hoperand : operand (parsers (depth + 1)) true ⟨'(' :: first :: (rest ++ ['\n', ')']), 0⟩ =
      some (grouped node (stop + 2), ⟨[], stop + 2⟩) := by
    rw [operand_paren, bind_of_eq (group_enclosed hfirst h hkind)]
    exact extend_of_none (access_end hend true _) _
  have hstatement := @expressionStatement_end (parsers (depth + 2)) _ _ _
    (expression_of_operand hoperand hend)
  rw [← statement_paren] at hstatement
  exact program_of_statement (begins_paren _) hstatement

theorem program_enclosed_refused (hfirst : isNamePart first = true)
    (h : expression (parsers depth) Level.lowest false ⟨first :: (rest ++ ['\n', ')']), 1⟩ = none) :
    program (parsers (depth + 3)) (.ofText (enclose (first :: rest))) = none := by
  have hoperand : operand (parsers (depth + 1)) true ⟨'(' :: first :: (rest ++ ['\n', ')']), 0⟩ = none :=
    (operand_paren _ _ _ _).trans (bind_of_refused (group_refused hfirst h) _)
  have hstatement := @expressionStatement_refused (parsers (depth + 2)) _
    (expression_of_refused hoperand)
  rw [← statement_paren] at hstatement
  exact program_refused (begins_paren _) hstatement

end

/-! ## Parsing -/

section
variable {text : List Char} {root node : Node} {c : Cursor}

theorem parse?_of_program (hclean : '\x00' ∉ text)
    (h : program (parsers (2 * text.length + 10)) (.ofText text) = some (root, c)) :
    parse? text = if hasStrayDefault root then none else some root := by
  have hcontains : ¬ text.contains '\x00' = true := fun hmem => hclean (List.contains_iff_mem.mp hmem)
  rw [parse?, if_neg hcontains, h]

theorem parse?_refused (h : program (parsers (2 * text.length + 10)) (.ofText text) = none) :
    parse? text = none := by
  rw [parse?, h]
  split <;> rfl

theorem clean_of_parse? (h : parse? text = some root) : '\x00' ∉ text := by
  intro hmem
  rw [parse?, if_pos (List.contains_iff_mem.mpr hmem)] at h
  cases h

theorem hasStrayDefault_of_kind (hobject : (node.kind == .object) = false)
    (hpair : (node.kind == .pair) = false) :
    hasStrayDefault node = anyStrayDefault node.children := by
  obtain ⟨kind, start, stop, named, missing, field, children⟩ := node
  rw [hasStrayDefault, hobject, hpair, Bool.false_and, Bool.false_and, Bool.false_or, Bool.false_or]

theorem anyStrayDefault_singleton (node : Node) :
    anyStrayDefault [node] = hasStrayDefault node := by
  rw [anyStrayDefault, anyStrayDefault, Bool.or_false]

theorem hasStrayDefault_grouped (node : Node) (stop : Nat) :
    hasStrayDefault (grouped node stop) = hasStrayDefault node := by
  rw [hasStrayDefault_of_kind rfl rfl]
  exact anyStrayDefault_singleton node

theorem hasStrayDefault_sole (node : Node) (stop : Nat) :
    hasStrayDefault (sole node stop) = hasStrayDefault node := by
  rw [hasStrayDefault_of_kind rfl rfl]
  refine (anyStrayDefault_singleton _).trans ?_
  rw [hasStrayDefault_of_kind rfl rfl]
  exact anyStrayDefault_singleton node

theorem enclosedExpression?_sole (hnamed : node.named = true) (hkind : node.kind ≠ .comment)
    (length : Nat) :
    enclosedExpression? length (sole (grouped node length) length) = some node := by
  have hfirst : (grouped node length).firstExpression? = some node := by
    simp [Node.firstExpression?, Node.namedChildren, grouped, hnamed, hkind]
  have hlength : ((grouped node length).kind == .parenthesizedExpression &&
      (grouped node length).start == 0 && (grouped node length).stop == length) = true := by
    simp [grouped]
  show (do
    guard ((grouped node length).kind == .parenthesizedExpression &&
      (grouped node length).start == 0 && (grouped node length).stop == length)
    (grouped node length).firstExpression?) = some node
  rw [hlength, hfirst]
  rfl

theorem clean_enclose (h : '\x00' ∉ text) : '\x00' ∉ enclose text := by
  simp [enclose, h]

/-- A text that is one expression between parentheses. -/
theorem parseExpression_eq_ok (hparse : parse? (enclose text) =
      some (sole (grouped node (byteLength (enclose text))) (byteLength (enclose text))))
    (hnamed : node.named = true) (hkind : node.kind ≠ .comment) :
    ∃ parsed, parseExpression text = .ok parsed ∧ parsed.expression = node := by
  refine ⟨⟨sole (grouped node (byteLength (enclose text))) (byteLength (enclose text)), node,
    .ofSource text 1⟩, ?_, rfl⟩
  rw [parseExpression, hparse]
  dsimp only
  rw [enclosedExpression?_sole hnamed hkind]

/-- A text that begins with a name and is one expression up to its end. -/
theorem parseExpression_of_expression {first : Char} {rest : List Char} {depth : Nat}
    (hfirst : isNamePart first = true)
    (h : expression (parsers depth) Level.lowest false ⟨first :: (rest ++ ['\n', ')']), 1⟩ =
      some (node, ⟨['\n', ')'], 1 + byteLength (first :: rest)⟩))
    (hdepth : 2 * (enclose (first :: rest)).length + 10 = depth + 3)
    (hclean : '\x00' ∉ first :: rest) (hkind : isCallee node) (hnamed : node.named = true)
    (hsettled : hasStrayDefault node = false) :
    ∃ parsed, parseExpression (first :: rest) = .ok parsed ∧ parsed.expression = node := by
  have hlength : 1 + byteLength (first :: rest) + 2 = byteLength (enclose (first :: rest)) := by
    rw [enclose, byteLength_append, byteLength]
    rfl
  have hprogram := program_enclosed hfirst h hkind
  rw [← hdepth, hlength] at hprogram
  have hparse := parse?_of_program (clean_enclose hclean) hprogram
  rw [hasStrayDefault_sole, hasStrayDefault_grouped, hsettled, if_neg Bool.false_ne_true] at hparse
  refine parseExpression_eq_ok hparse hnamed ?_
  rcases hkind with hkind | hkind | hkind <;> rw [hkind] <;> decide

theorem parseExpression_refused {first : Char} {rest : List Char} {depth : Nat}
    (hfirst : isNamePart first = true)
    (h : expression (parsers depth) Level.lowest false ⟨first :: (rest ++ ['\n', ')']), 1⟩ = none)
    (hdepth : 2 * (enclose (first :: rest)).length + 10 = depth + 3) :
    parseExpression (first :: rest) = .error .ungrammatical := by
  have hprogram := program_enclosed_refused hfirst h
  rw [← hdepth] at hprogram
  rw [parseExpression, parse?_refused hprogram]

end

/-! ## Tags and tagged templates -/

section
variable {tag : List Char} {callee : Nat → Node} (htag : ReadsTag tag callee)

include htag

theorem ReadsTag.cons : ∃ first rest, tag = first :: rest ∧ isNamePart first = true := by
  obtain ⟨word, rest, rfl, hname, -⟩ := htag.begins
  obtain ⟨first, word, rfl, -, hpart⟩ := cons_of_isName hname
  exact ⟨first, word ++ rest, rfl, hpart⟩

/-- A tag before a template begins an expression statement. -/
theorem ReadsTag.statement (sub : Parsers) (rest : List Char) :
    Parser.statement sub ⟨tag ++ '\x60' :: rest, 0⟩ =
      expressionStatement sub ⟨tag ++ '\x60' :: rest, 0⟩ := by
  obtain ⟨word, marks, rfl, hname, hmarks⟩ := htag.begins
  rw [List.append_assoc]
  match marks with
  | [] => exact statement_name hname (by decide) rest 0 sub (by decide) (by decide) (by decide)
  | mark :: marks =>
    have hmark : mark = '.' ∨ mark = '(' := by
      rcases hmarks with h | h | h
      · cases h
      · exact .inl (Option.some.inj h)
      · exact .inr (Option.some.inj h)
    rcases hmark with rfl | rfl
    · exact statement_name hname (by decide) _ 0 sub (by decide) (by decide) (by decide)
    · exact statement_name hname (by decide) _ 0 sub (by decide) (by decide) (by decide)

/-- On its own a tag is one expression. -/
theorem ReadsTag.parseExpression :
    ∃ parsed, Script.parseExpression tag = .ok parsed ∧ parsed.expression = callee 1 := by
  obtain ⟨first, rest, rfl, hfirst⟩ := htag.cons
  obtain ⟨bound, hoperand⟩ := htag.reads (2 * rest.length + 14) false '\n' [')'] 1 (by decide)
    (fun pos => rfl)
  rw [extend_of_none (access_end (endsExpression_close _) true _)] at hoperand
  have hdepth : 2 * (enclose (first :: rest)).length + 10 = 2 * rest.length + 14 + 1 + 3 := by
    simp only [enclose, List.length_cons, List.length_append, List.length_nil]
    omega
  exact parseExpression_of_expression hfirst
    (expression_of_operand hoperand (endsExpression_close _)) hdepth htag.clean (htag.kind 1)
    (htag.named 1) (htag.settled 1)

end

/-! ## Stray defaults -/

theorem hasStrayDefault_of_mem {node child : Node} (h : hasStrayDefault node = false)
    (hchild : child ∈ node.children) : hasStrayDefault child = false := by
  have hall : ∀ nodes, anyStrayDefault nodes = false → ∀ child ∈ nodes,
      hasStrayDefault child = false := by
    intro nodes hnodes child hchild
    induction nodes with
    | nil => cases hchild
    | cons first nodes ih =>
      rw [anyStrayDefault, Bool.or_eq_false_iff] at hnodes
      rcases List.mem_cons.mp hchild with rfl | hchild
      · exact hnodes.1
      · exact ih hnodes.2 hchild
  obtain ⟨kind, start, stop, named, missing, field, children⟩ := node
  rw [hasStrayDefault, Bool.or_eq_false_iff] at h
  exact hall children h.2 child hchild

theorem anyStrayDefault_eq_false {nodes : List Node}
    (h : ∀ node ∈ nodes, hasStrayDefault node = false) : anyStrayDefault nodes = false := by
  induction nodes with
  | nil => rfl
  | cons first nodes ih =>
    rw [anyStrayDefault, h first List.mem_cons_self, Bool.false_or]
    exact ih fun node hnode => h node (List.mem_cons_of_mem _ hnode)

theorem mem_children_of_firstExpression? {node child : Node}
    (h : node.firstExpression? = some child) : child ∈ node.children :=
  (List.mem_filter.mp (List.mem_of_find?_eq_some h)).1

theorem settled_of_parse? {text : List Char} {root : Node} (h : parse? text = some root) :
    hasStrayDefault root = false := by
  rw [parse?] at h
  split at h
  · cases h
  split at h
  · split at h
    · cases h
    · next hstray =>
      cases h
      exact Bool.eq_false_iff.mpr hstray
  · cases h

theorem filter_of_soleStatement? {root statement : Node} (h : soleStatement? root = some statement) :
    root.namedChildren.filter (·.kind != .comment) = [statement] := by
  rw [soleStatement?] at h
  split at h
  · next hsole =>
    cases h
    exact hsole
  · cases h

theorem mem_namedChildren_of_soleStatement? {root statement : Node}
    (h : soleStatement? root = some statement) : statement ∈ root.namedChildren := by
  have hmem : statement ∈ root.namedChildren.filter (·.kind != .comment) := by
    rw [filter_of_soleStatement? h]
    exact List.mem_singleton_self _
  exact (List.mem_filter.mp hmem).1

theorem mem_children_of_soleStatement? {root statement : Node}
    (h : soleStatement? root = some statement) : statement ∈ root.children :=
  (List.mem_filter.mp (mem_namedChildren_of_soleStatement? h)).1

section
variable {text : List Char} {parsed : ParsedExpression} (h : parseExpression text = .ok parsed)
include h

/-- An expression that was read on its own stands between parentheses. -/
theorem exists_group_of_parseExpression :
    ∃ group, hasStrayDefault group = false ∧ group.firstExpression? = some parsed.expression := by
  rw [parseExpression] at h
  split at h
  · cases h
  next root hparse =>
  split at h
  · next expression henclosed =>
    cases h
    rw [enclosedExpression?] at henclosed
    simp only [Option.bind_eq_bind, Option.bind_eq_some_iff] at henclosed
    obtain ⟨statement, hstatement, -, -, group, hgroup, -, -, hexpression⟩ := henclosed
    refine ⟨group, ?_, hexpression⟩
    apply hasStrayDefault_of_mem _ (mem_children_of_firstExpression? hgroup)
    exact hasStrayDefault_of_mem (settled_of_parse? hparse)
      (mem_children_of_soleStatement? hstatement)
  · cases h

theorem clean_of_parseExpression : '\x00' ∉ text := by
  rw [parseExpression] at h
  split at h
  · cases h
  · next root hparse =>
    have hclean := clean_of_parse? hparse
    rw [enclose, List.mem_append, List.mem_cons] at hclean
    exact fun hmem => hclean (.inl (.inr hmem))

theorem hasStrayDefault_of_parseExpression : hasStrayDefault parsed.expression = false := by
  obtain ⟨group, hgroup, hexpression⟩ := exists_group_of_parseExpression h
  exact hasStrayDefault_of_mem hgroup (mem_children_of_firstExpression? hexpression)

theorem named_of_parseExpression : parsed.expression.named = true := by
  obtain ⟨group, -, hexpression⟩ := exists_group_of_parseExpression h
  exact (List.mem_filter.mp (List.mem_of_find?_eq_some hexpression)).2

end

theorem any_kind_of_alike {name name' : Node → String} {nodes others : List Node}
    (h : Node.AlikeAll name name' nodes others) (kind : Kind) :
    nodes.any (·.kind == kind) = others.any (·.kind == kind) := by
  have hforall := Node.alikeAll_iff.mp h
  clear h
  induction hforall with
  | nil => rfl
  | cons hnode _ ih => rw [List.any_cons, List.any_cons, ih, hnode.2.kind_eq]

mutual

theorem hasStrayDefault_of_alike {name name' : Node → String} {node other : Node}
    (h : node.Alike name name' other) : hasStrayDefault node = hasStrayDefault other := by
  match node, other with
  | ⟨kind, start, stop, named, missing, field, children⟩,
    ⟨kind', start', stop', named', missing', field', children'⟩ =>
    rw [Node.Alike] at h
    obtain ⟨rfl, -, -, -, hchildren⟩ := h
    rw [hasStrayDefault, hasStrayDefault, anyStrayDefault_of_alike hchildren,
      any_kind_of_alike hchildren, any_kind_of_alike hchildren]

theorem anyStrayDefault_of_alike {name name' : Node → String} {nodes others : List Node}
    (h : Node.AlikeAll name name' nodes others) : anyStrayDefault nodes = anyStrayDefault others := by
  match nodes, others with
  | [], [] => rfl
  | node :: nodes, other :: others =>
    rw [Node.AlikeAll] at h
    rw [anyStrayDefault, anyStrayDefault, hasStrayDefault_of_alike h.1.2,
      anyStrayDefault_of_alike h.2]

end

/-! ## Tagged templates as scripts -/

theorem hasStrayDefault_of_isReading {text hole : List Char} {node : Node}
    (h : IsReading text hole node) : hasStrayDefault node = false := by
  obtain ⟨parsed, lead, value, trail, hparsed, hchildren, hremarks, halike⟩ := h.children
  rw [hasStrayDefault_of_kind (by rw [h.kind]; rfl) (by rw [h.kind]; rfl)]
  apply anyStrayDefault_eq_false
  intro child hchild
  rw [hchildren, List.mem_append, List.mem_cons] at hchild
  have hremark : child ∈ lead ++ trail → hasStrayDefault child = false := by
    intro hmem
    obtain ⟨hkind, hnone⟩ := hremarks child hmem
    rw [Node.isRemark, Bool.or_eq_true, beq_iff_eq, beq_iff_eq] at hkind
    rcases hkind with hkind | hkind
    · rw [hasStrayDefault_of_kind (by rw [hkind]; rfl) (by rw [hkind]; rfl), hnone]
      rfl
    · rw [hasStrayDefault_of_kind (by rw [hkind]; rfl) (by rw [hkind]; rfl), hnone]
      rfl
  rcases hchild with hlead | rfl | htrail
  · exact hremark (List.mem_append_left _ hlead)
  · rw [hasStrayDefault_of_alike halike]
    exact hasStrayDefault_of_parseExpression hparsed
  · exact hremark (List.mem_append_right _ htrail)

theorem hasStrayDefault_as (node : Node) (field : Field) :
    hasStrayDefault (node.as field) = hasStrayDefault node := by
  obtain ⟨kind, start, stop, named, missing, field', children⟩ := node
  rw [Node.as, hasStrayDefault, hasStrayDefault]

theorem hasStrayDefault_of_isTagged {text : List Char} {callee node : Node}
    {holes : List (List Char)} (h : IsTagged text callee holes node)
    (hcallee : hasStrayDefault callee = false) : hasStrayDefault node = false := by
  obtain ⟨template, rfl, hkind, -, hholes⟩ := h
  have htemplate : hasStrayDefault template = false := by
    rw [hasStrayDefault_of_kind (by rw [hkind]; rfl) (by rw [hkind]; rfl)]
    generalize template.children = children at hholes
    induction hholes with
    | nil => rfl
    | cons hreading _ ih => rw [anyStrayDefault, hasStrayDefault_of_isReading hreading, ih]; rfl
  rw [hasStrayDefault_of_kind rfl rfl]
  show anyStrayDefault [callee.as .function, template.as .arguments] = false
  rw [anyStrayDefault, anyStrayDefault_singleton, hasStrayDefault_as, hasStrayDefault_as, hcallee,
    htemplate]
  rfl

section
variable {tag body : List Char} {callee : Nat → Node} {holes : List (List Char)} {ok : Bool}

/-- A tag and a template as they are written. -/
def taggedText (tag body : List Char) : List Char :=
  tag ++ '\x60' :: (body ++ ['\x60'])

/-- Between parentheses a tagged template is one expression. -/
theorem parseExpression_tagged (htag : ReadsTag tag callee) (hsteps : Steps holes body ok)
    (hclean : '\x00' ∉ taggedText tag body) :
    if ok then
      ∃ parsed, parseExpression (taggedText tag body) = .ok parsed ∧
        IsTagged (enclose (taggedText tag body)) (callee 1) holes parsed.expression
    else parseExpression (taggedText tag body) = .error .ungrammatical := by
  obtain ⟨first, rest, hcons, hfirst⟩ := htag.cons
  have htext : taggedText tag body = first :: (rest ++ '\x60' :: (body ++ ['\x60'])) := by
    rw [taggedText, hcons]
    rfl
  obtain ⟨depth, hlength, hdepth⟩ : ∃ depth,
      2 * (enclose (taggedText tag body)).length + 10 = depth + 1 + 3 ∧
        2 * body.length + 4 ≤ depth + 1 := by
    refine ⟨2 * (rest.length + body.length) + 18, ?_, by omega⟩
    simp only [htext, enclose, List.length_cons, List.length_append, List.length_nil]
    omega
  have hexpression := expression_tagged htag hsteps ['('] ['\n', ')'] endsExpression_close hdepth
  have hbehind : tag ++ '\x60' :: (body ++ '\x60' :: ['\n', ')']) =
      first :: (rest ++ '\x60' :: (body ++ ['\x60']) ++ ['\n', ')']) := by
    rw [hcons]
    simp
  have hwhole : ['('] ++ first :: (rest ++ '\x60' :: (body ++ ['\x60']) ++ ['\n', ')']) =
      enclose (taggedText tag body) := by
    rw [htext]
    rfl
  rw [hbehind, hwhole] at hexpression
  cases ok with
  | false =>
    rw [if_neg Bool.false_ne_true] at hexpression ⊢
    rw [htext]
    exact parseExpression_refused hfirst hexpression (htext ▸ hlength)
  | true =>
    rw [if_pos rfl] at hexpression ⊢
    obtain ⟨node, hexpression, hstop, htagged⟩ := hexpression
    have hsettled := hasStrayDefault_of_isTagged htagged (htag.settled _)
    have hkind : isCallee node := by
      obtain ⟨template, rfl, -⟩ := htagged
      exact .inr (.inr rfl)
    have hnamed : node.named = true := by
      obtain ⟨template, rfl, -⟩ := htagged
      rfl
    rw [hstop.trans (congrArg (1 + byteLength ·) htext)] at hexpression
    obtain ⟨parsed, hparsed, rfl⟩ := parseExpression_of_expression hfirst hexpression
      (htext ▸ hlength) (htext ▸ hclean) hkind hnamed hsettled
    exact ⟨parsed, htext ▸ hparsed, htagged⟩

/-- On its own a tagged template is a program of one statement. -/
theorem parse?_tagged (htag : ReadsTag tag callee) (hsteps : Steps holes body ok)
    (hclean : '\x00' ∉ taggedText tag body) :
    if ok then
      ∃ node stop, parse? (taggedText tag body) = some (sole node stop) ∧
        IsTagged (taggedText tag body) (callee 0) holes node
    else parse? (taggedText tag body) = none := by
  obtain ⟨first, rest, hcons, hfirst⟩ := htag.cons
  have htext : taggedText tag body = first :: (rest ++ '\x60' :: (body ++ ['\x60'])) := by
    rw [taggedText, hcons]
    rfl
  obtain ⟨depth, hlength, hdepth⟩ : ∃ depth,
      2 * (taggedText tag body).length + 10 = depth + 1 + 1 + 1 ∧ 2 * body.length + 4 ≤ depth + 1 := by
    refine ⟨2 * (rest.length + body.length) + 13, ?_, by omega⟩
    simp only [htext, List.length_cons, List.length_append, List.length_nil]
    omega
  have hbegins : BeginsScript first (rest ++ '\x60' :: (body ++ ['\x60'])) := by
    refine ⟨trivia_namePart hfirst, ne_of_namePart hfirst (by decide),
      ne_of_namePart hfirst (by decide)⟩
  have hexpression := expression_tagged htag hsteps [] [] endsExpression_end hdepth
  have hstatement := htag.statement (parsers (depth + 1 + 1)) (body ++ ['\x60'])
  rw [← taggedText, htext] at hstatement
  rw [← taggedText, htext] at hexpression
  cases ok with
  | false =>
    rw [if_neg Bool.false_ne_true] at hexpression ⊢
    apply parse?_refused
    rw [hlength, htext]
    apply program_refused hbegins
    exact hstatement.trans (expressionStatement_refused hexpression)
  | true =>
    rw [if_pos rfl] at hexpression ⊢
    obtain ⟨node, hexpression, -, htagged⟩ := hexpression
    have hprogram : program (parsers (depth + 1 + 1 + 1)) (.ofText (taggedText tag body)) =
        some (sole node node.stop, ⟨[], node.stop⟩) := by
      rw [htext]
      exact program_of_statement hbegins (hstatement.trans (expressionStatement_end hexpression))
    have hparse := parse?_of_program hclean (hlength ▸ hprogram)
    have hsettled := hasStrayDefault_of_isTagged htagged (htag.settled _)
    rw [hasStrayDefault_sole, hsettled, if_neg Bool.false_ne_true] at hparse
    exact ⟨node, node.stop, hparse, htext ▸ htagged⟩

end

end NotebookCell.Script
