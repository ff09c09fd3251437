import NotebookCell.Proofs.Reading.Declaration
import NotebookCell.Script.Grammar.Statement

/-!
# Loops and statements at two places

The remaining statements. Each begins with a character of its own, or it is an expression; what
stands behind that character is shorter, so that the entry points for statements need to agree on
shorter texts only (`m ≤ s + 1`).
-/

namespace NotebookCell.Script.Suffix

open NotebookCell.Tree NotebookCell.Script.Parser

variable {t : Suffix} {m n s : Nat} {sub sub' : Parsers}

/-! ## Conditions -/

/-- A word with a condition and a statement, as of `while` and `with`, takes its word first. -/
theorem reads_guarded_lt (h : t.Subs n n sub sub') {kind : Kind} (hkind : isPlain kind = true)
    {text : String} (htext : text.toList ≠ []) :
    t.Reads (n + 1) n t.Fresh (guarded sub kind text) (guarded sub' kind text) := by
  refine reads_position.bind fun hstart => (reads_keyword_lt htext).seq ?_
  refine reads_trivia.bind fun hgap => (reads_parenthesized h).bind fun hcondition => ?_
  refine reads_trivia.bind fun hgap' => (h.statement n le_rfl).bind fun hbody => ?_
  exact reads_node hkind hstart (((hgap.append hcondition.one).append hgap').append hbody.one)

/-- A `do` loop, with a body in front of its condition and a semicolon that may be missing. -/
theorem reads_doStatement_lt (h : t.Subs n n sub sub') :
    t.Reads (n + 1) n t.Fresh (doStatement sub) (doStatement sub') := by
  refine reads_position.bind fun hstart => (reads_keyword_lt (by decide)).seq ?_
  refine reads_trivia.bind fun hgap₁ => (h.statement n le_rfl).bind fun hbody => ?_
  refine reads_trivia.bind fun hgap₂ => (reads_keyword "while").seq ?_
  refine reads_trivia.bind fun hgap₃ => (reads_parenthesized h).bind fun hcondition => ?_
  refine (reads_optional (reads_semicolon false) le_rfl).bind fun hgap₄ => ?_
  exact reads_node rfl hstart (((((hgap₁.append hbody.one).append hgap₂).append hgap₃).append
    hcondition.one).append (getD_of_rel hgap₄))

/-! ## Over the elements of a value -/

/-- What a loop assigns to is a pattern at one place if it is one at the other. -/
theorem rel_loopTarget? {a b : Node} (h : t.Fresh a b) :
    Option.Rel t.Fresh (loopTarget? a) (loopTarget? b) := by
  have hpattern : Option.Rel t.Fresh (asPattern? a) (asPattern? b) :=
    rel_imp (fun _ _ hnode => hnode.mono fun _ hfield => hfield.trans h.1) (rel_asPattern? h)
  rw [loopTarget?.eq_def, loopTarget?.eq_def, h.kind_eq]
  split
  case h_1 | h_2 => exact hpattern
  case h_3 | h_4 | h_5 | h_6 | h_7 => exact .some h
  case h_8 => exact .none

/-- The keyword of a loop variable has the role `kind`. -/
theorem reads_loopKeyword (text : String) :
    t.Reads m m (t.Copy fun node => node.field = some .kind) (loopKeyword text)
      (loopKeyword text) := by
  refine reads_position.bind fun hstart => (reads_keyword text).seq ?_
  refine (reads_built rfl hstart (.nil (P := fun _ => True))).bind @fun node _ hnode => ?_
  have hword : isKeyword node.kind = true := by rw [hnode.1.1]; rfl
  exact .ret ((hnode.as .kind).anonymous hword hnode.1.2.2.2)

/-- A loop variable declared with `let` or `const`, which has no value of its own. -/
theorem reads_blockVariable (h : t.Subs m s sub sub') (text : String) :
    t.Reads m m t.Parts (blockVariable sub text) (blockVariable sub' text) := by
  refine (reads_loopKeyword text).bind fun hword => reads_trivia.bind fun hgap => ?_
  refine (reads_binding h).bind fun htarget => (reads_suppliedSemicolon false).bind ?_
  intro _ _ hgap'
  exact .ret (((hword.one.append hgap).append (htarget.as .left).one).append hgap')

/-- A loop variable declared with `var`, which may have a value. -/
theorem reads_functionVariable (h : t.Subs m s sub sub') (level : Nat) (asi : Bool) :
    t.Reads m m t.Parts (functionVariable sub level asi) (functionVariable sub' level asi) := by
  refine (reads_loopKeyword "var").bind fun hword => reads_trivia.bind fun hgap => ?_
  refine (reads_binding h).bind fun htarget => .get fun c hc => ?_
  have hhead := (hword.one.append hgap).append (htarget.as .left).one
  have hnext : Option.Rel (t.Next m) (c.nextToken? (fun c => asi && c.endsStatement false) c.rest)
      ((c.moved t.offset).nextToken? (fun c => asi && c.endsStatement false) c.rest) :=
    rel_nextToken? (fun _ => rfl) c.rest hc
  rw [Cursor.rest_moved]
  refine rel_elim hnext reads_failure ?_
  rintro ⟨gap, d⟩ ⟨gap', _⟩ ⟨hgap', hd, rfl⟩
  refine .ite (fun _ => ?_) fun _ => .ret hhead
  refine (reads_set ⟨hd, rfl⟩).seq <| (reads_literal "=").seq ?_
  refine reads_trivia.bind fun hgap'' => (h.expression m le_rfl _ _).bind fun hvalue => ?_
  refine (reads_lookahead asi).bind fun hahead => ?_
  rw [isSome_eq_of_rel hahead]
  refine (reads_require _).seq ?_
  exact .ret (((hhead.append hgap').append hgap'').append (hvalue.as .value).one)

/-- A loop over elements from `in` or `of` on. -/
theorem reads_elementsRest (h : t.Subs n n sub sub') {start start' : Nat} {lead lead' : List Node}
    (hstart : t.At start start') (hlead : t.Parts lead lead') :
    t.Reads n n t.Fresh (elementsRest sub start lead) (elementsRest sub' start' lead') := by
  refine reads_plainTrivia.bind fun hgap₁ => ?_
  refine ((reads_keyword "in").orElse (reads_keyword "of")).seq ?_
  refine reads_trivia.bind fun hgap₂ => (reads_expressions h false).bind fun hvalue => ?_
  refine reads_plainTrivia.bind fun hgap₃ => (reads_literal ")").seq ?_
  refine reads_trivia.bind fun hgap₄ => (h.statement n le_rfl).bind fun hbody => ?_
  exact reads_node rfl hstart ((((((hlead.append hgap₁).append hgap₂).append hvalue.one).append
    hgap₃).append hgap₄).append hbody.one)

/-- A loop over elements, whichever kind of variable or target it has. -/
theorem reads_elementsLoop (h : t.Subs n n sub sub') (asi : Bool) {start start' : Nat}
    {lead lead' : List Node} (hstart : t.At start start') (hlead : t.Parts lead lead') :
    t.Reads n n t.Fresh (elementsLoop sub asi start lead) (elementsLoop sub' asi start' lead') := by
  refine (reads_literal "(").seq <| reads_trivia.bind @fun gap gap' hgap => ?_
  have hrest {header header' : Parser (List Node)} (hheader : t.Reads n n t.Parts header header') :
      t.Reads n n t.Fresh
        (do
          let target ← header
          elementsRest sub start (lead ++ gap ++ target))
        (do
          let target ← header'
          elementsRest sub' start' (lead' ++ gap' ++ target)) :=
    hheader.bind fun htarget => reads_elementsRest h hstart ((hlead.append hgap).append htarget)
  have htargetOf {operand operand' : Parser Node} (hoperand : t.Reads n n t.Fresh operand operand') :
      t.Reads n n t.Parts
        (do
          let target ← ofOption (loopTarget? (← operand))
          return [target.as .left])
        (do
          let target ← ofOption (loopTarget? (← operand'))
          return [target.as .left]) :=
    hoperand.bind fun hnode => (reads_ofOption (rel_loopTarget? hnode)).bind fun htarget =>
      .ret (htarget.as .left).one.parts
  have hplain := (hrest (htargetOf (.inner fun _ hn => reads_chain_lt (h.mono hn.le hn.le) false))).orElse
    (hrest (htargetOf (.inner fun _ hn => reads_primary_lt (h.mono hn.le hn.le) false false)))
  refine .get fun c _ => ?_
  rw [Cursor.word_moved]
  dsimp only
  split
  · exact (hrest (reads_functionVariable h _ asi)).orElse (hrest (reads_functionVariable h _ asi))
  · exact hrest (reads_blockVariable h "const")
  · exact (hrest (reads_blockVariable h "let")).orElse hplain
  · exact hplain

/-! ## With a step -/

/-- One of the clauses between the semicolons of a loop; it may be empty. -/
theorem reads_clause (h : t.Subs m s sub sub') :
    t.Reads m m t.Parts (clause sub) (clause sub') := by
  refine reads_position.bind fun hstart => .get fun c _ => ?_
  refine .ite (fun _ => (reads_literal ";").seq ?_) fun _ => ?_
  · refine (reads_node rfl hstart (.nil (P := fun _ => True))).bind fun hnode => ?_
    exact .ret hnode.one.parts
  · refine (reads_expressions h false).bind fun hvalue => reads_plainTrivia.bind fun hgap => ?_
    exact (reads_literal ";").seq <| .ret (hvalue.cons hgap)

/-- A loop with a condition and a step, behind its first clause. -/
theorem reads_steppedLoop (h : t.Subs n n sub sub') {start start' : Nat} {lead lead' : List Node}
    (hstart : t.At start start') (hlead : t.Parts lead lead') :
    t.Reads n n t.Fresh (steppedLoop sub start lead) (steppedLoop sub' start' lead') := by
  refine (reads_literal "(").seq <| reads_trivia.bind @fun gap₁ gap₁' hgap₁ => ?_
  -- what follows the initialiser, and what follows the step
  have hrest {front front' : List Node} (hfront : t.Parts front front') : ∀ {step step'},
      t.Parts step step' → t.Reads n n t.Fresh
        (do
          literal ")"
          let gap₄ ← trivia
          let body ← sub.statement
          node .forStatement start (front ++ step ++ gap₄ ++ [body]))
        (do
          literal ")"
          let gap₄ ← trivia
          let body ← sub'.statement
          node .forStatement start' (front' ++ step' ++ gap₄ ++ [body])) := fun hstep =>
    (reads_literal ")").seq <| reads_trivia.bind fun hgap₄ =>
      (h.statement n le_rfl).bind fun hbody =>
        reads_node rfl hstart (((hfront.append hstep).append hgap₄).append hbody.one)
  have hsteps : ∀ {first first'}, t.Parts first first' → t.Reads n n t.Fresh
      (do
        let gap₂ ← trivia
        let condition ← clause sub
        let gap₃ ← trivia
        let step ← if (← get).startsWith ")" then pure [] else do
          let value ← expressions sub false
          pure (value :: (← plainTrivia))
        literal ")"
        let gap₄ ← trivia
        let body ← sub.statement
        node .forStatement start
          (lead ++ gap₁ ++ first ++ gap₂ ++ condition ++ gap₃ ++ step ++ gap₄ ++ [body]))
      (do
        let gap₂ ← trivia
        let condition ← clause sub'
        let gap₃ ← trivia
        let step ← if (← get).startsWith ")" then pure [] else do
          let value ← expressions sub' false
          pure (value :: (← plainTrivia))
        literal ")"
        let gap₄ ← trivia
        let body ← sub'.statement
        node .forStatement start'
          (lead' ++ gap₁' ++ first' ++ gap₂ ++ condition ++ gap₃ ++ step ++ gap₄ ++ [body])) := by
    intro first first' hfirst
    refine reads_trivia.bind fun hgap₂ => (reads_clause h).bind fun hcondition => ?_
    refine reads_trivia.bind fun hgap₃ => .get fun d _ => ?_
    have hfront := ((((hlead.append hgap₁).append hfirst).append hgap₂).append hcondition).append hgap₃
    refine .ite (fun _ => (Reads.ret .nil).bind (hrest hfront)) fun _ => ?_
    refine (reads_expressions h false).bind fun hvalue => reads_plainTrivia.bind fun hgap => ?_
    exact (Reads.ret (hvalue.cons hgap)).bind (hrest hfront)
  refine .get fun c _ => ?_
  rw [Cursor.word_moved]
  dsimp only
  split
  · refine (reads_declareVariables h rfl _).bind fun hnode => ?_
    exact (Reads.ret hnode.one.parts).bind hsteps
  · refine (reads_declareVariables h rfl _).bind fun hnode => ?_
    exact (Reads.ret hnode.one.parts).bind hsteps
  · refine Reads.bind (.orElse ?_ (reads_clause h)) hsteps
    exact (reads_declareVariables h rfl _).bind fun hnode => .ret hnode.one.parts
  · exact (reads_clause h).bind hsteps

/-- Both kinds of `for` loops. They are told apart by trying, and the alternatives fail alike at both
places. -/
theorem reads_forLoop_lt (h : t.Subs n n sub sub') :
    t.Reads (n + 1) n t.Fresh (forLoop sub) (forLoop sub') := by
  refine reads_position.bind fun hstart => (reads_keyword_lt (by decide)).seq ?_
  refine reads_trivia.bind fun hgap => .get fun c hc => ?_
  refine .ite (fun _ => ?_) fun _ => ?_
  · refine (reads_keyword "await").seq ?_
    refine (reads_built rfl hc.at (.nil (P := fun _ => True))).bind @fun node _ hnode => ?_
    refine reads_trivia.bind fun hgap' => ?_
    have hword : isKeyword node.kind = true := by rw [hnode.1.1]; rfl
    have hawait := hnode.anonymous hword hnode.1.2.2.2
    exact reads_elementsLoop h false hstart ((hgap.append hawait.one).append hgap')
  · exact (reads_elementsLoop h true hstart hgap.parts).orElse
      (reads_steppedLoop h hstart hgap.parts)

/-! ## Expressions as statements -/

/-- An expression statement behind its first operand. -/
theorem reads_expressionRest (h : t.Subs m s sub sub') {first first' : Node}
    (hfirst : t.Fresh first first') :
    t.Reads m m t.Fresh (expressionRest sub first) (expressionRest sub' first') := by
  refine (reads_sequenceFrom h true hfirst).bind fun hvalue => ?_
  refine (reads_semicolon true).bind fun hgap => ?_
  exact reads_node rfl hvalue.at_start (hvalue.cons hgap)

theorem reads_expressionStatement (h : t.Subs m s sub sub') :
    t.Reads m m t.Fresh (expressionStatement sub) (expressionStatement sub') :=
  (h.expression m le_rfl _ _).bind fun hfirst => reads_expressionRest h hfirst

/-- A block takes its opening brace before any statement. -/
theorem reads_blockAlone_lt (h : t.Subs m n sub sub') :
    t.Reads (n + 1) n t.Fresh (blockAlone sub) (blockAlone sub') := by
  refine (reads_ambiguousBlock_lt h fun _ _ hparts => hparts.all_isRemark).bind fun hbody => ?_
  rw [hbody.children.all_isRemark]
  refine .branch (fun _ => reads_lookahead true) (fun _ => reads_lookaheadPlain) ?_
  rintro _ _ (@⟨⟨gap, c⟩, ⟨gap', _⟩, -, -, rfl⟩ | _)
  · exact (reads_require _).seq <| .ret hbody
  · exact .ret hbody

/-- A statement that begins with a brace is a block, or an expression if it is no block. -/
theorem reads_braceStatement (h : t.Subs m s sub sub') (hs : m ≤ s + 1) :
    t.Reads m m t.Fresh (braceStatement sub) (braceStatement sub') := by
  refine (reads_blockOrElse (fun n hn => h.mono hn.le (by omega))
    (.inner fun n hn => reads_blockAlone_lt (h.mono hn.le (by omega)))
    (reads_expressionStatement h)).bind fun hnode => ?_
  rw [hnode.kind_eq, hnode.children.all_isRemark]
  refine .ite (fun _ => ?_) fun _ => .ret hnode
  exact (reads_noMarkupComment _).seq <| .ret hnode

/-- A label takes at least one character, so the statement behind it is shorter. -/
theorem reads_labeledStatement_lt (h : t.Subs m n sub sub') :
    t.Reads (n + 1) n t.Fresh (labeledStatement sub) (labeledStatement sub') := by
  refine (reads_word rfl).bind fun hlabel => reads_plainTrivia.bind fun hgap => ?_
  refine (reads_literal ":").seq <| reads_trivia.bind fun hgap' => ?_
  refine (h.statement n le_rfl).bind fun hbody => ?_
  exact reads_node rfl hlabel.at_start (((hlabel.one.append hgap).append hgap').append hbody.one)

/-- Looking ahead for the colon of a label gives the same answer at both places. -/
theorem reads_seesColon : t.Reads m m (fun x y => y = x) seesColon seesColon := by
  refine .get fun c hc => ?_
  have htest : t.Reads m m Any
      (do
        let _ ← word .statementIdentifier
        let _ ← plainTrivia
        literal ":")
      (do
        let _ ← word .statementIdentifier
        let _ ← plainTrivia
        literal ":") :=
    (Reads.inner fun _ _ => reads_word rfl).seq <| reads_plainTrivia.seq <|
      reads_literal ":"
  refine (reads_optional htest le_rfl).bind fun hanswer => ?_
  refine (reads_set ⟨hc, rfl⟩).seq <| .ret ?_
  exact isSome_eq_of_rel hanswer

/-! ## Branches -/

/-- A branch with its alternative, if it has one. -/
theorem reads_ifStatement_lt (h : t.Subs n n sub sub') :
    t.Reads (n + 1) n t.Fresh (ifStatement sub) (ifStatement sub') := by
  refine (reads_guarded_lt h rfl (by decide)).bind fun hfirst => .get fun c hc => ?_
  refine reads_trivia.bind fun hgap => reads_position.bind fun hstart => .get fun d _ => ?_
  refine .ite (fun _ => ?_) fun _ => (reads_set ⟨hc, rfl⟩).seq <| .ret hfirst
  refine (reads_keyword "else").seq <| reads_trivia.bind fun hgap' => ?_
  refine (h.statement n le_rfl).bind fun hbody => ?_
  refine (reads_node rfl hstart (hgap'.append hbody.one)).bind fun hclause => ?_
  exact reads_node rfl hfirst.at_start ((hfirst.children.append hgap).append hclause.one)

/-- One statement of a case, or its end. -/
theorem reads_caseStep (h : t.Subs m n sub sub') :
    t.Reads n n (Option.Rel t.Parts) (caseStep sub) (caseStep sub') := by
  refine .get fun c hc => ?_
  refine reads_trivia.bind fun hgap => .get fun d _ => ?_
  refine .ite (fun _ => (reads_set ⟨hc, rfl⟩).seq <| .ret .none) fun _ => ?_
  exact (h.statement n le_rfl).bind fun hnode => .ret (.some (hgap.append hnode.one))

/-- One case of a switch, or none in front of the closing brace. -/
theorem reads_switchCase (h : t.Subs n n sub sub') :
    t.Reads n n (Option.Rel t.Parts) (switchCase sub) (switchCase sub') := by
  refine .get fun c hc => ?_
  refine .ite (fun _ => ?_) fun _ => .ite (fun _ => ?_) fun _ => .ret .none
  · refine (reads_keyword "case").seq <| reads_trivia.bind fun hgap => ?_
    refine (reads_expressions h false).bind fun hvalue => reads_plainTrivia.bind fun hgap' => ?_
    refine (reads_literal ":").seq <| (reads_many (reads_caseStep h)).bind fun hbody => ?_
    refine (reads_node rfl hc.at (((hgap.append hvalue.one).append hgap').append
      (Copies.flatten hbody))).bind fun hcase => ?_
    exact reads_trivia.bind fun htrail => .ret (.some (hcase.cons htrail))
  · refine (reads_keyword "default").seq <| reads_trivia.bind fun hgap => ?_
    refine (reads_literal ":").seq <| (reads_many (reads_caseStep h)).bind fun hbody => ?_
    refine (reads_node rfl hc.at (hgap.append (Copies.flatten hbody))).bind fun hcase => ?_
    exact reads_trivia.bind fun htrail => .ret (.some (hcase.cons htrail))

/-- A switch with all its cases. -/
theorem reads_switchStatement_lt (h : t.Subs n n sub sub') :
    t.Reads (n + 1) n t.Fresh (switchStatement sub) (switchStatement sub') := by
  refine reads_position.bind fun hstart => (reads_keyword_lt (by decide)).seq ?_
  refine reads_trivia.bind fun hgap => (reads_parenthesized h).bind fun hvalue => ?_
  refine reads_trivia.bind fun hgap' => reads_position.bind fun hbodyStart => ?_
  refine (reads_literal _).seq <| reads_trivia.bind fun hlead => ?_
  refine (reads_many (reads_switchCase h)).bind fun hcases => (reads_literal _).seq ?_
  refine (reads_node rfl hbodyStart (hlead.append (Copies.flatten hcases))).bind fun hbody => ?_
  exact reads_node rfl hstart (((hgap.append hvalue.one).append hgap').append hbody.one)

/-! ## Exceptions -/

theorem reads_handledBlock (h : t.Subs m n sub sub') :
    t.Reads n n t.Fresh (handledBlock sub) (handledBlock sub') :=
  (reads_block h false).bind fun hbody => (reads_noMarkupComment false).seq <|
    .ret hbody

/-- A clause that comes behind its word, with the comments in front of it. -/
theorem reads_clauseAfter (text : String) {clause clause' : Parser Node}
    (h : t.Reads m m t.Fresh clause clause') :
    t.Reads m m t.Parts (clauseAfter text clause) (clauseAfter text clause') := by
  refine .get fun c hc => ?_
  refine reads_trivia.bind fun hgap => .get fun d _ => ?_
  refine .ite (fun _ => ?_) fun _ => (reads_set ⟨hc, rfl⟩).seq <| .ret .nil
  exact h.bind fun hclause => .ret (hgap.append hclause.one)

/-- A handler, with or without a parameter. -/
theorem reads_catchClause (h : t.Subs n n sub sub') :
    t.Reads n n t.Fresh (catchClause sub) (catchClause sub') := by
  refine reads_position.bind @fun start start' hstart => (reads_keyword "catch").seq ?_
  refine reads_trivia.bind @fun gap gap' hgap => .get fun c _ => ?_
  have hrest : ∀ {xs ys}, t.Parts xs ys → t.Reads n n t.Fresh
      (do
        let body ← handledBlock sub
        node .catchClause start (gap ++ xs ++ [body]))
      (do
        let body ← handledBlock sub'
        node .catchClause start' (gap' ++ ys ++ [body])) := fun hparam =>
    (reads_handledBlock h).bind fun hbody =>
      reads_node rfl hstart ((hgap.append hparam).append hbody.one)
  refine .ite (fun _ => ?_) fun _ => (Reads.ret .nil).bind hrest
  refine (reads_literal "(").seq <| reads_trivia.bind fun hgap₁ => ?_
  refine (reads_binding h).bind fun htarget => reads_plainTrivia.bind fun hgap₂ => ?_
  refine (reads_literal ")").seq <| reads_trivia.bind fun hgap₃ => ?_
  exact (Reads.ret (((hgap₁.append (htarget.as .parameter).one).append hgap₂).append hgap₃)).bind
    hrest

theorem reads_finallyClause (h : t.Subs m n sub sub') :
    t.Reads n n t.Fresh (finallyClause sub) (finallyClause sub') := by
  refine reads_position.bind fun hstart => (reads_keyword "finally").seq ?_
  refine reads_trivia.bind fun hgap => (reads_handledBlock h).bind fun hbody => ?_
  exact reads_node rfl hstart (hgap.append hbody.one)

/-- A guarded block with a handler, a final block or both. -/
theorem reads_tryStatement_lt (h : t.Subs n n sub sub') :
    t.Reads (n + 1) n t.Fresh (tryStatement sub) (tryStatement sub') := by
  refine reads_position.bind fun hstart => (reads_keyword_lt (by decide)).seq ?_
  refine reads_trivia.bind fun hgap => (reads_handledBlock h).bind fun hbody => ?_
  refine (reads_clauseAfter "catch" (reads_catchClause h)).bind fun hhandler => ?_
  refine (reads_clauseAfter "finally" (reads_finallyClause h)).bind fun hfinal => ?_
  exact reads_node rfl hstart (((hgap.append hbody.one).append hhandler).append hfinal)

/-! ## Jumps -/

/-- A jump may name a label on the same line. -/
theorem reads_jump {kind : Kind} (hkind : isPlain kind = true) (text : String) :
    t.Reads m m t.Fresh (jump kind text) (jump kind text) := by
  refine reads_position.bind @fun start start' hstart => (reads_keyword text).seq ?_
  have hrest : ∀ {xs ys}, t.Parts xs ys → t.Reads m m t.Fresh
      (do
        let gap ← semicolon false
        node kind start (xs ++ gap))
      (do
        let gap ← semicolon false
        node kind start' (ys ++ gap)) := fun hlabel =>
    (reads_semicolon false).bind fun hgap => reads_node hkind hstart (hlabel.append hgap)
  refine reads_lookaheadPlain.next (fun hgap hc => ?_) ?_
  · refine .ite (fun _ => (Reads.ret .nil).bind hrest) fun _ => ?_
    refine (reads_set ⟨hc, rfl⟩).seq ?_
    refine (Reads.inner fun _ _ => reads_name rfl).bind fun hname => ?_
    exact (Reads.ret (hgap.append hname.one)).bind hrest
  · exact (Reads.ret .nil).bind hrest

theorem reads_debuggerStatement :
    t.Reads m m t.Fresh debuggerStatement debuggerStatement := by
  refine reads_position.bind fun hstart => (reads_keyword "debugger").seq ?_
  exact (reads_semicolon false).bind fun hgap => reads_node rfl hstart hgap

/-- What is returned begins on the line of the word, or nothing is returned. -/
theorem reads_returnStatement (h : t.Subs m s sub sub') :
    t.Reads m m t.Fresh (returnStatement sub) (returnStatement sub') := by
  refine reads_position.bind @fun start start' hstart => (reads_keyword "return").seq ?_
  have hbare : t.Reads m m t.Fresh
      (do
        let gap ← semicolon false
        node .returnStatement start gap)
      (do
        let gap ← semicolon false
        node .returnStatement start' gap) :=
    (reads_semicolon false).bind fun hgap => reads_node rfl hstart hgap
  refine reads_lookaheadPlain.next (fun hgap hc => ?_) ?_
  · refine .ite (fun _ => hbare) fun _ => (reads_set ⟨hc, rfl⟩).seq ?_
    refine (reads_expressions h true).bind fun hvalue => (reads_semicolon true).bind ?_
    exact fun hgap' => reads_node rfl hstart ((hgap.append hvalue.one).append hgap')
  · exact hbare

theorem reads_throwStatement (h : t.Subs m s sub sub') :
    t.Reads m m t.Fresh (throwStatement sub) (throwStatement sub') := by
  refine reads_position.bind fun hstart => (reads_keyword "throw").seq ?_
  refine reads_trivia.bind fun hgap => (reads_expressions h true).bind fun hvalue => ?_
  refine (reads_semicolon true).bind fun hgap' => ?_
  exact reads_node rfl hstart ((hgap.append hvalue.one).append hgap')

/-! ## Words with several uses -/

/-- The word `export` begins an export if one can be read, and an expression otherwise. -/
theorem reads_exportOrName (h : t.Subs m s sub sub') (hs : m ≤ s + 1) :
    t.Reads m m t.Fresh (exportOrName sub) (exportOrName sub') := by
  refine .get fun c hc => ?_
  dsimp only
  refine rel_elim (hc.nextToken 6 (·.endsStatement true) fun _ => rfl)
    (reads_expressionStatement h) ?_
  rintro ⟨gap, d⟩ ⟨gap', _⟩ ⟨-, -, rfl⟩
  exact .ite (fun _ => reads_exportStatement h hs hc.at .nil) fun _ => reads_expressionStatement h

/-- The word `import` begins an import declaration, or an expression if a call or a property follows. -/
theorem reads_importOrCall (h : t.Subs m s sub sub') (hs : m ≤ s + 1) :
    t.Reads m m t.Fresh (importOrCall sub) (importOrCall sub') := by
  refine .get fun c hc => ?_
  dsimp only
  refine rel_elim (hc.nextToken 6 (fun _ => false) fun _ => rfl) reads_failure ?_
  rintro ⟨gap, d⟩ ⟨gap', _⟩ ⟨-, -, rfl⟩
  exact .ite (fun _ => reads_expressionStatement h) fun _ => reads_importStatement h hs

/-- Decorators in front of a class or of an export. -/
theorem reads_decorated (h : t.Subs m s sub sub') (hs : m ≤ s + 1) :
    t.Reads m m t.Fresh (decorated sub) (decorated sub') := by
  refine .get fun c hc => ?_
  refine (reads_decorators fun n hn => h.mono hn.le le_rfl).bind fun hlead => .get fun d _ => ?_
  refine .ite (fun _ => reads_exportStatement h hs hc.at hlead) fun _ => .get fun e _ => ?_
  refine (reads_require _).seq <| (reads_set ⟨hc, rfl⟩).seq ?_
  exact reads_definitionOr h hs fun hfirst => reads_expressionRest h hfirst

/-- A statement by its first word, all words of the grammar together. -/
theorem reads_wordStatement (h : t.Subs m s sub sub') (hs : m ≤ s + 1) :
    t.Reads m m t.Fresh (wordStatement sub) (wordStatement sub') := by
  have hlt {n : Nat} (hn : n < m) : t.Subs n n sub sub' := h.mono hn.le (by omega)
  refine .get fun c _ => ?_
  rw [Cursor.word_moved]
  split
  · exact reads_declareVariables h rfl _
  · exact reads_declareVariables h rfl _
  · refine reads_letDeclares.bind ?_
    rintro _ declares rfl
    exact .ite (fun _ => reads_declareVariables h rfl _) fun _ => reads_expressionStatement h
  · exact reads_declareVariables h rfl _
  · refine reads_awaitDeclares.bind ?_
    rintro _ declares rfl
    exact .ite (fun _ => reads_awaitUsing h) fun _ => reads_expressionStatement h
  · exact reads_importOrCall h hs
  · exact reads_exportOrName h hs
  · exact .inner fun _ hn => reads_ifStatement_lt (hlt hn)
  · exact .inner fun _ hn => reads_switchStatement_lt (hlt hn)
  · exact .inner fun _ hn => reads_forLoop_lt (hlt hn)
  · exact .inner fun _ hn => reads_guarded_lt (hlt hn) rfl (by decide)
  · exact .inner fun _ hn => reads_guarded_lt (hlt hn) rfl (by decide)
  · exact .inner fun _ hn => reads_doStatement_lt (hlt hn)
  · exact .inner fun _ hn => reads_tryStatement_lt (hlt hn)
  · exact reads_jump rfl _
  · exact reads_jump rfl _
  · exact reads_returnStatement h
  · exact reads_throwStatement h
  · exact reads_debuggerStatement
  · refine reads_seesDefinition.bind ?_
    rintro _ defines rfl
    refine .ite (fun _ => ?_) fun _ => reads_expressionStatement h
    exact reads_definitionOr h hs fun hfirst => reads_expressionRest h hfirst

/-- Statements read alike at two places if the entry points do on expressions of the same length and on
statements that are shorter. -/
theorem reads_statement (h : t.Subs m s sub sub') (hs : m ≤ s + 1) :
    t.Reads m m t.Fresh (statement sub) (statement sub') := by
  refine .get fun c hc => ?_
  rw [Cursor.rest_moved]
  split
  · exact reads_braceStatement h hs
  · refine (reads_literal ";").seq ?_
    exact reads_node rfl hc.at (.nil (P := fun _ => True))
  · exact reads_decorated h hs
  · refine reads_seesColon.bind ?_
    rintro _ colon rfl
    refine .ite (fun _ => ?_) fun _ => .ite (fun _ => reads_expressionStatement h) fun _ =>
      reads_wordStatement h hs
    exact .inner fun n hn => reads_labeledStatement_lt (h.mono le_rfl (by omega))

/-- The first statement behind a brace that could also open an object. -/
theorem reads_openingStatement (h : t.Subs m s sub sub') (hs : m ≤ s + 1) :
    t.Reads m m t.Fresh (openingStatement sub) (openingStatement sub') := by
  refine .get fun c _ => ?_
  refine .ite (fun _ => reads_statement h hs) fun _ => reads_seesColon.bind ?_
  rintro _ colon rfl
  refine .ite (fun _ => .inner fun n hn => reads_labeledStatement_lt (h.mono le_rfl (by omega)))
    fun _ => ?_
  refine (Reads.inner fun _ _ => reads_word rfl).bind fun hid => ?_
  exact (reads_continueFrom h _ _ hid.fresh).bind fun hfirst => reads_expressionRest h hfirst

end NotebookCell.Script.Suffix
