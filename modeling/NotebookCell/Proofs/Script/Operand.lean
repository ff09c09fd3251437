import NotebookCell.Proofs.Script.Name

/-!
# Where an expression ends

Behind an operand the grammar looks ahead to the next token. At the end of a statement, at a comma
and at a closing parenthesis or brace nothing can continue an expression (`EndsExpression`), so what
has been read so far is the whole of it.

* `access_end`, `assignment_end`, `operation_end`: nothing is read where an expression ends;
* `expression_of_operand`: an operand that is a whole expression;
* `access_dot`, `access_template`: an access by name, and a tagged template.
-/

namespace NotebookCell.Script

open NotebookCell.Tree

namespace Parser

/-! ## Looking ahead -/

section
variable {first : Char} {tail : List Char} {pos : Nat}

theorem isLineBreak_of_blank (hblank : isBlank first = false) : isLineBreak first = false := by
  rw [← Bool.not_eq_true] at hblank ⊢
  intro h
  apply hblank
  simp only [isBlank, h, Bool.or_true, Bool.true_or]

/-- A token that is no brace ends no statement. -/
theorem endsStatement_token (hblank : isBlank first = false) (hslash : first ≠ '/')
    (hbrace : first ≠ '\x7d') (operand : Bool) :
    (⟨first :: tail, pos⟩ : Cursor).endsStatement operand = false := by
  have hspacing : isSpacing first = false := by
    rw [← Bool.not_eq_true] at hblank ⊢
    exact fun h => hblank (isBlank_of_isSpacing h)
  rw [Cursor.endsStatement, suppliesSemicolon]
  simp only [beq_eq_false_iff_ne.mpr hslash, beq_eq_false_iff_ne.mpr hbrace,
    isLineBreak_of_blank hblank, hspacing]
  rfl

theorem lookahead_token (hblank : isBlank first = false) (hslash : first ≠ '/')
    (hbrace : first ≠ '\x7d') (asi : Bool) :
    lookahead asi ⟨first :: tail, pos⟩ =
      some (some ([], ⟨first :: tail, pos⟩), ⟨first :: tail, pos⟩) := by
  have hends : (asi && (⟨first :: tail, pos⟩ : Cursor).endsStatement true) = false := by
    rw [endsStatement_token hblank hslash hbrace, Bool.and_false]
  rw [lookahead, get_bind]
  show some (Cursor.nextToken? _ (first :: tail) ⟨first :: tail, pos⟩, _) = _
  rw [Cursor.nextToken?, hends, skipWhile_of_not hblank, if_neg Bool.false_ne_true]
  dsimp only
  rw [comment?_token hslash]

theorem arrowBehind_token (hblank : isBlank first = false) (hslash : first ≠ '/')
    (hbrace : first ≠ '\x7d') (hequals : first ≠ '=') (asi : Bool) :
    arrowBehind asi ⟨first :: tail, pos⟩ = some (none, ⟨first :: tail, pos⟩) := by
  rw [arrowBehind, bind_of_eq (lookahead_token hblank hslash hbrace asi)]
  dsimp only
  rw [startsWith_of_ne rfl hequals]
  rfl

end

/-! ## The end of an expression -/

/-- Whether nothing can continue an expression at the cursor: its statement ends there, or a comma, a
closing parenthesis or a closing brace comes next. -/
def EndsExpression (asi : Bool) (c : Cursor) : Prop :=
  lookahead asi c = some (none, c) ∨
    ∃ gap mark rest pos, (mark = ',' ∨ mark = ')' ∨ mark = '\x7d') ∧
      lookahead asi c = some (some (gap, ⟨mark :: rest, pos⟩), c)

section
variable {sub : Parsers} {asi : Bool} {c : Cursor}

theorem access_end (h : EndsExpression asi c) (update : Bool) (left : Node) :
    access sub asi false update left c = some (none, c) := by
  rcases h with h | ⟨gap, mark, rest, pos, hmark, h⟩
  · rw [access, bind_of_eq h]
    rfl
  · rw [access, bind_of_eq h]
    match rest with
    | [] => rcases hmark with rfl | rfl | rfl <;> rfl
    | second :: rest => rcases hmark with rfl | rfl | rfl <;> cases update <;> rfl

theorem assignment_end (h : EndsExpression asi c) (left : Node) :
    assignment sub asi left c = some (left, c) := by
  rcases h with h | ⟨gap, mark, rest, pos, hmark, h⟩
  · rw [assignment, bind_of_eq h]
    rfl
  · rw [assignment, bind_of_eq h]
    refine congrFun (?_ : _ = (pure left : Parser Node)) _
    rcases hmark with rfl | rfl | rfl <;> dsimp only <;> split <;> rfl

theorem operation_end (h : EndsExpression asi c) (level : Nat) (left : Node) :
    operation sub level asi left c = some (none, c) := by
  rcases h with h | ⟨gap, mark, rest, pos, hmark, h⟩
  · rw [operation, bind_of_eq h]
    rfl
  · rw [operation, bind_of_eq h]
    rcases hmark with rfl | rfl | rfl <;> rfl

end

/-! ## Growing an operand -/

section
variable {α : Type} {step : α → Parser (Option α)} {a b : α} {c c' : Cursor}

theorem extend_of_none (h : step a c = some (none, c')) (bound : List Char) :
    extend step bound a c = some (a, c') := by
  cases bound <;> exact bind_of_eq h _

theorem extend_of_some (h : step a c = some (some b, c')) (d : Char) (bound : List Char) :
    extend step (d :: bound) a c = extend step bound b c' :=
  bind_of_eq h _

/-- A last step, however many more are allowed. -/
theorem extend_of_last (h : step a c = some (some b, c')) (hlast : step b c' = some (none, c'))
    (bound : List Char) : extend step bound a c = some (b, c') := by
  cases bound with
  | nil => exact bind_of_eq h _
  | cons d bound => rw [extend_of_some h, extend_of_none hlast]

theorem extend_of_refused (h : step a c = none) (bound : List Char) :
    extend step bound a c = none := by
  cases bound <;> exact bind_of_refused h _

end

/-- Reads an operand with the accesses and calls behind it, as part of a whole expression. -/
def operand (sub : Parsers) (asi : Bool) : Parser Node := do
  iterate (access sub asi false true) (← fronted sub asi)

section
variable {sub : Parsers} {asi : Bool} {c c' : Cursor} {left : Node}

/-- An expression is an operand, an assignment to it and operators behind it. -/
theorem expression_eq (sub : Parsers) (asi : Bool) (c : Cursor) :
    expression sub Level.lowest asi c =
      (operand sub asi >>= fun node => assignment sub asi node >>=
        iterate (operation sub Level.lowest asi) : Parser Node) c := by
  show (fronted sub asi c).bind _ = ((fronted sub asi c).bind _).bind _
  cases fronted sub asi c <;> rfl

/-- An operand behind which nothing continues it is a whole expression. -/
theorem expression_of_operand (h : operand sub asi c = some (left, c'))
    (hend : EndsExpression asi c') :
    expression sub Level.lowest asi c = some (left, c') := by
  rw [expression_eq, bind_of_eq h, bind_of_eq (assignment_end hend left)]
  exact extend_of_none (operation_end hend Level.lowest left) _

theorem expression_of_refused (h : operand sub asi c = none) :
    expression sub Level.lowest asi c = none := by
  rw [expression_eq]
  exact bind_of_refused h _

end

/-! ## Accesses and tagged templates -/

section
variable {sub : Parsers} {asi update : Bool} {left : Node} {pos : Nat}

/-- An access by name. -/
theorem access_dot {word : List Char} (hname : isName word = true) {stop : Char}
    (hstop : endsWord stop = true) (tail : List Char) :
    access sub asi false update left ⟨'.' :: (word ++ stop :: tail), pos⟩ =
      some (some { kind := .memberExpression, start := left.start, stop := pos + 1 + byteLength word,
                   children := [left, { kind := .propertyIdentifier, start := pos + 1,
                                        stop := pos + 1 + byteLength word }] },
        ⟨stop :: tail, pos + 1 + byteLength word⟩) := by
  obtain ⟨first, rest, rfl, -, hpart⟩ := cons_of_isName hname
  have hblank : isBlank first = false := by
    rw [isNamePart, Bool.and_eq_true, Bool.not_eq_true', Bool.not_eq_true'] at hpart
    exact hpart.2
  have htrivia := @trivia_token first (rest ++ stop :: tail) (pos + 1) hblank
    (ne_of_namePart hpart (by decide)) (ne_of_namePart hpart (by decide))
    (ne_of_namePart hpart (by decide))
  have hmark : (⟨first :: (rest ++ stop :: tail), pos + 1⟩ : Cursor).startsWith "#" = false :=
    startsWith_of_ne rfl (ne_of_namePart hpart (by decide))
  have hproperty := word_name hname hstop tail (pos + 1) .propertyIdentifier
  rw [List.cons_append] at hproperty
  rw [access, bind_of_eq (lookahead_token (by decide) (by decide) (by decide) asi)]
  have haccess : accessName left [] ⟨first :: (rest ++ stop :: tail), pos + 1⟩ =
      some ({ kind := .memberExpression, start := left.start,
              stop := pos + 1 + byteLength (first :: rest),
              children := [left, { kind := .propertyIdentifier, start := pos + 1,
                                   stop := pos + 1 + byteLength (first :: rest) }] },
        ⟨stop :: tail, pos + 1 + byteLength (first :: rest)⟩) := by
    rw [accessName, bind_of_eq htrivia, get_bind, hmark, if_neg Bool.false_ne_true,
      bind_of_eq hproperty]
    rfl
  exact bind_of_eq haccess fun node => pure (some node)

/-- A call. -/
theorem access_call {rest : List Char} {args : Node} {c : Cursor}
    (h : arguments sub ⟨'(' :: rest, pos⟩ = some (args, c)) :
    access sub asi false update left ⟨'(' :: rest, pos⟩ =
      some (some { kind := .callExpression, start := left.start, stop := c.pos,
                   children := [left.as .function, args.as .arguments] }, c) := by
  have hcall : call sub left [] ⟨'(' :: rest, pos⟩ =
      some ({ kind := .callExpression, start := left.start, stop := c.pos,
              children := [left.as .function, args.as .arguments] }, c) := by
    rw [call, bind_of_eq h]
    rfl
  rw [access, bind_of_eq (lookahead_token (by decide) (by decide) (by decide) asi)]
  exact bind_of_eq hcall fun node => pure (some node)

/-- The call of a tag on a template. -/
def tagged (left text : Node) : Node :=
  { kind := .callExpression, start := left.start, stop := text.stop,
    children := [left.as .function, text.as .arguments] }

theorem access_template (hleft : isPrimary left.kind = true) {rest : List Char} {text : Node}
    {c : Cursor} (h : template sub ⟨'\x60' :: rest, pos⟩ = some (text, c)) (hstop : text.stop = c.pos) :
    access sub asi false update left ⟨'\x60' :: rest, pos⟩ = some (some (tagged left text), c) := by
  rw [access, bind_of_eq (lookahead_token (by decide) (by decide) (by decide) asi)]
  dsimp only
  rw [hleft, Bool.true_or]
  show (template sub ⟨'\x60' :: rest, pos⟩).bind _ = _
  rw [h, tagged, hstop]
  rfl

theorem access_refused (hleft : isPrimary left.kind = true) {rest : List Char}
    (h : template sub ⟨'\x60' :: rest, pos⟩ = none) :
    access sub asi false update left ⟨'\x60' :: rest, pos⟩ = none := by
  rw [access, bind_of_eq (lookahead_token (by decide) (by decide) (by decide) asi)]
  dsimp only
  rw [hleft, Bool.true_or]
  show (template sub ⟨'\x60' :: rest, pos⟩).bind _ = _
  rw [h]
  rfl

end

end Parser

end NotebookCell.Script
