import NotebookCell.Transpile

/-!
# What an accepted cell is made of

Reading a cell, analysing it and making a function of it can each fail. The lemmas here say once
what is known where they succeed; everything about accepted cells starts from them.

* `analyse_eq_ok`: the parts of an analysed cell;
* `parseCell_eq_ok`: a cell is an expression in parentheses or a program;
* `transpileScript_eq_ok`: the function of a cell and where each of its parts comes from.
-/

namespace NotebookCell

/-- A result that is there was not refused. -/
theorem eq_ok_of_toOption {ε α : Type} {result : Except ε α} {value : α}
    (h : result.toOption = some value) : result = .ok value := by
  cases result with
  | error problem => cases h
  | ok found => rw [Except.toOption, Option.some.injEq] at h; rw [h]

end NotebookCell

namespace NotebookCell.Script

open NotebookCell.Tree NotebookCell.Text NotebookCell.Scope

/-! ## Reading -/

/-- The root of a parsed script is a program. -/
theorem kind_of_parse? {text : List Char} {root : Node} (h : parse? text = some root) :
    root.kind = .program := by
  unfold parse? at h
  split at h
  · cases h
  · split at h
    · next root' cursor hprogram =>
      split at h
      · cases h
      · cases h
        simp only [Parser.program, Parser.node, Parser.position, bind, StateT.bind, get, getThe,
          MonadStateOf.get, StateT.get, pure] at hprogram
        simp only [Option.bind_eq_some_iff] at hprogram
        obtain ⟨_, -, _, -, _, -, _, -, _, -, hnode⟩ := hprogram
        cases hnode
        rfl
    · cases h

/-- The expression of a cell is what is read between parentheses. -/
theorem cellExpression?_eq_some {source : List Char} {node : Node}
    (h : cellExpression? source = some node) :
    ∃ parsed, parseExpression source = .ok parsed ∧ parsed.expression = node := by
  unfold cellExpression? at h
  split at h
  · next parsed hparsed =>
    dsimp only at h
    split at h
    · cases h
    · exact ⟨parsed, hparsed, Option.some.inj h⟩
  · cases h

/-- A program is what the grammar reads, and nothing in it is named `let`. -/
theorem cellProgram_eq_ok {source : List Char} {root : Node} (h : cellProgram source = .ok root) :
    parse? source = some root ∧ letName? source root = none := by
  unfold cellProgram at h
  split at h
  · cases h
  · next root' hparse =>
    split at h
    · cases h
    · next hlet =>
      cases h
      exact ⟨hparse, hlet⟩

/-! ## Analysing -/

/-- What an analysed cell consists of. -/
structure Analysed (source text : List Char) (body : Node) (isExpression : Bool)
    (offsets : Offsets) (cell : Cell) : Prop where
  source_eq : cell.source = source
  text_eq : cell.text = text
  body_eq : cell.body = body
  isExpression_eq : cell.isExpression = isExpression
  offsets_eq : cell.offsets = offsets
  references_eq : cell.references = freeReferences (nameIn text) body
  declarations_eq : if isExpression then cell.declarations = []
    else declarations (nameIn text) offsets body = .ok cell.declarations
  assignments_eq : assignmentFault? (nameIn text) offsets body cell.references = none
  isAsync_eq : cell.isAsync = !(awaits body).isEmpty

theorem analyse_eq_ok {source text : List Char} {body : Node} {isExpression : Bool}
    {offsets : Offsets} {cell : Cell}
    (h : analyse source text body isExpression offsets = .ok cell) :
    Analysed source text body isExpression offsets cell := by
  unfold analyse at h
  simp only [bind, Except.bind, pure, Except.pure, throw, throwThe, MonadExceptOf.throw] at h
  split at h
  · cases h
  · next hfault =>
    have hnone : assignmentFault? (nameIn text) offsets body (freeReferences (nameIn text) body) =
        none := Option.eq_none_iff_forall_ne_some.mpr hfault
    cases isExpression with
    | true =>
      cases h
      exact ⟨rfl, rfl, rfl, rfl, rfl, rfl, by rw [if_pos rfl], hnone, rfl⟩
    | false =>
      simp only [Bool.false_eq_true, if_false] at h
      split at h
      · next hdeclared =>
        cases h
        exact ⟨rfl, rfl, rfl, rfl, rfl, rfl, by simpa using hdeclared, hnone, rfl⟩
      · cases h

variable {source : List Char} {cell : Cell} (h : parseCell source = .ok cell)
include h

/-- A cell is the expression between its parentheses, or else a program. -/
theorem parseCell_eq_ok :
    (∃ expression, cellExpression? source = some expression ∧
      Analysed source (enclose source) expression true (.ofSource source 1) cell) ∨
    (∃ program, cellExpression? source = none ∧ cellProgram source = .ok program ∧
      Analysed source source program false (.ofSource source 0) cell) := by
  unfold parseCell at h
  split at h
  · next expression hexpression =>
    exact .inl ⟨expression, hexpression, analyse_eq_ok h⟩
  · next hnone =>
    simp only [bind, Except.bind] at h
    split at h
    · cases h
    · next program hprogram =>
      exact .inr ⟨program, hnone, hprogram, analyse_eq_ok h⟩

/-- The source of a cell is what was read. -/
theorem source_of_parseCell : cell.source = source := by
  rcases parseCell_eq_ok h with ⟨_, -, hcell⟩ | ⟨_, -, -, hcell⟩ <;> exact hcell.source_eq

/-- The offsets of a cell lead into its source. -/
theorem offsets_source_of_parseCell : cell.offsets.source = source := by
  rcases parseCell_eq_ok h with ⟨_, -, hcell⟩ | ⟨_, -, -, hcell⟩ <;> rw [hcell.offsets_eq] <;> rfl

theorem offsets_of_parseCell :
    cell.offsets = .ofSource cell.source (if cell.isExpression then 1 else 0) := by
  rcases parseCell_eq_ok h with ⟨_, -, hcell⟩ | ⟨_, -, -, hcell⟩
  · rw [hcell.offsets_eq, hcell.source_eq, hcell.isExpression_eq, if_pos rfl]
  · rw [hcell.offsets_eq, hcell.source_eq, hcell.isExpression_eq, if_neg Bool.false_ne_true]

end NotebookCell.Script

namespace NotebookCell

open NotebookCell.Script

/-! ## Making a function -/

/-- The function of an accepted script comes from the cell that was read and the text that its
edits make. -/
theorem transpileScript_eq_ok {source : List Char} {options : Options} {function : CellFunction}
    (h : transpileScript source options = .ok function) :
    ∃ cell body, parseCell source = .ok cell ∧ Scope.yields cell.body = [] ∧
      (plan cell options).run cell.source = .ok body ∧
      function.body = String.ofList body ∧ function.inputs = inputs cell ∧
      function.outputs = outputs cell := by
  unfold transpileScript at h
  split at h
  · cases h
  · next cell hcell =>
    unfold cellFunction at h
    simp only [bind, Except.bind, pure, Except.pure, throw, throwThe, MonadExceptOf.throw] at h
    split at h
    · cases h
    · next hyields =>
      split at h
      · cases h
      · next body hbody =>
        cases h
        refine ⟨cell, body, hcell, ?_, hbody, rfl, rfl, rfl⟩
        exact List.head?_eq_none_iff.mp (Option.eq_none_iff_forall_ne_some.mpr hyields)

end NotebookCell
