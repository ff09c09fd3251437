import NotebookCell.Proofs.Body.Statements
import NotebookCell.Proofs.Body.Removal
import NotebookCell.Proofs.Template.Raw

/-!
# When the edits of a cell fit together

The edits of a cell delete the white space around its source and its import statements. An import
statement may take in characters that are white space for trimming but not for the grammar, or a comment
with white space at its end; then the two deletions meet and the second one is refused. Nothing else is
ever refused: import statements do not meet each other, and the rest is insertions.

* `removals_of_parseCell`: the import statements of a cell do not meet;
* `exists_planRun_iff`: when the edits of a cell fit together;
* `transpile_ne_refusal`: the edits of a template always do.
-/

namespace NotebookCell

open NotebookCell.Tree NotebookCell.Text NotebookCell.Editing NotebookCell.Script NotebookCell.Body
open NotebookCell.Script.Parser

/-! ## Import statements -/

/-- Statements of a program do not meet, not even with the line breaks that go with them. -/
theorem apart_of_series {text : List Char} {depth : Nat} {c d : Cursor} {groups : List (List Node)}
    (hdepth : 2 * (text.length + 1) ≤ depth)
    (h : Series (statementStep (parsers depth).statement) c groups d) (hc : Within text c) :
    (statementsIn groups.flatten).Pairwise fun first second => ∀ pos,
      goesWith text (first.startIn (.ofSource text 0)) (first.stopIn (.ofSource text 0)) pos = true →
      goesWith text (second.startIn (.ofSource text 0)) (second.stopIn (.ofSource text 0)) pos =
        false := by
  induction h with
  | done c => exact .nil
  | @next c d' _ _ more hstep _ hmore ih =>
    obtain ⟨-, node, gap, e, rfl, hat⟩ := statementAt_of_step hdepth hc hstep
    rw [statementsIn_group hat.kind (isStatementKind_of_trivia hat.within_stop hat.gap_eq)]
    refine List.pairwise_cons.mpr ⟨fun other hother pos hfirst => ?_, ih hat.within_next⟩
    have hstart := (le_startIn_of_series hdepth hmore hat.within_next other hother).2.1
    rw [hat.startIn_eq hc, hat.stopIn_eq] at hfirst
    by_cases hpos : position text d' ≤ pos
    · rw [goesWith_of_le hat.within_next (not_blank_of_trivia hat.gap_eq) (position_le hat.next_le)
        hpos] at hfirst
      cases hfirst
    · exact goesWith_of_lt (by omega)

theorem edits_removal (source text : List Char) (statement : Node) :
    Operation.edits text (removal (.ofSource source 0) statement) =
      [⟨.right, (removedRange (.ofSource source 0) statement).1,
        (removedRange (.ofSource source 0) statement).2, []⟩] := rfl

/-- The removal of a statement covers what goes with it. -/
theorem covers_removal (source : List Char) (statement : Node) (pos : Nat) :
    (⟨.right, (removedRange (.ofSource source 0) statement).1,
      (removedRange (.ofSource source 0) statement).2, []⟩ : Edit).covers pos =
      goesWith source (statement.startIn (.ofSource source 0))
        (statement.stopIn (.ofSource source 0)) pos :=
  removedRange_covers (.ofSource source 0) statement pos

theorem placed_removal {source : List Char} {statement : Node}
    (h : statement.startIn (.ofSource source 0) ≤ statement.stopIn (.ofSource source 0)) :
    (removal (.ofSource source 0) statement).Placed source := by
  have hstop : statement.stopIn (.ofSource source 0) ≤ source.length := Offsets.char_le source 0 _
  refine ⟨.right, [], (removedRange (.ofSource source 0) statement).1,
    (removedRange (.ofSource source 0) statement).2, rfl, ?_⟩
  rw [removedRange]
  dsimp only
  split
  · next hbroken =>
    rw [Bool.and_eq_true, beq_iff_eq, List.head?_drop] at hbroken
    have hlt := (List.getElem?_eq_some_iff.mp hbroken.1).1
    exact ⟨Nat.le_succ_of_le h, hlt⟩
  · exact ⟨h, hstop⟩

/-- The import statements of a cell lie in its source and do not meet. -/
theorem removals_of_parseCell {source : List Char} {cell : Script.Cell}
    (hcell : parseCell source = .ok cell) :
    (∀ operation ∈ (replacedImports cell).map (removal cell.offsets), operation.Placed source) ∧
      (((replacedImports cell).map (removal cell.offsets)).flatMap
        (Operation.edits source)).Pairwise Edit.Apart := by
  obtain ⟨_, -, hanalysed⟩ | ⟨program, -, hparsed, hanalysed⟩ := parseCell_eq_ok hcell
  · rw [replacedImports, if_pos hanalysed.isExpression_eq]
    exact ⟨List.forall_mem_nil _, .nil⟩
  obtain ⟨line, b, lead, c, groups, d, hline, htrivia, hb, hc, hseries, -, hchildren, -⟩ :=
    series_of_parse? (cellProgram_eq_ok hparsed).1
  have hdepth : 2 * (source.length + 1) ≤ depthOf source := by
    rw [depthOf]
    omega
  have hstatements : topStatements program = statementsIn groups.flatten := by
    rw [topStatements, hchildren, statementsIn_append, statementsIn_append,
      statementsIn_remarks (isStatementKind_of_hashBangLine (within_ofText source) hline),
      statementsIn_remarks (isStatementKind_of_trivia hb htrivia), List.nil_append, List.nil_append]
  have hplaced := le_startIn_of_series hdepth hseries hc
  have himports : replacedImports cell =
      (statementsIn groups.flatten).filter (·.kind == .importStatement) := by
    rw [replacedImports, hanalysed.isExpression_eq, if_neg Bool.false_ne_true, hanalysed.body_eq,
      topImports_eq, hstatements]
    rw [hstatements]
    exact fun node hnode => (hplaced node hnode).1
  rw [himports, hanalysed.offsets_eq]
  constructor
  · intro operation hoperation
    obtain ⟨statement, hstatement, rfl⟩ := List.mem_map.mp hoperation
    exact placed_removal (hplaced statement (List.mem_filter.mp hstatement).1).2.2
  · rw [List.flatMap_map]
    simp only [edits_removal]
    rw [← List.map_eq_flatMap, List.pairwise_map]
    refine ((apart_of_series hdepth hseries hc).filter _).imp fun happart pos => ?_
    rw [covers_removal, covers_removal]
    exact happart pos

/-- What a cell imports has no defect. -/
theorem defect_of_parseCell {source : List Char} {cell : Script.Cell}
    (hcell : parseCell source = .ok cell) (options : Options) : (plan cell options).defect = none := by
  rw [plan_defect]
  by_cases hnil : replacedImports cell = []
  · rw [hnil]
    rfl
  · obtain ⟨-, hname, hoffsets, himports⟩ := program_of_replacedImports hcell hnil
    obtain ⟨imports, _, hplanned, -⟩ :=
      readsImports_of_isImport himports options.resolveLocalImports
    rw [hname, hoffsets, planImports_of_ok hplanned]
    rintro rfl
    exact hnil (List.forall₂_nil_right_iff.mp hplanned)

/-! ## All edits of a cell -/

/-- The edits of a cell fit together if its deletions do. -/
theorem exists_planRun_iff_runAll {source : List Char} {cell : Script.Cell}
    (hcell : parseCell source = .ok cell) (options : Options) :
    (∃ text, (plan cell options).run cell.source = .ok text) ↔
      ∃ buffer, (Buffer.ofSource cell.source).runAll (deletions cell) = .ok buffer := by
  obtain ⟨shift, hoffsets⟩ := offsets_eq_of_parseCell hcell
  have herror {failure : Failure} : (plan cell options).run cell.source = .error failure ↔
      ∃ refusal, failure = .refusal refusal ∧
        (Buffer.ofSource cell.source).runAll (deletions cell) = .error refusal :=
    planRun_eq_error_iff hoffsets (defect_of_parseCell hcell options)
  constructor
  · rintro ⟨text, htext⟩
    cases hrun : (Buffer.ofSource cell.source).runAll (deletions cell) with
    | ok buffer => exact ⟨buffer, rfl⟩
    | error refusal =>
      rw [herror.mpr ⟨refusal, rfl, hrun⟩] at htext
      cases htext
  · rintro ⟨buffer, hrun⟩
    cases htext : (plan cell options).run cell.source with
    | ok text => exact ⟨text, rfl⟩
    | error failure =>
      obtain ⟨refusal, -, hrefused⟩ := herror.mp htext
      rw [hrun] at hrefused
      cases hrefused

/-- What is put in front of a cell is only inserted. -/
theorem inserts_headers (cell : Script.Cell) :
    ∀ operation ∈ (headers cell).map fun text => Operation.insertLeft 0 text.toList,
      operation.Inserts cell.source := by
  intro operation hoperation
  obtain ⟨text, -, rfl⟩ := List.mem_map.mp hoperation
  exact ⟨.left, text.toList, 0, Nat.zero_le _, rfl⟩

/-- The edits of a cell fit together if no import statement reaches into the white space around the
source. -/
theorem exists_planRun_iff {source : List Char} {cell : Script.Cell}
    (hcell : parseCell source = .ok cell) (options : Options) :
    (∃ text, (plan cell options).run source = .ok text) ↔
      ∀ pos, isImport cell pos = true → isCovered (Operation.edits source .trim) pos = false := by
  obtain rfl := source_of_parseCell hcell
  obtain ⟨shift, hoffsets⟩ := offsets_eq_of_parseCell hcell
  have hsource : cell.offsets.source = cell.source := offsets_source_of_parseCell hcell
  obtain ⟨hplaced, hapart⟩ := removals_of_parseCell hcell
  obtain ⟨buffer, htrim, hlogged⟩ := exists_run_trim cell.source
  have hheads := inserts_headers cell
  have hall := List.forall_mem_append.mpr
    ⟨fun operation hmem => (hheads operation hmem).placed, hplaced⟩
  have hiff := apart_append_iff (apart_trim cell.source) (covers_of_inserts hheads) hapart
  rw [← List.flatMap_append] at hiff
  simp only [isCovered_removals hsource] at hiff
  rw [exists_planRun_iff_runAll hcell, deletions, List.cons_append, Buffer.runAll, htrim, ← hiff]
  constructor
  · rintro ⟨buffer', hrun⟩
    exact hlogged.apart_of_runAll hall (apart_trim cell.source) hrun
  · intro hfits
    obtain ⟨buffer', hrun, -⟩ := hlogged.exists_runAll hall hfits
    exact ⟨buffer', hrun⟩

/-! ## Templates -/

namespace Template

theorem transpile_ne_refusal (source tag : List Char) (embedding : Embedding) (refusal : Refusal) :
    transpile source tag embedding ≠ .error (.refusal refusal) := by
  intro h
  rw [transpile] at h
  split at h
  · cases h
  · split at h
    · cases h
    · next content hparse =>
      obtain ⟨buffer, hrun⟩ := exists_runAll_embed tag embedding hparse
      rw [hrun] at h
      cases h

end Template

/-! ## Cells of any mode -/

theorem problem_of_scriptOf {source : List Char} {mode : String} {options : Options}
    {failure : Failure} (h : scriptOf source mode options = .error failure) :
    ∃ problem, failure = .problem problem := by
  rw [scriptOf] at h
  split at h
  · cases h
    exact ⟨_, rfl⟩
  · cases h
  · split at h
    · cases h
      exact ⟨_, rfl⟩
    · split at h
      · cases h
      · cases h
        exact ⟨_, rfl⟩
      · next hrefused => exact absurd hrefused (Template.transpile_ne_refusal _ _ _ _)

theorem transpile_eq {source mode : String} (hmode : mode ≠ Mode.ojs.name) (options : Options) :
    transpile source mode options =
      match scriptOf source.toList mode options with
      | .ok script => transpileScript script options
      | .error failure => .error failure := by
  rw [transpile, if_neg (by simpa using hmode)]
  cases scriptOf source.toList mode options <;> rfl

/-- A script fails for another reason than a problem with it exactly where an import statement reaches
into the white space around it. -/
theorem exists_failure_iff_of_script (script : List Char) (options : Options) :
    (∃ failure, transpileScript script options = .error failure ∧
      ∀ problem, failure ≠ .problem problem) ↔
    ∃ cell, parseCell script = .ok cell ∧ Scope.yields cell.body = [] ∧
      ∃ pos, isImport cell pos = true ∧ isCovered (Operation.edits script .trim) pos = true := by
  rw [transpileScript]
  cases hcell : parseCell script with
  | error problem =>
    constructor
    · rintro ⟨failure, herror, hother⟩
      cases herror
      exact absurd rfl (hother problem)
    · rintro ⟨cell, hok, -⟩
      cases hok
  | ok cell =>
    have hiff := exists_planRun_iff hcell options
    obtain rfl := source_of_parseCell hcell
    obtain ⟨shift, hoffsets⟩ := offsets_eq_of_parseCell hcell
    dsimp only
    rw [cellFunction_eq]
    cases hyields : (Scope.yields cell.body).head? with
    | some node =>
      constructor
      · rintro ⟨failure, herror, hother⟩
        cases herror
        exact absurd rfl (hother _)
      · rintro ⟨_, hok, hnone, -⟩
        cases hok
        rw [hnone] at hyields
        cases hyields
    | none =>
      have hnone := List.head?_eq_none_iff.mp hyields
      cases hrun : (plan cell options).run cell.source with
      | ok text =>
        constructor
        · rintro ⟨failure, herror, -⟩
          cases herror
        · rintro ⟨_, hok, -, pos, himport, htrim⟩
          cases hok
          cases htrim.symm.trans (hiff.mp ⟨text, hrun⟩ pos himport)
      | error failure =>
        have hnot : ¬ ∃ text, (plan cell options).run cell.source = .ok text := by
          rintro ⟨text, hok⟩
          cases hrun.symm.trans hok
        rw [hiff] at hnot
        simp only [not_forall, Bool.not_eq_false] at hnot
        obtain ⟨pos, himport, htrim⟩ := hnot
        obtain ⟨refusal, rfl, -⟩ :=
          (planRun_eq_error_iff hoffsets (defect_of_parseCell hcell options)).mp hrun
        refine ⟨fun _ => ⟨cell, rfl, hnone, pos, himport, htrim⟩, fun _ => ⟨_, rfl, ?_⟩⟩
        rintro problem hproblem
        cases hproblem

/-- A cell fails for another reason than a problem with its source exactly where an import statement of
its script reaches into the white space around the script. -/
theorem exists_failure_iff (source mode : String) (options : Options) :
    (∃ failure, transpile source mode options = .error failure ∧
      ∀ problem, failure ≠ .problem problem) ↔
    mode ≠ Mode.ojs.name ∧ ∃ script cell, scriptOf source.toList mode options = .ok script ∧
      parseCell script = .ok cell ∧ Scope.yields cell.body = [] ∧
      ∃ pos, isImport cell pos = true ∧ isCovered (Operation.edits script .trim) pos = true := by
  by_cases hmode : mode = Mode.ojs.name
  · constructor
    · rintro ⟨failure, herror, hother⟩
      rw [transpile, if_pos (by simpa using hmode)] at herror
      split at herror
      · cases herror
        exact absurd rfl (hother _)
      · cases herror
    · rintro ⟨hother, -⟩
      exact absurd hmode hother
  · rw [transpile_eq hmode]
    cases hscript : scriptOf source.toList mode options with
    | error failure =>
      obtain ⟨problem, rfl⟩ := problem_of_scriptOf hscript
      constructor
      · rintro ⟨failure, herror, hother⟩
        cases herror
        exact absurd rfl (hother problem)
      · rintro ⟨-, script, cell, hok, -⟩
        cases hok
    | ok script =>
      dsimp only
      rw [exists_failure_iff_of_script]
      constructor
      · rintro ⟨cell, hcell⟩
        exact ⟨hmode, script, cell, rfl, hcell⟩
      · rintro ⟨-, _, cell, hok, hcell⟩
        cases hok
        exact ⟨cell, hcell⟩

end NotebookCell
