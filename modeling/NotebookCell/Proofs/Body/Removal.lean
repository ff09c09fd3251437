import NotebookCell.Proofs.Body.Binding
import NotebookCell.Proofs.Body.Resolution
import NotebookCell.Proofs.Scope.Interface

/-!
# Import statements in the function of a cell

Three parts of the library look for import statements, each with a reach of its own: names are bound
for import statements at any depth, but only those at the top level of a program are taken out and
replaced by the statement in front. This module says what becomes of an import statement of either
sort in a cell that is accepted.

* `isCovered_plan`: nothing is taken out but white space around the source and import statements at the
  top level;
* `readPrelude_of_accepted`: what stands behind the head of the function binds their names;
* `not_mem_inputs_of_importLocals`: the names of import statements at any depth are no inputs.
-/

namespace NotebookCell

open NotebookCell.Tree NotebookCell.Text NotebookCell.Editing NotebookCell.Script NotebookCell.Body

/-! ## What is taken out -/

section
variable {cell : Script.Cell} {options : Options}

/-- Nothing is taken out but white space around the source and import statements at the top level. -/
theorem isCovered_plan (hsource : cell.offsets.source = cell.source)
    (hdefect : (plan cell options).defect = none) (pos : Nat) :
    isCovered ((plan cell options).operations.flatMap (Operation.edits cell.source)) pos =
      (isCovered (Operation.edits cell.source .trim) pos || isImport cell pos) := by
  obtain ⟨imports, -, -, hoperations⟩ := plan_eq hdefect
  rw [hoperations]
  exact isCovered_allEdits options imports hsource pos

theorem isImport_of_mem {statement : Node} (h : statement ∈ replacedImports cell) {pos : Nat}
    (hstart : statement.startIn cell.offsets ≤ pos) (hstop : pos < statement.stopIn cell.offsets) :
    isImport cell pos = true := by
  rw [isImport, List.any_eq_true]
  exact ⟨statement, h, by simp [hstart, hstop]⟩

end

/-! ## What is put in front -/

theorem maps_of_forall₂ {α β γ ε : Type} {f : α → Except ε β} {g : α → Except ε γ}
    {items : List α} {values : List (β × γ)}
    (h : List.Forall₂ (fun item value => f item = .ok value.1 ∧ g item = .ok value.2) items values) :
    items.map f = values.map (.ok ·.1) ∧ items.map g = values.map (.ok ·.2) := by
  induction h with
  | nil => exact ⟨rfl, rfl⟩
  | cons hvalue _ ih =>
    rw [List.map_cons, List.map_cons, List.map_cons, List.map_cons, hvalue.1, hvalue.2, ih.1, ih.2]
    exact ⟨rfl, rfl⟩

/-- The function of a cell starts with its head and what is imported. -/
theorem exists_rest_functionPieces (cell : Script.Cell) (options : Options) :
    ∃ rest, pieceText true (functionPieces cell options) =
      ((headers cell).map String.toList).flatten ++
        (pieceText true (preludePieces (importPieces cell options.resolveLocalImports)) ++ rest) := by
  rw [functionPieces, List.range_succ_eq_map, List.flatMap_cons, pieceText_append]
  simp only [if_true, pieceText_append, pieceText_cons, List.append_assoc]
  exact ⟨_, rfl⟩

/-- A cell that import statements are taken out of is a program. -/
theorem program_of_replacedImports {source : List Char} {cell : Script.Cell}
    (hcell : parseCell source = .ok cell) (hne : replacedImports cell ≠ []) :
    cell.isExpression = false ∧ cell.name = nameIn source ∧ cell.offsets = .ofSource source 0 ∧
      ∀ statement ∈ replacedImports cell, IsImport source statement := by
  obtain ⟨_, -, hanalysed⟩ | ⟨program, -, hparsed, hanalysed⟩ := parseCell_eq_ok hcell
  · rw [replacedImports, if_pos hanalysed.isExpression_eq] at hne
    exact absurd rfl hne
  · have hname : cell.name = nameIn source := by
      funext node
      rw [Script.Cell.name, hanalysed.text_eq]
    refine ⟨hanalysed.isExpression_eq, hname, hanalysed.offsets_eq, fun statement hmem => ?_⟩
    have hprogram : ¬ cell.isExpression = true := by
      rw [hanalysed.isExpression_eq]
      exact Bool.noConfusion
    rw [replacedImports, if_neg hprogram, hanalysed.body_eq] at hmem
    exact isImport_of_mem_topImports (sound_of_parse? (cellProgram_eq_ok hparsed).1) hmem

/-- What stands behind the head of the function of a program binds what its import statements at the
top level declare, and nothing else; but a default name beside a namespace is not bound. -/
theorem readPrelude_of_accepted {source text : List Char} {cell : Script.Cell} {options : Options}
    (hcell : parseCell source = .ok cell) (hne : replacedImports cell ≠ [])
    (hrun : (plan cell options).run cell.source = .ok text) :
    ∃ rest rest' stop, text = (header cell).toList ++ rest ∧
      readPrelude ⟨rest, 0⟩ = some ((replacedImports cell).flatMap fun statement =>
        boundImports (declaredImports cell.name options.resolveLocalImports statement),
          ⟨rest', stop⟩) := by
  obtain ⟨hprogram, hname, hoffsets, himports⟩ := program_of_replacedImports hcell hne
  have hsource : cell.offsets.source = cell.source := by
    rw [offsets_source_of_parseCell hcell, source_of_parseCell hcell]
  obtain ⟨imports, values, hplanned, hread, hvalues⟩ :=
    readsImports_of_isImport himports options.resolveLocalImports
  rw [← hname, ← hoffsets] at hplanned
  obtain ⟨hpatterns, hcalls⟩ := maps_of_forall₂ hplanned
  have himports' : imports ≠ [] := by
    rintro rfl
    rw [List.map_nil, List.map_eq_nil_iff] at hpatterns
    exact hne hpatterns
  have hheaders : ((headers cell).map String.toList).flatten = (header cell).toList := by
    rw [headers, hprogram]
    simp
  obtain ⟨rest, hrest⟩ := exists_rest_functionPieces cell options
  obtain ⟨stop, hstop⟩ := yields_prelude hread himports' rest 0
  rw [hheaders, pieceText_preludePieces, importPieces_eq hpatterns hcalls] at hrest
  refine ⟨prelude imports ++ rest, rest, stop, ?_, ?_⟩
  · rw [text_of_planRun hsource hrun, hrest]
  · rw [hstop, hvalues, hname]

/-! ## What is bound -/

/-- The names of import statements at any depth are declared at the root. -/
theorem root_declares_importLocals (name : Node → String) {root statement id : Node}
    (hstatement : statement ∈ root.walkAll) (hkind : statement.kind = .importStatement)
    (hid : id ∈ Scope.importLocals statement) :
    ⟨[], name id⟩ ∈ root.sites.flatMap (Scope.locals name) := by
  rw [← Node.map_node_sites, List.mem_map] at hstatement
  obtain ⟨site, hsite, rfl⟩ := hstatement
  refine List.mem_flatMap.mpr ⟨site, hsite, ?_⟩
  rw [Scope.locals, hkind]
  exact List.mem_map_of_mem hid

/-- The names of import statements at any depth are no inputs. -/
theorem not_mem_inputs_of_importLocals {source : List Char} {cell : Script.Cell} {statement id : Node}
    (hcell : parseCell source = .ok cell) (hroot : Scope.isReferenceKind cell.body.kind = false)
    (hstatement : statement ∈ cell.body.walkAll) (hkind : statement.kind = .importStatement)
    (hid : id ∈ Scope.importLocals statement) : cell.name id ∉ inputs cell := by
  have hreferences : cell.references = Scope.freeReferences cell.name cell.body := by
    have hname : ∀ text, cell.text = text → cell.name = nameIn text := by
      rintro text rfl
      rfl
    rcases parseCell_eq_ok hcell with ⟨_, -, hanalysed⟩ | ⟨_, -, -, hanalysed⟩
    · rw [hname _ hanalysed.text_eq, hanalysed.body_eq, hanalysed.references_eq]
    · rw [hname _ hanalysed.text_eq, hanalysed.body_eq, hanalysed.references_eq]
  intro hinput
  rw [inputs, distinctNames, List.mem_eraseDups, hreferences, List.map_map, List.mem_map] at hinput
  obtain ⟨site, hsite, hname⟩ := hinput
  exact Scope.not_free_of_root cell.name hroot hsite
    (root_declares_importLocals cell.name hstatement hkind hid) hname

/-- What an import statement declares is bound, or it is a default beside a namespace. -/
theorem bound_or_beside {source : List Char} {statement : Node} (h : IsImport source statement)
    (resolve : Bool) {declared : Import}
    (hdeclared : declared ∈ declaredImports (nameIn source) resolve statement) :
    declared ∈ boundImports (declaredImports (nameIn source) resolve statement) ∨
      declared.exported = .named "default".toList ∧
        ∃ other ∈ declaredImports (nameIn source) resolve statement, other.exported = .whole := by
  cases hwhole : (declaredImports (nameIn source) resolve statement).any (·.exported == .whole) with
  | false =>
    rw [boundImports, hwhole]
    exact .inl hdeclared
  | true =>
    rcases default_or_bound h resolve hdeclared with hdefault | hbound
    · obtain ⟨other, hother, hexported⟩ := List.any_eq_true.mp hwhole
      exact .inr ⟨hdefault, other, hother, beq_iff_eq.mp hexported⟩
    · exact .inl hbound

/-! ## Accepted cells -/

/-- What becomes of the import statements of an accepted cell. Those at the top level of a program are
taken out, character by character, and the statement behind the head of the function binds their names,
but for a default beside a namespace. Nothing is taken out for the others; but the names of all of them,
at any depth, are no inputs of the function. -/
theorem imports_of_accepted {source : List Char} {options : Options} {function : CellFunction}
    {cell : Script.Cell} (haccepted : transpileScript source options = .ok function)
    (hcell : parseCell source = .ok cell) :
    let covered := isCovered ((plan cell options).operations.flatMap (Operation.edits source))
    let declared := declaredImports cell.name options.resolveLocalImports
    let bound := (replacedImports cell).flatMap fun statement => boundImports (declared statement)
    (∀ pos, covered pos = (isCovered (Operation.edits source .trim) pos || isImport cell pos)) ∧
    (replacedImports cell ≠ [] → ∃ rest rest' stop,
      function.body.toList = (header cell).toList ++ rest ∧
      readPrelude ⟨rest, 0⟩ = some (bound, ⟨rest', stop⟩)) ∧
    ∀ statement ∈ cell.body.walkAll, statement.kind = .importStatement →
      (declared statement).map (·.name) =
        (Scope.importLocals statement).map (fun id => (cell.name id).toList) ∧
      (Scope.isReferenceKind cell.body.kind = false → ∀ id ∈ Scope.importLocals statement,
        cell.name id ∉ function.inputs) ∧
      (statement ∈ replacedImports cell →
        (∀ pos, statement.startIn cell.offsets ≤ pos → pos < statement.stopIn cell.offsets →
          covered pos = true) ∧
        ∀ name ∈ declared statement, name ∈ bound ∨
          name.exported = .named "default".toList ∧
            ∃ other ∈ declared statement, other.exported = .whole) := by
  intro covered declared bound
  obtain ⟨cell', body, hcell', -, hrun, hbody, hinputs, -⟩ := transpileScript_eq_ok haccepted
  cases hcell.symm.trans hcell'
  have hsource : cell.offsets.source = cell.source := by
    rw [offsets_source_of_parseCell hcell, source_of_parseCell hcell]
  have hcovered : ∀ pos, covered pos =
      (isCovered (Operation.edits source .trim) pos || isImport cell pos) := by
    intro pos
    have hplan := isCovered_plan hsource (run_eq_ok hrun).1 pos
    rw [source_of_parseCell hcell] at hplan
    exact hplan
  refine ⟨hcovered, fun hne => ?_, fun statement hstatement hkind => ⟨?_, ?_, ?_⟩⟩
  · rw [hbody, String.toList_ofList]
    exact readPrelude_of_accepted hcell hne hrun
  · exact name_declaredImports _ _ _
  · intro hroot id hid
    rw [hinputs]
    exact not_mem_inputs_of_importLocals hcell hroot hstatement hkind hid
  · intro hreplaced
    have hne : replacedImports cell ≠ [] := List.ne_nil_of_mem hreplaced
    obtain ⟨-, hname, -, himports⟩ := program_of_replacedImports hcell hne
    refine ⟨fun pos hstart hstop => ?_, fun name hmem => ?_⟩
    · rw [hcovered, isImport_of_mem hreplaced hstart hstop, Bool.or_true]
    · simp only [declared, hname] at hmem ⊢
      refine (bound_or_beside (himports statement hreplaced) _ hmem).imp_left fun hbound => ?_
      simp only [bound, declared, hname]
      exact List.mem_flatMap.mpr ⟨statement, hreplaced, hbound⟩

/-- An import statement at the top level and one in a block: the function still has the second one, and
its name is neither bound nor an input. -/
theorem imports_of_accepted_block :
    let source := "import b from \"n\"\n\x7b import a from \"m\"; a(b) \x7d".toList
    ∃ function cell rest stop, transpileScript source {} = .ok function ∧
      parseCell source = .ok cell ∧
      function.body = "async () => \x7b\nconst \x7bdefault: b\x7d = await import(\"n\");\n" ++
        "\x7b import a from \"m\"; a(b) \x7d\nreturn \x7bb\x7d;\n\x7d" ∧
      readPrelude ⟨function.body.toList.drop 14, 0⟩ =
        some ([⟨"b".toList, .named "default".toList, ⟨"\"n\"".toList, false⟩⟩], ⟨rest, stop⟩) ∧
      ∃ statement ∈ cell.body.walkAll, statement ∉ replacedImports cell ∧
        (Scope.importLocals statement).map cell.name = ["a"] ∧
        ∀ id ∈ Scope.importLocals statement, cell.name id ∉ function.inputs := by
  intro source
  have hfunction : (transpileScript source {}).toOption.map (·.body) = some
      ("async () => \x7b\nconst \x7bdefault: b\x7d = await import(\"n\");\n" ++
        "\x7b import a from \"m\"; a(b) \x7d\nreturn \x7bb\x7d;\n\x7d") := by decide +kernel
  have hfacts : (parseCell source).toOption.map (fun cell =>
      (header cell, Scope.isReferenceKind cell.body.kind, (replacedImports cell).map (·.start))) =
      some ("async () => \x7b\n", false, [0]) := by decide +kernel
  have hnested : (parseCell source).toOption.map (fun cell => cell.body.walkAll.any fun statement =>
      statement.kind == .importStatement && statement.start == 20 &&
        (Scope.importLocals statement).map cell.name == ["a"]) = some true := by decide +kernel
  have hbound : (parseCell source).toOption.map (fun cell =>
      (replacedImports cell).flatMap fun statement =>
        boundImports (declaredImports cell.name false statement)) =
      some [⟨"b".toList, .named "default".toList, ⟨"\"n\"".toList, false⟩⟩] := by decide +kernel
  obtain ⟨function, haccepted, hbody⟩ := Option.map_eq_some_iff.mp hfunction
  obtain ⟨cell, hparsed, hcellFacts⟩ := Option.map_eq_some_iff.mp hfacts
  rw [hparsed, Option.map_some, Option.some.injEq] at hbound hnested
  obtain ⟨hheader, hroot, htop⟩ : _ ∧ _ ∧ _ := by simpa only [Prod.mk.injEq] using hcellFacts
  have hok := eq_ok_of_toOption haccepted
  have hcell := eq_ok_of_toOption hparsed
  obtain ⟨-, hprelude, himports⟩ := imports_of_accepted hok hcell
  obtain ⟨rest, rest', stop, htext, hread⟩ := hprelude fun hnil => by
    rw [hnil] at htop
    cases htop
  have hdrop : function.body.toList.drop 14 = rest := by
    rw [htext, hheader]
    rfl
  obtain ⟨statement, hstatement, hvalues⟩ := List.any_eq_true.mp hnested
  simp only [Bool.and_eq_true, beq_iff_eq] at hvalues
  obtain ⟨⟨hkind, hstart⟩, hlocals⟩ := hvalues
  have hbelow : statement ∉ replacedImports cell := by
    intro hreplaced
    have hzero := List.mem_map_of_mem (f := (·.start)) hreplaced
    rw [htop, hstart] at hzero
    cases List.mem_singleton.mp hzero
  refine ⟨function, cell, rest', stop, hok, hcell, hbody, ?_, statement, hstatement, hbelow, hlocals,
    (himports statement hstatement hkind).2.1 hroot⟩
  rw [hdrop, hread, hbound]

end NotebookCell
