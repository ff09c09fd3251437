import NotebookCell.Proofs.Body.Emission
import NotebookCell.Proofs.Body.Prelude
import NotebookCell.Proofs.Editing.Run
import NotebookCell.Proofs.Tree.Order

/-!
# What resolving addresses changes

Whether addresses are resolved decides about nothing but the pieces of text that make an address of an
expression. They are insertions, and insertions are never refused; so the edits of a cell are accepted
or refused whatever is resolved, also for trees of any shape.

The function of a cell is here written piece by piece (`functionPieces`), with the pieces that were
recorded to make addresses marked as such.

* `error_of_planRun`: the edits of a cell fail alike with all options;
* `text_of_planRun`: what they make are the pieces of the function;
* `pieceText_unwrapped`: without the marked pieces the text does not depend on what is resolved;
* `cellFunction_alike`: all of this for the function of a cell.
-/

namespace NotebookCell

open NotebookCell.Tree NotebookCell.Text NotebookCell.Editing NotebookCell.Script NotebookCell.Body

/-! ## Pieces -/

/-- A piece of an emitted text. `wraps` marks a piece recorded to make an address of an expression. -/
structure Piece where
  text : List Char
  wraps : Bool := false

/-- The text of pieces; those that wrap are left out unless `wrapped` is set. -/
def pieceText (wrapped : Bool) (pieces : List Piece) : List Char :=
  pieces.flatMap fun piece => if piece.wraps && !wrapped then [] else piece.text

/-- The texts that make an address of an expression. -/
def wrapperTexts : List (List Char) := [urlStart, urlEnd documentBase, urlEnd moduleBase]

/-- The argument of a dynamic import in place of a specifier. -/
def specifierPieces (resolve : Bool) (specifier : List Char) : List Piece :=
  if resolve && isLocalSpecifier specifier then
    [{ text := urlStart, wraps := true }, { text := specifier },
      { text := urlEnd documentBase, wraps := true }]
  else [{ text := specifier }]

/-- The dynamic import of the module that an import statement names. -/
def callPieces (offsets : Offsets) (resolve : Bool) (statement : Node) : List Piece :=
  { text := "import(".toList } ::
    (((statement.child? .source).elim [] fun source =>
      specifierPieces resolve (source.textIn offsets)) ++ [{ text := [')'] }])

/-- The statement that imports modules, given the pattern and the dynamic import of each. -/
def preludePieces : List (List Char × List Piece) → List Piece
  | [] => []
  | [(pattern, call)] =>
    { text := "const ".toList ++ pattern ++ " = await ".toList } ::
      (call ++ [{ text := ";\n".toList }])
  | imports =>
    { text := "const [".toList ++ commaSeparated (imports.map (·.1)) ++
        "] = await Promise.all([".toList } ::
      (((imports.map (·.2)).intersperse [{ text := ", ".toList }]).flatten ++
        [{ text := "]);\n".toList }])

/-- The pattern and the dynamic import of each import statement that is replaced. -/
def importPieces (cell : Script.Cell) (resolve : Bool) : List (List Char × List Piece) :=
  (replacedImports cell).filterMap fun statement =>
    (importPattern cell.name cell.offsets statement).toOption.map
      (·, callPieces cell.offsets resolve statement)

/-- What is written at an offset to make addresses. -/
def wrapperPieces (cell : Script.Cell) (options : Options) (pos : Nat) : List Piece :=
  ((addresses cell options).filter (·.2.startIn cell.offsets == pos)).map
      (fun _ => { text := urlStart, wraps := true }) ++
    ((addresses cell options).filter (·.2.stopIn cell.offsets == pos)).map
      fun address => { text := urlEnd address.1, wraps := true }

/-- The function of a cell, offset by offset: headers and imports in front of the first character,
wrappers around addresses, the characters that are kept, and footers behind the last one. -/
def functionPieces (cell : Script.Cell) (options : Options) : List Piece :=
  (List.range (cell.source.length + 1)).flatMap fun pos =>
    (if 0 = pos then { text := ((headers cell).map String.toList).flatten } ::
      preludePieces (importPieces cell options.resolveLocalImports) else []) ++
    wrapperPieces cell options pos ++
    (if cell.source.length = pos then
      [{ text := ((footers cell).map String.toList).flatten }] else []) ++
    [{ text := if isCovered (Operation.edits cell.source .trim) pos || isImport cell pos then []
        else cell.source[pos]?.toList }]

section
variable {wrapped : Bool}

@[simp] theorem pieceText_nil : pieceText wrapped [] = [] := rfl

@[simp] theorem pieceText_cons (piece : Piece) (pieces : List Piece) :
    pieceText wrapped (piece :: pieces) =
      (if piece.wraps && !wrapped then [] else piece.text) ++ pieceText wrapped pieces := rfl

@[simp] theorem pieceText_append (pieces pieces' : List Piece) :
    pieceText wrapped (pieces ++ pieces') = pieceText wrapped pieces ++ pieceText wrapped pieces' :=
  List.flatMap_append

theorem pieceText_flatMap {α : Type} (pieces : α → List Piece) (items : List α) :
    pieceText wrapped (items.flatMap pieces) = items.flatMap fun item =>
      pieceText wrapped (pieces item) :=
  List.flatMap_assoc

theorem pieceText_commaSeparated (items : List (List Piece)) :
    pieceText wrapped ((items.intersperse [{ text := ", ".toList }]).flatten) =
      commaSeparated (items.map (pieceText wrapped)) := by
  induction items with
  | nil => rfl
  | cons item items ih =>
    cases items with
    | nil => simp [commaSeparated]
    | cons next items =>
      rw [List.intersperse_cons_cons, List.flatten_cons, List.flatten_cons, pieceText_append,
        pieceText_append, ih, List.map_cons, List.map_cons, List.map_cons, commaSeparated,
        commaSeparated, List.intersperse_cons_cons, List.flatten_cons, List.flatten_cons]
      rfl

/-- A statement made of pieces is the statement made of their texts. -/
theorem pieceText_preludePieces (imports : List (List Char × List Piece)) :
    pieceText wrapped (preludePieces imports) =
      prelude (imports.map fun (pattern, call) => (pattern, pieceText wrapped call)) := by
  rcases imports with _ | ⟨⟨pattern, call⟩, _ | ⟨⟨pattern', call'⟩, imports⟩⟩
  · rfl
  · rw [List.map_singleton, prelude_single, preludePieces, pieceText_cons, pieceText_append]
    simp
  · have hpatterns : imports.map (·.1) = (imports.map fun (pattern, call) =>
        (pattern, pieceText wrapped call)).map (·.1) := by
      rw [List.map_map]
      rfl
    have hcalls : (imports.map (·.2)).map (pieceText wrapped) = (imports.map fun (pattern, call) =>
        (pattern, pieceText wrapped call)).map (·.2) := by
      rw [List.map_map, List.map_map]
      rfl
    rw [List.map_cons, List.map_cons, prelude_several, preludePieces, pieceText_cons,
      pieceText_append, pieceText_commaSeparated]
    · simp only [List.map_cons, hpatterns, hcalls]
      simp
    · exact fun h => (nomatch h)
    · exact fun _ _ h => (nomatch h)

/-- With its wrapper a specifier is resolved, without it is as written. -/
theorem pieceText_specifierPieces (resolve : Bool) (specifier : List Char) :
    pieceText wrapped (specifierPieces resolve specifier) =
      resolveSpecifier (resolve && wrapped) specifier := by
  rw [specifierPieces, resolveSpecifier]
  cases resolve <;> cases wrapped <;> cases isLocalSpecifier specifier <;> simp

theorem pieceText_callPieces {offsets : Offsets} {resolve : Bool} {statement : Node}
    {call : List Char} (h : importCall offsets resolve statement = .ok call) :
    pieceText true (callPieces offsets resolve statement) = call := by
  rw [importCall] at h
  split at h
  · cases h
  · next source hsource =>
    cases h
    rw [callPieces, hsource]
    simp [pieceText_specifierPieces]

theorem pieceText_callPieces_unwrapped (offsets : Offsets) (resolve resolve' : Bool)
    (statement : Node) :
    pieceText false (callPieces offsets resolve statement) =
      pieceText false (callPieces offsets resolve' statement) := by
  rw [callPieces, callPieces]
  cases statement.child? .source with
  | none => rfl
  | some source => simp [pieceText_specifierPieces]

/-- The pieces of the imports of a cell are what was found for them. -/
theorem importPieces_eq {cell : Script.Cell} {resolve : Bool}
    {imports : List (List Char × List Char)}
    (hpatterns : (replacedImports cell).map (importPattern cell.name cell.offsets) =
      imports.map (.ok ·.1))
    (hcalls : (replacedImports cell).map (importCall cell.offsets resolve) =
      imports.map (.ok ·.2)) :
    (importPieces cell resolve).map (fun (pattern, call) => (pattern, pieceText true call)) =
      imports := by
  rw [importPieces]
  generalize replacedImports cell = statements at hpatterns hcalls ⊢
  induction statements generalizing imports with
  | nil =>
    cases imports with
    | nil => rfl
    | cons => cases hpatterns
  | cons statement statements ih =>
    cases imports with
    | nil => cases hpatterns
    | cons first imports =>
      obtain ⟨hpattern, hpatterns⟩ := List.cons.inj hpatterns
      obtain ⟨hcall, hcalls⟩ := List.cons.inj hcalls
      have hfirst : (importPattern cell.name cell.offsets statement).toOption.map
          (·, callPieces cell.offsets resolve statement) =
            some (first.1, callPieces cell.offsets resolve statement) := by
        rw [hpattern]
        rfl
      rw [List.filterMap_cons, hfirst]
      dsimp only
      rw [List.map_cons, ih hpatterns hcalls, pieceText_callPieces hcall]

theorem importPieces_unwrapped (cell : Script.Cell) (resolve resolve' : Bool) :
    (importPieces cell resolve).map (fun (pattern, call) => (pattern, pieceText false call)) =
      (importPieces cell resolve').map fun (pattern, call) => (pattern, pieceText false call) := by
  rw [importPieces, importPieces, List.map_filterMap, List.map_filterMap]
  congr 1
  funext statement
  cases importPattern cell.name cell.offsets statement with
  | error => rfl
  | ok pattern =>
    show some (pattern, _) = some (pattern, _)
    rw [pieceText_callPieces_unwrapped cell.offsets resolve resolve']

theorem pieceText_wrapperPieces (cell : Script.Cell) (options : Options) (pos : Nat) :
    pieceText wrapped (wrapperPieces cell options pos) =
      if wrapped then wrappersAt cell options pos else [] := by
  rw [wrapperPieces, wrappersAt, pieceText_append, pieceText, pieceText, List.flatMap_map,
    List.flatMap_map]
  cases wrapped <;> simp

end

theorem wraps_specifierPieces {resolve : Bool} {specifier : List Char} {piece : Piece}
    (hpiece : piece ∈ specifierPieces resolve specifier) (hwraps : piece.wraps = true) :
    piece.text ∈ wrapperTexts := by
  rw [specifierPieces] at hpiece
  split at hpiece
  · simp only [List.mem_cons, List.not_mem_nil, or_false] at hpiece
    rcases hpiece with rfl | rfl | rfl
    · exact .head _
    · cases hwraps
    · exact .tail _ (.head _)
  · rw [List.mem_singleton.mp hpiece] at hwraps
    cases hwraps

theorem wraps_callPieces {offsets : Offsets} {resolve : Bool} {statement : Node} {piece : Piece}
    (hpiece : piece ∈ callPieces offsets resolve statement) (hwraps : piece.wraps = true) :
    piece.text ∈ wrapperTexts := by
  rw [callPieces, List.mem_cons, List.mem_append, List.mem_singleton] at hpiece
  rcases hpiece with rfl | hpiece | rfl
  · cases hwraps
  · cases hsource : statement.child? .source with
    | none =>
      rw [hsource] at hpiece
      cases hpiece
    | some source =>
      rw [hsource] at hpiece
      exact wraps_specifierPieces hpiece hwraps
  · cases hwraps

theorem mem_of_mem_intersperse {α : Type} {separator item : α} {items : List α}
    (h : item ∈ items.intersperse separator) : item = separator ∨ item ∈ items := by
  induction items with
  | nil => cases h
  | cons first items ih =>
    cases items with
    | nil => exact .inr h
    | cons second items =>
      rw [List.intersperse_cons_cons, List.mem_cons, List.mem_cons] at h
      rcases h with rfl | rfl | h
      · exact .inr List.mem_cons_self
      · exact .inl rfl
      · exact (ih h).imp_right (List.mem_cons_of_mem _)

/-- What wraps in the imports of a cell wraps a specifier. -/
theorem wraps_preludePieces {cell : Script.Cell} {resolve : Bool} {piece : Piece}
    (hpiece : piece ∈ preludePieces (importPieces cell resolve)) (hwraps : piece.wraps = true) :
    piece.text ∈ wrapperTexts := by
  have hcall : ∀ imports : List (List Char × List Piece), piece ∈ preludePieces imports →
      ∃ call ∈ imports.map (·.2), piece ∈ call := by
    intro imports hpiece
    rcases imports with _ | ⟨⟨pattern, call⟩, _ | ⟨second, imports⟩⟩
    · cases hpiece
    · rw [preludePieces, List.mem_cons, List.mem_append, List.mem_singleton] at hpiece
      rcases hpiece with rfl | hpiece | rfl
      · cases hwraps
      · exact ⟨call, List.mem_singleton.mpr rfl, hpiece⟩
      · cases hwraps
    · rw [preludePieces, List.mem_cons, List.mem_append, List.mem_singleton] at hpiece
      · rcases hpiece with rfl | hpiece | rfl
        · cases hwraps
        · obtain ⟨call', hcall', hpiece⟩ := List.mem_flatten.mp hpiece
          rcases mem_of_mem_intersperse hcall' with rfl | hcall'
          · rw [List.mem_singleton.mp hpiece] at hwraps
            cases hwraps
          · exact ⟨call', hcall', hpiece⟩
        · cases hwraps
      · exact fun h => (nomatch h)
      · exact fun _ _ h => (nomatch h)
  obtain ⟨call, hmem, hpiece⟩ := hcall _ hpiece
  obtain ⟨⟨pattern, call⟩, himport, rfl⟩ := List.mem_map.mp hmem
  obtain ⟨statement, -, hstatement⟩ := List.mem_filterMap.mp himport
  obtain ⟨pattern', -, heq⟩ := Option.map_eq_some_iff.mp hstatement
  cases heq
  exact wraps_callPieces hpiece hwraps

theorem wraps_wrapperPieces {cell : Script.Cell} {options : Options} {pos : Nat} {piece : Piece}
    (hpiece : piece ∈ wrapperPieces cell options pos) :
    piece.text ∈ wrapperTexts := by
  rw [wrapperPieces, List.mem_append, List.mem_map, List.mem_map] at hpiece
  rcases hpiece with ⟨address, -, rfl⟩ | ⟨address, haddress, rfl⟩
  · exact List.mem_cons_self
  · rw [List.mem_filter, addresses, List.mem_append] at haddress
    rcases haddress with ⟨haddress | haddress, -⟩
    · split at haddress
      · obtain ⟨node, -, rfl⟩ := List.mem_map.mp haddress
        dsimp only
        exact .tail _ (.head _)
      · cases haddress
    · split at haddress
      · obtain ⟨node, -, rfl⟩ := List.mem_map.mp haddress
        dsimp only
        exact .tail _ (.tail _ (.head _))
      · cases haddress

/-! ## Edits -/

/-- Insertions behind other operations are never what is refused. -/
theorem runAll_append_inserts {source : List Char} {operations operations' : List Operation}
    {refusal : Refusal} (h : ∀ operation ∈ operations', operation.Inserts source) :
    (Buffer.ofSource source).runAll (operations ++ operations') = .error refusal ↔
      (Buffer.ofSource source).runAll operations = .error refusal := by
  rw [runAll_append]
  cases hrun : (Buffer.ofSource source).runAll operations with
  | error other => rfl
  | ok buffer =>
    have hsource := ((recorded_ofSource source).runAll hrun).source_eq
    rw [← hsource] at h
    obtain ⟨buffer', hok⟩ := exists_runAll_of_inserts h
    rw [Except.bind, hok]
    exact ⟨fun herror => (nomatch herror), fun herror => (nomatch herror)⟩

/-! ## Plans -/

/-- Whether an import statement can be replaced, and what is deleted, has nothing to do with what is
resolved or was found before. -/
theorem planImports_congr (name : Node → String) (offsets : Offsets) (resolve resolve' : Bool)
    (found found' : List (List Char × List Char)) (statements : List Node) :
    (planImports name offsets resolve found statements).defect =
        (planImports name offsets resolve' found' statements).defect ∧
      ((planImports name offsets resolve found statements).defect ≠ none →
        planImports name offsets resolve found statements =
          planImports name offsets resolve' found' statements) := by
  induction statements generalizing found found' with
  | nil =>
    rw [planImports, planImports]
    have hnone : ∀ imports : List (List Char × List Char),
        (if imports.isEmpty then (⟨[], none⟩ : Plan)
          else ⟨[.insertLeft 0 (prelude imports)], none⟩).defect = none := by
      intro imports
      split <;> rfl
    rw [hnone, hnone]
    exact ⟨rfl, fun h => absurd rfl h⟩
  | cons statement statements ih =>
    rw [planImports, planImports]
    cases importPattern name offsets statement with
    | error defect => exact ⟨rfl, fun _ => rfl⟩
    | ok pattern =>
      rw [importCall, importCall]
      cases statement.child? .source with
      | none => exact ⟨rfl, fun _ => rfl⟩
      | some source =>
        obtain ⟨hdefect, hplan⟩ := ih
          (found ++ [(pattern, "import(".toList ++ resolveSpecifier resolve (source.textIn offsets) ++
            [')'])])
          (found' ++ [(pattern, "import(".toList ++
            resolveSpecifier resolve' (source.textIn offsets) ++ [')'])])
        refine ⟨hdefect, fun h => ?_⟩
        dsimp only at h ⊢
        rw [hplan h]

/-- The edits of a cell that could be refused: all others are insertions inside the source. -/
def deletions (cell : Script.Cell) : List Operation :=
  .trim :: ((headers cell).map fun text => .insertLeft 0 text.toList) ++
    (replacedImports cell).map (removal cell.offsets)

/-- All edits of a cell behind the deletions. -/
def insertions (cell : Script.Cell) (options : Options) (imports : List (List Char × List Char)) :
    List Operation :=
  (if imports.isEmpty then [] else [.insertLeft 0 (prelude imports)]) ++
    (resolutions cell options ++
      (footers cell).map fun text => .insertRight cell.source.length text.toList)

theorem allEdits_eq (cell : Script.Cell) (options : Options)
    (imports : List (List Char × List Char)) :
    allEdits cell options imports = deletions cell ++ insertions cell options imports := by
  rw [allEdits, deletions, insertions]
  simp only [List.append_assoc, List.cons_append]

theorem inserts_insertions {cell : Script.Cell} {shift : Int}
    (hoffsets : cell.offsets = .ofSource cell.source shift) (options : Options)
    (imports : List (List Char × List Char)) :
    ∀ operation ∈ insertions cell options imports, operation.Inserts cell.source := by
  intro operation hoperation
  rw [insertions, List.mem_append, List.mem_append] at hoperation
  rcases hoperation with hprelude | hresolution | hfooter
  · split at hprelude
    · cases hprelude
    · rw [List.mem_singleton.mp hprelude]
      exact ⟨.left, _, 0, Nat.zero_le _, rfl⟩
  · rw [resolutions_eq, List.mem_flatMap] at hresolution
    obtain ⟨address, -, hwrapper⟩ := hresolution
    have hinside : ∀ byte, cell.offsets.char byte ≤ cell.source.length := by
      intro byte
      rw [hoffsets]
      exact Offsets.char_le cell.source shift byte
    rw [wrapInUrl, List.mem_cons, List.mem_singleton] at hwrapper
    rcases hwrapper with rfl | rfl
    · exact ⟨.left, _, address.2.startIn cell.offsets, hinside _, rfl⟩
    · exact ⟨.right, _, address.2.stopIn cell.offsets, hinside _, rfl⟩
  · obtain ⟨text, -, rfl⟩ := List.mem_map.mp hfooter
    exact ⟨.right, _, cell.source.length, Nat.le_refl _, rfl⟩

theorem plan_defect (cell : Script.Cell) (options : Options) :
    (plan cell options).defect =
      (planImports cell.name cell.offsets options.resolveLocalImports []
        (replacedImports cell)).defect := by
  rw [plan, planBetween, importStatements_eq]
  split
  · next defect hdefect => rw [hdefect]
  · next hnone => rw [hnone]

/-- A cell whose imports have a defect has the same edits whatever is resolved. -/
theorem plan_congr_of_defect {cell : Script.Cell} {first second : Options}
    (h : (plan cell first).defect ≠ none) : plan cell first = plan cell second := by
  rw [plan_defect] at h
  have hplan := (planImports_congr cell.name cell.offsets first.resolveLocalImports
    second.resolveLocalImports [] [] (replacedImports cell)).2 h
  obtain ⟨defect, hdefect⟩ := Option.ne_none_iff_exists'.mp h
  rw [plan, plan, planBetween, planBetween, importStatements_eq, importStatements_eq, ← hplan]
  rw [hdefect]

theorem defect_congr (cell : Script.Cell) (first second : Options) :
    (plan cell first).defect = (plan cell second).defect := by
  rw [plan_defect, plan_defect]
  exact (planImports_congr _ _ _ _ _ _ _).1

/-- Without a defect only a deletion can be refused. -/
theorem planRun_eq_error_iff {cell : Script.Cell} {shift : Int}
    (hoffsets : cell.offsets = .ofSource cell.source shift) {options : Options} {failure : Failure}
    (hdefect : (plan cell options).defect = none) :
    (plan cell options).run cell.source = .error failure ↔
      ∃ refusal, failure = .refusal refusal ∧
        (Buffer.ofSource cell.source).runAll (deletions cell) = .error refusal := by
  obtain ⟨imports, -, -, hoperations⟩ := plan_eq hdefect
  have hinserts := inserts_insertions hoffsets options imports
  rw [Plan.run, hdefect, hoperations, allEdits_eq]
  constructor
  · intro h
    split at h
    · next refusal hrefused =>
      cases h
      exact ⟨refusal, rfl, (runAll_append_inserts hinserts).mp hrefused⟩
    · next hnone => cases hnone
    · cases h
  · rintro ⟨refusal, rfl, hrefused⟩
    rw [(runAll_append_inserts hinserts).mpr hrefused]

/-- The edits of a cell fail alike, whatever is resolved. -/
theorem error_of_planRun {cell : Script.Cell} {shift : Int}
    (hoffsets : cell.offsets = .ofSource cell.source shift) (first second : Options)
    {failure : Failure} (h : (plan cell first).run cell.source = .error failure) :
    (plan cell second).run cell.source = .error failure := by
  by_cases hdefect : (plan cell first).defect = none
  · have hdefect' : (plan cell second).defect = none := by rw [← defect_congr cell first, hdefect]
    rw [planRun_eq_error_iff hoffsets hdefect']
    exact (planRun_eq_error_iff hoffsets hdefect).mp h
  · rw [← plan_congr_of_defect hdefect]
    exact h

/-- What the edits of a cell make, piece by piece. -/
theorem text_of_planRun {cell : Script.Cell} {options : Options} {text : List Char}
    (hsource : cell.offsets.source = cell.source)
    (h : (plan cell options).run cell.source = .ok text) :
    text = pieceText true (functionPieces cell options) := by
  obtain ⟨hdefect, buffer, hrun, rfl⟩ := run_eq_ok h
  obtain ⟨imports, hpatterns, hcalls, hoperations⟩ := plan_eq hdefect
  rw [hoperations] at hrun
  rw [text_eq_weave hrun, weave_eq_flatMap, functionPieces, pieceText_flatMap]
  apply List.flatMap_congr
  intro pos _
  rw [Nat.zero_add, insertedAt_allEdits, isCovered_allEdits options imports hsource]
  simp only [pieceText_append, pieceText_wrapperPieces, if_true]
  by_cases hfirst : 0 = pos <;> by_cases hlast : cell.source.length = pos <;>
    simp [hfirst, hlast, pieceText_preludePieces, importPieces_eq hpatterns hcalls]

/-- Without what makes addresses the function of a cell does not depend on what is resolved. -/
theorem pieceText_unwrapped (cell : Script.Cell) (first second : Options) :
    pieceText false (functionPieces cell first) = pieceText false (functionPieces cell second) := by
  rw [functionPieces, functionPieces, pieceText_flatMap, pieceText_flatMap]
  apply List.flatMap_congr
  intro pos _
  have hprelude : pieceText false (preludePieces (importPieces cell first.resolveLocalImports)) =
      pieceText false (preludePieces (importPieces cell second.resolveLocalImports)) := by
    rw [pieceText_preludePieces, pieceText_preludePieces,
      importPieces_unwrapped cell first.resolveLocalImports second.resolveLocalImports]
  simp only [pieceText_append, pieceText_wrapperPieces]
  by_cases hfirst : 0 = pos
  · simp only [hfirst, if_true, pieceText_cons, hprelude]
    rfl
  · simp only [if_neg hfirst]
    rfl

theorem text_mem_wrapperTexts {cell : Script.Cell} {options : Options} {piece : Piece}
    (hpiece : piece ∈ functionPieces cell options) (hwraps : piece.wraps = true) :
    piece.text ∈ wrapperTexts := by
  obtain ⟨pos, -, hpiece⟩ := List.mem_flatMap.mp hpiece
  simp only [List.mem_append, List.mem_singleton] at hpiece
  rcases hpiece with ((hpiece | hpiece) | hpiece) | rfl
  · split at hpiece
    · rcases List.mem_cons.mp hpiece with rfl | hpiece
      · cases hwraps
      · exact wraps_preludePieces hpiece hwraps
    · cases hpiece
  · exact wraps_wrapperPieces hpiece
  · split at hpiece
    · rw [List.mem_singleton.mp hpiece] at hwraps
      cases hwraps
    · cases hpiece
  · cases hwraps

/-! ## Functions -/

/-- Two functions of a cell that differ in nothing but what was written to make addresses. -/
structure AlikeBesideWrappers (cell : Script.Cell) (first second : Options)
    (function function' : CellFunction) : Prop where
  inputs_eq : function.inputs = function'.inputs
  outputs_eq : function.outputs = function'.outputs
  autodisplay_eq : function.autodisplay = function'.autodisplay
  body_eq : function.body = String.ofList (pieceText true (functionPieces cell first))
  body_eq' : function'.body = String.ofList (pieceText true (functionPieces cell second))
  unwrapped_eq :
    pieceText false (functionPieces cell first) = pieceText false (functionPieces cell second)
  wrappers : ∀ piece ∈ functionPieces cell first ++ functionPieces cell second,
    piece.wraps = true → piece.text ∈ wrapperTexts

section
variable {cell : Script.Cell} {shift : Int}

theorem cellFunction_eq (cell : Script.Cell) (options : Options) :
    cellFunction cell options =
      match (Scope.yields cell.body).head?, (plan cell options).run cell.source with
      | some node, _ =>
        .error (.problem (.fault (Cause.yields.fault cell.source (node.startIn cell.offsets))))
      | none, .error failure => .error failure
      | none, .ok body => .ok
        { body := String.ofList body
          inputs := inputs cell
          outputs := outputs cell
          autodisplay := cell.isExpression &&
            !((inputs cell).contains "display" || (inputs cell).contains "view") } := by
  rw [cellFunction]
  cases (Scope.yields cell.body).head? with
  | some node => rfl
  | none => cases (plan cell options).run cell.source <;> rfl

/-- The function of a cell fails alike, whatever is resolved. -/
theorem error_of_cellFunction (hoffsets : cell.offsets = .ofSource cell.source shift)
    (first second : Options) {failure : Failure} (h : cellFunction cell first = .error failure) :
    cellFunction cell second = .error failure := by
  rw [cellFunction_eq] at h ⊢
  cases hyields : (Scope.yields cell.body).head? with
  | some node =>
    rw [hyields] at h
    exact h
  | none =>
    rw [hyields] at h
    cases hrun : (plan cell first).run cell.source with
    | ok body =>
      rw [hrun] at h
      cases h
    | error other =>
      rw [hrun] at h
      cases h
      rw [error_of_planRun hoffsets first second hrun]

theorem alike_of_cellFunction (hsource : cell.offsets.source = cell.source) {first second : Options}
    {function function' : CellFunction} (h : cellFunction cell first = .ok function)
    (h' : cellFunction cell second = .ok function') :
    AlikeBesideWrappers cell first second function function' := by
  have hbody : ∀ {options : Options} {made : CellFunction}, cellFunction cell options = .ok made →
      made = { body := String.ofList (pieceText true (functionPieces cell options))
               inputs := inputs cell
               outputs := outputs cell
               autodisplay := cell.isExpression &&
                 !((inputs cell).contains "display" || (inputs cell).contains "view") } := by
    intro options made hmade
    rw [cellFunction_eq] at hmade
    split at hmade
    · cases hmade
    · cases hmade
    · next body _ hrun =>
      cases hmade
      rw [text_of_planRun hsource hrun]
  rw [hbody h, hbody h']
  exact {
    inputs_eq := rfl
    outputs_eq := rfl
    autodisplay_eq := rfl
    body_eq := rfl
    body_eq' := rfl
    unwrapped_eq := pieceText_unwrapped cell first second
    wrappers := fun piece hpiece hwraps => by
      rcases List.mem_append.mp hpiece with hpiece | hpiece
      · exact text_mem_wrapperTexts hpiece hwraps
      · exact text_mem_wrapperTexts hpiece hwraps }

end

/-! ## Scripts -/

theorem offsets_eq_of_parseCell {source : List Char} {cell : Script.Cell}
    (h : parseCell source = .ok cell) : ∃ shift, cell.offsets = .ofSource cell.source shift := by
  rcases parseCell_eq_ok h with ⟨_, -, hcell⟩ | ⟨_, -, -, hcell⟩
  · exact ⟨1, by rw [hcell.offsets_eq, hcell.source_eq]⟩
  · exact ⟨0, by rw [hcell.offsets_eq, hcell.source_eq]⟩

theorem error_of_transpileScript {source : List Char} (first second : Options) {failure : Failure}
    (h : transpileScript source first = .error failure) :
    transpileScript source second = .error failure := by
  rw [transpileScript] at h ⊢
  split at h
  · exact h
  · next cell hcell =>
    obtain ⟨shift, hoffsets⟩ := offsets_eq_of_parseCell hcell
    exact error_of_cellFunction hoffsets first second h

theorem alike_of_transpileScript {source : List Char} {first second : Options}
    {function function' : CellFunction} (h : transpileScript source first = .ok function)
    (h' : transpileScript source second = .ok function') :
    ∃ cell, parseCell source = .ok cell ∧
      AlikeBesideWrappers cell first second function function' := by
  rw [transpileScript] at h h'
  split at h
  · cases h
  · next cell hcell =>
    rw [hcell] at h'
    have hsource : cell.offsets.source = cell.source := by
      rw [offsets_source_of_parseCell hcell, source_of_parseCell hcell]
    exact ⟨cell, hcell, alike_of_cellFunction hsource h h'⟩

end NotebookCell
