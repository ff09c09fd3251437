import Mathlib.Data.Option.Basic
import NotebookCell.Proofs.Editing.Trim
import NotebookCell.Proofs.Script.Cell
import NotebookCell.Proofs.Tree.Walk

/-!
# The text of an emitted function

The function of a cell is a header, the imports of the cell as one statement, the trimmed source of
the cell with its import statements taken out and its addresses wrapped, and a footer. All of these
are edits over one source, several of them at the same offsets; here they are put in their order.

* `planImports_eq`: the edits for import statements that are all replaced;
* `resolutions_eq`: the edits for addresses wrap one expression each;
* `text_of_allEdits`: the text that all edits of a cell make.
-/

namespace NotebookCell

open NotebookCell.Tree NotebookCell.Text NotebookCell.Editing NotebookCell.Script NotebookCell.Body

/-! ## The parts -/

/-- The import statements that are replaced: those at the top level of a program. -/
def replacedImports (cell : Script.Cell) : List Node :=
  if cell.isExpression then [] else topImports cell.body

/-- Whether the character at an offset goes with an import statement: it belongs to the statement, or
it is the line break right behind it and more than white space follows. -/
def isImport (cell : Script.Cell) (pos : Nat) : Bool :=
  (replacedImports cell).any fun statement =>
    statement.startIn cell.offsets ≤ pos &&
      (pos < statement.stopIn cell.offsets ||
        (pos == statement.stopIn cell.offsets && cell.source[pos]? == some '\n' &&
          (cell.source.drop (pos + 1)).any fun c => !isWhite c))

/-- The expressions that are made addresses, each with the address it is relative to. -/
def addresses (cell : Script.Cell) (options : Options) : List (String × Node) :=
  let callees := (Scope.references cell.name cell.body
    fun node => cell.name node == attachmentName).map (·.path)
  (if options.resolveLocalImports then
    (cell.body.walkAll.filterMap (localImport? cell.offsets)).map (documentBase, ·) else []) ++
  (if options.resolveFiles then
    (cell.body.sites.filterMap (attachedName? callees)).map (moduleBase, ·) else [])

/-- What is written at an offset to make addresses of expressions that start or end there. -/
def wrappersAt (cell : Script.Cell) (options : Options) (pos : Nat) : List Char :=
  ((addresses cell options).filter (·.2.startIn cell.offsets == pos)).flatMap (fun _ => urlStart) ++
    ((addresses cell options).filter (·.2.stopIn cell.offsets == pos)).flatMap (urlEnd ·.1)

/-- The first argument of a node that is a call. -/
def firstArgument? (call : Node) : Option Node :=
  if call.kind == .callExpression then (call.child? .arguments).bind Node.firstExpression? else none

/-- The argument lies strictly inside the call, and the call inside the trimmed source. -/
def ArgumentInside (cell : Script.Cell) (call argument : Node) : Prop :=
  leading cell.source ≤ call.startIn cell.offsets ∧
    call.startIn cell.offsets < argument.startIn cell.offsets ∧
    argument.startIn cell.offsets ≤ argument.stopIn cell.offsets ∧
    argument.stopIn cell.offsets < call.stopIn cell.offsets ∧
    call.stopIn cell.offsets ≤ leading cell.source + (trim cell.source).length

instance (cell : Script.Cell) (call argument : Node) :
    Decidable (ArgumentInside cell call argument) :=
  inferInstanceAs (Decidable (_ ∧ _))

/-- The first arguments of all calls of a cell are well placed. -/
def CallsInside (cell : Script.Cell) : Prop :=
  ∀ call ∈ cell.body.walkAll, ∀ argument ∈ firstArgument? call, ArgumentInside cell call argument

instance (cell : Script.Cell) : Decidable (CallsInside cell) :=
  inferInstanceAs (Decidable (∀ call ∈ cell.body.walkAll, ∀ argument ∈ firstArgument? call,
    ArgumentInside cell call argument))

/-! ## Imports -/

/-- Import statements without a defect are all deleted, and what they import is bound in front. -/
theorem planImports_eq {name : Node → String} {offsets : Offsets} {resolve : Bool}
    {found : List (List Char × List Char)} {statements : List Node}
    (h : (planImports name offsets resolve found statements).defect = none) :
    ∃ imports : List (List Char × List Char),
      statements.map (importPattern name offsets) = imports.map (.ok ·.1) ∧
      statements.map (importCall offsets resolve) = imports.map (.ok ·.2) ∧
      (planImports name offsets resolve found statements).operations =
        statements.map (removal offsets) ++
          (if (found ++ imports).isEmpty then []
            else [.insertLeft 0 (prelude (found ++ imports))]) := by
  induction statements generalizing found with
  | nil =>
    refine ⟨[], rfl, rfl, ?_⟩
    rw [planImports, List.append_nil]
    split <;> rfl
  | cons statement statements ih =>
    rw [planImports] at h ⊢
    dsimp only at h ⊢
    split at h
    · next pattern call hpattern hcall =>
      obtain ⟨imports, hpatterns, hcalls, hoperations⟩ := ih h
      refine ⟨(pattern, call) :: imports, ?_, ?_, ?_⟩
      · rw [List.map_cons, hpattern, hpatterns, List.map_cons]
      · rw [List.map_cons, hcall, hcalls, List.map_cons]
      · dsimp only
        rw [hoperations, List.append_assoc, List.map_cons]
        rfl
    · cases h
    · cases h

/-- The edits for the import statements of a cell. -/
theorem importStatements_eq (cell : Script.Cell) (resolve : Bool) :
    importStatements cell resolve =
      planImports cell.name cell.offsets resolve [] (replacedImports cell) := by
  rw [importStatements, replacedImports]
  split <;> rfl

/-- The range of an import statement, with the line break that goes with it. -/
theorem removedRange_covers (offsets : Offsets) (statement : Node) (pos : Nat) :
    (⟨.right, (removedRange offsets statement).1, (removedRange offsets statement).2, []⟩ :
      Edit).covers pos =
      (decide (statement.startIn offsets ≤ pos) &&
        (decide (pos < statement.stopIn offsets) ||
          (pos == statement.stopIn offsets && offsets.source[pos]? == some '\n' &&
            (offsets.source.drop (pos + 1)).any fun c => !isWhite c))) := by
  have hblack : ∀ text : List Char, (!(trim text).isEmpty) = text.any fun c => !isWhite c := by
    intro text
    rw [Bool.eq_iff_iff, Bool.not_eq_true', List.isEmpty_eq_false_iff, ne_eq, trim_eq_nil_iff,
      List.any_eq_true]
    simp
  rw [Edit.covers, removedRange]
  dsimp only
  rw [hblack, List.drop_drop, List.head?_drop]
  by_cases hstop : pos = statement.stopIn offsets
  · subst hstop
    split <;> simp_all
  · have hne := beq_eq_false_iff_ne.mpr hstop
    split
    · have hnext : pos < statement.stopIn offsets + 1 ↔ pos < statement.stopIn offsets := by omega
      simp [hne, hnext]
    · simp [hne]

/-- Deleting the import statements of a cell covers their characters. -/
theorem isCovered_removals {cell : Script.Cell} (hsource : cell.offsets.source = cell.source)
    (pos : Nat) :
    isCovered (((replacedImports cell).map (removal cell.offsets)).flatMap
      (Operation.edits cell.source)) pos = isImport cell pos := by
  rw [isImport, isCovered]
  induction replacedImports cell with
  | nil => rfl
  | cons statement statements ih =>
    have hone := removedRange_covers cell.offsets statement pos
    rw [hsource] at hone
    rw [List.map_cons, List.flatMap_cons, List.any_append, ih, List.any_cons, ← hone]
    simp [removal, Operation.delete, Operation.edits]

/-! ## Addresses -/

/-- A local specifier is the first argument of a call. -/
theorem firstArgument?_of_localImport? {offsets : Offsets} {call argument : Node}
    (h : localImport? offsets call = some argument) : firstArgument? call = some argument := by
  unfold localImport? at h
  simp only [bind, Option.bind_eq_some_iff, Option.guard_eq_some', beq_iff_eq] at h
  obtain ⟨_, hkind, _, _, arguments, harguments, _, _, specifier, hspecifier, _, _, hfound⟩ := h
  cases hfound
  rw [firstArgument?, hkind, harguments]
  exact hspecifier

/-- So is the name of an attached file, and the callee is at one of the paths. -/
theorem firstArgument?_of_attachedName? {callees : List (List Nat)} {site : Site} {argument : Node}
    (h : attachedName? callees site = some argument) :
    callees ≠ [] ∧ firstArgument? site.node = some argument := by
  unfold attachedName? at h
  simp only [bind, Option.bind_eq_some_iff, Option.guard_eq_some', beq_iff_eq] at h
  obtain ⟨_, hkind, callee, _, _, hcallee, arguments, harguments, _, _, hargument⟩ := h
  constructor
  · rintro rfl
    simp at hcallee
  · rw [firstArgument?, hkind, harguments]
    exact hargument

/-- Without callees there are no attachments. -/
theorem attachments_eq (name : Node → String) (offsets : Offsets) (body : Node) :
    attachments name offsets body =
      (body.sites.filterMap (attachedName? ((Scope.references name body
        fun node => name node == attachmentName).map (·.path)))).flatMap
          (wrapInUrl offsets moduleBase) := by
  rw [attachments]
  split
  · next hnone =>
    rw [List.isEmpty_iff] at hnone
    have hempty : body.sites.filterMap (attachedName? []) = [] := by
      rw [List.filterMap_eq_nil_iff]
      intro site _
      rw [Option.eq_none_iff_forall_ne_some]
      intro argument h
      exact (firstArgument?_of_attachedName? h).1 rfl
    rw [hnone, hempty]
    rfl
  · rfl

/-- Resolving addresses wraps one expression after the other. -/
theorem resolutions_eq (cell : Script.Cell) (options : Options) :
    resolutions cell options = (addresses cell options).flatMap fun address =>
      wrapInUrl cell.offsets address.1 address.2 := by
  rw [resolutions, addresses, List.flatMap_append, attachments_eq, importCalls]
  congr 1
  · split
    · rw [List.flatMap_map]
    · rfl
  · split
    · rw [List.flatMap_map]
    · rfl

/-- Every address is the first argument of a call. -/
theorem call_of_mem_addresses {cell : Script.Cell} {options : Options} {address : String × Node}
    (h : address ∈ addresses cell options) :
    ∃ call ∈ cell.body.walkAll, firstArgument? call = some address.2 := by
  rw [addresses, List.mem_append] at h
  rcases h with h | h
  · split at h
    · obtain ⟨argument, hargument, rfl⟩ := List.mem_map.mp h
      obtain ⟨call, hcall, hfound⟩ := List.mem_filterMap.mp hargument
      exact ⟨call, hcall, firstArgument?_of_localImport? hfound⟩
    · cases h
  · split at h
    · obtain ⟨argument, hargument, rfl⟩ := List.mem_map.mp h
      obtain ⟨site, hsite, hfound⟩ := List.mem_filterMap.mp hargument
      have hnode : site.node ∈ cell.body.walkAll := by
        rw [← Node.map_node_sites]
        exact List.mem_map_of_mem hsite
      exact ⟨site.node, hnode, (firstArgument?_of_attachedName? hfound).2⟩
    · cases h

/-- Addresses lie in the trimmed source. -/
theorem inside_of_mem_addresses {cell : Script.Cell} {options : Options} {address : String × Node}
    (hcalls : CallsInside cell) (h : address ∈ addresses cell options) :
    leading cell.source < address.2.startIn cell.offsets ∧
      address.2.startIn cell.offsets ≤ address.2.stopIn cell.offsets ∧
      address.2.stopIn cell.offsets < leading cell.source + (trim cell.source).length := by
  obtain ⟨call, hcall, hargument⟩ := call_of_mem_addresses h
  have hinside := hcalls call hcall address.2 hargument
  rw [ArgumentInside] at hinside
  omega

/-- Nothing is wrapped outside of the trimmed source. -/
theorem wrappersAt_outside {cell : Script.Cell} {options : Options} {pos : Nat}
    (hcalls : CallsInside cell)
    (hpos : pos ≤ leading cell.source ∨ leading cell.source + (trim cell.source).length ≤ pos) :
    wrappersAt cell options pos = [] := by
  have hnone : ∀ offset : String × Node → Nat,
      (∀ address ∈ addresses cell options, leading cell.source < offset address ∧
        offset address < leading cell.source + (trim cell.source).length) →
      (addresses cell options).filter (offset · == pos) = [] := by
    intro offset hoffset
    rw [List.filter_eq_nil_iff]
    intro address haddress hat
    have hinside := hoffset address haddress
    rw [beq_iff_eq] at hat
    omega
  rw [wrappersAt, hnone (·.2.startIn cell.offsets), hnone (·.2.stopIn cell.offsets)]
  · rfl
  · intro address haddress
    have := inside_of_mem_addresses hcalls haddress
    omega
  · intro address haddress
    have := inside_of_mem_addresses hcalls haddress
    omega

/-- What making an address of an expression writes. -/
theorem valuesOn_wrapInUrl (source : List Char) (offsets : Offsets) (base : String) (node : Node)
    (pos : Nat) :
    valuesOn .left ((wrapInUrl offsets base node).flatMap (Operation.edits source)) pos =
      (if node.startIn offsets == pos then urlStart else []) ∧
    valuesOn .right ((wrapInUrl offsets base node).flatMap (Operation.edits source)) pos =
      (if node.stopIn offsets == pos then urlEnd base else []) := by
  constructor
  · by_cases hstart : node.startIn offsets = pos <;>
      simp [valuesOn, wrapInUrl, Operation.insertLeft, Operation.insertRight, Operation.edits,
        Edit.isAt, hstart]
  · by_cases hstop : node.stopIn offsets = pos <;>
      simp [valuesOn, wrapInUrl, Operation.insertLeft, Operation.insertRight, Operation.edits,
        Edit.isAt, hstop]

/-- What is written for the items that pass a test. -/
theorem flatMap_ite {α : Type} (test : α → Bool) (value : α → List Char) (items : List α) :
    (items.flatMap fun item => if test item then value item else []) =
      (items.filter test).flatMap value := by
  induction items with
  | nil => rfl
  | cons item items ih =>
    rw [List.flatMap_cons, ih, List.filter_cons]
    split <;> rfl

/-- What resolving addresses writes. -/
theorem valuesOn_resolutions (cell : Script.Cell) (options : Options) (pos : Nat) :
    valuesOn .left ((resolutions cell options).flatMap (Operation.edits cell.source)) pos ++
      valuesOn .right ((resolutions cell options).flatMap (Operation.edits cell.source)) pos =
        wrappersAt cell options pos := by
  rw [resolutions_eq, List.flatMap_assoc, valuesOn_flatMap, valuesOn_flatMap]
  simp only [valuesOn_wrapInUrl, flatMap_ite]
  rfl

theorem isCovered_resolutions (cell : Script.Cell) (options : Options) (pos : Nat) :
    isCovered ((resolutions cell options).flatMap (Operation.edits cell.source)) pos = false := by
  apply isCovered_of_empty
  intro edit hedit
  rw [resolutions_eq, List.flatMap_assoc, List.mem_flatMap] at hedit
  obtain ⟨address, -, hedit⟩ := hedit
  simp only [wrapInUrl, Operation.insertLeft, Operation.insertRight, List.flatMap_cons,
    Operation.edits, List.flatMap_nil, List.append_nil, List.cons_append, List.nil_append,
    List.mem_cons, List.not_mem_nil, or_false] at hedit
  rcases hedit with rfl | rfl <;> rfl

/-! ## The whole text -/

/-- Carrying out a plan succeeds if all its edits are accepted and the tree has no defect. -/
theorem run_eq_ok {plan : Plan} {source text : List Char} (h : plan.run source = .ok text) :
    plan.defect = none ∧
      ∃ buffer, (Buffer.ofSource source).runAll plan.operations = .ok buffer ∧
        text = buffer.text := by
  unfold Plan.run at h
  split at h
  · cases h
  · cases h
  · next buffer hrun hdefect =>
    cases h
    exact ⟨hdefect, buffer, hrun, rfl⟩

/-- All the edits of a cell, given what its import statements bind and import. -/
def allEdits (cell : Script.Cell) (options : Options) (imports : List (List Char × List Char)) :
    List Operation :=
  .trim :: ((headers cell).map fun text => .insertLeft 0 text.toList) ++
    ((replacedImports cell).map (removal cell.offsets) ++
      (if imports.isEmpty then [] else [.insertLeft 0 (prelude imports)])) ++
    resolutions cell options ++
    (footers cell).map fun text => .insertRight cell.source.length text.toList

/-- A plan without a defect has all the edits of a cell. -/
theorem plan_eq {cell : Script.Cell} {options : Options} (h : (plan cell options).defect = none) :
    ∃ imports : List (List Char × List Char),
      (replacedImports cell).map (importPattern cell.name cell.offsets) = imports.map (.ok ·.1) ∧
      (replacedImports cell).map (importCall cell.offsets options.resolveLocalImports) =
        imports.map (.ok ·.2) ∧
      (plan cell options).operations = allEdits cell options imports := by
  obtain ⟨hnone, hoperations⟩ :
      (importStatements cell options.resolveLocalImports).defect = none ∧
      (plan cell options).operations =
        .trim :: ((headers cell).map fun text => .insertLeft 0 text.toList) ++
          (importStatements cell options.resolveLocalImports).operations ++
          resolutions cell options ++
          (footers cell).map fun text => .insertRight cell.source.length text.toList := by
    rw [plan, planBetween] at h ⊢
    split at h
    · cases h
    · next hnone => exact ⟨hnone, rfl⟩
  rw [importStatements_eq] at hnone hoperations
  obtain ⟨imports, hpatterns, hcalls, hplan⟩ := planImports_eq hnone
  rw [List.nil_append] at hplan
  exact ⟨imports, hpatterns, hcalls, by rw [hoperations, hplan, allEdits]⟩

/-- What is written for the imports of a cell. -/
theorem valuesOn_prelude (source : List Char) (imports : List (List Char × List Char))
    (side : Side) (pos : Nat) :
    valuesOn side ((if imports.isEmpty then []
      else [Operation.insertLeft 0 (prelude imports)]).flatMap (Operation.edits source)) pos =
        if .left = side ∧ 0 = pos then prelude imports else [] := by
  cases imports with
  | nil =>
    have hnone : prelude [] = [] := rfl
    rw [hnone, ite_self]
    rfl
  | cons first others =>
    have hone := valuesOn_insertions source side .left 0 [prelude (first :: others)] pos
    rw [List.flatten_singleton, List.map_singleton] at hone
    rw [List.isEmpty_cons, if_neg Bool.false_ne_true, ← hone]
    rfl

/-- What the edits of a cell write: the headers and the imports at the start, wrappers around
addresses, the footers at the end. -/
theorem insertedAt_allEdits (cell : Script.Cell) (options : Options)
    (imports : List (List Char × List Char)) (pos : Nat) :
    insertedAt ((allEdits cell options imports).flatMap (Operation.edits cell.source)) pos =
      (if 0 = pos then ((headers cell).map String.toList).flatten ++ prelude imports else []) ++
        (wrappersAt cell options pos ++
          if cell.source.length = pos then ((footers cell).map String.toList).flatten else []) := by
  have htrim : ∀ side, valuesOn side (Operation.edits cell.source .trim) pos = [] := by
    intro side
    apply valuesOn_of_empty
    intro edit hedit
    obtain ⟨range, -, rfl⟩ := List.mem_map.mp hedit
    rfl
  have hremoved : ∀ side, valuesOn side (((replacedImports cell).map
      (removal cell.offsets)).flatMap (Operation.edits cell.source)) pos = [] := by
    intro side
    apply valuesOn_of_empty
    intro edit hedit
    obtain ⟨operation, hoperation, hedit⟩ := List.mem_flatMap.mp hedit
    obtain ⟨statement, -, rfl⟩ := List.mem_map.mp hoperation
    rw [List.mem_singleton.mp hedit]
  have hheaders : ∀ side, valuesOn side (((headers cell).map fun text =>
      Operation.insertLeft 0 text.toList).flatMap (Operation.edits cell.source)) pos =
        if .left = side ∧ 0 = pos then ((headers cell).map String.toList).flatten else [] := by
    intro side
    rw [← valuesOn_insertions cell.source, List.map_map]
    rfl
  have hfooters : ∀ side, valuesOn side (((footers cell).map fun text =>
      Operation.insertRight cell.source.length text.toList).flatMap
        (Operation.edits cell.source)) pos =
        if .right = side ∧ cell.source.length = pos then ((footers cell).map String.toList).flatten
        else [] := by
    intro side
    rw [← valuesOn_insertions cell.source, List.map_map]
    rfl
  rw [insertedAt, allEdits]
  simp only [List.flatMap_append, List.flatMap_cons, valuesOn_append, htrim, hheaders, hremoved,
    valuesOn_prelude, hfooters, ← valuesOn_resolutions]
  by_cases hpos : 0 = pos <;> by_cases hend : cell.source.length = pos <;> simp [hpos, hend]

/-- What the edits of a cell cover: the white space around it and its import statements. -/
theorem isCovered_allEdits {cell : Script.Cell} (options : Options)
    (imports : List (List Char × List Char)) (hsource : cell.offsets.source = cell.source)
    (pos : Nat) :
    isCovered ((allEdits cell options imports).flatMap (Operation.edits cell.source)) pos =
      (isCovered (Operation.edits cell.source .trim) pos || isImport cell pos) := by
  have hempty : ∀ (side : Side) (offset : Nat) (texts : List (List Char)),
      isCovered ((texts.map fun text => Operation.replace side offset offset text).flatMap
        (Operation.edits cell.source)) pos = false := by
    intro side offset texts
    apply isCovered_of_empty
    intro edit hedit
    obtain ⟨operation, hoperation, hedit⟩ := List.mem_flatMap.mp hedit
    obtain ⟨text, -, rfl⟩ := List.mem_map.mp hoperation
    rw [List.mem_singleton.mp hedit]
  have hheaders : isCovered (((headers cell).map fun text =>
      Operation.insertLeft 0 text.toList).flatMap (Operation.edits cell.source)) pos = false := by
    rw [← hempty .left 0 ((headers cell).map String.toList), List.map_map]
    rfl
  have hfooters : isCovered (((footers cell).map fun text =>
      Operation.insertRight cell.source.length text.toList).flatMap
        (Operation.edits cell.source)) pos = false := by
    rw [← hempty .right cell.source.length ((footers cell).map String.toList), List.map_map]
    rfl
  have hprelude : isCovered ((if imports.isEmpty then []
      else [Operation.insertLeft 0 (prelude imports)]).flatMap
        (Operation.edits cell.source)) pos = false := by
    split
    · rfl
    · exact hempty .left 0 [prelude imports]
  rw [allEdits]
  simp only [List.flatMap_append, List.flatMap_cons, isCovered_append, hheaders, hprelude, hfooters,
    isCovered_removals hsource, isCovered_resolutions, Bool.or_false]

/-- The text that the edits of a cell make. -/
theorem text_of_allEdits {cell : Script.Cell} {options : Options}
    {imports : List (List Char × List Char)} {buffer : Buffer}
    (hsource : cell.offsets.source = cell.source) (hcalls : CallsInside cell)
    (hrun : (Buffer.ofSource cell.source).runAll (allEdits cell options imports) = .ok buffer) :
    buffer.text = ((headers cell).map String.toList).flatten ++ prelude imports ++
      weave (wrappersAt cell options) (isImport cell) (leading cell.source) (trim cell.source) ++
      ((footers cell).map String.toList).flatten := by
  have hinserted := insertedAt_allEdits cell options imports
  -- headers and imports come before all else, also before what is written at the first offset
  have hfirst : buffer.text = ((headers cell).map String.toList).flatten ++ prelude imports ++
      weave (fun pos => wrappersAt cell options pos ++
          if cell.source.length = pos then ((footers cell).map String.toList).flatten else [])
        (fun pos => isCovered (Operation.edits cell.source .trim) pos || isImport cell pos) 0
        cell.source := by
    rw [text_eq_weave hrun]
    apply weave_cons_value
    · rw [hinserted, if_pos rfl]
    · intro pos hpos
      rw [hinserted, if_neg (by omega), List.nil_append]
    · intro pos _
      exact isCovered_allEdits options imports hsource pos
  -- footers come behind all else
  have hlast : weave (fun pos => wrappersAt cell options pos ++
          if cell.source.length = pos then ((footers cell).map String.toList).flatten else [])
        (fun pos => isCovered (Operation.edits cell.source .trim) pos || isImport cell pos) 0
        cell.source =
      weave (wrappersAt cell options)
        (fun pos => isCovered (Operation.edits cell.source .trim) pos || isImport cell pos) 0
        cell.source ++ ((footers cell).map String.toList).flatten := by
    apply weave_append_value
    · rw [Nat.zero_add, if_pos rfl]
    · intro pos _ hpos
      rw [if_neg (by omega), List.append_nil]
  have htrim : weave (wrappersAt cell options)
        (fun pos => isCovered (Operation.edits cell.source .trim) pos || isImport cell pos) 0
        cell.source =
      weave (wrappersAt cell options) (isImport cell) (leading cell.source) (trim cell.source) :=
    weave_trim fun pos hpos => wrappersAt_outside hcalls (by omega)
  rw [hfirst, hlast, htrim]
  simp only [List.append_assoc]

theorem headers_eq (cell : Script.Cell) :
    ((headers cell).map String.toList).flatten =
      ((if isAsync cell then "async " else "") ++ "(" ++ ",".intercalate (inputs cell) ++
        ") => \x7b\n" ++ (if cell.isExpression then "return (\n" else "")).toList := by
  rw [headers, header]
  cases isAsync cell <;> cases cell.isExpression <;> simp

theorem footers_eq (cell : Script.Cell) :
    ((footers cell).map String.toList).flatten =
      ((if (outputs cell).isEmpty then ""
        else "\nreturn \x7b" ++ ",".intercalate (outputs cell) ++ "\x7d;") ++
        (if cell.isExpression then "\n)" else "") ++ "\n\x7d").toList := by
  rw [footers, returnOutputs]
  cases (outputs cell).isEmpty <;> cases cell.isExpression <;> simp

/-- Nothing of a script is lost, doubled or moved in the function that is made of it. Between header
and footer stand its imports and its trimmed source, without the import statements at its top level
and with nothing added but what makes addresses of expressions. -/
theorem functionBody_of_accepted {source : List Char} {options : Options} {function : CellFunction}
    {cell : Script.Cell} (haccepted : transpileScript source options = .ok function)
    (hcell : parseCell source = .ok cell) (hcalls : CallsInside cell) :
    ∃ imports : List (List Char × List Char),
      (replacedImports cell).map (importPattern cell.name cell.offsets) = imports.map (.ok ·.1) ∧
      (replacedImports cell).map (importCall cell.offsets options.resolveLocalImports) =
        imports.map (.ok ·.2) ∧
      function.body.toList =
        ((if isAsync cell then "async " else "") ++ "(" ++ ",".intercalate function.inputs ++
          ") => \x7b\n" ++ (if cell.isExpression then "return (\n" else "")).toList ++
        prelude imports ++
        weave (wrappersAt cell options) (isImport cell) (leading source) (trim source) ++
        ((if function.outputs.isEmpty then ""
          else "\nreturn \x7b" ++ ",".intercalate function.outputs ++ "\x7d;") ++
          (if cell.isExpression then "\n)" else "") ++ "\n\x7d").toList := by
  obtain ⟨cell', body, hcell', -, hrun, hbody, hinputs, houtputs⟩ := transpileScript_eq_ok haccepted
  rw [hcell, Except.ok.injEq] at hcell'
  subst hcell'
  obtain ⟨hdefect, buffer, hbuffer, htext⟩ := run_eq_ok hrun
  obtain ⟨imports, hpatterns, hcalls', hoperations⟩ := plan_eq hdefect
  rw [hoperations] at hbuffer
  have hsource : cell.offsets.source = cell.source := by
    rw [offsets_source_of_parseCell hcell, source_of_parseCell hcell]
  have hemitted := text_of_allEdits hsource hcalls hbuffer
  refine ⟨imports, hpatterns, hcalls', ?_⟩
  rw [hbody, String.toList_ofList, htext, hemitted, headers_eq, footers_eq, hinputs, houtputs,
    source_of_parseCell hcell]

/-- A program with white space around it, two import statements, one of them behind other code, and
addresses of both kinds. -/
theorem functionBody_of_accepted_program :
    let source := ("\n import a, \x7bb as c\x7d from './m'\nlet d = a(c); import 'n'\n" ++
      "FileAttachment('f').text(await import('./k'))\n").toList
    let options : Options := { resolveLocalImports := true, resolveFiles := true }
    ∃ function cell imports, transpileScript source options = .ok function ∧
      parseCell source = .ok cell ∧ CallsInside cell ∧
      function.body.toList = "async (FileAttachment) => \x7b\n".toList ++ prelude imports ++
        weave (wrappersAt cell options) (isImport cell) 2 (trim source) ++
        "\nreturn \x7ba,c,d\x7d;\n\x7d".toList := by
  intro source options
  have hfunction : (transpileScript source options).toOption.map
      (fun function => (function.inputs, function.outputs)) =
        some (["FileAttachment"], ["a", "c", "d"]) := by decide +kernel
  have hcell : (parseCell source).toOption.map
      (fun cell => (decide (CallsInside cell), isAsync cell, cell.isExpression)) =
        some (true, true, false) := by decide +kernel
  have hleading : leading source = 2 := by decide +kernel
  obtain ⟨function, haccepted, hlists⟩ := Option.map_eq_some_iff.mp hfunction
  obtain ⟨cell, hparsed, hflags⟩ := Option.map_eq_some_iff.mp hcell
  simp only [Prod.mk.injEq, decide_eq_true_eq] at hlists hflags
  obtain ⟨hcalls, hasync, hexpression⟩ := hflags
  have hok := eq_ok_of_toOption haccepted
  have hread := eq_ok_of_toOption hparsed
  obtain ⟨imports, -, -, hbody⟩ := functionBody_of_accepted hok hread hcalls
  rw [hlists.1, hlists.2, hasync, hexpression, hleading] at hbody
  exact ⟨function, cell, imports, hok, hread, hcalls, hbody⟩

end NotebookCell
