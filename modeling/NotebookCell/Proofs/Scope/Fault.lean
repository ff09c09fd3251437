import NotebookCell.Proofs.Reading.Place
import NotebookCell.Proofs.Script.Program

/-!
# Where faults point

A cell that assigns or redeclares what it does not own, or that yields, is refused with a fault at
the offending fragment: the name, or the word `yield`. The offset, the line and the column of the
fault are those of the fragment in the script that the cell stands for. Only a script cell is its
own script; for content the fault points into the template literal that was made of it.

`fault_points_at_fragment` says this of all cells. Everything else that can be wrong is a fault of
category `parse`, or has no place.
-/

namespace NotebookCell

open NotebookCell.Tree NotebookCell.Text NotebookCell.Script NotebookCell.Scope

/-- The fragment of a script that a cause is about. -/
def Cause.fragment? : Cause → Option String
  | assignsExternal name | assignsGlobal name | redefinesGlobal name => some name
  | yields => some "yield"
  | _ => none

/-- A fault about a fragment of a text, at the place where the fragment begins. -/
def Fault.PointsInto (fault : Fault) (text : List Char) : Prop :=
  ∃ (cause : Cause) (fragment : String) (pos : Nat), cause.fragment? = some fragment ∧
    fragment ≠ "" ∧ fault = cause.fault text pos ∧
    (text.drop pos).take fragment.length = fragment.toList

/-! ## Faults of an analysed cell -/

namespace Script

variable {source text : List Char} {offsets : Offsets}

/-- The source that the offsets of a frame lead into. -/
theorem Frame.source_eq (h : Frame source text offsets) : offsets.source = source := by
  cases h <;> rfl

/-- A fault at the start of a fragment points at it. -/
theorem Frame.pointsInto (h : Frame source text offsets) {node : Node} {word : String}
    (hword : IsFragment text node word) {cause : Cause} (hcause : cause.fragment? = some word) :
    (cause.fault source (node.startIn offsets)).PointsInto source := by
  obtain ⟨behind, hdrop⟩ := h.begins hword
  refine ⟨cause, word, node.startIn offsets, hcause, hword.2.1, rfl, ?_⟩
  rw [hdrop, ← String.length_toList, List.take_left]

theorem nameAt_of_mem_assignedLeaves {root : Node} (h : root.Sound text) {leaf : Node × List Nat}
    (hleaf : leaf ∈ assignedLeaves root) : NameAt text leaf.1 := by
  rw [assignedLeaves, List.mem_flatMap] at hleaf
  obtain ⟨target, htarget, hleaf⟩ := hleaf
  obtain ⟨site, hsite, htarget⟩ := List.mem_filterMap.mp htarget
  have hsound := sound_of_mem_sites h hsite
  suffices htargetSound : target.node.Sound text from nameAt_of_mem_leaves htargetSound leaf hleaf
  rw [target?.eq_def] at htarget
  split at htarget
  case h_6 =>
    split at htarget
    · exact sound_of_site_child? hsound htarget
    · cases htarget
  case h_7 => cases htarget
  all_goals exact sound_of_site_child? hsound htarget

theorem pointsInto_of_assignmentFault? {root : Node} {references : List Site} {fault : Fault}
    (h : Frame source text offsets) (hsound : root.Sound text)
    (hfault : assignmentFault? (nameIn text) offsets root references = some fault) :
    fault.PointsInto source := by
  rw [assignmentFault?] at hfault
  obtain ⟨leaf, hleaf, hviolation⟩ := List.exists_of_findSome?_eq_some hfault
  obtain ⟨cause, hcause, rfl⟩ := Option.map_eq_some_iff.mp hviolation
  rw [h.source_eq]
  refine h.pointsInto (isFragment_of_nameAt (nameAt_of_mem_assignedLeaves hsound hleaf)) ?_
  rw [violation?] at hcause
  split at hcause
  · cases hcause
    rfl
  · split at hcause
    · cases hcause
      rfl
    · cases hcause

theorem nameAt_of_mem_importLocals {statement node : Node} (h : statement.Sound text)
    (hnode : node ∈ importLocals statement) : NameAt text node := by
  have hpart {part : Node} (hsound : part.Sound text) (hmem : node ∈ clauseLocals part) :
      node.Sound text ∧ node.kind = .identifier := by
    rw [clauseLocals.eq_def] at hmem
    split at hmem
    · next hkind =>
      rw [List.mem_singleton] at hmem
      exact hmem ▸ ⟨hsound, hkind⟩
    · obtain ⟨hchild, hkind⟩ := List.mem_filter.mp hmem
      exact ⟨hsound.children node (List.mem_filter.mp hchild).1, beq_iff_eq.mp hkind⟩
    · obtain ⟨specifier, hspecifier, hlocal⟩ := List.mem_filterMap.mp hmem
      have hsound' := hsound.children specifier (List.mem_filter.mp hspecifier).1
      rw [specifierLocal?] at hlocal
      split at hlocal
      · cases hlocal
      · obtain ⟨hchild, hkind⟩ := Option.filter_eq_some_iff.mp hlocal
        refine ⟨?_, beq_iff_eq.mp hkind⟩
        cases hnew : specifier.child? .localName with
        | some newName =>
          rw [hnew] at hchild
          cases hchild
          exact sound_of_child? hsound' hnew
        | none =>
          rw [hnew] at hchild
          exact sound_of_child? hsound' hchild
    · cases hmem
  rw [importLocals, List.mem_flatMap] at hnode
  obtain ⟨clause, hclause, hnode⟩ := hnode
  obtain ⟨part, hmem, hnode⟩ := List.mem_flatMap.mp hnode
  have hsound := (h.children clause (List.mem_filter.mp (List.mem_filter.mp hclause).1).1).children
    part (List.mem_filter.mp hmem).1
  obtain ⟨hsound, hkind⟩ := hpart hsound hnode
  exact nameAt_of_isNameKind hsound.proper (by rw [hkind]; rfl)

theorem nameAt_of_mem_declaredBy {statement node : Node} (h : statement.Sound text)
    (hnode : node ∈ declaredBy statement) : NameAt text node := by
  rw [declaredBy.eq_def] at hnode
  split at hnode
  case h_1 | h_2 =>
    obtain ⟨declarator, hdeclarator, hnode⟩ := List.mem_flatMap.mp hnode
    have hsound := h.children declarator
      (List.mem_filter.mp (List.mem_filter.mp hdeclarator).1).1
    rw [bindingsOf] at hnode
    cases htarget : declarator.child? .name with
    | none =>
      rw [htarget] at hnode
      cases hnode
    | some target =>
      rw [htarget] at hnode
      exact nameAt_of_mem_bindings (sound_of_child? hsound htarget) node hnode
  case h_3 hkind | h_4 hkind | h_5 hkind =>
    have hchild : statement.child? .name = some node := Option.mem_toList.mp hnode
    have hnames := names_of_isDefinition h.proper (by rw [hkind]; rfl)
    have hfield := List.find?_some (p := fun child : Node => child.field == some .name) hchild
    have hidentifier := hnames node (List.mem_of_find?_eq_some hchild) (beq_iff_eq.mp hfield)
    exact nameAt_of_isNameKind (sound_of_child? h hchild).proper (by rw [hidentifier]; rfl)
  case h_6 => exact nameAt_of_mem_importLocals h hnode
  case h_7 => cases hnode

theorem pointsInto_of_declarations {program : Node} {fault : Fault}
    (h : Frame source text offsets) (hsound : program.Sound text)
    (hfault : declarations (nameIn text) offsets program = .error fault) :
    fault.PointsInto source := by
  rw [declarations] at hfault
  split at hfault
  · next node hfound =>
    cases hfault
    rw [h.source_eq]
    obtain ⟨statement, hstatement, hnode⟩ := List.mem_flatMap.mp (List.mem_of_find?_eq_some hfound)
    have hstatement := hsound.children statement (List.mem_filter.mp hstatement).1
    exact h.pointsInto (isFragment_of_nameAt (nameAt_of_mem_declaredBy hstatement hnode)) rfl
  · cases hfault

theorem pointsInto_of_analyse {body : Node} {isExpression : Bool} {fault : Fault}
    (h : Frame source text offsets) (hsound : body.Sound text)
    (hfault : analyse source text body isExpression offsets = .error (.fault fault)) :
    fault.PointsInto source := by
  unfold analyse at hfault
  simp only [bind, Except.bind, pure, Except.pure, throw, throwThe, MonadExceptOf.throw] at hfault
  split at hfault
  · next found hfound =>
    cases hfault
    exact pointsInto_of_assignmentFault? h hsound hfound
  · cases isExpression with
    | true => cases hfault
    | false =>
      simp only [Bool.false_eq_true, if_false] at hfault
      split at hfault
      · cases hfault
      · next found hfound =>
        cases hfault
        exact pointsInto_of_declarations h hsound hfound

theorem isFragment_of_mem_yields {root node : Node} (h : root.Sound text)
    (hnode : node ∈ yields root) : IsFragment text node "yield" := by
  rw [yields] at hnode
  obtain ⟨hmem, hkind⟩ := List.mem_filter.mp hnode
  rw [outsideFunctions] at hmem
  split at hmem
  · cases hmem
  · have hshape := (sound_of_mem_walk h hmem).proper.2.2.2
    rw [beq_iff_eq.mp hkind] at hshape
    exact ⟨hshape, by decide, List.all_eq_true.mp (by decide)⟩

/-! ## Faults of a script -/

theorem sound_of_cellExpression? {expression : Node}
    (h : cellExpression? source = some expression) : expression.Sound (enclose source) := by
  obtain ⟨parsed, hparsed, rfl⟩ := cellExpression?_eq_some h
  rw [parseExpression] at hparsed
  split at hparsed
  · cases hparsed
  next root hparse =>
  split at hparsed
  · next expression henclosed =>
    cases hparsed
    rw [enclosedExpression?] at henclosed
    simp only [Option.bind_eq_bind, Option.bind_eq_some_iff] at henclosed
    obtain ⟨statement, hstatement, -, -, group, hgroup, -, -, hexpression⟩ := henclosed
    have hroot := sound_of_parse? hparse
    have hstatement := hroot.children _ (mem_children_of_soleStatement? hstatement)
    have hgroup := hstatement.children _ (mem_children_of_firstExpression? hgroup)
    exact hgroup.children _ (mem_children_of_firstExpression? hexpression)
  · cases hparsed

/-- What can be wrong with a cell that is no script at all is a fault of category `parse`. -/
theorem pointsInto_of_parseCell {fault : Fault} (hfault : parseCell source = .error (.fault fault))
    (hcategory : fault.category ≠ .parse) : fault.PointsInto source := by
  unfold parseCell at hfault
  split at hfault
  · next expression hexpression =>
    exact pointsInto_of_analyse .enclosed (sound_of_cellExpression? hexpression) hfault
  · simp only [bind, Except.bind] at hfault
    split at hfault
    · next problem hproblem =>
      cases hfault
      unfold cellProgram at hproblem
      split at hproblem
      · cases hproblem
      · split at hproblem
        · cases hproblem
          exact absurd rfl hcategory
        · cases hproblem
    · next program hprogram =>
      have hparse := (cellProgram_eq_ok hprogram).1
      exact pointsInto_of_analyse .bare (sound_of_parse? hparse) hfault

theorem exists_frame {cell : Cell} (h : parseCell source = .ok cell) :
    ∃ text, Frame source text cell.offsets ∧ cell.body.Sound text := by
  rcases parseCell_eq_ok h with ⟨expression, hexpression, hcell⟩ | ⟨program, -, hprogram, hcell⟩
  · rw [hcell.offsets_eq, hcell.body_eq]
    exact ⟨_, .enclosed, sound_of_cellExpression? hexpression⟩
  · rw [hcell.offsets_eq, hcell.body_eq]
    exact ⟨_, .bare, sound_of_parse? (cellProgram_eq_ok hprogram).1⟩

end Script

theorem pointsInto_of_transpileScript {source : List Char} {options : Options} {fault : Fault}
    (h : transpileScript source options = .error (.problem (.fault fault)))
    (hcategory : fault.category ≠ .parse) : fault.PointsInto source := by
  unfold transpileScript at h
  split at h
  · next problem hproblem =>
    cases h
    exact pointsInto_of_parseCell hproblem hcategory
  · next cell hcell =>
    unfold cellFunction at h
    simp only [bind, Except.bind, pure, Except.pure, throw, throwThe, MonadExceptOf.throw] at h
    split at h
    · next node hnode =>
      cases h
      obtain ⟨text, hframe, hsound⟩ := exists_frame hcell
      rw [source_of_parseCell hcell]
      have hfragment := isFragment_of_mem_yields hsound (List.mem_of_head? hnode)
      exact hframe.pointsInto hfragment rfl
    · split at h
      · next failure hfailure =>
        cases h
        unfold Body.Plan.run at hfailure
        split at hfailure <;> cases hfailure
      · cases h

/-! ## Faults of content -/

namespace Template

/-- A problem with the form of a text. -/
def IsMalformed : Problem → Prop
  | .ungrammatical => True
  | .fault fault => fault.category = .parse

theorem isMalformed_relocate (source : List Char) (start : Nat) (problem : Problem) :
    IsMalformed (relocate source start problem) := by
  cases problem with
  | ungrammatical => exact trivial
  | fault fault => rfl

theorem isMalformed_of_closeHole {verdict : List Char → Verdict} {source : List Char} {start : Nat}
    {first : Option Problem} (hfirst : ∀ problem ∈ first, IsMalformed problem) {stops : List Nat}
    {problem : Problem} (h : closeHole verdict source start first stops = .error problem) :
    IsMalformed problem := by
  induction stops generalizing first with
  | nil =>
    rw [closeHole] at h
    cases h
    cases first with
    | none => rfl
    | some problem => exact hfirst problem rfl
  | cons stop stops ih =>
    rw [closeHole] at h
    split at h
    · cases h
    · exact ih hfirst h
    · next problem' _ =>
      refine ih (fun other hother => ?_) h
      cases first with
      | none =>
        cases hother
        exact isMalformed_relocate source start problem'
      | some problem => exact hfirst other hother

theorem isMalformed_of_readHole {verdict : List Char → Verdict} {source : List Char} {start : Nat}
    {problem : Problem} (h : readHole verdict source start = .error problem) :
    IsMalformed problem := by
  rw [readHole] at h
  split at h
  · cases h
    rfl
  · split at h
    · cases h
      rfl
    · refine isMalformed_of_closeHole (fun _ hnone => ?_) h
      cases hnone

theorem isMalformed_of_readFrom {reader : LiteralReader} {verdict : List Char → Verdict}
    {source : List Char} {bound pos : Nat} {problem : Problem}
    (h : readFrom reader verdict source bound pos = .error problem) : IsMalformed problem := by
  induction bound generalizing pos with
  | zero =>
    rw [readFrom.eq_def] at h
    dsimp only at h
    split at h
    · cases h
    · cases h
      rfl
  | succ bound ih =>
    rw [readFrom.eq_def] at h
    dsimp only at h
    split at h
    · cases h
    · split at h
      · next bound' _ hbound _ =>
        cases hbound
        simp only [bind, Except.bind] at h
        split at h
        · next problem' hhole =>
          cases h
          exact isMalformed_of_readHole hhole
        · split at h
          · next problem' hrest =>
            cases h
            exact ih hrest
          · cases h
      · cases h
        rfl

theorem isMalformed_of_transpile {source tag : List Char} {embedding : Embedding}
    {problem : Problem} (h : transpile source tag embedding = .error (.problem problem)) :
    IsMalformed problem := by
  rw [transpile] at h
  split at h
  · cases h
  · split at h
    · next problem' hparse =>
      cases h
      exact isMalformed_of_readFrom hparse
    · split at h <;> cases h

end Template

/-- A fault with a place that is found before there is a script is one of form. -/
theorem category_of_scriptOf {source : List Char} {mode : String} {options : Options}
    {fault : Fault} (h : scriptOf source mode options = .error (.problem (.fault fault)))
    (hplaced : fault.pos.isSome) : fault.category = .parse := by
  have hunknown : ∀ {fault : Fault}, fault = (Cause.unknownMode mode).anywhere →
      fault.pos.isSome → fault.category = .parse := by
    rintro _ rfl hplaced
    cases hplaced
  rw [scriptOf] at h
  split at h
  · cases h
    exact hunknown rfl hplaced
  · cases h
  · split at h
    · cases h
      exact hunknown rfl hplaced
    · split at h
      · cases h
      · next problem hproblem =>
        cases h
        exact Template.isMalformed_of_transpile hproblem
      · cases h

/-- A fault that is not one of form and has a place points at the fragment that it is about, in
the script that the cell stands for. -/
theorem fault_points_at_fragment (source mode : String) (options : Options) (fault : Fault)
    (hfault : transpile source mode options = .error (.problem (.fault fault)))
    (hcategory : fault.category = .assignment ∨ fault.category = .structural)
    (hplaced : fault.pos.isSome) :
    ∃ (script : List Char) (cause : Cause) (fragment : String) (pos : Nat),
      scriptOf source.toList mode options = .ok script ∧
      (mode = Mode.js.name → script = source.toList) ∧
      cause.fragment? = some fragment ∧ fragment ≠ "" ∧ fault.message = cause.message ∧
      fault.pos = some (pos : Int) ∧ (script.drop pos).take fragment.length = fragment.toList ∧
      fault.line = some ((placeOf script pos).line : Int) ∧
      fault.column = some ((placeOf script pos).column : Int) := by
  have hform : fault.category ≠ .parse := by
    rcases hcategory with hcategory | hcategory <;> rw [hcategory] <;> decide
  rw [transpile] at hfault
  split at hfault
  · split at hfault
    · cases hfault
      cases hplaced
    · cases hfault
  · simp only [bind, Except.bind] at hfault
    split at hfault
    · next failure hscript =>
      cases hfault
      exact absurd (category_of_scriptOf hscript hplaced) hform
    · next script hscript =>
      obtain ⟨cause, fragment, pos, hcause, hne, rfl, htext⟩ :=
        pointsInto_of_transpileScript hfault hform
      refine ⟨script, cause, fragment, pos, hscript, ?_, hcause, hne, rfl, rfl, htext, rfl, rfl⟩
      rintro rfl
      exact (Except.ok.inj hscript).symm

/-- The fault that a cell is refused for, if it is. -/
def faultOf? : Except Failure CellFunction → Option Fault
  | .error (.problem (.fault fault)) => some fault
  | _ => none

theorem eq_error_of_faultOf? {result : Except Failure CellFunction} {fault : Fault}
    (h : faultOf? result = some fault) : result = .error (.problem (.fault fault)) := by
  rw [faultOf?.eq_def] at h
  split at h
  · cases h
    rfl
  · cases h

theorem fault_points_at_fragment_hole :
    transpile "$\x7bx = 1\x7d" "tex" {} =
        .error (.problem (.fault ⟨.assignment, "Assignment to external variable 'x'", some 12, some 1,
          some 12⟩)) ∧
      ∃ (script : List Char) (cause : Cause) (fragment : String) (pos : Nat),
        scriptOf "$\x7bx = 1\x7d".toList "tex" {} = .ok script ∧
        ("tex" = Mode.js.name → script = "$\x7bx = 1\x7d".toList) ∧
        cause.fragment? = some fragment ∧ fragment ≠ "" ∧
        "Assignment to external variable 'x'" = cause.message ∧ some 12 = some (pos : Int) ∧
        (script.drop pos).take fragment.length = fragment.toList ∧
        some 1 = some ((placeOf script pos).line : Int) ∧
        some 12 = some ((placeOf script pos).column : Int) := by
  have hfault : transpile "$\x7bx = 1\x7d" "tex" {} =
      .error (.problem (.fault ⟨.assignment, "Assignment to external variable 'x'", some 12, some 1,
        some 12⟩)) :=
    eq_error_of_faultOf? (by decide +kernel)
  exact ⟨hfault, fault_points_at_fragment _ _ _ _ hfault (.inl rfl) rfl⟩

end NotebookCell
