import NotebookCell.Proofs.Scope.Fault
import NotebookCell.Proofs.Scope.Hoisting
import NotebookCell.Proofs.Scope.Target

/-!
# What a cell may assign

A tree is refused exactly if it assigns to something foreign, and the fault names what is assigned
there. In a cell that is accepted every name that is assigned is therefore declared by a scope of the
cell. The names in an import statement are left out of the references, so what is assigned in the
attributes of an import, as in `import "m" with {a: b++}`, can belong to anyone.

* `mem_sites_of_writes`: what is written in a tree of the grammar is one of its constructs;
* `isDeclaredAbove_of_accepted`: what an accepted cell assigns it declares;
* `assignments_checked`: both together, with the wording and the place of the fault.
-/

namespace NotebookCell.Scope

open NotebookCell.Tree NotebookCell.Text NotebookCell.Script

section
variable {text : List Char} {root : Node} {site target leaf : Site}

/-! ## Leaves of a tree of the grammar -/

/-- What is written or holds what is written is not a word or sign. -/
theorem isKeyword_of_writes (h : Writes target leaf) : isKeyword target.node.kind = false := by
  cases h with
  | here hkind =>
    rcases isLeafKind_iff.mp hkind with hkind | hkind | hkind | hkind <;> rw [hkind] <;> rfl
  | value hkind => rcases hkind with hkind | hkind <;> rw [hkind] <;> rfl
  | left hkind => rcases hkind with hkind | hkind <;> rw [hkind] <;> rfl
  | part hkind =>
    rcases isContainer_iff.mp hkind with hkind | hkind | hkind | hkind | hkind | hkind | hkind <;>
      rw [hkind] <;> rfl

/-- What is written below a site is one of the sites of the tree. -/
theorem mem_sites_of_writes (hsound : root.Sound text) (h : Writes target leaf)
    (hsite : site ∈ root.sites) (htarget : target ∈ site.children) : leaf ∈ root.sites := by
  -- a part that is written is a construct, so that it is visited
  have hvisited {site target leaf : Site} (h : Writes target leaf) (hsite : site ∈ root.sites)
      (htarget : target ∈ site.children) : target ∈ root.sites := by
    have hnode : target.node ∈ site.node.children := by
      obtain ⟨node, index, hindex, rfl⟩ := Site.exists_of_mem_children htarget
      exact List.mem_of_getElem? hindex
    have hnamed : target.node.named = true :=
      ((sound_of_mem_sites hsound hsite).children _ hnode).named (isKeyword_of_writes h)
    exact Node.mem_sites_of_child hsite (List.mem_filter.mpr ⟨htarget, hnamed⟩)
  induction h generalizing site with
  | here hkind => exact hvisited (.here hkind) hsite htarget
  | value hkind hchild hleaf ih =>
    exact ih (hvisited (.value hkind hchild hleaf) hsite htarget) (List.mem_of_find?_eq_some hchild)
  | left hkind hchild hleaf ih =>
    exact ih (hvisited (.left hkind hchild hleaf) hsite htarget) (List.mem_of_find?_eq_some hchild)
  | part hkind hchild hleaf ih =>
    exact ih (hvisited (.part hkind hchild hleaf) hsite htarget)
      (Site.mem_children_of_mem_namedChildren hchild)

/-- The word `undefined` names something of the host. -/
theorem isHostName_of_undefinedWord {node : Node} (h : node.Sound text)
    (hkind : node.kind = .undefinedWord) : isHostName (nameIn text node) = true := by
  obtain ⟨before, lexeme, behind, rfl, hstart, hstop, rfl⟩ :=
    lexeme_of_undefinedWord h.proper hkind
  rw [nameIn_of_lexeme hstart hstop]
  decide

/-! ## Accepted cells -/

theorem sound_of_parseCell {source : List Char} {cell : Cell} (h : parseCell source = .ok cell) :
    cell.body.Sound cell.text := by
  rcases parseCell_eq_ok h with ⟨expression, hexpression, hcell⟩ | ⟨program, -, hprogram, hcell⟩
  · rw [hcell.text_eq, hcell.body_eq]
    exact sound_of_cellExpression? hexpression
  · rw [hcell.text_eq, hcell.body_eq]
    exact sound_of_parse? (cellProgram_eq_ok hprogram).1

theorem references_of_analysed {source text : List Char} {body : Node} {isExpression : Bool}
    {offsets : Offsets} {cell : Cell} (h : Analysed source text body isExpression offsets cell) :
    cell.references = freeReferences cell.name cell.body ∧
      assignmentFault? cell.name cell.offsets cell.body cell.references = none := by
  obtain rfl := h.text_eq
  obtain rfl := h.body_eq
  obtain rfl := h.offsets_eq
  exact ⟨h.references_eq, h.assignments_eq⟩

theorem references_of_parseCell {source : List Char} {cell : Cell}
    (h : parseCell source = .ok cell) :
    cell.references = freeReferences cell.name cell.body ∧
      assignmentFault? cell.name cell.offsets cell.body cell.references = none := by
  rcases parseCell_eq_ok h with ⟨_, -, hcell⟩ | ⟨_, -, -, hcell⟩
  · exact references_of_analysed hcell
  · exact references_of_analysed hcell

/-- What an accepted cell assigns is declared by a scope of the cell, outside of imports and export
clauses. -/
theorem isDeclaredAbove_of_accepted {source : List Char} {cell : Cell}
    (h : parseCell source = .ok cell) (hsite : site ∈ cell.body.sites)
    (htarget : Assigns site target) (hleaf : Writes target leaf) :
    leaf ∈ cell.body.sites ∧ isHostName (cell.name leaf.node) = false ∧
      (isInModule leaf = false → isDeclaredAbove cell.name leaf = true) := by
  have hsound := sound_of_parseCell h
  obtain ⟨hreferences, hnone⟩ := references_of_parseCell h
  have hmem := mem_sites_of_writes hsound hleaf hsite (mem_children_of_assigns htarget)
  have hown := assignmentFault?_eq_none_iff.mp hnone site hsite target leaf htarget hleaf
  rw [Foreign, not_or] at hown
  have hhost : isHostName (cell.name leaf.node) = false := Bool.eq_false_iff.mpr hown.2
  refine ⟨hmem, hhost, fun hmodule => ?_⟩
  -- of the leaves only `undefined` is no reference, and that is a name of the host
  have hkind : isReferenceKind leaf.node.kind = true := by
    rcases isLeafKind_iff.mp (isLeafKind_of_writes hleaf) with hkind | hkind | hkind | hkind
    · rw [hkind]; rfl
    · rw [hkind]; rfl
    · rw [hkind]; rfl
    · exact absurd (isHostName_of_undefinedWord (sound_of_mem_sites hsound hmem) hkind) hown.2
  -- a name that no scope declares is one of the references, which are not assigned
  by_contra hundeclared
  refine hown.1 ⟨leaf, ?_, rfl⟩
  rw [hreferences]
  refine mem_references_iff.mpr ⟨hmem, hkind, hmodule, Bool.eq_false_iff.mpr hundeclared, ?_⟩
  rw [hhost]
  rfl

end

/-- A tree is refused exactly if one of its assignments writes to a reference or to a name of the
host; the fault is about such a name, at its place, and says which of both it is. What an accepted
cell assigns is then no name of the host, and outside of imports and export clauses a scope of the
cell declares it. -/
theorem assignments_checked (name : Node → String) (offsets : Offsets) (root : Node)
    (references : List Site) (source : List Char) :
    ((assignmentFault? name offsets root references).isSome = true ↔
      ∃ site ∈ root.sites, ∃ target leaf, Assigns site target ∧ Writes target leaf ∧
        Foreign name references leaf) ∧
    (∀ fault, assignmentFault? name offsets root references = some fault →
      ∃ site ∈ root.sites, ∃ target leaf, Assigns site target ∧ Writes target leaf ∧
        ((IsReference references leaf ∧ fault = .located .assignment
            ("Assignment to external variable '" ++ name leaf.node ++ "'") offsets.source
            (leaf.node.startIn offsets)) ∨
          (¬ IsReference references leaf ∧ isHostName (name leaf.node) = true ∧
            fault = .located .assignment ("Assignment to global '" ++ name leaf.node ++ "'")
              offsets.source (leaf.node.startIn offsets)))) ∧
    ∀ cell, parseCell source = .ok cell →
      ∀ site ∈ cell.body.sites, ∀ target leaf, Assigns site target → Writes target leaf →
        leaf ∈ cell.body.sites ∧ isHostName (cell.name leaf.node) = false ∧
          (isInModule leaf = false → isDeclaredAbove cell.name leaf = true) := by
  refine ⟨?_, ?_, ?_⟩
  · rw [Option.isSome_iff_ne_none, ne_eq, assignmentFault?_eq_none_iff]
    push Not
    rfl
  · intro fault hfault
    obtain ⟨before, site, behind, target, leaf, cause, hsites, htarget, hleaf, hcause, rfl, -⟩ :=
      first_of_assignmentFault? hfault
    have hsite : site ∈ root.sites := by
      rw [hsites]
      exact List.mem_append_cons_self
    refine ⟨site, hsite, target, leaf, htarget, hleaf, ?_⟩
    cases hcause with
    | external hreference => exact .inl ⟨hreference, rfl⟩
    | global hreference hhost => exact .inr ⟨hreference, hhost, rfl⟩
  · intro cell hcell site hsite target leaf htarget hleaf
    exact isDeclaredAbove_of_accepted hcell hsite htarget hleaf

/-- The fault of an assignment, a cell that assigns its own variable, and a cell whose import assigns
a name that no scope declares. -/
theorem assignments_checked_cells :
    (∃ (text : List Char) (root : Node) (fault : Fault), text = "[o.p, x] = y".toList ∧
      parse? text = some root ∧
      assignmentFault? (nameIn text) (.ofSource text 0) root (freeReferences (nameIn text) root) =
        some fault ∧ fault.message = "Assignment to external variable 'x'" ∧ fault.pos = some 6 ∧
      ∃ site ∈ root.sites, ∃ target leaf, Assigns site target ∧ Writes target leaf ∧
        leaf.node.startIn (.ofSource text 0) = 6) ∧
    (∃ (cell : Cell) (site target leaf : Site),
      parseCell "let a; [\x7bb: a = 1\x7d] = []".toList = .ok cell ∧ site ∈ cell.body.sites ∧
      Assigns site target ∧ Writes target leaf ∧ leaf.node.start = 12 ∧ leaf ∈ cell.body.sites ∧
      isDeclaredAbove cell.name leaf = true) ∧
    (∃ (cell : Cell) (site target leaf : Site),
      parseCell "import \"m\" with \x7ba: b++\x7d".toList = .ok cell ∧ site ∈ cell.body.sites ∧
      Assigns site target ∧ Writes target leaf ∧ leaf.node.start = 20 ∧ leaf ∈ cell.body.sites ∧
      isInModule leaf = true ∧ isDeclaredAbove cell.name leaf = false) := by
  refine ⟨?_, ?_, ?_⟩
  · have heval : ((parse? "[o.p, x] = y".toList).bind fun root =>
        assignmentFault? (nameIn "[o.p, x] = y".toList) (.ofSource "[o.p, x] = y".toList 0) root
          (freeReferences (nameIn "[o.p, x] = y".toList) root)) =
        some ⟨.assignment, "Assignment to external variable 'x'", some 6, some 1, some 6⟩ := by
      decide +kernel
    obtain ⟨root, hroot, hfault⟩ := Option.bind_eq_some_iff.mp heval
    obtain ⟨site, hsite, target, leaf, htarget, hleaf, hwrong⟩ :=
      (assignments_checked _ _ root _ []).2.1 _ hfault
    have hpos : some (6 : Int) =
        some (leaf.node.startIn (.ofSource "[o.p, x] = y".toList 0) : Int) := by
      rcases hwrong with ⟨-, hlocated⟩ | ⟨-, -, hlocated⟩
      · exact congrArg Fault.pos hlocated
      · exact congrArg Fault.pos hlocated
    refine ⟨_, root, _, rfl, hroot, hfault, rfl, rfl, site, hsite, target, leaf, htarget, hleaf, ?_⟩
    rw [Option.some_inj] at hpos
    omega
  · have heval : ((parseCell "let a; [\x7bb: a = 1\x7d] = []".toList).toOption.bind fun cell =>
        ((assignedLeaves cell.body).find? fun leaf => leaf.1.start == 12).map fun _ =>
          cell.body.sites.any isInModule) = some false := by decide +kernel
    obtain ⟨cell, hcell, heval⟩ := Option.bind_eq_some_iff.mp heval
    obtain ⟨entry, hfind, hmodule⟩ := Option.map_eq_some_iff.mp heval
    obtain ⟨site, hsite, target, leaf, htarget, hleaf, rfl⟩ :=
      mem_assignedLeaves_iff.mp (List.mem_of_find?_eq_some hfind)
    have hstart := List.find?_some hfind
    rw [beq_iff_eq] at hstart
    obtain ⟨hmem, -, hdeclared⟩ := (assignments_checked cell.name cell.offsets cell.body [] _).2.2
      cell (eq_ok_of_toOption hcell) site hsite target leaf htarget hleaf
    have hinside : isInModule leaf = false :=
      Bool.eq_false_iff.mpr (List.any_eq_false.mp hmodule leaf hmem)
    exact ⟨cell, site, target, leaf, eq_ok_of_toOption hcell, hsite, htarget, hleaf, hstart, hmem,
      hdeclared hinside⟩
  · have heval : ((parseCell "import \"m\" with \x7ba: b++\x7d".toList).toOption.bind fun cell =>
        ((assignedLeaves cell.body).find? fun leaf => leaf.1.start == 20).map fun _ =>
          cell.body.sites.all fun site => site.node.start != 20 ||
            (isInModule site && !isDeclaredAbove cell.name site)) = some true := by decide +kernel
    obtain ⟨cell, hcell, heval⟩ := Option.bind_eq_some_iff.mp heval
    obtain ⟨entry, hfind, hmodule⟩ := Option.map_eq_some_iff.mp heval
    obtain ⟨site, hsite, target, leaf, htarget, hleaf, rfl⟩ :=
      mem_assignedLeaves_iff.mp (List.mem_of_find?_eq_some hfind)
    have hstart := List.find?_some hfind
    rw [beq_iff_eq] at hstart
    obtain ⟨hmem, -, -⟩ := (assignments_checked cell.name cell.offsets cell.body [] _).2.2 cell
      (eq_ok_of_toOption hcell) site hsite target leaf htarget hleaf
    have hinside := List.all_eq_true.mp hmodule leaf hmem
    rw [hstart, bne_self_eq_false, Bool.false_or, Bool.and_eq_true, Bool.not_eq_true'] at hinside
    exact ⟨cell, site, target, leaf, eq_ok_of_toOption hcell, hsite, htarget, hleaf, hstart, hmem,
      hinside.1, hinside.2⟩

end NotebookCell.Scope
