import NotebookCell.Proofs.Scope.Ownership

/-!
# Assigning what a cell declares

A scope above a name makes it the cell's own, so that it is no reference, and assigning it is no
assignment to another cell. The names of the host are reserved all the same: they are told by the
name alone, so that a parameter called `history` cannot be assigned, although it is not the one of the
host.

* `not_isReference_of_isDeclaredAbove`: a name that is declared above is no reference;
* `assignmentFault?_of_declared`: what is declared is refused exactly if it has a name of the host.
-/

namespace NotebookCell.Scope

open NotebookCell.Tree NotebookCell.Text NotebookCell.Script

section
variable {name : Node → String} {text : List Char} {root : Node} {site target leaf : Site}

/-- What is written is reached from the root, in a damaged tree perhaps through words and signs. -/
theorem reached_of_writes (h : Writes target leaf) (htarget : Reached root target) :
    Reached root leaf := by
  induction h with
  | here => exact htarget
  | value _ hchild _ ih => exact ih (htarget.child (List.mem_of_find?_eq_some hchild))
  | left _ hchild _ ih => exact ih (htarget.child (List.mem_of_find?_eq_some hchild))
  | part _ hchild _ ih => exact ih (htarget.child (Site.mem_children_of_mem_namedChildren hchild))

/-- A name that is declared above is no reference, however the references are selected. -/
theorem not_isReference_of_isDeclaredAbove {select : Node → Bool} (hleaf : Reached root leaf)
    (hdeclared : isDeclaredAbove name leaf = true) :
    ¬ IsReference (references name root select) leaf := by
  rintro ⟨reference, hreference, hpath⟩
  obtain ⟨hsite, -, -, hundeclared, -⟩ := mem_references_iff.mp hreference
  obtain rfl := (Node.reached_of_mem_sites hsite).eq_of_path_eq hleaf hpath
  rw [hdeclared] at hundeclared
  cases hundeclared

/-- The sites with the paths of the written leaves decide whether what is written is declared. -/
theorem isDeclaredAbove_of_all (hsound : root.Sound text)
    (hall : (root.sites.all fun site =>
      !((assignedLeaves root).map Prod.snd).contains site.path || isDeclaredAbove name site) = true)
    (hsite : site ∈ root.sites) (htarget : Assigns site target) (hleaf : Writes target leaf) :
    isDeclaredAbove name leaf = true := by
  have hmem := mem_sites_of_writes hsound hleaf hsite (mem_children_of_assigns htarget)
  have hwritten : ((assignedLeaves root).map Prod.snd).contains leaf.path = true :=
    List.contains_iff_mem.mpr (List.mem_map.mpr
      ⟨_, mem_assignedLeaves_iff.mpr ⟨site, hsite, target, leaf, htarget, hleaf, rfl⟩, rfl⟩)
  have htest := List.all_eq_true.mp hall leaf hmem
  rw [hwritten, Bool.not_true, Bool.false_or] at htest
  exact htest

end

/-- Where a scope above declares every name that is assigned, none of these names is a reference, and
the assignments are refused exactly if one of the names is also one of the host; the fault says so
and never speaks of an external variable. -/
theorem assignmentFault?_of_declared (name : Node → String) (offsets : Offsets) (root : Node)
    (hdeclared : ∀ site ∈ root.sites, ∀ target leaf, Assigns site target → Writes target leaf →
      isDeclaredAbove name leaf = true) :
    (∀ site ∈ root.sites, ∀ target leaf, Assigns site target → Writes target leaf →
      ¬ IsReference (references name root fun _ => true) leaf) ∧
    (assignmentFault? name offsets root (freeReferences name root) = none ↔
      ∀ site ∈ root.sites, ∀ target leaf, Assigns site target → Writes target leaf →
        isHostName (name leaf.node) = false) ∧
    ∀ fault, assignmentFault? name offsets root (freeReferences name root) = some fault →
      ∃ site ∈ root.sites, ∃ target leaf, Assigns site target ∧ Writes target leaf ∧
        isHostName (name leaf.node) = true ∧
        fault = .located .assignment ("Assignment to global '" ++ name leaf.node ++ "'")
          offsets.source (leaf.node.startIn offsets) := by
  have hown (select : Node → Bool) : ∀ site ∈ root.sites, ∀ target leaf, Assigns site target →
      Writes target leaf → ¬ IsReference (references name root select) leaf := by
    intro site hsite target leaf htarget hleaf
    have hreached : Reached root leaf := reached_of_writes hleaf
      ((Node.reached_of_mem_sites hsite).child (mem_children_of_assigns htarget))
    exact not_isReference_of_isDeclaredAbove hreached
      (hdeclared site hsite target leaf htarget hleaf)
  refine ⟨hown _, ?_, ?_⟩
  · rw [assignmentFault?_eq_none_iff]
    constructor
    · intro h site hsite target leaf htarget hleaf
      have hlocal := h site hsite target leaf htarget hleaf
      rw [Foreign, not_or] at hlocal
      exact Bool.eq_false_iff.mpr hlocal.2
    · intro h site hsite target leaf htarget hleaf
      rw [Foreign, not_or]
      exact ⟨hown _ site hsite target leaf htarget hleaf,
        Bool.eq_false_iff.mp (h site hsite target leaf htarget hleaf)⟩
  · intro fault hfault
    obtain ⟨before, site, behind, target, leaf, cause, hsites, htarget, hleaf, hcause, rfl, -⟩ :=
      first_of_assignmentFault? hfault
    have hsite : site ∈ root.sites := by
      rw [hsites]
      exact List.mem_append_cons_self
    cases hcause with
    | external hreference => exact absurd hreference (hown _ site hsite target leaf htarget hleaf)
    | global _ hhost => exact ⟨site, hsite, target, leaf, htarget, hleaf, hhost, rfl⟩

/-- Parameters that are assigned through a pattern, once with names of their own and once with a name
of the host. -/
theorem assignmentFault?_of_declared_parameters :
    (∃ (text : List Char) (root : Node), text = "(x, [y]) => [x, {a: y}] = y".toList ∧
      parse? text = some root ∧ (assignedLeaves root).length = 2 ∧
      assignmentFault? (nameIn text) (.ofSource text 0) root (freeReferences (nameIn text) root) =
        none) ∧
    ∃ (text : List Char) (root : Node) (site target leaf : Site),
      text = "(history) => history = []".toList ∧ parse? text = some root ∧ site ∈ root.sites ∧
      Assigns site target ∧ Writes target leaf ∧ isDeclaredAbove (nameIn text) leaf = true ∧
      assignmentFault? (nameIn text) (.ofSource text 0) root (freeReferences (nameIn text) root) =
        some (.located .assignment ("Assignment to global '" ++ nameIn text leaf.node ++ "'") text
          (leaf.node.startIn (.ofSource text 0))) := by
  constructor
  · have heval : ((parse? "(x, [y]) => [x, {a: y}] = y".toList).map fun root =>
        (root.sites.all fun site => !((assignedLeaves root).map Prod.snd).contains site.path ||
          isDeclaredAbove (nameIn "(x, [y]) => [x, {a: y}] = y".toList) site) &&
        (assignedLeaves root).length == 2 && (assignedLeaves root).all fun leaf =>
          !isHostName (nameIn "(x, [y]) => [x, {a: y}] = y".toList leaf.1)) = some true := by
      decide +kernel
    obtain ⟨root, hroot, hall⟩ := Option.map_eq_some_iff.mp heval
    simp only [Bool.and_eq_true, beq_iff_eq] at hall
    obtain ⟨⟨hall, hlength⟩, hhost⟩ := hall
    refine ⟨_, root, rfl, hroot, hlength, ?_⟩
    refine (assignmentFault?_of_declared _ _ root fun site hsite target leaf htarget hleaf =>
      isDeclaredAbove_of_all (sound_of_parse? hroot) hall hsite htarget hleaf).2.1.mpr ?_
    intro site hsite target leaf htarget hleaf
    have hentry := mem_assignedLeaves_iff.mpr ⟨site, hsite, target, leaf, htarget, hleaf, rfl⟩
    have htest := List.all_eq_true.mp hhost _ hentry
    rwa [Bool.not_eq_true'] at htest
  · have heval : ((parse? "(history) => history = []".toList).map fun root =>
        (root.sites.all fun site => !((assignedLeaves root).map Prod.snd).contains site.path ||
          isDeclaredAbove (nameIn "(history) => history = []".toList) site) &&
        (assignmentFault? (nameIn "(history) => history = []".toList)
          (.ofSource "(history) => history = []".toList 0) root
          (freeReferences (nameIn "(history) => history = []".toList) root)).isSome) =
          some true := by
      decide +kernel
    obtain ⟨root, hroot, hall⟩ := Option.map_eq_some_iff.mp heval
    rw [Bool.and_eq_true] at hall
    obtain ⟨hall, hsome⟩ := hall
    obtain ⟨fault, hfault⟩ := Option.isSome_iff_exists.mp hsome
    have hdeclared : ∀ site ∈ root.sites, ∀ target leaf, Assigns site target → Writes target leaf →
        isDeclaredAbove (nameIn "(history) => history = []".toList) leaf = true :=
      fun site hsite target leaf htarget hleaf =>
        isDeclaredAbove_of_all (sound_of_parse? hroot) hall hsite htarget hleaf
    obtain ⟨site, hsite, target, leaf, htarget, hleaf, -, rfl⟩ :=
      (assignmentFault?_of_declared _ _ root hdeclared).2.2 fault hfault
    exact ⟨_, root, site, target, leaf, rfl, hroot, hsite, htarget, hleaf,
      hdeclared site hsite target leaf htarget hleaf, hfault⟩

end NotebookCell.Scope
