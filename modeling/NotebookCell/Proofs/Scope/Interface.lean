import NotebookCell.Proofs.Script.Cell
import NotebookCell.Proofs.Tree.Walk
import Mathlib.Data.List.Basic

/-!
# Inputs and outputs of a cell

The inputs of a cell come from the analysis of its scopes, its outputs from a scan of its top level.
What the scan finds is declared at the root by the analysis, whatever kind of node the root is, so
no name is on both sides.

* `firstOccurrences_eraseDups`: erasing duplicates keeps the order of first occurrence;
* `root_declares`: what the scan finds is declared at the root;
* `interface_of_accepted`: the inputs and outputs of accepted cells, and of trees of any shape.
-/

namespace NotebookCell.Scope

open NotebookCell.Tree NotebookCell.Text NotebookCell.Script

/-! ## Order of first occurrence -/

/-- `list` holds the members of `names`, in the order of their first occurrence. -/
structure FirstOccurrences (names list : List String) : Prop where
  mem_iff : ∀ name, name ∈ list ↔ name ∈ names
  ordered : list.Pairwise fun first second => names.idxOf first < names.idxOf second

/-- A list in the order of first occurrence has no name twice. -/
theorem FirstOccurrences.nodup {names list : List String} (h : FirstOccurrences names list) :
    list.Nodup :=
  h.ordered.imp fun hlt heq => by rw [heq] at hlt; exact Nat.lt_irrefl _ hlt

/-- Members that a filter keeps are found in the same order with and without it. -/
private theorem idxOf_lt_of_filter {p : String → Bool} {first second : String} (hfirst : p first)
    (hsecond : p second) (names : List String)
    (h : (names.filter p).idxOf first < (names.filter p).idxOf second) :
    names.idxOf first < names.idxOf second := by
  induction names with
  | nil => simp at h
  | cons name names ih =>
    rw [List.filter_cons] at h
    rw [List.idxOf_cons, List.idxOf_cons]
    split at h
    · rw [List.idxOf_cons, List.idxOf_cons] at h
      grind
    · next hname =>
      have hne : ∀ kept, p kept → (name == kept) = false := by
        intro kept hkept
        rw [beq_eq_false_iff_ne]
        rintro rfl
        exact hname hkept
      rw [hne first hfirst, hne second hsecond]
      have := ih h
      simp only [cond_false]
      omega

theorem firstOccurrences_eraseDups (names : List String) :
    FirstOccurrences names names.eraseDups := by
  -- erasing the later copies of the first name shortens the rest, so the length is the measure
  induction hlength : names.length using Nat.strongRecOn generalizing names with
  | ind length ih =>
    cases names with
    | nil => exact ⟨fun _ => Iff.rfl, .nil⟩
    | cons name names =>
      have hshorter : (names.filter fun other => !other == name).length < length := by
        rw [← hlength, List.length_cons]
        exact Nat.lt_succ_of_le (List.length_filter_le _ _)
      have hrest := ih _ hshorter (names.filter fun other => !other == name) rfl
      rw [List.eraseDups_cons]
      refine ⟨fun other => ?_, List.pairwise_cons.mpr ⟨fun other hother => ?_, ?_⟩⟩
      · rw [List.mem_cons, hrest.mem_iff, List.mem_filter, List.mem_cons]
        grind
      · rw [hrest.mem_iff, List.mem_filter] at hother
        grind
      · refine hrest.ordered.imp_of_mem fun {first second} hfirst hsecond hlt => ?_
        rw [hrest.mem_iff, List.mem_filter] at hfirst hsecond
        have := idxOf_lt_of_filter hfirst.2 hsecond.2 names hlt
        grind

/-! ## Declarations at the root -/

section

variable (name : Node → String)

/-- Below the root alone, the nearest scope of any kind is the root. -/
theorem nearest_of_child (child root : Node) (index : Nat) (isScope : Kind → Bool) :
    (⟨child, [index], [root]⟩ : Site).nearest isScope = [] := by
  rw [Site.nearest, List.drop_one, List.tail_cons, Site.nearest.go]
  split
  · rfl
  · rfl

/-- The analysis declares at the root what the scan finds in a child of the root. -/
theorem locals_of_child {child root node : Node} {index : Nat} (hnode : node ∈ declaredBy child) :
    ⟨[], name node⟩ ∈ locals name ⟨child, [index], [root]⟩ := by
  have hdeclarators : ∀ scope, scope = [] →
      node ∈ (child.namedChildren.filter (·.kind == .variableDeclarator)).flatMap
        (bindingsOf · .name) →
      ⟨[], name node⟩ ∈ declaratorLocals name scope child := by
    rintro scope rfl hmem
    obtain ⟨declarator, hdeclarator, hbinding⟩ := List.mem_flatMap.mp hmem
    exact List.mem_flatMap.mpr ⟨declarator, hdeclarator, List.mem_map_of_mem hbinding⟩
  have hnames : ∀ (scope : List Nat) (nodes : List Node), scope = [] → node ∈ nodes →
      ⟨[], name node⟩ ∈ declareAll name scope nodes := by
    rintro scope nodes rfl hmem
    exact List.mem_map_of_mem hmem
  unfold declaredBy at hnode
  unfold locals
  dsimp only
  split at hnode
  case h_1 hkind => rw [hkind]; exact hdeclarators _ (nearest_of_child ..) hnode
  case h_2 hkind => rw [hkind]; exact hdeclarators _ (nearest_of_child ..) hnode
  case h_3 hkind =>
    rw [hkind]
    exact List.mem_append_left _ (hnames _ _ (nearest_of_child ..) hnode)
  case h_4 hkind =>
    rw [hkind]
    exact List.mem_append_left _ (hnames _ _ (nearest_of_child ..) hnode)
  case h_5 hkind => rw [hkind]; exact hnames _ _ (nearest_of_child ..) hnode
  case h_6 hkind => rw [hkind]; exact hnames _ _ rfl hnode
  case h_7 => cases hnode

/-- What the scan of the top level finds is declared at the root. -/
theorem root_declares {root node : Node} (hnode : node ∈ root.namedChildren.flatMap declaredBy) :
    ⟨[], name node⟩ ∈ root.sites.flatMap (locals name) := by
  obtain ⟨child, hchild, hdeclared⟩ := List.mem_flatMap.mp hnode
  obtain ⟨index, hsite⟩ := Node.exists_site_of_mem_namedChildren hchild
  exact List.mem_flatMap.mpr ⟨_, hsite, locals_of_child name hdeclared⟩

/-- A declaration at the root binds its name everywhere below the root. -/
theorem isBound_of_root {declared : List Local} {bound : String} {site : Site}
    (hbound : ⟨[], bound⟩ ∈ declared) (hpath : site.path ≠ []) : isBound declared site bound := by
  rw [isBound, List.any_eq_true]
  refine ⟨_, hbound, ?_⟩
  rw [beq_self_eq_true, Bool.true_and, Site.isBelow, List.length_nil,
    List.isSuffixOf_iff_suffix.mpr (List.nil_suffix), Bool.and_true]
  exact decide_eq_true (List.length_pos_of_ne_nil hpath)

/-- Nothing that is declared at the root is free. -/
theorem not_free_of_root {root : Node} {site : Site} {bound : String}
    (hroot : isReferenceKind root.kind = false) (hsite : site ∈ freeReferences name root)
    (hbound : ⟨[], bound⟩ ∈ root.sites.flatMap (locals name)) : name site.node ≠ bound := by
  intro hname
  rw [freeReferences, references, List.mem_filter, Bool.and_eq_true, isFree] at hsite
  obtain ⟨hmem, hfree, -⟩ := hsite
  rw [Bool.and_eq_true, Bool.and_eq_true, Bool.not_eq_true'] at hfree
  obtain ⟨⟨hkind, -⟩, hunbound⟩ := hfree
  have hpath : site.path ≠ [] := by
    intro hpath
    rw [Node.eq_root_of_mem_sites hmem hpath, hroot] at hkind
    cases hkind
  rw [hname, isBound_of_root hbound hpath] at hunbound
  cases hunbound

/-- Nothing that the scan finds is free. -/
theorem not_free_of_declared {root node : Node} {site : Site}
    (hroot : isReferenceKind root.kind = false) (hsite : site ∈ freeReferences name root)
    (hnode : node ∈ root.namedChildren.flatMap declaredBy) : name site.node ≠ name node :=
  not_free_of_root name hroot hsite (root_declares name hnode)

end

/-! ## Interfaces -/

/-- What cells see of each other: `inputs` are the names that a cell refers to, `outputs` those that
it declares. -/
structure Interface (referenced declared inputs outputs : List String) : Prop where
  inputs_first : FirstOccurrences referenced inputs
  outputs_first : FirstOccurrences declared outputs
  inputs_nodup : inputs.Nodup
  outputs_nodup : outputs.Nodup
  disjoint : ∀ name ∈ inputs, name ∉ outputs
  inputs_not_host : ∀ name ∈ inputs, name ∉ hostNames
  outputs_not_reserved : ∀ name ∈ outputs, name ∉ hostNames ∧ name ≠ "arguments"

theorem interface_of_names {referenced declared : List String}
    (hhost : ∀ name ∈ referenced, name ∉ hostNames)
    (hreserved : ∀ name ∈ declared, isReserved name = false)
    (hdisjoint : ∀ name ∈ referenced, name ∉ declared) :
    Interface referenced declared referenced.eraseDups declared.eraseDups := by
  have hinputs := firstOccurrences_eraseDups referenced
  have houtputs := firstOccurrences_eraseDups declared
  refine ⟨hinputs, houtputs, hinputs.nodup, houtputs.nodup, ?_, ?_, ?_⟩
  · intro name hname
    rw [houtputs.mem_iff]
    exact hdisjoint name ((hinputs.mem_iff name).mp hname)
  · intro name hname
    exact hhost name ((hinputs.mem_iff name).mp hname)
  · intro name hname
    have hfalse := hreserved name ((houtputs.mem_iff name).mp hname)
    rw [isReserved, Bool.or_eq_false_iff, isHostName, beq_eq_false_iff_ne] at hfalse
    exact ⟨fun hmem => by simp [hmem] at hfalse, hfalse.2⟩

/-- References to names of the host are left out. -/
theorem not_host_of_mem_freeReferences {name : Node → String} {root : Node} {site : Site}
    (hsite : site ∈ freeReferences name root) : name site.node ∉ hostNames := by
  rw [freeReferences, references, List.mem_filter, Bool.and_eq_true, Bool.not_eq_true',
    isHostName] at hsite
  intro hmem
  simp [hmem] at hsite

/-- What is declared is what the scan of the top level finds, and none of it is reserved. -/
theorem declarations_eq_ok {name : Node → String} {offsets : Offsets} {root : Node}
    {declared : List Node} (h : declarations name offsets root = .ok declared) :
    declared = root.namedChildren.flatMap declaredBy ∧
      ∀ node ∈ declared, isReserved (name node) = false := by
  unfold declarations at h
  dsimp only at h
  split at h
  · cases h
  · next hnone =>
    cases h
    rw [List.find?_eq_none] at hnone
    exact ⟨rfl, fun node hnode => Bool.not_eq_true _ ▸ hnone node hnode⟩

/-- The interface of a tree whose declarations are allowed. -/
theorem interface_of_declarations {name : Node → String} {offsets : Offsets} {root : Node}
    {declared : List Node} (hroot : isReferenceKind root.kind = false)
    (h : declarations name offsets root = .ok declared) :
    Interface ((freeReferences name root).map (name ·.node)) (declared.map name)
      ((freeReferences name root).map (name ·.node)).eraseDups (declared.map name).eraseDups := by
  obtain ⟨rfl, hreserved⟩ := declarations_eq_ok h
  refine interface_of_names ?_ ?_ ?_
  · intro input hinput
    obtain ⟨site, hsite, rfl⟩ := List.mem_map.mp hinput
    exact not_host_of_mem_freeReferences hsite
  · intro output houtput
    obtain ⟨node, hnode, rfl⟩ := List.mem_map.mp houtput
    exact hreserved node hnode
  · intro input hinput houtput
    obtain ⟨site, hsite, rfl⟩ := List.mem_map.mp hinput
    obtain ⟨node, hnode, hname⟩ := List.mem_map.mp houtput
    exact not_free_of_declared name hroot hsite hnode hname.symm

/-- The interface of a cell that was read. An expression declares nothing. -/
theorem interface_of_parseCell {source : List Char} {cell : Script.Cell}
    (h : parseCell source = .ok cell) :
    Interface ((freeReferences cell.name cell.body).map (cell.name ·.node))
      ((if cell.isExpression then [] else cell.body.namedChildren.flatMap declaredBy).map cell.name)
      (inputs cell) (outputs cell) := by
  have hname : ∀ text, cell.text = text → cell.name = nameIn text := by
    rintro text rfl
    rfl
  rcases parseCell_eq_ok h with ⟨expression, -, hcell⟩ | ⟨program, -, hprogram, hcell⟩
  · have hnone := hcell.declarations_eq
    rw [if_pos rfl] at hnone
    rw [inputs, outputs, distinctNames, distinctNames, hnone, hcell.isExpression_eq,
      hcell.references_eq, hname _ hcell.text_eq, hcell.body_eq, if_pos rfl, List.map_map]
    refine interface_of_names ?_ (by simp) (by simp)
    intro input hinput
    obtain ⟨site, hsite, rfl⟩ := List.mem_map.mp hinput
    exact not_host_of_mem_freeReferences hsite
  · have hdeclared := hcell.declarations_eq
    rw [if_neg Bool.false_ne_true] at hdeclared
    have hroot : isReferenceKind program.kind = false := by
      rw [kind_of_parse? (cellProgram_eq_ok hprogram).1]
      rfl
    rw [inputs, outputs, distinctNames, distinctNames, hcell.isExpression_eq, hcell.references_eq,
      hname _ hcell.text_eq, hcell.body_eq, if_neg Bool.false_ne_true, List.map_map,
      ← (declarations_eq_ok hdeclared).1]
    exact interface_of_declarations hroot hdeclared

/-- Inputs and outputs of every accepted script are as an interface asks. So are those of every
tree, damaged or not, whose root is not a name itself and whose declarations are allowed; and
there each declared name is declared at the root, so that it is bound everywhere below. -/
theorem interface_of_accepted :
    (∀ (source : List Char) (options : Options) (function : CellFunction),
      transpileScript source options = .ok function →
      ∃ cell, parseCell source = .ok cell ∧
        Interface ((freeReferences cell.name cell.body).map (cell.name ·.node))
          ((if cell.isExpression then [] else cell.body.namedChildren.flatMap declaredBy).map
            cell.name)
          function.inputs function.outputs) ∧
    (∀ (name : Node → String) (offsets : Offsets) (root : Node) (declared : List Node),
      isReferenceKind root.kind = false → declarations name offsets root = .ok declared →
      Interface ((freeReferences name root).map (name ·.node)) (declared.map name)
        ((freeReferences name root).map (name ·.node)).eraseDups (declared.map name).eraseDups ∧
      ∀ node ∈ declared, ⟨[], name node⟩ ∈ root.sites.flatMap (locals name) ∧
        ∀ site ∈ root.sites, site.path ≠ [] →
          isBound (root.sites.flatMap (locals name)) site (name node)) := by
  constructor
  · intro source options function haccepted
    obtain ⟨cell, body, hcell, -, -, -, hinputs, houtputs⟩ := transpileScript_eq_ok haccepted
    refine ⟨cell, hcell, ?_⟩
    rw [hinputs, houtputs]
    exact interface_of_parseCell hcell
  · intro name offsets root declared hroot hdeclared
    refine ⟨interface_of_declarations hroot hdeclared, ?_⟩
    intro node hnode
    rw [(declarations_eq_ok hdeclared).1] at hnode
    have hat := root_declares name hnode
    exact ⟨hat, fun site _ hpath => isBound_of_root hat hpath⟩

/-- A program that declares in every way and uses its own names inside a function, and a damaged
tree whose root is no scope. -/
theorem interface_of_accepted_program :
    (∃ (function : CellFunction) (cell : Script.Cell),
      transpileScript ("import m from 'm'; const \x7ba, b: [c]\x7d = d; class K \x7b\x7d\n" ++
        "function f(g) \x7b return a + g + e + d \x7d").toList {} = .ok function ∧
      function.inputs = ["d", "e"] ∧ function.outputs = ["m", "a", "c", "K", "f"] ∧
      Interface ((freeReferences cell.name cell.body).map (cell.name ·.node))
        ((if cell.isExpression then [] else cell.body.namedChildren.flatMap declaredBy).map
          cell.name)
        function.inputs function.outputs) ∧
    (let x : Node := { kind := .identifier, start := 0, stop := 1 }
     let root : Node := ⟨.error, 0, 1, true, false, none,
      [⟨.functionDeclaration, 0, 1, true, false, none, [x.as .name]⟩, x]⟩
     ∃ declared, declarations (nameIn ['x']) (.ofSource ['x'] 0) root = .ok declared ∧
      declared.map (nameIn ['x']) = ["x"] ∧
      Interface ((freeReferences (nameIn ['x']) root).map (nameIn ['x'] ·.node))
        (declared.map (nameIn ['x']))
        ((freeReferences (nameIn ['x']) root).map (nameIn ['x'] ·.node)).eraseDups
        (declared.map (nameIn ['x'])).eraseDups) := by
  constructor
  · have hcomputed : (transpileScript
        ("import m from 'm'; const \x7ba, b: [c]\x7d = d; class K \x7b\x7d\n" ++
        "function f(g) \x7b return a + g + e + d \x7d").toList {}).toOption.map
          (fun function => (function.inputs, function.outputs)) =
        some (["d", "e"], ["m", "a", "c", "K", "f"]) := by decide +kernel
    obtain ⟨function, haccepted, hlists⟩ := Option.map_eq_some_iff.mp hcomputed
    have hok := eq_ok_of_toOption haccepted
    obtain ⟨cell, -, hinterface⟩ := interface_of_accepted.1 _ _ _ hok
    rw [Prod.mk.injEq] at hlists
    exact ⟨function, cell, hok, hlists.1, hlists.2, hinterface⟩
  · intro x root
    have hdeclared : declarations (nameIn ['x']) (.ofSource ['x'] 0) root = .ok [x.as .name] := rfl
    exact ⟨_, hdeclared, by decide +kernel, (interface_of_accepted.2 _ _ _ _ rfl hdeclared).1⟩

end NotebookCell.Scope
