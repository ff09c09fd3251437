import NotebookCell.Proofs.Tree.Alike
import NotebookCell.Proofs.Tree.Walk
import NotebookCell.Scope.Reference

/-!
# What decides where a name is free

An `Occurrence` is all that the search for free references sees of a site: its construct and name,
its path, and what it declares. Trees that are alike have the same occurrences, and the names of the
free references are a function of the occurrences alone.

* `map_name_freeReferences`: free references by occurrences;
* `occurrences_of_alike`: trees that are alike have the same occurrences;
* `freeNames_filter`: occurrences that neither declare nor refer can be left out.
-/

namespace NotebookCell.Scope

open NotebookCell.Tree

/-! ## What alike trees declare -/

section
variable {name name' : Node → String}

mutual

/-- The names that a pattern binds. -/
theorem map_bindings {node other : Node} (h : node.Alike name name' other) :
    (bindings node).map name = (bindings other).map name' := by
  match node, other with
  | ⟨kind, start, stop, named, missing, field, children⟩,
    ⟨kind', start', stop', named', missing', field', children'⟩ =>
    rw [Node.Alike] at h
    obtain ⟨rfl, rfl, hname, -, hchildren⟩ := h
    unfold bindings
    split
    · exact congrArg (fun found => [found]) (hname rfl)
    · exact congrArg (fun found => [found]) (hname rfl)
    · exact map_bindingsAs hchildren _
    · exact map_bindingsAs hchildren _
    · exact map_bindingsAs hchildren _
    · exact map_bindingsAll hchildren
    · exact map_bindingsAll hchildren
    · exact map_bindingsAll hchildren
    · exact map_bindingsAll hchildren
    · rfl

theorem map_bindingsAs {nodes others : List Node} (h : Node.AlikeAll name name' nodes others)
    (field : Field) :
    (bindingsAs field nodes).map name = (bindingsAs field others).map name' := by
  match nodes, others with
  | [], [] => rfl
  | node :: nodes, other :: others =>
    rw [Node.AlikeAll] at h
    obtain ⟨⟨hfield, hnode⟩, hnodes⟩ := h
    rw [bindingsAs, bindingsAs, hfield]
    split
    · exact map_bindings hnode
    · exact map_bindingsAs hnodes field

theorem map_bindingsAll {nodes others : List Node} (h : Node.AlikeAll name name' nodes others) :
    (bindingsAll nodes).map name = (bindingsAll others).map name' := by
  match nodes, others with
  | [], [] => rfl
  | node :: nodes, other :: others =>
    rw [Node.AlikeAll] at h
    obtain ⟨⟨-, hnode⟩, hnodes⟩ := h
    rw [bindingsAll, bindingsAll, hnode.named_eq, List.map_append, List.map_append,
      map_bindingsAll hnodes]
    split
    · rw [map_bindings hnode]
    · rfl

end

variable {node other : Node}

/-- The names that the pattern in a role binds. -/
theorem map_bindingsOf (h : node.Alike name name' other) (field : Field) :
    (bindingsOf node field).map name = (bindingsOf other field).map name' := by
  rw [bindingsOf, bindingsOf]
  rcases h.child? field with ⟨hnone, hnone'⟩ | ⟨child, child', hsome, hsome', hchild⟩
  · rw [hnone, hnone']
    rfl
  · rw [hsome, hsome']
    exact map_bindings hchild

/-- What lists of alike trees have in common they have in common joined together. -/
theorem flatMap_eq_of_alike {α : Type} {f g : Node → List α} {nodes others : List Node}
    (h : List.Forall₂ (Node.Alike name name') nodes others)
    (hfg : ∀ node other, node.Alike name name' other → f node = g other) :
    nodes.flatMap f = others.flatMap g := by
  induction h with
  | nil => rfl
  | cons hnode _ ih => rw [List.flatMap_cons, List.flatMap_cons, hfg _ _ hnode, ih]

/-- Alike trees of a kind, picked from lists of alike trees. -/
theorem filter_kind_of_alike {nodes others : List Node} (kind : Kind)
    (h : List.Forall₂ (Node.Alike name name') nodes others) :
    List.Forall₂ (Node.Alike name name') (nodes.filter (·.kind == kind))
      (others.filter (·.kind == kind)) := by
  refine List.rel_filter ?_ h
  intro node other hnode
  show (node.kind == kind) = true ↔ (other.kind == kind) = true
  rw [hnode.kind_eq]

theorem map_specifierLocal? (h : node.Alike name name' other) :
    (specifierLocal? node).toList.map name = (specifierLocal? other).toList.map name' := by
  have hfilter : ∀ child child' : Node, child.Alike name name' child' →
      ((some child).filter (·.kind == .identifier)).toList.map name =
        ((some child').filter (·.kind == .identifier)).toList.map name' := by
    intro child child' hchild
    rw [Option.filter_some, Option.filter_some, ← hchild.kind_eq]
    split
    · next hkind =>
      rw [beq_iff_eq] at hkind
      exact congrArg (fun found => [found]) (hchild.name_eq (by rw [hkind]; rfl))
    · rfl
  rw [specifierLocal?, specifierLocal?, h.kind_eq]
  split
  · rfl
  rcases h.child? .localName with ⟨hnone, hnone'⟩ | ⟨child, child', hsome, hsome', hchild⟩
  · rw [hnone, hnone']
    rcases h.child? .name with ⟨hnone, hnone'⟩ | ⟨child, child', hsome, hsome', hchild⟩
    · rw [hnone, hnone']
      rfl
    · rw [hsome, hsome']
      exact hfilter child child' hchild
  · rw [hsome, hsome']
    exact hfilter child child' hchild

/-- The identifiers among trees that are alike have the same names. -/
theorem map_identifiers {nodes others : List Node}
    (h : List.Forall₂ (Node.Alike name name') nodes others) :
    (nodes.filter (·.kind == .identifier)).map name =
      (others.filter (·.kind == .identifier)).map name' := by
  induction h with
  | nil => rfl
  | @cons node other nodes others hnode _ ih =>
    rw [List.filter_cons, List.filter_cons, ← hnode.kind_eq]
    split
    · next hkind =>
      rw [beq_iff_eq] at hkind
      rw [List.map_cons, List.map_cons, ih, hnode.name_eq (by rw [hkind]; rfl)]
    · exact ih

theorem map_clauseLocals (h : node.Alike name name' other) :
    (clauseLocals node).map name = (clauseLocals other).map name' := by
  rw [clauseLocals, clauseLocals, ← h.kind_eq]
  split
  · next hkind => exact congrArg (fun found => [found]) (h.name_eq (by rw [hkind]; rfl))
  · exact map_identifiers h.namedChildren
  · rw [List.filterMap_eq_flatMap_toList, List.filterMap_eq_flatMap_toList, List.map_flatMap,
      List.map_flatMap]
    exact flatMap_eq_of_alike h.namedChildren fun child child' hchild => map_specifierLocal? hchild
  · rfl

/-- The names that an import statement declares. -/
theorem map_importLocals (h : node.Alike name name' other) :
    (importLocals node).map name = (importLocals other).map name' := by
  rw [importLocals, importLocals, List.map_flatMap, List.map_flatMap]
  refine flatMap_eq_of_alike (filter_kind_of_alike .importClause h.namedChildren) ?_
  intro clause clause' hclause
  rw [List.map_flatMap, List.map_flatMap]
  exact flatMap_eq_of_alike hclause.namedChildren fun part part' hpart => map_clauseLocals hpart

/-- Declarations are by name. -/
theorem declareAll_congr {nodes others : List Node} (h : nodes.map name = others.map name')
    (scope : List Nat) : declareAll name scope nodes = declareAll name' scope others := by
  have hmap := congrArg (List.map (Local.mk scope)) h
  rw [List.map_map, List.map_map] at hmap
  exact hmap

/-- What a declarator declares for a scope. -/
theorem declaratorLocals_congr (h : node.Alike name name' other) (scope : List Nat) :
    declaratorLocals name scope node = declaratorLocals name' scope other := by
  refine flatMap_eq_of_alike (filter_kind_of_alike .variableDeclarator h.namedChildren) ?_
  exact fun child child' hchild => declareAll_congr (map_bindingsOf hchild .name) scope

/-- The scope where a declaration belongs depends on the kinds of the nodes above it. -/
theorem nearest_congr {path : List Nat} {ancestors ancestors' : List Node}
    (h : ancestors.map (·.kind) = ancestors'.map (·.kind)) (isScope : Kind → Bool) :
    (⟨node, path, ancestors⟩ : Site).nearest isScope =
      (⟨other, path, ancestors'⟩ : Site).nearest isScope := by
  rw [Site.nearest, Site.nearest]
  generalize List.drop 1 path = rest
  induction ancestors generalizing ancestors' rest with
  | nil =>
    rw [List.map_nil, eq_comm, List.map_eq_nil_iff] at h
    rw [h]
  | cons above ancestors ih =>
    cases ancestors' with
    | nil => cases h
    | cons above' ancestors' =>
      rw [List.map_cons, List.map_cons, List.cons.injEq] at h
      rw [Site.nearest.go, Site.nearest.go, h.1, ih h.2]

/-- What a function declares. Its own name counts only if it is an identifier. -/
theorem functionLocals_congr (h : node.Alike name name' other) {path : List Nat}
    {ancestors ancestors' : List Node}
    (hkind : isDefinition node.kind = true ∨ node.kind = .methodDefinition) :
    functionLocals name ⟨node, path, ancestors⟩ = functionLocals name' ⟨other, path, ancestors'⟩ := by
  rw [functionLocals, functionLocals]
  dsimp only
  rw [← h.kind_eq, declareAll_congr (map_bindingsOf h .parameters),
    declareAll_congr (map_bindingsOf h .parameter)]
  rcases hkind with hkind | hkind
  · rw [declareAll_congr (h.map_name hkind)]
  · -- a method declares no name
    rw [hkind]
    rfl

/-- Alike trees at the same place declare the same. -/
theorem locals_congr (h : node.Alike name name' other) {path : List Nat}
    {ancestors ancestors' : List Node}
    (habove : ancestors.map (·.kind) = ancestors'.map (·.kind)) :
    locals name ⟨node, path, ancestors⟩ = locals name' ⟨other, path, ancestors'⟩ := by
  have hnearest := @nearest_congr node other path ancestors ancestors' habove
  have hfunction := @functionLocals_congr name name' node other h path ancestors ancestors'
  have hname {kind : Kind} (hkind : node.kind = kind) (hdefinition : isDefinition kind = true)
      (scope : List Nat) := declareAll_congr (h.map_name (hkind ▸ hdefinition)) scope
  rw [locals, locals]
  dsimp only
  rw [← h.kind_eq, hnearest, hnearest]
  split
  · exact declaratorLocals_congr h _
  · exact declaratorLocals_congr h _
  · rcases h.child? .kind with ⟨hnone, hnone'⟩ | ⟨child, child', hsome, hsome', hchild⟩
    · rw [hnone, hnone']
    · rw [hsome, hsome']
      dsimp only
      rw [hchild.kind_eq, declareAll_congr (map_bindingsOf h .left)]
  · next hkind => rw [hname hkind rfl, hfunction (.inl (hkind ▸ rfl))]
  · next hkind => rw [hname hkind rfl, hfunction (.inl (hkind ▸ rfl))]
  · next hkind => exact hfunction (.inl (hkind ▸ rfl))
  · next hkind => exact hfunction (.inl (hkind ▸ rfl))
  · next hkind => exact hfunction (.inl (hkind ▸ rfl))
  · next hkind => exact hfunction (.inl (hkind ▸ rfl))
  · next hkind => exact hfunction (.inr hkind)
  · next hkind => exact hname hkind rfl _
  · next hkind => exact hname hkind rfl _
  · exact declareAll_congr (map_bindingsOf h .parameter) _
  · exact declareAll_congr (map_importLocals h) _
  · rfl

end

/-! ## Occurrences -/

/-- What the search for free references sees of a site. -/
structure Occurrence where
  kind : Kind
  /-- Its name, if it can refer to a variable. -/
  name : String
  path : List Nat
  /-- It stands where names belong to a module. -/
  inModule : Bool
  declared : List Local

/-- What is seen of a site. -/
def occurrence (name : Node → String) (site : Site) : Occurrence where
  kind := site.node.kind
  name := if isReferenceKind site.node.kind then name site.node else ""
  path := site.path
  inModule := site.ancestors.any fun node => namesModuleBindings node.kind
  declared := locals name site

/-- What is seen of a node at a path and of all that is below it. -/
def occurrences (name : Node → String) (node : Node) (path : List Nat) (ancestors : List Node) :
    List Occurrence :=
  (node.preorder path ancestors).map (occurrence name)

/-- Whether a path leads below a scope. -/
def isBelowScope (scope path : List Nat) : Bool :=
  scope.length < path.length && scope.isSuffixOf path

/-- Whether one of the declarations binds the name of an occurrence. -/
def Occurrence.isBound (declared : List Local) (occurrence : Occurrence) : Bool :=
  declared.any fun binding =>
    binding.name == occurrence.name && isBelowScope binding.scope occurrence.path

/-- Whether an occurrence could be a free reference, its declaration aside. -/
def Occurrence.refers (occurrence : Occurrence) : Bool :=
  isReferenceKind occurrence.kind && !occurrence.inModule && !isHostName occurrence.name

/-- The free names among occurrences, in order. -/
def freeNames (occurrences : List Occurrence) : List String :=
  let declared := occurrences.flatMap (·.declared)
  (occurrences.filter fun occurrence =>
    occurrence.refers && !occurrence.isBound declared).map (·.name)

/-- What may refer covers a name. -/
theorem isNameKind_of_isReferenceKind {kind : Kind} (h : isReferenceKind kind = true) :
    isNameKind kind = true := by
  rw [isReferenceKind, List.contains_iff_mem, List.mem_cons, List.mem_cons, List.mem_singleton] at h
  rcases h with rfl | rfl | rfl <;> rfl

/-- A site is a free reference if its occurrence is one. -/
theorem isFree_eq_occurrence (name : Node → String) (declared : List Local) (site : Site) :
    (isFree name declared site && !isHostName (name site.node)) =
      ((occurrence name site).refers && !(occurrence name site).isBound declared) := by
  by_cases hkind : isReferenceKind site.node.kind = true
  · have hname : (occurrence name site).name = name site.node := if_pos hkind
    rw [isFree, Occurrence.refers, Occurrence.isBound, hname, Bool.and_right_comm]
    rfl
  · rw [Bool.not_eq_true] at hkind
    have hsame : (occurrence name site).kind = site.node.kind := rfl
    rw [isFree, Occurrence.refers, hsame, hkind]
    rfl

/-- The names of the free references below a root. -/
theorem map_name_freeReferences (name : Node → String) (root : Node) :
    (freeReferences name root).map (fun site => name site.node) =
      freeNames (occurrences name root [] []) := by
  have hsites : root.sites = root.preorder [] [] := root.sites_eq_preorder
  have hdeclared : ((root.preorder [] []).map (occurrence name)).flatMap (·.declared) =
      (root.preorder [] []).flatMap (locals name) := by
    rw [List.flatMap_map]
    rfl
  rw [freeReferences, references, freeNames, occurrences, hsites]
  rw [hdeclared, List.filter_map, List.map_map]
  rw [List.filter_congr fun site _ => isFree_eq_occurrence name _ site]
  refine List.map_congr_left fun site hsite => ?_
  have hrefers := (List.mem_filter.mp hsite).2
  rw [Occurrence.refers, Bool.and_eq_true, Bool.and_eq_true, Bool.and_eq_true] at hrefers
  exact (if_pos hrefers.1.1.1).symm

/-- An occurrence that neither declares nor refers. -/
def Occurrence.isSilent (occurrence : Occurrence) : Bool :=
  !isReferenceKind occurrence.kind && occurrence.declared.isEmpty

/-- Silent occurrences make no difference. -/
theorem freeNames_filter (found : List Occurrence) :
    freeNames (found.filter (!·.isSilent)) = freeNames found := by
  have hdeclared : (found.filter (!·.isSilent)).flatMap (·.declared) =
      found.flatMap (·.declared) := by
    induction found with
    | nil => rfl
    | cons first found ih =>
      rw [List.filter_cons, List.flatMap_cons, ← ih]
      by_cases hsilent : first.isSilent = true
      · rw [hsilent]
        rw [Occurrence.isSilent, Bool.and_eq_true, List.isEmpty_iff] at hsilent
        rw [hsilent.2]
        rfl
      · rw [Bool.not_eq_true] at hsilent
        rw [hsilent]
        rfl
  rw [freeNames, freeNames]
  rw [hdeclared, List.filter_filter]
  congr 1
  apply List.filter_congr
  intro first _
  by_cases hkind : isReferenceKind first.kind = true
  · rw [Occurrence.isSilent, hkind]
    exact Bool.and_true _
  · rw [Bool.not_eq_true] at hkind
    rw [Occurrence.refers, hkind]
    rfl

/-! ## Occurrences of alike trees -/

section
variable {name name' : Node → String}

/-- The occurrences of trees that are alike, below constructs of the same kinds. -/
theorem occurrence_congr {node other : Node} (h : node.Alike name name' other) {path : List Nat}
    {ancestors ancestors' : List Node}
    (habove : ancestors.map (·.kind) = ancestors'.map (·.kind)) :
    occurrence name ⟨node, path, ancestors⟩ = occurrence name' ⟨other, path, ancestors'⟩ := by
  have hmodule : (ancestors.any fun node => namesModuleBindings node.kind) =
      (ancestors'.any fun node => namesModuleBindings node.kind) := by
    have hany := congrArg (fun kinds => List.any kinds namesModuleBindings) habove
    rw [List.any_map, List.any_map] at hany
    exact hany
  have hname : (if isReferenceKind node.kind then name node else "") =
      if isReferenceKind node.kind then name' other else "" := by
    split
    · next hkind => exact h.name_eq (isNameKind_of_isReferenceKind hkind)
    · rfl
  rw [occurrence, occurrence]
  dsimp only
  rw [hname, h.kind_eq, hmodule, locals_congr h habove]

mutual

/-- Alike trees at the same place have the same occurrences. -/
theorem occurrences_of_alike {node other : Node} (h : node.Alike name name' other)
    (path : List Nat) {ancestors ancestors' : List Node}
    (habove : ancestors.map (·.kind) = ancestors'.map (·.kind)) :
    occurrences name node path ancestors = occurrences name' other path ancestors' := by
  match node, other with
  | ⟨kind, start, stop, named, missing, field, children⟩,
    ⟨kind', start', stop', named', missing', field', children'⟩ =>
    rw [occurrences, occurrences, Node.preorder, Node.preorder, List.map_cons, List.map_cons,
      occurrence_congr h habove]
    congr 1
    refine map_occurrence_preorders (Node.Alike.children h) 0 path ?_
    rw [List.map_cons, List.map_cons, habove, show kind = kind' from h.kind_eq]

theorem map_occurrence_preorders {nodes others : List Node}
    (h : Node.AlikeAll name name' nodes others) (index : Nat) (path : List Nat)
    {ancestors ancestors' : List Node}
    (habove : ancestors.map (·.kind) = ancestors'.map (·.kind)) :
    (Node.preorders nodes index path ancestors).map (occurrence name) =
      (Node.preorders others index path ancestors').map (occurrence name') := by
  match nodes, others with
  | [], [] => rw [Node.preorders, Node.preorders]; rfl
  | node :: nodes, other :: others =>
    rw [Node.AlikeAll] at h
    obtain ⟨⟨-, hnode⟩, hnodes⟩ := h
    rw [Node.preorders, Node.preorders, List.map_append, List.map_append,
      map_occurrence_preorders hnodes (index + 1) path habove, hnode.named_eq]
    congr 1
    split
    · exact occurrences_of_alike hnode (index :: path) habove
    · rfl

end

end

end NotebookCell.Scope
