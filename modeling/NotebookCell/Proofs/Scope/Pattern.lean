import Mathlib.Data.List.Basic
import NotebookCell.Scope.Assignment

/-!
# Patterns that are declared and assigned

`bindings` reads a pattern as a declaration and `leaves` as the target of an assignment. They are two
recursions over the same syntax, and an assignment is also made to literals that are patterns in
effect. On patterns proper (`isPattern`) both find the same names in the same order, however patterns
are nested; only `undefined` can be assigned and not declared (`writtenNames_leaves`). So what a tree
assigns is what its targets would declare.
-/

namespace NotebookCell.Scope

open NotebookCell.Tree

/-! ## Patterns -/

mutual

/-- Whether the node is a pattern, down to its names. Literals in the place of a pattern are none, and
neither are parameters; any other node may take the place of a name. Keys and default values do not
matter. -/
def isPattern (node : Node) : Bool :=
  match node with
  | ⟨kind, _, _, _, _, _, children⟩ =>
    match kind with
    | .shorthandPropertyIdentifier | .pair | .object | .array | .spreadElement
    | .parenthesizedExpression | .formalParameters => false
    | .pairPattern => isPatternAs .value children
    | .assignmentPattern | .objectAssignmentPattern => isPatternAs .left children
    | .objectPattern | .arrayPattern | .restPattern => arePatterns children
    | _ => true

/-- Whether the first of the nodes in a given role is a pattern. -/
def isPatternAs (field : Field) (nodes : List Node) : Bool :=
  match nodes with
  | [] => true
  | node :: nodes => if node.field == some field then isPattern node else isPatternAs field nodes

/-- Whether all named ones of the nodes are patterns. -/
def arePatterns (nodes : List Node) : Bool :=
  match nodes with
  | [] => true
  | node :: nodes => (!node.named || isPattern node) && arePatterns nodes

end

/-! ## Both readings -/

/-- The nodes that are written to, without `undefined`. -/
def writtenNames (entries : List (Node × List Nat)) : List Node :=
  (entries.map Prod.fst).filter (·.kind != .undefinedWord)

theorem writtenNames_append (entries others : List (Node × List Nat)) :
    writtenNames (entries ++ others) = writtenNames entries ++ writtenNames others := by
  rw [writtenNames, List.map_append, List.filter_append]
  rfl

mutual

theorem writtenNames_leaves (node : Node) (path : List Nat) (h : isPattern node = true) :
    writtenNames (leaves node path) = bindings node := by
  match node with
  | ⟨kind, start, stop, named, missing, field, children⟩ =>
    rw [isPattern.eq_def] at h
    rw [leaves.eq_def, bindings.eq_def]
    dsimp only at h ⊢
    split at h
    case h_1 | h_2 | h_3 | h_4 | h_5 | h_6 | h_7 => cases h
    case h_8 | h_9 | h_10 => exact writtenNames_leavesAs _ children 0 path h
    case h_11 | h_12 | h_13 => exact writtenNames_leavesAll children 0 path h
    -- what is left is a name, or neither reading looks into it
    · split <;> first | rfl | contradiction | (split <;> first | rfl | contradiction)

theorem writtenNames_leavesAs (field : Field) (nodes : List Node) (index : Nat) (path : List Nat)
    (h : isPatternAs field nodes = true) :
    writtenNames (leavesAs field nodes index path) = bindingsAs field nodes := by
  match nodes with
  | [] => rfl
  | node :: nodes =>
    rw [isPatternAs] at h
    rw [leavesAs, bindingsAs]
    split at h
    · next hfield =>
      rw [if_pos hfield, if_pos hfield]
      exact writtenNames_leaves node _ h
    · next hfield =>
      rw [if_neg hfield, if_neg hfield]
      exact writtenNames_leavesAs field nodes _ path h

theorem writtenNames_leavesAll (nodes : List Node) (index : Nat) (path : List Nat)
    (h : arePatterns nodes = true) :
    writtenNames (leavesAll nodes index path) = bindingsAll nodes := by
  match nodes with
  | [] => rfl
  | node :: nodes =>
    rw [arePatterns, Bool.and_eq_true, Bool.or_eq_true] at h
    rw [leavesAll, bindingsAll, writtenNames_append, writtenNames_leavesAll nodes _ path h.2]
    by_cases hnamed : node.named = true
    · rw [if_pos hnamed, if_pos hnamed, writtenNames_leaves node _ (by simpa [hnamed] using h.1)]
    · rw [if_neg hnamed, if_neg hnamed]
      rfl

end

/-- Declaring and assigning read patterns alike: as the target of an assignment, any pattern writes to
the nodes that it would declare, in the same order, `undefined` apart. Where all assignments of a tree
are to patterns, what they write to is what their targets would declare. -/
theorem assigned_eq_declared (pattern root : Node) (path : List Nat) :
    (isPattern pattern = true →
        ((leaves pattern path).map Prod.fst).filter (·.kind != .undefinedWord) = bindings pattern) ∧
      ((∀ site ∈ root.sites, ∀ target ∈ target? site, isPattern target.node = true) →
        ((assignedLeaves root).map Prod.fst).filter (·.kind != .undefinedWord) =
          (root.sites.filterMap target?).flatMap fun target => bindings target.node) := by
  refine ⟨writtenNames_leaves pattern path, ?_⟩
  intro h
  rw [assignedLeaves, List.map_flatMap, List.filter_flatMap]
  refine List.flatMap_congr fun target htarget => ?_
  obtain ⟨site, hsite, hfound⟩ := List.mem_filterMap.mp htarget
  exact writtenNames_leaves target.node target.path (h site hsite target hfound)

/-- An object pattern with a name, and with an array pattern under a key: a name with a default value,
and `undefined` as the rest. The name with the default value is a target of its own. -/
theorem assigned_eq_declared_nested :
    let leaf (kind : Kind) (start : Nat) (field : Option Field) : Node :=
      { kind, start, stop := start + 1, field }
    let value : Node :=
      { kind := .arrayPattern, start := 5, stop := 12, field := some .value, children := [
        { kind := .assignmentPattern, start := 6, stop := 9, children := [
          leaf .identifier 6 (some .left), leaf .identifier 8 none] },
        { kind := .restPattern, start := 9, stop := 11, children := [leaf .undefinedWord 10 none] }] }
    let pattern : Node :=
      { kind := .objectPattern, start := 0, stop := 13, field := some .left, children := [
        leaf .shorthandPropertyIdentifierPattern 1 none,
        { kind := .pairPattern, start := 3, stop := 12, children := [
          leaf .propertyIdentifier 3 none, value] }] }
    let root : Node :=
      { kind := .assignmentExpression, start := 0, stop := 15, children := [
        pattern, leaf .identifier 14 none] }
    isPattern pattern = true ∧
      (∀ site ∈ root.sites, ∀ target ∈ target? site, isPattern target.node = true) ∧
      ((leaves pattern [0]).map Prod.fst).filter (·.kind != .undefinedWord) = bindings pattern ∧
      (((assignedLeaves root).map Prod.fst).filter (·.kind != .undefinedWord) =
        (root.sites.filterMap target?).flatMap fun target => bindings target.node) ∧
      (bindings pattern).map (·.start) = [1, 6] ∧
      (assignedLeaves root).map (·.1.start) = [1, 6, 10, 6] := by
  intro leaf value pattern root
  have hpattern : isPattern pattern = true := by decide
  have hpatterns : ∀ site ∈ root.sites, ∀ target ∈ target? site, isPattern target.node = true := by
    decide
  obtain ⟨hleaves, hassigned⟩ := assigned_eq_declared pattern root [0]
  exact ⟨hpattern, hpatterns, hleaves hpattern, hassigned hpatterns, by decide, by decide⟩

end NotebookCell.Scope
