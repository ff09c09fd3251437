import NotebookCell.Proofs.Tree.Order
import NotebookCell.Tree.Defect

/-!
# The first defect

The defect that a fault is about is found by going down into the first child with a defect, without
turning back. Here this is a search through all nodes in the order of the text, the signs and words
between the constructs included (`Node.firstDefect?_eq_find?`), and the fault is about what it finds.
-/

namespace NotebookCell.Tree

open NotebookCell.Text

namespace Node

/-- Whether the node itself is an error or missing. -/
def isDefect (node : Node) : Bool := node.kind == .error || node.missing

mutual

/-- A node and everything below it, each node before its children. -/
def parts (node : Node) : List Node :=
  match node with
  | ⟨kind, start, stop, named, missing, field, children⟩ =>
    ⟨kind, start, stop, named, missing, field, children⟩ :: partsIn children

/-- Several trees, one after the other. -/
def partsIn (nodes : List Node) : List Node :=
  match nodes with
  | [] => []
  | node :: nodes => parts node ++ partsIn nodes

end

/-! ## The search -/

mutual

theorem isDefective_eq_any (node : Node) : node.isDefective = node.parts.any isDefect := by
  match node with
  | ⟨kind, start, stop, named, missing, field, children⟩ =>
    rw [isDefective, parts, List.any_cons, anyDefective_eq_any children]
    rfl

theorem anyDefective_eq_any (nodes : List Node) :
    anyDefective nodes = (partsIn nodes).any isDefect := by
  match nodes with
  | [] => rfl
  | node :: nodes =>
    rw [anyDefective, partsIn, List.any_append, isDefective_eq_any node, anyDefective_eq_any nodes]

end

mutual

/-- Going down from a defective tree finds its first defect of all. -/
theorem find?_eq_descend {node : Node} (h : node.isDefective = true) :
    node.parts.find? isDefect = some node.descend := by
  match node with
  | ⟨kind, start, stop, named, missing, field, children⟩ =>
    rw [isDefective, Bool.or_eq_true] at h
    rw [descend, parts, List.find?_cons, isDefect]
    dsimp only
    cases hself : kind == .error || missing with
    | true => rfl
    | false =>
      rw [hself] at h
      -- the tree is defective and its root is no defect, so some child has one
      have hchildren : anyDefective children = true := h.resolve_left Bool.false_ne_true
      have hfind := firstDefectIn?_eq_find? children
      rw [anyDefective_eq_any, ← List.isSome_find?, ← hfind] at hchildren
      obtain ⟨found, hfound⟩ := Option.isSome_iff_exists.mp hchildren
      rw [← hfind, hfound]
      rfl

theorem firstDefectIn?_eq_find? (nodes : List Node) :
    firstDefectIn? nodes = (partsIn nodes).find? isDefect := by
  match nodes with
  | [] => rfl
  | node :: nodes =>
    rw [firstDefectIn?, partsIn, List.find?_append, firstDefectIn?_eq_find? nodes]
    -- a tree with a defect somewhere yields one, so there is no need to turn back
    by_cases h : node.isDefective = true
    · rw [if_pos h, find?_eq_descend h, Option.some_or]
    · have hnone : node.parts.find? isDefect = none := by
        rw [isDefective_eq_any] at h
        exact List.find?_eq_none.mpr (by simpa using h)
      rw [if_neg h, hnone, Option.none_or]

end

/-- Going down into the first defective child finds the first defect of all. -/
theorem firstDefect?_eq_find? (node : Node) : node.firstDefect? = node.parts.find? isDefect := by
  obtain ⟨kind, start, stop, named, missing, field, children⟩ := node
  rw [firstDefect?, parts, List.find?_cons, firstDefectIn?_eq_find?, isDefect]
  dsimp only
  cases kind == .error || missing <;> rfl

/-- What is reached from a tree is a defect exactly if the tree is defective. -/
theorem isDefect_descend (node : Node) : node.descend.isDefect = node.isDefective := by
  cases h : node.isDefective with
  | true => exact List.find?_some (find?_eq_descend h)
  | false =>
    obtain ⟨kind, start, stop, named, missing, field, children⟩ := node
    rw [isDefective, Bool.or_eq_false_iff, anyDefective_eq_any, List.any_eq_false] at h
    rw [descend, if_neg (Bool.eq_false_iff.mp h.1), firstDefectIn?_eq_find?,
      List.find?_eq_none.mpr h.2]
    exact h.1

theorem firstDefect?_eq_none_iff {node : Node} :
    node.firstDefect? = none ↔ node.isDefective = false := by
  rw [firstDefect?_eq_find?, isDefective_eq_any, List.find?_eq_none, List.any_eq_false]

/-! ## The fault -/

theorem not_expected_of_head {message : String} (h : message.toList.head? = some 'U') :
    ¬∃ wording, message = "Expected " ++ wording := by
  rintro ⟨wording, rfl⟩
  rw [String.toList_append] at h
  simp at h

/-- Something is said to be expected exactly if it is missing. -/
theorem exists_message_fault_iff (root : Node) (offsets : Offsets) :
    (∃ wording, (root.fault offsets).message = "Expected " ++ wording) ↔
      (root.firstDefect?.getD root).missing = true := by
  rw [fault]
  generalize root.firstDefect?.getD root = node
  generalize (if (node.firstLeaf.textIn offsets).isEmpty then node.textIn offsets
    else node.firstLeaf.textIn offsets) = fragment
  rw [Cause.fault, Fault.located]
  dsimp only
  by_cases hmissing : node.missing = true
  · rw [if_pos hmissing]
    exact iff_of_true ⟨"'" ++ node.kind.name ++ "'", rfl⟩ hmissing
  · rw [if_neg hmissing]
    refine iff_of_false (not_expected_of_head ?_) hmissing
    split
    · rfl
    · show ("Unexpected token '" ++ String.ofList fragment ++ "'").toList.head? = some 'U'
      simp

/-- The search finds nothing exactly if the tree has no defect, and otherwise the first error or missing
node of all: going down from a defective tree never ends at a node that is no defect. The fault is located where that node starts, inside of the source, and says that something
is expected exactly if the node is missing. -/
theorem fault_firstDefect? (root : Node) (source : List Char) (shift : Int) :
    (root.firstDefect? = none ↔ root.isDefective = false) ∧
      root.firstDefect? = root.parts.find? isDefect ∧
      (∀ node : Node, node.descend.isDefect = node.isDefective) ∧
      (∃ pos : Nat, (root.fault (.ofSource source shift)).pos = some (pos : Int) ∧
        pos = (root.firstDefect?.getD root).startIn (.ofSource source shift) ∧
        pos ≤ source.length) ∧
      ((∃ wording, (root.fault (.ofSource source shift)).message = "Expected " ++ wording) ↔
        (root.firstDefect?.getD root).missing = true) :=
  ⟨firstDefect?_eq_none_iff, root.firstDefect?_eq_find?, isDefect_descend,
    ⟨_, rfl, rfl, Offsets.char_le source shift _⟩, root.exists_message_fault_iff _⟩

end Node

end NotebookCell.Tree
