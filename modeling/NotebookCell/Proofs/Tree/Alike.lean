import Mathlib.Data.List.Forall2
import NotebookCell.Tree.Node

/-!
# Trees that look alike

The same text read at two places gives two trees that differ in nothing but their offsets.
`Node.Alike` relates such trees: they have the same constructs in the same roles, and the nodes that
cover names have the same names. How names are looked up is a parameter of each side, since the trees
are spans of different texts. Only what covers a name is compared by its text. The name of a function
or class counts as well, so it has to be an identifier on both sides.

The role of the root itself does not matter; it belongs to what is around the tree.
-/

namespace NotebookCell.Tree

/-- The kinds of nodes that cover a name. -/
def isNameKind : Kind → Bool
  | .identifier | .propertyIdentifier | .shorthandPropertyIdentifier
  | .shorthandPropertyIdentifierPattern => true
  | _ => false

/-- The kinds of functions and classes, methods aside. -/
def isDefinition : Kind → Bool
  | .functionExpression | .functionWord | .generatorFunction | .arrowFunction | .classExpression
  | .functionDeclaration | .generatorFunctionDeclaration | .classDeclaration => true
  | _ => false

/-- A node that names something only if it is an identifier. -/
def NamesByIdentifier (node : Node) : Prop :=
  node.field = some .name → node.kind = .identifier

mutual

/-- Whether two trees have the same constructs with the same names, and the same roles below the
root. What names a function or class is an identifier. -/
def Node.Alike (name name' : Node → String) (node other : Node) : Prop :=
  match node with
  | ⟨kind, start, stop, named, missing, field, children⟩ =>
    kind = other.kind ∧ named = other.named ∧
      (isNameKind kind = true →
        name ⟨kind, start, stop, named, missing, field, children⟩ = name' other) ∧
      (isDefinition kind = true → ∀ child ∈ children, NamesByIdentifier child) ∧
      AlikeAll name name' children other.children

/-- Whether the trees of two lists are alike and play the same roles, one by one. -/
def Node.AlikeAll (name name' : Node → String) (nodes others : List Node) : Prop :=
  match nodes, others with
  | [], [] => True
  | node :: nodes, other :: others =>
    (node.field = other.field ∧ Node.Alike name name' node other) ∧
      AlikeAll name name' nodes others
  | _, _ => False

end

section
variable {name name' : Node → String}

/-- Lists of trees are alike if the trees are, one by one and in the same roles. -/
theorem Node.alikeAll_iff {nodes others : List Node} :
    Node.AlikeAll name name' nodes others ↔
      List.Forall₂ (fun node other => node.field = other.field ∧ node.Alike name name' other)
        nodes others := by
  induction nodes generalizing others with
  | nil => cases others <;> simp [Node.AlikeAll]
  | cons node nodes ih => cases others <;> simp [Node.AlikeAll, ih]

/-- What trees that are alike have in common. -/
theorem Node.alike_iff {node other : Node} :
    node.Alike name name' other ↔ node.kind = other.kind ∧ node.named = other.named ∧
      (isNameKind node.kind = true → name node = name' other) ∧
      (isDefinition node.kind = true → ∀ child ∈ node.children, NamesByIdentifier child) ∧
      Node.AlikeAll name name' node.children other.children := by
  obtain ⟨kind, start, stop, named, missing, field, children⟩ := node
  rw [Node.Alike]

/-- Nodes with one name that are no functions or classes. -/
theorem Node.alike_of_name {node other : Node} (hkind : node.kind = other.kind)
    (hnamed : node.named = other.named) (hdefinition : isDefinition node.kind = false)
    (hname : name node = name' other)
    (hchildren : Node.AlikeAll name name' node.children other.children) :
    node.Alike name name' other := by
  refine Node.alike_iff.mpr ⟨hkind, hnamed, fun _ => hname, fun h => ?_, hchildren⟩
  rw [hdefinition] at h
  cases h

namespace Node.Alike

variable {node other : Node}

theorem kind_eq (h : node.Alike name name' other) : node.kind = other.kind :=
  (Node.alike_iff.mp h).1

theorem named_eq (h : node.Alike name name' other) : node.named = other.named :=
  (Node.alike_iff.mp h).2.1

theorem name_eq (h : node.Alike name name' other) (hkind : isNameKind node.kind = true) :
    name node = name' other :=
  (Node.alike_iff.mp h).2.2.1 hkind

theorem children (h : node.Alike name name' other) :
    Node.AlikeAll name name' node.children other.children :=
  (Node.alike_iff.mp h).2.2.2.2

/-- The children in a role are alike, or there is none on either side. -/
theorem child? (h : node.Alike name name' other) (field : Field) :
    (node.child? field = none ∧ other.child? field = none) ∨
      ∃ child child', node.child? field = some child ∧ other.child? field = some child' ∧
        child.Alike name name' child' := by
  have hchildren := Node.alikeAll_iff.mp h.children
  unfold Node.child?
  generalize node.children = nodes at hchildren ⊢
  generalize other.children = others at hchildren ⊢
  induction hchildren with
  | nil => exact .inl ⟨rfl, rfl⟩
  | @cons child child' _ _ hchild _ ih =>
    rw [List.find?_cons, List.find?_cons, hchild.1]
    split
    · exact .inr ⟨child, child', rfl, rfl, hchild.2⟩
    · exact ih

/-- Functions and classes that are alike have the same name of their own, or none. -/
theorem map_name (h : node.Alike name name' other) (hkind : isDefinition node.kind = true) :
    (node.child? .name).toList.map name = (other.child? .name).toList.map name' := by
  rcases h.child? .name with ⟨hnone, hnone'⟩ | ⟨child, child', hsome, hsome', hchild⟩
  · rw [hnone, hnone']
    rfl
  · have hrole : child.field = some .name := by simpa using List.find?_some hsome
    have hidentifier : child.kind = .identifier :=
      (Node.alike_iff.mp h).2.2.2.1 hkind child (List.mem_of_find?_eq_some hsome) hrole
    rw [hsome, hsome']
    exact congrArg (fun found => [found]) (hchild.name_eq (by rw [hidentifier]; rfl))

/-- The constructs among the children are alike. -/
theorem namedChildren (h : node.Alike name name' other) :
    List.Forall₂ (Node.Alike name name') node.namedChildren other.namedChildren := by
  have hchildren := Node.alikeAll_iff.mp h.children
  unfold Node.namedChildren
  refine List.rel_filter ?_ (hchildren.imp fun _ _ hchild => hchild.2)
  intro child child' hchild
  exact (Bool.eq_iff_iff.mp hchild.named_eq)

end Node.Alike

end

end NotebookCell.Tree
