import Mathlib.Data.List.TakeWhile
import NotebookCell.Proofs.Script.Literal

/-!
# What the trees of a text look like

Every node that the grammar makes spans whole characters of its text, and it is named unless it stands
for a word or sign of a construct. Some kinds of nodes promise more: a name stands where an identifier
is, `yield` where a cell yields, and an import statement has its clause, its names and its module in
fixed places. `Node.Sound` says this of a node and of everything below it.

* `Node.moved`: the same tree in a text that starts further on;
* `Proper`, `Node.Sound`: the promise of one node and of a tree;
* `Sound.asPattern?`: a pattern made out of an expression keeps the promise.
-/

namespace NotebookCell.Tree.Node

/-! ## The same tree further on -/

mutual

/-- The node with all offsets moved on by `offset`. -/
def moved (offset : Nat) (node : Node) : Node :=
  match node with
  | ⟨kind, start, stop, named, missing, field, children⟩ =>
    ⟨kind, offset + start, offset + stop, named, missing, field, movedAll offset children⟩

/-- All nodes moved on by `offset`. -/
def movedAll (offset : Nat) (nodes : List Node) : List Node :=
  match nodes with
  | [] => []
  | node :: nodes => moved offset node :: movedAll offset nodes

end

section
variable (offset : Nat) (node : Node)

theorem movedAll_eq_map (nodes : List Node) : movedAll offset nodes = nodes.map (moved offset) := by
  induction nodes with
  | nil => rfl
  | cons node nodes ih => rw [movedAll, ih, List.map_cons]

/-- Moving a tree changes its offsets and those of its children. -/
theorem moved_eq : node.moved offset =
    { node with start := offset + node.start, stop := offset + node.stop
                children := node.children.map (moved offset) } := by
  cases node
  rw [moved, movedAll_eq_map]

@[simp] theorem kind_moved : (node.moved offset).kind = node.kind := by rw [moved_eq]

@[simp] theorem start_moved : (node.moved offset).start = offset + node.start := by rw [moved_eq]

@[simp] theorem stop_moved : (node.moved offset).stop = offset + node.stop := by rw [moved_eq]

@[simp] theorem named_moved : (node.moved offset).named = node.named := by rw [moved_eq]

@[simp] theorem field_moved : (node.moved offset).field = node.field := by rw [moved_eq]

@[simp] theorem children_moved :
    (node.moved offset).children = node.children.map (moved offset) := by rw [moved_eq]

@[simp] theorem isRemark_moved : (node.moved offset).isRemark = node.isRemark := by
  rw [isRemark, isRemark, kind_moved]

theorem as_moved (field : Field) : (node.as field).moved offset = (node.moved offset).as field := by
  cases node
  rfl

theorem child?_moved (field : Field) :
    (node.moved offset).child? field = (node.child? field).map (moved offset) := by
  rw [child?, child?, children_moved, List.find?_map]
  congr 2
  funext child
  exact congrArg (· == some field) (field_moved offset child)

end

end NotebookCell.Tree.Node

namespace NotebookCell.Script

open NotebookCell.Tree

/-! ## Lexemes -/

/-- A byte offset at which a character of the text starts, or its end. -/
def Mark (text : List Char) (pos : Nat) : Prop :=
  ∃ before behind, text = before ++ behind ∧ byteLength before = pos

/-- A node covers a part of the text that has a given form; the form may depend on what is behind. -/
def Lexeme (form : List Char → List Char → Prop) (text : List Char) (node : Node) : Prop :=
  ∃ before lexeme behind, text = before ++ (lexeme ++ behind) ∧ byteLength before = node.start ∧
    byteLength before + byteLength lexeme = node.stop ∧ form lexeme behind

/-- A character of a name, of a Unicode escape in a name, or of a hyphenated name. -/
def isNameText (c : Char) : Bool :=
  !isBlank c && c != '(' && c != ')'

/-- A node that covers a name. -/
def NameAt (text : List Char) (node : Node) : Prop :=
  Lexeme (fun lexeme _ => lexeme ≠ [] ∧ ∀ c ∈ lexeme, isNameText c = true) text node

/-- A node that covers a whole word. -/
def WordAt (text : List Char) (node : Node) : Prop :=
  Lexeme (fun lexeme behind => lexeme ≠ [] ∧ wordLength (lexeme ++ behind) = lexeme.length) text node

/-- A node that covers a string. -/
def StringAt (text : List Char) (node : Node) : Prop :=
  Lexeme (fun lexeme behind => ∃ pos string stop,
    Parser.string ⟨lexeme ++ behind, pos⟩ = some (string, ⟨behind, stop⟩)) text node

/-- A node in front of which a given text begins. -/
def BeginsAt (word : String) (text : List Char) (node : Node) : Prop :=
  ∃ before behind, text = before ++ (word.toList ++ behind) ∧ byteLength before = node.start

/-! ## Imports -/

/-- A comment between other parts of a construct. -/
def IsGap (node : Node) : Prop :=
  node.isRemark = true ∧ node.field = none

/-- A name that an import introduces. -/
def IsLocalName (text : List Char) (node : Node) : Prop :=
  node.kind = .identifier ∧ node.named = true ∧ WordAt text node

/-- A name under which a module exports something: a word, a string or the word `default`. -/
def IsExportedName (text : List Char) (node : Node) : Prop :=
  (node.kind = .identifier ∧ WordAt text node) ∨ (node.kind = .string ∧ StringAt text node) ∨
    (node.kind = .token "default" ∧ Lexeme (fun lexeme _ => lexeme = "default".toList) text node)

/-- An import specifier: an exported name, and the local name if it is another. -/
def IsSpecifier (text : List Char) (node : Node) : Prop :=
  node.kind = .importSpecifier ∧ node.named = true ∧ node.field = none ∧
    ∃ imported rest, node.children = imported :: rest ∧ imported.field = some .name ∧
      IsExportedName text imported ∧
      ((rest = [] ∧ imported.kind = .identifier) ∨
        ∃ gap id, rest = gap ++ [id] ∧ (∀ remark ∈ gap, IsGap remark) ∧
          id.field = some .localName ∧ IsLocalName text id)

/-- All of a module under one name, or some of its names in braces. -/
def IsImportedNames (text : List Char) (node : Node) : Prop :=
  node.named = true ∧ node.field = none ∧
    ((node.kind = .namespaceImport ∧ ∃ gap id, node.children = gap ++ [id] ∧
        (∀ remark ∈ gap, IsGap remark) ∧ id.field = none ∧ IsLocalName text id) ∨
      (node.kind = .namedImports ∧
        ∀ child ∈ node.children, IsGap child ∨ IsSpecifier text child))

/-- An import clause: a default name, other names, or both. -/
def IsImportClause (text : List Char) (node : Node) : Prop :=
  node.kind = .importClause ∧ node.named = true ∧ node.field = none ∧
    ((∃ names, node.children = [names] ∧ IsImportedNames text names) ∨
      (∃ id, node.children = [id] ∧ id.field = none ∧ IsLocalName text id) ∨
      ∃ id gap names, node.children = [id] ++ gap ++ [names] ∧ id.field = none ∧
        IsLocalName text id ∧ (∀ remark ∈ gap, IsGap remark) ∧ IsImportedNames text names)

/-- The parts of an import statement: its clause, if it has one, and its module. -/
def IsImport (text : List Char) (node : Node) : Prop :=
  ∃ lead clause source trail, node.children = lead ++ clause ++ [source] ++ trail ∧
    (∀ remark ∈ lead, IsGap remark) ∧
    (clause = [] ∨ ∃ part gap, clause = part :: gap ∧ IsImportClause text part ∧
      ∀ remark ∈ gap, IsGap remark) ∧
    source.kind = .string ∧ source.field = some .source ∧ StringAt text source ∧
    ∀ other ∈ trail, other.kind ≠ .importClause

/-! ## Sound trees -/

theorem namesByIdentifier_of_field {node : Node} {field : Option Field} (h : node.field = field)
    (hfield : field ≠ some .name) : NamesByIdentifier node :=
  fun hname => absurd (h.symm.trans hname) hfield

/-- The kinds of nodes that stand for a word or sign of a construct. -/
def isKeyword : Kind → Bool
  | .token _ | .awaitWord => true
  | _ => false

/-- A node is a construct unless it stands for a word or sign of one, which has nothing below it. -/
def IsLabelled (node : Node) : Prop :=
  node.named = true ∨ (isKeyword node.kind = true ∧ node.children = [])

theorem IsLabelled.named {node : Node} (h : IsLabelled node) (hkind : isKeyword node.kind = false) :
    node.named = true := by
  rcases h with h | ⟨h, -⟩
  · exact h
  · rw [hkind] at h
    cases h

/-- What a node of the grammar promises of its own. -/
def Proper (text : List Char) (node : Node) : Prop :=
  Mark text node.start ∧ Mark text node.stop ∧ IsLabelled node ∧
    match node.kind with
    | .identifier | .propertyIdentifier | .shorthandPropertyIdentifier
    | .shorthandPropertyIdentifierPattern => NameAt text node
    | .undefinedWord => Lexeme (fun lexeme _ => lexeme = "undefined".toList) text node
    | .yieldExpression => BeginsAt "yield" text node
    | .functionExpression | .functionWord | .generatorFunction | .arrowFunction | .classExpression
    | .functionDeclaration | .generatorFunctionDeclaration | .classDeclaration =>
      ∀ child ∈ node.children, NamesByIdentifier child
    | .importStatement => IsImport text node
    | _ => True

/-- The kinds of nodes that promise nothing but their span. -/
def isPlain : Kind → Bool
  | .identifier | .propertyIdentifier | .shorthandPropertyIdentifier
  | .shorthandPropertyIdentifierPattern | .undefinedWord | .yieldExpression | .functionExpression
  | .functionWord | .generatorFunction | .arrowFunction | .classExpression | .functionDeclaration
  | .generatorFunctionDeclaration | .classDeclaration | .importStatement => false
  | _ => true

/-- A name that stands where an identifier is keeps the promise of its kind. -/
theorem proper_of_isNameKind {text : List Char} {node : Node} (hkind : isNameKind node.kind = true)
    (hstart : Mark text node.start) (hstop : Mark text node.stop) (hlabelled : IsLabelled node)
    (hname : NameAt text node) : Proper text node := by
  refine ⟨hstart, hstop, hlabelled, ?_⟩
  split <;> simp_all [isNameKind]

/-- A name stands where an identifier is. -/
theorem nameAt_of_isNameKind {text : List Char} {node : Node} (h : Proper text node)
    (hkind : isNameKind node.kind = true) : NameAt text node := by
  have hshape := h.2.2.2
  split at hshape <;> simp_all [isNameKind]

/-- Where `undefined` is read as a word, that is what the node covers. -/
theorem lexeme_of_undefinedWord {text : List Char} {node : Node} (h : Proper text node)
    (hkind : node.kind = .undefinedWord) :
    Lexeme (fun lexeme _ => lexeme = "undefined".toList) text node := by
  have hshape := h.2.2.2
  rw [hkind] at hshape
  exact hshape

theorem nameAt_of_undefinedWord {text : List Char} {node : Node} (h : Proper text node)
    (hkind : node.kind = .undefinedWord) : NameAt text node := by
  obtain ⟨before, lexeme, behind, htext, hstart, hstop, rfl⟩ := lexeme_of_undefinedWord h hkind
  exact ⟨before, _, behind, htext, hstart, hstop, by decide, List.all_eq_true.mp (by decide)⟩

theorem isKeyword_of_isNameKind {kind : Kind} (h : isNameKind kind = true) :
    isKeyword kind = false := by
  unfold isNameKind at h
  split at h <;> first | rfl | cases h

/-- A definition whose name is an identifier keeps the promise of its kind. -/
theorem proper_of_isDefinition {text : List Char} {node : Node}
    (hkind : isDefinition node.kind = true) (hstart : Mark text node.start)
    (hstop : Mark text node.stop) (hlabelled : IsLabelled node)
    (hnames : ∀ child ∈ node.children, NamesByIdentifier child) : Proper text node := by
  refine ⟨hstart, hstop, hlabelled, ?_⟩
  split <;> simp_all [isDefinition]

/-- The name of a definition is an identifier. -/
theorem names_of_isDefinition {text : List Char} {node : Node} (h : Proper text node)
    (hkind : isDefinition node.kind = true) : ∀ child ∈ node.children, NamesByIdentifier child := by
  have hshape := h.2.2.2
  split at hshape <;> simp_all [isDefinition]

/-- Most kinds promise nothing but whole characters. -/
theorem proper_of_isPlain {text : List Char} {node : Node} (hkind : isPlain node.kind = true)
    (hstart : Mark text node.start) (hstop : Mark text node.stop) (hlabelled : IsLabelled node) :
    Proper text node := by
  refine ⟨hstart, hstop, hlabelled, ?_⟩
  split <;> simp_all [isPlain]

end NotebookCell.Script

namespace NotebookCell.Tree.Node

open NotebookCell.Script

mutual

/-- The node and everything below it keep their promises. -/
def Sound (text : List Char) (node : Node) : Prop :=
  match node with
  | ⟨kind, start, stop, named, missing, field, children⟩ =>
    Proper text ⟨kind, start, stop, named, missing, field, children⟩ ∧ SoundAll text children

/-- All nodes are sound. -/
def SoundAll (text : List Char) (nodes : List Node) : Prop :=
  match nodes with
  | [] => True
  | node :: nodes => Sound text node ∧ SoundAll text nodes

end

variable {text : List Char}

theorem soundAll_iff {nodes : List Node} : SoundAll text nodes ↔ ∀ node ∈ nodes, node.Sound text := by
  induction nodes with
  | nil => simp [SoundAll]
  | cons node nodes ih => simp [SoundAll, ih]

/-- A tree is sound if its root keeps its promise and the trees below are sound. -/
theorem sound_iff {node : Node} :
    node.Sound text ↔ Proper text node ∧ ∀ child ∈ node.children, child.Sound text := by
  cases node
  rw [Sound, soundAll_iff]

theorem Sound.proper {node : Node} (h : node.Sound text) : Proper text node :=
  (sound_iff.mp h).1

theorem Sound.children {node : Node} (h : node.Sound text) :
    ∀ child ∈ node.children, child.Sound text :=
  (sound_iff.mp h).2

/-- The role of a node is no part of its promise. -/
theorem Sound.as {node : Node} (h : node.Sound text) (field : Field) : (node.as field).Sound text := by
  obtain ⟨kind, start, stop, named, missing, field', children⟩ := node
  exact h

/-- A node without a promise of its own is sound if its children are. -/
theorem sound_of_isPlain {node : Node} (hkind : isPlain node.kind = true)
    (hstart : Mark text node.start) (hstop : Mark text node.stop) (hlabelled : IsLabelled node)
    (hchildren : ∀ child ∈ node.children, child.Sound text) : node.Sound text :=
  sound_iff.mpr ⟨proper_of_isPlain hkind hstart hstop hlabelled, hchildren⟩

/-- A sound node is named if its kind is not that of a word or sign. -/
theorem Sound.named {node : Node} (h : node.Sound text) (hkind : isKeyword node.kind = false) :
    node.named = true :=
  h.proper.2.2.1.named hkind

/-- A word or sign is sound, named or not. -/
theorem Sound.anonymous {node : Node} (h : node.Sound text) (hkind : isKeyword node.kind = true)
    (hleaf : node.children = []) : ({ node with named := false } : Node).Sound text := by
  refine sound_of_isPlain ?_ h.proper.1 h.proper.2.1 (.inr ⟨hkind, hleaf⟩) h.children
  unfold isKeyword at hkind
  split at hkind
  case h_1 hword | h_2 hword => rw [hword]; rfl
  case h_3 => cases hkind

/-- Giving a construct a kind without a promise of its own keeps it sound. -/
theorem Sound.toPlain {node : Node} (h : node.Sound text) (hnode : isKeyword node.kind = false)
    {kind : Kind} (hkind : isPlain kind = true) : ({ node with kind } : Node).Sound text :=
  sound_of_isPlain hkind h.proper.1 h.proper.2.1 (.inl (h.named hnode)) h.children

/-- The kinds that promise a name can stand for each other. -/
theorem Sound.toName {node : Node} (h : node.Sound text) (hnode : isNameKind node.kind = true)
    {kind : Kind} (hkind : isNameKind kind = true) : ({ node with kind } : Node).Sound text := by
  have hname : NameAt text node := nameAt_of_isNameKind h.proper hnode
  have hnamed := h.named (isKeyword_of_isNameKind hnode)
  exact sound_iff.mpr ⟨proper_of_isNameKind hkind h.proper.1 h.proper.2.1 (.inl hnamed) hname,
    h.children⟩

end NotebookCell.Tree.Node

namespace NotebookCell.Script

open NotebookCell.Tree

/-! ## Patterns -/

theorem any_map_moved (offset : Nat) {p : Node → Bool} (hp : ∀ node, p (node.moved offset) = p node)
    (nodes : List Node) : (nodes.map (Node.moved offset)).any p = nodes.any p := by
  rw [List.any_map]
  congr 1
  funext node
  exact hp node

mutual

/-- A pattern is made out of an expression wherever the expression stands. -/
theorem asPattern?_moved (offset : Nat) (node : Node) :
    asPattern? (node.moved offset) = (asPattern? node).map (Node.moved offset) := by
  match node with
  | ⟨kind, start, stop, named, missing, field, children⟩ =>
    have hpatterns := asPatterns?_moved offset children
    have hvalues := valuesAsPatterns?_moved offset children
    rw [← Node.movedAll_eq_map] at hpatterns hvalues
    rw [Node.moved, asPattern?.eq_def, asPattern?.eq_def]
    dsimp only
    split <;> try rfl
    · rw [hpatterns]
      cases asPatterns? children with
      | none => rfl
      | some patterns => simp [Node.moved, Node.movedAll_eq_map]
    · rw [hpatterns]
      cases asPatterns? children with
      | none => rfl
      | some patterns => simp [Node.moved, Node.movedAll_eq_map]
    · rw [hpatterns]
      cases asPatterns? children with
      | none => rfl
      | some patterns =>
        dsimp only [Option.map_some, Option.bind_some]
        rw [any_map_moved offset (by simp)]
        split
        · rfl
        · simp [Node.moved, Node.movedAll_eq_map]
    · rw [hvalues]
      cases valuesAsPatterns? children with
      | none => rfl
      | some patterns => simp [Node.moved, Node.movedAll_eq_map]
    · rw [Node.movedAll_eq_map, any_map_moved offset (by simp)]
      split
      · simp [Node.moved, Node.movedAll_eq_map]
      · rfl

theorem asPatterns?_moved (offset : Nat) (nodes : List Node) :
    asPatterns? (nodes.map (Node.moved offset)) =
      (asPatterns? nodes).map (List.map (Node.moved offset)) := by
  match nodes with
  | [] => rfl
  | node :: nodes =>
    rw [List.map_cons, asPatterns?, asPatterns?, asPattern?_moved offset node,
      asPatterns?_moved offset nodes]
    cases asPattern? node <;> cases asPatterns? nodes <;> rfl

theorem valuesAsPatterns?_moved (offset : Nat) (nodes : List Node) :
    valuesAsPatterns? (nodes.map (Node.moved offset)) =
      (valuesAsPatterns? nodes).map (List.map (Node.moved offset)) := by
  match nodes with
  | [] => rfl
  | node :: nodes =>
    rw [List.map_cons, valuesAsPatterns?, valuesAsPatterns?, valuesAsPatterns?_moved offset nodes,
      asPattern?_moved offset node, Node.field_moved]
    cases node.field == some .value <;> cases asPattern? node <;> cases valuesAsPatterns? nodes <;> rfl

end

variable {text : List Char}

mutual

/-- A pattern made out of a sound expression is sound, at the same place and in the same role. -/
theorem sound_of_asPattern? {node pattern : Node} (hsound : node.Sound text)
    (h : asPattern? node = some pattern) :
    pattern.Sound text ∧ pattern.start = node.start ∧ pattern.field = node.field := by
  match node with
  | ⟨kind, start, stop, named, missing, field, children⟩ =>
    have hall {patterns : List Node} := @sound_of_asPatterns? children patterns hsound.children
    have hvalues {patterns : List Node} := @sound_of_valuesAsPatterns? children patterns hsound.children
    have hrebuild {kind' : Kind} {children' : List Node} (hnode : isKeyword kind = false)
        (hkind : isPlain kind' = true) (hchildren : ∀ child ∈ children', child.Sound text) :
        (⟨kind', start, stop, named, missing, field, children'⟩ : Node).Sound text :=
      Node.sound_of_isPlain hkind hsound.proper.1 hsound.proper.2.1 (.inl (hsound.named hnode))
        hchildren
    rw [asPattern?.eq_def] at h
    dsimp only at h
    split at h <;> try (cases h; exact ⟨hsound, rfl, rfl⟩)
    · obtain ⟨patterns, hpatterns, rfl⟩ := Option.map_eq_some_iff.mp h
      exact ⟨hrebuild rfl rfl (hall hpatterns), rfl, rfl⟩
    · obtain ⟨patterns, hpatterns, rfl⟩ := Option.map_eq_some_iff.mp h
      exact ⟨hrebuild rfl rfl (hall hpatterns), rfl, rfl⟩
    · obtain ⟨patterns, hpatterns, h⟩ := Option.bind_eq_some_iff.mp h
      split at h
      · cases h
      · cases h
        exact ⟨hrebuild rfl rfl (hall hpatterns), rfl, rfl⟩
    · obtain ⟨patterns, hpatterns, rfl⟩ := Option.map_eq_some_iff.mp h
      exact ⟨hrebuild rfl rfl (hvalues hpatterns), rfl, rfl⟩
    · split at h
      · cases h
        exact ⟨hrebuild rfl rfl hsound.children, rfl, rfl⟩
      · cases h
    · cases h

/-- Patterns made out of sound expressions are sound. -/
theorem sound_of_asPatterns? {nodes patterns : List Node} (hsound : ∀ node ∈ nodes, node.Sound text)
    (h : asPatterns? nodes = some patterns) : ∀ pattern ∈ patterns, pattern.Sound text := by
  match nodes with
  | [] =>
    cases h
    simp
  | node :: nodes =>
    rw [asPatterns?] at h
    split at h
    · next pattern rest hpattern hrest =>
      cases h
      rw [List.forall_mem_cons] at hsound ⊢
      exact ⟨(sound_of_asPattern? hsound.1 hpattern).1, sound_of_asPatterns? hsound.2 hrest⟩
    · cases h

theorem sound_of_valuesAsPatterns? {nodes patterns : List Node}
    (hsound : ∀ node ∈ nodes, node.Sound text)
    (h : valuesAsPatterns? nodes = some patterns) : ∀ pattern ∈ patterns, pattern.Sound text := by
  match nodes with
  | [] =>
    cases h
    simp
  | node :: nodes =>
    rw [valuesAsPatterns?] at h
    split at h
    · next pattern rest hpattern hrest =>
      cases h
      rw [List.forall_mem_cons] at hsound ⊢
      refine ⟨?_, sound_of_valuesAsPatterns? hsound.2 hrest⟩
      split at hpattern
      · exact (sound_of_asPattern? hsound.1 hpattern).1
      · cases hpattern
        exact hsound.1
    · cases h

end

mutual

/-- Whether a default is left over does not depend on the place. -/
theorem hasStrayDefault_moved (offset : Nat) (node : Node) :
    hasStrayDefault (node.moved offset) = hasStrayDefault node := by
  match node with
  | ⟨kind, start, stop, named, missing, field, children⟩ =>
    rw [Node.moved, hasStrayDefault, hasStrayDefault, Node.movedAll_eq_map,
      anyStrayDefault_moved offset children, any_map_moved offset (by simp),
      any_map_moved offset (by simp)]

theorem anyStrayDefault_moved (offset : Nat) (nodes : List Node) :
    anyStrayDefault (nodes.map (Node.moved offset)) = anyStrayDefault nodes := by
  match nodes with
  | [] => rfl
  | node :: nodes =>
    rw [List.map_cons, anyStrayDefault, anyStrayDefault, hasStrayDefault_moved offset node,
      anyStrayDefault_moved offset nodes]

end

end NotebookCell.Script
