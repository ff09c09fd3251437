import Mathlib.Algebra.Order.Group.Multiset
import Mathlib.Tactic.Abel
import NotebookCell.Proofs.Body.Resolution
import NotebookCell.Proofs.Scope.Hoisting
import NotebookCell.Proofs.Tree.Order

/-!
# Addresses inside each other

The expressions that are made addresses are found by two walks over the tree, and each of them is
wrapped by two insertions of its own. Here the same text is made by recursion on the tree: every node is
copied, with the gaps between its children, and a call that makes an address of its first argument
wraps the text of that argument (`addressed`). So wrappers are balanced, however calls are nested.

* `weave_addressed`: the recursion weaves the wrappers of what it marks into the source;
* `marks_perm`: it marks what the two walks find;
* `text_resolutions`: resolving addresses makes the text of the recursion.
-/

namespace NotebookCell

open NotebookCell.Tree NotebookCell.Text NotebookCell.Editing NotebookCell.Script NotebookCell.Body

/-! ## Calls that make addresses -/

/-- Whether a node is a dynamic import whose first argument is the quoted path of a local module. -/
def importsLocal (offsets : Offsets) (call : Node) : Bool :=
  (call.child? .function).any (·.kind == .importWord) &&
    (firstArgument? call).any fun argument =>
      argument.kind == .string && isLocalSpecifier (argument.textIn offsets)

/-- Whether a site is a name that stands for the notebook's own `FileAttachment`: it refers to a variable,
and nothing around it declares its name. -/
def isAttachmentName (name : Node → String) (site : Site) : Bool :=
  site.node.named && Scope.isReferenceKind site.node.kind && !Scope.isInModule site &&
    !Scope.isDeclaredAbove name site && name site.node == attachmentName

/-- Whether a site is a call of the notebook's own `FileAttachment` with an argument. -/
def attachesFile (name : Node → String) (call : Site) : Bool :=
  (call.child? .function).any (isAttachmentName name) &&
    (call.node.child? .arguments).any (·.kind == .arguments) && (firstArgument? call.node).isSome

/-- What the first argument of a call is relative to, if an address is made of it. -/
def baseOf (cell : Script.Cell) (options : Options) (call : Site) : Option String :=
  if options.resolveLocalImports && importsLocal cell.offsets call.node then some documentBase
  else if options.resolveFiles && attachesFile cell.name call then some moduleBase
  else none

/-- A text as an address relative to a base, if there is one. -/
def inUrl : Option String → List Char → List Char
  | none, text => text
  | some base, text => urlStart ++ text ++ urlEnd base

/-- Whether a node counts as an argument. -/
def isArgument (node : Node) : Bool := node.named && node.kind != .comment

/-- Whether a node holds the arguments of a call. -/
def holdsArguments (node : Node) : Bool := node.field == some .arguments

mutual

/-- The text of a node, with the first argument of every call that has a base made an address. If the
node holds the arguments of such a call, `first` is the base of the first of them. Calls below words and
signs do not count. -/
def addressed (base : Site → Option String) (offsets : Offsets) (node : Node) (path : List Nat)
    (ancestors : List Node) (first : Option String) : List Char :=
  match node with
  | ⟨kind, start, stop, named, missing, field, children⟩ =>
    let node : Node := ⟨kind, start, stop, named, missing, field, children⟩
    addressedAll base offsets start stop children 0 path (node :: ancestors) first
      (base ⟨node, path, ancestors⟩)

/-- The text between two offsets with some siblings in it. `first` is the base of the first argument
among them, `arguments` that of the first argument below the one that holds the arguments. -/
def addressedAll (base : Site → Option String) (offsets : Offsets) (start stop : Nat)
    (nodes : List Node) (index : Nat) (path : List Nat) (ancestors : List Node)
    (first arguments : Option String) : List Char :=
  match nodes with
  | [] => offsets.slice start stop
  | node :: nodes =>
    offsets.slice start node.start ++
      inUrl (if isArgument node then first else none)
        (addressed (if node.named then base else fun _ => none) offsets node (index :: path) ancestors
          (if holdsArguments node then arguments else none)) ++
      addressedAll base offsets node.stop stop nodes (index + 1) path ancestors
        (if isArgument node then none else first) (if holdsArguments node then none else arguments)

end

/-! ## What is marked -/

mutual

/-- The expressions that `addressed` makes addresses, each behind those inside of it. -/
def marks (base : Site → Option String) (node : Node) (path : List Nat) (ancestors : List Node)
    (first : Option String) : List (String × Node) :=
  match node with
  | ⟨kind, start, stop, named, missing, field, children⟩ =>
    let node : Node := ⟨kind, start, stop, named, missing, field, children⟩
    marksAll base children 0 path (node :: ancestors) first (base ⟨node, path, ancestors⟩)

/-- The expressions that `addressedAll` makes addresses. -/
def marksAll (base : Site → Option String) (nodes : List Node) (index : Nat) (path : List Nat)
    (ancestors : List Node) (first arguments : Option String) : List (String × Node) :=
  match nodes with
  | [] => []
  | node :: nodes =>
    marks (if node.named then base else fun _ => none) node (index :: path) ancestors
        (if holdsArguments node then arguments else none) ++
      (if isArgument node then first else none).toList.map (·, node) ++
      marksAll base nodes (index + 1) path ancestors (if isArgument node then none else first)
        (if holdsArguments node then none else arguments)

end

/-- The marks of the first of some siblings: those below it, and the one on itself. -/
def headMarks (base : Site → Option String) (node : Node) (index : Nat) (path : List Nat)
    (ancestors : List Node) (first arguments : Option String) : List (String × Node) :=
  marks (if node.named then base else fun _ => none) node (index :: path) ancestors
      (if holdsArguments node then arguments else none) ++
    (if isArgument node then first else none).toList.map (·, node)

theorem marksAll_cons (base : Site → Option String) (node : Node) (nodes : List Node) (index : Nat)
    (path : List Nat) (ancestors : List Node) (first arguments : Option String) :
    marksAll base (node :: nodes) index path ancestors first arguments =
      headMarks base node index path ancestors first arguments ++
        marksAll base nodes (index + 1) path ancestors (if isArgument node then none else first)
          (if holdsArguments node then none else arguments) :=
  rfl

/-- The mark on the first argument among some siblings. -/
def firstMarks (first : Option String) (nodes : List Node) : List (String × Node) :=
  first.toList.flatMap fun base => (nodes.find? isArgument).toList.map (base, ·)

/-- The mark on the first argument below the sibling that holds the arguments. -/
def argumentMarks (arguments : Option String) (nodes : List Node) : List (String × Node) :=
  (nodes.find? holdsArguments).toList.flatMap fun holder => firstMarks arguments holder.children

/-- The mark that a site puts on its first argument. -/
def callMarks (base : Site → Option String) (site : Site) : List (String × Node) :=
  argumentMarks (base site) site.node.children

@[simp] theorem firstMarks_none (nodes : List Node) : firstMarks none nodes = [] := by
  simp [firstMarks]

@[simp] theorem argumentMarks_none (nodes : List Node) : argumentMarks none nodes = [] := by
  simp [argumentMarks]

theorem firstMarks_cons (first : Option String) (node : Node) (nodes : List Node) :
    firstMarks first (node :: nodes) =
      (if isArgument node then first else none).toList.map (·, node) ++
        firstMarks (if isArgument node then none else first) nodes := by
  by_cases hnode : isArgument node = true <;> cases first <;> simp [firstMarks, hnode]

theorem argumentMarks_cons (arguments : Option String) (node : Node) (nodes : List Node) :
    argumentMarks arguments (node :: nodes) =
      firstMarks (if holdsArguments node then arguments else none) node.children ++
        argumentMarks (if holdsArguments node then none else arguments) nodes := by
  by_cases hnode : holdsArguments node = true <;> simp [argumentMarks, hnode]

mutual

/-- The recursion marks what the sites of the tree mark one by one. -/
theorem marks_perm (base : Site → Option String) (node : Node) (path : List Nat)
    (ancestors : List Node) (first : Option String) :
    (marks base node path ancestors first).Perm
      (firstMarks first node.children ++
        (node.preorder path ancestors).flatMap (callMarks base)) := by
  match node with
  | ⟨kind, start, stop, named, missing, field, children⟩ =>
    rw [marks, Node.preorder, List.flatMap_cons, ← List.append_assoc]
    exact marksAll_perm base children 0 path _ first _

theorem marksAll_perm (base : Site → Option String) (nodes : List Node) (index : Nat)
    (path : List Nat) (ancestors : List Node) (first arguments : Option String) :
    (marksAll base nodes index path ancestors first arguments).Perm
      (firstMarks first nodes ++ argumentMarks arguments nodes ++
        (Node.preorders nodes index path ancestors).flatMap (callMarks base)) := by
  match nodes with
  | [] =>
    cases first <;> exact .nil
  | node :: nodes =>
    have hnode := marks_perm (if node.named then base else fun _ => none) node (index :: path)
      ancestors (if holdsArguments node then arguments else none)
    have hnodes := marksAll_perm base nodes (index + 1) path ancestors
      (if isArgument node then none else first) (if holdsArguments node then none else arguments)
    -- below words and signs nothing has a base
    have hbelow : (node.preorder (index :: path) ancestors).flatMap
          (callMarks (if node.named then base else fun _ => none)) =
        (if node.named then node.preorder (index :: path) ancestors else []).flatMap
          (callMarks base) := by
      by_cases hnamed : node.named = true
      · rw [if_pos hnamed, if_pos hnamed]
      · rw [if_neg hnamed, if_neg hnamed, List.flatMap_nil, List.flatMap_eq_nil_iff]
        intro site _
        exact argumentMarks_none _
    rw [hbelow] at hnode
    rw [marksAll, Node.preorders, firstMarks_cons, argumentMarks_cons, List.flatMap_append]
    rw [← Multiset.coe_eq_coe] at hnode hnodes ⊢
    simp only [← Multiset.coe_add] at hnode hnodes ⊢
    rw [hnode, hnodes]
    abel

end

/-! ## What the walks find -/

theorem firstExpression?_eq (node : Node) :
    node.firstExpression? = node.children.find? isArgument := by
  rw [Node.firstExpression?, Node.namedChildren, List.find?_filter]
  congr 1
  funext child
  rw [isArgument, Bool.decide_and, Bool.decide_eq_true, Bool.decide_eq_true]

theorem argumentMarks_children (arguments : Option String) (node : Node) :
    argumentMarks arguments node.children =
      arguments.toList.flatMap fun base =>
        ((node.child? .arguments).bind Node.firstExpression?).toList.map (base, ·) := by
  have hholder : node.child? .arguments = node.children.find? holdsArguments := rfl
  rw [argumentMarks, hholder]
  cases arguments <;> cases node.children.find? holdsArguments <;>
    simp [firstMarks, firstExpression?_eq]

theorem localImport?_eq (offsets : Offsets) (node : Node) :
    localImport? offsets node = if importsLocal offsets node then firstArgument? node else none := by
  rw [localImport?, importsLocal, firstArgument?]
  by_cases hkind : (node.kind == .callExpression) = true
  · rw [if_pos hkind]
    cases node.child? .function with
    | none => simp
    | some callee =>
      cases node.child? .arguments with
      | none => simp
      | some holder =>
        cases hfirst : holder.firstExpression? with
        | none => simp [hfirst, guard, hkind]
        | some argument =>
          by_cases hcallee : (callee.kind == .importWord) = true <;>
            by_cases hstring : (argument.kind == .string) = true <;>
            by_cases hlocal : isLocalSpecifier (argument.textIn offsets) = true <;>
            simp_all [guard]
  · simp [hkind, guard]

/-- A site below the root is a construct. -/
theorem named_of_mem_sites {root : Node} {site : Site} (hsite : site ∈ root.sites)
    (hpath : site.path ≠ []) : site.node.named = true := by
  have hall : ∀ site ∈ root.sites, site.path ≠ [] → site.node.named = true := by
    apply Node.sites_induction
    · intro h
      exact absurd rfl h
    · intro site _ child hchild _ _
      exact (List.mem_filter.mp hchild).2
  exact hall site hsite hpath

/-- The callee of a call is at the path of a reference to `FileAttachment` if it is such a reference
itself. -/
theorem isAttachmentName_iff {name : Node → String} {root : Node} {call callee : Site}
    (hcall : call ∈ root.sites) (hcallee : callee ∈ call.children) :
    isAttachmentName name callee = true ↔ callee.path ∈ (Scope.references name root
      fun node => name node == attachmentName).map (·.path) := by
  simp only [isAttachmentName, Bool.and_eq_true, Bool.not_eq_true']
  constructor
  · rintro ⟨⟨⟨⟨hnamed, hkind⟩, hmodule⟩, hunbound⟩, hname⟩
    have hsite := Node.mem_sites_of_child hcall (List.mem_filter.mpr ⟨hcallee, hnamed⟩)
    exact List.mem_map_of_mem
      (Scope.mem_references_iff.mpr ⟨hsite, hkind, hmodule, hunbound, hname⟩)
  · intro hpath
    obtain ⟨reference, hreference, hpath⟩ := List.mem_map.mp hpath
    obtain ⟨hsite, hkind, hmodule, hunbound, hname⟩ := Scope.mem_references_iff.mp hreference
    -- paths tell the sites of a tree apart
    obtain rfl := (Node.reached_of_mem_sites hsite).eq_of_path_eq
      ((Node.reached_of_mem_sites hcall).child hcallee) hpath
    obtain ⟨index, hindex⟩ := Site.path_of_mem_children hcallee
    have hnamed := named_of_mem_sites hsite (by simp [hindex])
    exact ⟨⟨⟨⟨hnamed, hkind⟩, hmodule⟩, hunbound⟩, hname⟩

theorem attachedName?_eq {name : Node → String} {root : Node} {call : Site}
    (hcall : call ∈ root.sites) :
    attachedName? ((Scope.references name root fun node => name node == attachmentName).map (·.path))
        call =
      if attachesFile name call then firstArgument? call.node else none := by
  rw [attachedName?, attachesFile, firstArgument?]
  by_cases hkind : (call.node.kind == .callExpression) = true
  · rw [if_pos hkind]
    cases hfunction : call.child? .function with
    | none => simp
    | some callee =>
      have hcallee : callee ∈ call.children := List.mem_of_find?_eq_some hfunction
      have hname := @isAttachmentName_iff name _ _ _ hcall hcallee
      rw [← List.contains_iff_mem, ← Bool.eq_iff_iff] at hname
      cases call.node.child? .arguments with
      | none => simp
      | some holder =>
        cases hfirst : holder.firstExpression? with
        | none => simp [hfirst, guard, hkind]
        | some argument =>
          by_cases hholder : (holder.kind == .arguments) = true <;>
            by_cases hreference : isAttachmentName name callee = true <;>
            simp_all [guard]
  · simp [hkind, guard]

theorem map_node_child? (site : Site) (field : Field) :
    (site.child? field).map (·.node) = site.node.child? field := by
  have hnodes : site.children.map (·.node) = site.node.children := by
    rw [Site.children, List.map_map]
    exact List.zipIdx_map_fst 0 site.node.children
  rw [Site.child?, Node.child?, ← hnodes, List.find?_map]
  rfl

/-- The word `import` is no name. -/
theorem attachesFile_of_importsLocal {name : Node → String} {offsets : Offsets} {call : Site}
    (h : importsLocal offsets call.node = true) : attachesFile name call = false := by
  rw [importsLocal, Bool.and_eq_true, ← map_node_child?] at h
  rw [attachesFile]
  cases hfunction : call.child? .function with
  | none => rfl
  | some callee =>
    have hkind : callee.node.kind = .importWord := by
      rw [hfunction] at h
      exact eq_of_beq h.1
    simp [isAttachmentName, hkind, Scope.isReferenceKind]

/-- Only calls with an argument have a base. -/
theorem exists_firstArgument? {cell : Script.Cell} {options : Options} {call : Site} {base : String}
    (h : baseOf cell options call = some base) : ∃ argument, firstArgument? call.node = some argument := by
  rw [← Option.isSome_iff_exists]
  rw [baseOf] at h
  split at h
  · next himport =>
    rw [importsLocal, Bool.and_eq_true, Bool.and_eq_true] at himport
    obtain ⟨argument, hargument, -⟩ := (Option.any_eq_true _ _).mp himport.2.2
    exact Option.isSome_of_eq_some hargument
  · split at h
    · next hattach =>
      rw [attachesFile, Bool.and_eq_true, Bool.and_eq_true] at hattach
      exact hattach.2.2
    · cases h

theorem callMarks_eq (cell : Script.Cell) (options : Options) (call : Site) :
    callMarks (baseOf cell options) call = (baseOf cell options call).toList.flatMap fun base =>
      (firstArgument? call.node).toList.map (base, ·) := by
  rw [callMarks, argumentMarks_children]
  cases hbase : baseOf cell options call with
  | none => simp
  | some base =>
    obtain ⟨argument, hargument⟩ := exists_firstArgument? hbase
    have hkind : (call.node.kind == .callExpression) = true := by
      by_contra hother
      rw [firstArgument?, if_neg hother] at hargument
      cases hargument
    rw [firstArgument?, if_pos hkind]

/-- What a site marks is what the two walks find there. -/
theorem callMarks_of_mem_sites {cell : Script.Cell} {call : Site} (options : Options)
    (hcall : call ∈ cell.body.sites) :
    callMarks (baseOf cell options) call =
      (if options.resolveLocalImports then
        (localImport? cell.offsets call.node).toList.map (documentBase, ·) else []) ++
      (if options.resolveFiles then
        (attachedName? ((Scope.references cell.name cell.body
          fun node => cell.name node == attachmentName).map (·.path)) call).toList.map
            (moduleBase, ·) else []) := by
  rw [callMarks_eq, localImport?_eq, attachedName?_eq hcall, baseOf]
  by_cases himport : importsLocal cell.offsets call.node = true
  · -- a call of both kinds would be marked once
    rw [attachesFile_of_importsLocal himport]
    cases options.resolveLocalImports <;> simp [himport]
  · cases options.resolveLocalImports <;> cases options.resolveFiles <;>
      cases attachesFile cell.name call <;> simp [himport]

/-- The sites of a cell mark what is made an address. -/
theorem callMarks_perm (cell : Script.Cell) (options : Options) :
    (cell.body.sites.flatMap (callMarks (baseOf cell options))).Perm (addresses cell options) := by
  have hsplit : cell.body.sites.flatMap (callMarks (baseOf cell options)) =
      cell.body.sites.flatMap fun call =>
        (if options.resolveLocalImports then
          (localImport? cell.offsets call.node).toList.map (documentBase, ·) else []) ++
        (if options.resolveFiles then
          (attachedName? ((Scope.references cell.name cell.body
            fun node => cell.name node == attachmentName).map (·.path)) call).toList.map
              (moduleBase, ·) else []) :=
    List.flatMap_congr fun _ hcall => callMarks_of_mem_sites options hcall
  have hfound (find : Site → Option Node) (base : String) (resolve : Bool) :
      (cell.body.sites.flatMap fun call =>
        if resolve then (find call).toList.map (base, ·) else []) =
          if resolve then (cell.body.sites.filterMap find).map (base, ·) else [] := by
    cases resolve <;> simp [List.filterMap_eq_flatMap_toList, List.map_flatMap]
  rw [hsplit, addresses, ← Node.map_node_sites, List.filterMap_map]
  refine (List.flatMap_append_perm _ _ _).symm.trans ?_
  rw [hfound, hfound]
  exact .refl _

/-! ## Where marks lie -/

section
variable {base : Site → Option String} {offsets : Offsets} {node : Node} {nodes : List Node}
  {start stop index : Nat} {path : List Nat} {ancestors : List Node}
  {first arguments : Option String} {mark : String × Node}

theorem mem_firstMarks : mark ∈ firstMarks first nodes ↔
    first = some mark.1 ∧ nodes.find? isArgument = some mark.2 := by
  obtain ⟨relative, argument⟩ := mark
  cases first <;> simp [firstMarks, eq_comm, and_comm]

theorem mem_argumentMarks : mark ∈ argumentMarks arguments nodes ↔
    ∃ holder, nodes.find? holdsArguments = some holder ∧
      mark ∈ firstMarks arguments holder.children := by
  simp [argumentMarks]

/-- A site with a base is a call whose first argument lies strictly inside of it, and what holds its
arguments is no call itself. -/
def Fits (offsets : Offsets) (base : Site → Option String) (site : Site) : Prop :=
  base site ≠ none → site.node.kind = .callExpression ∧
    ∀ holder ∈ site.node.children.find? holdsArguments, holder.kind ≠ .callExpression ∧
      ∀ argument ∈ holder.children.find? isArgument,
        site.node.startIn offsets < argument.startIn offsets ∧
          argument.stopIn offsets < site.node.stopIn offsets

/-- What the recursion needs at a node. -/
structure FitsBelow (offsets : Offsets) (base : Site → Option String) (node : Node) (path : List Nat)
    (ancestors : List Node) (first : Option String) : Prop where
  ordered : node.isOrdered = true
  /-- A node that holds the arguments of a call with a base is no such call. -/
  single : first = none ∨ base ⟨node, path, ancestors⟩ = none
  sites : ∀ site ∈ node.preorder path ancestors, Fits offsets base site

/-- What the recursion needs of siblings between two offsets. -/
structure FitsBetween (offsets : Offsets) (base : Site → Option String) (start stop : Nat)
    (nodes : List Node) (index : Nat) (path : List Nat) (ancestors : List Node)
    (first arguments : Option String) : Prop where
  ordered : Node.areOrdered start stop nodes = true
  single : first = none ∨ arguments = none
  holder : arguments ≠ none → ∀ holder ∈ nodes.find? holdsArguments, holder.kind ≠ .callExpression
  sites : ∀ site ∈ Node.preorders nodes index path ancestors, Fits offsets base site

theorem FitsBelow.children (h : FitsBelow offsets base node path ancestors first) :
    FitsBetween offsets base node.start node.stop node.children 0 path (node :: ancestors) first
      (base ⟨node, path, ancestors⟩) := by
  have hsites := h.sites
  have hpreorder : node.preorder path ancestors =
      ⟨node, path, ancestors⟩ :: Node.preorders node.children 0 path (node :: ancestors) := by
    cases node
    rw [Node.preorder]
  rw [hpreorder] at hsites
  refine ⟨?_, h.single, ?_, ?_⟩
  · rw [← Node.isOrdered_eq]
    exact h.ordered
  · intro hbase holder hholder
    exact ((hsites _ List.mem_cons_self hbase).2 holder hholder).1
  · intro site hsite
    exact hsites site (List.mem_cons_of_mem _ hsite)

theorem FitsBetween.head
    (h : FitsBetween offsets base start stop (node :: nodes) index path ancestors first arguments) :
    FitsBelow offsets (if node.named then base else fun _ => none) node (index :: path) ancestors
      (if holdsArguments node then arguments else none) := by
  obtain ⟨-, hordered, -⟩ := Node.areOrdered_cons_iff.mp h.ordered
  have hsites := h.sites
  rw [Node.preorders] at hsites
  by_cases hnamed : node.named = true
  · rw [if_pos hnamed] at hsites ⊢
    have hself : (⟨node, index :: path, ancestors⟩ : Site) ∈ node.preorder (index :: path) ancestors :=
      Site.mem_preorder_self _
    refine ⟨hordered, ?_, fun site hsite => hsites site (List.mem_append_left _ hsite)⟩
    by_cases hholds : holdsArguments node = true
    · rw [if_pos hholds]
      by_contra hneither
      rw [not_or] at hneither
      have hcall := (hsites _ (List.mem_append_left _ hself) hneither.2).1
      exact h.holder hneither.1 node (by simp [hholds]) hcall
    · exact .inl (if_neg hholds)
  · rw [if_neg hnamed]
    exact ⟨hordered, .inr rfl, fun site _ hbase => absurd rfl hbase⟩

theorem FitsBetween.tail
    (h : FitsBetween offsets base start stop (node :: nodes) index path ancestors first arguments) :
    FitsBetween offsets base node.stop stop nodes (index + 1) path ancestors
      (if isArgument node then none else first) (if holdsArguments node then none else arguments) := by
  obtain ⟨-, -, hordered⟩ := Node.areOrdered_cons_iff.mp h.ordered
  have hsites := h.sites
  rw [Node.preorders] at hsites
  refine ⟨hordered, ?_, ?_, fun site hsite => hsites site (List.mem_append_right _ hsite)⟩
  · rcases h.single with rfl | rfl
    · exact .inl (ite_self _)
    · exact .inr (ite_self _)
  · intro hbase holder hholder
    by_cases hholds : holdsArguments node = true
    · exact absurd (if_pos hholds) hbase
    · rw [if_neg hholds] at hbase
      exact h.holder hbase holder (by simpa [hholds] using hholder)

/-- Later bytes do not belong to earlier characters. -/
def KeepsOrder (offsets : Offsets) : Prop :=
  ∀ ⦃byte byte' : Int⦄, byte ≤ byte' → offsets.char byte ≤ offsets.char byte'

/-- A mark lies between two offsets. -/
def LiesBetween (offsets : Offsets) (start stop : Nat) (mark : String × Node) : Prop :=
  offsets.char start ≤ mark.2.startIn offsets ∧ mark.2.startIn offsets ≤ mark.2.stopIn offsets ∧
    mark.2.stopIn offsets ≤ offsets.char stop

/-- A mark lies between two offsets and touches neither of them. -/
def LiesInside (offsets : Offsets) (start stop : Nat) (mark : String × Node) : Prop :=
  offsets.char start < mark.2.startIn offsets ∧ mark.2.startIn offsets ≤ mark.2.stopIn offsets ∧
    mark.2.stopIn offsets < offsets.char stop

theorem LiesInside.liesBetween (h : LiesInside offsets start stop mark) :
    LiesBetween offsets start stop mark :=
  ⟨h.1.le, h.2.1, h.2.2.le⟩

section
variable (hmono : KeepsOrder offsets)
include hmono

theorem LiesBetween.mono {start' stop' : Nat} (h : LiesBetween offsets start stop mark)
    (hstart : start' ≤ start) (hstop : stop ≤ stop') : LiesBetween offsets start' stop' mark :=
  ⟨(hmono (Int.ofNat_le.mpr hstart)).trans h.1, h.2.1, h.2.2.trans (hmono (Int.ofNat_le.mpr hstop))⟩

theorem LiesInside.mono {start' stop' : Nat} (h : LiesInside offsets start stop mark)
    (hstart : start' ≤ start) (hstop : stop ≤ stop') : LiesInside offsets start' stop' mark :=
  ⟨(hmono (Int.ofNat_le.mpr hstart)).trans_lt h.1, h.2.1,
    h.2.2.trans_le (hmono (Int.ofNat_le.mpr hstop))⟩

theorem liesBetween_of_mem (hordered : Node.areOrdered start stop nodes = true)
    (hmark : mark.2 ∈ nodes) : LiesBetween offsets start stop mark := by
  obtain ⟨hstart, hstop, hinner⟩ := Node.within_of_areOrdered hordered hmark
  exact ⟨hmono (Int.ofNat_le.mpr hstart), hmono (Int.ofNat_le.mpr (Node.start_le_stop _ hinner)),
    hmono (Int.ofNat_le.mpr hstop)⟩

theorem liesBetween_of_mem_firstMarks (hordered : Node.areOrdered start stop nodes = true)
    (hmark : mark ∈ firstMarks first nodes) : LiesBetween offsets start stop mark :=
  liesBetween_of_mem hmono hordered (List.mem_of_find?_eq_some (mem_firstMarks.mp hmark).2)

theorem liesBetween_of_mem_argumentMarks (hordered : Node.areOrdered start stop nodes = true)
    (hmark : mark ∈ argumentMarks arguments nodes) : LiesBetween offsets start stop mark := by
  obtain ⟨holder, hholder, hmark⟩ := mem_argumentMarks.mp hmark
  obtain ⟨hstart, hstop, hinner⟩ :=
    Node.within_of_areOrdered hordered (List.mem_of_find?_eq_some hholder)
  rw [Node.isOrdered_eq] at hinner
  exact (liesBetween_of_mem_firstMarks hmono hinner hmark).mono hmono hstart hstop

/-- The mark of a call lies strictly inside of it. -/
theorem liesInside_of_mem_callMarks {site : Site} (hordered : site.node.isOrdered = true)
    (hfits : Fits offsets base site) (hmark : mark ∈ callMarks base site) :
    LiesInside offsets site.node.start site.node.stop mark := by
  rw [callMarks] at hmark
  rw [Node.isOrdered_eq] at hordered
  have hbetween := liesBetween_of_mem_argumentMarks hmono hordered hmark
  obtain ⟨holder, hholder, hfirst⟩ := mem_argumentMarks.mp hmark
  obtain ⟨hbase, hargument⟩ := mem_firstMarks.mp hfirst
  obtain ⟨hstart, hstop⟩ :=
    ((hfits (by simp [hbase])).2 holder hholder).2 mark.2 hargument
  exact ⟨hstart, hbetween.2.1, hstop⟩

/-- A mark below a node lies strictly inside of it, unless it is the one that the node was given for
its first argument. -/
theorem mem_marks_cases (h : FitsBelow offsets base node path ancestors first)
    (hmark : mark ∈ marks base node path ancestors first) :
    LiesInside offsets node.start node.stop mark ∨ mark ∈ firstMarks first node.children := by
  rw [(marks_perm base node path ancestors first).mem_iff, List.mem_append, List.mem_flatMap] at hmark
  rcases hmark with hfirst | ⟨site, hsite, hcall⟩
  · exact .inr hfirst
  · obtain ⟨⟨hstart, hstop⟩, hordered⟩ :=
      @Site.within_of_mem_preorder ⟨node, path, ancestors⟩ site h.ordered hsite
    exact .inl ((liesInside_of_mem_callMarks hmono hordered (h.sites site hsite) hcall).mono hmono
      hstart hstop)

/-- A mark among siblings lies strictly inside one of them, unless it is one of the two that they were
given. -/
theorem mem_marksAll_cases
    (h : FitsBetween offsets base start stop nodes index path ancestors first arguments)
    (hmark : mark ∈ marksAll base nodes index path ancestors first arguments) :
    LiesInside offsets start stop mark ∨ mark ∈ firstMarks first nodes ∨
      mark ∈ argumentMarks arguments nodes := by
  rw [(marksAll_perm base nodes index path ancestors first arguments).mem_iff, List.mem_append,
    List.mem_append, List.mem_flatMap] at hmark
  rcases hmark with hgiven | ⟨site, hsite, hcall⟩
  · exact .inr hgiven
  · have hfits := h.sites site hsite
    rw [Node.preorders_eq_flatMap, List.mem_flatMap] at hsite
    obtain ⟨child, hchild, hbelow⟩ := hsite
    obtain ⟨⟨node, i⟩, hnode, rfl⟩ := List.mem_map.mp (List.mem_filter.mp hchild).1
    obtain ⟨hlower, hupper, hinner⟩ :=
      Node.within_of_areOrdered h.ordered (List.fst_mem_of_mem_zipIdx hnode)
    obtain ⟨⟨hstart, hstop⟩, hordered⟩ := Site.within_of_mem_preorder hinner hbelow
    exact .inl ((liesInside_of_mem_callMarks hmono hordered hfits hcall).mono hmono
      (hlower.trans hstart) (hstop.trans hupper))

theorem liesBetween_of_mem_marks (h : FitsBelow offsets base node path ancestors first)
    (hmark : mark ∈ marks base node path ancestors first) :
    LiesBetween offsets node.start node.stop mark := by
  rcases mem_marks_cases hmono h hmark with hinside | hfirst
  · exact hinside.liesBetween
  · exact liesBetween_of_mem_firstMarks hmono h.children.ordered hfirst

theorem liesBetween_of_mem_marksAll
    (h : FitsBetween offsets base start stop nodes index path ancestors first arguments)
    (hmark : mark ∈ marksAll base nodes index path ancestors first arguments) :
    LiesBetween offsets start stop mark := by
  rcases mem_marksAll_cases hmono h hmark with hinside | hfirst | hargument
  · exact hinside.liesBetween
  · exact liesBetween_of_mem_firstMarks hmono h.ordered hfirst
  · exact liesBetween_of_mem_argumentMarks hmono h.ordered hargument

theorem liesBetween_of_mem_head
    (h : FitsBetween offsets base start stop (node :: nodes) index path ancestors first arguments)
    (hmark : mark ∈ marks (if node.named then base else fun _ => none) node (index :: path) ancestors
        (if holdsArguments node then arguments else none) ++
      (if isArgument node then first else none).toList.map (·, node)) :
    LiesBetween offsets node.start node.stop mark := by
  rcases List.mem_append.mp hmark with hbelow | hself
  · exact liesBetween_of_mem_marks hmono h.head hbelow
  · obtain ⟨-, hordered, -⟩ := Node.areOrdered_cons_iff.mp h.ordered
    obtain ⟨relative, -, rfl⟩ := List.mem_map.mp hself
    exact ⟨le_rfl, hmono (Int.ofNat_le.mpr (node.start_le_stop hordered)), le_rfl⟩

/-- A mark inside an argument that is marked itself ends before it. -/
theorem stopIn_lt_of_isArgument
    (h : FitsBetween offsets base start stop (node :: nodes) index path ancestors first arguments)
    (hfirst : first ≠ none)
    (hmark : mark ∈ marks (if node.named then base else fun _ => none) node (index :: path) ancestors
      (if holdsArguments node then arguments else none)) :
    mark.2.stopIn offsets < node.stopIn offsets := by
  rcases mem_marks_cases hmono h.head hmark with hinside | hgiven
  · exact hinside.2.2
  · rw [h.single.resolve_left hfirst, ite_self] at hgiven
    simp at hgiven

/-- The marks of a sibling end before the marks of later siblings start. -/
theorem stopIn_lt_startIn
    (h : FitsBetween offsets base start stop (node :: nodes) index path ancestors first arguments)
    (hmark : mark ∈ headMarks base node index path ancestors first arguments)
    {later : String × Node}
    (hlater : later ∈ marksAll base nodes (index + 1) path ancestors
      (if isArgument node then none else first) (if holdsArguments node then none else arguments)) :
    mark.2.stopIn offsets < later.2.startIn offsets := by
  have hhead := liesBetween_of_mem_head hmono h hmark
  have htail := liesBetween_of_mem_marksAll hmono h.tail hlater
  -- if both touch the end of the node, one was given as the first and the other as an argument
  rcases mem_marksAll_cases hmono h.tail hlater with hinside | hgiven
  · exact hhead.2.2.trans_lt hinside.1
  · rcases List.mem_append.mp hmark with hbelow | hself
    · rcases mem_marks_cases hmono h.head hbelow with hinside | hfirst
      · exact hinside.2.2.trans_le htail.1
      · obtain ⟨hgiven', -⟩ := mem_firstMarks.mp hfirst
        obtain ⟨hholds, harguments⟩ := Option.ite_none_right_eq_some.mp hgiven'
        rw [if_pos hholds, h.single.resolve_right (by simp [harguments]), ite_self] at hgiven
        simp at hgiven
    · obtain ⟨relative, hrelative, -⟩ := List.mem_map.mp hself
      obtain ⟨hnode, hfirst⟩ := Option.ite_none_right_eq_some.mp (Option.mem_toList.mp hrelative)
      rw [if_pos hnode, h.single.resolve_left (by simp [hfirst]), ite_self] at hgiven
      simp at hgiven

end

end

mutual

/-- No two marks end at the same offset. -/
theorem pairwise_marks {base : Site → Option String} {offsets : Offsets}
    (hmono : KeepsOrder offsets) (node : Node) {path : List Nat}
    {ancestors : List Node} {first : Option String}
    (h : FitsBelow offsets base node path ancestors first) :
    (marks base node path ancestors first).Pairwise fun mark other =>
      mark.2.stopIn offsets ≠ other.2.stopIn offsets := by
  match node with
  | ⟨kind, start, stop, named, missing, field, children⟩ =>
    rw [marks]
    exact pairwise_marksAll hmono children h.children

theorem pairwise_marksAll {base : Site → Option String} {offsets : Offsets}
    (hmono : KeepsOrder offsets) (nodes : List Node)
    {start stop index : Nat} {path : List Nat} {ancestors : List Node}
    {first arguments : Option String}
    (h : FitsBetween offsets base start stop nodes index path ancestors first arguments) :
    (marksAll base nodes index path ancestors first arguments).Pairwise fun mark other =>
      mark.2.stopIn offsets ≠ other.2.stopIn offsets := by
  match nodes with
  | [] => exact .nil
  | node :: nodes =>
    rw [marksAll_cons, List.pairwise_append]
    refine ⟨?_, pairwise_marksAll hmono nodes h.tail, ?_⟩
    · rw [headMarks, List.pairwise_append]
      refine ⟨pairwise_marks hmono node h.head, ?_, ?_⟩
      · cases (if isArgument node then first else none) with
        | none => exact .nil
        | some relative => exact List.pairwise_singleton _ _
      · intro mark hmark other hother
        obtain ⟨relative, hrelative, rfl⟩ := List.mem_map.mp hother
        obtain ⟨-, hfirst⟩ := Option.ite_none_right_eq_some.mp (Option.mem_toList.mp hrelative)
        exact (stopIn_lt_of_isArgument hmono h (by simp [hfirst]) hmark).ne
    · intro mark hmark later hlater
      have hlt := stopIn_lt_startIn hmono h hmark hlater
      have hle := (liesBetween_of_mem_marksAll hmono h.tail hlater).2.1
      omega

end

/-! ## Weaving the wrappers -/

/-- What is written at an offset to wrap the marks that start or end there. -/
def wrappersOf (offsets : Offsets) (marks : List (String × Node)) (pos : Nat) : List Char :=
  (marks.filter (·.2.startIn offsets == pos)).flatMap (fun _ => urlStart) ++
    (marks.filter (·.2.stopIn offsets == pos)).flatMap (urlEnd ·.1)

section
variable {offsets : Offsets} {marks others : List (String × Node)} {pos : Nat}

theorem wrappersOf_eq_nil
    (h : ∀ mark ∈ marks, mark.2.startIn offsets ≠ pos ∧ mark.2.stopIn offsets ≠ pos) :
    wrappersOf offsets marks pos = [] := by
  have hstart : marks.filter (·.2.startIn offsets == pos) = [] := by
    rw [List.filter_eq_nil_iff]
    intro mark hmark hat
    exact (h mark hmark).1 (eq_of_beq hat)
  have hstop : marks.filter (·.2.stopIn offsets == pos) = [] := by
    rw [List.filter_eq_nil_iff]
    intro mark hmark hat
    exact (h mark hmark).2 (eq_of_beq hat)
  rw [wrappersOf, hstart, hstop]
  rfl

/-- Marks that end before others start are wrapped before them. -/
theorem wrappersOf_append (h : ∀ mark ∈ marks, ∀ other ∈ others,
      mark.2.stopIn offsets < other.2.startIn offsets) (pos : Nat) :
    wrappersOf offsets (marks ++ others) pos =
      wrappersOf offsets marks pos ++ wrappersOf offsets others pos := by
  -- either none of the first ends here or none of the others starts here
  have hnone : marks.filter (·.2.stopIn offsets == pos) = [] ∨
      others.filter (·.2.startIn offsets == pos) = [] := by
    by_contra hboth
    rw [not_or] at hboth
    obtain ⟨mark, hmark⟩ := List.exists_mem_of_ne_nil _ hboth.1
    obtain ⟨other, hother⟩ := List.exists_mem_of_ne_nil _ hboth.2
    rw [List.mem_filter, beq_iff_eq] at hmark hother
    have hlt := h mark hmark.1 other hother.1
    omega
  rw [wrappersOf, wrappersOf, wrappersOf, List.filter_append, List.filter_append]
  rcases hnone with hnone | hnone <;> simp [hnone]

/-- The wrapper of a node stands around what is written inside of it. -/
theorem wrappersOf_append_singleton (base : String) (node : Node) :
    wrappersOf offsets (marks ++ [(base, node)]) pos =
      (if node.startIn offsets = pos then urlStart else []) ++ wrappersOf offsets marks pos ++
        (if node.stopIn offsets = pos then urlEnd base else []) := by
  have hcomm : ∀ marks : List (String × Node),
      marks.flatMap (fun _ => urlStart) ++ urlStart = urlStart ++ marks.flatMap fun _ => urlStart := by
    intro marks
    induction marks with
    | nil => simp
    | cons mark marks ih => rw [List.flatMap_cons, List.append_assoc, ih]
  rw [wrappersOf, wrappersOf, List.filter_append, List.filter_append, List.flatMap_append,
    List.flatMap_append]
  by_cases hstart : node.startIn offsets = pos <;> by_cases hstop : node.stopIn offsets = pos <;>
    simp [hstart, hstop, ← List.append_assoc, hcomm]

/-- Where no two marks end at the same offset their order does not matter. -/
theorem wrappersOf_perm (h : marks.Perm others)
    (hstops : marks.Pairwise fun mark other => mark.2.stopIn offsets ≠ other.2.stopIn offsets)
    (pos : Nat) : wrappersOf offsets marks pos = wrappersOf offsets others pos := by
  have hopeners : (marks.filter (·.2.startIn offsets == pos)).flatMap (fun _ => urlStart) =
      (others.filter (·.2.startIn offsets == pos)).flatMap fun _ => urlStart := by
    rw [List.flatMap_def, List.flatMap_def, List.map_const', List.map_const',
      (h.filter _).length_eq]
  have hclosers : marks.filter (·.2.stopIn offsets == pos) =
      others.filter (·.2.stopIn offsets == pos) := by
    have hperm := h.filter (·.2.stopIn offsets == pos)
    have hone := hstops.filter (·.2.stopIn offsets == pos)
    have hat : ∀ mark ∈ marks.filter (·.2.stopIn offsets == pos), mark.2.stopIn offsets = pos :=
      fun mark hmark => eq_of_beq (List.mem_filter.mp hmark).2
    generalize marks.filter (·.2.stopIn offsets == pos) = here at hperm hone hat ⊢
    rcases here with _ | ⟨mark, _ | ⟨other, here⟩⟩
    · exact hperm.nil_eq
    · exact List.singleton_perm.mp hperm
    · have hne := (List.pairwise_cons.mp hone).1 other List.mem_cons_self
      rw [hat mark List.mem_cons_self, hat other (List.mem_cons_of_mem _ List.mem_cons_self)] at hne
      exact absurd rfl hne
  rw [wrappersOf, wrappersOf, hopeners, hclosers]

end

section
variable {offsets : Offsets} (hmono : KeepsOrder offsets)

include hmono in
theorem slice_append {start middle stop : Int} (hstart : start ≤ middle) (hstop : middle ≤ stop) :
    offsets.slice start middle ++ offsets.slice middle stop = offsets.slice start stop := by
  have hlower : offsets.char start ≤ offsets.char middle := hmono hstart
  have hupper : offsets.char middle ≤ offsets.char stop := hmono hstop
  have hwidth : offsets.char stop - offsets.char start =
      (offsets.char middle - offsets.char start) + (offsets.char stop - offsets.char middle) := by
    omega
  have hmiddle : offsets.char start + (offsets.char middle - offsets.char start) =
      offsets.char middle := by
    omega
  rw [Offsets.slice, Offsets.slice, Offsets.slice, hwidth, List.take_add, List.drop_drop, hmiddle]

include hmono in
theorem char_add_length_slice (hbound : ∀ byte : Int, offsets.char byte ≤ offsets.source.length)
    {start stop : Int} (hle : start ≤ stop) :
    offsets.char start + (offsets.slice start stop).length = offsets.char stop := by
  have hchars : offsets.char start ≤ offsets.char stop := hmono hle
  have hstop := hbound stop
  rw [Offsets.slice, List.length_take, List.length_drop]
  omega

end

/-- Wrapping a node puts its wrapper around the text of the node. -/
theorem weave_inUrl {offsets : Offsets} (hmono : KeepsOrder offsets)
    (hbound : ∀ byte : Int, offsets.char byte ≤ offsets.source.length)
    (marks : List (String × Node)) (base : Option String) {node : Node}
    (hwidth : node.start ≤ node.stop) :
    weave (wrappersOf offsets (marks ++ base.toList.map (·, node))) (fun _ => false)
        (offsets.char node.start) (offsets.slice node.start node.stop) =
      inUrl base (weave (wrappersOf offsets marks) (fun _ => false) (offsets.char node.start)
        (offsets.slice node.start node.stop)) := by
  cases base with
  | none =>
    rw [Option.toList_none, List.map_nil, List.append_nil]
    rfl
  | some base =>
    have hlength := char_add_length_slice hmono hbound (Int.ofNat_le.mpr hwidth)
    have hlast : weave (fun pos => wrappersOf offsets marks pos ++
          (if node.stopIn offsets = pos then urlEnd base else [])) (fun _ => false)
          (offsets.char node.start) (offsets.slice node.start node.stop) =
        weave (wrappersOf offsets marks) (fun _ => false) (offsets.char node.start)
          (offsets.slice node.start node.stop) ++ urlEnd base := by
      apply weave_append_value
      · rw [hlength, Node.stopIn, if_pos rfl]
      · intro pos _ hpos
        rw [hlength] at hpos
        rw [Node.stopIn, if_neg hpos.ne', List.append_nil]
    rw [inUrl, List.append_assoc, ← hlast]
    apply weave_cons_value
    · rw [Option.toList_some, List.map_singleton, wrappersOf_append_singleton, Node.startIn,
        if_pos rfl, List.append_assoc]
    · intro pos hpos
      rw [Option.toList_some, List.map_singleton, wrappersOf_append_singleton, Node.startIn,
        if_neg hpos.ne, List.nil_append]
    · exact fun _ _ => rfl

mutual

/-- The recursion weaves the wrappers of its marks into the source. -/
theorem weave_addressed {base : Site → Option String} {offsets : Offsets}
    (hmono : KeepsOrder offsets)
    (hbound : ∀ byte : Int, offsets.char byte ≤ offsets.source.length) (node : Node) {path : List Nat}
    {ancestors : List Node} {first : Option String}
    (h : FitsBelow offsets base node path ancestors first) :
    weave (wrappersOf offsets (marks base node path ancestors first)) (fun _ => false)
        (offsets.char node.start) (offsets.slice node.start node.stop) =
      addressed base offsets node path ancestors first := by
  match node with
  | ⟨kind, start, stop, named, missing, field, children⟩ =>
    rw [marks, addressed]
    exact weave_addressedAll hmono hbound children h.children

theorem weave_addressedAll {base : Site → Option String} {offsets : Offsets}
    (hmono : KeepsOrder offsets)
    (hbound : ∀ byte : Int, offsets.char byte ≤ offsets.source.length) (nodes : List Node)
    {start stop index : Nat} {path : List Nat} {ancestors : List Node}
    {first arguments : Option String}
    (h : FitsBetween offsets base start stop nodes index path ancestors first arguments) :
    weave (wrappersOf offsets (marksAll base nodes index path ancestors first arguments))
        (fun _ => false) (offsets.char start) (offsets.slice start stop) =
      addressedAll base offsets start stop nodes index path ancestors first arguments := by
  match nodes with
  | [] =>
    rw [marksAll, addressedAll]
    exact weave_of_nothing (fun _ _ _ => rfl) (fun _ _ _ => rfl)
  | node :: nodes =>
    obtain ⟨hstart, hinner, hrest⟩ := Node.areOrdered_cons_iff.mp h.ordered
    have hwidth := node.start_le_stop hinner
    have hstop := Node.le_of_areOrdered nodes hrest
    -- nothing is written in the gap before the node, and all marks of the node come first
    have hgap : weave (wrappersOf offsets (headMarks base node index path ancestors first arguments))
          (fun _ => false) (offsets.char start) (offsets.slice start node.stop) =
        offsets.slice start node.start ++
          weave (wrappersOf offsets (headMarks base node index path ancestors first arguments))
            (fun _ => false) (offsets.char node.start) (offsets.slice node.start node.stop) := by
      have hlength := char_add_length_slice hmono hbound (Int.ofNat_le.mpr hstart)
      rw [← slice_append hmono (Int.ofNat_le.mpr hstart) (Int.ofNat_le.mpr hwidth),
        weave_kept_append ?_ (fun _ _ _ => rfl), hlength]
      intro pos _ hpos
      apply wrappersOf_eq_nil
      intro mark hmark
      obtain ⟨hfirst, hle, -⟩ := liesBetween_of_mem_head hmono h hmark
      omega
    have hsplit : weave (wrappersOf offsets (marksAll base (node :: nodes) index path ancestors first
            arguments)) (fun _ => false) (offsets.char start) (offsets.slice start stop) =
        weave (wrappersOf offsets (headMarks base node index path ancestors first arguments))
            (fun _ => false) (offsets.char start) (offsets.slice start node.stop) ++
          weave (wrappersOf offsets (marksAll base nodes (index + 1) path ancestors
            (if isArgument node then none else first)
            (if holdsArguments node then none else arguments)))
            (fun _ => false) (offsets.char node.stop) (offsets.slice node.stop stop) := by
      have hlength := char_add_length_slice hmono hbound (Int.ofNat_le.mpr (hstart.trans hwidth))
      rw [marksAll_cons, funext (wrappersOf_append fun mark hmark later hlater =>
        stopIn_lt_startIn hmono h hmark hlater),
        ← slice_append hmono (Int.ofNat_le.mpr (hstart.trans hwidth)) (Int.ofNat_le.mpr hstop),
        weave_append, hlength]
      · intro pos hpos
        apply wrappersOf_eq_nil
        intro mark hmark
        obtain ⟨-, hle, hlast⟩ := liesBetween_of_mem_head hmono h hmark
        omega
      · intro pos hpos
        apply wrappersOf_eq_nil
        intro mark hmark
        obtain ⟨hfirst, hle, -⟩ := liesBetween_of_mem_marksAll hmono h.tail hmark
        omega
    rw [hsplit, hgap, weave_addressedAll hmono hbound nodes h.tail, addressedAll, headMarks,
      weave_inUrl hmono hbound _ _ hwidth, weave_addressed hmono hbound node h.head]

end

/-! ## Resolving addresses -/

/-- A cell whose tree follows its text: the first argument of every call lies strictly inside the
call, and what holds the arguments of a dynamic import is no call itself. -/
structure Script.Cell.IsNested (cell : Script.Cell) : Prop where
  offsets_eq : ∃ shift, cell.offsets = .ofSource cell.source shift
  ordered : cell.body.isOrdered = true
  strict : ∀ call ∈ cell.body.walkAll, ∀ argument ∈ firstArgument? call,
    call.startIn cell.offsets < argument.startIn cell.offsets ∧
      argument.stopIn cell.offsets < call.stopIn cell.offsets
  holder : ∀ call ∈ cell.body.walkAll, importsLocal cell.offsets call = true →
    ∀ holder ∈ call.child? .arguments, holder.kind ≠ .callExpression

theorem Script.Cell.IsNested.fits {cell : Script.Cell} (h : cell.IsNested) (options : Options) :
    FitsBelow cell.offsets (baseOf cell options) cell.body [] [] none := by
  refine ⟨h.ordered, .inl rfl, ?_⟩
  intro call hcall hbase
  have hsites : call ∈ cell.body.sites := by
    rw [Node.sites_eq_preorder]
    exact hcall
  have hwalk : call.node ∈ cell.body.walkAll := by
    rw [← Node.map_node_sites]
    exact List.mem_map_of_mem hsites
  obtain ⟨base, hbase⟩ := Option.ne_none_iff_exists'.mp hbase
  obtain ⟨argument, hargument⟩ := exists_firstArgument? hbase
  have hkind : call.node.kind = .callExpression := by
    by_contra hother
    rw [firstArgument?, if_neg (by simpa using hother)] at hargument
    cases hargument
  refine ⟨hkind, fun holder hholder => ⟨?_, fun argument hargument => h.strict _ hwalk _ ?_⟩⟩
  · rw [baseOf] at hbase
    split at hbase
    · next himport =>
      exact h.holder _ hwalk (Bool.and_eq_true_iff.mp himport).2 holder hholder
    · split at hbase
      · next hattach =>
        have hchild : call.node.child? .arguments = some holder := hholder
        have hattach := (Bool.and_eq_true_iff.mp hattach).2
        rw [attachesFile, hchild, Bool.and_eq_true, Bool.and_eq_true] at hattach
        have harguments : holder.kind = .arguments := eq_of_beq hattach.1.2
        rw [harguments]
        decide
      · cases hbase
  · have hchild : call.node.child? .arguments = some holder := hholder
    rw [Option.mem_def, firstArgument?, hkind, hchild]
    exact (firstExpression?_eq holder).trans hargument

theorem Script.Cell.IsNested.mono {cell : Script.Cell} (h : cell.IsNested) :
    KeepsOrder cell.offsets := by
  obtain ⟨shift, hoffsets⟩ := h.offsets_eq
  intro byte byte' hle
  rw [hoffsets]
  exact Offsets.char_mono cell.source shift hle

theorem Script.Cell.IsNested.char_le {cell : Script.Cell} (h : cell.IsNested) (byte : Int) :
    cell.offsets.char byte ≤ cell.source.length := by
  obtain ⟨shift, hoffsets⟩ := h.offsets_eq
  rw [hoffsets]
  exact Offsets.char_le cell.source shift byte

theorem Script.Cell.IsNested.source_eq {cell : Script.Cell} (h : cell.IsNested) :
    cell.offsets.source = cell.source := by
  obtain ⟨shift, hoffsets⟩ := h.offsets_eq
  rw [hoffsets]
  rfl

/-- What is written for the addresses of a cell is what the recursion marks. -/
theorem wrappersAt_eq_wrappersOf {cell : Script.Cell} (h : cell.IsNested) (options : Options) :
    wrappersAt cell options =
      wrappersOf cell.offsets (marks (baseOf cell options) cell.body [] [] none) := by
  have hperm := marks_perm (baseOf cell options) cell.body [] [] none
  rw [firstMarks_none, List.nil_append] at hperm
  have hsites : (cell.body.preorder [] []).flatMap (callMarks (baseOf cell options)) =
      cell.body.sites.flatMap (callMarks (baseOf cell options)) := by
    rw [Node.sites_eq_preorder]
    rfl
  rw [hsites] at hperm
  funext pos
  exact (wrappersOf_perm (hperm.trans (callMarks_perm cell options))
    (pairwise_marks h.mono cell.body (h.fits options)) pos).symm

/-- The source with the wrappers of its addresses. -/
theorem weave_wrappersAt {cell : Script.Cell} (h : cell.IsNested) (options : Options) :
    weave (wrappersAt cell options) (fun _ => false) 0 cell.source =
      cell.source.take (cell.body.startIn cell.offsets) ++
        addressed (baseOf cell options) cell.offsets cell.body [] [] none ++
        cell.source.drop (cell.body.stopIn cell.offsets) := by
  have hfits := h.fits options
  have hwidth : cell.body.startIn cell.offsets ≤ cell.body.stopIn cell.offsets :=
    h.mono (Int.ofNat_le.mpr (cell.body.start_le_stop h.ordered))
  have hbound : ∀ byte : Int, cell.offsets.char byte ≤ cell.offsets.source.length := by
    rw [h.source_eq]
    exact h.char_le
  have hsource : cell.source = cell.source.take (cell.body.startIn cell.offsets) ++
      (cell.offsets.slice cell.body.start cell.body.stop ++
        cell.source.drop (cell.body.stopIn cell.offsets)) := by
    have hrest : cell.source.drop (cell.body.stopIn cell.offsets) =
        (cell.source.drop (cell.body.startIn cell.offsets)).drop
          (cell.body.stopIn cell.offsets - cell.body.startIn cell.offsets) := by
      rw [List.drop_drop, Nat.add_sub_cancel' hwidth]
    have hslice : cell.offsets.slice cell.body.start cell.body.stop =
        (cell.source.drop (cell.body.startIn cell.offsets)).take
          (cell.body.stopIn cell.offsets - cell.body.startIn cell.offsets) := by
      rw [Offsets.slice, h.source_eq]
      rfl
    rw [hrest, hslice, List.take_append_drop, List.take_append_drop]
  have hlength : (cell.source.take (cell.body.startIn cell.offsets)).length =
      cell.body.startIn cell.offsets := List.length_take_of_le (h.char_le _)
  have hend : cell.body.startIn cell.offsets +
      (cell.offsets.slice cell.body.start cell.body.stop).length = cell.body.stopIn cell.offsets :=
    char_add_length_slice h.mono hbound (Int.ofNat_le.mpr (cell.body.start_le_stop h.ordered))
  have hoff (pos : Nat) (hpos : pos < cell.body.startIn cell.offsets ∨
      cell.body.stopIn cell.offsets < pos) :
      wrappersOf cell.offsets (marks (baseOf cell options) cell.body [] [] none) pos = [] := by
    apply wrappersOf_eq_nil
    intro mark hmark
    obtain ⟨hfirst, hle, hlast⟩ := liesBetween_of_mem_marks h.mono hfits hmark
    rw [Node.startIn, Node.stopIn] at hpos
    omega
  rw [wrappersAt_eq_wrappersOf h]
  nth_rewrite 1 [hsource]
  rw [weave_kept_append, hlength, Nat.zero_add, weave_append_kept, List.append_assoc]
  · rw [← weave_addressed h.mono hbound cell.body hfits]
    rfl
  · intro pos hpos
    rw [hend] at hpos
    exact hoff pos (.inr hpos)
  · exact fun _ => rfl
  · intro pos _ hpos
    rw [hlength, Nat.zero_add] at hpos
    exact hoff pos (.inl hpos)
  · exact fun _ _ _ => rfl

/-- Resolving the addresses of a cell wraps the first argument of each call that has a base, by
recursion on the tree; everything else is copied. A call of something that the cell itself declares
attaches no file. -/
theorem text_resolutions (cell : Script.Cell) (h : cell.IsNested) (options : Options) :
    (∃ buffer, (Buffer.ofSource cell.source).runAll (resolutions cell options) = .ok buffer ∧
      buffer.text = cell.source.take (cell.body.startIn cell.offsets) ++
        addressed (baseOf cell options) cell.offsets cell.body [] [] none ++
        cell.source.drop (cell.body.stopIn cell.offsets)) ∧
    ∀ call ∈ cell.body.sites, ∀ callee ∈ call.child? .function,
      Scope.isDeclaredAbove cell.name callee = true → baseOf cell options call ≠ some moduleBase := by
  constructor
  · obtain ⟨shift, hoffsets⟩ := h.offsets_eq
    have hinserts : ∀ operation ∈ resolutions cell options, operation.Inserts cell.source := by
      intro operation hoperation
      apply inserts_insertions hoffsets options []
      exact List.mem_append_right _ (List.mem_append_left _ hoperation)
    obtain ⟨buffer, hrun⟩ := @exists_runAll_of_inserts (.ofSource cell.source) _ hinserts
    refine ⟨buffer, hrun, ?_⟩
    rw [text_eq_weave hrun, ← weave_wrappersAt h]
    congr 1
    · funext pos
      exact valuesOn_resolutions cell options pos
    · funext pos
      exact isCovered_resolutions cell options pos
  · intro call _ callee hcallee hdeclared
    have hattach : attachesFile cell.name call = false := by
      rw [attachesFile, Option.mem_def.mp hcallee]
      simp [isAttachmentName, hdeclared]
    rw [baseOf, hattach]
    split
    · decide
    · simp

/-- A dynamic import inside of what is made the address of a file, in a call of a parameter with the name
of attachments. -/
theorem text_resolutions_calls :
    let source := "FileAttachment(FileAttachment=>[FileAttachment(import('/é'))])".toList
    let options : Options := { resolveLocalImports := true, resolveFiles := true }
    ∃ cell buffer, parseCell source = .ok cell ∧ cell.IsNested ∧
      (Buffer.ofSource cell.source).runAll (resolutions cell options) = .ok buffer ∧
      buffer.text = ("FileAttachment(new URL(FileAttachment=>[FileAttachment(import(new URL('/é', " ++
        "document.baseURI).href))], import.meta.url).href)").toList := by
  intro source options
  have hparsed : (parseCell source).toOption.map (fun cell => (cell.body.isOrdered,
      decide (∀ call ∈ cell.body.walkAll, ∀ argument ∈ firstArgument? call,
        call.startIn cell.offsets < argument.startIn cell.offsets ∧
          argument.stopIn cell.offsets < call.stopIn cell.offsets),
      decide (∀ call ∈ cell.body.walkAll, importsLocal cell.offsets call = true →
        ∀ holder ∈ call.child? .arguments, holder.kind ≠ .callExpression),
      cell.source.take (cell.body.startIn cell.offsets) ++
        addressed (baseOf cell options) cell.offsets cell.body [] [] none ++
        cell.source.drop (cell.body.stopIn cell.offsets))) =
      some (true, true, true,
        ("FileAttachment(new URL(FileAttachment=>[FileAttachment(import(new URL('/é', " ++
        "document.baseURI).href))], import.meta.url).href)").toList) := by
    decide +kernel
  obtain ⟨cell, hcell, hflags⟩ := Option.map_eq_some_iff.mp hparsed
  simp only [Prod.mk.injEq, decide_eq_true_eq] at hflags
  obtain ⟨hordered, hstrict, hholder, htext⟩ := hflags
  have hok := eq_ok_of_toOption hcell
  have hnested : cell.IsNested := ⟨⟨_, offsets_of_parseCell hok⟩, hordered, hstrict, hholder⟩
  obtain ⟨⟨buffer, hrun, hbuffer⟩, -⟩ := text_resolutions cell hnested options
  exact ⟨cell, buffer, hok, hnested, hrun, hbuffer.trans htext⟩

/-- A dynamic import whose arguments are held by another one. -/
def sharedArguments : Script.Cell :=
  let source := "import(\"./a\"\"./b\"import)".toList
  { source, text := source, isExpression := true, offsets := .ofSource source 0
    references := [], declarations := [], isAsync := false, isGenerator := false
    body := ⟨.callExpression, 0, 24, true, false, none, [
      ⟨.importWord, 0, 6, true, false, some .function, []⟩,
      ⟨.callExpression, 6, 24, true, false, some .arguments, [
        ⟨.string, 7, 12, true, false, none, []⟩,
        ⟨.arguments, 12, 17, true, false, some .arguments, [
          ⟨.string, 12, 17, true, false, none, []⟩]⟩,
        ⟨.importWord, 17, 23, true, false, some .function, []⟩]⟩]⟩ }

/-- Where the arguments of a dynamic import are a call themselves, its first argument can end where that
of the inner call starts. The wrappers of the two then cross. -/
theorem resolutions_sharedArguments :
    let options : Options := { resolveLocalImports := true }
    sharedArguments.offsets = .ofSource sharedArguments.source 0 ∧
    sharedArguments.body.isOrdered = true ∧
    (∀ call ∈ sharedArguments.body.walkAll, ∀ argument ∈ firstArgument? call,
      call.startIn sharedArguments.offsets < argument.startIn sharedArguments.offsets ∧
        argument.stopIn sharedArguments.offsets < call.stopIn sharedArguments.offsets) ∧
    ((Buffer.ofSource sharedArguments.source).runAll
        (resolutions sharedArguments options)).toOption.map Buffer.text =
      some ("import(new URL(\"./a\"new URL(, document.baseURI).href\"./b\", document.baseURI)" ++
        ".hrefimport)").toList ∧
    addressed (baseOf sharedArguments options) sharedArguments.offsets sharedArguments.body [] [] none =
      ("import(new URL(\"./a\", document.baseURI).hrefnew URL(\"./b\", document.baseURI)" ++
        ".hrefimport)").toList := by
  refine ⟨rfl, by decide +kernel, by decide +kernel, by decide +kernel, by decide +kernel⟩

end NotebookCell
