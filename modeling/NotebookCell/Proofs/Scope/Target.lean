import NotebookCell.Proofs.Tree.Above
import NotebookCell.Scope.Assignment

/-!
# What assignments write to

`Assigns` says which nodes assign and to what, `Writes` which names an assignment to a target writes
to: those that are reached through patterns, literals, the values of pairs, rest and spread elements,
the left sides of defaults and parentheses. Keys, default values and the objects of members are not
written.

* `assigns_iff`, `mem_leaves_iff`: the relations say what is looked for in a tree;
* `assignmentFault?_eq_none_iff`: no fault is found if no foreign name is written;
* `first_of_assignmentFault?`: a fault is about the first foreign name that is written.
-/

namespace NotebookCell.Scope

open NotebookCell.Tree NotebookCell.Text

/-! ## Targets -/

/-- The node at `site` assigns to the one at `target`. -/
inductive Assigns (site target : Site) : Prop
  /-- An assignment, or a pattern with a default value. -/
  | left (hkind : [Kind.assignmentExpression, .augmentedAssignmentExpression, .assignmentPattern,
      .objectAssignmentPattern].contains site.node.kind = true)
      (htarget : site.child? .left = some target)
  /-- An increment or a decrement. -/
  | argument (hkind : site.node.kind = .updateExpression)
      (htarget : site.child? .argument = some target)
  /-- A loop over elements or keys that does not declare its variable. -/
  | loop (hkind : site.node.kind = .forInStatement) (hkeyword : site.child? .kind = none)
      (htarget : site.child? .left = some target)

section
variable {site target child leaf : Site}

theorem assigns_iff : Assigns site target ↔ target? site = some target := by
  constructor
  · intro h
    unfold target?
    cases h with
    | left hkind htarget =>
      simp only [List.contains_eq_mem, List.mem_cons, List.not_mem_nil, or_false,
        decide_eq_true_eq] at hkind
      rcases hkind with hkind | hkind | hkind | hkind <;> rw [hkind] <;> exact htarget
    | argument hkind htarget => rw [hkind]; exact htarget
    | loop hkind hkeyword htarget => rw [hkind, hkeyword]; exact htarget
  · intro h
    unfold target? at h
    split at h
    case h_1 hkind | h_2 hkind | h_3 hkind | h_4 hkind => exact .left (by rw [hkind]; rfl) h
    case h_5 hkind => exact .argument hkind h
    case h_6 hkind =>
      split at h
      · next hkeyword => exact .loop hkind (Option.isNone_iff_eq_none.mp hkeyword) h
      · cases h
    case h_7 => cases h

/-- The target of an assignment is one of its parts. -/
theorem mem_children_of_assigns (h : Assigns site target) : target ∈ site.children := by
  cases h with
  | left _ htarget => exact List.mem_of_find?_eq_some htarget
  | argument _ htarget => exact List.mem_of_find?_eq_some htarget
  | loop _ _ htarget => exact List.mem_of_find?_eq_some htarget

/-! ## Leaves -/

/-- The kinds of nodes that are written by their name. -/
def isLeafKind (kind : Kind) : Bool :=
  [.identifier, .shorthandPropertyIdentifier, .shorthandPropertyIdentifierPattern,
    .undefinedWord].contains kind

/-- The kinds of nodes that are written in all their parts. -/
def isContainer (kind : Kind) : Bool :=
  [.objectPattern, .arrayPattern, .restPattern, .object, .array, .spreadElement,
    .parenthesizedExpression].contains kind

theorem isLeafKind_iff {kind : Kind} :
    isLeafKind kind = true ↔ kind = .identifier ∨ kind = .shorthandPropertyIdentifier ∨
      kind = .shorthandPropertyIdentifierPattern ∨ kind = .undefinedWord := by
  simp [isLeafKind]

theorem isContainer_iff {kind : Kind} :
    isContainer kind = true ↔ kind = .objectPattern ∨ kind = .arrayPattern ∨ kind = .restPattern ∨
      kind = .object ∨ kind = .array ∨ kind = .spreadElement ∨ kind = .parenthesizedExpression := by
  simp [isContainer]

/-- An assignment to the first site writes to the second one by its name. -/
inductive Writes : Site → Site → Prop
  | here {site : Site} (hkind : isLeafKind site.node.kind = true) : Writes site site
  /-- Of a pair the value is written, not the key. -/
  | value {site child leaf : Site}
      (hkind : site.node.kind = .pairPattern ∨ site.node.kind = .pair)
      (hchild : site.child? .value = some child) (hleaf : Writes child leaf) : Writes site leaf
  /-- Of a pattern with a default the left side is written. -/
  | left {site child leaf : Site}
      (hkind : site.node.kind = .assignmentPattern ∨ site.node.kind = .objectAssignmentPattern)
      (hchild : site.child? .left = some child) (hleaf : Writes child leaf) : Writes site leaf
  | part {site child leaf : Site} (hkind : isContainer site.node.kind = true)
      (hchild : child ∈ site.namedChildren) (hleaf : Writes child leaf) : Writes site leaf

theorem isLeafKind_of_writes (h : Writes site leaf) : isLeafKind leaf.node.kind = true := by
  induction h with
  | here hkind => exact hkind
  | value _ _ _ ih => exact ih
  | left _ _ _ ih => exact ih
  | part _ _ _ ih => exact ih

variable {entry : Node × List Nat}

theorem mem_leavesAs_iff {field : Field} {nodes : List Node} {index : Nat} {path : List Nat} :
    entry ∈ leavesAs field nodes index path ↔
      ∃ child, (nodes.zipIdx index).find? (fun child => child.1.field == some field) = some child ∧
        entry ∈ leaves child.1 (child.2 :: path) := by
  induction nodes generalizing index with
  | nil => simp [leavesAs]
  | cons node nodes ih =>
    rw [leavesAs, List.zipIdx_cons, List.find?_cons]
    dsimp only
    cases node.field == some field with
    | true => simp
    | false => exact ih

theorem mem_leavesAll_iff {nodes : List Node} {index : Nat} {path : List Nat} :
    entry ∈ leavesAll nodes index path ↔ ∃ child ∈ nodes.zipIdx index, child.1.named = true ∧
      entry ∈ leaves child.1 (child.2 :: path) := by
  induction nodes generalizing index with
  | nil => simp [leavesAll]
  | cons node nodes ih =>
    rw [leavesAll, List.mem_append, ih, List.zipIdx_cons, List.exists_mem_cons_iff]
    cases node.named <;> simp

theorem mem_leavesAs_children_iff {field : Field} :
    entry ∈ leavesAs field site.node.children 0 site.path ↔
      ∃ child, site.child? field = some child ∧ entry ∈ leaves child.node child.path := by
  rw [mem_leavesAs_iff, Site.child?, Site.children, List.find?_map]
  simp only [Option.map_eq_some_iff]
  constructor
  · rintro ⟨child, hchild, hentry⟩
    exact ⟨_, ⟨child, hchild, rfl⟩, hentry⟩
  · rintro ⟨_, ⟨child, hchild, rfl⟩, hentry⟩
    exact ⟨child, hchild, hentry⟩

theorem mem_leavesAll_children_iff :
    entry ∈ leavesAll site.node.children 0 site.path ↔
      ∃ child ∈ site.namedChildren, entry ∈ leaves child.node child.path := by
  rw [mem_leavesAll_iff]
  constructor
  · rintro ⟨child, hchild, hnamed, hentry⟩
    exact ⟨_, List.mem_filter.mpr ⟨List.mem_map_of_mem hchild, hnamed⟩, hentry⟩
  · rintro ⟨child, hchild, hentry⟩
    obtain ⟨hmem, hnamed⟩ := List.mem_filter.mp hchild
    obtain ⟨part, hpart, rfl⟩ := List.mem_map.mp hmem
    exact ⟨part, hpart, hnamed, hentry⟩

/-- The leaves that are collected at a site are those of its parts that are written. -/
theorem mem_leaves_site_iff :
    entry ∈ leaves site.node site.path ↔
      (isLeafKind site.node.kind = true ∧ entry = (site.node, site.path)) ∨
      ((site.node.kind = .pairPattern ∨ site.node.kind = .pair) ∧
        ∃ child, site.child? .value = some child ∧ entry ∈ leaves child.node child.path) ∨
      ((site.node.kind = .assignmentPattern ∨ site.node.kind = .objectAssignmentPattern) ∧
        ∃ child, site.child? .left = some child ∧ entry ∈ leaves child.node child.path) ∨
      (isContainer site.node.kind = true ∧
        ∃ child ∈ site.namedChildren, entry ∈ leaves child.node child.path) := by
  rw [← mem_leavesAs_children_iff, ← mem_leavesAs_children_iff, ← mem_leavesAll_children_iff]
  obtain ⟨⟨kind, start, stop, named, missing, field, children⟩, path, ancestors⟩ := site
  dsimp only
  rw [leaves.eq_def]
  dsimp only
  split <;> simp_all [isLeafKind, isContainer]

/-- The leaves of a target are the names that an assignment to it writes to. -/
theorem mem_leaves_iff :
    entry ∈ leaves site.node site.path ↔
      ∃ leaf, Writes site leaf ∧ entry = (leaf.node, leaf.path) := by
  constructor
  · -- the parts that are written are smaller than the whole
    intro h
    induction hsize : site.node.size using Nat.strongRecOn generalizing site with
    | ind size ih =>
      rcases mem_leaves_site_iff.mp h with ⟨hkind, hentry⟩ | ⟨hkind, child, hchild, hentry⟩ |
        ⟨hkind, child, hchild, hentry⟩ | ⟨hkind, child, hchild, hentry⟩
      · exact ⟨site, .here hkind, hentry⟩
      · have hlt := Site.size_lt_of_mem_children (List.mem_of_find?_eq_some hchild)
        obtain ⟨leaf, hleaf, hentry⟩ := ih _ (hsize ▸ hlt) hentry rfl
        exact ⟨leaf, .value hkind hchild hleaf, hentry⟩
      · have hlt := Site.size_lt_of_mem_children (List.mem_of_find?_eq_some hchild)
        obtain ⟨leaf, hleaf, hentry⟩ := ih _ (hsize ▸ hlt) hentry rfl
        exact ⟨leaf, .left hkind hchild hleaf, hentry⟩
      · have hlt := Site.size_lt_of_mem_namedChildren hchild
        obtain ⟨leaf, hleaf, hentry⟩ := ih _ (hsize ▸ hlt) hentry rfl
        exact ⟨leaf, .part hkind hchild hleaf, hentry⟩
  · rintro ⟨leaf, hleaf, rfl⟩
    induction hleaf with
    | here hkind => exact mem_leaves_site_iff.mpr (.inl ⟨hkind, rfl⟩)
    | value hkind hchild _ ih =>
      exact mem_leaves_site_iff.mpr (.inr (.inl ⟨hkind, _, hchild, ih⟩))
    | left hkind hchild _ ih =>
      exact mem_leaves_site_iff.mpr (.inr (.inr (.inl ⟨hkind, _, hchild, ih⟩)))
    | part hkind hchild _ ih =>
      exact mem_leaves_site_iff.mpr (.inr (.inr (.inr ⟨hkind, _, hchild, ih⟩)))

end

/-! ## Faults -/

section
variable (name : Node → String) (references : List Site)

/-- A site is one of the references: the nodes of a tree are told apart by their paths. -/
def IsReference (leaf : Site) : Prop :=
  ∃ reference ∈ references, reference.path = leaf.path

/-- What a cell must not assign: a reference to another cell, or a name of the host. -/
def Foreign (leaf : Site) : Prop :=
  IsReference references leaf ∨ isHostName (name leaf.node) = true

/-- What is wrong with writing to a leaf. -/
inductive Wrongs (leaf : Site) : Cause → Prop
  | external (h : IsReference references leaf) : Wrongs leaf (.assignsExternal (name leaf.node))
  | global (h : ¬ IsReference references leaf) (hhost : isHostName (name leaf.node) = true) :
    Wrongs leaf (.assignsGlobal (name leaf.node))

end

section
variable {name : Node → String} {references : List Site} {site target leaf : Site}

theorem violation?_eq_some_iff {cause : Cause} :
    violation? name (references.map (·.path)) (leaf.node, leaf.path) = some cause ↔
      Wrongs name references leaf cause := by
  have hreference : (references.map (·.path)).contains leaf.path = true ↔
      IsReference references leaf := by
    rw [List.contains_iff_mem, List.mem_map, IsReference]
  unfold violation?
  dsimp only
  by_cases h : IsReference references leaf
  · rw [if_pos (hreference.mpr h), Option.some_inj]
    constructor
    · rintro rfl
      exact .external h
    · rintro (_ | hno)
      · rfl
      · exact absurd h hno
  · rw [if_neg fun htrue => h (hreference.mp htrue)]
    split
    · next hhost =>
      rw [Option.some_inj]
      constructor
      · rintro rfl
        exact .global h hhost
      · rintro (hyes | _)
        · exact absurd hyes h
        · rfl
    · next hhost =>
      constructor
      · intro hnone
        cases hnone
      · rintro (hyes | ⟨-, hyes⟩)
        · exact absurd hyes h
        · exact absurd hyes hhost

theorem foreign_iff : Foreign name references leaf ↔ ∃ cause, Wrongs name references leaf cause := by
  constructor
  · intro h
    by_cases hreference : IsReference references leaf
    · exact ⟨_, .external hreference⟩
    · exact ⟨_, .global hreference (h.resolve_left hreference)⟩
  · rintro ⟨_, hreference | ⟨-, hhost⟩⟩
    · exact .inl hreference
    · exact .inr hhost

theorem violation?_eq_none_iff :
    violation? name (references.map (·.path)) (leaf.node, leaf.path) = none ↔
      ¬ Foreign name references leaf := by
  rw [foreign_iff, not_exists, Option.eq_none_iff_forall_ne_some]
  simp only [ne_eq, violation?_eq_some_iff]

/-- What the assignments of a tree write to. -/
theorem mem_assignedLeaves_iff {root : Node} {entry : Node × List Nat} :
    entry ∈ assignedLeaves root ↔ ∃ site ∈ root.sites, ∃ target leaf, Assigns site target ∧
      Writes target leaf ∧ entry = (leaf.node, leaf.path) := by
  simp only [assignedLeaves, List.mem_flatMap, List.mem_filterMap, ← assigns_iff, mem_leaves_iff]
  constructor
  · rintro ⟨target, ⟨site, hsite, htarget⟩, leaf, hleaf, hentry⟩
    exact ⟨site, hsite, target, leaf, htarget, hleaf, hentry⟩
  · rintro ⟨site, hsite, target, leaf, htarget, hleaf, hentry⟩
    exact ⟨target, ⟨site, hsite, htarget⟩, leaf, hleaf, hentry⟩

variable {offsets : Offsets} {root : Node}

/-- No fault is found exactly if no assignment writes to something foreign. -/
theorem assignmentFault?_eq_none_iff :
    assignmentFault? name offsets root references = none ↔
      ∀ site ∈ root.sites, ∀ target leaf, Assigns site target → Writes target leaf →
        ¬ Foreign name references leaf := by
  rw [assignmentFault?, List.findSome?_eq_none_iff]
  constructor
  · intro h site hsite target leaf htarget hleaf
    have hnone := h _ (mem_assignedLeaves_iff.mpr ⟨site, hsite, target, leaf, htarget, hleaf, rfl⟩)
    exact violation?_eq_none_iff.mp (Option.map_eq_none_iff.mp hnone)
  · intro h entry hentry
    obtain ⟨site, hsite, target, leaf, htarget, hleaf, rfl⟩ := mem_assignedLeaves_iff.mp hentry
    exact Option.map_eq_none_iff.mpr
      (violation?_eq_none_iff.mpr (h site hsite target leaf htarget hleaf))

/-- What is found first in joined lists is found first in one of them. -/
theorem findSome?_flatMap {α β γ : Type} (f : β → Option γ) (g : α → List β) (list : List α) :
    (list.flatMap g).findSome? f = list.findSome? fun a => (g a).findSome? f := by
  induction list with
  | nil => rfl
  | cons a list ih =>
    rw [List.flatMap_cons, List.findSome?_append, List.findSome?_cons, ih]
    cases (g a).findSome? f <;> rfl

/-- A fault is about a foreign name that an assignment writes to: the first one that the first
assignment with such a name writes to. -/
theorem first_of_assignmentFault? {fault : Fault}
    (h : assignmentFault? name offsets root references = some fault) :
    ∃ before site behind target leaf cause, root.sites = before ++ site :: behind ∧
      Assigns site target ∧ Writes target leaf ∧ Wrongs name references leaf cause ∧
      fault = cause.fault offsets.source (leaf.node.startIn offsets) ∧
      (∀ other ∈ before, ∀ target leaf, Assigns other target → Writes target leaf →
        ¬ Foreign name references leaf) ∧
      ∃ early late, leaves target.node target.path = early ++ (leaf.node, leaf.path) :: late ∧
        ∀ other : Site, (other.node, other.path) ∈ early → ¬ Foreign name references other := by
  rw [assignmentFault?, assignedLeaves, List.filterMap_eq_flatMap_toList, List.flatMap_assoc,
    findSome?_flatMap, List.findSome?_eq_some_iff] at h
  obtain ⟨before, site, behind, hsites, hfound, hbefore⟩ := h
  -- where nothing is found nothing foreign is written
  have hnone {entry : Node × List Nat} {cause : Cause → Fault}
      (h : (violation? name (references.map (·.path)) entry).map cause = none) {other : Site}
      (hother : entry = (other.node, other.path)) : ¬ Foreign name references other := by
    rw [hother, Option.map_eq_none_iff] at h
    exact violation?_eq_none_iff.mp h
  cases htarget : target? site with
  | none =>
    rw [htarget] at hfound
    cases hfound
  | some target =>
    rw [htarget, Option.toList_some, List.flatMap_singleton, List.findSome?_eq_some_iff] at hfound
    obtain ⟨early, entry, late, hleaves, hfault, hearly⟩ := hfound
    have hentry : entry ∈ leaves target.node target.path := by
      rw [hleaves]
      exact List.mem_append_cons_self
    obtain ⟨leaf, hleaf, rfl⟩ := mem_leaves_iff.mp hentry
    obtain ⟨cause, hcause, rfl⟩ := Option.map_eq_some_iff.mp hfault
    refine ⟨before, site, behind, target, leaf, cause, hsites, assigns_iff.mpr htarget, hleaf,
      violation?_eq_some_iff.mp hcause, rfl, ?_, early, late, hleaves,
      fun other hother => hnone (hearly _ hother) rfl⟩
    intro other hother target' leaf' htarget' hleaf'
    have hmiss := hbefore other hother
    rw [assigns_iff.mp htarget', Option.toList_some, List.flatMap_singleton,
      List.findSome?_eq_none_iff] at hmiss
    exact hnone (hmiss _ (mem_leaves_iff.mpr ⟨leaf', hleaf', rfl⟩)) rfl

end

end NotebookCell.Scope
