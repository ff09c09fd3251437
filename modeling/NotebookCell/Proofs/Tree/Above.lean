import Mathlib.Data.List.Infix
import Mathlib.Data.List.Nodup
import NotebookCell.Proofs.Tree.Walk

/-!
# The way up from a site

`Site.above` holds the nodes around a site as sites of their own, the nearest first. What is said of
all sites of a tree is said of the root and handed down from a site to its named children
(`Node.sites_induction`).

* `Site.pairwise_preorder`: a traversal meets a node before what is below it and before its later
  siblings, so that no path occurs twice;
* `Site.isBelow_iff`: a path leads above a site if it is the path of a site above;
* `Site.nearest_eq_find?`: the nearest scope is the first one on the way up.
-/

namespace NotebookCell.Tree

namespace Site

/-- The sites above a site, the nearest first. -/
def above (site : Site) : List Site :=
  go site.ancestors (site.path.drop 1)
where
  go : List Node → List Nat → List Site
    | [], _ => []
    | node :: nodes, path => ⟨node, path, nodes⟩ :: go nodes (path.drop 1)

theorem above_root (root : Node) : (⟨root, [], []⟩ : Site).above = [] := rfl

variable {site child other : Site}

theorem exists_of_mem_children (h : child ∈ site.children) :
    ∃ node index, site.node.children[index]? = some node ∧
      child = ⟨node, index :: site.path, site.node :: site.ancestors⟩ := by
  obtain ⟨⟨node, index⟩, hmem, rfl⟩ := List.mem_map.mp h
  exact ⟨node, index, List.mem_zipIdx_iff_getElem?.mp hmem, rfl⟩

theorem mem_children_of_mem_namedChildren (h : child ∈ site.namedChildren) :
    child ∈ site.children :=
  List.mem_of_mem_filter h

theorem above_of_mem_children (h : child ∈ site.children) : child.above = site :: site.above := by
  obtain ⟨node, index, -, rfl⟩ := exists_of_mem_children h
  rfl

/-! ## Descending -/

theorem mem_preorder_iff :
    other ∈ site.preorder ↔ other = site ∨ ∃ child ∈ site.namedChildren, other ∈ child.preorder := by
  rw [site.preorder_eq, List.mem_cons, List.mem_flatMap]

theorem size_lt_of_mem_children (h : child ∈ site.children) : child.node.size < site.node.size := by
  have hmem : child.node ∈ site.node.children := by
    obtain ⟨node, index, hindex, rfl⟩ := exists_of_mem_children h
    exact List.mem_of_getElem? hindex
  have hsizes : ∀ nodes : List Node, child.node ∈ nodes → child.node.size ≤ Node.sizes nodes := by
    intro nodes hnodes
    induction nodes with
    | nil => cases hnodes
    | cons first nodes ih =>
      rw [Node.sizes]
      rcases List.mem_cons.mp hnodes with hfirst | hrest
      · rw [← hfirst]
        omega
      · have := ih hrest
        omega
  have := hsizes _ hmem
  rw [Node.size_eq site.node]
  omega

theorem size_lt_of_mem_namedChildren (h : child ∈ site.namedChildren) :
    child.node.size < site.node.size :=
  size_lt_of_mem_children (mem_children_of_mem_namedChildren h)

/-- What holds of a site and is handed down to named children holds of everything below. -/
theorem preorder_induction {P : Site → Prop}
    (hchild : ∀ site, P site → ∀ child ∈ site.namedChildren, P child) (hsite : P site) :
    ∀ other ∈ site.preorder, P other := by
  induction hsize : site.node.size using Nat.strongRecOn generalizing site with
  | ind size ih =>
    intro other hother
    rcases mem_preorder_iff.mp hother with rfl | ⟨child, hmem, hbelow⟩
    · exact hsite
    · have hlt := size_lt_of_mem_namedChildren hmem
      exact ih child.node.size (hsize ▸ hlt) (hchild site hsite child hmem) rfl other hbelow

theorem preorder_trans {third : Site} (h : other ∈ site.preorder) (h' : third ∈ other.preorder) :
    third ∈ site.preorder := by
  induction hsize : site.node.size using Nat.strongRecOn generalizing site with
  | ind size ih =>
    rcases mem_preorder_iff.mp h with rfl | ⟨child, hchild, hbelow⟩
    · exact h'
    · have hlt := hsize ▸ size_lt_of_mem_namedChildren hchild
      exact mem_preorder_iff.mpr (.inr ⟨child, hchild, ih _ hlt hbelow rfl⟩)

end Site

namespace Node

variable {root : Node} {site child : Site}

theorem root_mem_sites (root : Node) : (⟨root, [], []⟩ : Site) ∈ root.sites := by
  rw [sites_eq_preorder]
  exact Site.mem_preorder_self _

theorem mem_sites_of_child (hsite : site ∈ root.sites) (hchild : child ∈ site.namedChildren) :
    child ∈ root.sites := by
  rw [sites_eq_preorder] at hsite ⊢
  exact Site.preorder_trans hsite
    (Site.mem_preorder_iff.mpr (.inr ⟨child, hchild, child.mem_preorder_self⟩))

/-- What holds of the root and is handed down to named children holds of all sites of a tree. -/
theorem sites_induction {P : Site → Prop} (hroot : P ⟨root, [], []⟩)
    (hchild : ∀ site ∈ root.sites, ∀ child ∈ site.namedChildren, P site → P child) :
    ∀ site ∈ root.sites, P site := by
  intro site hsite
  have hboth : ∀ other ∈ (⟨root, [], []⟩ : Site).preorder, other ∈ root.sites ∧ P other := by
    refine Site.preorder_induction ?_ ⟨root_mem_sites root, hroot⟩
    intro upper hupper lower hlower
    exact ⟨mem_sites_of_child hupper.1 hlower, hchild upper hupper.1 lower hlower hupper.2⟩
  rw [sites_eq_preorder] at hsite
  exact (hboth site hsite).2

end Node

theorem mem_walkAll_self (root : Node) : root ∈ root.walkAll := by
  rw [← Node.map_node_sites]
  exact List.mem_map_of_mem root.root_mem_sites

theorem mem_walkAll_of_mem_namedChildren {root node child : Node} (h : node ∈ root.walkAll)
    (hchild : child ∈ node.namedChildren) : child ∈ root.walkAll := by
  rw [← Node.map_node_sites, List.mem_map] at h ⊢
  obtain ⟨site, hsite, rfl⟩ := h
  rw [← Site.map_node_namedChildren, List.mem_map] at hchild
  obtain ⟨below, hbelow, rfl⟩ := hchild
  exact ⟨below, Node.mem_sites_of_child hsite hbelow, rfl⟩

/-! ## The order of paths -/

/-- A path comes before another: it leads to a node above, or it turns off to an earlier sibling
where the two ways part. -/
def PathBefore (first second : List Nat) : Prop :=
  (first <:+ second ∧ first ≠ second) ∨
    ∃ fork i j, i < j ∧ (i :: fork) <:+ first ∧ (j :: fork) <:+ second

/-- Two ways that part at a fork lead to different places. -/
theorem index_eq_of_suffix {fork path : List Nat} {i j : Nat} (hi : (i :: fork) <:+ path)
    (hj : (j :: fork) <:+ path) : i = j := by
  have hlength : (i :: fork).length = (j :: fork).length := rfl
  have heq := (List.suffix_of_suffix_length_le hi hj hlength.le).eq_of_length hlength
  exact (List.cons.inj heq).1

theorem PathBefore.ne {first second : List Nat} (h : PathBefore first second) : first ≠ second := by
  rintro rfl
  rcases h with ⟨-, hne⟩ | ⟨fork, i, j, hlt, hi, hj⟩
  · exact hne rfl
  · exact Nat.ne_of_lt hlt (index_eq_of_suffix hi hj)

namespace Site

/-- What is below a site has a path through it. -/
theorem suffix_of_mem_preorder {site other : Site} (h : other ∈ site.preorder) :
    site.path <:+ other.path :=
  site.node.suffix_of_mem_preorder site.path site.ancestors h

theorem path_of_mem_children {site child : Site} (h : child ∈ site.children) :
    ∃ index, child.path = index :: site.path := by
  obtain ⟨node, index, -, rfl⟩ := exists_of_mem_children h
  exact ⟨index, rfl⟩

/-- Children come in the order of their positions. -/
theorem pairwise_children (site : Site) :
    site.children.Pairwise fun first second =>
      ∃ i j, i < j ∧ first.path = i :: site.path ∧ second.path = j :: site.path := by
  have hindices : (site.node.children.zipIdx 0).Pairwise fun first second => first.2 < second.2 := by
    have hmap : ((site.node.children.zipIdx 0).map Prod.snd).Pairwise (· < ·) := by
      rw [List.zipIdx_map_snd]
      exact List.pairwise_lt_range'
    exact List.pairwise_map.mp hmap
  rw [children, List.pairwise_map]
  exact hindices.imp fun {first second} hlt => ⟨first.2, second.2, hlt, rfl, rfl⟩

/-- A traversal meets the nodes in the order of their paths. -/
theorem pairwise_preorder (site : Site) :
    site.preorder.Pairwise fun first second => PathBefore first.path second.path := by
  induction hsize : site.node.size using Nat.strongRecOn generalizing site with
  | ind size ih =>
    rw [preorder_eq, List.pairwise_cons]
    constructor
    · -- the site itself comes before everything below it
      intro other hother
      obtain ⟨child, hchild, hbelow⟩ := List.mem_flatMap.mp hother
      obtain ⟨index, hpath⟩ := path_of_mem_children (mem_children_of_mem_namedChildren hchild)
      have hsuffix := suffix_of_mem_preorder hbelow
      rw [hpath] at hsuffix
      refine .inl ⟨(List.suffix_cons index site.path).trans hsuffix, ?_⟩
      intro heq
      have := hsuffix.length_le
      rw [List.length_cons, ← heq] at this
      omega
    · rw [List.pairwise_flatMap]
      constructor
      · intro child hchild
        exact ih _ (hsize ▸ size_lt_of_mem_namedChildren hchild) child rfl
      · -- what is below one child comes before what is below a later one
        refine (site.pairwise_children.filter _).imp ?_
        rintro first second ⟨i, j, hlt, hi, hj⟩ upper hupper lower hlower
        refine .inr ⟨site.path, i, j, hlt, ?_, ?_⟩
        · exact hi ▸ suffix_of_mem_preorder hupper
        · exact hj ▸ suffix_of_mem_preorder hlower

end Site

/-- No path occurs twice in a traversal. -/
theorem Node.nodup_paths (root : Node) : (root.sites.map (·.path)).Nodup := by
  rw [sites_eq_preorder, List.nodup_iff_pairwise_ne, List.pairwise_map]
  exact (Site.pairwise_preorder _).imp PathBefore.ne

/-- A site is known by its path. -/
theorem Node.eq_of_path_eq {root : Node} {site other : Site} (hsite : site ∈ root.sites)
    (hother : other ∈ root.sites) (hpath : site.path = other.path) : site = other :=
  List.inj_on_of_nodup_map root.nodup_paths hsite hother hpath

/-- A site that is reached from the root step by step, also through words and signs, which a traversal
leaves out. -/
inductive Reached (root : Node) : Site → Prop
  | root : Reached root ⟨root, [], []⟩
  | child {site child : Site} (hsite : Reached root site) (hchild : child ∈ site.children) :
    Reached root child

theorem Node.reached_of_mem_sites {root : Node} {site : Site} (h : site ∈ root.sites) :
    Reached root site :=
  Node.sites_induction (P := Reached root) .root
    (fun _ _ _ hchild hsite => hsite.child (Site.mem_children_of_mem_namedChildren hchild)) site h

/-- A site that is reached is known by its path. -/
theorem Reached.eq_of_path_eq {root : Node} {site other : Site} (hsite : Reached root site)
    (hother : Reached root other) (hpath : site.path = other.path) : site = other := by
  induction hsite generalizing other with
  | root =>
    cases hother with
    | root => rfl
    | child _ hchild =>
      obtain ⟨node, index, -, rfl⟩ := Site.exists_of_mem_children hchild
      cases hpath
  | child _ hchild ih =>
    obtain ⟨node, index, hnode, rfl⟩ := Site.exists_of_mem_children hchild
    cases hother with
    | root => cases hpath
    | child hupper hlower =>
      obtain ⟨node', index', hnode', rfl⟩ := Site.exists_of_mem_children hlower
      obtain ⟨rfl, hpaths⟩ := List.cons.inj hpath
      -- the same position below the same site
      obtain rfl := ih hupper hpaths
      obtain rfl := Option.some.inj (hnode.symm.trans hnode')
      rfl

/-! ## Above -/

namespace Site

variable {root : Node} {site child scope : Site}

theorem above_of_mem_namedChildren (h : child ∈ site.namedChildren) :
    child.above = site :: site.above :=
  above_of_mem_children (mem_children_of_mem_namedChildren h)

/-- What is above a site of a tree is a site of the tree. -/
theorem mem_sites_of_mem_above (hsite : site ∈ root.sites) (hscope : scope ∈ site.above) :
    scope ∈ root.sites := by
  revert hscope
  refine Node.sites_induction (P := fun site => scope ∈ site.above → scope ∈ root.sites) ?_ ?_ site
    hsite
  · intro hnone
    rw [above_root] at hnone
    cases hnone
  · intro upper hupper child hchild ih hscope
    rw [above_of_mem_namedChildren hchild, List.mem_cons] at hscope
    rcases hscope with rfl | habove
    · exact hupper
    · exact ih habove

/-- The nodes of the sites above are the ancestors. -/
theorem map_node_above (site : Site) : site.above.map (·.node) = site.ancestors := by
  rw [above]
  generalize site.path.drop 1 = path
  induction site.ancestors generalizing path with
  | nil => rfl
  | cons node nodes ih => rw [above.go, List.map_cons, ih]

/-- What is above a site above is above. -/
theorem above_subset_of_mem_above (h : scope ∈ site.above) : scope.above ⊆ site.above := by
  obtain ⟨node, path, ancestors⟩ := site
  change scope ∈ above.go ancestors (path.drop 1) at h
  show scope.above ⊆ above.go ancestors (path.drop 1)
  generalize path.drop 1 = path at h ⊢
  induction ancestors generalizing path with
  | nil => cases h
  | cons node nodes ih =>
    rw [above.go, List.mem_cons] at h
    rw [above.go]
    rcases h with rfl | hbelow
    · exact List.subset_cons_self _ _
    · exact List.Subset.trans (ih _ hbelow) (List.subset_cons_self _ _)

/-- The sites above a site, each with the child of it that the site is at or below. -/
def steps (site : Site) : List (Site × Node) :=
  site.above.zip (site.node :: site.ancestors)

theorem map_fst_steps (site : Site) : site.steps.map Prod.fst = site.above := by
  refine List.map_fst_zip ?_
  rw [← site.map_node_above, List.length_cons, List.length_map]
  exact Nat.le_succ _

theorem mem_above_of_mem_steps {part : Node} (h : (scope, part) ∈ site.steps) :
    scope ∈ site.above :=
  (List.of_mem_zip h).1

theorem exists_mem_steps (h : scope ∈ site.above) : ∃ part, (scope, part) ∈ site.steps := by
  rw [← site.map_fst_steps, List.mem_map] at h
  obtain ⟨⟨_, part⟩, hstep, rfl⟩ := h
  exact ⟨part, hstep⟩

/-- A path leads above a site if it is the path of one of the sites above. -/
theorem isBelow_iff (hsite : site ∈ root.sites) (path : List Nat) :
    site.isBelow path = true ↔ ∃ scope ∈ site.above, scope.path = path := by
  refine Node.sites_induction
    (P := fun site => site.isBelow path = true ↔ ∃ scope ∈ site.above, scope.path = path) ?_ ?_ site
    hsite
  · rw [above_root]
    simp [isBelow]
  · intro upper _ child hchild ih
    obtain ⟨index, hpath⟩ := path_of_mem_children (mem_children_of_mem_namedChildren hchild)
    rw [isBelow, Bool.and_eq_true, decide_eq_true_iff, List.isSuffixOf_iff_suffix] at ih ⊢
    rw [above_of_mem_namedChildren hchild, List.exists_mem_cons_iff, ← ih, hpath,
      List.suffix_cons_iff, List.length_cons]
    constructor
    · rintro ⟨hlt, rfl | hsuffix⟩
      · rw [List.length_cons] at hlt
        omega
      · by_cases heq : upper.path = path
        · exact .inl heq
        · refine .inr ⟨?_, hsuffix⟩
          have hle := hsuffix.length_le
          have hne : path.length ≠ upper.path.length := fun hlength =>
            heq (hsuffix.eq_of_length hlength).symm
          omega
    · rintro (rfl | ⟨hlt, hsuffix⟩)
      · exact ⟨Nat.lt_succ_self _, .inr (List.suffix_refl _)⟩
      · exact ⟨by omega, .inr hsuffix⟩

/-- The nearest scope is the first one on the way up, or the root. -/
theorem nearest_eq_find? (site : Site) (isScope : Kind → Bool) :
    site.nearest isScope = ((site.above.find? (isScope ·.node.kind)).map (·.path)).getD [] := by
  rw [nearest, above]
  generalize site.path.drop 1 = path
  induction site.ancestors generalizing path with
  | nil => rfl
  | cons node nodes ih =>
    rw [nearest.go, above.go, List.find?_cons]
    dsimp only
    split
    · next hscope => rw [hscope]; rfl
    · next hscope => rw [Bool.not_eq_true] at hscope; rw [hscope, ih]

/-- The nearest scope of a child is its parent, or that of its parent. -/
theorem nearest_of_mem_children (h : child ∈ site.children) (isScope : Kind → Bool) :
    child.nearest isScope =
      if isScope site.node.kind = true then site.path else site.nearest isScope := by
  obtain ⟨node, index, -, rfl⟩ := exists_of_mem_children h
  rfl

end Site

end NotebookCell.Tree
