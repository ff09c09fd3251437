import NotebookCell.Proofs.Tree.Above

/-!
# Walks that leave subtrees out

A walk decides at each named child whether to go on there, and never decides about the root. So a node
is visited exactly if a test holds all along the way to it (`Site.along`): each node on that way but the
root is named, and none is left out.

* `Node.mem_sites_iff`: the sites of a tree are reached through named nodes alone;
* `Node.walk_eq_filter`: a walk that leaves subtrees out is a selection of the sites, in their order.
-/

namespace NotebookCell.Tree

namespace Site

/-- Whether a test holds of a site and of everything above it but the root. -/
def along (test : Node → Bool) (site : Site) : Bool :=
  (site.node :: site.ancestors).dropLast.all test

variable {test : Node → Bool} {site child other : Site}

theorem along_root (test : Node → Bool) (root : Node) : (⟨root, [], []⟩ : Site).along test = true :=
  rfl

theorem along_of_mem_children (h : child ∈ site.children) :
    child.along test = (test child.node && site.along test) := by
  obtain ⟨node, index, -, rfl⟩ := exists_of_mem_children h
  rfl

/-- Below a site where the test fails it fails everywhere. -/
theorem along_eq_false_of_mem_preorder (h : site.along test = false) :
    ∀ other ∈ site.preorder, other.along test = false := by
  refine preorder_induction (P := fun other => other.along test = false) ?_ h
  intro upper hupper lower hlower
  rw [along_of_mem_children (mem_children_of_mem_namedChildren hlower), hupper, Bool.and_false]

/-- Where the test fails, nothing is left of what is below. -/
theorem filter_preorder_eq_nil (h : site.along test = false) :
    site.preorder.filter (·.along test) = [] := by
  rw [List.filter_eq_nil_iff]
  intro other hother
  rw [along_eq_false_of_mem_preorder h other hother]
  exact Bool.false_ne_true

/-- What is below the children where the test fails makes no difference. -/
theorem filter_below (test : Node → Bool) {children : List Site}
    (h : ∀ child ∈ children, child ∈ site.children) :
    (children.flatMap preorder).filter (·.along test) =
      ((children.filter (test ·.node)).flatMap preorder).filter (·.along test) := by
  induction children with
  | nil => rfl
  | cons child children ih =>
    have hrest := ih fun other hother => h other (List.mem_cons_of_mem _ hother)
    rw [List.flatMap_cons, List.filter_append, hrest, List.filter_cons]
    by_cases htest : test child.node = true
    · rw [if_pos htest, List.flatMap_cons, List.filter_append]
    · have hfails : child.along test = false := by
        rw [along_of_mem_children (h child List.mem_cons_self), Bool.eq_false_iff.mpr htest,
          Bool.false_and]
      rw [if_neg htest, filter_preorder_eq_nil hfails, List.nil_append]

/-- A walk from a site goes below it, but not through what is left out. -/
theorem walk_node_eq_filter (skip : Node → Bool) (site : Site)
    (h : site.along (fun node => !skip node) = true) :
    site.node.walk skip =
      (site.preorder.filter (·.along fun node => !skip node)).map (·.node) := by
  induction hsize : site.node.size using Nat.strongRecOn generalizing site with
  | ind size ih =>
    have hkept : site.node.namedChildren.filter (fun child => !skip child) =
        (site.namedChildren.filter fun child => !skip child.node).map (·.node) := by
      rw [← map_node_namedChildren, List.filter_map]
      rfl
    -- below the children that are left out nothing passes, so they may be there or not
    have hbelow := @filter_below site (fun node => !skip node) site.namedChildren
      fun _ => mem_children_of_mem_namedChildren
    rw [Node.walk_eq, hkept, site.preorder_eq, List.filter_cons, if_pos h, hbelow, List.map_cons,
      List.flatMap_map, List.filter_flatMap, List.map_flatMap]
    congr 1
    refine List.flatMap_congr ?_
    intro child hmem
    obtain ⟨hchild, htest⟩ := List.mem_filter.mp hmem
    have halong : child.along (fun node => !skip node) = true := by
      rw [along_of_mem_children (mem_children_of_mem_namedChildren hchild), h, htest]
      rfl
    exact ih _ (hsize ▸ size_lt_of_mem_namedChildren hchild) child halong rfl

end Site

namespace Node

variable {root : Node} {site : Site}

/-- The sites of a tree are those that are reached through named nodes alone. -/
theorem mem_sites_iff : site ∈ root.sites ↔ Reached root site ∧ site.along (·.named) = true := by
  constructor
  · intro hsite
    refine ⟨reached_of_mem_sites hsite, ?_⟩
    refine sites_induction (P := fun site => site.along (·.named) = true) (Site.along_root _ root) ?_
      site hsite
    intro upper _ lower hlower hupper
    rw [Site.along_of_mem_children (Site.mem_children_of_mem_namedChildren hlower), hupper,
      Bool.and_true]
    exact (List.mem_filter.mp hlower).2
  · rintro ⟨hreached, halong⟩
    induction hreached with
    | root => exact root.root_mem_sites
    | child _ hchild ih =>
      rw [Site.along_of_mem_children hchild, Bool.and_eq_true] at halong
      exact mem_sites_of_child (ih halong.2) (List.mem_filter.mpr ⟨hchild, halong.1⟩)

/-- A walk that leaves subtrees out visits the sites with nothing left out on the way to them. -/
theorem walk_eq_filter (root : Node) (skip : Node → Bool) :
    root.walk skip = (root.sites.filter (·.along fun node => !skip node)).map (·.node) := by
  rw [sites_eq_preorder]
  exact Site.walk_node_eq_filter skip _ (Site.along_root _ root)

end Node

end NotebookCell.Tree
