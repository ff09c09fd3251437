import NotebookCell.Proofs.Tree.Order
import NotebookCell.Proofs.Tree.Pruning

/-!
# Walks against trees

What a walk visits is said here in terms of the tree alone. A path is followed from the root, one child
after the other (`Node.wayTo`), and a site holds the nodes that are met on the way.

* `Node.reached_iff_wayTo`: the ancestors of a site are the nodes on the way to it;
* `Node.pairwise_start_walk`: along a walk through an ordered tree the starts never decrease;
* `Node.walk_recursion`: a walk is a recursion over the tree.
-/

namespace NotebookCell.Tree

namespace Node

/-- The nodes that are met on the way from a root to a path, the last one first. Like the path of a
site, the path holds positions among siblings from the end of the way upwards. -/
def wayTo (root : Node) : List Nat → Option (List Node)
  | [] => some [root]
  | index :: path =>
    (root.wayTo path).bind fun nodes =>
      (nodes.head?.bind (·.children[index]?)).map (· :: nodes)

variable {root : Node} {site : Site}

theorem wayTo_cons_eq_some_iff {index : Nat} {path : List Nat} {nodes : List Node} :
    root.wayTo (index :: path) = some nodes ↔ ∃ child upper rest,
      root.wayTo path = some (upper :: rest) ∧ upper.children[index]? = some child ∧
        nodes = child :: upper :: rest := by
  rw [wayTo, Option.bind_eq_some_iff]
  constructor
  · rintro ⟨_ | ⟨upper, rest⟩, hway, hlast⟩
    · cases hlast
    · obtain ⟨child, hchild, rfl⟩ := Option.map_eq_some_iff.mp hlast
      exact ⟨child, upper, rest, hway, hchild, rfl⟩
  · rintro ⟨child, upper, rest, hway, hchild, rfl⟩
    exact ⟨_, hway, Option.map_eq_some_iff.mpr ⟨child, hchild, rfl⟩⟩

/-- A site is reached from the root if it holds the nodes on the way to its path. -/
theorem reached_iff_wayTo :
    Reached root site ↔ root.wayTo site.path = some (site.node :: site.ancestors) := by
  constructor
  · intro h
    induction h with
    | root => rfl
    | child _ hchild ih =>
      obtain ⟨node, index, hnode, rfl⟩ := Site.exists_of_mem_children hchild
      exact wayTo_cons_eq_some_iff.mpr ⟨_, _, _, ih, hnode, rfl⟩
  · intro h
    obtain ⟨node, path, ancestors⟩ := site
    induction path generalizing node ancestors with
    | nil =>
      obtain ⟨rfl, rfl⟩ := List.cons.inj (Option.some.inj h)
      exact .root
    | cons index path ih =>
      obtain ⟨child, upper, rest, hway, hchild, hnodes⟩ := wayTo_cons_eq_some_iff.mp h
      obtain ⟨rfl, rfl⟩ := List.cons.inj hnodes
      refine (ih upper rest hway).child (List.mem_map.mpr ⟨(node, index), ?_, rfl⟩)
      exact List.mem_zipIdx_iff_getElem?.mpr hchild

/-- In an ordered tree a walk never goes back: the starts of the nodes never decrease. -/
theorem pairwise_start_walk (h : root.isOrdered = true) (skip : Node → Bool) :
    (root.walk skip).Pairwise fun first second => first.start ≤ second.start := by
  rw [walk_eq_filter, sites_eq_preorder, List.pairwise_map]
  have hsites := @Site.pairwise_preorder_of_isOrdered ⟨root, [], []⟩ h
  refine List.Pairwise.filter _ (hsites.imp_of_mem ?_)
  -- the later of two sites is below the earlier one or behind its end
  intro first second hfirst _ hbehind
  have hordered := (@Site.within_of_mem_preorder ⟨root, [], []⟩ _ h hfirst).2
  rcases hbehind with hbelow | hbehind
  · exact (Site.within_of_mem_preorder hordered hbelow).1.1
  · exact (start_le_stop _ hordered).trans hbehind

/-- A walk visits the root and then walks from each of its named children that is not left out, in
order. So it visits the sites that nothing on the way leaves out, each once: no two have the same path.
The sites are all places that named nodes lead to, each with the nodes on the way from the root to it,
and their nodes are those of the walk that leaves nothing out. Where siblings lie one behind the other
inside their parents, the starts along a walk never decrease. -/
theorem walk_recursion (root : Node) (skip : Node → Bool) :
    root.walk skip =
        root :: (root.namedChildren.filter fun child => !skip child).flatMap (·.walk skip) ∧
      root.walk skip = (root.sites.filter (·.along fun node => !skip node)).map (·.node) ∧
      (root.sites.map (·.path)).Nodup ∧
      (∀ site, site ∈ root.sites ↔
        root.wayTo site.path = some (site.node :: site.ancestors) ∧
          site.along (·.named) = true) ∧
      root.sites.map (·.node) = root.walkAll ∧
      (root.isOrdered = true →
        (root.walk skip).Pairwise fun first second => first.start ≤ second.start) := by
  refine ⟨root.walk_eq skip, root.walk_eq_filter skip, root.nodup_paths, ?_, root.map_node_sites,
    fun h => pairwise_start_walk h skip⟩
  intro site
  rw [mem_sites_iff, reached_iff_wayTo]

/-- A function is left out with what is below it, and a sign between the statements is not visited. -/
theorem walk_recursion_functions :
    let name (start : Nat) : Node := { kind := .identifier, start, stop := start + 1 }
    let root : Node :=
      { kind := .program, start := 0, stop := 9, children := [
        { kind := .functionDeclaration, start := 0, stop := 4, children := [name 1] },
        { kind := .token ";", start := 4, stop := 5, named := false },
        { kind := .expressionStatement, start := 5, stop := 9, children := [name 6, name 8] }] }
    let skip := fun node : Node => node.kind == .functionDeclaration
    root.isOrdered = true ∧
      ((root.walk skip).Pairwise fun first second => first.start ≤ second.start) ∧
      (root.walk skip).map (·.start) = [0, 5, 6, 8] := by
  intro name root skip
  have hordered : root.isOrdered = true := by decide
  exact ⟨hordered, (walk_recursion root skip).2.2.2.2.2 hordered, by decide⟩

end Node

end NotebookCell.Tree
