import NotebookCell.Tree.Walk

/-!
# Walks are preorder traversals

`Node.visit` and `Site.visit` keep what is still to be visited in a list and stop after a bound. Here
the bound is shown never to be reached, and the walks to be recursive: that of the sites is the preorder
traversal `Site.preorder`.

* `Node.walk_eq`: a walk visits the node and then walks from the children that are not left out;
* `Node.sites_eq_preorder`: the sites of a tree are its preorder traversal;
* `Site.preorder_eq`: a site comes first, then its named children in order;
* `Node.eq_root_of_mem_sites`: only the root has the empty path.
-/

namespace NotebookCell.Tree

/-! ## The recursive traversal -/

mutual

/-- A node and its named descendants, each with the way to it. -/
def Node.preorder (node : Node) (path : List Nat) (ancestors : List Node) : List Site :=
  match node with
  | ⟨kind, start, stop, named, missing, field, children⟩ =>
    let node : Node := ⟨kind, start, stop, named, missing, field, children⟩
    ⟨node, path, ancestors⟩ :: preorders children 0 path (node :: ancestors)

/-- The traversals of the named ones of some siblings, from position `index` on. -/
def Node.preorders (nodes : List Node) (index : Nat) (path : List Nat) (ancestors : List Node) :
    List Site :=
  match nodes with
  | [] => []
  | node :: nodes =>
    (if node.named then preorder node (index :: path) ancestors else []) ++
      preorders nodes (index + 1) path ancestors

end

/-- The traversal of what is at a site. -/
def Site.preorder (site : Site) : List Site :=
  site.node.preorder site.path site.ancestors

/-- Siblings are traversed one after the other. -/
theorem Node.preorders_eq_flatMap (path : List Nat) (ancestors : List Node) :
    ∀ (nodes : List Node) (index : Nat),
      Node.preorders nodes index path ancestors =
        (((nodes.zipIdx index).map fun (child, i) => (⟨child, i :: path, ancestors⟩ : Site)).filter
          (·.node.named)).flatMap Site.preorder := by
  intro nodes
  induction nodes with
  | nil => intro index; rw [Node.preorders]; rfl
  | cons node nodes ih =>
    intro index
    rw [Node.preorders, ih (index + 1), List.zipIdx_cons, List.map_cons, List.filter_cons]
    by_cases hnamed : node.named
    · simp only [hnamed, if_true, List.flatMap_cons]
      rfl
    · simp only [hnamed, if_false, List.nil_append, Bool.false_eq_true]

/-- The site itself comes first, then what is below its named children. -/
theorem Site.preorder_eq (site : Site) :
    site.preorder = site :: site.namedChildren.flatMap Site.preorder := by
  obtain ⟨⟨kind, start, stop, named, missing, field, children⟩, path, ancestors⟩ := site
  rw [Site.preorder, Node.preorder, Node.preorders_eq_flatMap]
  rfl

theorem Site.mem_preorder_self (site : Site) : site ∈ site.preorder := by
  rw [site.preorder_eq]
  exact List.mem_cons_self

/-! ## The bound is never reached -/

theorem Node.sizes_append (nodes others : List Node) :
    sizes (nodes ++ others) = sizes nodes + sizes others := by
  induction nodes with
  | nil => rw [List.nil_append, sizes, Nat.zero_add]
  | cons node nodes ih => rw [List.cons_append, sizes, sizes, ih, Nat.add_assoc]

theorem Node.sizes_filter_le (p : Node → Bool) (nodes : List Node) :
    sizes (nodes.filter p) ≤ sizes nodes := by
  induction nodes with
  | nil => exact Nat.le_refl _
  | cons node nodes ih =>
    rw [List.filter_cons, sizes]
    split
    · rw [sizes]; omega
    · omega

theorem Node.size_eq (node : Node) : node.size = 1 + sizes node.children := by
  obtain ⟨kind, start, stop, named, missing, field, children⟩ := node
  rw [size]

/-- The children that a walk goes on to are smaller than what is below the node. -/
theorem Node.sizes_kept_le (skip : Node → Bool) (node : Node) :
    sizes (node.namedChildren.filter fun child => !skip child) ≤ sizes node.children :=
  Nat.le_trans (sizes_filter_le _ _) (sizes_filter_le _ _)

/-- A walk takes the node off the list and goes on with the children that are not left out. -/
theorem Node.walk_eq_visit (skip : Node → Bool) (node : Node) :
    node.walk skip = node ::
      visit skip (sizes node.children) (node.namedChildren.filter fun child => !skip child) := by
  rw [walk, size_eq, Nat.add_comm, visit, List.append_nil]

/-- With enough nodes allowed, visiting walks from the nodes one after the other. -/
theorem Node.visit_eq_flatMap (skip : Node → Bool) (bound : Nat) (nodes : List Node)
    (hsize : sizes nodes ≤ bound) : visit skip bound nodes = nodes.flatMap (·.walk skip) := by
  induction bound using Nat.strongRecOn generalizing nodes with
  | ind bound ih =>
    cases nodes with
    | nil => cases bound <;> rfl
    | cons node rest =>
      rw [sizes, size_eq] at hsize
      have hkept := sizes_kept_le skip node
      have hnode := ih (sizes node.children) (by omega) _ hkept
      obtain ⟨bound, rfl⟩ := Nat.exists_eq_add_of_lt (show 0 < bound by omega)
      -- what is still to be visited is the rest of the walk from this node, and then the others
      rw [Nat.zero_add] at hsize ih ⊢
      rw [visit, ih bound (Nat.lt_succ_self _) _ (by rw [sizes_append]; omega), List.flatMap_append,
        List.flatMap_cons, walk_eq_visit, hnode, List.cons_append]

/-- A walk visits the node first and then walks from each named child that is not left out. -/
theorem Node.walk_eq (node : Node) (skip : Node → Bool) :
    node.walk skip =
      node :: (node.namedChildren.filter fun child => !skip child).flatMap (·.walk skip) := by
  rw [walk_eq_visit, visit_eq_flatMap skip _ _ (sizes_kept_le skip node)]

/-- Where nothing is left out, all nodes stay. -/
theorem Node.filter_not_false (nodes : List Node) : (nodes.filter fun _ => !false) = nodes :=
  List.filter_eq_self.mpr fun _ _ => rfl

/-- The walk visits the node first, then what is below its named children. -/
theorem Node.walkAll_eq (node : Node) :
    node.walkAll = node :: node.namedChildren.flatMap Node.walkAll := by
  have h := node.walk_eq fun _ => false
  rw [filter_not_false] at h
  exact h

/-- The nodes of the children of a site are the children of its node. -/
theorem Site.map_node_namedChildren (site : Site) :
    site.namedChildren.map (·.node) = site.node.namedChildren := by
  have hchildren : site.children.map (·.node) = site.node.children := by
    rw [Site.children, List.map_map]
    exact List.zipIdx_map_fst 0 site.node.children
  rw [Site.namedChildren, Node.namedChildren, ← hchildren, List.filter_map]
  rfl

/-- With enough nodes allowed, visiting traverses the sites one after the other. -/
theorem Site.visit_eq_flatMap :
    ∀ (bound : Nat) (sites : List Site), Node.sizes (sites.map (·.node)) ≤ bound →
      Site.visit bound sites = sites.flatMap Site.preorder := by
  intro bound
  induction bound with
  | zero =>
    intro sites hsize
    cases sites with
    | nil => rfl
    | cons site rest =>
      rw [List.map_cons, Node.sizes, Node.size_eq] at hsize
      omega
  | succ bound ih =>
    intro sites hsize
    cases sites with
    | nil => rfl
    | cons site rest =>
      rw [List.map_cons, Node.sizes, Node.size_eq] at hsize
      have hbelow : Node.sizes ((site.namedChildren ++ rest).map (·.node)) ≤ bound := by
        rw [List.map_append, Node.sizes_append, Site.map_node_namedChildren]
        have := Node.sizes_filter_le (·.named) site.node.children
        rw [Node.namedChildren]
        omega
      rw [Site.visit, ih _ hbelow, List.flatMap_append, List.flatMap_cons, site.preorder_eq,
        List.cons_append]

/-- The sites of a tree are its traversal from the root. -/
theorem Node.sites_eq_preorder (root : Node) :
    root.sites = (⟨root, [], []⟩ : Site).preorder := by
  rw [Node.sites, Site.visit_eq_flatMap root.size _ (by rw [List.map_singleton]; simp [sizes])]
  exact List.flatMap_singleton _ _

/-- Visiting sites visits their nodes. -/
theorem Site.map_node_visit (bound : Nat) (sites : List Site) :
    (Site.visit bound sites).map (·.node) =
      Node.visit (fun _ => false) bound (sites.map (·.node)) := by
  induction bound generalizing sites with
  | zero => rfl
  | succ bound ih =>
    cases sites with
    | nil => rfl
    | cons site rest =>
      rw [Site.visit, List.map_cons, ih, List.map_append, Site.map_node_namedChildren, List.map_cons,
        Node.visit, Node.filter_not_false]

/-- The nodes of all sites are those of the walk that leaves nothing out. -/
theorem Node.map_node_sites (root : Node) : root.sites.map (·.node) = root.walkAll := by
  rw [Node.sites, Site.map_node_visit]
  rfl

/-- Wherever a traversal starts, its nodes are those of the walk. -/
theorem Node.map_node_preorder (node : Node) (path : List Nat) (ancestors : List Node) :
    (node.preorder path ancestors).map (·.node) = node.walkAll := by
  have hvisit := Site.visit_eq_flatMap node.size [⟨node, path, ancestors⟩]
    (by rw [List.map_singleton]; simp [sizes])
  have hmap := congrArg (List.map (·.node)) hvisit
  rw [Site.map_node_visit, List.flatMap_singleton] at hmap
  exact hmap.symm

/-! ## Paths -/

mutual

/-- Everything in a traversal lies at or below the path where it starts. -/
theorem Node.suffix_of_mem_preorder (node : Node) (path : List Nat) (ancestors : List Node)
    {site : Site} (hsite : site ∈ node.preorder path ancestors) : path <:+ site.path := by
  match node with
  | ⟨kind, start, stop, named, missing, field, children⟩ =>
    rw [Node.preorder, List.mem_cons] at hsite
    rcases hsite with rfl | hbelow
    · exact List.suffix_refl path
    · obtain ⟨index, hindex⟩ := suffix_of_mem_preorders children 0 path _ hbelow
      exact (List.suffix_cons index path).trans hindex

/-- What is among or below siblings has the position of one of them in its path. -/
theorem Node.suffix_of_mem_preorders (nodes : List Node) (index : Nat) (path : List Nat)
    (ancestors : List Node) {site : Site} (hsite : site ∈ preorders nodes index path ancestors) :
    ∃ i, (i :: path) <:+ site.path := by
  match nodes with
  | [] => simp [preorders] at hsite
  | node :: nodes =>
    rw [preorders, List.mem_append] at hsite
    rcases hsite with hnode | hrest
    · split at hnode
      · exact ⟨index, suffix_of_mem_preorder node _ ancestors hnode⟩
      · cases hnode
    · exact suffix_of_mem_preorders nodes (index + 1) path ancestors hrest

end

/-- Only the root has the empty path. -/
theorem Node.eq_root_of_mem_sites {root : Node} {site : Site} (hsite : site ∈ root.sites)
    (hpath : site.path = []) : site.node = root := by
  rw [Node.sites_eq_preorder, Site.preorder] at hsite
  obtain ⟨kind, start, stop, named, missing, field, children⟩ := root
  rw [Node.preorder, List.mem_cons] at hsite
  rcases hsite with rfl | hbelow
  · rfl
  · obtain ⟨index, hindex⟩ := Node.suffix_of_mem_preorders children 0 [] _ hbelow
    rw [hpath, List.suffix_nil] at hindex
    cases hindex

/-- A named child of the root is a site below the root alone. -/
theorem Node.exists_site_of_mem_namedChildren {root child : Node}
    (hchild : child ∈ root.namedChildren) :
    ∃ index, (⟨child, [index], [root]⟩ : Site) ∈ root.sites := by
  have hsites := root.sites_eq_preorder
  rw [Site.preorder_eq] at hsites
  rw [← Site.map_node_namedChildren ⟨root, [], []⟩, List.mem_map] at hchild
  obtain ⟨site, hsite, rfl⟩ := hchild
  have hmem : site ∈ root.sites := by
    rw [hsites]
    exact List.mem_cons_of_mem _ (List.mem_flatMap.mpr ⟨site, hsite, site.mem_preorder_self⟩)
  rw [Site.namedChildren, List.mem_filter, Site.children, List.mem_map] at hsite
  obtain ⟨⟨⟨child, index⟩, -, rfl⟩, -⟩ := hsite
  exact ⟨index, hmem⟩

end NotebookCell.Tree
