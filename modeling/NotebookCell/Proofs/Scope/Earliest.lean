import NotebookCell.Proofs.Scope.Target
import NotebookCell.Proofs.Tree.Order
import NotebookCell.Script.Cell

/-!
# Which assignment is reported

Of the assignments to foreign names one is reported. The tree is searched assignment by assignment:
an outer one before those inside of it, and all names that it writes to before going down. So what is
reported is the first foreign name in the text, but for assignments that stand inside the target of
the reported one, as in `[o[x = 1], y] = z`.

* `within_of_writes`: what is written lies inside of the target;
* `pairwise_leaves`: what is written is collected in the order of the text;
* `assignmentFault?_least`: nothing foreign is written before the reported place, but for assignments
  inside of the reported one that do not stand behind its target.
-/

namespace NotebookCell.Scope

open NotebookCell.Tree NotebookCell.Text

section
variable {site target leaf : Site}

/-- What is written in a part of an ordered tree is written inside of the whole. -/
theorem within_of_part {child : Site} (hordered : site.node.isOrdered = true)
    (hchild : child ∈ site.children)
    (h : child.node.isOrdered = true → leaf.Within child ∧ leaf.node.start ≤ leaf.node.stop) :
    leaf.Within site ∧ leaf.node.start ≤ leaf.node.stop := by
  obtain ⟨hwithin, hchild⟩ := Site.within_of_mem_children hordered hchild
  exact ⟨(h hchild).1.trans hwithin, (h hchild).2⟩

theorem within_of_writes (h : Writes target leaf) (hordered : target.node.isOrdered = true) :
    leaf.Within target ∧ leaf.node.start ≤ leaf.node.stop := by
  induction h with
  | here => exact ⟨⟨le_rfl, le_rfl⟩, Node.start_le_stop _ hordered⟩
  | value _ hchild _ ih => exact within_of_part hordered (List.mem_of_find?_eq_some hchild) ih
  | left _ hchild _ ih => exact within_of_part hordered (List.mem_of_find?_eq_some hchild) ih
  | part _ hchild _ ih =>
    exact within_of_part hordered (Site.mem_children_of_mem_namedChildren hchild) ih

theorem within_of_mem_leaves {node : Node} {path : List Nat} {entry : Node × List Nat}
    (h : entry ∈ leaves node path) (hordered : node.isOrdered = true) :
    node.start ≤ entry.1.start ∧ entry.1.start ≤ node.stop := by
  obtain ⟨leaf, hleaf, rfl⟩ := (@mem_leaves_iff ⟨node, path, []⟩ entry).mp h
  obtain ⟨⟨hstart, hstop⟩, hspan⟩ := within_of_writes hleaf hordered
  exact ⟨hstart, hspan.trans hstop⟩

mutual

/-- The leaves of a target in an ordered tree are collected in the order of the text. -/
theorem pairwise_leaves (node : Node) (path : List Nat) (h : node.isOrdered = true) :
    (leaves node path).Pairwise fun first second => first.1.start ≤ second.1.start := by
  match node with
  | ⟨kind, start, stop, named, missing, field, children⟩ =>
    rw [Node.isOrdered] at h
    rw [leaves.eq_def]
    dsimp only
    split
    case h_1 | h_2 | h_3 | h_4 => exact List.pairwise_singleton _ _
    case h_5 | h_6 | h_7 | h_8 => exact pairwise_leavesAs _ children 0 path h
    case h_16 => exact .nil
    all_goals exact pairwise_leavesAll children 0 path h

theorem pairwise_leavesAs (field : Field) (nodes : List Node) (index : Nat) (path : List Nat)
    {start stop : Nat} (h : Node.areOrdered start stop nodes = true) :
    (leavesAs field nodes index path).Pairwise fun first second =>
      first.1.start ≤ second.1.start := by
  match nodes with
  | [] => exact .nil
  | node :: nodes =>
    obtain ⟨-, hnode, hnodes⟩ := Node.areOrdered_cons_iff.mp h
    rw [leavesAs]
    split
    · exact pairwise_leaves node _ hnode
    · exact pairwise_leavesAs field nodes _ path hnodes

theorem pairwise_leavesAll (nodes : List Node) (index : Nat) (path : List Nat) {start stop : Nat}
    (h : Node.areOrdered start stop nodes = true) :
    (leavesAll nodes index path).Pairwise fun first second => first.1.start ≤ second.1.start := by
  match nodes with
  | [] => exact .nil
  | node :: nodes =>
    obtain ⟨-, hnode, hnodes⟩ := Node.areOrdered_cons_iff.mp h
    rw [leavesAll, List.pairwise_append]
    refine ⟨?_, pairwise_leavesAll nodes _ path hnodes, ?_⟩
    · split
      · exact pairwise_leaves node _ hnode
      · exact .nil
    · -- a leaf of the first node lies in front of its end, the others behind it
      intro first hfirst second hsecond
      split at hfirst
      · obtain ⟨child, hchild, -, hsecond⟩ := mem_leavesAll_iff.mp hsecond
        have hmem := List.fst_mem_of_mem_zipIdx hchild
        obtain ⟨hbehind, -, hordered⟩ := Node.within_of_areOrdered hnodes hmem
        have hleft := (within_of_mem_leaves hfirst hnode).2
        have hright := (within_of_mem_leaves hsecond hordered).1
        omega
      · cases hfirst

end

/-- A name that is not collected before another one of the same target does not stand before it. -/
theorem start_le_of_not_mem_early {leaf' : Site} {early late : List (Node × List Nat)}
    (hordered : target.node.isOrdered = true)
    (hleaves : leaves target.node target.path = early ++ (leaf.node, leaf.path) :: late)
    (hleaf' : Writes target leaf') (hearly : (leaf'.node, leaf'.path) ∉ early) :
    leaf.node.start ≤ leaf'.node.start := by
  have hmem := mem_leaves_iff.mpr ⟨leaf', hleaf', rfl⟩
  have hsorted := pairwise_leaves target.node target.path hordered
  rw [hleaves, List.mem_append, List.mem_cons] at hmem
  rw [hleaves, List.pairwise_append, List.pairwise_cons] at hsorted
  rcases hmem with hmem | heq | hmem
  · exact absurd hmem hearly
  · exact (congrArg (·.1.start) heq).ge
  · exact hsorted.2.1.1 _ hmem

/-- The node at `inner` stands in the one at `site`, and not behind the part at `target`. -/
def InFront (site target inner : Site) : Prop :=
  ∃ i j, j ≤ i ∧ target.path = i :: site.path ∧ (j :: site.path) <:+ inner.path

/-- What an assignment further on in the tree writes to lies behind, unless that assignment stands in
the first one and not behind its target. -/
theorem inFront_or_le {site other target target' leaf leaf' : Site}
    (hsite : site.node.isOrdered = true) (hother : other.node.isOrdered = true)
    (hbehind : other ∈ site.preorder ∨ site.node.stop ≤ other.node.start) (hne : other ≠ site)
    (htarget : Assigns site target) (hleaf : Writes target leaf) (htarget' : Assigns other target')
    (hleaf' : Writes target' leaf') :
    InFront site target other ∨ leaf.node.start ≤ leaf'.node.start := by
  obtain ⟨hinside, htargetOrdered⟩ :=
    Site.within_of_mem_children hsite (mem_children_of_assigns htarget)
  obtain ⟨hinside', htargetOrdered'⟩ :=
    Site.within_of_mem_children hother (mem_children_of_assigns htarget')
  obtain ⟨hwithin, hspan⟩ := within_of_writes hleaf htargetOrdered
  obtain ⟨hwithin', -⟩ := within_of_writes hleaf' htargetOrdered'
  -- the leaf of the other assignment does not begin before that assignment
  have hlower : other.node.start ≤ leaf'.node.start := (hwithin'.trans hinside').1
  have hupper : leaf.node.start ≤ target.node.stop := hspan.trans hwithin.2
  rcases hbehind with hbelow | hbehind
  · rcases Site.mem_preorder_iff.mp hbelow with hself | ⟨child, hchild, hbelow⟩
    · exact absurd hself hne
    · have hmem := Site.mem_children_of_mem_namedChildren hchild
      obtain ⟨i, hi⟩ := Site.path_of_mem_children (mem_children_of_assigns htarget)
      obtain ⟨j, hj⟩ := Site.path_of_mem_children hmem
      by_cases hle : j ≤ i
      · exact .inl ⟨i, j, hle, hi, hj ▸ Site.suffix_of_mem_preorder hbelow⟩
      · right
        have hbetween := Site.stop_le_of_lt hsite (mem_children_of_assigns htarget) hmem hi hj
          (Nat.lt_of_not_le hle)
        have hchildOrdered := (Site.within_of_mem_children hsite hmem).2
        have hstart := (Site.within_of_mem_preorder hchildOrdered hbelow).1.1
        omega
  · right
    have hstop := hinside.2
    omega

end

/-- In an ordered tree no foreign name is written before the reported one, but by assignments that
stand in the reported assignment and not behind its target. -/
theorem assignmentFault?_least (name : Node → String) (source : List Char) (shift : Int)
    (root : Node) (references : List Site) (fault : Fault) (hordered : root.isOrdered = true)
    (hfault : assignmentFault? name (.ofSource source shift) root references = some fault) :
    ∃ site ∈ root.sites, ∃ target leaf, Assigns site target ∧ Writes target leaf ∧
      Foreign name references leaf ∧
      fault.pos = some (leaf.node.startIn (.ofSource source shift) : Int) ∧
      ∀ other ∈ root.sites, ∀ target' leaf', Assigns other target' → Writes target' leaf' →
        Foreign name references leaf' → InFront site target other ∨
          (leaf.node.start ≤ leaf'.node.start ∧
            leaf.node.startIn (.ofSource source shift) ≤
              leaf'.node.startIn (.ofSource source shift)) := by
  obtain ⟨before, site, behind, target, leaf, cause, hsites, htarget, hleaf, hcause, rfl, hbefore,
    early, late, hleaves, hearly⟩ := first_of_assignmentFault? hfault
  have hordered {other : Site} (hother : other ∈ root.sites) : other.node.isOrdered = true := by
    rw [Node.sites_eq_preorder] at hother
    exact (@Site.within_of_mem_preorder ⟨root, [], []⟩ other hordered hother).2
  have hsite : site ∈ root.sites := by
    rw [hsites]
    exact List.mem_append_cons_self
  have hmono {leaf' : Site} (hle : leaf.node.start ≤ leaf'.node.start) :
      leaf.node.start ≤ leaf'.node.start ∧ leaf.node.startIn (.ofSource source shift) ≤
        leaf'.node.startIn (.ofSource source shift) :=
    ⟨hle, Offsets.char_mono source shift (Int.ofNat_le.mpr hle)⟩
  refine ⟨site, hsite, target, leaf, htarget, hleaf, foreign_iff.mpr ⟨cause, hcause⟩, rfl, ?_⟩
  intro other hother target' leaf' htarget' hleaf' hforeign
  by_cases heq : other = site
  · -- the names of one target are collected in their order
    subst heq
    have hsame : target' = target :=
      Option.some_inj.mp ((assigns_iff.mp htarget').symm.trans (assigns_iff.mp htarget))
    rw [hsame] at hleaf'
    have htargetOrdered :=
      (Site.within_of_mem_children (hordered hsite) (mem_children_of_assigns htarget)).2
    right
    exact hmono (start_le_of_not_mem_early htargetOrdered hleaves hleaf' fun hmem =>
      hearly leaf' hmem hforeign)
  · have hpairwise := Site.pairwise_preorder_of_isOrdered (hordered root.root_mem_sites)
    rw [← Node.sites_eq_preorder, hsites, List.pairwise_append, List.pairwise_cons] at hpairwise
    rw [hsites, List.mem_append, List.mem_cons] at hother
    rcases hother with hother | hself | hother
    · exact absurd hforeign (hbefore other hother target' leaf' htarget' hleaf')
    · exact absurd hself heq
    · have hmem : other ∈ root.sites := by
        rw [hsites]
        exact List.mem_append_right _ (List.mem_cons_of_mem _ hother)
      exact (inFront_or_le (hordered hsite) (hordered hmem) (hpairwise.2.1.1 other hother) heq
        htarget hleaf htarget' hleaf').imp_right hmono

/-- The names that a destructuring assignment writes to come first: `y` at 11 is reported, though
the assignment to `x` at 3, which stands in the target, is not allowed either. -/
theorem assignmentFault?_least_destructuring :
    ∃ (text : List Char) (root : Node) (fault : Fault) (site target leaf : Site),
      text = "[o[x = 1], y] = z".toList ∧ Script.parse? text = some root ∧
      root.isOrdered = true ∧
      assignmentFault? (Script.nameIn text) (.ofSource text 0) root
        (freeReferences (Script.nameIn text) root) = some fault ∧
      fault.pos = some 11 ∧ site ∈ root.sites ∧ Assigns site target ∧ Writes target leaf ∧
      fault.pos = some (leaf.node.startIn (.ofSource text 0) : Int) ∧
      ∃ other ∈ root.sites, ∃ target' leaf', Assigns other target' ∧ Writes target' leaf' ∧
        Foreign (Script.nameIn text) (freeReferences (Script.nameIn text) root) leaf' ∧
        leaf'.node.start = 3 ∧ InFront site target other := by
  have heval : ((Script.parse? "[o[x = 1], y] = z".toList).bind fun root =>
      (assignmentFault? (Script.nameIn "[o[x = 1], y] = z".toList)
        (.ofSource "[o[x = 1], y] = z".toList 0) root
        (freeReferences (Script.nameIn "[o[x = 1], y] = z".toList) root)).bind fun fault =>
      ((assignedLeaves root).find? fun leaf => leaf.1.start == 3).map fun leaf =>
        (root.isOrdered, fault.pos,
          (violation? (Script.nameIn "[o[x = 1], y] = z".toList)
            ((freeReferences (Script.nameIn "[o[x = 1], y] = z".toList) root).map (·.path))
            leaf).isSome)) = some (true, some 11, true) := by decide +kernel
  obtain ⟨root, hroot, heval⟩ := Option.bind_eq_some_iff.mp heval
  obtain ⟨fault, hfault, heval⟩ := Option.bind_eq_some_iff.mp heval
  obtain ⟨entry, hfind, heval⟩ := Option.map_eq_some_iff.mp heval
  simp only [Prod.mk.injEq] at heval
  obtain ⟨hordered, hpos, hviolation⟩ := heval
  obtain ⟨other, hother, target', leaf', htarget', hleaf', rfl⟩ :=
    mem_assignedLeaves_iff.mp (List.mem_of_find?_eq_some hfind)
  have hstart := List.find?_some hfind
  rw [beq_iff_eq] at hstart
  obtain ⟨cause, hcause⟩ := Option.isSome_iff_exists.mp hviolation
  have hforeign := foreign_iff.mpr ⟨cause, violation?_eq_some_iff.mp hcause⟩
  obtain ⟨site, hsite, target, leaf, htarget, hleaf, -, hleast, hothers⟩ :=
    assignmentFault?_least _ _ 0 root _ fault hordered hfault
  refine ⟨_, root, fault, site, target, leaf, rfl, hroot, hordered, hfault, hpos, hsite, htarget,
    hleaf, hleast, other, hother, target', leaf', htarget', hleaf', hforeign, hstart, ?_⟩
  rcases hothers other hother target' leaf' htarget' hleaf' hforeign with hfront | ⟨-, hle⟩
  · exact hfront
  · -- the leaf at 3 does not begin behind the reported one at 11
    rw [hpos, Option.some_inj] at hleast
    have hthree : leaf'.node.startIn (.ofSource "[o[x = 1], y] = z".toList 0) = 3 := by
      rw [Node.startIn, hstart]
      decide +kernel
    omega

end NotebookCell.Scope
