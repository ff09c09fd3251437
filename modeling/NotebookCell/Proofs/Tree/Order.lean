import Mathlib.Data.List.Pairwise
import NotebookCell.Proofs.Tree.Above
import NotebookCell.Text.Offsets

/-!
# Trees in the order of their text

In an ordered tree the children of a node lie inside of it, one behind the other. What comes later in
a traversal is then below a node or behind its end, and character offsets follow byte offsets.

* `Site.within_of_mem_preorder`: what is below a site lies inside of it;
* `Site.stop_le_of_lt`: of two children the earlier one ends before the later one begins;
* `Site.pairwise_preorder_of_isOrdered`: what is met later is below or behind;
* `Offsets.char_mono`: a later byte is of no earlier character;
* `Offsets.char_le`: every byte is of a character of the source, or of its end.
-/

namespace NotebookCell.Tree

namespace Node

mutual

/-- Whether the children of every node lie inside of it, one behind the other. -/
def isOrdered (node : Node) : Bool :=
  match node with
  | ⟨_, start, stop, _, _, _, children⟩ => areOrdered start stop children

/-- Whether ordered trees lie one behind the other between two offsets. -/
def areOrdered (start stop : Nat) (nodes : List Node) : Bool :=
  match nodes with
  | [] => start ≤ stop
  | node :: nodes => start ≤ node.start && isOrdered node && areOrdered node.stop stop nodes

end

theorem isOrdered_eq (node : Node) :
    node.isOrdered = areOrdered node.start node.stop node.children := by
  cases node
  rw [isOrdered]

theorem areOrdered_cons_iff {start stop : Nat} {node : Node} {nodes : List Node} :
    areOrdered start stop (node :: nodes) = true ↔
      start ≤ node.start ∧ node.isOrdered = true ∧ areOrdered node.stop stop nodes = true := by
  rw [areOrdered, Bool.and_eq_true, Bool.and_eq_true, decide_eq_true_iff, and_assoc]

mutual

/-- A node of an ordered tree ends behind its start. -/
theorem start_le_stop (node : Node) (h : node.isOrdered = true) : node.start ≤ node.stop := by
  match node with
  | ⟨kind, start, stop, named, missing, field, children⟩ =>
    rw [isOrdered] at h
    exact le_of_areOrdered children h

theorem le_of_areOrdered (nodes : List Node) {start stop : Nat}
    (h : areOrdered start stop nodes = true) : start ≤ stop := by
  match nodes with
  | [] => exact of_decide_eq_true h
  | node :: nodes =>
    obtain ⟨hstart, hnode, hnodes⟩ := areOrdered_cons_iff.mp h
    have hinner := start_le_stop node hnode
    have hrest := le_of_areOrdered nodes hnodes
    omega

end

/-- The nodes between two offsets lie there. -/
theorem within_of_areOrdered {start stop : Nat} {nodes : List Node}
    (h : areOrdered start stop nodes = true) {node : Node} (hnode : node ∈ nodes) :
    start ≤ node.start ∧ node.stop ≤ stop ∧ node.isOrdered = true := by
  induction nodes generalizing start with
  | nil => cases hnode
  | cons first nodes ih =>
    obtain ⟨hstart, hfirst, hnodes⟩ := areOrdered_cons_iff.mp h
    rcases List.mem_cons.mp hnode with rfl | hnode
    · exact ⟨hstart, le_of_areOrdered nodes hnodes, hfirst⟩
    · obtain ⟨hlower, hupper, hordered⟩ := ih hnodes hnode
      have hinner := start_le_stop first hfirst
      exact ⟨by omega, hupper, hordered⟩

theorem pairwise_of_areOrdered {start stop : Nat} {nodes : List Node}
    (h : areOrdered start stop nodes = true) :
    nodes.Pairwise fun first second => first.stop ≤ second.start := by
  induction nodes generalizing start with
  | nil => exact .nil
  | cons first nodes ih =>
    obtain ⟨-, -, hnodes⟩ := areOrdered_cons_iff.mp h
    exact .cons (fun second hsecond => (within_of_areOrdered hnodes hsecond).1) (ih hnodes)

end Node

/-! ## Sites of an ordered tree -/

namespace Site

/-- A site lies inside of another one. -/
def Within (inner outer : Site) : Prop :=
  outer.node.start ≤ inner.node.start ∧ inner.node.stop ≤ outer.node.stop

variable {site child first second other : Site}

theorem Within.trans (h : other.Within child) (h' : child.Within site) : other.Within site :=
  ⟨h'.1.trans h.1, h.2.trans h'.2⟩

theorem within_of_mem_children (h : site.node.isOrdered = true) (hchild : child ∈ site.children) :
    child.Within site ∧ child.node.isOrdered = true := by
  rw [Node.isOrdered_eq] at h
  obtain ⟨node, index, hindex, rfl⟩ := exists_of_mem_children hchild
  obtain ⟨hstart, hstop, hordered⟩ := Node.within_of_areOrdered h (List.mem_of_getElem? hindex)
  exact ⟨⟨hstart, hstop⟩, hordered⟩

/-- What is below a site of an ordered tree lies inside of it. -/
theorem within_of_mem_preorder (h : site.node.isOrdered = true) (hother : other ∈ site.preorder) :
    other.Within site ∧ other.node.isOrdered = true := by
  refine preorder_induction (P := fun other => other.Within site ∧ other.node.isOrdered = true)
    ?_ ⟨⟨le_rfl, le_rfl⟩, h⟩ other hother
  rintro upper ⟨hupper, hordered⟩ child hchild
  obtain ⟨hwithin, hordered⟩ :=
    within_of_mem_children hordered (mem_children_of_mem_namedChildren hchild)
  exact ⟨hwithin.trans hupper, hordered⟩

/-- Of two children the one at the earlier position ends before the other one begins. -/
theorem stop_le_of_lt (h : site.node.isOrdered = true) (hfirst : first ∈ site.children)
    (hsecond : second ∈ site.children) {i j : Nat} (hi : first.path = i :: site.path)
    (hj : second.path = j :: site.path) (hlt : i < j) : first.node.stop ≤ second.node.start := by
  rw [Node.isOrdered_eq] at h
  -- the first part of a path is the position among the children
  obtain ⟨node, index, hindex, rfl⟩ := exists_of_mem_children hfirst
  obtain ⟨node', index', hindex', rfl⟩ := exists_of_mem_children hsecond
  obtain ⟨rfl, -⟩ := List.cons.inj hi
  obtain ⟨rfl, -⟩ := List.cons.inj hj
  obtain ⟨hbound, rfl⟩ := List.getElem?_eq_some_iff.mp hindex
  obtain ⟨hbound', rfl⟩ := List.getElem?_eq_some_iff.mp hindex'
  exact List.pairwise_iff_getElem.mp (Node.pairwise_of_areOrdered h) _ _ hbound hbound' hlt

/-- What a traversal of an ordered tree meets later is below or behind. -/
theorem pairwise_preorder_of_isOrdered (h : site.node.isOrdered = true) :
    site.preorder.Pairwise fun first second =>
      second ∈ first.preorder ∨ first.node.stop ≤ second.node.start := by
  induction hsize : site.node.size using Nat.strongRecOn generalizing site with
  | ind size ih =>
    rw [preorder_eq, List.pairwise_cons]
    constructor
    · intro other hother
      left
      rw [preorder_eq]
      exact List.mem_cons_of_mem _ hother
    · rw [List.pairwise_flatMap]
      have hordered {child : Site} (hchild : child ∈ site.namedChildren) :
          child.node.isOrdered = true :=
        (within_of_mem_children h (mem_children_of_mem_namedChildren hchild)).2
      constructor
      · intro child hchild
        have hlt := size_lt_of_mem_namedChildren hchild
        exact ih _ (hsize ▸ hlt) (hordered hchild) rfl
      · -- everything below one child ends before the next one begins
        refine List.Pairwise.imp_of_mem ?_ (site.pairwise_children.filter _)
        rintro first second hfirst hsecond ⟨i, j, hlt, hi, hj⟩ upper hupper lower hlower
        have hbetween := stop_le_of_lt h (mem_children_of_mem_namedChildren hfirst)
          (mem_children_of_mem_namedChildren hsecond) hi hj hlt
        obtain ⟨⟨-, hstop⟩, -⟩ := within_of_mem_preorder (hordered hfirst) hupper
        obtain ⟨⟨hstart, -⟩, -⟩ := within_of_mem_preorder (hordered hsecond) hlower
        right
        omega

end Site

end NotebookCell.Tree

/-! ## From bytes to characters -/

namespace NotebookCell.Text

theorem le_of_mem_ownersFrom {index owner : Nat} {text : List Char}
    (h : owner ∈ ownersFrom index text ++ [index + text.length]) : index ≤ owner := by
  induction text generalizing index with
  | nil => exact (List.mem_singleton.mp h).ge
  | cons c text ih =>
    rw [ownersFrom, List.append_assoc, List.mem_append] at h
    rcases h with hfirst | hrest
    · exact (List.mem_replicate.mp hfirst).2.ge
    · rw [List.length_cons, Nat.add_comm text.length, ← Nat.add_assoc] at hrest
      exact (Nat.le_succ index).trans (ih hrest)

theorem pairwise_ownersFrom (index : Nat) (text : List Char) :
    (ownersFrom index text ++ [index + text.length]).Pairwise (· ≤ ·) := by
  induction text generalizing index with
  | nil => exact List.pairwise_singleton _ _
  | cons c text ih =>
    rw [ownersFrom, List.append_assoc, List.length_cons, Nat.add_comm text.length, ← Nat.add_assoc,
      List.pairwise_append]
    refine ⟨List.pairwise_replicate.mpr (.inr le_rfl), ih (index + 1), ?_⟩
    intro owner howner other hother
    rw [(List.mem_replicate.mp howner).2]
    exact (Nat.le_succ index).trans (le_of_mem_ownersFrom hother)

theorem clamp_mono (length : Nat) {pos pos' : Int} (h : pos ≤ pos') :
    clamp length pos ≤ clamp length pos' := by
  unfold clamp
  omega

/-- A later byte is of no earlier character. -/
theorem Offsets.char_mono (source : List Char) (shift : Int) {byte byte' : Int} (h : byte ≤ byte') :
    (Offsets.ofSource source shift).char byte ≤ (Offsets.ofSource source shift).char byte' := by
  have hbytes : byte - shift ≤ byte' - shift := by omega
  rw [char, char, ofSource]
  dsimp only
  split
  · exact clamp_mono _ hbytes
  · next owners howners =>
    split at howners
    · cases howners
    · cases howners
      have hsorted := pairwise_ownersFrom 0 source
      rw [Nat.zero_add] at hsorted
      -- the last owner is there for the end of the text, so that no index is out of range
      have hsize : 0 < (ownersFrom 0 source ++ [source.length]).length := by
        rw [List.length_append]
        exact Nat.succ_pos _
      have hindices := clamp_mono ((ownersFrom 0 source ++ [source.length]).length - 1) hbytes
      have hbound (pos : Int) : clamp ((ownersFrom 0 source ++ [source.length]).length - 1) pos <
          (ownersFrom 0 source ++ [source.length]).length := by
        unfold clamp
        omega
      rw [Array.getD_eq_getD_getElem?, Array.getD_eq_getD_getElem?, List.getElem?_toArray,
        List.getElem?_toArray, List.size_toArray, List.getElem?_eq_getElem (hbound _),
        List.getElem?_eq_getElem (hbound _), Option.getD_some, Option.getD_some]
      exact hsorted.rel_get_of_le (a := ⟨_, hbound _⟩) (b := ⟨_, hbound _⟩) hindices

/-- No owner lies behind the end of the source. -/
theorem le_length_of_mem_owners {source : List Char} {owner : Nat}
    (h : owner ∈ ownersFrom 0 source ++ [source.length]) : owner ≤ source.length := by
  have hsorted := pairwise_ownersFrom 0 source
  rw [Nat.zero_add] at hsorted
  rcases List.mem_append.mp h with howner | hend
  · exact (List.pairwise_append.mp hsorted).2.2 owner howner _ (List.mem_singleton_self _)
  · exact (List.mem_singleton.mp hend).le

/-- Byte offsets lead into the source. -/
theorem Offsets.char_le (source : List Char) (shift byte : Int) :
    (Offsets.ofSource source shift).char byte ≤ source.length := by
  rw [char, ofSource]
  dsimp only
  split
  · exact Nat.min_le_right _ _
  · next owners howners =>
    split at howners
    · cases howners
    · cases howners
      rw [Array.getD_eq_getD_getElem?, List.getElem?_toArray]
      cases hget : (ownersFrom 0 source ++ [source.length])[clamp
          ((ownersFrom 0 source ++ [source.length]).toArray.size - 1) (byte - shift)]? with
      | none => exact Nat.zero_le _
      | some owner => exact le_length_of_mem_owners (List.mem_of_getElem? hget)

end NotebookCell.Text
