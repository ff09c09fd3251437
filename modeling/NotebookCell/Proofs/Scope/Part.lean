import Mathlib.Data.List.Pairwise
import NotebookCell.Proofs.Scope.Occurrence

/-!
# Free names of a tree by its parts

A tree may be made of parts that stand next to each other with no scope around them, such as the holes
of a template. A declaration in one part then either belongs to a scope inside that part, where no
other part sees it, or it escapes to the root of the whole tree and hides its name in every part.

* `occurrences_lift`: a part at any place has the occurrences it has on its own, moved there;
* `freeNames_of_parts`: the free names of a tree are those of its parts on their own, without the
  names that escape from some part.
-/

namespace NotebookCell.Scope

open NotebookCell.Tree

/-! ## Moving a part -/

/-- The path in a tree for a path in a part of it, where the part stands at `path`. In the part on its
own the root has the path `[0]` and the place around it is empty. -/
def liftPath (path : List Nat) : List Nat → List Nat
  | [] => []
  | first :: rest => (first :: rest).dropLast ++ path

theorem liftPath_append (path inner : List Nat) : liftPath path (inner ++ [0]) = inner ++ path := by
  cases inner with
  | nil => rfl
  | cons first rest =>
    show (first :: (rest ++ [0])).dropLast ++ path = first :: rest ++ path
    rw [← List.cons_append, List.dropLast_concat]

/-- A declaration moved along with its part. -/
def Local.lift (path : List Nat) (binding : Local) : Local :=
  { binding with scope := liftPath path binding.scope }

/-- An occurrence moved along with its part. -/
def Occurrence.lift (path : List Nat) (occurrence : Occurrence) : Occurrence :=
  { occurrence with
      path := liftPath path occurrence.path
      declared := occurrence.declared.map (Local.lift path) }

/-- What a part has on its own. -/
def partOccurrences (name : Node → String) (node : Node) : List Occurrence :=
  occurrences name node [0] []

/-- The nodes that may stand above a part: they are no scope and no module syntax. -/
def isTransparent (node : Node) : Bool :=
  !isBlockScope node.kind && !namesModuleBindings node.kind

section
variable {name : Node → String} {path : List Nat} {outer : List Node}

/-- No scope is found above a part. -/
theorem go_of_isTransparent {isScope : Kind → Bool}
    (hscope : ∀ kind, isScope kind = true → isBlockScope kind = true)
    (houter : ∀ node ∈ outer, isTransparent node = true) (rest : List Nat) :
    Site.nearest.go isScope outer rest = [] := by
  induction outer generalizing rest with
  | nil => rfl
  | cons above outer ih =>
    have habove := houter above List.mem_cons_self
    rw [isTransparent, Bool.and_eq_true, Bool.not_eq_true'] at habove
    have hno : ¬ isScope above.kind = true := by
      intro h
      rw [hscope _ h] at habove
      exact Bool.noConfusion habove.1
    rw [Site.nearest.go, if_neg hno]
    exact ih (fun node hnode => houter node (List.mem_cons_of_mem _ hnode)) _

/-- The nearest scope is the same one inside the part, or lies outside on both sides. -/
theorem nearest_lift {isScope : Kind → Bool}
    (hscope : ∀ kind, isScope kind = true → isBlockScope kind = true)
    (houter : ∀ node ∈ outer, isTransparent node = true) (node : Node) {inner : List Nat}
    {within : List Node} (hlength : inner.length = within.length) :
    (⟨node, inner ++ path, within ++ outer⟩ : Site).nearest isScope =
      liftPath path ((⟨node, inner ++ [0], within⟩ : Site).nearest isScope) := by
  rw [Site.nearest, Site.nearest]
  dsimp only
  -- along the nodes between the site and the root of the part
  induction within generalizing inner with
  | nil =>
    rw [List.nil_append, go_of_isTransparent hscope houter]
    rfl
  | cons above within ih =>
    cases inner with
    | nil => cases hlength
    | cons first inner =>
      rw [List.length_cons, List.length_cons, Nat.add_right_cancel_iff] at hlength
      show Site.nearest.go isScope (above :: (within ++ outer)) (inner ++ path) =
        liftPath path (Site.nearest.go isScope (above :: within) (inner ++ [0]))
      rw [Site.nearest.go, Site.nearest.go]
      split
      · rw [liftPath_append]
      · exact ih hlength

theorem declareAll_lift (scope : List Nat) (nodes : List Node) :
    declareAll name (liftPath path scope) nodes =
      (declareAll name scope nodes).map (Local.lift path) := by
  rw [declareAll, declareAll, List.map_map]
  rfl

theorem declaratorLocals_lift (scope : List Nat) (node : Node) :
    declaratorLocals name (liftPath path scope) node =
      (declaratorLocals name scope node).map (Local.lift path) := by
  rw [declaratorLocals, declaratorLocals, List.map_flatMap]
  congr 1
  funext declarator
  exact declareAll_lift scope _

theorem functionLocals_lift (node : Node) (inner : List Nat) (within : List Node) :
    functionLocals name ⟨node, inner ++ path, within ++ outer⟩ =
      (functionLocals name ⟨node, inner ++ [0], within⟩).map (Local.lift path) := by
  rw [functionLocals, functionLocals]
  dsimp only
  rw [← liftPath_append path inner, declareAll_lift, declareAll_lift, declareAll_lift,
    List.map_append, List.map_append, List.map_append]
  congr 2
  · split <;> rfl
  · split <;> rfl

/-- What a site of a part declares moves along with the part. -/
theorem locals_lift (houter : ∀ node ∈ outer, isTransparent node = true) (node : Node)
    {inner : List Nat} {within : List Node} (hlength : inner.length = within.length) :
    locals name ⟨node, inner ++ path, within ++ outer⟩ =
      (locals name ⟨node, inner ++ [0], within⟩).map (Local.lift path) := by
  have hfunction : ∀ kind, isFunctionScope kind = true → isBlockScope kind = true :=
    fun kind h => by rw [isBlockScope, h, Bool.true_or]
  rw [locals, locals]
  dsimp only
  rw [nearest_lift hfunction houter node hlength,
    nearest_lift (fun _ h => h) houter node hlength, functionLocals_lift]
  split
  · exact declaratorLocals_lift _ node
  · exact declaratorLocals_lift _ node
  · split
    · rw [← declareAll_lift]
      congr 1
      split
      · rfl
      · exact (liftPath_append path inner).symm
    · rfl
  · rw [declareAll_lift, List.map_append]
  · rw [declareAll_lift, List.map_append]
  · rfl
  · rfl
  · rfl
  · rfl
  · rfl
  · exact declareAll_lift _ _
  · rw [← declareAll_lift, liftPath_append]
  · rw [← declareAll_lift, liftPath_append]
  · exact declareAll_lift [] _
  · rfl

theorem occurrence_lift (houter : ∀ node ∈ outer, isTransparent node = true) (node : Node)
    {inner : List Nat} {within : List Node} (hlength : inner.length = within.length) :
    occurrence name ⟨node, inner ++ path, within ++ outer⟩ =
      (occurrence name ⟨node, inner ++ [0], within⟩).lift path := by
  have hmodule : (outer.any fun node => namesModuleBindings node.kind) = false := by
    rw [List.any_eq_false]
    intro above habove
    have htransparent := houter above habove
    rw [isTransparent, Bool.and_eq_true, Bool.not_eq_true', Bool.not_eq_true'] at htransparent
    rw [htransparent.2]
    exact Bool.false_ne_true
  rw [occurrence, occurrence, Occurrence.lift]
  dsimp only
  rw [locals_lift houter node hlength, liftPath_append, List.any_append, hmodule, Bool.or_false]

mutual

theorem map_preorder_lift (houter : ∀ node ∈ outer, isTransparent node = true)
    (node : Node) (inner : List Nat) (within : List Node)
    (hlength : inner.length = within.length) :
    (node.preorder (inner ++ path) (within ++ outer)).map (occurrence name) =
      ((node.preorder (inner ++ [0]) within).map (occurrence name)).map (Occurrence.lift path) := by
  match node with
  | ⟨kind, start, stop, named, missing, field, children⟩ =>
    rw [Node.preorder, Node.preorder, List.map_cons, List.map_cons, List.map_cons,
      occurrence_lift houter _ hlength]
    congr 1
    exact map_preorders_lift houter children 0 inner
      (⟨kind, start, stop, named, missing, field, children⟩ :: within) (congrArg Nat.succ hlength)

theorem map_preorders_lift (houter : ∀ node ∈ outer, isTransparent node = true)
    (nodes : List Node) (index : Nat) (inner : List Nat) (within : List Node)
    (hlength : inner.length + 1 = within.length) :
    (Node.preorders nodes index (inner ++ path) (within ++ outer)).map (occurrence name) =
      ((Node.preorders nodes index (inner ++ [0]) within).map (occurrence name)).map
        (Occurrence.lift path) := by
  match nodes with
  | [] => rw [Node.preorders, Node.preorders]; rfl
  | node :: nodes =>
    rw [Node.preorders, Node.preorders, List.map_append, List.map_append, List.map_append,
      map_preorders_lift houter nodes (index + 1) inner within hlength]
    congr 1
    split
    · exact map_preorder_lift houter node (index :: inner) within hlength
    · rfl

end

/-- A part has the occurrences that it has on its own, moved to where it stands. -/
theorem occurrences_lift (houter : ∀ node ∈ outer, isTransparent node = true) (node : Node) :
    occurrences name node path outer = (partOccurrences name node).map (Occurrence.lift path) :=
  map_preorder_lift houter node [] [] rfl

end

/-! ## Putting parts together -/

/-- An occurrence of a part on its own: paths are those of the part's root and below, and scopes are,
too, unless they lie outside the part. -/
structure Occurrence.Placed (occurrence : Occurrence) : Prop where
  path : occurrence.path ≠ []
  lift : occurrence.lift [0] = occurrence

/-- A path that is unchanged by moving a part to its own place. -/
theorem exists_of_liftPath {scope : List Nat} (h : liftPath [0] scope = scope)
    (hne : scope ≠ []) : ∃ inner, scope = inner ++ [0] := by
  cases scope with
  | nil => exact absurd rfl hne
  | cons first rest => exact ⟨_, h.symm⟩

theorem Occurrence.Placed.exists_path {occurrence : Occurrence} (h : occurrence.Placed) :
    ∃ inner, occurrence.path = inner ++ [0] :=
  exists_of_liftPath (congrArg Occurrence.path h.lift) h.path

theorem Occurrence.Placed.exists_scope {occurrence : Occurrence} (h : occurrence.Placed)
    {binding : Local} (hbinding : binding ∈ occurrence.declared) (hne : binding.scope ≠ []) :
    ∃ inner, binding.scope = inner ++ [0] := by
  have hall : occurrence.declared.map (Local.lift [0]) = occurrence.declared.map id := by
    rw [List.map_id]
    exact congrArg Occurrence.declared h.lift
  have hone := List.map_inj_left.mp hall binding hbinding
  exact exists_of_liftPath (congrArg Local.scope hone) hne

theorem placed_of_mem {name : Node → String} {node : Node} {occurrence : Occurrence}
    (h : occurrence ∈ partOccurrences name node) : occurrence.Placed := by
  constructor
  · obtain ⟨site, hsite, rfl⟩ := List.mem_map.mp h
    obtain ⟨inner, hinner⟩ := node.suffix_of_mem_preorder [0] [] hsite
    intro hpath
    rw [show site.path = [] from hpath] at hinner
    simp at hinner
  · have hlift := @occurrences_lift name [0] [] (fun _ h => nomatch h) node
    have hall : (partOccurrences name node).map (Occurrence.lift [0]) =
        (partOccurrences name node).map id := by
      rw [List.map_id]
      exact hlift.symm
    exact List.map_inj_left.mp hall occurrence h

/-- A part of a tree: where it stands, and what it has on its own. -/
structure Part where
  path : List Nat
  own : List Occurrence

/-- What a part has at its place. -/
def Part.occurrences (part : Part) : List Occurrence :=
  part.own.map (Occurrence.lift part.path)

/-- The names that a part declares outside of itself. -/
def escapingNames (own : List Occurrence) : List String :=
  ((own.flatMap (·.declared)).filter (·.scope == [])).map (·.name)

/-- Whether a declaration inside the part binds an occurrence of it. -/
def BoundInside (own : List Occurrence) (occurrence : Occurrence) : Prop :=
  ∃ binding ∈ own.flatMap (·.declared), binding.scope ≠ [] ∧ binding.name = occurrence.name ∧
    isBelowScope binding.scope occurrence.path = true

theorem isBelowScope_iff {scope path : List Nat} :
    isBelowScope scope path = true ↔ scope.length < path.length ∧ scope <:+ path := by
  rw [isBelowScope, Bool.and_eq_true, decide_eq_true_iff, List.isSuffixOf_iff_suffix]

/-- Below is below, wherever the part stands. -/
theorem isBelowScope_append (path inner inner' : List Nat) :
    isBelowScope (inner ++ path) (inner' ++ path) = true ↔
      isBelowScope (inner ++ [0]) (inner' ++ [0]) = true := by
  rw [isBelowScope_iff, isBelowScope_iff, List.suffix_append_self_iff, List.suffix_append_self_iff]
  simp only [List.length_append, Nat.add_lt_add_iff_right]

theorem mem_escapingNames {own : List Occurrence} {name : String} :
    name ∈ escapingNames own ↔
      ∃ binding ∈ own.flatMap (·.declared), binding.scope = [] ∧ binding.name = name := by
  rw [escapingNames, List.mem_map]
  constructor
  · rintro ⟨binding, hbinding, hname⟩
    obtain ⟨hmem, hscope⟩ := List.mem_filter.mp hbinding
    exact ⟨binding, hmem, beq_iff_eq.mp hscope, hname⟩
  · rintro ⟨binding, hmem, hscope, hname⟩
    exact ⟨binding, List.mem_filter.mpr ⟨hmem, beq_iff_eq.mpr hscope⟩, hname⟩

/-- What is declared by a part at its place. -/
theorem mem_declared_occurrences {part : Part} {binding : Local} :
    binding ∈ part.occurrences.flatMap (·.declared) ↔
      ∃ own ∈ part.own.flatMap (·.declared), own.lift part.path = binding := by
  have hlift : part.occurrences.flatMap (·.declared) =
      (part.own.flatMap (·.declared)).map (Local.lift part.path) := by
    rw [Part.occurrences, List.flatMap_map, List.map_flatMap]
    rfl
  rw [hlift, List.mem_map]

theorem isBound_iff {declared : List Local} {occurrence : Occurrence} :
    occurrence.isBound declared = true ↔ ∃ binding ∈ declared, binding.name = occurrence.name ∧
      isBelowScope binding.scope occurrence.path = true := by
  rw [Occurrence.isBound, List.any_eq_true]
  simp only [Bool.and_eq_true, beq_iff_eq]

/-- A declaration inside a part that stands anywhere binds what it binds in the part on its own. -/
theorem isBelowScope_lift {own : List Occurrence} (hplaced : ∀ occurrence ∈ own, occurrence.Placed)
    {occurrence : Occurrence} (hmem : occurrence ∈ own) {binding : Local}
    (hbinding : binding ∈ own.flatMap (·.declared)) (hne : binding.scope ≠ []) (path : List Nat) :
    isBelowScope (binding.lift path).scope (occurrence.lift path).path = true ↔
      isBelowScope binding.scope occurrence.path = true := by
  obtain ⟨inner, hinner⟩ := (hplaced occurrence hmem).exists_path
  obtain ⟨other, hother, hdeclared⟩ := List.mem_flatMap.mp hbinding
  obtain ⟨inner', hinner'⟩ := (hplaced other hother).exists_scope hdeclared hne
  show isBelowScope (liftPath path binding.scope) (liftPath path occurrence.path) = true ↔ _
  rw [hinner, hinner', liftPath_append, liftPath_append]
  exact isBelowScope_append path inner' inner

/-- What is bound in a part on its own is bound inside of it, or its name escapes. -/
theorem isBound_own {own : List Occurrence} (hplaced : ∀ occurrence ∈ own, occurrence.Placed)
    {occurrence : Occurrence} (hmem : occurrence ∈ own) :
    let bound := (occurrence.lift []).isBound ((Part.mk [] own).occurrences.flatMap (·.declared))
    (bound = true → occurrence.name ∈ escapingNames own ∨ BoundInside own occurrence) ∧
      (BoundInside own occurrence → bound = true) := by
  intro bound
  constructor
  · intro hbound
    obtain ⟨binding, hbinding, hname, hbelow⟩ := isBound_iff.mp hbound
    obtain ⟨original, horiginal, rfl⟩ := mem_declared_occurrences.mp hbinding
    by_cases hscope : original.scope = []
    · exact .inl (mem_escapingNames.mpr ⟨original, horiginal, hscope, hname⟩)
    · exact .inr ⟨original, horiginal, hscope, hname,
        (isBelowScope_lift hplaced hmem horiginal hscope []).mp hbelow⟩
  · rintro ⟨binding, hbinding, hscope, hname, hbelow⟩
    exact isBound_iff.mpr ⟨binding.lift [], mem_declared_occurrences.mpr ⟨binding, hbinding, rfl⟩,
      hname, (isBelowScope_lift hplaced hmem hbinding hscope []).mpr hbelow⟩

/-- Two parts where neither holds the other. -/
def Part.Apart (part other : Part) : Prop :=
  ¬ part.path <:+ other.path ∧ ¬ other.path <:+ part.path

instance : Std.Symm Part.Apart where
  symm _ _ h := ⟨h.2, h.1⟩

section
variable {parts : List Part}

/-- In the whole tree a name is bound inside its part, or because it escapes from some part. -/
theorem isBound_whole (hplaced : ∀ part ∈ parts, ∀ occurrence ∈ part.own, occurrence.Placed)
    (hpath : ∀ part ∈ parts, part.path ≠ []) (hapart : parts.Pairwise Part.Apart) {part : Part}
    (hpart : part ∈ parts) {occurrence : Occurrence} (hmem : occurrence ∈ part.own) :
    (occurrence.lift part.path).isBound
        ((parts.flatMap Part.occurrences).flatMap (·.declared)) = true ↔
      occurrence.name ∈ parts.flatMap (fun part => escapingNames part.own) ∨
        BoundInside part.own occurrence := by
  obtain ⟨inner, hinner⟩ := (hplaced part hpart occurrence hmem).exists_path
  have hlifted : (occurrence.lift part.path).path = inner ++ part.path := by
    show liftPath part.path occurrence.path = _
    rw [hinner, liftPath_append]
  rw [isBound_iff, List.flatMap_assoc]
  constructor
  · rintro ⟨binding, hbinding, hname, hbelow⟩
    obtain ⟨other, hother, hbinding⟩ := List.mem_flatMap.mp hbinding
    obtain ⟨original, horiginal, rfl⟩ := mem_declared_occurrences.mp hbinding
    by_cases hscope : original.scope = []
    · exact .inl (List.mem_flatMap.mpr
        ⟨other, hother, mem_escapingNames.mpr ⟨original, horiginal, hscope, hname⟩⟩)
    by_cases hsame : other = part
    · rw [hsame] at horiginal hbelow
      exact .inr ⟨original, horiginal, hscope, hname,
        (isBelowScope_lift (hplaced part hpart) hmem horiginal hscope part.path).mp hbelow⟩
    · -- a scope inside another part lies above nothing of this one
      exfalso
      obtain ⟨source, hsource, hdeclared⟩ := List.mem_flatMap.mp horiginal
      obtain ⟨inner', hinner'⟩ := (hplaced other hother source hsource).exists_scope hdeclared hscope
      have hscope' : (original.lift other.path).scope = inner' ++ other.path := by
        show liftPath other.path original.scope = _
        rw [hinner', liftPath_append]
      have hsuffix := (isBelowScope_iff.mp hbelow).2
      rw [hscope', hlifted] at hsuffix
      have hother' : other.path <:+ inner ++ part.path := (List.suffix_append _ _).trans hsuffix
      obtain ⟨hno, hno'⟩ := hapart.forall hother hpart hsame
      rcases List.suffix_or_suffix_of_suffix hother' (List.suffix_append inner part.path) with h | h
      · exact hno h
      · exact hno' h
  · rintro (hescapes | ⟨binding, hbinding, hscope, hname, hbelow⟩)
    · obtain ⟨other, hother, hescapes⟩ := List.mem_flatMap.mp hescapes
      obtain ⟨binding, hbinding, hscope, hname⟩ := mem_escapingNames.mp hescapes
      refine ⟨binding.lift other.path, List.mem_flatMap.mpr
        ⟨other, hother, mem_declared_occurrences.mpr ⟨binding, hbinding, rfl⟩⟩, hname, ?_⟩
      have hroot : (binding.lift other.path).scope = [] := by
        show liftPath other.path binding.scope = []
        rw [hscope]
        rfl
      rw [hroot, hlifted, isBelowScope_iff]
      refine ⟨?_, List.nil_suffix⟩
      have hlong := List.length_pos_iff.mpr (hpath part hpart)
      rw [List.length_append, List.length_nil]
      omega
    · exact ⟨binding.lift part.path, List.mem_flatMap.mpr
        ⟨part, hpart, mem_declared_occurrences.mpr ⟨binding, hbinding, rfl⟩⟩, hname,
        (isBelowScope_lift (hplaced part hpart) hmem hbinding hscope part.path).mpr hbelow⟩

/-- Names are not changed by moving. -/
theorem map_name_filter_occurrences (part : Part) (test : Occurrence → Bool) :
    (part.occurrences.filter test).map (·.name) =
      (part.own.filter fun occurrence => test (occurrence.lift part.path)).map (·.name) := by
  rw [Part.occurrences, List.filter_map, List.map_map]
  rfl

/-- The free names of a tree of parts are those of its parts on their own, without the names that
escape from some part. -/
theorem freeNames_of_parts (hplaced : ∀ part ∈ parts, ∀ occurrence ∈ part.own, occurrence.Placed)
    (hpath : ∀ part ∈ parts, part.path ≠ []) (hapart : parts.Pairwise Part.Apart) :
    freeNames (parts.flatMap Part.occurrences) =
      (parts.flatMap fun part => freeNames (Part.mk [] part.own).occurrences).filter fun name =>
        !(parts.flatMap fun part => escapingNames part.own).contains name := by
  rw [freeNames, List.filter_flatMap, List.map_flatMap, List.filter_flatMap]
  apply List.flatMap_congr
  intro part hpart
  rw [freeNames, map_name_filter_occurrences, map_name_filter_occurrences, List.filter_map,
    List.filter_filter]
  congr 1
  apply List.filter_congr
  intro occurrence hmem
  have hwhole := isBound_whole hplaced hpath hapart hpart hmem
  obtain ⟨hown, hinside⟩ := isBound_own (hplaced part hpart) hmem
  have hescapes : occurrence.name ∈ escapingNames part.own →
      occurrence.name ∈ parts.flatMap (fun part => escapingNames part.own) :=
    fun h => List.mem_flatMap.mpr ⟨part, hpart, h⟩
  have hrefers : ∀ path, (occurrence.lift path).refers = occurrence.refers := fun _ => rfl
  rw [Bool.eq_iff_iff, hrefers, hrefers, Function.comp_apply]
  simp only [Bool.and_eq_true, Bool.not_eq_true', ← Bool.not_eq_true, List.contains_iff_mem, hwhole]
  constructor
  · rintro ⟨hrefers, hfree⟩
    refine ⟨fun h => hfree (.inl h), hrefers, fun hbound => hfree ?_⟩
    exact (hown hbound).imp_left hescapes
  · rintro ⟨hno, hrefers, hfree⟩
    refine ⟨hrefers, ?_⟩
    rintro (h | h)
    · exact hno h
    · exact hfree (hinside h)

end

end NotebookCell.Scope
