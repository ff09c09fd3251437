import NotebookCell.Proofs.Tree.Above
import NotebookCell.Scope.Reference

/-!
# Free references by recursion on the tree

The search for free references declares names into a table of scopes on one walk and looks them up
on another. Here the names that are declared at a node for what is below it are defined by recursion
on that node alone (`namesAt`): its own ones, and those of the declarations below it that have no
nearer scope (`hoisted`). What is declared at no node around a reference is free.

* `exists_nearest_iff`: declarations of one sort belong to the sites that gather them;
* `mem_locals_iff`: what one node declares, and where;
* `isBound_iff_exists_above`: a name is bound if it is declared at a site above;
* `references_eq_filter`: the free references are the unbound ones, in preorder and each once.
-/

namespace NotebookCell.Scope

open NotebookCell.Tree

/-! ## Hoisting -/

section
variable (declared : Node → List String) (isScope : Kind → Bool)

mutual

/-- The names that a node, or a node below it, hands to the scope around: those of the node itself,
and those from below unless the node is a scope. -/
def hoisted (node : Node) : List String :=
  match node with
  | ⟨kind, start, stop, named, missing, field, children⟩ =>
    declared ⟨kind, start, stop, named, missing, field, children⟩ ++
      if isScope kind then [] else hoistedAll children

/-- The names that the named ones of some nodes hand to the scope around. -/
def hoistedAll (nodes : List Node) : List String :=
  match nodes with
  | [] => []
  | node :: nodes => (if node.named then hoisted node else []) ++ hoistedAll nodes

end

variable {declared isScope}

theorem mem_hoisted_iff {node : Node} {word : String} :
    word ∈ hoisted declared isScope node ↔ word ∈ declared node ∨
      isScope node.kind = false ∧ word ∈ hoistedAll declared isScope node.children := by
  obtain ⟨kind, start, stop, named, missing, field, children⟩ := node
  rw [hoisted, List.mem_append]
  cases isScope kind <;> simp

theorem mem_hoistedAll_iff {nodes : List Node} {word : String} :
    word ∈ hoistedAll declared isScope nodes ↔
      ∃ node ∈ nodes, node.named = true ∧ word ∈ hoisted declared isScope node := by
  induction nodes with
  | nil => simp [hoistedAll]
  | cons node nodes ih =>
    rw [hoistedAll, List.mem_append, ih, List.exists_mem_cons_iff]
    cases node.named <;> simp

/-- What the children of a site hand up comes from one of its named children. -/
theorem mem_hoistedAll_children_iff {site : Site} {word : String} :
    word ∈ hoistedAll declared isScope site.node.children ↔
      ∃ child ∈ site.namedChildren, word ∈ hoisted declared isScope child.node := by
  have hmap := site.map_node_namedChildren
  rw [mem_hoistedAll_iff]
  constructor
  · rintro ⟨node, hnode, hnamed, hword⟩
    have hmem : node ∈ site.node.namedChildren := List.mem_filter.mpr ⟨hnode, hnamed⟩
    rw [← hmap, List.mem_map] at hmem
    obtain ⟨child, hchild, rfl⟩ := hmem
    exact ⟨child, hchild, hword⟩
  · rintro ⟨child, hchild, hword⟩
    have hmem : child.node ∈ site.node.namedChildren := hmap ▸ List.mem_map_of_mem hchild
    obtain ⟨hnode, hnamed⟩ := List.mem_filter.mp hmem
    exact ⟨child.node, hnode, hnamed, hword⟩

variable (declared isScope) in
/-- The names of the declarations that belong to a site: if it is a scope, of those below it with no
scope between, and if it is the root, of those that have no scope around them at all. -/
def gathered (site : Site) : List String :=
  (if isScope site.node.kind then hoistedAll declared isScope site.node.children else []) ++
    if site.path = [] then hoisted declared isScope site.node else []

theorem mem_gathered_iff {site : Site} {word : String} :
    word ∈ gathered declared isScope site ↔
      (isScope site.node.kind = true ∧ word ∈ hoistedAll declared isScope site.node.children) ∨
      (site.path = [] ∧ word ∈ hoisted declared isScope site.node) := by
  rw [gathered, List.mem_append]
  by_cases hroot : site.path = [] <;> cases isScope site.node.kind <;> simp [hroot]

/-- What the children of a site hand up stops at the site if it is a scope, and goes on to the
nearest scope around it otherwise. -/
theorem exists_child_nearest_iff {site : Site} {path : List Nat} {word : String} :
    (∃ child ∈ site.namedChildren, child.nearest isScope = path ∧
        word ∈ hoisted declared isScope child.node) ↔
      (if isScope site.node.kind = true then site.path else site.nearest isScope) = path ∧
        word ∈ hoistedAll declared isScope site.node.children := by
  have hnearest : ∀ child ∈ site.namedChildren, child.nearest isScope =
      if isScope site.node.kind = true then site.path else site.nearest isScope :=
    fun child hchild =>
      Site.nearest_of_mem_children (Site.mem_children_of_mem_namedChildren hchild) isScope
  rw [mem_hoistedAll_children_iff]
  constructor
  · rintro ⟨child, hchild, hpath, hword⟩
    exact ⟨hnearest child hchild ▸ hpath, child, hchild, hword⟩
  · rintro ⟨hpath, child, hchild, hword⟩
    exact ⟨child, hchild, (hnearest child hchild).trans hpath, hword⟩

/-- The declarations at and below a site belong to a scope among these nodes, or else to the nearest
scope around the site. -/
theorem exists_nearest_preorder_iff {site : Site} {path : List Nat} {word : String} :
    (∃ other ∈ site.preorder, other.nearest isScope = path ∧ word ∈ declared other.node) ↔
      (site.nearest isScope = path ∧ word ∈ hoisted declared isScope site.node) ∨
      ∃ scope ∈ site.preorder, scope.path = path ∧ isScope scope.node.kind = true ∧
        word ∈ hoistedAll declared isScope scope.node.children := by
  induction hsize : site.node.size using Nat.strongRecOn generalizing site with
  | ind size ih =>
    -- the statement for each child, taken together over the children
    have hbelow : (∃ other ∈ site.namedChildren.flatMap Site.preorder,
          other.nearest isScope = path ∧ word ∈ declared other.node) ↔
        (∃ child ∈ site.namedChildren, child.nearest isScope = path ∧
          word ∈ hoisted declared isScope child.node) ∨
        ∃ scope ∈ site.namedChildren.flatMap Site.preorder, scope.path = path ∧
          isScope scope.node.kind = true ∧
          word ∈ hoistedAll declared isScope scope.node.children := by
      have hih := fun child hchild =>
        @ih _ (hsize ▸ Site.size_lt_of_mem_namedChildren hchild) child rfl
      simp only [List.mem_flatMap]
      constructor
      · rintro ⟨other, ⟨child, hchild, hother⟩, hdeclares⟩
        rcases (hih child hchild).mp ⟨other, hother, hdeclares⟩ with h | ⟨scope, hscope, h⟩
        · exact .inl ⟨child, hchild, h⟩
        · exact .inr ⟨scope, ⟨child, hchild, hscope⟩, h⟩
      · rintro (⟨child, hchild, h⟩ | ⟨scope, ⟨child, hchild, hscope⟩, h⟩)
        · obtain ⟨other, hother, hdeclares⟩ := (hih child hchild).mpr (.inl h)
          exact ⟨other, ⟨child, hchild, hother⟩, hdeclares⟩
        · obtain ⟨other, hother, hdeclares⟩ := (hih child hchild).mpr (.inr ⟨scope, hscope, h⟩)
          exact ⟨other, ⟨child, hchild, hother⟩, hdeclares⟩
    rw [site.preorder_eq, List.exists_mem_cons_iff, List.exists_mem_cons_iff, hbelow,
      exists_child_nearest_iff, mem_hoisted_iff]
    -- the site takes what its children hand up, or hands it on
    cases isScope site.node.kind
    · simp only [Bool.false_eq_true, if_false, false_and, and_false, false_or, true_and, and_or_left,
        or_assoc]
    · simp only [Bool.true_eq_false, if_true, false_and, or_false, true_and]

/-- Every declaration of a tree belongs to one of its sites. -/
theorem exists_nearest_iff {root : Node} {path : List Nat} {word : String} :
    (∃ site ∈ root.sites, site.nearest isScope = path ∧ word ∈ declared site.node) ↔
      ∃ scope ∈ root.sites, scope.path = path ∧ word ∈ gathered declared isScope scope := by
  have hroot : (⟨root, [], []⟩ : Site).nearest isScope = [] := rfl
  rw [root.sites_eq_preorder, exists_nearest_preorder_iff, hroot, ← root.sites_eq_preorder]
  constructor
  · rintro (⟨rfl, hword⟩ | ⟨scope, hscope, hpath, hkind, hword⟩)
    · exact ⟨_, root.root_mem_sites, rfl, mem_gathered_iff.mpr (.inr ⟨rfl, hword⟩)⟩
    · exact ⟨scope, hscope, hpath, mem_gathered_iff.mpr (.inl ⟨hkind, hword⟩)⟩
  · rintro ⟨scope, hscope, hpath, hword⟩
    -- only the root has an empty path, and it takes what no scope takes
    rcases mem_gathered_iff.mp hword with ⟨hkind, hword⟩ | ⟨hempty, hword⟩
    · exact .inr ⟨scope, hscope, hpath, hkind, hword⟩
    · rw [Node.eq_root_of_mem_sites hscope hempty] at hword
      exact .inl ⟨hempty.symm.trans hpath, hword⟩

end

/-! ## What a node declares -/

section
variable (name : Node → String)

/-- The name of the child in a given role. -/
def childNames (node : Node) (field : Field) : List String :=
  (node.child? field).toList.map name

/-- The names that the pattern in a given role declares. -/
def patternNames (node : Node) (field : Field) : List String :=
  (bindingsOf node field).map name

/-- The names of the variables of a declaration. -/
def declaratorNames (node : Node) : List String :=
  (node.namedChildren.filter (·.kind == .variableDeclarator)).flatMap (patternNames name · .name)

/-- The variables that a node declares for the function around it. A loop over elements declares its
head so if its keyword is `var`. -/
def variableNames (node : Node) : List String :=
  match node.kind with
  | .variableDeclaration => declaratorNames name node
  | .forInStatement =>
    if (node.child? .kind).any (·.kind == .token "var") then patternNames name node .left else []
  | _ => []

/-- The function that a node declares. -/
def functionName (node : Node) : List String :=
  match node.kind with
  | .functionDeclaration | .generatorFunctionDeclaration => childNames name node .name
  | _ => []

/-- All that a node declares for the function around it. -/
def functionWideNames (node : Node) : List String :=
  variableNames name node ++ functionName name node

/-- What a node declares for the block around it. -/
def blockWideNames (node : Node) : List String :=
  match node.kind with
  | .lexicalDeclaration => declaratorNames name node
  | .classDeclaration => childNames name node .name
  | _ => []

/-- What a node declares for the whole tree. -/
def importedNames (node : Node) : List String :=
  match node.kind with
  | .importStatement => (importLocals node).map name
  | _ => []

/-- The parameters of a function. -/
def parameterNames (node : Node) : List String :=
  patternNames name node .parameters ++ patternNames name node .parameter

/-- The name of a function that it binds inside itself: declarations and methods do not. -/
def ownFunctionName (node : Node) : List String :=
  match node.kind with
  | .functionDeclaration | .generatorFunctionDeclaration | .methodDefinition => []
  | _ => childNames name node .name

/-- The name of the arguments, which every function has but an arrow function. -/
def argumentsName (node : Node) : List String :=
  if node.kind == .arrowFunction then [] else ["arguments"]

/-- The loop variables that a loop over elements declares for itself. -/
def loopNames (node : Node) : List String :=
  if (node.child? .kind).any (·.kind != .token "var") then patternNames name node .left else []

/-- What a node declares for all that is below it. -/
def ownNames (node : Node) : List String :=
  if node.kind.isFunction then
    parameterNames name node ++ ownFunctionName name node ++ argumentsName node
  else
    match node.kind with
    | .classExpression => childNames name node .name
    | .catchClause => patternNames name node .parameter
    | .forInStatement => loopNames name node
    | _ => []

variable {name} {binding : Local} {site : Site}

theorem mem_declareAll_iff {scope : List Nat} {nodes : List Node} :
    binding ∈ declareAll name scope nodes ↔
      binding.scope = scope ∧ binding.name ∈ nodes.map name := by
  obtain ⟨at', word⟩ := binding
  rw [declareAll, List.mem_map, List.mem_map]
  constructor
  · rintro ⟨node, hnode, heq⟩
    obtain ⟨rfl, rfl⟩ := Local.mk.inj heq
    exact ⟨rfl, node, hnode, rfl⟩
  · rintro ⟨rfl, node, hnode, rfl⟩
    exact ⟨node, hnode, rfl⟩

theorem mem_declaratorLocals_iff {scope : List Nat} {node : Node} :
    binding ∈ declaratorLocals name scope node ↔
      binding.scope = scope ∧ binding.name ∈ declaratorNames name node := by
  rw [declaratorLocals, declaratorNames, List.mem_flatMap, List.mem_flatMap]
  constructor
  · rintro ⟨declarator, hmem, hbinding⟩
    obtain ⟨hscope, hname⟩ := mem_declareAll_iff.mp hbinding
    exact ⟨hscope, declarator, hmem, hname⟩
  · rintro ⟨hscope, declarator, hmem, hname⟩
    exact ⟨declarator, hmem, mem_declareAll_iff.mpr ⟨hscope, hname⟩⟩

theorem mem_functionLocals_iff :
    binding ∈ functionLocals name site ↔ binding.scope = site.path ∧
      binding.name ∈ parameterNames name site.node ++ ownFunctionName name site.node ++
        argumentsName site.node := by
  have hown : binding ∈ (if [Kind.functionDeclaration, .generatorFunctionDeclaration,
        .methodDefinition].contains site.node.kind = true then []
        else declareAll name site.path (site.node.child? .name).toList) ↔
      binding.scope = site.path ∧ binding.name ∈ ownFunctionName name site.node := by
    unfold ownFunctionName
    split
    · next hkind =>
      have : site.node.kind = .functionDeclaration ∨ site.node.kind = .generatorFunctionDeclaration ∨
          site.node.kind = .methodDefinition := by simpa using hkind
      rcases this with hkind | hkind | hkind <;> rw [hkind] <;> simp
    · next hkind =>
      split
      · next h => rw [h] at hkind; exact absurd rfl hkind
      · next h => rw [h] at hkind; exact absurd rfl hkind
      · next h => rw [h] at hkind; exact absurd rfl hkind
      · exact mem_declareAll_iff
  have harguments : binding ∈ (if (site.node.kind == .arrowFunction) = true then []
        else [(⟨site.path, "arguments"⟩ : Local)]) ↔
      binding.scope = site.path ∧ binding.name ∈ argumentsName site.node := by
    unfold argumentsName
    obtain ⟨scope, word⟩ := binding
    split <;> simp
  unfold functionLocals
  dsimp only
  rw [List.mem_append, List.mem_append, List.mem_append, mem_declareAll_iff, mem_declareAll_iff,
    hown, harguments, List.mem_append, List.mem_append, parameterNames, List.mem_append]
  simp only [and_or_left, patternNames]

/-- What a node declares, and where: for the function around it, for the block around it, for the
whole tree, or for what is below it. -/
theorem mem_locals_iff :
    binding ∈ locals name site ↔
      (binding.scope = site.nearest isFunctionScope ∧
        binding.name ∈ functionWideNames name site.node) ∨
      (binding.scope = site.nearest isBlockScope ∧ binding.name ∈ blockWideNames name site.node) ∨
      (binding.scope = [] ∧ binding.name ∈ importedNames name site.node) ∨
      (binding.scope = site.path ∧ binding.name ∈ ownNames name site.node) := by
  rw [functionWideNames, List.mem_append]
  unfold locals variableNames functionName blockWideNames importedNames ownNames Kind.isFunction
  dsimp only
  -- each kind of node declares in one of the four ways, but function declarations do so in two
  split
  case h_1 hkind | h_2 hkind => simp [hkind, mem_declaratorLocals_iff]
  case h_3 hkind =>
    simp only [hkind, loopNames]
    cases hkeyword : site.node.child? .kind with
    | none => simp
    | some keyword =>
      rw [mem_declareAll_iff]
      by_cases hvar : keyword.kind = .token "var" <;> simp [hvar, patternNames]
  case h_4 hkind | h_5 hkind =>
    simp [hkind, mem_declareAll_iff, mem_functionLocals_iff, childNames]
  case h_6 hkind | h_7 hkind | h_8 hkind | h_9 hkind | h_10 hkind =>
    simp [hkind, mem_functionLocals_iff]
  case h_11 hkind | h_12 hkind | h_13 hkind | h_14 hkind =>
    simp [hkind, mem_declareAll_iff, childNames, patternNames]
  case h_15 => simp

end

/-! ## What is declared at a site -/

section
variable (name : Node → String)

/-- The names that are declared at a site for all that is below it: those of the declarations that
belong to it, and its own ones. No scope but the root takes the names of imports. -/
def namesAt (site : Site) : List String :=
  gathered (functionWideNames name) isFunctionScope site ++
    gathered (blockWideNames name) isBlockScope site ++
    gathered (importedNames name) (fun _ => false) site ++ ownNames name site.node

variable {name}

theorem mem_namesAt_iff {site : Site} {word : String} :
    word ∈ namesAt name site ↔
      word ∈ gathered (functionWideNames name) isFunctionScope site ∨
      word ∈ gathered (blockWideNames name) isBlockScope site ∨
      word ∈ gathered (importedNames name) (fun _ => false) site ∨
      word ∈ ownNames name site.node := by
  rw [namesAt, List.mem_append, List.mem_append, List.mem_append, or_assoc, or_assoc]

/-- What the nodes of a tree declare is declared at the sites that it belongs to. -/
theorem mem_locals_sites_iff {root : Node} {binding : Local} :
    binding ∈ root.sites.flatMap (locals name) ↔
      ∃ scope ∈ root.sites, scope.path = binding.scope ∧ binding.name ∈ namesAt name scope := by
  -- with no scopes at all, as for imports, the nearest scope is the root
  have hnowhere : ∀ site : Site, site.nearest (fun _ => false) = [] := by
    intro site
    rw [Site.nearest_eq_find?, List.find?_eq_none.mpr fun _ _ => Bool.false_ne_true]
    rfl
  have hfunction := @exists_nearest_iff (functionWideNames name) isFunctionScope root binding.scope
    binding.name
  have hblock := @exists_nearest_iff (blockWideNames name) isBlockScope root binding.scope
    binding.name
  have himport := @exists_nearest_iff (importedNames name) (fun _ => false) root binding.scope
    binding.name
  simp only [hnowhere] at himport
  rw [List.mem_flatMap]
  constructor
  · rintro ⟨site, hsite, hbinding⟩
    rcases mem_locals_iff.mp hbinding with ⟨hscope, hname⟩ | ⟨hscope, hname⟩ | ⟨hscope, hname⟩ |
      ⟨hscope, hname⟩
    · obtain ⟨scope, hmem, hpath, hname⟩ := hfunction.mp ⟨site, hsite, hscope.symm, hname⟩
      exact ⟨scope, hmem, hpath, mem_namesAt_iff.mpr (.inl hname)⟩
    · obtain ⟨scope, hmem, hpath, hname⟩ := hblock.mp ⟨site, hsite, hscope.symm, hname⟩
      exact ⟨scope, hmem, hpath, mem_namesAt_iff.mpr (.inr (.inl hname))⟩
    · obtain ⟨scope, hmem, hpath, hname⟩ := himport.mp ⟨site, hsite, hscope.symm, hname⟩
      exact ⟨scope, hmem, hpath, mem_namesAt_iff.mpr (.inr (.inr (.inl hname)))⟩
    · exact ⟨site, hsite, hscope.symm, mem_namesAt_iff.mpr (.inr (.inr (.inr hname)))⟩
  · rintro ⟨scope, hmem, hpath, hname⟩
    rcases mem_namesAt_iff.mp hname with hname | hname | hname | hname
    · obtain ⟨site, hsite, hscope, hname⟩ := hfunction.mpr ⟨scope, hmem, hpath, hname⟩
      exact ⟨site, hsite, mem_locals_iff.mpr (.inl ⟨hscope.symm, hname⟩)⟩
    · obtain ⟨site, hsite, hscope, hname⟩ := hblock.mpr ⟨scope, hmem, hpath, hname⟩
      exact ⟨site, hsite, mem_locals_iff.mpr (.inr (.inl ⟨hscope.symm, hname⟩))⟩
    · obtain ⟨site, hsite, hscope, hname⟩ := himport.mpr ⟨scope, hmem, hpath, hname⟩
      exact ⟨site, hsite, mem_locals_iff.mpr (.inr (.inr (.inl ⟨hscope.symm, hname⟩)))⟩
    · exact ⟨scope, hmem, mem_locals_iff.mpr (.inr (.inr (.inr ⟨hpath.symm, hname⟩)))⟩

/-! ## Free references -/

variable {root : Node} {site : Site}

/-- A name is bound at a site if it is declared at one of the sites above. -/
theorem isBound_iff_exists_above (hsite : site ∈ root.sites) (word : String) :
    isBound (root.sites.flatMap (locals name)) site word = true ↔
      ∃ scope ∈ site.above, word ∈ namesAt name scope := by
  rw [isBound, List.any_eq_true]
  constructor
  · rintro ⟨binding, hbinding, htest⟩
    rw [Bool.and_eq_true, beq_iff_eq, Site.isBelow_iff hsite] at htest
    obtain ⟨rfl, scope, habove, hpath⟩ := htest
    -- the table knows a scope by its path, which leads to one site only
    obtain ⟨other, hother, hsame, hname⟩ := mem_locals_sites_iff.mp hbinding
    have hscope := Site.mem_sites_of_mem_above hsite habove
    obtain rfl := Node.eq_of_path_eq hscope hother (hpath.trans hsame.symm)
    exact ⟨scope, habove, hname⟩
  · rintro ⟨scope, habove, hname⟩
    have hscope := Site.mem_sites_of_mem_above hsite habove
    have hbelow : site.isBelow scope.path = true :=
      (Site.isBelow_iff hsite _).mpr ⟨scope, habove, rfl⟩
    refine ⟨⟨scope.path, word⟩, mem_locals_sites_iff.mpr ⟨scope, hscope, rfl, hname⟩, ?_⟩
    rw [hbelow, beq_self_eq_true]
    rfl

/-- A site where a name belongs to a module. -/
def isInModule (site : Site) : Bool :=
  site.above.any fun scope => namesModuleBindings scope.node.kind

/-- A site whose name is declared at a site above. -/
def isDeclaredAbove (name : Node → String) (site : Site) : Bool :=
  site.above.any fun scope => (namesAt name scope).contains (name site.node)

theorem isDeclaredAbove_iff :
    isDeclaredAbove name site = true ↔ ∃ scope ∈ site.above, name site.node ∈ namesAt name scope := by
  rw [isDeclaredAbove, List.any_eq_true]
  simp only [List.contains_iff_mem]

theorem isFree_eq (hsite : site ∈ root.sites) :
    isFree name (root.sites.flatMap (locals name)) site =
      (isReferenceKind site.node.kind && !isInModule site && !isDeclaredAbove name site) := by
  have hmodule : (site.ancestors.any fun node => namesModuleBindings node.kind) =
      isInModule site := by
    rw [isInModule, ← site.map_node_above, List.any_map]
    rfl
  have hbound : isBound (root.sites.flatMap (locals name)) site (name site.node) =
      isDeclaredAbove name site := by
    rw [Bool.eq_iff_iff, isBound_iff_exists_above hsite, isDeclaredAbove_iff]
  rw [isFree, hmodule, hbound]

/-- What the references selected below a root are, site by site. -/
theorem mem_references_iff {select : Node → Bool} :
    site ∈ references name root select ↔ site ∈ root.sites ∧
      isReferenceKind site.node.kind = true ∧ isInModule site = false ∧
      isDeclaredAbove name site = false ∧ select site.node = true := by
  rw [references, List.mem_filter]
  constructor
  · rintro ⟨hsite, htest⟩
    rw [isFree_eq hsite] at htest
    simp only [Bool.and_eq_true, Bool.not_eq_true'] at htest
    exact ⟨hsite, htest.1.1.1, htest.1.1.2, htest.1.2, htest.2⟩
  · rintro ⟨hsite, hkind, hmodule, hunbound, hselect⟩
    refine ⟨hsite, ?_⟩
    rw [isFree_eq hsite, hkind, hmodule, hunbound, hselect]
    rfl

end

/-- The free references are, in preorder and each once, the selected nodes that refer to a variable,
stand in no import statement or export clause, and whose name no node above declares. Selecting
fewer of them leaves the others out. -/
theorem references_eq_filter (name : Node → String) (root : Node) (select : Node → Bool) :
    references name root select =
        (root.preorder [] []).filter (fun site => isReferenceKind site.node.kind &&
          select site.node && !isInModule site && !isDeclaredAbove name site) ∧
      ((references name root select).map (·.path)).Nodup ∧
      references name root select =
        (references name root fun _ => true).filter fun site => select site.node := by
  have hfilter : references name root select =
      root.sites.filter fun site => isReferenceKind site.node.kind && select site.node &&
        !isInModule site && !isDeclaredAbove name site := by
    rw [references]
    apply List.filter_congr
    intro site hsite
    rw [isFree_eq hsite, Bool.and_right_comm, Bool.and_right_comm _ (!isInModule site)]
  refine ⟨?_, ?_, ?_⟩
  · rw [hfilter, root.sites_eq_preorder]
    rfl
  · have hsublist : (references name root select).Sublist root.sites := List.filter_sublist
    exact root.nodup_paths.sublist (hsublist.map _)
  · rw [references, references, List.filter_filter]
    apply List.filter_congr
    intro site _
    rw [Bool.and_true, Bool.and_comm]

end NotebookCell.Scope
