import NotebookCell.Proofs.Scope.Hoisting
import NotebookCell.Script.Cell

/-!
# Where a declaration hides its name

To the search for free references every scope is a whole node. In the language a declaration covers
a region that can be less: the parameters of a function do not cover its computed name, what its body
declares does not cover its parameters, the variables of a `switch` do not cover the value that is
switched on, `var` stays in a static block, and a function declared in a block stays in the block.

`regionNames` are the names that a construct binds in each of its parts by the rules of the language,
for strict code. `Leaks` lists all ways in which a scope reaches further than these regions.

* `mem_hoisted_or_iff`: what passes a node of some kinds, and what does not;
* `exists_gathered_above`: what a scope hands up belongs to a scope above it;
* `not_mem_references_iff`: a name is left out of the free references exactly where it resolves to
  a declaration of the cell, or where a scope leaks.
-/

namespace NotebookCell.Scope

open NotebookCell.Tree

/-! ## Hoisting past a scope -/

section
variable {declared declared' : Node → List String} {isScope isScope' : Kind → Bool} {word : String}

mutual

/-- With more declarations and fewer scopes more names are handed up. -/
theorem mem_hoisted_mono (hdeclared : ∀ node, word ∈ declared node → word ∈ declared' node)
    (hscope : ∀ kind, isScope' kind = true → isScope kind = true) (node : Node)
    (h : word ∈ hoisted declared isScope node) : word ∈ hoisted declared' isScope' node := by
  match node with
  | ⟨kind, start, stop, named, missing, field, children⟩ =>
    rw [mem_hoisted_iff] at h ⊢
    rcases h with hown | ⟨hpasses, hbelow⟩
    · exact .inl (hdeclared _ hown)
    · refine .inr ⟨?_, mem_hoistedAll_mono hdeclared hscope children hbelow⟩
      cases hkind : isScope' kind with
      | false => rfl
      | true => rw [hscope kind hkind] at hpasses; cases hpasses

theorem mem_hoistedAll_mono (hdeclared : ∀ node, word ∈ declared node → word ∈ declared' node)
    (hscope : ∀ kind, isScope' kind = true → isScope kind = true) (nodes : List Node)
    (h : word ∈ hoistedAll declared isScope nodes) : word ∈ hoistedAll declared' isScope' nodes := by
  match nodes with
  | [] => exact h
  | node :: nodes =>
    rw [hoistedAll, List.mem_append] at h ⊢
    refine h.imp (fun hnode => ?_) (mem_hoistedAll_mono hdeclared hscope nodes)
    split at hnode
    · next hnamed => rw [if_pos hnamed]; exact mem_hoisted_mono hdeclared hscope node hnode
    · cases hnode

end

mutual

/-- Declarations of two sorts are handed up side by side. -/
theorem mem_hoisted_append_iff (node : Node) :
    word ∈ hoisted (fun node => declared node ++ declared' node) isScope node ↔
      word ∈ hoisted declared isScope node ∨ word ∈ hoisted declared' isScope node := by
  match node with
  | ⟨kind, start, stop, named, missing, field, children⟩ =>
    rw [mem_hoisted_iff, mem_hoisted_iff, mem_hoisted_iff, List.mem_append,
      mem_hoistedAll_append_iff children, and_or_left]
    exact or_or_or_comm

theorem mem_hoistedAll_append_iff (nodes : List Node) :
    word ∈ hoistedAll (fun node => declared node ++ declared' node) isScope nodes ↔
      word ∈ hoistedAll declared isScope nodes ∨ word ∈ hoistedAll declared' isScope nodes := by
  match nodes with
  | [] => simp [hoistedAll]
  | node :: nodes =>
    rw [hoistedAll, hoistedAll, hoistedAll, List.mem_append, List.mem_append, List.mem_append,
      mem_hoistedAll_append_iff nodes]
    cases node.named
    · simp
    · simp only [if_true, mem_hoisted_append_iff node]
      exact or_or_or_comm

end

variable (declared isScope) in
/-- The names from below a node of the kinds `isPassed` that are handed on past it. -/
def escaping (isPassed : Kind → Bool) (node : Node) : List String :=
  if isPassed node.kind && !isScope node.kind then hoistedAll declared isScope node.children else []

theorem mem_escaping_iff {isPassed : Kind → Bool} {node : Node} :
    word ∈ escaping declared isScope isPassed node ↔ isPassed node.kind = true ∧
      isScope node.kind = false ∧ word ∈ hoistedAll declared isScope node.children := by
  rw [escaping]
  cases isPassed node.kind <;> cases isScope node.kind <;> simp

section
variable (isPassed : Kind → Bool)

mutual

/-- What is handed up either meets no node of the kinds `isPassed` or is handed on past one. -/
theorem mem_hoisted_or_iff (node : Node) :
    word ∈ hoisted declared isScope node ↔
      word ∈ hoisted declared (fun kind => isScope kind || isPassed kind) node ∨
      word ∈ hoisted (escaping declared isScope isPassed) isScope node := by
  match node with
  | ⟨kind, start, stop, named, missing, field, children⟩ =>
    rw [mem_hoisted_iff, mem_hoisted_iff, mem_hoisted_iff, mem_escaping_iff,
      mem_hoistedAll_or_iff children]
    cases isScope kind <;> cases isPassed kind <;> grind

theorem mem_hoistedAll_or_iff (nodes : List Node) :
    word ∈ hoistedAll declared isScope nodes ↔
      word ∈ hoistedAll declared (fun kind => isScope kind || isPassed kind) nodes ∨
      word ∈ hoistedAll (escaping declared isScope isPassed) isScope nodes := by
  match nodes with
  | [] => simp [hoistedAll]
  | node :: nodes =>
    rw [hoistedAll, hoistedAll, hoistedAll, List.mem_append, List.mem_append, List.mem_append,
      mem_hoistedAll_or_iff nodes]
    cases node.named
    · simp
    · simp only [if_true, mem_hoisted_or_iff node]
      exact or_or_or_comm

end

theorem mem_gathered_or_iff {scope : Site} :
    word ∈ gathered declared isScope scope ↔
      (isScope scope.node.kind = true ∧ word ∈ hoistedAll declared
        (fun kind => isScope kind || isPassed kind) scope.node.children) ∨
      (scope.path = [] ∧ word ∈ hoisted declared
        (fun kind => isScope kind || isPassed kind) scope.node) ∨
      word ∈ gathered (escaping declared isScope isPassed) isScope scope := by
  rw [mem_gathered_iff, mem_gathered_iff, mem_hoisted_or_iff isPassed scope.node,
    mem_hoistedAll_or_iff isPassed scope.node.children, and_or_left, and_or_left]
  exact or_or_or_comm.trans or_assoc

end

/-- Declarations of two sorts are gathered side by side. -/
theorem mem_gathered_append_iff {scope : Site} :
    word ∈ gathered (fun node => declared node ++ declared' node) isScope scope ↔
      word ∈ gathered declared isScope scope ∨ word ∈ gathered declared' isScope scope := by
  rw [mem_gathered_iff, mem_gathered_iff, mem_gathered_iff, mem_hoisted_append_iff,
    mem_hoistedAll_append_iff, and_or_left, and_or_left]
  exact or_or_or_comm

/-- What the children of a site hand up belongs to the site or to a site above it. -/
theorem exists_gathered_above {root : Node} {scope : Site} (hscope : scope ∈ root.sites)
    (hword : word ∈ hoistedAll declared isScope scope.node.children) :
    ∃ outer ∈ scope :: scope.above, word ∈ gathered declared isScope outer := by
  revert hword
  refine Node.sites_induction (P := fun scope =>
    word ∈ hoistedAll declared isScope scope.node.children →
      ∃ outer ∈ scope :: scope.above, word ∈ gathered declared isScope outer) ?_ ?_ scope hscope
  · intro hword
    refine ⟨_, List.mem_cons_self, mem_gathered_iff.mpr ?_⟩
    cases hkind : isScope root.kind with
    | true => exact .inl ⟨rfl, hword⟩
    | false => exact .inr ⟨rfl, mem_hoisted_iff.mpr (.inr ⟨hkind, hword⟩)⟩
  · intro upper _ child hchild ih hword
    cases hkind : isScope child.node.kind with
    | true => exact ⟨child, List.mem_cons_self, mem_gathered_iff.mpr (.inl ⟨hkind, hword⟩)⟩
    | false =>
      have hup : word ∈ hoistedAll declared isScope upper.node.children :=
        mem_hoistedAll_children_iff.mpr ⟨child, hchild, mem_hoisted_iff.mpr (.inr ⟨hkind, hword⟩)⟩
      obtain ⟨outer, houter, hgathered⟩ := ih hup
      refine ⟨outer, List.mem_cons_of_mem _ ?_, hgathered⟩
      rwa [Site.above_of_mem_namedChildren hchild]

end

/-! ## Regions -/

/-- The parts of a function that are inside of it: not its name, which a method may compute, and
not its decorators. -/
def isInterior (part : Node) : Bool :=
  part.field != some .name && part.kind != .decorator

/-- The body of a function: what is inside of it and is no parameter. -/
def isBody (part : Node) : Bool :=
  isInterior part && part.field != some .parameters && part.field != some .parameter

/-- The scopes of `var`: functions, programs and static blocks. -/
def isVariableScope (kind : Kind) : Bool :=
  isFunctionScope kind || kind == .classStaticBlock

section
variable (name : Node → String)

/-- What a node declares for the block around it, functions included. -/
def blockNames (node : Node) : List String :=
  blockWideNames name node ++ functionName name node

/-- What is declared in a function or a program itself, and not in a function or block inside it. -/
def bodyNames (node : Node) : List String :=
  hoistedAll (variableNames name) isVariableScope node.children ++
    hoistedAll (blockNames name) isBlockScope node.children

/-- The names that a construct binds in one of its parts. -/
def regionNames (node part : Node) : List String :=
  if node.kind.isFunction then
    ownFunctionName name node ++
      (if isInterior part then parameterNames name node ++ argumentsName node else []) ++
      (if isBody part then bodyNames name node else [])
  else
    match node.kind with
    | .program => bodyNames name node
    | .classStaticBlock => hoistedAll (variableNames name) isVariableScope node.children
    | .statementBlock | .forStatement => hoistedAll (blockNames name) isBlockScope node.children
    | .forInStatement =>
      loopNames name node ++ hoistedAll (blockNames name) isBlockScope node.children
    | .switchStatement =>
      if part.kind == .switchBody then hoistedAll (blockNames name) isBlockScope node.children
      else []
    | .classExpression => if part.kind == .decorator then [] else childNames name node .name
    | .catchClause => patternNames name node .parameter
    | _ => []

/-- The names that are bound in all of a cell: those of its imports, and those that no construct
around their declaration binds. -/
def cellNames (root : Node) : List String :=
  hoisted (importedNames name) (fun _ => false) root ++
    hoisted (variableNames name) isVariableScope root ++
    hoisted (blockNames name) isBlockScope root

/-- Whether the name at a site resolves to a declaration of the cell: a construct around the site
binds it in the part where the site is. -/
def resolves (site : Site) : Bool :=
  site.steps.any fun (scope, part) =>
    (regionNames name scope.node part).contains (name site.node) ||
      (scope.path == [] && (cellNames name scope.node).contains (name site.node))

/-- How a scope hides a name in a part of it that is outside of the region of the declaration. -/
inductive Leaks (word : String) (scope : Site) (part : Node) : Prop
  /-- The parameters of a function are hidden in its computed name and in its decorators. -/
  | outside (hscope : scope.node.kind.isFunction = true) (hpart : isInterior part = false)
      (hword : word ∈ parameterNames name scope.node ++ argumentsName scope.node)
  /-- What the body of a function declares is hidden in its parameters and outside of it. -/
  | parameters (hscope : scope.node.kind.isFunction = true) (hpart : isBody part = false)
      (hword : word ∈ bodyNames name scope.node)
  /-- What the cases of a `switch` declare is hidden in the value that is switched on. -/
  | discriminant (hscope : scope.node.kind = .switchStatement) (hpart : part.kind ≠ .switchBody)
      (hword : word ∈ hoistedAll (blockWideNames name) isBlockScope scope.node.children)
  /-- The name of a class expression is hidden in its decorators. -/
  | decorator (hscope : scope.node.kind = .classExpression) (hpart : part.kind = .decorator)
      (hword : word ∈ childNames name scope.node .name)
  /-- A variable of a static block is hidden in the function or program around the class. -/
  | staticBlock (hword : word ∈ gathered (escaping (variableNames name) isFunctionScope
      (· == .classStaticBlock)) isFunctionScope scope)
  /-- A function declared in a block is hidden in the function or program around the block. -/
  | blockFunction (hword : word ∈ gathered (escaping (functionName name) isFunctionScope
      isBlockScope) isFunctionScope scope)

variable {name} {word : String}

theorem resolves_iff {site : Site} :
    resolves name site = true ↔ ∃ scope part, (scope, part) ∈ site.steps ∧
      (name site.node ∈ regionNames name scope.node part ∨
        (scope.path = [] ∧ name site.node ∈ cellNames name scope.node)) := by
  rw [resolves, List.any_eq_true]
  simp only [Prod.exists, Bool.or_eq_true, Bool.and_eq_true, List.contains_iff_mem, beq_iff_eq]

/-! ## Scopes against regions -/

theorem isBlockScope_of_isFunctionScope {kind : Kind} (h : isFunctionScope kind = true) :
    isBlockScope kind = true := by
  rw [isBlockScope, h, Bool.true_or]

theorem isFunctionScope_of_isFunction {kind : Kind} (h : kind.isFunction = true) :
    isFunctionScope kind = true := by
  rw [isFunctionScope, h, Bool.true_or]

theorem isFunctionScope_or_isBlockScope :
    (fun kind => isFunctionScope kind || isBlockScope kind) = isBlockScope := by
  funext kind
  rw [isBlockScope, ← Bool.or_assoc, Bool.or_self]

variable {scope : Site} {part : Node}

/-- Function-wide declarations stay where the language keeps them, or leak from a static block or
a block. -/
theorem mem_gathered_functionWide_iff :
    word ∈ gathered (functionWideNames name) isFunctionScope scope ↔
      (isFunctionScope scope.node.kind = true ∧
        (word ∈ hoistedAll (variableNames name) isVariableScope scope.node.children ∨
          word ∈ hoistedAll (functionName name) isBlockScope scope.node.children)) ∨
      (scope.path = [] ∧ (word ∈ hoisted (variableNames name) isVariableScope scope.node ∨
        word ∈ hoisted (functionName name) isBlockScope scope.node)) ∨
      word ∈ gathered (escaping (variableNames name) isFunctionScope (· == .classStaticBlock))
        isFunctionScope scope ∨
      word ∈ gathered (escaping (functionName name) isFunctionScope isBlockScope)
        isFunctionScope scope := by
  have hsplit := @mem_gathered_append_iff (variableNames name) (functionName name) isFunctionScope
    word scope
  have hvariables := @mem_gathered_or_iff (variableNames name) isFunctionScope word
    (· == .classStaticBlock) scope
  have hfunctions := @mem_gathered_or_iff (functionName name) isFunctionScope word isBlockScope scope
  rw [isFunctionScope_or_isBlockScope] at hfunctions
  -- both are split into what stays and what leaks; the parts are then put in order
  refine hsplit.trans ((or_congr hvariables hfunctions).trans (or_or_or_comm.trans ?_))
  exact or_congr and_or_left.symm (or_or_or_comm.trans (or_congr_left and_or_left.symm))

/-- What a body declares is bound in the body, or leaks from it. -/
theorem region_or_leaks_of_bodyNames (hscope : isFunctionScope scope.node.kind = true)
    (hword : word ∈ bodyNames name scope.node) :
    word ∈ regionNames name scope.node part ∨ Leaks name word scope part := by
  by_cases hfunction : scope.node.kind.isFunction = true
  · -- a function has other parts than its body, a program has not
    by_cases hbody : isBody part = true
    · left
      rw [regionNames, if_pos hfunction, if_pos hbody]
      exact List.mem_append_right _ hword
    · exact .inr (.parameters hfunction (Bool.eq_false_iff.mpr hbody) hword)
  · left
    have hprogram : scope.node.kind = .program := by
      rw [isFunctionScope, Bool.or_eq_true, beq_iff_eq] at hscope
      exact hscope.resolve_left hfunction
    rw [regionNames, if_neg hfunction, hprogram]
    exact hword

/-- What a node binds itself is bound in its parts, but for the names and decorators of functions
and the decorators of classes. -/
theorem region_or_leaks_of_ownNames (hword : word ∈ ownNames name scope.node) :
    word ∈ regionNames name scope.node part ∨ Leaks name word scope part := by
  rw [ownNames] at hword
  split at hword
  · next hfunction =>
    rw [List.append_assoc, List.mem_append, List.mem_append, or_left_comm, ← List.mem_append]
      at hword
    rcases hword with hown | hinside
    · left
      rw [regionNames, if_pos hfunction, List.append_assoc]
      exact List.mem_append_left _ hown
    · by_cases hpart : isInterior part = true
      · left
        rw [regionNames, if_pos hfunction, if_pos hpart]
        exact List.mem_append_left _ (List.mem_append_right _ hinside)
      · exact .inr (.outside hfunction (Bool.eq_false_iff.mpr hpart) hinside)
  · next hfunction =>
    unfold regionNames
    rw [if_neg hfunction]
    split at hword
    · next hclass =>
      rw [hclass]
      by_cases hpart : part.kind = .decorator
      · exact .inr (.decorator hclass hpart hword)
      · left
        simpa [hpart] using hword
    · next hcatch => rw [hcatch]; exact .inl hword
    · next hloop => rw [hloop]; exact .inl (List.mem_append_left _ hword)
    · cases hword

/-- What is declared for a block is bound in the block, or leaks from it. -/
theorem region_or_leaks_of_blockWide (hscope : isBlockScope scope.node.kind = true)
    (hword : word ∈ hoistedAll (blockWideNames name) isBlockScope scope.node.children) :
    word ∈ regionNames name scope.node part ∨ Leaks name word scope part := by
  have hblock : word ∈ hoistedAll (blockNames name) isBlockScope scope.node.children :=
    (mem_hoistedAll_append_iff _).mpr (.inl hword)
  -- of the scopes that are no function or program only a `switch` is larger than its block
  by_cases hwide : isFunctionScope scope.node.kind = true
  · exact region_or_leaks_of_bodyNames hwide (List.mem_append_right _ hblock)
  · have hkind : scope.node.kind = .statementBlock ∨ scope.node.kind = .forStatement ∨
        scope.node.kind = .forInStatement ∨ scope.node.kind = .switchStatement := by
      simpa [isBlockScope, hwide] using hscope
    unfold regionNames
    rcases hkind with hkind | hkind | hkind | hkind
    · rw [hkind]; exact .inl hblock
    · rw [hkind]; exact .inl hblock
    · rw [hkind]; exact .inl (List.mem_append_right _ hblock)
    · by_cases hpart : part.kind = .switchBody
      · left
        simpa [hkind, hpart, Kind.isFunction] using hblock
      · exact .inr (.discriminant hkind hpart hword)

/-- What is declared at a site resolves in each of its parts, or leaks into it. -/
theorem resolves_or_leaks_of_namesAt (part : Node) (hword : word ∈ namesAt name scope) :
    word ∈ regionNames name scope.node part ∨
      (scope.path = [] ∧ word ∈ cellNames name scope.node) ∨ Leaks name word scope part := by
  rcases mem_namesAt_iff.mp hword with hword | hword | hword | hword
  · -- what is declared function-wide may come from a static block or from a block
    rcases mem_gathered_functionWide_iff.mp hword with
      ⟨hscope, hword⟩ | ⟨hroot, hword⟩ | hword | hword
    · have hbody : word ∈ bodyNames name scope.node :=
        List.mem_append.mpr (hword.imp_right fun h => (mem_hoistedAll_append_iff _).mpr (.inr h))
      exact or_left_comm.mp (.inr (region_or_leaks_of_bodyNames hscope hbody))
    · refine .inr (.inl ⟨hroot, ?_⟩)
      rw [cellNames, List.mem_append, List.mem_append]
      rcases hword with hword | hword
      · exact .inl (.inr hword)
      · exact .inr ((mem_hoisted_append_iff _).mpr (.inr hword))
    · exact .inr (.inr (.staticBlock hword))
    · exact .inr (.inr (.blockFunction hword))
  · rcases mem_gathered_iff.mp hword with ⟨hscope, hword⟩ | ⟨hroot, hword⟩
    · exact or_left_comm.mp (.inr (region_or_leaks_of_blockWide hscope hword))
    · refine .inr (.inl ⟨hroot, ?_⟩)
      rw [cellNames, List.mem_append]
      exact .inr ((mem_hoisted_append_iff _).mpr (.inl hword))
  · -- imports belong to the root
    rcases mem_gathered_iff.mp hword with ⟨hscope, -⟩ | ⟨hroot, hword⟩
    · cases hscope
    · refine .inr (.inl ⟨hroot, ?_⟩)
      rw [cellNames, List.mem_append, List.mem_append]
      exact .inl (.inl hword)
  · exact or_left_comm.mp (.inr (region_or_leaks_of_ownNames hword))

/-! ## Regions against scopes -/

variable {root : Node}

theorem mem_functionWideNames_of_variable (node : Node) (h : word ∈ variableNames name node) :
    word ∈ functionWideNames name node :=
  List.mem_append_left _ h

theorem mem_functionWideNames_of_function (node : Node) (h : word ∈ functionName name node) :
    word ∈ functionWideNames name node :=
  List.mem_append_right _ h

theorem isVariableScope_of_isFunctionScope (kind : Kind) (h : isFunctionScope kind = true) :
    isVariableScope kind = true := by
  rw [isVariableScope, h, Bool.true_or]

/-- What the parts of a site declare function-wide is declared there or above. -/
theorem exists_namesAt_of_functionWide (hscope : scope ∈ root.sites)
    (hword : word ∈ hoistedAll (functionWideNames name) isFunctionScope scope.node.children) :
    ∃ outer ∈ scope :: scope.above, word ∈ namesAt name outer := by
  obtain ⟨outer, houter, hgathered⟩ := exists_gathered_above hscope hword
  exact ⟨outer, houter, mem_namesAt_iff.mpr (.inl hgathered)⟩

theorem exists_namesAt_of_variables (hscope : scope ∈ root.sites)
    (hword : word ∈ hoistedAll (variableNames name) isVariableScope scope.node.children) :
    ∃ outer ∈ scope :: scope.above, word ∈ namesAt name outer :=
  exists_namesAt_of_functionWide hscope (mem_hoistedAll_mono mem_functionWideNames_of_variable
    isVariableScope_of_isFunctionScope _ hword)

/-- A function of a block is declared further up, all else in the block itself. -/
theorem exists_namesAt_of_blockNames (hscope : scope ∈ root.sites)
    (hkind : isBlockScope scope.node.kind = true)
    (hword : word ∈ hoistedAll (blockNames name) isBlockScope scope.node.children) :
    ∃ outer ∈ scope :: scope.above, word ∈ namesAt name outer := by
  rcases (mem_hoistedAll_append_iff _).mp hword with hword | hword
  · have hgathered := mem_gathered_iff.mpr (.inl ⟨hkind, hword⟩)
    exact ⟨scope, List.mem_cons_self, mem_namesAt_iff.mpr (.inr (.inl hgathered))⟩
  · exact exists_namesAt_of_functionWide hscope (mem_hoistedAll_mono
      mem_functionWideNames_of_function (fun _ => isBlockScope_of_isFunctionScope) _ hword)

theorem exists_namesAt_of_bodyNames (hscope : scope ∈ root.sites)
    (hkind : isFunctionScope scope.node.kind = true) (hword : word ∈ bodyNames name scope.node) :
    ∃ outer ∈ scope :: scope.above, word ∈ namesAt name outer := by
  rcases List.mem_append.mp hword with hword | hword
  · exact exists_namesAt_of_variables hscope hword
  · exact exists_namesAt_of_blockNames hscope (isBlockScope_of_isFunctionScope hkind) hword

theorem exists_namesAt_of_ownNames (hword : word ∈ ownNames name scope.node) :
    ∃ outer ∈ scope :: scope.above, word ∈ namesAt name outer :=
  ⟨scope, List.mem_cons_self, mem_namesAt_iff.mpr (.inr (.inr (.inr hword)))⟩

/-- What a construct binds in one of its parts is declared at the construct or above it. -/
theorem exists_namesAt_of_regionNames (hscope : scope ∈ root.sites)
    (hword : word ∈ regionNames name scope.node part) :
    ∃ outer ∈ scope :: scope.above, word ∈ namesAt name outer := by
  unfold regionNames at hword
  split at hword
  · next hfunction =>
    rw [List.mem_append, List.mem_append] at hword
    rcases hword with (hword | hword) | hword
    · apply exists_namesAt_of_ownNames
      rw [ownNames, if_pos hfunction]
      exact List.mem_append_left _ (List.mem_append_right _ hword)
    · split at hword
      · apply exists_namesAt_of_ownNames
        rw [ownNames, if_pos hfunction, List.mem_append, List.mem_append]
        exact (List.mem_append.mp hword).imp_left .inl
      · cases hword
    · split at hword
      · exact exists_namesAt_of_bodyNames hscope (isFunctionScope_of_isFunction hfunction) hword
      · cases hword
  · next hfunction =>
    split at hword
    · next hkind => exact exists_namesAt_of_bodyNames hscope (by rw [hkind]; rfl) hword
    · exact exists_namesAt_of_variables hscope hword
    · next hkind => exact exists_namesAt_of_blockNames hscope (by rw [hkind]; rfl) hword
    · next hkind => exact exists_namesAt_of_blockNames hscope (by rw [hkind]; rfl) hword
    · next hkind =>
      rcases List.mem_append.mp hword with hword | hword
      · apply exists_namesAt_of_ownNames
        rw [ownNames, if_neg hfunction, hkind]
        exact hword
      · exact exists_namesAt_of_blockNames hscope (by rw [hkind]; rfl) hword
    · next hkind =>
      split at hword
      · exact exists_namesAt_of_blockNames hscope (by rw [hkind]; rfl) hword
      · cases hword
    · next hkind =>
      split at hword
      · cases hword
      · apply exists_namesAt_of_ownNames
        rw [ownNames, if_neg hfunction, hkind]
        exact hword
    · next hkind =>
      apply exists_namesAt_of_ownNames
      rw [ownNames, if_neg hfunction, hkind]
      exact hword
    · cases hword

/-- What is bound in all of a cell is declared at its root. -/
theorem mem_namesAt_of_cellNames (hroot : scope.path = [])
    (hword : word ∈ cellNames name scope.node) : word ∈ namesAt name scope := by
  have hwide (h : word ∈ hoisted (functionWideNames name) isFunctionScope scope.node) :
      word ∈ namesAt name scope :=
    mem_namesAt_iff.mpr (.inl (mem_gathered_iff.mpr (.inr ⟨hroot, h⟩)))
  rw [cellNames, List.mem_append, List.mem_append] at hword
  rcases hword with (hword | hword) | hword
  · exact mem_namesAt_iff.mpr (.inr (.inr (.inl (mem_gathered_iff.mpr (.inr ⟨hroot, hword⟩)))))
  · exact hwide (mem_hoisted_mono mem_functionWideNames_of_variable
      isVariableScope_of_isFunctionScope _ hword)
  · rcases (mem_hoisted_append_iff _).mp hword with hword | hword
    · exact mem_namesAt_iff.mpr (.inr (.inl (mem_gathered_iff.mpr (.inr ⟨hroot, hword⟩))))
    · exact hwide (mem_hoisted_mono mem_functionWideNames_of_function
        (fun _ => isBlockScope_of_isFunctionScope) _ hword)

/-- What leaks into a part of a scope is declared at the scope or above it. -/
theorem exists_namesAt_of_leaks (hscope : scope ∈ root.sites)
    (hleaks : Leaks name word scope part) :
    ∃ outer ∈ scope :: scope.above, word ∈ namesAt name outer := by
  cases hleaks with
  | outside hfunction _ hword =>
    apply exists_namesAt_of_ownNames
    rw [ownNames, if_pos hfunction, List.mem_append, List.mem_append]
    exact (List.mem_append.mp hword).imp_left .inl
  | parameters hfunction _ hword =>
    exact exists_namesAt_of_bodyNames hscope (isFunctionScope_of_isFunction hfunction) hword
  | discriminant hkind _ hword =>
    refine exists_namesAt_of_blockNames hscope (by rw [hkind]; rfl) ?_
    exact (mem_hoistedAll_append_iff _).mpr (.inl hword)
  | decorator hkind _ hword =>
    apply exists_namesAt_of_ownNames
    rw [ownNames, hkind]
    exact hword
  | staticBlock hword =>
    have hwide := mem_gathered_functionWide_iff.mpr (.inr (.inr (.inl hword)))
    exact ⟨scope, List.mem_cons_self, mem_namesAt_iff.mpr (.inl hwide)⟩
  | blockFunction hword =>
    have hwide := mem_gathered_functionWide_iff.mpr (.inr (.inr (.inr hword)))
    exact ⟨scope, List.mem_cons_self, mem_namesAt_iff.mpr (.inl hwide)⟩

/-- The name of a site is declared above it exactly if it resolves or a scope leaks into the part
where the site is. -/
theorem isDeclaredAbove_iff_resolves {site : Site} (hsite : site ∈ root.sites) :
    isDeclaredAbove name site = true ↔ resolves name site = true ∨
      ∃ scope part, (scope, part) ∈ site.steps ∧ Leaks name (name site.node) scope part := by
  have habove {scope outer : Site} {part : Node} (hstep : (scope, part) ∈ site.steps)
      (houter : outer ∈ scope :: scope.above) : outer ∈ site.above := by
    have hscope := Site.mem_above_of_mem_steps hstep
    rcases List.mem_cons.mp houter with rfl | houter
    · exact hscope
    · exact Site.above_subset_of_mem_above hscope houter
  have hsites {scope : Site} {part : Node} (hstep : (scope, part) ∈ site.steps) :
      scope ∈ root.sites :=
    Site.mem_sites_of_mem_above hsite (Site.mem_above_of_mem_steps hstep)
  rw [isDeclaredAbove_iff, resolves_iff]
  constructor
  · rintro ⟨scope, hscope, hname⟩
    obtain ⟨part, hstep⟩ := Site.exists_mem_steps hscope
    rcases resolves_or_leaks_of_namesAt part hname with hregion | hcell | hleaks
    · exact .inl ⟨scope, part, hstep, .inl hregion⟩
    · exact .inl ⟨scope, part, hstep, .inr hcell⟩
    · exact .inr ⟨scope, part, hstep, hleaks⟩
  · -- a scope may hand a declaration on, so that it is found further up than its region
    rintro (⟨scope, part, hstep, hregion | ⟨hroot, hcell⟩⟩ | ⟨scope, part, hstep, hleaks⟩)
    · obtain ⟨outer, houter, hname⟩ := exists_namesAt_of_regionNames (hsites hstep) hregion
      exact ⟨outer, habove hstep houter, hname⟩
    · exact ⟨scope, Site.mem_above_of_mem_steps hstep, mem_namesAt_of_cellNames hroot hcell⟩
    · obtain ⟨outer, houter, hname⟩ := exists_namesAt_of_leaks (hsites hstep) hleaks
      exact ⟨outer, habove hstep houter, hname⟩

end

/-- Outside of imports and export clauses, a name is left out of the free references exactly if it
resolves to a declaration of the cell, or if a scope around it reaches further than its declaration
does, in one of the ways of `Leaks`. -/
theorem not_mem_references_iff (name : Node → String) (root : Node) (site : Site)
    (hsite : site ∈ root.sites) (hkind : isReferenceKind site.node.kind = true)
    (hmodule : isInModule site = false) :
    site ∉ references name root (fun _ => true) ↔ resolves name site = true ∨
      ∃ scope part, (scope, part) ∈ site.steps ∧ Leaks name (name site.node) scope part := by
  rw [← isDeclaredAbove_iff_resolves hsite, mem_references_iff]
  constructor
  · intro hleft
    by_contra hunbound
    exact hleft ⟨hsite, hkind, hmodule, Bool.eq_false_iff.mpr hunbound, rfl⟩
  · rintro hbound ⟨-, -, -, hunbound, -⟩
    rw [hbound] at hunbound
    cases hunbound

/-- The value that is switched on is left out, though it does not resolve: the variable of the
same name is in scope in the cases alone. -/
theorem not_mem_references_switched :
    ∃ (text : List Char) (root : Node) (site : Site),
      text = "switch (x) \x7b case 1: let x \x7d".toList ∧ Script.parse? text = some root ∧
      site ∈ root.sites ∧ site.node.start = 8 ∧ isReferenceKind site.node.kind = true ∧
      isInModule site = false ∧
      site ∉ references (Script.nameIn text) root (fun _ => true) ∧
      resolves (Script.nameIn text) site = false ∧
      ∃ scope part, (scope, part) ∈ site.steps ∧
        Leaks (Script.nameIn text) (Script.nameIn text site.node) scope part := by
  have heval : ((Script.parse? "switch (x) \x7b case 1: let x \x7d".toList).bind fun root =>
      (root.sites.find? fun site => site.node.start == 8 && site.node.kind == .identifier).map
        fun site => (isInModule site,
          (references (Script.nameIn "switch (x) \x7b case 1: let x \x7d".toList) root
            (fun _ => true)).isEmpty,
          resolves (Script.nameIn "switch (x) \x7b case 1: let x \x7d".toList) site)) =
      some (false, true, false) := by decide +kernel
  obtain ⟨root, hroot, heval⟩ := Option.bind_eq_some_iff.mp heval
  obtain ⟨site, hfind, heval⟩ := Option.map_eq_some_iff.mp heval
  simp only [Prod.mk.injEq, List.isEmpty_iff] at heval
  obtain ⟨hmodule, hnone, hresolves⟩ := heval
  have hsite := List.mem_of_find?_eq_some hfind
  have htest := List.find?_some hfind
  rw [Bool.and_eq_true, beq_iff_eq, beq_iff_eq] at htest
  have hkind : isReferenceKind site.node.kind = true := by rw [htest.2]; rfl
  have hleft : site ∉ references (Script.nameIn "switch (x) \x7b case 1: let x \x7d".toList) root
      (fun _ => true) := by
    rw [hnone]
    exact List.not_mem_nil
  refine ⟨_, root, site, rfl, hroot, hsite, htest.1, hkind, hmodule, hleft, hresolves, ?_⟩
  rcases (not_mem_references_iff _ root site hsite hkind hmodule).mp hleft with h | h
  · rw [hresolves] at h
    cases h
  · exact h

end NotebookCell.Scope
