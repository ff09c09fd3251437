import NotebookCell.Proofs.Body.Refusal
import NotebookCell.Proofs.Scope.Fault
import NotebookCell.Proofs.Tree.Pruning
import NotebookCell.Scope.Suspension

/-!
# Where a cell waits and yields

The search for the points where a cell suspends leaves functions out, and what is below them. So it
finds the nodes of a sort above which there is no function, in the order of the tree. What it finds
decides about the function that is made of a cell: it is asynchronous if the cell waits or, at any
depth, imports, and there is none if the cell yields.

* `listsInOrder_outsideFunctions`: what a search outside of functions finds;
* `along_named_of_parseCell`: in the tree of a cell nothing is below words and signs;
* `async_iff`: how the text of a function begins;
* `suspends_outside_functions`: all of this together.
-/

namespace NotebookCell.Tree

/-! ## Nodes in the order of a tree -/

/-- A list holds exactly the nodes at the sites with a property, each of them once, in the order of the
tree. -/
def ListsInOrder (nodes : List Node) (P : Site → Prop) : Prop :=
  ∃ sites : List Site, nodes = sites.map (·.node) ∧
    (sites.Pairwise fun first second => PathBefore first.path second.path) ∧
    ∀ site, site ∈ sites ↔ P site

section
variable {nodes : List Node} {P Q : Site → Prop}

theorem ListsInOrder.congr (h : ListsInOrder nodes P) (hiff : ∀ site, P site ↔ Q site) :
    ListsInOrder nodes Q := by
  obtain ⟨sites, hnodes, hordered, hmem⟩ := h
  exact ⟨sites, hnodes, hordered, fun site => (hmem site).trans (hiff site)⟩

/-- What is selected from the sites of a tree keeps their order. -/
theorem listsInOrder_filter (root : Node) (test : Site → Bool) :
    ListsInOrder ((root.sites.filter test).map (·.node))
      fun site => site ∈ root.sites ∧ test site = true := by
  refine ⟨root.sites.filter test, rfl, ?_, fun site => List.mem_filter⟩
  apply List.Pairwise.filter
  rw [Node.sites_eq_preorder]
  exact Site.pairwise_preorder _

/-- The first node of the list is the one that comes before all others. -/
theorem ListsInOrder.exists_first (h : ListsInOrder nodes P) (hsome : ∃ site, P site) :
    ∃ first, P first ∧ nodes.head? = some first.node ∧
      ∀ other, P other → other = first ∨ PathBefore first.path other.path := by
  obtain ⟨sites, rfl, hordered, hmem⟩ := h
  obtain ⟨site, hsite⟩ := hsome
  have hsite := (hmem site).mpr hsite
  cases sites with
  | nil => cases hsite
  | cons first rest =>
    refine ⟨first, (hmem first).mp List.mem_cons_self, rfl, fun other hother => ?_⟩
    rcases List.mem_cons.mp ((hmem other).mpr hother) with heq | hrest
    · exact .inl heq
    · exact .inr ((List.pairwise_cons.mp hordered).1 other hrest)

theorem ListsInOrder.isEmpty_eq_false_iff (h : ListsInOrder nodes P) :
    nodes.isEmpty = false ↔ ∃ site, P site := by
  obtain ⟨sites, rfl, -, hmem⟩ := h
  rw [List.isEmpty_eq_false_iff_exists_mem]
  constructor
  · intro hsome
    obtain ⟨node, hnode⟩ := hsome
    obtain ⟨site, hsite, -⟩ := List.mem_map.mp hnode
    exact ⟨site, (hmem site).mp hsite⟩
  · intro hsome
    obtain ⟨site, hsite⟩ := hsome
    exact ⟨site.node, List.mem_map_of_mem ((hmem site).mpr hsite)⟩

end

/-- The way up from a site ends with the root. -/
theorem Reached.exists_append {root : Node} {site : Site} (h : Reached root site) :
    site.node :: site.ancestors = (site.node :: site.ancestors).dropLast ++ [root] := by
  induction h with
  | root => rfl
  | child _ hchild ih =>
    obtain ⟨node, index, -, rfl⟩ := Site.exists_of_mem_children hchild
    rw [List.dropLast_cons_cons, List.cons_append, ← ih]

/-- If a test holds of both ends of the way, it holds along it exactly if it holds of all nodes above. -/
theorem Reached.along_iff {root : Node} {site : Site} (h : Reached root site) {test : Node → Bool}
    (hroot : test root = true) (hsite : test site.node = true) :
    site.along test = true ↔ ∀ node ∈ site.ancestors, test node = true := by
  have hall : (site.node :: site.ancestors).all test = site.along test := by
    rw [h.exists_append, List.all_append, List.all_cons, hroot, List.all_nil, Bool.and_true,
      Bool.and_true]
    rfl
  rw [← hall, List.all_cons, hsite, Bool.true_and, List.all_eq_true]

end NotebookCell.Tree

namespace NotebookCell.Scope

open NotebookCell.Tree

/-! ## Outside of functions -/

/-- A node where a cell waits: an `await`, or a loop with the word `await`. -/
def IsWait (node : Node) : Prop :=
  node.kind = .awaitExpression ∨
    (node.kind = .forInStatement ∧ ∃ child ∈ node.children, child.kind = .awaitWord)

/-- A node where a cell yields. -/
def IsYield (node : Node) : Prop :=
  node.kind = .yieldExpression

/-- A site below a root that no function is above, the root included. -/
def OutsideFunctions (root : Node) (site : Site) : Prop :=
  Reached root site ∧ ∀ node ∈ site.ancestors, node.kind.isFunction = false

/-- What is found outside of functions, if no function is searched for: the constructs that pass the
test and have no function above them. -/
theorem listsInOrder_outsideFunctions (root : Node) {test : Node → Bool}
    (htest : ∀ node, test node = true → node.kind.isFunction = false) :
    ListsInOrder ((outsideFunctions root).filter test) fun site =>
      OutsideFunctions root site ∧ site.along (·.named) = true ∧ test site.node = true := by
  unfold outsideFunctions
  by_cases hroot : root.kind.isFunction = true
  · -- the root is above everything else, and is not searched for itself
    rw [if_pos hroot]
    refine ⟨[], rfl, .nil, fun site => ⟨fun hnone => absurd hnone List.not_mem_nil, ?_⟩⟩
    intro h
    have hmem : root ∈ site.node :: site.ancestors := by
      rw [h.1.1.exists_append]
      exact List.mem_append_right _ List.mem_cons_self
    rcases List.mem_cons.mp hmem with heq | habove
    · rw [heq, htest _ h.2.2] at hroot
      exact absurd hroot Bool.false_ne_true
    · rw [h.1.2 root habove] at hroot
      exact absurd hroot Bool.false_ne_true
  · rw [if_neg hroot, Node.walk_eq_filter, List.filter_map, List.filter_filter]
    apply (listsInOrder_filter root _).congr
    intro site
    have hplain : (!root.kind.isFunction) = true := by simpa using hroot
    rw [Node.mem_sites_iff, Bool.and_eq_true]
    constructor
    · intro h
      have hsite : (!site.node.kind.isFunction) = true := by rw [htest _ h.2.1]; rfl
      have hfree := (h.1.1.along_iff hplain hsite).mp h.2.2
      exact ⟨⟨h.1.1, fun node hnode => by simpa using hfree node hnode⟩, h.1.2, h.2.1⟩
    · intro h
      have hsite : (!site.node.kind.isFunction) = true := by rw [htest _ h.2.2]; rfl
      refine ⟨⟨h.1.1, h.2.1⟩, h.2.2, (h.1.1.along_iff hplain hsite).mpr ?_⟩
      intro node hnode
      rw [h.1.2 node hnode]
      rfl

theorem isWait_iff (node : Node) :
    (node.kind == .awaitExpression || isAwaitingLoop node) = true ↔ IsWait node := by
  unfold IsWait isAwaitingLoop
  simp

theorem isFunction_of_isWait {node : Node} (h : IsWait node) : node.kind.isFunction = false := by
  rcases h with h | h
  · rw [h]
    rfl
  · rw [h.1]
    rfl

theorem listsInOrder_awaits (root : Node) :
    ListsInOrder (awaits root) fun site =>
      OutsideFunctions root site ∧ site.along (·.named) = true ∧ IsWait site.node := by
  apply (listsInOrder_outsideFunctions root fun node hnode =>
    isFunction_of_isWait ((isWait_iff node).mp hnode)).congr
  intro site
  rw [isWait_iff]

theorem listsInOrder_yields (root : Node) :
    ListsInOrder (yields root) fun site =>
      OutsideFunctions root site ∧ site.along (·.named) = true ∧ IsYield site.node := by
  have hplain (node : Node) (hnode : (node.kind == .yieldExpression) = true) :
      node.kind.isFunction = false := by
    rw [beq_iff_eq.mp hnode]
    rfl
  apply (listsInOrder_outsideFunctions root hplain).congr
  intro site
  rw [beq_iff_eq]
  rfl

end NotebookCell.Scope

namespace NotebookCell.Script

open NotebookCell.Tree NotebookCell.Scope

/-! ## The trees of cells -/

/-- In a sound tree only constructs have something below them. -/
theorem along_named_of_sound {text : List Char} {root : Node} (h : root.Sound text) {site : Site}
    (hsite : Reached root site) :
    site.node.Sound text ∧ (site.node.named = true → site.along (·.named) = true) := by
  induction hsite with
  | root => exact ⟨h, fun _ => Site.along_root _ root⟩
  | @child site child _ hchild ih =>
    have hmem : child.node ∈ site.node.children := by
      obtain ⟨node, index, hindex, rfl⟩ := Site.exists_of_mem_children hchild
      exact List.mem_of_getElem? hindex
    have hnamed : site.node.named = true := by
      rcases ih.1.proper.2.2.1 with hnamed | ⟨-, hleaf⟩
      · exact hnamed
      · rw [hleaf] at hmem
        cases hmem
    refine ⟨ih.1.children _ hmem, fun hchildNamed => ?_⟩
    rw [Site.along_of_mem_children hchild, hchildNamed, ih.2 hnamed, Bool.and_true]

/-- In the tree of a cell everything but words and signs is a construct inside of constructs. -/
theorem along_named_of_parseCell {source : List Char} {cell : Cell} (h : parseCell source = .ok cell)
    {site : Site} (hsite : Reached cell.body site) (hkind : isKeyword site.node.kind = false) :
    site.along (·.named) = true := by
  obtain ⟨text, -, hsound⟩ := exists_frame h
  have hboth := along_named_of_sound hsound hsite
  exact hboth.2 (hboth.1.named hkind)

theorem isKeyword_of_isWait {node : Node} (h : IsWait node) : isKeyword node.kind = false := by
  rcases h with h | h
  · rw [h]
    rfl
  · rw [h.1]
    rfl

end NotebookCell.Script

namespace NotebookCell

open NotebookCell.Tree NotebookCell.Script NotebookCell.Body NotebookCell.Scope

/-- An import statement at any depth is searched for. -/
theorem hasImportStatement_iff (body : Node) :
    hasImportStatement body = true ↔ ∃ site, Reached body site ∧ site.along (·.named) = true ∧
      site.node.kind = .importStatement := by
  unfold hasImportStatement
  rw [← Node.map_node_sites, List.any_map, List.any_eq_true]
  constructor
  · intro h
    obtain ⟨site, hsite, hkind⟩ := h
    have hboth := Node.mem_sites_iff.mp hsite
    exact ⟨site, hboth.1, hboth.2, beq_iff_eq.mp hkind⟩
  · intro h
    obtain ⟨site, hreached, halong, hkind⟩ := h
    exact ⟨site, Node.mem_sites_iff.mpr ⟨hreached, halong⟩, beq_iff_eq.mpr hkind⟩

/-! ## The function of a cell -/

/-- A function is asynchronous if its cell waits or imports. -/
theorem isAsync_iff {source : List Char} {cell : Script.Cell} (h : parseCell source = .ok cell) :
    isAsync cell = true ↔
      (∃ site, OutsideFunctions cell.body site ∧ IsWait site.node) ∨
        ∃ site, Reached cell.body site ∧ site.node.kind = .importStatement := by
  have hasync : cell.isAsync = true ↔ ∃ site, OutsideFunctions cell.body site ∧
      site.along (·.named) = true ∧ IsWait site.node := by
    rw [← (listsInOrder_awaits cell.body).isEmpty_eq_false_iff, ← Bool.not_eq_true']
    rcases parseCell_eq_ok h with ⟨_, -, hcell⟩ | ⟨_, -, -, hcell⟩
    · rw [hcell.isAsync_eq, hcell.body_eq]
    · rw [hcell.isAsync_eq, hcell.body_eq]
  unfold isAsync
  rw [Bool.or_eq_true, hasync, hasImportStatement_iff]
  constructor
  · intro hboth
    rcases hboth with ⟨site, hsite, -, hwait⟩ | ⟨site, hsite, -, hkind⟩
    · exact .inl ⟨site, hsite, hwait⟩
    · exact .inr ⟨site, hsite, hkind⟩
  · intro hboth
    rcases hboth with ⟨site, hsite, hwait⟩ | ⟨site, hsite, hkind⟩
    · have halong := along_named_of_parseCell h hsite.1 (isKeyword_of_isWait hwait)
      exact .inl ⟨site, hsite, halong, hwait⟩
    · have halong := along_named_of_parseCell h hsite (by rw [hkind]; rfl)
      exact .inr ⟨site, hsite, halong, hkind⟩

/-- The text of a function begins with its header, whatever else is written at the first offset. -/
theorem headers_isPrefix_text {cell : Script.Cell} {options : Options} {text : List Char}
    (hsource : cell.offsets.source = cell.source)
    (h : (plan cell options).run cell.source = .ok text) :
    ((headers cell).map String.toList).flatten <+: text := by
  rw [text_of_planRun hsource h]
  unfold functionPieces
  rw [List.range_succ_eq_map, List.flatMap_cons, if_pos rfl]
  simp only [List.cons_append, pieceText_cons, List.append_assoc]
  exact List.prefix_append _ _

/-- The text of a function begins with `async` exactly if the function is asynchronous. -/
theorem async_iff {cell : Script.Cell} {text : List Char}
    (h : ((headers cell).map String.toList).flatten <+: text) :
    "async ".toList <+: text ↔ isAsync cell = true := by
  rw [headers_eq] at h
  obtain ⟨rest, rfl⟩ := h
  cases isAsync cell with
  | true => simp
  | false => simp

/-- No function is made of a cell that yields; the fault is at the first place where it does. -/
theorem transpileScript_of_yield {source : List Char} {cell : Script.Cell} (options : Options)
    (hcell : parseCell source = .ok cell)
    (hsome : ∃ site, OutsideFunctions cell.body site ∧ IsYield site.node) :
    ∃ first, OutsideFunctions cell.body first ∧ IsYield first.node ∧
      (∀ other, OutsideFunctions cell.body other → IsYield other.node →
        other = first ∨ PathBefore first.path other.path) ∧
      transpileScript source options = .error (.problem (.fault (.located .structural
        "Cannot yield from a cell body" source (first.node.startIn cell.offsets)))) := by
  have halong {site : Site} (hsite : OutsideFunctions cell.body site) (hyield : IsYield site.node) :
      site.along (·.named) = true :=
    along_named_of_parseCell hcell hsite.1 (by rw [show site.node.kind = _ from hyield]; rfl)
  obtain ⟨site, hsite, hyield⟩ := hsome
  obtain ⟨first, hfirst, hhead, hbefore⟩ := (listsInOrder_yields cell.body).exists_first
    ⟨site, hsite, halong hsite hyield, hyield⟩
  refine ⟨first, hfirst.1, hfirst.2.2, fun other hother hyield' =>
    hbefore other ⟨hother, halong hother hyield', hyield'⟩, ?_⟩
  unfold transpileScript
  rw [hcell]
  show cellFunction cell options = _
  rw [cellFunction_eq, hhead, source_of_parseCell hcell]
  rfl

/-- A search for the places where a cell waits or yields finds the nodes of the sort that no function is
above, in the order of the tree; in a damaged tree, where a word or sign may have something below it,
those that are reached through constructs alone. The function of a cell is asynchronous exactly if the
cell waits at such a place, or has an import statement anywhere. A cell that yields at such a place is
refused, with a fault at the first of them. -/
theorem suspends_outside_functions (root : Node) (source mode : String) (options : Options) :
    ListsInOrder (awaits root) (fun site =>
      OutsideFunctions root site ∧ site.along (·.named) = true ∧ IsWait site.node) ∧
    ListsInOrder (yields root) (fun site =>
      OutsideFunctions root site ∧ site.along (·.named) = true ∧ IsYield site.node) ∧
    (mode ≠ Mode.ojs.name →
      (∀ function, transpile source mode options = .ok function →
        ∃ script cell, scriptOf source.toList mode options = .ok script ∧
          parseCell script = .ok cell ∧
          ("async ".toList <+: function.body.toList ↔
            (∃ site, OutsideFunctions cell.body site ∧ IsWait site.node) ∨
              ∃ site, Reached cell.body site ∧ site.node.kind = .importStatement)) ∧
      ∀ script cell, scriptOf source.toList mode options = .ok script →
        parseCell script = .ok cell →
        (∃ site, OutsideFunctions cell.body site ∧ IsYield site.node) →
        ∃ first, OutsideFunctions cell.body first ∧ IsYield first.node ∧
          (∀ other, OutsideFunctions cell.body other → IsYield other.node →
            other = first ∨ PathBefore first.path other.path) ∧
          transpile source mode options = .error (.problem (.fault (.located .structural
            "Cannot yield from a cell body" script (first.node.startIn cell.offsets))))) := by
  refine ⟨listsInOrder_awaits root, listsInOrder_yields root, fun hmode => ?_⟩
  rw [transpile_eq hmode]
  constructor
  · intro function hfunction
    cases hscript : scriptOf source.toList mode options with
    | error failure =>
      rw [hscript] at hfunction
      cases hfunction
    | ok script =>
      rw [hscript] at hfunction
      obtain ⟨cell, body, hcell, -, hrun, hbody, -, -⟩ := transpileScript_eq_ok hfunction
      have hsource : cell.offsets.source = cell.source := by
        rw [offsets_source_of_parseCell hcell, source_of_parseCell hcell]
      have htext : function.body.toList = body := by rw [hbody, String.toList_ofList]
      refine ⟨script, cell, rfl, hcell, ?_⟩
      rw [htext, async_iff (headers_isPrefix_text hsource hrun)]
      exact isAsync_iff hcell
  · intro script cell hscript hcell hsome
    rw [hscript]
    exact transpileScript_of_yield options hcell hsome

/-- An import statement makes a function asynchronous even if it stands in another function, and of two
places that yield only the one outside of functions is at fault. -/
theorem suspends_outside_functions_calls :
    (∃ function script cell, transpile "() => \x7b import 'm' \x7d" "js" {} = .ok function ∧
      scriptOf "() => \x7b import 'm' \x7d".toList "js" {} = .ok script ∧
      parseCell script = .ok cell ∧ "async ".toList <+: function.body.toList ∧
      ((∃ site, OutsideFunctions cell.body site ∧ IsWait site.node) ∨
        ∃ site, Reached cell.body site ∧ site.node.kind = .importStatement)) ∧
    let source := "(function* () \x7b yield 1 \x7d)(yield 2)"
    ∃ cell first, parseCell source.toList = .ok cell ∧
      OutsideFunctions cell.body first ∧ IsYield first.node ∧
      transpile source "js" {} = .error (.problem (.fault (.located .structural
        "Cannot yield from a cell body" source.toList (first.node.startIn cell.offsets)))) ∧
      first.node.startIn cell.offsets = 27 := by
  have hjs : "js" ≠ Mode.ojs.name := by decide
  have hyielding : (parseCell "(function* () \x7b yield 1 \x7d)(yield 2)".toList).toOption.map
      (fun cell => (yields cell.body).isEmpty) = some false := by decide +kernel
  obtain ⟨cell, hparsed, hyields⟩ := Option.map_eq_some_iff.mp hyielding
  have hcell := eq_ok_of_toOption hparsed
  obtain ⟨site, hsite, -, hyield⟩ := (listsInOrder_yields cell.body).isEmpty_eq_false_iff.mp hyields
  constructor
  · have hmade : (transpile "() => \x7b import 'm' \x7d" "js" {}).toOption.map
        (fun function => "async ".toList.isPrefixOf function.body.toList) = some true := by
      decide +kernel
    obtain ⟨function, haccepted, hasync⟩ := Option.map_eq_some_iff.mp hmade
    have hok := eq_ok_of_toOption haccepted
    have hasync := List.isPrefixOf_iff_prefix.mp hasync
    obtain ⟨script, cell', hscript, hcell', hiff⟩ :=
      ((suspends_outside_functions cell.body _ _ _).2.2 hjs).1 function hok
    exact ⟨function, script, cell', hok, hscript, hcell', hasync, hiff.mp hasync⟩
  · intro source
    obtain ⟨first, hfirst, hyield', -, hrefused⟩ :=
      ((suspends_outside_functions cell.body source "js" {}).2.2 hjs).2 _ cell rfl hcell
        ⟨site, hsite, hyield⟩
    have hpos : (faultOf? (transpile source "js" {})).bind (·.pos) = some 27 := by decide +kernel
    rw [hrefused] at hpos
    have hplace : ((first.node.startIn cell.offsets : Nat) : Int) = 27 := Option.some.inj hpos
    exact ⟨cell, first, hcell, hfirst, hyield', hrefused, by exact_mod_cast hplace⟩

end NotebookCell
