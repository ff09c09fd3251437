import NotebookCell.Proofs.Body.Refusal
import NotebookCell.Proofs.Editing.Acceptance
import NotebookCell.Proofs.Tree.Order

/-!
# Trees whose edits fit together

The edits of a cell are made for whatever tree it has. They are all accepted if the tree is regular
(`Script.Cell.IsRegular`): its nodes are in the order of the text, no part of an import is missing, and
the ends of import statements are characters that are not trimmed. A line break that is deleted along
with an import statement then stands in front of the next one, and never in the white space at the end.

* `ends_of_isFramed`: where the ends of a statement are;
* `apart_removals`, `isCovered_trim_of_isImport`: the deletions of a regular tree do not meet;
* `defect_of_isRegular`: its imports can be replaced.
-/

namespace NotebookCell

open NotebookCell.Tree NotebookCell.Text NotebookCell.Editing NotebookCell.Script NotebookCell.Body

/-! ## Regular trees -/

/-- Whether a text has characters, and neither the first nor the last one is white space. -/
def isFramed (text : List Char) : Bool :=
  text.head?.any (!isWhite ·) && text.getLast?.any (!isWhite ·)

/-- Whether a part of an import has what it needs: a statement names its module and has no white space
at its ends, a specifier has a name and a namespace an identifier. -/
def isWhole (offsets : Offsets) (node : Node) : Bool :=
  match node.kind with
  | .importStatement => isFramed (node.textIn offsets) && (node.child? .source).isSome
  | .importSpecifier => (node.child? .name).isSome
  | .namespaceImport => node.namedChildren.any (·.kind == .identifier)
  | _ => true

/-- The tree of a cell is in the order of its text, and its imports are whole. -/
structure Script.Cell.IsRegular (cell : Script.Cell) : Prop where
  offsets_eq : cell.offsets = .ofSource cell.source (if cell.isExpression then 1 else 0)
  ordered : cell.body.isOrdered = true
  whole : cell.body.walkAll.all (isWhole cell.offsets) = true

/-- A text with frame between two offsets of the source has characters there that are not white. -/
theorem ends_of_isFramed {source : List Char} {shift : Int} {node : Node}
    (h : isFramed (node.textIn (.ofSource source shift)) = true) :
    node.startIn (.ofSource source shift) < node.stopIn (.ofSource source shift) ∧
      (∃ c, source[node.startIn (.ofSource source shift)]? = some c ∧ isWhite c = false) ∧
      ∃ c, source[node.stopIn (.ofSource source shift) - 1]? = some c ∧ isWhite c = false := by
  have hstop : node.stopIn (.ofSource source shift) ≤ source.length := Offsets.char_le source shift _
  have htext : node.textIn (.ofSource source shift) =
      (source.drop (node.startIn (.ofSource source shift))).take
        (node.stopIn (.ofSource source shift) - node.startIn (.ofSource source shift)) := rfl
  generalize node.startIn (.ofSource source shift) = start at htext ⊢
  generalize node.stopIn (.ofSource source shift) = stop at hstop htext ⊢
  rw [htext, isFramed, Bool.and_eq_true, Option.any_eq_true, Option.any_eq_true] at h
  obtain ⟨⟨c, hfirst, hc⟩, d, hlast, hd⟩ := h
  have hlt : start < stop := by
    by_contra hle
    rw [Nat.sub_eq_zero_of_le (by omega), List.take_zero] at hfirst
    cases hfirst
  rw [List.head?_eq_getElem?, List.getElem?_take_of_lt (by omega), List.getElem?_drop,
    Nat.add_zero] at hfirst
  rw [List.getLast?_eq_getElem?, List.length_take, List.length_drop, Nat.min_eq_left (by omega),
    List.getElem?_take_of_lt (by omega), List.getElem?_drop,
    show start + (stop - start - 1) = stop - 1 by omega] at hlast
  exact ⟨hlt, ⟨c, hfirst, by simpa using hc⟩, d, hlast, by simpa using hd⟩

section
variable {cell : Script.Cell}

theorem isWhole_of_mem (h : cell.IsRegular) {node : Node} (hnode : node ∈ cell.body.walkAll) :
    isWhole cell.offsets node = true :=
  List.all_eq_true.mp h.whole node hnode

/-- Only a program has import statements that are replaced. -/
theorem of_mem_replacedImports (h : cell.IsRegular) {statement : Node}
    (hstatement : statement ∈ replacedImports cell) :
    cell.offsets = .ofSource cell.source 0 ∧ statement ∈ cell.body.walkAll ∧
      statement.kind = .importStatement := by
  have hoffsets := h.offsets_eq
  rw [replacedImports] at hstatement
  split at hstatement
  · cases hstatement
  · next hprogram =>
    rw [if_neg hprogram] at hoffsets
    obtain ⟨hchild, hkind⟩ := List.mem_filter.mp hstatement
    exact ⟨hoffsets, mem_walkAll_of_mem_namedChildren (mem_walkAll_self _) hchild, beq_iff_eq.mp hkind⟩

/-- The ends of an import statement of a regular tree. -/
theorem ends_of_mem_replacedImports (h : cell.IsRegular) {statement : Node}
    (hstatement : statement ∈ replacedImports cell) :
    statement.startIn cell.offsets < statement.stopIn cell.offsets ∧
      (∃ c, cell.source[statement.startIn cell.offsets]? = some c ∧ isWhite c = false) ∧
      ∃ c, cell.source[statement.stopIn cell.offsets - 1]? = some c ∧ isWhite c = false := by
  obtain ⟨hoffsets, hwalk, hkind⟩ := of_mem_replacedImports h hstatement
  have hwhole := isWhole_of_mem h hwalk
  rw [isWhole, hkind, Bool.and_eq_true, hoffsets] at hwhole
  rw [hoffsets]
  exact ends_of_isFramed hwhole.1

/-! ## Deletions -/

/-- What goes with an import statement ends in front of the next one. -/
theorem apart_removals (h : cell.IsRegular) :
    (((replacedImports cell).map (removal cell.offsets)).flatMap
      (Operation.edits cell.source)).Pairwise Edit.Apart := by
  have hordered : (replacedImports cell).Pairwise fun first second => first.stop ≤ second.start := by
    rw [replacedImports]
    split
    · exact .nil
    · have hchildren := h.ordered
      rw [Node.isOrdered_eq] at hchildren
      exact ((Node.pairwise_of_areOrdered hchildren).filter _).filter _
  have hedits (statement : Node) : Operation.edits cell.source (removal cell.offsets statement) =
      [⟨.right, (removedRange cell.offsets statement).1, (removedRange cell.offsets statement).2, []⟩] :=
    rfl
  rw [List.flatMap_map]
  simp only [hedits]
  rw [← List.map_eq_flatMap, List.pairwise_map]
  refine hordered.imp_of_mem fun {first second} hfirst hsecond hbefore => ?_
  obtain ⟨hoffsets, -⟩ := of_mem_replacedImports h hfirst
  obtain ⟨-, ⟨c, hc, hblack⟩, -⟩ := ends_of_mem_replacedImports h hsecond
  rw [hoffsets] at hc ⊢
  intro pos hcovers
  rw [covers_removal] at hcovers ⊢
  have hnext : first.stopIn (.ofSource cell.source 0) ≤ second.startIn (.ofSource cell.source 0) :=
    Offsets.char_mono cell.source 0 (by omega)
  refine goesWith_of_lt ?_
  rw [goesWith, Bool.and_eq_true, Bool.or_eq_true, Bool.and_eq_true, Bool.and_eq_true,
    decide_eq_true_eq, decide_eq_true_eq, beq_iff_eq, beq_iff_eq] at hcovers
  obtain ⟨-, hinside | ⟨⟨rfl, hbreak⟩, -⟩⟩ := hcovers
  · omega
  · -- a line break is no start of an import statement
    refine Nat.lt_of_le_of_ne hnext fun heq => ?_
    rw [heq, hc] at hbreak
    cases hbreak
    cases hblack

/-- Nothing that goes with an import statement is trimmed. -/
theorem isCovered_trim_of_isImport (h : cell.IsRegular) {pos : Nat} (hpos : isImport cell pos = true) :
    isCovered (Operation.edits cell.source .trim) pos = false := by
  rw [isImport, List.any_eq_true] at hpos
  obtain ⟨statement, hstatement, hgoes⟩ := hpos
  obtain ⟨hlt, ⟨c, hc, hwhite⟩, d, hd, hwhite'⟩ := ends_of_mem_replacedImports h hstatement
  rw [Bool.and_eq_true, Bool.or_eq_true, Bool.and_eq_true, decide_eq_true_eq, decide_eq_true_eq] at hgoes
  obtain ⟨hlow, hinside | ⟨-, hmore⟩⟩ := hgoes
  · exact isCovered_trim_between hc hwhite hd hwhite' hlow (by omega)
  · -- more than white space follows a line break that is deleted
    obtain ⟨e, he, hblack⟩ := List.any_eq_true.mp hmore
    obtain ⟨index, hindex⟩ := List.getElem?_of_mem he
    rw [List.getElem?_drop] at hindex
    exact isCovered_trim_between hc hwhite hindex (by simpa using hblack) hlow (by omega)

/-- The deletions of a regular tree are accepted. -/
theorem exists_runAll_deletions (h : cell.IsRegular) :
    ∃ buffer, (Buffer.ofSource cell.source).runAll (deletions cell) = .ok buffer := by
  have hsource : cell.offsets.source = cell.source := by
    rw [h.offsets_eq]
    rfl
  have hheads := inserts_headers cell
  have hplaced : ∀ operation ∈ (replacedImports cell).map (removal cell.offsets),
      operation.Placed cell.source := by
    intro operation hoperation
    obtain ⟨statement, hstatement, rfl⟩ := List.mem_map.mp hoperation
    have hlt := (ends_of_mem_replacedImports h hstatement).1
    rw [(of_mem_replacedImports h hstatement).1] at hlt ⊢
    exact placed_removal hlt.le
  have hapart := (apart_append_iff (apart_trim cell.source) (covers_of_inserts hheads)
    (apart_removals h)).mpr fun pos hpos => isCovered_trim_of_isImport h
      ((isCovered_removals hsource pos).symm.trans hpos)
  rw [exists_runAll_iff, deletions]
  constructor
  · intro operation hoperation
    rw [List.cons_append, List.mem_cons, List.mem_append] at hoperation
    obtain htrim | hhead | himport := hoperation
    · exact .inl htrim
    · exact .inr (hheads operation hhead).placed
    · exact .inr (hplaced operation himport)
  · rw [List.cons_append, List.flatMap_cons, List.flatMap_append]
    exact hapart

/-! ## Imports -/

theorem exists_mapM_ok {α β ε : Type} {f : α → Except ε β} {items : List α}
    (h : ∀ item ∈ items, ∃ value, f item = .ok value) : ∃ values, items.mapM f = .ok values := by
  induction items with
  | nil => exact ⟨[], rfl⟩
  | cons item items ih =>
    obtain ⟨⟨value, hvalue⟩, hitems⟩ := List.forall_mem_cons.mp h
    obtain ⟨values, hvalues⟩ := ih hitems
    exact ⟨value :: values, by rw [List.mapM_cons, hvalue, hvalues]; rfl⟩

/-- An import statement whose parts are whole has a pattern. -/
theorem exists_importPattern (h : cell.IsRegular) {statement : Node}
    (hstatement : statement ∈ cell.body.walkAll) :
    ∃ pattern, importPattern cell.name cell.offsets statement = .ok pattern := by
  rw [importPattern]
  split
  · exact ⟨_, rfl⟩
  next clause hclause =>
  have hclause := mem_walkAll_of_mem_namedChildren hstatement (List.mem_of_find?_eq_some hclause)
  split
  · next part hpart =>
    have hkind := List.find?_some hpart
    have hwhole := isWhole_of_mem h
      (mem_walkAll_of_mem_namedChildren hclause (List.mem_of_find?_eq_some hpart))
    rw [isWhole, beq_iff_eq.mp hkind, List.any_eq_true] at hwhole
    obtain ⟨id, hid, hidentifier⟩ := hwhole
    split
    · exact ⟨_, rfl⟩
    · next hnone => exact absurd hidentifier (List.find?_eq_none.mp hnone id hid)
  · have hmembers : ∀ part ∈ clause.namedChildren,
        ∃ members, clauseMembers cell.name cell.offsets part = .ok members := by
      intro part hpart
      rw [clauseMembers]
      split
      · exact ⟨_, rfl⟩
      · apply exists_mapM_ok
        intro specifier hspecifier
        obtain ⟨hchild, hkind⟩ := List.mem_filter.mp hspecifier
        have hwhole := isWhole_of_mem h (mem_walkAll_of_mem_namedChildren
          (mem_walkAll_of_mem_namedChildren hclause hpart) hchild)
        rw [isWhole, beq_iff_eq.mp hkind, Option.isSome_iff_exists] at hwhole
        obtain ⟨imported, himported⟩ := hwhole
        rw [specifierMember, himported]
        dsimp only
        split
        · exact ⟨_, rfl⟩
        · exact ⟨_, rfl⟩
      · exact ⟨_, rfl⟩
    obtain ⟨members, hmembers⟩ := exists_mapM_ok hmembers
    rw [hmembers]
    exact ⟨_, rfl⟩

/-- Statements with a pattern and a module have no defect. -/
theorem planImports_defect {name : Node → String} {offsets : Offsets} {resolve : Bool}
    {found : List (List Char × List Char)} {statements : List Node}
    (h : ∀ statement ∈ statements, (∃ pattern, importPattern name offsets statement = .ok pattern) ∧
      ∃ call, importCall offsets resolve statement = .ok call) :
    (planImports name offsets resolve found statements).defect = none := by
  induction statements generalizing found with
  | nil =>
    rw [planImports]
    split
    · rfl
    · rfl
  | cons statement statements ih =>
    obtain ⟨⟨⟨pattern, hpattern⟩, call, hcall⟩, hothers⟩ := List.forall_mem_cons.mp h
    rw [planImports, hpattern, hcall]
    exact ih hothers

theorem defect_of_isRegular (h : cell.IsRegular) (options : Options) :
    (plan cell options).defect = none := by
  rw [plan_defect]
  apply planImports_defect
  intro statement hstatement
  obtain ⟨-, hwalk, hkind⟩ := of_mem_replacedImports h hstatement
  refine ⟨exists_importPattern h hwalk, ?_⟩
  have hwhole := isWhole_of_mem h hwalk
  rw [isWhole, hkind, Bool.and_eq_true, Option.isSome_iff_exists] at hwhole
  obtain ⟨-, source, hsource⟩ := hwhole
  rw [importCall, hsource]
  exact ⟨_, rfl⟩

/-! ## All edits -/

/-- The edits of a regular tree are all accepted: those that trim the source, take out the import
statements with the line breaks behind them, wrap addresses, and write at the two ends. So a cell that
is read and does not yield always becomes a function. -/
theorem edits_accepted (h : cell.IsRegular) (options : Options) :
    (∃ buffer, (Buffer.ofSource cell.source).runAll (plan cell options).operations = .ok buffer) ∧
      (plan cell options).defect = none ∧
      (Scope.yields cell.body = [] →
        ∃ function, cellFunction cell options = .ok function ∧
          ∀ source, parseCell source = .ok cell → transpileScript source options = .ok function) := by
  have hdefect := defect_of_isRegular h options
  obtain ⟨text, htext⟩ : ∃ text, (plan cell options).run cell.source = .ok text := by
    cases hrun : (plan cell options).run cell.source with
    | ok text => exact ⟨text, rfl⟩
    | error failure =>
      obtain ⟨refusal, -, hrefused⟩ := (planRun_eq_error_iff h.offsets_eq hdefect).mp hrun
      obtain ⟨buffer, haccepted⟩ := exists_runAll_deletions h
      rw [haccepted] at hrefused
      cases hrefused
  obtain ⟨-, buffer, hbuffer, -⟩ := run_eq_ok htext
  refine ⟨⟨buffer, hbuffer⟩, hdefect, fun hyields => ?_⟩
  have hfunction := cellFunction_eq cell options
  rw [hyields, htext] at hfunction
  refine ⟨_, hfunction, fun source hcell => ?_⟩
  rw [transpileScript, hcell]
  exact hfunction

end

/-- A program that begins and ends with an import, with imports right behind each other, on one line and
on two. -/
theorem edits_accepted_adjacent :
    let source := ("\t\nimport a from './m'\nimport 'n';import * as b from 'k'\n\nb(a)\n" ++
      "import \x7bc as d\x7d from '/l'\n ").toList
    let options : Options := { resolveLocalImports := true, resolveFiles := true }
    ∃ cell function, parseCell source = .ok cell ∧ cell.IsRegular ∧ Scope.yields cell.body = [] ∧
      transpileScript source options = .ok function := by
  intro source options
  have hparsed : (parseCell source).toOption.map (fun cell => (cell.body.isOrdered,
      cell.body.walkAll.all (isWhole cell.offsets), (Scope.yields cell.body).isEmpty)) =
        some (true, true, true) := by decide +kernel
  obtain ⟨cell, hcell, hflags⟩ := Option.map_eq_some_iff.mp hparsed
  simp only [Prod.mk.injEq, List.isEmpty_iff] at hflags
  obtain ⟨hordered, hwhole, hyields⟩ := hflags
  have hok := eq_ok_of_toOption hcell
  have hregular : cell.IsRegular := ⟨offsets_of_parseCell hok, hordered, hwhole⟩
  obtain ⟨-, -, hfunction⟩ := edits_accepted hregular options
  obtain ⟨function, -, hscript⟩ := hfunction hyields
  exact ⟨cell, function, hok, hregular, hyields, hscript source hok⟩

end NotebookCell
