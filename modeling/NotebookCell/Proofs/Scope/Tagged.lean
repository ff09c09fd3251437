import NotebookCell.Proofs.Scope.Part
import NotebookCell.Proofs.Script.Cell
import NotebookCell.Proofs.Script.Program

/-!
# Free names of tagged templates

A tagged template is made of its tag and of the expressions in its holes. The text between the holes
is no part of its tree, so the free names of the whole are those of the tag and of each hole, read on
their own, one after the other. Only a declaration that escapes from its hole can hide some of them.

* `freeNames_tagged`: the free names of a tagged template;
* `parseCell_tagged`: a cell that is a tagged template is accepted as an expression only.
-/

namespace NotebookCell.Scope

open NotebookCell.Tree NotebookCell.Script
open NotebookCell.Script.Parser (tagged)

/-! ## Texts on their own -/

/-- What the expression that a text consists of has on its own. -/
def ownOccurrences (text : List Char) : List Occurrence :=
  match parseExpression text with
  | .ok parsed => partOccurrences (nameIn (enclose text)) parsed.expression
  | .error _ => []

/-- The names of the free references of the expression that a text consists of, in order. -/
def freeNamesOf (text : List Char) : List String :=
  match parseExpression text with
  | .ok parsed =>
    (freeReferences (nameIn (enclose text)) parsed.expression).map fun site =>
      nameIn (enclose text) site.node
  | .error _ => []

/-- The names that an expression declares outside of itself. -/
def escapingNamesOf (text : List Char) : List String :=
  escapingNames (ownOccurrences text)

theorem ownOccurrences_eq {text : List Char} {parsed : ParsedExpression}
    (h : parseExpression text = .ok parsed) :
    ownOccurrences text = partOccurrences (nameIn (enclose text)) parsed.expression := by
  rw [ownOccurrences, h]

theorem placed_ownOccurrences (text : List Char) :
    ∀ occurrence ∈ ownOccurrences text, occurrence.Placed := by
  intro occurrence hmem
  rw [ownOccurrences] at hmem
  split at hmem
  · exact placed_of_mem hmem
  · cases hmem

/-- The free names of a text are those of a part that is everything there is. -/
theorem freeNamesOf_eq (text : List Char) :
    freeNamesOf text = freeNames (Part.mk [] (ownOccurrences text)).occurrences := by
  rw [freeNamesOf, ownOccurrences]
  split
  · next parsed hparsed =>
    have hlift := @occurrences_lift (nameIn (enclose text)) [] [] (fun _ h => absurd h List.not_mem_nil)
      parsed.expression
    rw [map_name_freeReferences, hlift]
    rfl
  · rfl

/-! ## The parts of a tagged template -/

section
variable {text : List Char} {path : List Nat} {outer : List Node}

/-- What is left of a list of occurrences without the silent ones. -/
def audible (found : List Occurrence) : List Occurrence :=
  found.filter (!·.isSilent)

theorem audible_append (found others : List Occurrence) :
    audible (found ++ others) = audible found ++ audible others :=
  List.filter_append ..

/-- A kind of node that neither declares nor refers. -/
def isSilentKind (kind : Kind) : Bool :=
  [.callExpression, .templateString, .templateSubstitution, .comment, .htmlComment].contains kind

theorem isSilent_of_kind {name : Node → String} {site : Site}
    (h : isSilentKind site.node.kind = true) : (occurrence name site).isSilent = true := by
  rw [isSilentKind, List.contains_iff_mem] at h
  simp only [List.mem_cons, List.not_mem_nil, or_false] at h
  rw [Occurrence.isSilent]
  dsimp only [occurrence]
  rw [locals]
  rcases h with h | h | h | h | h <;> rw [h] <;> rfl

/-- Below a silent node is what there is to hear. -/
theorem audible_occurrences {name : Node → String} {node : Node}
    (hkind : isSilentKind node.kind = true) :
    audible (occurrences name node path outer) =
      audible ((Node.preorders node.children 0 path (node :: outer)).map (occurrence name)) := by
  obtain ⟨kind, start, stop, named, missing, field, children⟩ := node
  rw [occurrences, Node.preorder, List.map_cons, audible, List.filter_cons,
    isSilent_of_kind hkind]
  rfl

theorem isTransparent_of_kind {node : Node} (h : isSilentKind node.kind = true) :
    isTransparent node = true := by
  rw [isSilentKind, List.contains_iff_mem] at h
  simp only [List.mem_cons, List.not_mem_nil, or_false] at h
  rw [isTransparent]
  rcases h with h | h | h | h | h <;> rw [h] <;> rfl

/-- Comments are silent. -/
theorem audible_preorders_remarks {name : Node → String} {nodes : List Node}
    (h : ∀ node ∈ nodes, node.isRemark = true ∧ node.children = []) (index : Nat) :
    audible ((Node.preorders nodes index path outer).map (occurrence name)) = [] := by
  induction nodes generalizing index with
  | nil => rw [Node.preorders]; rfl
  | cons node nodes ih =>
    obtain ⟨hremark, hchildren⟩ := h node List.mem_cons_self
    have hkind : isSilentKind node.kind = true := by
      rw [Node.isRemark, Bool.or_eq_true, beq_iff_eq, beq_iff_eq] at hremark
      rcases hremark with hkind | hkind <;> rw [hkind] <;> rfl
    rw [Node.preorders, List.map_append, audible_append,
      ih (fun other hother => h other (List.mem_cons_of_mem _ hother)), List.append_nil]
    split
    · refine (audible_occurrences hkind).trans ?_
      rw [hchildren, Node.preorders]
      rfl
    · rfl

theorem preorders_append (nodes others : List Node) (index : Nat) :
    Node.preorders (nodes ++ others) index path outer =
      Node.preorders nodes index path outer ++
        Node.preorders others (index + nodes.length) path outer := by
  induction nodes generalizing index with
  | nil => rw [Node.preorders]; rfl
  | cons node nodes ih =>
    rw [List.cons_append, Node.preorders, Node.preorders, ih, List.append_assoc, List.length_cons,
      Nat.add_right_comm, Nat.add_assoc index]

/-- What a part has at its place, if it is alike to an expression on its own. -/
theorem occurrences_of_own {own : List Char} {parsed : ParsedExpression} {node : Node}
    (hparsed : parseExpression own = .ok parsed)
    (halike : node.Alike (nameIn text) (nameIn (enclose own)) parsed.expression)
    (houter : ∀ node ∈ outer, isTransparent node = true) :
    occurrences (nameIn text) node path outer = (Part.mk path (ownOccurrences own)).occurrences := by
  rw [occurrences_lift houter, partOccurrences, occurrences_of_alike halike [0] rfl,
    ← partOccurrences, ← ownOccurrences_eq hparsed]
  rfl

/-- A hole has what its expression has on its own. -/
theorem audible_hole {hole : List Char} {node : Node} (h : IsReading text hole node)
    (houter : ∀ node ∈ outer, isTransparent node = true) :
    ∃ index, audible (occurrences (nameIn text) node path outer) =
      audible (Part.mk (index :: path) (ownOccurrences hole)).occurrences := by
  obtain ⟨parsed, lead, value, trail, hparsed, hchildren, hremarks, halike⟩ := h.children
  have hkind : isSilentKind node.kind = true := by
    rw [h.kind]
    rfl
  have hbelow : ∀ above ∈ node :: outer, isTransparent above = true := by
    intro above habove
    rcases List.mem_cons.mp habove with rfl | habove
    · exact isTransparent_of_kind hkind
    · exact houter above habove
  have hlead := fun remark hmem => hremarks remark (List.mem_append_left trail hmem)
  have htrail := fun remark hmem => hremarks remark (List.mem_append_right lead hmem)
  have hnamed : value.named = true := halike.named_eq.trans (named_of_parseExpression hparsed)
  refine ⟨lead.length, ?_⟩
  rw [audible_occurrences hkind, hchildren, preorders_append, List.map_append, audible_append,
    audible_preorders_remarks hlead, List.nil_append, Node.preorders, hnamed, if_pos rfl,
    List.map_append, audible_append, audible_preorders_remarks htrail, List.append_nil,
    Nat.zero_add]
  rw [← occurrences_of_own hparsed halike hbelow]
  rfl

/-- Holes next to each other have what their expressions have on their own. -/
theorem audible_holes {holes : List (List Char)} {nodes : List Node}
    (h : List.Forall₂ (IsReading text) holes nodes)
    (houter : ∀ node ∈ outer, isTransparent node = true) (index : Nat) :
    ∃ parts : List Part, parts.map (·.own) = holes.map ownOccurrences ∧
      (∀ part ∈ parts, ∃ inner place, part.path = inner :: place :: path ∧ index ≤ place) ∧
      parts.Pairwise Part.Apart ∧
      audible ((Node.preorders nodes index path outer).map (occurrence (nameIn text))) =
        audible (parts.flatMap Part.occurrences) := by
  induction h generalizing index with
  | nil => exact ⟨[], rfl, by simp, .nil, by rw [Node.preorders]; rfl⟩
  | @cons hole node holes nodes hreading _ ih =>
    obtain ⟨parts, hown, hpaths, hapart, haudible⟩ := ih (index + 1)
    obtain ⟨inner, hhole⟩ := @audible_hole text (index :: path) outer hole node hreading houter
    refine ⟨⟨inner :: index :: path, ownOccurrences hole⟩ :: parts, ?_, ?_, ?_, ?_⟩
    · rw [List.map_cons, List.map_cons, hown]
    · intro part hpart
      rcases List.mem_cons.mp hpart with rfl | hpart
      · exact ⟨inner, index, rfl, Nat.le_refl _⟩
      · obtain ⟨inner', place, hpath, hplace⟩ := hpaths part hpart
        exact ⟨inner', place, hpath, by omega⟩
    · refine .cons ?_ hapart
      -- paths of one length are apart unless they are equal
      intro part hpart
      obtain ⟨inner', place, hpath, hplace⟩ := hpaths part hpart
      have hne : inner :: index :: path ≠ part.path := by
        rw [hpath]
        intro heq
        rw [List.cons.injEq, List.cons.injEq] at heq
        omega
      have hlength : (inner :: index :: path).length = part.path.length := by
        rw [hpath]
        rfl
      exact ⟨fun hsuffix => hne (hsuffix.eq_of_length hlength),
        fun hsuffix => hne (hsuffix.eq_of_length hlength.symm).symm⟩
    · rw [Node.preorders, hreading.named, if_pos rfl, List.map_append, audible_append, haudible,
        List.flatMap_cons, audible_append, ← hhole]
      rfl

/-- A node is alike in every role. -/
theorem alike_as {name name' : Node → String} {node other : Node} (field : Field)
    (hname : name (node.as field) = name node) (h : node.Alike name name' other) :
    (node.as field).Alike name name' other := by
  rw [Node.alike_iff] at h ⊢
  rw [hname]
  exact h

/-- A tagged template has what its tag and its holes have on their own. -/
theorem audible_tagged {tag : List Char} {callee node : Node} {holes : List (List Char)}
    {parsed : ParsedExpression} (htag : parseExpression tag = .ok parsed)
    (hcallee : callee.Alike (nameIn text) (nameIn (enclose tag)) parsed.expression)
    (h : IsTagged text callee holes node) (houter : ∀ node ∈ outer, isTransparent node = true) :
    ∃ parts : List Part, parts.map (·.own) = (tag :: holes).map ownOccurrences ∧
      (∀ part ∈ parts, part.path ≠ []) ∧ parts.Pairwise Part.Apart ∧
      audible (occurrences (nameIn text) node path outer) =
        audible (parts.flatMap Part.occurrences) := by
  obtain ⟨template, rfl, hkind, hnamed, hholes⟩ := h
  have hbelow : ∀ above ∈ tagged callee template :: outer, isTransparent above = true := by
    intro above habove
    rcases List.mem_cons.mp habove with rfl | habove
    · rfl
    · exact houter above habove
  have hsilent : isSilentKind (template.as .arguments).kind = true := by
    show isSilentKind template.kind = true
    rw [hkind]
    rfl
  have hwithin : ∀ above ∈ template.as .arguments :: tagged callee template :: outer,
      isTransparent above = true := by
    intro above habove
    rcases List.mem_cons.mp habove with rfl | habove
    · exact isTransparent_of_kind hsilent
    · exact hbelow above habove
  obtain ⟨parts, hown, hpaths, hapart, haudible⟩ := @audible_holes text (1 :: path) _ holes
    template.children hholes hwithin 0
  have hfunction := @occurrences_of_own text (0 :: path) _ tag parsed (callee.as .function) htag
    (alike_as .function rfl hcallee) hbelow
  refine ⟨⟨0 :: path, ownOccurrences tag⟩ :: parts, ?_, ?_, ?_, ?_⟩
  · rw [List.map_cons, List.map_cons, hown]
  · intro part hpart
    rcases List.mem_cons.mp hpart with rfl | hpart
    · exact List.cons_ne_nil _ _
    · obtain ⟨inner, place, hpath, -⟩ := hpaths part hpart
      rw [hpath]
      exact List.cons_ne_nil _ _
  · refine .cons ?_ hapart
    intro part hpart
    obtain ⟨inner, place, hpath, -⟩ := hpaths part hpart
    have hone : (1 :: path) <:+ part.path := by
      rw [hpath]
      exact List.suffix_append [inner, place] (1 :: path)
    constructor
    · intro hzero
      have hsame := (List.suffix_of_suffix_length_le hzero hone (Nat.le_refl _)).eq_of_length rfl
      cases hsame
    · intro hlong
      have hlength := hlong.length_le
      rw [hpath] at hlength
      simp only [List.length_cons] at hlength
      omega
  · have hcalleeNamed : (callee.as .function).named = true :=
      hcallee.named_eq.trans (named_of_parseExpression htag)
    rw [audible_occurrences rfl]
    show audible ((Node.preorders [callee.as .function, template.as .arguments] 0 path
      (tagged callee template :: outer)).map (occurrence (nameIn text))) = _
    have htemplate : audible (occurrences (nameIn text) (template.as .arguments) (1 :: path)
        (tagged callee template :: outer)) = audible (parts.flatMap Part.occurrences) :=
      (audible_occurrences hsilent).trans haudible
    rw [Node.preorders, Node.preorders, Node.preorders, hcalleeNamed, if_pos rfl,
      if_pos (show (template.as .arguments).named = true from hnamed), List.append_nil,
      List.map_append, audible_append, List.flatMap_cons, audible_append, ← htemplate, ← hfunction]
    rfl

end

/-! ## Free names and names that are not allowed -/

section
variable {text tag : List Char} {callee node : Node} {holes : List (List Char)}
  {parsed : ParsedExpression}

/-- The free names of a tagged template are those of its tag and of its holes, without the names that
escape. -/
theorem freeNames_tagged (htag : parseExpression tag = .ok parsed)
    (hcallee : callee.Alike (nameIn text) (nameIn (enclose tag)) parsed.expression)
    (h : IsTagged text callee holes node) :
    (freeReferences (nameIn text) node).map (fun site => nameIn text site.node) =
      ((tag :: holes).flatMap freeNamesOf).filter fun name =>
        !((tag :: holes).flatMap escapingNamesOf).contains name := by
  obtain ⟨parts, hown, hpath, hapart, haudible⟩ :=
    @audible_tagged text [] [] tag callee node holes parsed htag hcallee h
      (fun _ h => absurd h List.not_mem_nil)
  have hplaced : ∀ part ∈ parts, ∀ occurrence ∈ part.own, occurrence.Placed := by
    intro part hpart
    have hmem : part.own ∈ (tag :: holes).map ownOccurrences := by
      rw [← hown]
      exact List.mem_map_of_mem hpart
    obtain ⟨own, -, heq⟩ := List.mem_map.mp hmem
    rw [← heq]
    exact placed_ownOccurrences own
  have hescaping : (parts.flatMap fun part => escapingNames part.own) =
      (tag :: holes).flatMap escapingNamesOf := by
    have hmap := congrArg (List.flatMap escapingNames) hown
    rw [List.flatMap_map, List.flatMap_map] at hmap
    exact hmap
  have hfree : (parts.flatMap fun part => freeNames (Part.mk [] part.own).occurrences) =
      (tag :: holes).flatMap freeNamesOf := by
    have hmap := congrArg (List.flatMap fun own => freeNames (Part.mk [] own).occurrences) hown
    rw [List.flatMap_map, List.flatMap_map] at hmap
    rw [funext freeNamesOf_eq]
    exact hmap
  rw [map_name_freeReferences, ← freeNames_filter, ← audible, haudible, audible, freeNames_filter,
    freeNames_of_parts hplaced hpath hapart, hescaping, hfree]

/-- Whether an occurrence uses the word `let` as a name. -/
def Occurrence.isLetName (occurrence : Occurrence) : Bool :=
  occurrence.kind == .identifier && occurrence.name == "let"

theorem isSome_letName? (text : List Char) (node : Node) (path : List Nat) (outer : List Node) :
    (letName? text node).isSome = (occurrences (nameIn text) node path outer).any (·.isLetName) := by
  rw [letName?, List.isSome_find?, ← node.map_node_preorder path outer, List.any_map, occurrences,
    List.any_map]
  congr 1
  funext site
  show (site.node.kind == .identifier && nameIn text site.node == "let") =
    (site.node.kind == .identifier && (occurrence (nameIn text) site).name == "let")
  by_cases hkind : site.node.kind = .identifier
  · have hname : (occurrence (nameIn text) site).name = nameIn text site.node :=
      if_pos (by rw [hkind]; rfl)
    rw [hname]
  · rw [beq_eq_false_iff_ne.mpr hkind, Bool.false_and, Bool.false_and]

theorem isSome_letName?_sole (text : List Char) {node : Node} (hnamed : node.named = true)
    (stop : Nat) : (letName? text (sole node stop)).isSome = (letName? text node).isSome := by
  rw [isSome_letName? text (sole node stop) [] [], isSome_letName? text node [0, 0] _]
  show ((Node.preorder (sole node stop) [] []).map (occurrence (nameIn text))).any _ = _
  rw [sole, Node.preorder, Node.preorders, Node.preorders, if_pos rfl, Node.preorder,
    Node.preorders, Node.preorders, hnamed, if_pos rfl, List.append_nil, List.append_nil,
    List.map_cons, List.map_cons, List.any_cons, List.any_cons]
  rfl

/-- Silent occurrences use no name. -/
theorem any_isLetName_audible (found : List Occurrence) :
    (audible found).any (·.isLetName) = found.any (·.isLetName) := by
  rw [audible, List.any_filter]
  congr 1
  funext occurrence
  by_cases hkind : occurrence.kind = .identifier
  · rw [Occurrence.isSilent, hkind]
    rfl
  · rw [Occurrence.isLetName, beq_eq_false_iff_ne.mpr hkind, Bool.false_and, Bool.and_false]

/-- Whether the word `let` is a name in a tagged template depends on its tag and its holes. -/
theorem isSome_letName?_tagged (htag : parseExpression tag = .ok parsed)
    (hcallee : callee.Alike (nameIn text) (nameIn (enclose tag)) parsed.expression)
    (h : IsTagged text callee holes node) :
    (letName? text node).isSome =
      ((tag :: holes).flatMap ownOccurrences).any (·.isLetName) := by
  obtain ⟨parts, hown, -, -, haudible⟩ :=
    @audible_tagged text [] [] tag callee node holes parsed htag hcallee h
      (fun _ h => absurd h List.not_mem_nil)
  have hparts : ∀ part : Part, part.occurrences.any (·.isLetName) = part.own.any (·.isLetName) := by
    intro part
    rw [Part.occurrences, List.any_map]
    rfl
  rw [isSome_letName? text node [] [], ← any_isLetName_audible, haudible, any_isLetName_audible,
    List.any_flatMap, funext hparts]
  have hmap := congrArg (List.any · fun own => own.any (·.isLetName)) hown
  rw [List.any_map, List.any_map] at hmap
  rw [List.any_flatMap]
  exact hmap

end

/-! ## Cells -/

section
variable {tag body : List Char} {callee : Nat → Node} {holes : List (List Char)} {ok : Bool}

theorem alike_enclosed (htag : ReadsTag tag callee) (body : List Char) :
    (callee 1).Alike (nameIn (enclose (taggedText tag body))) (nameIn (enclose tag)) (callee 1) := by
  have htext : enclose (taggedText tag body) =
      ['('] ++ (tag ++ ('\x60' :: (body ++ ['\x60', '\n', ')']))) := by
    simp [enclose, taggedText]
  rw [htext]
  exact htag.alike ['('] _

theorem alike_plain (htag : ReadsTag tag callee) (body : List Char) :
    (callee 0).Alike (nameIn (taggedText tag body)) (nameIn (enclose tag)) (callee 1) :=
  htag.alike [] _

theorem named_of_isTagged {text : List Char} {left node : Node} (h : IsTagged text left holes node) :
    node.named = true ∧ isNamedDefinition node = false := by
  obtain ⟨template, rfl, -⟩ := h
  exact ⟨rfl, rfl⟩

/-- A tagged template that is not read as an expression is not read as a program either. -/
theorem cellProgram_tagged (htag : ReadsTag tag callee) (hsteps : Steps holes body ok)
    (hnone : cellExpression? (taggedText tag body) = none) (program : Node) :
    cellProgram (taggedText tag body) ≠ .ok program := by
  intro hprogram
  obtain ⟨hparse, hlet⟩ := cellProgram_eq_ok hprogram
  have hclean := clean_of_parse? hparse
  have hexpression := parseExpression_tagged htag hsteps hclean
  have hscript := parse?_tagged htag hsteps hclean
  obtain ⟨own, hown, heq⟩ := htag.parseExpression
  cases ok with
  | false =>
    rw [if_neg Bool.false_ne_true, hparse] at hscript
    cases hscript
  | true =>
    rw [if_pos rfl] at hexpression hscript
    obtain ⟨parsed, hparsed, htagged⟩ := hexpression
    obtain ⟨node, stop, hsole, hplain⟩ := hscript
    rw [hparse, Option.some.injEq] at hsole
    -- `let` is a name in both readings or in none
    have hletPlain := isSome_letName?_tagged hown (heq ▸ alike_plain htag body) hplain
    have hletEnclosed := isSome_letName?_tagged hown (heq ▸ alike_enclosed htag body) htagged
    rw [← hletPlain, ← isSome_letName?_sole _ (named_of_isTagged hplain).1 stop, ← hsole, hlet]
      at hletEnclosed
    rw [cellExpression?, hparsed] at hnone
    dsimp only at hnone
    rw [(named_of_isTagged htagged).2, hletEnclosed] at hnone
    cases hnone

/-- A cell that is a tagged template is an expression. -/
theorem parseCell_tagged {cell : Script.Cell} (htag : ReadsTag tag callee)
    (hsteps : Steps holes body ok) (h : parseCell (taggedText tag body) = .ok cell) :
    ∃ node, IsTagged (enclose (taggedText tag body)) (callee 1) holes node ∧
      Analysed (taggedText tag body) (enclose (taggedText tag body)) node true
        (.ofSource (taggedText tag body) 1) cell := by
  rcases parseCell_eq_ok h with ⟨expression, hexpression, hcell⟩ | ⟨program, hnone, hprogram, -⟩
  · refine ⟨expression, ?_, hcell⟩
    obtain ⟨parsed, hparsed, rfl⟩ := cellExpression?_eq_some hexpression
    have htagged := parseExpression_tagged htag hsteps (clean_of_parseExpression hparsed)
    cases ok with
    | false =>
      rw [if_neg Bool.false_ne_true, hparsed] at htagged
      cases htagged
    | true =>
      rw [if_pos rfl] at htagged
      obtain ⟨parsed', hparsed', htagged⟩ := htagged
      rw [hparsed, Except.ok.injEq] at hparsed'
      rw [hparsed']
      exact htagged
  · exact absurd hprogram (cellProgram_tagged htag hsteps hnone program)

end

end NotebookCell.Scope
