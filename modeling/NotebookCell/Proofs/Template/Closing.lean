import NotebookCell.Proofs.Reading.Place
import NotebookCell.Proofs.Script.Enclosed
import NotebookCell.Proofs.Script.Literal
import NotebookCell.Proofs.Template.Content
import NotebookCell.Proofs.Tree.Above

/-!
# What closes a hole

Whether a text is the expression of a hole is judged in front of a line break and a parenthesis. In the
literal a brace follows it at once, and anything may come behind the brace. The readings agree where
the text is straight, so that no other reading of it is tried, and where no comment that it leaves open
is closed behind it.

* `Held.place`: the contents of such a text in a literal, the same ones further on in the text;
* `hole_without_break`: the text needs no line break in front of what closes it;
* `readsAlike_of_isSelfContained`: a test of the text of a hole after which it reads in every literal as
  it reads on its own.
-/

namespace NotebookCell.Script

open NotebookCell.Tree NotebookCell.Text NotebookCell.Script.Parser

/-! ## Identifiers -/

/-- The names in a tree, in the order of the text. -/
def identifiersIn (text : List Char) (node : Node) : List String :=
  (node.walkAll.filter fun node => isNameKind node.kind).map (nameIn text)

/-- The names in several trees, of which only constructs count. -/
def identifiersOf (text : List Char) (nodes : List Node) : List String :=
  (nodes.filter (·.named)).flatMap (identifiersIn text)

section
variable {text : List Char} {node : Node}

theorem identifiersIn_eq (hkind : isNameKind node.kind = false) :
    identifiersIn text node = identifiersOf text node.children := by
  rw [identifiersIn, node.walkAll_eq, List.filter_cons_of_neg (by rw [hkind]; exact Bool.false_ne_true),
    List.filter_flatMap, List.map_flatMap]
  rfl

theorem identifiersOf_append (nodes nodes' : List Node) :
    identifiersOf text (nodes ++ nodes') = identifiersOf text nodes ++ identifiersOf text nodes' := by
  rw [identifiersOf, List.filter_append, List.flatMap_append]
  rfl

theorem identifiersOf_singleton (hnamed : node.named = true) :
    identifiersOf text [node] = identifiersIn text node := by
  rw [identifiersOf, List.filter_cons_of_pos hnamed]
  exact List.flatMap_singleton _ _

theorem Makes.moved {inner : List Node} {value : Node} (h : Makes inner value) (offset : Nat) :
    Makes (inner.map (Node.moved offset)) (value.moved offset) := by
  rcases h with rfl | ⟨hlength, hkind, hnamed, hchildren⟩
  · exact .inl rfl
  · refine .inr ⟨by rwa [List.length_map], ?_, ?_, ?_⟩
    · rw [Node.kind_moved, hkind]
    · rw [Node.named_moved, hnamed]
    · rw [Node.children_moved, hchildren]

/-- What is put together is as good as its parts. -/
theorem identifiersOf_contents {children lead inner trail nodes : List Node} {value : Node}
    (hchildren : children = lead ++ [value] ++ trail) (hnodes : nodes = lead ++ inner ++ trail)
    (hvalue : Makes inner value) : identifiersOf text children = identifiersOf text nodes := by
  have hinner : identifiersOf text [value] = identifiersOf text inner := by
    rcases hvalue with rfl | ⟨-, hkind, hnamed, rfl⟩
    · rfl
    · rw [identifiersOf_singleton hnamed, identifiersIn_eq (by rw [hkind]; rfl)]
  rw [hchildren, hnodes, identifiersOf_append, identifiersOf_append, identifiersOf_append,
    identifiersOf_append, hinner]

end

/-! ### Names inside a text -/

/-- What ends with a character that is neither a line break nor a parenthesis ends with the text in
front of them. -/
theorem prefix_of_append_close {hole front behind : List Char} {last : Char}
    (h : hole ++ ['\n', ')'] = front ++ behind) (hlast : front.getLast? = some last)
    (hbreak : last ≠ '\n') (hclose : last ≠ ')') : front <+: hole := by
  rcases List.append_eq_append_iff.mp h with ⟨rest, hfront, hrest⟩ | ⟨rest, hhole, -⟩
  · rw [hfront, List.getLast?_append] at hlast
    rcases rest with _ | ⟨first, _ | ⟨second, rest⟩⟩
    · rw [hfront, List.append_nil]
    · cases hrest
      exact absurd (Option.some.inj hlast) (Ne.symm hbreak)
    · obtain rfl : rest = [] := by
        have hlength := congrArg List.length hrest
        simp only [List.length_cons, List.length_nil, List.length_append] at hlength
        exact List.length_eq_zero_iff.mp (by omega)
      cases hrest
      exact absurd (Option.some.inj hlast) (Ne.symm hclose)
  · exact ⟨rest, hhole.symm⟩

/-- A name between parentheses is part of the text between them. -/
theorem exists_of_nameAt {hole : List Char} {node : Node} (h : NameAt (enclose hole) node) :
    ∃ start stop, node.start = 1 + start ∧ node.stop = 1 + stop ∧ stop ≤ byteLength hole := by
  obtain ⟨before, lexeme, behind, htext, hstart, hstop, hne, hname⟩ := h
  cases before with
  | nil =>
    obtain ⟨first, lexeme, rfl⟩ := List.exists_cons_of_ne_nil hne
    obtain ⟨rfl, -⟩ := List.cons.inj htext
    cases hname '(' List.mem_cons_self
  | cons first before =>
    obtain ⟨rfl, htail⟩ := List.cons.inj htext
    obtain ⟨last, hlast⟩ : ∃ last, lexeme.getLast? = some last :=
      Option.ne_none_iff_exists'.mp fun hnone => hne (List.getLast?_eq_none_iff.mp hnone)
    have hlastName := hname last (List.mem_of_getLast? hlast)
    have hend : (before ++ lexeme).getLast? = some last := by
      rw [List.getLast?_append, hlast]
      rfl
    have hbreak : last ≠ '\n' := by
      rintro rfl
      cases hlastName
    have hclose : last ≠ ')' := by
      rintro rfl
      cases hlastName
    replace htail : hole ++ ['\n', ')'] = before ++ lexeme ++ behind :=
      htail.trans (List.append_assoc before lexeme behind).symm
    obtain ⟨rest, hhole⟩ := prefix_of_append_close htail hend hbreak hclose
    refine ⟨byteLength before, byteLength before + byteLength lexeme, ?_, ?_, ?_⟩
    · exact hstart.symm
    · rw [← Nat.add_assoc]
      exact hstop.symm
    · rw [← hhole, byteLength_append, byteLength_append]
      exact Nat.le_add_right _ _

mutual

theorem walkAll_moved (offset : Nat) (node : Node) :
    (node.moved offset).walkAll = node.walkAll.map (Node.moved offset) := by
  match node with
  | ⟨kind, start, stop, named, missing, field, children⟩ =>
    rw [Node.walkAll_eq, Node.walkAll_eq, List.map_cons]
    exact congrArg _ (walkAll_movedAll offset children)

theorem walkAll_movedAll (offset : Nat) (nodes : List Node) :
    ((Node.movedAll offset nodes).filter (·.named)).flatMap Node.walkAll =
      ((nodes.filter (·.named)).flatMap Node.walkAll).map (Node.moved offset) := by
  match nodes with
  | [] => rfl
  | node :: nodes =>
    rw [Node.movedAll, List.filter_cons, List.filter_cons, Node.named_moved]
    cases node.named with
    | false => exact walkAll_movedAll offset nodes
    | true =>
      rw [if_pos rfl, if_pos rfl, List.flatMap_cons, List.flatMap_cons, List.map_append,
        walkAll_moved offset node, walkAll_movedAll offset nodes]

end

/-- A name of a text between parentheses is the same wherever the text stands. -/
theorem nameIn_moved {hole : List Char} {node : Node} (h : node.Sound (enclose hole))
    (hkind : isNameKind node.kind = true) (before after : List Char) {offset : Nat}
    (hoffset : offset + 1 = byteLength before) :
    nameIn (before ++ (hole ++ after)) (node.moved offset) = nameIn (enclose hole) node := by
  obtain ⟨start, stop, hstart, hstop, hle⟩ := exists_of_nameAt (nameAt_of_isNameKind h.proper hkind)
  refine nameIn_tag start stop ?_ ?_ hstart hstop hle
  · rw [Node.start_moved, hstart]
    omega
  · rw [Node.stop_moved, hstop]
    omega

/-- The names of a text between parentheses are the same wherever the text stands. -/
theorem identifiersIn_moved {hole : List Char} {node : Node} (h : node.Sound (enclose hole))
    (before after : List Char) {offset : Nat} (hoffset : offset + 1 = byteLength before) :
    identifiersIn (before ++ (hole ++ after)) (node.moved offset) = identifiersIn (enclose hole) node := by
  rw [identifiersIn, identifiersIn, walkAll_moved, List.filter_map, List.map_map]
  have hfilter : (fun node : Node => isNameKind node.kind) ∘ Node.moved offset =
      fun node => isNameKind node.kind := by
    funext node
    exact congrArg isNameKind (node.kind_moved offset)
  rw [hfilter]
  refine List.map_congr_left fun other hother => ?_
  obtain ⟨hmem, hkind⟩ := List.mem_filter.mp hother
  exact nameIn_moved (sound_of_mem_walk h hmem) hkind before after hoffset

mutual

/-- A tree of a text between parentheses is alike wherever the text stands. -/
theorem alike_moved {hole : List Char} {node : Node} (h : node.Sound (enclose hole))
    (before after : List Char) {offset : Nat} (hoffset : offset + 1 = byteLength before) :
    (node.moved offset).Alike (nameIn (before ++ (hole ++ after))) (nameIn (enclose hole)) node := by
  match node with
  | ⟨kind, start, stop, named, missing, field, children⟩ =>
    refine Node.alike_iff.mpr ⟨rfl, rfl, ?_, ?_, ?_⟩
    · exact fun hkind => nameIn_moved h hkind before after hoffset
    · intro hkind child hchild hrole
      rw [Node.children_moved] at hchild
      obtain ⟨own, hown, rfl⟩ := List.mem_map.mp hchild
      rw [Node.field_moved] at hrole
      rw [Node.kind_moved]
      exact names_of_isDefinition h.proper hkind own hown hrole
    · rw [Node.children_moved]
      exact alikeAll_moved h.children before after hoffset

theorem alikeAll_moved {hole : List Char} {nodes : List Node}
    (h : ∀ node ∈ nodes, node.Sound (enclose hole)) (before after : List Char) {offset : Nat}
    (hoffset : offset + 1 = byteLength before) :
    Node.AlikeAll (nameIn (before ++ (hole ++ after))) (nameIn (enclose hole))
      (nodes.map (Node.moved offset)) nodes := by
  match nodes with
  | [] => exact trivial
  | node :: nodes =>
    rw [List.forall_mem_cons] at h
    exact ⟨⟨node.field_moved offset, alike_moved h.1 before after hoffset⟩,
      alikeAll_moved h.2 before after hoffset⟩

end

/-- What the same constructs make is alike wherever the text stands. -/
theorem alike_moved_of_makes {hole : List Char} {inner : List Node} {value value' : Node}
    (h : Makes inner value) (h' : Makes inner value')
    (hsound : ∀ node ∈ inner, node.Sound (enclose hole)) (before after : List Char) {offset : Nat}
    (hoffset : offset + 1 = byteLength before) :
    (value.moved offset).Alike (nameIn (before ++ (hole ++ after))) (nameIn (enclose hole)) value' := by
  rcases h with rfl | ⟨hlength, hkind, hnamed, hchildren⟩
  · rcases h' with hone | ⟨hlength, -⟩
    · obtain rfl := List.singleton_inj.mp hone
      exact alike_moved (hsound value List.mem_cons_self) before after hoffset
    · exact absurd rfl hlength
  · rcases h' with rfl | ⟨-, hkind', hnamed', hchildren'⟩
    · exact absurd rfl hlength
    · refine Node.alike_iff.mpr ⟨?_, ?_, ?_, ?_, ?_⟩
      · rw [Node.kind_moved, hkind, hkind']
      · rw [Node.named_moved, hnamed, hnamed']
      · rw [Node.kind_moved, hkind]
        intro hname
        cases hname
      · rw [Node.kind_moved, hkind]
        intro hdefinition
        cases hdefinition
      · rw [Node.children_moved, hchildren, hchildren']
        exact alikeAll_moved hsound before after hoffset

/-! ## The last comment -/

/-- A line comment that runs up to the line break is found at the end of the text. -/
theorem endsInLineComment_of_lastLine {hole : List Char} {root node : Node} (hnode : node ∈ root.walkAll)
    (h : LastLine ⟨hole ++ ['\n', ')'], 1⟩ node) :
    Template.endsInLineComment root (.ofSource hole 1) = true := by
  obtain ⟨before, body, hrest, rfl⟩ := h
  have hhole : hole = before ++ '/' :: '/' :: body := by
    refine (List.append_left_inj ['\n', ')']).mp (hrest.trans ?_)
    rw [List.append_assoc, List.cons_append, List.cons_append]
  have hstart : (Offsets.ofSource hole 1).char ((1 + byteLength before : Nat) : Int) = before.length :=
    Offsets.char_ofSource hhole (by push_cast; rfl)
  have hstop : (Offsets.ofSource hole 1).char
      ((1 + byteLength (before ++ '/' :: '/' :: body) : Nat) : Int) = hole.length := by
    rw [← hhole]
    exact Offsets.char_ofSource (List.append_nil hole).symm (by push_cast; rfl)
  refine List.any_eq_true.mpr ⟨_, hnode, ?_⟩
  have htext : (hole.drop before.length).take (hole.length - before.length) = '/' :: '/' :: body := by
    rw [hhole, List.drop_left, List.length_append, Nat.add_sub_cancel_left, List.take_length]
  show (Kind.comment == Kind.comment && "//".toList.isPrefixOf ((hole.drop
    ((Offsets.ofSource hole 1).char ((1 + byteLength before : Nat) : Int))).take
      ((Offsets.ofSource hole 1).char ((1 + byteLength (before ++ '/' :: '/' :: body) : Nat) : Int) -
        (Offsets.ofSource hole 1).char ((1 + byteLength before : Nat) : Int))) &&
    decide ((Offsets.ofSource hole 1).char
      ((1 + byteLength (before ++ '/' :: '/' :: body) : Nat) : Int) ≥ hole.length)) = true
  rw [hstart, hstop, htext, decide_eq_true le_rfl]
  rfl

/-! ## The contents of a hole -/

/-- No comment is ended by a text without its last mark. -/
theorem blockCommentLength?_of_notMem {tail : List Char} (htail : '/' ∉ tail) (body : List Char) :
    blockCommentLength? (body ++ tail) = blockCommentLength? body := by
  have hhead : tail.head? ≠ some '/' := fun h => htail (List.mem_of_head? h)
  induction body with
  | nil =>
    rw [List.nil_append]
    induction tail with
    | nil => rfl
    | cons c tail ih =>
      have htail' : '/' ∉ tail := fun h => htail (List.mem_cons_of_mem c h)
      have hhead' : tail.head? ≠ some '/' := fun h => htail' (List.mem_of_head? h)
      rw [blockCommentLength?_cons fun h => hhead' h.2, ih htail' hhead']
      rfl
  | cons c body ih =>
    by_cases hclose : c = '*' ∧ body.head? = some '/'
    · obtain ⟨rfl, hslash⟩ := hclose
      obtain ⟨rest, rfl⟩ := List.head?_eq_some_iff.mp hslash
      rfl
    · have hclose' : ¬(c = '*' ∧ (body ++ tail).head? = some '/') := by
        cases body with
        | nil => exact fun h => hhead h.2
        | cons d body => exact hclose
      rw [List.cons_append, blockCommentLength?_cons hclose, blockCommentLength?_cons hclose', ih]

/-- How a text is read that is one expression between parentheses. -/
structure Held (hole : List Char) (root : Node) (lead : List Node) (c : Cursor)
    (items : List (Option Node)) (c' : Cursor) (children : List Node) : Prop where
  trivia : Parser.trivia ⟨hole ++ ['\n', ')'], 1⟩ = some (lead, c)
  row : Row (parsers (2 * hole.length + 14)) c items c'
  close : c'.rest = [')']
  grouped : Grouped (lead.map some ++ items) children
  root : root = sole { kind := .parenthesizedExpression, start := 0
                       stop := byteLength (enclose hole), children } (byteLength (enclose hole))

section
variable {hole : List Char} {root : Node}

/-- The text between the parentheses, from the first of them on. -/
theorem inside_hole (hole tail : List Char) :
    Suffix.Inside ⟨'(' :: (hole ++ tail), 0⟩ ((hole ++ tail).length + 1) ⟨hole ++ tail, 1⟩ :=
  ⟨⟨['('], rfl, rfl⟩, Nat.lt_succ_self _⟩

theorem eq_nil_of_byteLength {text : List Char} (h : byteLength text = 0) : text = [] := by
  cases text with
  | nil => rfl
  | cons c text =>
    have hpos := c.utf8Size_pos
    rw [byteLength] at h
    omega

/-- Where a row of a text ends. -/
theorem Row.inside {text : List Char} {n depth : Nat} {c c' : Cursor} {items : List (Option Node)}
    (h : Row (parsers depth) c items c') (hc : Suffix.Inside ⟨text, 0⟩ n c) :
    ∃ before, text = before ++ c'.rest ∧ byteLength before = c'.pos :=
  (h.moved (Ending.suffixSubs_self _ depth le_rfl (Nat.le_succ n)) hc).2.mark

theorem exists_held_of_group {node : Node} {c : Cursor} (hclean : '\x00' ∉ hole)
    (hparse : parse? ('(' :: (hole ++ ['\n', ')'])) = some root)
    (hgroup : group (parsers (2 * (hole ++ ['\n', ')']).length + 10)) true
      ⟨'(' :: (hole ++ ['\n', ')']), 0⟩ = some (node, c))
    (hkind : node.kind = .parenthesizedExpression)
    (hstop : node.stop = byteLength ('(' :: (hole ++ ['\n', ')'])))
    (hsettled : hasStrayDefault node = false) :
    ∃ lead c items c' children, Held hole root lead c items c' children := by
  obtain ⟨c₁, lead, c₂, items, c₃, hopening, hlead, hrow, hclose, hspan, hgrouped⟩ :=
    exists_row_of_group hgroup hkind
  cases hopening
  obtain ⟨_, -, -, hc₂⟩ := Suffix.reads_trivia.eq_some (inside_hole hole ['\n', ')']) hlead
  obtain ⟨hstarts, rfl⟩ := Ending.rest_of_literal hclose
  obtain ⟨rest, hrest⟩ := Ending.rest_of_startsWith rfl hstarts
  obtain ⟨before, htext, hbefore⟩ := hrow.inside hc₂
  obtain ⟨rest', stop⟩ := c₃
  obtain rfl : rest' = ')' :: rest := hrest
  have hend : node.stop = stop + 1 := congrArg Node.stop hspan
  -- the parenthesis ends where the text does
  obtain rfl : rest = [] := by
    have hlength := congrArg byteLength htext
    rw [byteLength_append, hbefore, ← hstop, hend] at hlength
    replace hlength : stop + 1 = stop + (1 + byteLength rest) := hlength
    exact eq_nil_of_byteLength (by omega)
  have hroot : root = sole node (byteLength ('(' :: (hole ++ ['\n', ')']))) := by
    refine Option.some.inj (hparse.symm.trans (parse?_of_group ?_ ?_ hsettled))
    · simpa using hclean
    · rw [← hstop, hend]
      exact hgroup
  have hdepth : 2 * (hole ++ ['\n', ')']).length + 10 = 2 * hole.length + 14 := by
    rw [List.length_append]
    rfl
  rw [hdepth] at hrow
  refine ⟨lead, c₂, items, ⟨[')'], stop⟩, node.children, hlead, hrow, rfl, hgrouped, ?_⟩
  rw [hroot]
  refine congrArg (sole · _) (hspan.trans ?_)
  rw [Node.mk.injEq]
  exact ⟨rfl, rfl, hend.symm.trans hstop, rfl, rfl, rfl, rfl⟩

/-- A text that is accepted as an expression is held between the parentheses. -/
theorem exists_held {parsed : ParsedExpression} (h : parseExpression hole = .ok parsed) :
    parsed.offsets = .ofSource hole 1 ∧ parsed.root.Sound (enclose hole) ∧
      hasStrayDefault parsed.root = false ∧ '\x00' ∉ hole ∧
      enclosedExpression? (byteLength (enclose hole)) parsed.root = some parsed.expression ∧
      ∃ lead c items c' children, Held hole parsed.root lead c items c' children := by
  have hclean := clean_of_parseExpression h
  rw [parseExpression] at h
  split at h
  · cases h
  next root hparse =>
  split at h
  · next expression henclosed =>
    cases h
    have hsettled := settled_of_parse? hparse
    obtain ⟨node, c, hgroup, hkind, hstop, -, statement, hstatement, hnode⟩ :=
      exists_group_of_enclosedExpression? hparse henclosed
    have hnodeSettled : hasStrayDefault node = false :=
      hasStrayDefault_of_mem (hasStrayDefault_of_mem hsettled (List.mem_filter.mp hstatement).1)
        (List.mem_filter.mp hnode).1
    exact ⟨rfl, sound_of_parse? hparse, hsettled, hclean, henclosed,
      exists_held_of_group hclean hparse hgroup hkind hstop hnodeSettled⟩
  · cases h

/-! ### Contents as nodes -/

variable {lead children : List Node} {c c' : Cursor} {items : List (Option Node)} {node : Node}

theorem filterMap_lead (lead : List Node) (items : List (Option Node)) :
    (lead.map some ++ items).filterMap id = lead ++ items.filterMap id := by
  simp

/-- The contents of a held text are sound. -/
theorem Held.sound (h : Held hole root lead c items c' children) (hsound : root.Sound (enclose hole)) :
    ∀ node ∈ lead ++ items.filterMap id, node.Sound (enclose hole) := by
  obtain ⟨front, inner, value, back, hchildren, hitems, hvalue, -⟩ := h.grouped.parts
  obtain rfl := h.root
  have hgroup := (hsound.children _ List.mem_cons_self).children _ List.mem_cons_self
  have hchild : ∀ node ∈ front ++ [value] ++ back, node.Sound (enclose hole) := hchildren ▸ hgroup.children
  have hin := hchild value (by simp)
  rw [← filterMap_lead, hitems]
  intro node hnode
  rcases List.mem_append.mp hnode with hnode | hback
  · rcases List.mem_append.mp hnode with hfront | hinner
    · exact hchild node (List.mem_append_left _ (List.mem_append_left _ hfront))
    · rcases hvalue with rfl | ⟨-, -, -, rfl⟩
      · obtain rfl := List.mem_singleton.mp hinner
        exact hin
      · exact hin.children node hinner
  · exact hchild node (List.mem_append_right _ hback)

/-- The constructs of a held text are nodes of its tree. -/
theorem Held.mem_walkAll (h : Held hole root lead c items c' children)
    (hnode : node ∈ lead ++ items.filterMap id) (hnamed : node.named = true) : node ∈ root.walkAll := by
  have hstep {parent child : Node} (hparent : parent ∈ root.walkAll) (hchild : child ∈ parent.children)
      (hnamed : child.named = true) : child ∈ root.walkAll :=
    mem_walkAll_of_mem_namedChildren hparent (List.mem_filter.mpr ⟨hchild, hnamed⟩)
  have hgroup : { kind := .parenthesizedExpression, start := 0
                  stop := byteLength (enclose hole), children } ∈ root.walkAll := by
    obtain rfl := h.root
    exact hstep (hstep (mem_walkAll_self _) List.mem_cons_self rfl) List.mem_cons_self rfl
  obtain ⟨front, inner, value, back, hchildren, hitems, hvalue, -⟩ := h.grouped.parts
  rw [← filterMap_lead, hitems, List.mem_append, List.mem_append] at hnode
  have hmem {child : Node} (hchild : child ∈ front ++ [value] ++ back) (hnamed : child.named = true) :
      child ∈ root.walkAll :=
    hstep hgroup (hchildren ▸ hchild) hnamed
  rcases hnode with (hfront | hinner) | hback
  · exact hmem (List.mem_append_left _ (List.mem_append_left _ hfront)) hnamed
  · have hin : value ∈ front ++ [value] ++ back := by simp
    rcases hvalue with rfl | ⟨-, -, hvalue, rfl⟩
    · obtain rfl := List.mem_singleton.mp hinner
      exact hmem hin hnamed
    · exact hstep (hmem hin hvalue) hinner hnamed
  · exact hmem (List.mem_append_right _ hback) hnamed

theorem Held.not_lastLine (h : Held hole root lead c items c' children)
    (hline : Template.endsInLineComment root (.ofSource hole 1) = false) (hnode : some node ∈ items) :
    ¬LastLine c node := by
  intro hlast
  have honward : Onward ⟨hole ++ ['\n', ')'], 1⟩ c :=
    Ending.onward_of_reads (fun _ _ => Suffix.reads_trivia) h.trivia
  have hmem : node ∈ lead ++ items.filterMap id :=
    List.mem_append_right _ (List.mem_filterMap.mpr ⟨some node, hnode, rfl⟩)
  have hnamed : node.named = true := by
    obtain ⟨_, _, -, rfl⟩ := hlast
    rfl
  have hend := endsInLineComment_of_lastLine (h.mem_walkAll hmem hnamed) (honward.lastLine hlast)
  exact Bool.false_ne_true (hline.symm.trans hend)

/-- What is held between the parentheses is read up to another end. -/
theorem Held.follows (h : Held hole root lead c items c' children)
    (hline : Template.endsInLineComment root (.ofSource hole 1) = false) {e : Ending}
    (he : e.text = hole) {depth : Nat} (hdepth : 2 * hole.length + 6 ≤ depth) :
    ∃ d d', Parser.trivia ⟨hole ++ e.close :: e.after, 1⟩ = some (lead, d) ∧
      Row (parsers depth) d items d' ∧ d'.rest = e.close :: e.after := by
  have hsame : e.Same ((hole ++ ['\n', ')']).length + 1) ⟨hole ++ ['\n', ')'], 1⟩
      ⟨hole ++ e.close :: e.after, 1⟩ :=
    ⟨⟨hole, he ▸ List.suffix_rfl, rfl, rfl⟩, rfl, Nat.lt_succ_self _⟩
  have hlength : (hole ++ ['\n', ')']).length = hole.length + 2 := List.length_append
  obtain ⟨_, -, -, hc⟩ := Suffix.reads_trivia.eq_some (inside_hole hole ['\n', ')']) h.trivia
  have hrow := h.row.deep hc (by omega) (by omega : _ ≤ depth)
  have hsub := e.subs_parsers depth
  have hpassed := hsame.trivia
  rw [h.trivia] at hpassed
  generalize hfound : Parser.trivia ⟨hole ++ e.close :: e.after, 1⟩ = found at hpassed ⊢
  cases hpassed with
  | @token _ _ d htoken =>
    obtain ⟨d', hd', hrest⟩ :=
      hrow.follows hsub h.close (fun node hnode => h.not_lastLine hline hnode) htoken
    exact ⟨d, d', rfl, hd', hrest⟩
  | finish hlost => exact absurd h.close (hrow.not_lost hsub (.inr hlost))
  | runs hlost => exact absurd h.close (hrow.not_lost hsub (.inr hlost))

/-- The names of a held text are those of its contents. -/
theorem Held.identifiersIn_eq (h : Held hole root lead c items c' children) (text : List Char)
    (stop : Nat) :
    identifiersIn text (sole { kind := .parenthesizedExpression, start := 0, stop, children } stop) =
      identifiersOf text (lead ++ items.filterMap id) := by
  obtain ⟨front, inner, value, back, hchildren, hitems, hvalue, -⟩ := h.grouped.parts
  rw [← filterMap_lead, ← identifiersOf_contents hchildren hitems hvalue]
  rw [Script.identifiersIn_eq rfl]
  refine (identifiersOf_singleton rfl).trans ((Script.identifiersIn_eq rfl).trans ?_)
  exact (identifiersOf_singleton rfl).trans (Script.identifiersIn_eq rfl)

theorem identifiersOf_moved {nodes : List Node}
    (h : ∀ node ∈ nodes, node.Sound (enclose hole)) (before after : List Char) {offset : Nat}
    (hoffset : offset + 1 = byteLength before) :
    identifiersOf (before ++ (hole ++ after)) (nodes.map (Node.moved offset)) =
      identifiersOf (enclose hole) nodes := by
  have hnamed : (fun node : Node => node.named) ∘ Node.moved offset = fun node => node.named :=
    funext fun node => node.named_moved offset
  rw [identifiersOf, identifiersOf, List.filter_map, hnamed, List.flatMap_map]
  refine List.flatMap_congr fun node hnode => ?_
  exact identifiersIn_moved (h node (List.mem_filter.mp hnode).1) before after hoffset

/-- A held text has the same names whatever is behind it. -/
theorem Held.identifiersIn_before (h : Held hole root lead c items c' children)
    (hsound : root.Sound (enclose hole)) (tail : List Char) (stop : Nat) :
    identifiersIn ('(' :: (hole ++ tail))
        (sole { kind := .parenthesizedExpression, start := 0, stop, children } stop) =
      identifiersIn (enclose hole) root := by
  have hnodes := @identifiersOf_moved hole (lead ++ items.filterMap id) (h.sound hsound) ['('] tail 0 rfl
  have hzero : Node.moved 0 = id := funext moved_zero
  rw [hzero, List.map_id] at hnodes
  rw [h.root]
  exact ((h.identifiersIn_eq _ _).trans hnodes).trans (h.identifiersIn_eq _ _).symm

/-- The contents of a text without a last line comment, with the parenthesis right behind it. -/
theorem Held.direct (h : Held hole root lead c items c' children)
    (hline : Template.endsInLineComment root (.ofSource hole 1) = false)
    (hstraight : isStraight (hole ++ ['\n', ')']) = true) (hclean : '\x00' ∉ hole)
    (hsettled : hasStrayDefault root = false) :
    parse? ('(' :: (hole ++ [')'])) = some (sole { kind := .parenthesizedExpression, start := 0
                                                   stop := byteLength ('(' :: (hole ++ [')']))
                                                   children } (byteLength ('(' :: (hole ++ [')'])))) := by
  let e : Ending := ⟨hole, ')', [], .inl rfl, hstraight, fun body _ =>
    (blockCommentLength?_of_notMem (by decide) body).trans
      (blockCommentLength?_of_notMem (by decide) body).symm⟩
  have hlength : (hole ++ [')']).length = hole.length + 1 := List.length_append
  obtain ⟨d, d', hlead, hrow, hrest⟩ := h.follows hline (e := e) rfl
    (by omega : _ ≤ 2 * (hole ++ [')']).length + 10)
  replace hlead : Parser.trivia ⟨hole ++ [')'], 1⟩ = some (lead, d) := hlead
  obtain ⟨_, -, -, hd⟩ := Suffix.reads_trivia.eq_some (inside_hole hole [')']) hlead
  obtain ⟨before, htext, hbefore⟩ := hrow.inside hd
  have hstop : d'.pos + 1 = byteLength ('(' :: (hole ++ [')'])) := by
    rw [htext, hrest, byteLength_append, hbefore]
    rfl
  have hgroup := @group_of_row _ _ _ _ true _ _ _ _ hlead hrow hrest h.grouped
  rw [hstop] at hgroup
  refine parse?_of_group (by simpa using hclean) hgroup ?_
  rw [h.root, hasStrayDefault_sole] at hsettled
  rwa [hasStrayDefault_of_kind rfl rfl] at hsettled ⊢

/-- A held text has one construct more than it has commas. -/
theorem Held.le (h : Held hole root lead c items c' children) :
    commas items + 1 ≤ constructs items := by
  have hle := h.grouped.le
  rwa [commas_append, commas_gap, constructs_append,
    constructs_gap (Ending.isGap_of_trivia h.trivia), Nat.zero_add, Nat.zero_add] at hle

/-- The contents of a text without a last line comment, as a hole of a template: the same constructs
with the same comments around them, further on in the text. -/
theorem Held.place (h : Held hole root lead c items c' children)
    (hline : Template.endsInLineComment root (.ofSource hole 1) = false) {e : Ending}
    (he : e.text = hole) (hclose : e.close = '\x7d') (pos : Nat) {depth : Nat}
    (hdepth : 2 * hole.length + 6 ≤ depth) :
    ∃ inner value trail c₁ c₂, Surrounded (items.filterMap id) [] inner trail ∧ Makes inner value ∧
      plainTrivia c₁ = some (trail, c₂) ∧
      Parser.substitution (parsers depth) ⟨'$' :: '\x7b' :: (hole ++ '\x7d' :: e.after), pos⟩ =
        some ({ kind := .templateSubstitution, start := pos, stop := pos + (byteLength hole + 3)
                children := (lead ++ [value] ++ trail).map (Node.moved (pos + 1)) },
          ⟨e.after, pos + (byteLength hole + 3)⟩) := by
  obtain ⟨d, d', hlead, hrow, hrest⟩ := h.follows hline he hdepth
  rw [hclose] at hlead hrest
  obtain ⟨value, c₁, inner, trail, hvalue, htrail, hnodes, hmakes⟩ := hrow.expressions
    (by rw [Cursor.startsWith, hrest]; rfl) h.le
  refine ⟨inner, value, trail, c₁, d', hnodes, hmakes, htrail, ?_⟩
  -- the contents, further on in the text
  let t : Suffix := ⟨'(' :: (hole ++ '\x7d' :: e.after), pos + 1⟩
  have hinside : t.Inside ((hole ++ '\x7d' :: e.after).length + 1) ⟨hole ++ '\x7d' :: e.after, 1⟩ :=
    ⟨⟨['('], rfl, rfl⟩, Nat.lt_succ_self _⟩
  have hsubs := Ending.suffixSubs_self t depth (le_refl ((hole ++ '\x7d' :: e.after).length + 1))
    (Nat.le_succ _)
  obtain ⟨_, hlead', ⟨-, rfl⟩, hd⟩ := Suffix.reads_trivia.eq_some hinside hlead
  obtain ⟨_, hvalue', ⟨-, -, rfl⟩, hc₁⟩ := (Suffix.reads_expressions hsubs false).eq_some hd hvalue
  obtain ⟨_, htrail', ⟨-, rfl⟩, hd'⟩ := Suffix.reads_plainTrivia.eq_some hc₁ htrail
  obtain ⟨front, htext, hfront⟩ := hd'.mark
  have hstop : d'.moved t.offset = ⟨'\x7d' :: e.after, pos + (byteLength hole + 2)⟩ := by
    have hlength := congrArg byteLength htext
    rw [hrest, byteLength_append, hfront] at hlength
    replace hlength : 1 + byteLength (hole ++ '\x7d' :: e.after) =
      d'.pos + byteLength ('\x7d' :: e.after) := hlength
    rw [byteLength_append] at hlength
    rw [Cursor.moved, hrest, Cursor.mk.injEq]
    exact ⟨rfl, by show pos + 1 + d'.pos = _; omega⟩
  have hopening : literal "$\x7b" ⟨'$' :: '\x7b' :: (hole ++ '\x7d' :: e.after), pos⟩ =
      some ((), Cursor.moved t.offset ⟨hole ++ '\x7d' :: e.after, 1⟩) := rfl
  have hclosing : literal "\x7d" (d'.moved t.offset) =
      some ((), ⟨e.after, pos + (byteLength hole + 3)⟩) := by
    rw [hstop]
    rfl
  rw [Parser.substitution, position_bind, bind_of_eq hopening, bind_of_eq hlead', bind_of_eq hvalue',
    bind_of_eq htrail', bind_of_eq hclosing, List.map_append, List.map_append]
  rfl

theorem append_opening (before text : List Char) :
    before ++ ('$' :: '\x7b' :: text) = (before ++ ['$', '\x7b']) ++ text :=
  (List.append_assoc before ['$', '\x7b'] text).symm

theorem byteLength_opening (before : List Char) :
    byteLength before + 1 + 1 = byteLength (before ++ ['$', '\x7b']) :=
  (byteLength_append before ['$', '\x7b']).symm

/-- A held text has the same names as a hole of a template. -/
theorem Held.substitution (h : Held hole root lead c items c' children)
    (hline : Template.endsInLineComment root (.ofSource hole 1) = false)
    (hsound : root.Sound (enclose hole)) {e : Ending} (he : e.text = hole) (hclose : e.close = '\x7d')
    (before : List Char) {depth : Nat} (hdepth : 2 * hole.length + 6 ≤ depth) :
    ∃ node, Parser.substitution (parsers depth)
        ⟨'$' :: '\x7b' :: (hole ++ '\x7d' :: e.after), byteLength before⟩ =
          some (node, ⟨e.after, byteLength before + (byteLength hole + 3)⟩) ∧
      identifiersIn (before ++ ('$' :: '\x7b' :: (hole ++ '\x7d' :: e.after))) node =
        identifiersIn (enclose hole) root := by
  obtain ⟨inner, value, trail, _, _, hnodes, hmakes, -, hplace⟩ :=
    h.place hline he hclose (byteLength before) hdepth
  refine ⟨_, hplace, ?_⟩
  let moved := Node.moved (byteLength before + 1)
  have hchildren : (lead ++ [value] ++ trail).map moved =
      lead.map moved ++ [moved value] ++ trail.map moved := by
    rw [List.map_append, List.map_append, List.map_singleton]
  have hcontents : (lead ++ items.filterMap id).map moved =
      lead.map moved ++ inner.map moved ++ trail.map moved := by
    rw [hnodes.nodes_eq, List.nil_append, ← List.append_assoc, List.map_append, List.map_append]
  rw [Script.identifiersIn_eq rfl, identifiersOf_contents hchildren hcontents (hmakes.moved _),
    append_opening, identifiersOf_moved (h.sound hsound) _ _ (byteLength_opening before), h.root]
  exact (h.identifiersIn_eq _ _).symm

/-- A tree with the contents of a held text has them with the same comments around them. -/
theorem Held.parts (h : Held hole root lead c items c' children) {inner trail : List Node}
    (hnodes : Surrounded (items.filterMap id) [] inner trail) :
    ∃ value, children = lead ++ [value] ++ trail ∧ Makes inner value := by
  obtain ⟨front, inner', value, back, hchildren, hitems, hmakes, hfront, hback⟩ := h.grouped.parts
  have hwhole : Surrounded ((lead.map some ++ items).filterMap id) lead inner trail := by
    refine ⟨?_, ?_, hnodes.trail, hnodes.first, hnodes.last⟩
    · rw [filterMap_lead, hnodes.nodes_eq, List.nil_append, List.append_assoc]
    · exact fun node hnode => (Ending.isGap_of_trivia h.trivia node hnode).1
  rw [← hwhole.lead_eq] at hfront
  rw [← hwhole.reverse.lead_eq, List.reverse_reverse] at hback
  subst hfront hback
  have hinner : inner' = inner :=
    List.append_cancel_left (List.append_cancel_right (hitems.symm.trans hwhole.nodes_eq))
  exact ⟨value, hchildren, hinner ▸ hmakes⟩

/-- The expression of a held text is the one child that is no comment, unless a comment is taken for
it. -/
theorem Held.eq_value (h : Held hole root lead c items c' children) {value expression : Node}
    {trail : List Node} (hchildren : children = lead ++ [value] ++ trail)
    (htrail : ∀ node ∈ trail, node.isRemark = true)
    (hfirst : enclosedExpression? (byteLength (enclose hole)) root = some expression)
    (hremark : expression.isRemark = false) : expression = value := by
  rw [h.root] at hfirst
  have hfound := (enclosedExpression?_of_group rfl rfl rfl rfl).symm.trans hfirst
  have hmem : expression ∈ children := (List.mem_filter.mp (List.mem_of_find?_eq_some hfound)).1
  rw [hchildren, List.mem_append, List.mem_append, List.mem_singleton] at hmem
  rcases hmem with (hmem | rfl) | hmem
  · rw [(Ending.isGap_of_trivia h.trivia _ hmem).1] at hremark
    cases hremark
  · rfl
  · rw [htrail _ hmem] at hremark
    cases hremark

/-- A held text reads as a hole of a template as it reads on its own, unless a comment is taken for its
expression. -/
theorem Held.isReading (h : Held hole root lead c items c' children)
    (hline : Template.endsInLineComment root (.ofSource hole 1) = false)
    (hsound : root.Sound (enclose hole)) {parsed : ParsedExpression}
    (hparsed : parseExpression hole = .ok parsed)
    (hfirst : enclosedExpression? (byteLength (enclose hole)) root = some parsed.expression)
    (hremark : parsed.expression.isRemark = false) {e : Ending} (he : e.text = hole)
    (hclose : e.close = '\x7d') (before : List Char) {depth : Nat}
    (hdepth : 2 * hole.length + 6 ≤ depth) :
    ∃ node, Parser.substitution (parsers depth)
        ⟨'$' :: '\x7b' :: (hole ++ '\x7d' :: e.after), byteLength before⟩ =
          some (node, ⟨e.after, byteLength before + (byteLength hole + 3)⟩) ∧
      IsReading (before ++ ('$' :: '\x7b' :: (hole ++ '\x7d' :: e.after))) hole node := by
  obtain ⟨inner, value, trail, _, _, hnodes, hmakes, htrail, hplace⟩ :=
    h.place hline he hclose (byteLength before) hdepth
  -- both trees have the same comments around their constructs, so both make the same of them
  obtain ⟨value', hchildren, hmakes'⟩ := h.parts hnodes
  have hexpression := h.eq_value hchildren hnodes.trail hfirst hremark
  let moved := Node.moved (byteLength before + 1)
  refine ⟨_, hplace, rfl, rfl, parsed, lead.map moved, moved value, trail.map moved, hparsed, ?_, ?_, ?_⟩
  · rw [List.map_append, List.map_append, List.map_singleton, List.append_assoc]
    rfl
  · rw [← List.map_append]
    intro remark hmem
    obtain ⟨node, hnode, rfl⟩ := List.mem_map.mp hmem
    have hnode' : node.isRemark = true ∧ node.children = [] := by
      rcases List.mem_append.mp hnode with hnode | hnode
      · exact ⟨(Ending.isGap_of_trivia h.trivia node hnode).1,
          forall_mem_of_many (fun _ _ _ => children_of_comment) h.trivia node hnode⟩
      · exact ⟨hnodes.trail node hnode,
          forall_mem_of_many (fun _ _ _ => children_of_comment) htrail node hnode⟩
    rw [Node.isRemark_moved, Node.children_moved, hnode'.2]
    exact ⟨hnode'.1, rfl⟩
  · rw [hexpression, append_opening]
    refine alike_moved_of_makes hmakes hmakes' (fun node hnode => ?_) _ _ (byteLength_opening before)
    refine h.sound hsound node (List.mem_append_right _ ?_)
    rw [hnodes.nodes_eq, List.nil_append]
    exact List.mem_append_left _ hnode

end

end NotebookCell.Script

namespace NotebookCell.Template

open NotebookCell.Tree NotebookCell.Text NotebookCell.Script

/-- What follows the brace ends no comment for which the hole has the opening mark. The expression
`/*x/` is not sealed in front of a brace and `*/`. -/
def Sealed (hole after : List Char) : Prop :=
  ∀ body, '/' :: '*' :: body <:+ hole →
    blockCommentLength? (body ++ '\x7d' :: after) = blockCommentLength? (body ++ ['\n', ')'])

/-- What a text has ended is ended whatever follows. -/
theorem blockCommentLength?_append {body : List Char} (h : blockCommentLength? body ≠ none)
    (after : List Char) : blockCommentLength? (body ++ after) = blockCommentLength? body := by
  induction body with
  | nil => exact absurd rfl h
  | cons c body ih =>
    by_cases hclose : c = '*' ∧ body.head? = some '/'
    · obtain ⟨rfl, hslash⟩ := hclose
      obtain ⟨rest, rfl⟩ := List.head?_eq_some_iff.mp hslash
      rfl
    · have hbody : blockCommentLength? body ≠ none := by
        intro hnone
        rw [blockCommentLength?_cons hclose, hnone] at h
        exact h rfl
      have hclose' : ¬(c = '*' ∧ (body ++ after).head? = some '/') := by
        cases body with
        | nil => exact absurd rfl hbody
        | cons d body => exact hclose
      rw [List.cons_append, blockCommentLength?_cons hclose, blockCommentLength?_cons hclose', ih hbody]

/-- Whether a text that starts with the opening mark of a comment has the closing mark as well. -/
def closesComment : List Char → Bool
  | '/' :: '*' :: body => (blockCommentLength? body).isSome
  | _ => true

theorem sealed_of_closesComment {hole : List Char} (h : hole.tails.all closesComment = true)
    (after : List Char) : Sealed hole after := by
  intro body hbody
  have hclosed := List.all_eq_true.mp h _ ((List.mem_tails _ _).mpr hbody)
  have hsome : blockCommentLength? body ≠ none := Option.isSome_iff_ne_none.mp hclosed
  rw [blockCommentLength?_append hsome, blockCommentLength?_append hsome]

theorem sealed_of_notMem {after : List Char} (h : '/' ∉ after) (hole : List Char) : Sealed hole after := by
  intro body _
  rw [blockCommentLength?_of_notMem (by simpa using h) body, blockCommentLength?_of_notMem (by decide) body]

/-- A hole is complete if its text is an expression that ends with no line comment. -/
theorem exists_of_judge {text : List Char} (h : judge text = .complete) :
    ∃ parsed, parseExpression text = .ok parsed ∧
      endsInLineComment parsed.root parsed.offsets = false := by
  rw [judge] at h
  split at h
  · cases h
  next parsed hparsed =>
  refine ⟨parsed, hparsed, ?_⟩
  cases hline : endsInLineComment parsed.root parsed.offsets with
  | false => rfl
  | true =>
    rw [hline] at h
    cases h

/-- Whether the text of a hole shows that nothing around the hole changes how it reads: readings part
nowhere in it, each comment mark of it has its end, and no markup comment is taken for its
expression. -/
def isSelfContained (hole : List Char) : Bool :=
  isStraight (hole ++ ['\n', ')']) && hole.tails.all closesComment &&
    (parseExpression hole).toOption.all (!·.expression.isRemark)

/-- A complete hole that is self-contained reads in a template as it reads on its own. -/
theorem readsAlike_of_isSelfContained {hole : List Char} (h : judge hole = .complete)
    (hself : isSelfContained hole = true) : ReadsAlike hole := by
  obtain ⟨parsed, hparsed, hline⟩ := exists_of_judge h
  obtain ⟨hoffsets, hsound, -, -, henclosed, lead, c, items, c', children, hheld⟩ := exists_held hparsed
  rw [hoffsets] at hline
  rw [isSelfContained, hparsed, Bool.and_eq_true, Bool.and_eq_true] at hself
  obtain ⟨⟨hstraight, hcomments⟩, hremark⟩ := hself
  replace hremark : (!parsed.expression.isRemark) = true := hremark
  rw [Bool.not_eq_true'] at hremark
  intro depth before after hdepth
  exact hheld.isReading hline hsound hparsed henclosed hremark
    (e := ⟨hole, '\x7d', after, .inr rfl, hstraight, sealed_of_closesComment hcomments after⟩) rfl rfl
    before hdepth

-- The comment of the first text is closed in it. The second one is a regular expression, with the mark
-- of a comment that could go on behind the hole.
example : isSelfContained "plot(x, /* all */ d.sum)".toList = true ∧
    isSelfContained "/*x/".toList = false := by
  decide +kernel

/-- A hole does not depend on the line break in front of the parenthesis: its text in parentheses is
one expression also without it, the same one, with the same names. As a hole of a template literal the
text is read up to its end as well, whatever follows the brace, unless it ends a comment of the text. -/
theorem hole_without_break {source : List Char} {start : Nat} {hole : Hole}
    (h : readHole judge source start = .ok hole)
    (hstraight : isStraight (hole.text source ++ ['\n', ')']) = true) :
    ∃ parsed root, parseExpression (hole.text source) = .ok parsed ∧
      parse? ('(' :: (hole.text source ++ [')'])) = some root ∧
      enclosedExpression? (byteLength ('(' :: (hole.text source ++ [')']))) root =
        some parsed.expression ∧
      identifiersIn ('(' :: (hole.text source ++ [')'])) root =
        identifiersIn (enclose (hole.text source)) parsed.root ∧
      ∀ before after depth, Sealed (hole.text source) after →
        2 * (hole.text source).length + 6 ≤ depth →
        ∃ node, Parser.substitution (parsers depth)
            ⟨'$' :: '\x7b' :: (hole.text source ++ '\x7d' :: after), byteLength before⟩ =
              some (node, ⟨after, byteLength before + (byteLength (hole.text source) + 3)⟩) ∧
          identifiersIn (before ++ ('$' :: '\x7b' :: (hole.text source ++ '\x7d' :: after))) node =
            identifiersIn (enclose (hole.text source)) parsed.root := by
  obtain ⟨rfl, -, -, hverdict⟩ := readHole_eq_ok h
  obtain ⟨parsed, hparsed, hline⟩ := exists_of_judge hverdict
  replace hparsed : parseExpression (hole.text source) = .ok parsed := hparsed
  generalize hole.text source = text at hstraight hparsed ⊢
  obtain ⟨hoffsets, hsound, hsettled, hclean, henclosed, lead, c, items, c', children, hheld⟩ :=
    exists_held hparsed
  rw [hoffsets] at hline
  refine ⟨parsed, _, hparsed, hheld.direct hline hstraight hclean hsettled, ?_, ?_, ?_⟩
  · rw [hheld.root] at henclosed
    have hfirst := (enclosedExpression?_of_group rfl rfl rfl rfl).symm.trans henclosed
    exact (enclosedExpression?_of_group rfl rfl rfl rfl).trans hfirst
  · exact hheld.identifiersIn_before hsound [')'] _
  · intro before after depth hsealed hdepth
    exact hheld.substitution hline hsound (e := ⟨text, '\x7d', after, .inr rfl, hstraight, hsealed⟩)
      rfl rfl before hdepth

/-- A hole with a brace in a comment, and with the marks of a line comment in a string. -/
theorem hole_without_break_marks :
    let source := "$\x7b/*\x7d*/x+\"//\"\x7d*y".toList
    readHole judge source 2 = .ok ⟨2, 13⟩ ∧
      (∃ root, parse? "(/*\x7d*/x+\"//\")".toList = some root ∧
        identifiersIn "(/*\x7d*/x+\"//\")".toList root = ["x"]) ∧
      ∃ node, Parser.substitution (parsers 40) ⟨source, 0⟩ = some (node, ⟨['*', 'y'], 14⟩) ∧
        identifiersIn source node = ["x"] := by
  intro source
  have hhole : (readHole judge source 2).toOption = some ⟨2, 13⟩ := by decide +kernel
  have hread := eq_ok_of_toOption hhole
  have hnames : (parseExpression (Hole.text source ⟨2, 13⟩)).toOption.map (fun parsed =>
      identifiersIn (enclose (Hole.text source ⟨2, 13⟩)) parsed.root) = some ["x"] := by decide +kernel
  obtain ⟨parsed, root, hparsed, hroot, -, hdirect, hplace⟩ := hole_without_break hread (by decide +kernel)
  rw [hparsed] at hnames
  have hidentifiers := Option.some.inj hnames
  obtain ⟨node, hnode, hinside⟩ :=
    hplace [] ['*', 'y'] 40 (sealed_of_notMem (by decide) _) (by decide)
  exact ⟨hread, ⟨root, hroot, hdirect.trans hidentifiers⟩, node, hnode, hinside.trans hidentifiers⟩

-- On its own the hole is the regular expression `/*x/`, but here its comment goes on up to `*/`.
example : (readHole judge "$\x7b/*x/\x7d */ y\x7d".toList 2).toOption = some ⟨2, 6⟩ ∧
    (Parser.substitution (parsers 40) ⟨"$\x7b/*x/\x7d */ y\x7d".toList, 0⟩).map (·.2.pos) = some 13 := by
  decide +kernel

-- A hole that is not straight. Where a line break ends the comment, `await` has a call as operand, the
-- brace opens no object, and `k` is a label; where the parenthesis is in the comment, `k` is a name.
example :
    let hole := "x => \x7bk: \x7b\x7d / await /+\"/.f( //c \"\x7d".toList
    (parse? (enclose hole)).map (identifiersIn (enclose hole)) = some ["x"] ∧
      (parse? ('(' :: (hole ++ [')']))).map (identifiersIn ('(' :: (hole ++ [')']))) =
        some ["x", "k", "await"] := by
  decide +kernel

end NotebookCell.Template
