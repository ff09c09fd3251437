import NotebookCell.Proofs.Reading.Member
import NotebookCell.Script.Grammar.Expression

/-!
# Expressions at two places

Markup elements, operands, accesses and operators. An expression begins with a character of its own,
so the entry points it uses may be one character further on.
-/

namespace NotebookCell.Script.Suffix

open NotebookCell.Tree NotebookCell.Script.Parser

variable {t : Suffix} {m n s : Nat} {sub sub' : Parsers}

/-! ## Markup elements -/

/-- A hyphenated name has neither blanks nor parentheses in it. -/
theorem isNameText_of_mem_hyphenated {text : List Char} :
    ∀ c ∈ text.take (hyphenatedLength text), isNameText c = true := by
  rw [hyphenatedLength]
  split
  · intro c hc
    rw [← List.prefix_iff_eq_take.mp (List.takeWhile_prefix _)] at hc
    have hpart := List.mem_takeWhile_imp hc
    exact isNameText_of_isTagPart hpart
  · intro c hc
    cases hc

/-- The name of a tag covers its text. Whether it has a hyphen is part of the result. -/
theorem reads_tagName :
    t.Reads m m (fun x y => t.Token .identifier NameAt x.1 y.1 ∧ y.2 = x.2)
      (tagName .identifier) (tagName .identifier) := by
  refine .get fun c hc => ?_
  refine .ite (fun hlonger => ?_) fun _ => ?_
  · refine (reads_set (k := m) ⟨hc.skip _, Cursor.skip_moved _ _ _⟩).seq <| .ret ?_
    have hlength : hyphenatedLength c.rest ≠ 0 := Nat.ne_of_gt (Nat.zero_lt_of_lt hlonger)
    have hname : NameAt t.text
        { kind := .identifier, start := c.pos, stop := (c.skip (hyphenatedLength c.rest)).pos } := by
      refine hc.lexeme ⟨?_, isNameText_of_mem_hyphenated⟩ _
      rw [ne_eq, List.take_eq_nil_iff]
      rintro (hzero | hnil)
      · exact hlength hzero
      · rw [hnil] at hlength
        exact hlength (by decide)
    refine ⟨⟨⟨rfl, rfl, rfl, hname⟩, ?_, ?_⟩, rfl⟩
    · exact Node.sound_iff.mpr ⟨proper_of_isNameKind rfl hc.at.1 (hc.skip _).at.1 (.inl rfl) hname,
        fun _ hmem => (nomatch hmem)⟩
    · rw [Node.moved_eq, Cursor.rest_moved, Cursor.skip_moved]
      rfl
  · refine (Reads.inner fun _ _ => reads_name rfl).bind fun hname => .ret ⟨?_, rfl⟩
    refine ⟨⟨hname.1.1, hname.1.2.1, hname.1.2.2.1, ?_⟩, hname.2⟩
    exact nameAt_of_isNameKind hname.2.1.proper (by rw [hname.1.2.1]; rfl)

theorem reads_tagMember {left left' : Node} (hleft : t.Fresh left left') :
    t.Reads m m (Option.Rel t.Fresh) (tagMember left) (tagMember left') := by
  refine .get fun c hc => ?_
  refine reads_plainTrivia.bind fun hgap => .get fun dot _ => ?_
  refine .ite (fun _ => ?_) fun _ => (reads_set ⟨hc, rfl⟩).seq <| .ret .none
  refine (reads_literal ".").seq <| reads_trivia.bind fun hgap' => ?_
  refine (Reads.inner fun _ _ => reads_name rfl).bind fun hproperty => ?_
  refine (reads_node rfl hleft.at_start
    (((hleft.one.append hgap).append hgap').append hproperty.one)).bind fun hnode => ?_
  exact .ret (.some hnode)

/-- The name of an element or attribute with what may follow its first part. -/
theorem reads_qualifiedName {first first' : Node} (hfirst : t.Token .identifier NameAt first first')
    {single : Kind} (hsingle : isNameKind single = true) :
    t.Reads m m t.Fresh (qualifiedName first single) (qualifiedName first' single) := by
  refine .get fun c hc => ?_
  refine reads_plainTrivia.bind fun hgap => .get fun colon _ => ?_
  refine .ite (fun _ => ?_) fun _ => (reads_set ⟨hc, rfl⟩).seq <| .ret ?_
  · refine (reads_literal ":").seq <| reads_trivia.bind fun hgap' => ?_
    refine reads_tagName.bind ?_
    rintro ⟨second, _⟩ ⟨second', _⟩ ⟨hsecond, -⟩
    exact reads_node rfl hfirst.at_start
      (((hfirst.one.append hgap).append hgap').append hsecond.one)
  · have hname : isNameKind first.kind = true := by rw [hfirst.1.2.1]; rfl
    exact (hfirst.toName hname hsingle).mono fun _ hfield => hfield.trans hfirst.1.1

theorem reads_elementName : t.Reads m m t.Fresh elementName elementName := by
  refine reads_tagName.bind ?_
  rintro ⟨first, hyphenated⟩ ⟨first', _⟩ ⟨hfirst, rfl⟩
  refine .ite (fun _ => reads_qualifiedName hfirst rfl) fun _ => ?_
  refine (reads_iterate (fun _ _ => reads_tagMember) hfirst.fresh).bind @fun path path' hpath => ?_
  rw [hpath.kind_eq]
  exact .ite (fun _ => .ret hpath) fun _ => reads_qualifiedName hfirst rfl

/-- An expression between braces, as an attribute or a child has it. -/
theorem reads_braced (h : t.Subs m s sub sub') : t.Reads m m t.Fresh (braced sub) (braced sub') := by
  refine reads_position.bind fun hstart => (reads_literal _).seq ?_
  refine reads_trivia.bind fun hgap => .get fun c _ => ?_
  dsimp only
  have hone {p q : Parser Node} (hp : t.Reads m m t.Fresh p q) :
      t.Reads m m t.Parts (do return [← p] : Parser (List Node)) (do return [← q]) :=
    hp.bind fun hnode => .ret hnode.one.parts
  refine .branch₃ (fun _ => .ret .nil) (fun _ => hone (reads_spread h))
    (fun _ => hone (reads_expressions h false)) fun hinner => ?_
  refine reads_plainTrivia.bind fun hgap' => (reads_literal _).seq ?_
  exact reads_node rfl hstart ((hgap.append hinner).append hgap')

/-- A quoted attribute ends at the same character at both places. -/
theorem rel_attributeEnd? (quote : Char) (bound : List Char) {c : Cursor} (h : t.Inside m c) :
    Option.Rel (t.Here m) (attributeEnd? quote bound c)
      (attributeEnd? quote bound (c.moved t.offset)) := by
  induction bound generalizing c with
  | nil => exact .none
  | cons d bound ih =>
    rw [attributeEnd?, attributeEnd?, Cursor.rest_moved]
    simp only [Cursor.skip_moved]
    split
    · exact .none
    split
    · exact .some ⟨h.skip 1, rfl⟩
    split
    · split
      · split
        · exact .none
        · exact ih (h.skip _)
      split
      · exact .none
      · exact ih (h.skip 2)
    · exact ih (h.skip 1)

theorem reads_quotedValue : t.Reads m m t.Fresh quotedValue quotedValue := by
  refine .get fun c hc => ?_
  rw [Cursor.rest_moved, Cursor.skip_moved]
  split
  · next quote text _ =>
    refine (reads_require _).seq ?_
    refine (reads_ofOption (rel_attributeEnd? quote text (hc.skip 1))).bind ?_
    rintro after _ ⟨hafter, rfl⟩
    refine (reads_set ⟨hafter, rfl⟩).seq <| .ret ⟨rfl, ?_, ?_⟩
    · exact Node.sound_of_isPlain rfl hc.at.1 hafter.at.1 (.inl rfl) fun _ hmem => (nomatch hmem)
    · rw [Node.moved_eq]
      rfl
  · exact reads_failure

theorem reads_attributeValue (h : t.Subs m s sub sub') :
    t.Reads m m t.Fresh (attributeValue sub) (attributeValue sub') := by
  refine .get fun c _ => ?_
  refine .ite (fun _ => reads_braced h) fun _ => ?_
  exact .ite (fun _ => h.markup m le_rfl) fun _ => reads_quotedValue

theorem reads_tagAttribute (h : t.Subs m s sub sub') :
    t.Reads m m t.Fresh (tagAttribute sub) (tagAttribute sub') := by
  refine reads_tagName.bind ?_
  rintro ⟨first, _⟩ ⟨first', _⟩ ⟨hfirst, -⟩
  refine (reads_qualifiedName hfirst rfl).bind fun hkey => .get fun c hc => ?_
  refine reads_plainTrivia.bind fun hgap => .get fun d _ => ?_
  refine .ite (fun _ => ?_) fun _ => ?_
  · refine (reads_literal "=").seq <| reads_trivia.bind fun hgap' => ?_
    refine (reads_attributeValue h).bind fun hvalue => ?_
    exact reads_node rfl hfirst.at_start (((hkey.one.append hgap).append hgap').append hvalue.one)
  · exact (reads_set ⟨hc, rfl⟩).seq <| reads_node rfl hfirst.at_start hkey.one

/-- The next attribute of a tag, or none where the tag ends. -/
theorem reads_attributeStep (h : t.Subs m s sub sub') :
    t.Reads m m (Option.Rel t.Parts) (attributeStep sub) (attributeStep sub') := by
  have hwith {p q : Parser Node} (hp : t.Reads m m t.Fresh p q) : t.Reads m m (Option.Rel t.Parts)
      (do let value ← p; return some (value :: (← trivia)) : Parser (Option (List Node)))
      (do let value ← q; return some (value :: (← trivia))) :=
    hp.bind fun hvalue => reads_trivia.bind fun hgap => .ret (.some (hvalue.cons hgap))
  refine .get fun c _ => ?_
  refine .ite (fun _ => .ret .none) fun _ => ?_
  exact .ite (fun _ => hwith (reads_braced h)) fun _ => hwith (reads_tagAttribute h)

/-- A child of an element: text, an expression or another element. -/
theorem reads_child (h : t.Subs m s sub sub') :
    t.Reads m m (Option.Rel t.Parts) (child sub) (child sub') := by
  refine .get fun c hc => ?_
  refine .ite (fun _ => ?_) fun _ => ?_
  · refine (reads_set (k := m) ⟨hc.skip _, Cursor.skip_moved _ _ _⟩).seq ?_
    refine (reads_node rfl hc.at (.nil (P := IsGap))).bind fun htext => ?_
    exact .ret (.some htext.one.parts)
  refine reads_trivia.bind @fun gap gap' hgap => .get fun d hd => ?_
  refine .ite (fun _ => .ret ?_) fun _ => .ite (fun _ => ?_) fun _ => .ite (fun _ => ?_) fun _ => ?_
  · rw [hgap.isEmpty_eq]
    split
    · exact .none
    · exact .some hgap.parts
  · exact (h.markup m le_rfl).bind fun hnode => .ret (.some (hgap.append hnode.one))
  · exact (reads_braced h).bind fun hnode => .ret (.some (hgap.append hnode.one))
  · refine (reads_require _).seq ?_
    refine (reads_set (k := m) ⟨hd.skip _, Cursor.skip_moved _ _ _⟩).seq ?_
    refine (reads_node rfl hd.at (.nil (P := IsGap))).bind fun hnode => ?_
    exact .ret (.some (hgap.append hnode.one))

theorem reads_closingTag : t.Reads m m t.Fresh closingTag closingTag := by
  refine reads_position.bind fun hstart => (reads_literal _).seq ?_
  refine reads_trivia.bind fun hgap => .get fun c _ => ?_
  dsimp only
  refine .branch (A := t.Parts) (fun _ => .ret .nil) (fun _ => ?_) fun hnames => ?_
  · refine reads_elementName.bind fun hname => reads_plainTrivia.bind fun hgap' => ?_
    exact .ret ((hname.as .name).cons hgap')
  · exact (reads_literal _).seq <| reads_node rfl hstart (hgap.append hnames)

/-- A markup element takes its opening angle before anything else. -/
theorem reads_markup_lt (h : t.Subs n s sub sub') :
    t.Reads (n + 1) n t.Fresh (markup sub) (markup sub') := by
  refine reads_position.bind fun hstart => (reads_literal_lt (by decide)).seq ?_
  refine reads_trivia.bind fun hgap => .get fun c _ => ?_
  dsimp only
  refine .branch (A := Option.Rel t.Parts) (fun _ => .ret .none) (fun _ => ?_)
    @fun parts parts' hparts => ?_
  · refine reads_elementName.bind fun hname => reads_trivia.bind fun hgap' => ?_
    refine (reads_many (reads_attributeStep h)).bind fun hattributes => .ret (.some ?_)
    exact ((hname.as .name).one.append hgap').append (Copies.flatten hattributes)
  refine .get fun d _ => ?_
  have hopening := hgap.append (getD_of_rel hparts)
  rw [isSome_eq_of_rel hparts]
  refine .ite (fun _ => (reads_literal _).seq <| reads_node rfl hstart hopening) fun _ => ?_
  refine (reads_literal _).seq <| (reads_node rfl hstart hopening).bind fun htag => ?_
  refine (reads_many (reads_child h)).bind fun hchildren => ?_
  refine reads_closingTag.bind fun hclosing => ?_
  exact reads_node rfl hstart ((htag.one.append (Copies.flatten hchildren)).append hclosing.one)

/-! ## Arrow functions -/

/-- How a brace is to be understood depends on the first word behind it and on what follows that. -/
theorem reads_braceReading : t.Reads m m (fun x y => y = x) braceReading braceReading := by
  refine .get fun before hbefore => ?_
  refine (reads_literal _).seq <| reads_trivia.seq <| .get fun c hc => ?_
  refine (reads_set (k := m) ⟨hc.skip _, Cursor.skip_moved _ _ _⟩).seq ?_
  refine (reads_lookahead true).bind @fun next next' hnext => ?_
  refine (reads_set ⟨hbefore, rfl⟩).seq ?_
  refine .ite (fun _ => .ret rfl) fun _ => .ite (fun _ => .ret rfl) fun _ => ?_
  cases hnext with
  | none => exact .ret rfl
  | @some x y hxy =>
    obtain ⟨gap, next⟩ := x
    obtain ⟨gap', _⟩ := y
    obtain ⟨-, -, rfl⟩ := hxy
    exact .ite (fun _ => .ret rfl) fun _ => .ret rfl

/-- A reading that is refused for a stray default is refused at both places. -/
theorem reads_settled {k : Nat} {p q : Parser Node} (hp : t.Reads m k t.Fresh p q) :
    t.Reads m k t.Fresh (settled p) (settled q) := by
  refine hp.bind ?_
  rintro node _ ⟨hfield, hsound, rfl⟩
  rw [hasStrayDefault_moved]
  exact (reads_require _).seq <| .ret ⟨hfield, hsound, rfl⟩

/-- A brace opens a block or an object. Each reading is tried to its end, and which of them is taken
depends on their results, so both have to agree. -/
theorem reads_blockOrElse {k : Nat} (h : ∀ n < m, t.Subs n n sub sub')
    {asBlock asBlock' asObject asObject' : Parser Node}
    (hblock : t.Reads m k t.Fresh asBlock asBlock') (hobject : t.Reads m k t.Fresh asObject asObject') :
    t.Reads m k t.Fresh (blockOrElse sub asBlock asObject)
      (blockOrElse sub' asBlock' asObject') := by
  refine reads_braceReading.bind ?_
  rintro _ reading rfl
  cases reading with
  | key => exact (reads_settled hobject).orElse hblock
  | block => exact hblock
  | «open» =>
    refine hblock.orElse ((reads_seesLoneDefault h).bind ?_)
    rintro lone _ rfl
    exact (reads_require _).seq hobject

/-- The body of an arrow function in braces. -/
theorem reads_arrowBlock (h : t.Subs m m sub sub') (asi : Bool) :
    t.Reads m m t.Fresh (arrowBlock sub asi) (arrowBlock sub' asi) := by
  refine (Reads.inner fun _ hn => reads_ambiguousBlock_lt (h.mono le_rfl hn.le)
    fun _ _ _ => rfl).bind fun hbody => (reads_lookahead asi).next (fun _ _ => ?_) ?_
  · exact (reads_require _).seq <| .ret hbody
  · exact .ret hbody

/-- An arrow function from the arrow on, with its parameters read before. -/
theorem reads_arrowRest (h : t.Subs m m sub sub') (asi : Bool) {start start' : Nat}
    {lead lead' : List Node} (hstart : t.At start start')
    (hlead : t.Copies NamesByIdentifier lead lead') :
    t.Reads m m t.Fresh (arrowRest sub asi start lead) (arrowRest sub' asi start' lead') := by
  refine (reads_literal _).seq <| reads_trivia.bind fun hgap => .get fun c _ => ?_
  have hvalue := h.expression m le_rfl Level.lowest asi
  dsimp only
  refine .branch (fun _ => ?_) (fun _ => hvalue) fun hbody => ?_
  · exact reads_blockOrElse (fun _ hn => h.mono hn.le hn.le) (reads_arrowBlock h asi) hvalue
  · exact reads_definitionNode rfl hstart ((hlead.join hgap.roleless.unnamed).join hbody.one.unnamed)

/-- Looking ahead for an arrow finds it at the same place or not at all. -/
theorem reads_arrowBehind (asi : Bool) :
    t.Reads m m (Option.Rel (t.Next m)) (arrowBehind asi) (arrowBehind asi) := by
  refine (reads_lookahead asi).next (fun hgap hc => ?_) ?_
  · refine .ret ?_
    rw [Cursor.startsWith_moved]
    split
    · exact .some ⟨hgap, hc, rfl⟩
    · exact .none
  · exact .ret .none

/-- The expression in parentheses that a list of items makes, without an arrow behind it. -/
def groupOf (items : List (Option Node)) (start stop : Nat) : Parser Node := do
  let nodes := items.filterMap id
  let lead := nodes.takeWhile Node.isRemark
  let trail := (nodes.reverse.takeWhile Node.isRemark).reverse
  let inner := (nodes.drop lead.length).take (nodes.length - lead.length - trail.length)
  let elements := inner.filter fun node => !node.isRemark
  require (withoutHoles items && !elements.any (·.kind == .spreadElement))
  let commas := items.countP (·.isNone)
  match inner, inner.getLast? with
  | first :: rest, some last =>
    require (commas + 1 == elements.length)
    let value : Node := if rest.isEmpty then first else
      { kind := .sequenceExpression, start := first.start, stop := last.stop, children := inner }
    return { kind := .parenthesizedExpression, start, stop, children := lead ++ [value] ++ trail }
  | _, _ => failure

/-- Comments in front stay in front when the nodes are moved. -/
theorem takeWhile_isRemark_map (offset : Nat) (nodes : List Node) :
    (nodes.map (Node.moved offset)).takeWhile Node.isRemark =
      (nodes.takeWhile Node.isRemark).map (Node.moved offset) := by
  rw [List.takeWhile_map]
  congr 2
  funext node
  exact Node.isRemark_moved offset node

theorem Copies.subset {P : Node → Prop} {xs ys xs' : List Node} (h : t.Copies P xs ys)
    (hsub : xs' ⊆ xs) : t.Copies P xs' (xs'.map (Node.moved t.offset)) :=
  ⟨fun a ha => h.1 a (hsub ha), rfl⟩

theorem filter_isRemark_map (offset : Nat) (nodes : List Node) :
    (nodes.map (Node.moved offset)).filter (fun node => !node.isRemark) =
      (nodes.filter fun node => !node.isRemark).map (Node.moved offset) := by
  rw [List.filter_map]
  congr 2
  funext node
  exact congrArg (!·) (Node.isRemark_moved offset node)

/-- What a list between parentheses amounts to, its span aside, is decided by its items. -/
theorem reads_groupOf {items items' : List (Option Node)}
    (hitems : t.Items (fun node => node.field = none) items items') {start start' stop stop' : Nat}
    (hstart : t.At start start') (hstop : t.At stop stop') :
    t.Reads m m t.Fresh (groupOf items start stop) (groupOf items' start' stop') := by
  have hnodes := hitems.nodes
  rw [groupOf, groupOf, hitems.withoutHoles_eq, hitems.countP_isNone_eq, hnodes.2]
  generalize items.filterMap id = nodes at hnodes ⊢
  dsimp only
  rw [takeWhile_isRemark_map, ← List.map_reverse, takeWhile_isRemark_map, ← List.map_reverse,
    List.length_map, List.length_map, List.length_map, ← List.map_drop, ← List.map_take]
  have hlead := hnodes.subset (List.takeWhile_subset Node.isRemark)
  have hremarks : nodes.reverse.takeWhile Node.isRemark ⊆ nodes :=
    fun node hnode => List.mem_reverse.mp (List.takeWhile_subset _ hnode)
  have htrail := hnodes.subset (List.reverse_subset.mpr hremarks)
  have hinner (n k : Nat) := hnodes.subset (fun node hnode =>
    List.mem_of_mem_drop (List.mem_of_mem_take hnode) : (nodes.drop n).take k ⊆ nodes)
  generalize nodes.takeWhile Node.isRemark = lead at hlead ⊢
  generalize (nodes.reverse.takeWhile Node.isRemark).reverse = trail at htrail ⊢
  replace hinner := hinner lead.length (nodes.length - lead.length - trail.length)
  generalize (nodes.drop lead.length).take (nodes.length - lead.length - trail.length) = inner
    at hinner ⊢
  rw [filter_isRemark_map, any_map_moved t.offset (by simp), List.length_map, List.getLast?_map]
  refine (reads_require _).seq ?_
  cases inner with
  | nil => exact reads_failure
  | cons first rest =>
    cases hlast : (first :: rest).getLast? with
    | none => exact reads_failure
    | some last =>
      refine (reads_require _).seq ?_
      have hfirst := hinner.1 first List.mem_cons_self
      have hend := (hinner.1 last (List.mem_of_getLast? hlast)).2
      have hvalue : t.Fresh
          (if rest.isEmpty then first else
            { kind := .sequenceExpression, start := first.start, stop := last.stop
              children := first :: rest })
          (if (rest.map (Node.moved t.offset)).isEmpty then first.moved t.offset else
            { kind := .sequenceExpression, start := (first.moved t.offset).start
              stop := (last.moved t.offset).stop
              children := (first :: rest).map (Node.moved t.offset) }) := by
        rw [List.isEmpty_map]
        split
        · exact ⟨hfirst.1, hfirst.2, rfl⟩
        · exact copy_node rfl ⟨hfirst.2.proper.1, Node.start_moved _ _⟩
            ⟨hend.proper.2.1, Node.stop_moved _ _⟩ hinner
      exact .ret (copy_node rfl hstart hstop ((hlead.append hvalue.one).append htrail))

/-- A list between parentheses is the parameters of an arrow function if an arrow follows, and else a
group. -/
theorem reads_group_lt (h : t.Subs n n sub sub') (asi : Bool) :
    t.Reads (n + 1) n t.Fresh (group sub asi) (group sub' asi) := by
  refine reads_position.bind @fun start start' hstart => ?_
  refine (reads_commaList_lt (P := fun node => node.field = none) (by decide) (reads_element h)
    (fun _ hgap => hgap.2) fun _ hfield => hfield).bind @fun items items' hitems => ?_
  refine reads_position.bind @fun stop stop' hstop => (reads_arrowBehind asi).next (fun hgap hc => ?_) ?_
  · dsimp only
    rw [hitems.withoutHoles_eq]
    refine (reads_require _).seq ?_
    refine (reads_ofOption (rel_asPatterns? hitems.nodes)).bind fun hpatterns => ?_
    refine (reads_set ⟨hc, rfl⟩).seq ?_
    have hparams := copy_node (show isPlain .formalParameters = true from rfl) hstart hstop hpatterns
    exact reads_arrowRest h asi hstart ((hparams.unnamed (by decide)).join hgap.roleless.unnamed)
  · exact reads_groupOf hitems hstart hstop

/-- A name is the parameter of an arrow function if an arrow follows, and else a name. -/
theorem reads_identifier_lt (h : t.Subs n n sub sub') (asi : Bool) :
    t.Reads (n + 1) n t.Fresh (identifier sub asi) (identifier sub' asi) := by
  refine (reads_name rfl).bind fun hid => (reads_arrowBehind asi).next (fun hgap hc => ?_) ?_
  · refine (reads_set ⟨hc, rfl⟩).seq ?_
    exact reads_arrowRest h asi hid.at_start ((hid.unnamed (by decide)).join hgap.roleless.unnamed)
  · exact .ret hid.fresh

/-- The word `async` in front of a function, of an arrow function, or as a name. -/
theorem reads_background_lt (h : t.Subs n n sub sub') (asi constructing : Bool) :
    t.Reads (n + 1) n t.Fresh (background sub asi constructing)
      (background sub' asi constructing) := by
  refine (reads_word rfl).bind @fun self self' hself => (reads_lookahead asi).next (fun hgap hc => ?_) ?_
  · refine .ite (fun _ => ?_) fun _ => .ite (fun _ => ?_) fun _ => .ite (fun _ => ?_) fun _ => ?_
    · refine (reads_set ⟨hc, rfl⟩).seq ?_
      exact reads_arrowRest h asi hself.at_start
        ((hself.unnamed (by decide)).join hgap.roleless.unnamed)
    · refine (reads_set ⟨hc, rfl⟩).seq ?_
      exact .inner fun _ hn => reads_functionLiteral (h.mono hn.le hn.le) hself.at_start hgap.roleless
    · refine .get fun before hbefore => ?_
      refine (reads_set ⟨hc, rfl⟩).seq ?_
      refine (Reads.inner fun _ hn => reads_elements_lt (h.mono hn.le le_rfl) (by decide)).bind
        @fun items items' hitems => reads_position.bind @fun stop stop' hstop => ?_
      refine (reads_arrowBehind asi).next (@fun gap₁ gap₁' c₁ hgap₁ hc₁ => ?_) ?_
      · dsimp only
        rw [hitems.withoutHoles_eq]
        refine (reads_require _).seq ?_
        refine (reads_ofOption (rel_asPatterns? hitems.nodes)).bind fun hpatterns => ?_
        refine (reads_set ⟨hc₁, rfl⟩).seq ?_
        have hparams := copy_node (show isPlain .formalParameters = true from rfl) hc.at hstop hpatterns
        exact reads_arrowRest h asi hself.at_start
          ((hgap.roleless.unnamed.join (hparams.unnamed (by decide))).join hgap₁.roleless.unnamed)
      · refine .ite (fun _ => ?_) fun _ => ?_
        · exact (reads_set ⟨hbefore, rfl⟩).seq <| .ret hself.fresh
        · have hargs := copy_node (show isPlain .arguments = true from rfl) hc.at hstop hitems.nodes
          exact reads_node rfl hself.at_start
            (((hself.as _).one.append hgap).append (hargs.as _).one)
    · refine .ite (fun _ => .ret hself.fresh) fun _ => .get fun before hbefore => ?_
      refine (reads_set ⟨hc, rfl⟩).seq ?_
      refine (Reads.inner fun _ _ => reads_word rfl).bind fun hparameter => ?_
      refine (reads_arrowBehind false).next (fun hgap₁ hc₁ => ?_) ?_
      · refine (reads_set ⟨hc₁, rfl⟩).seq ?_
        exact reads_arrowRest h asi hself.at_start
          ((hgap.roleless.unnamed.join (hparameter.unnamed (by decide))).join hgap₁.roleless.unnamed)
      · exact (reads_set ⟨hbefore, rfl⟩).seq <| .ret hself.fresh
  · exact .ret hself.fresh

/-! ## Primary expressions -/

/-- The property of `new.target` and `import.meta`, which is no name of its own. -/
theorem reads_metaRest {start start' : Nat} (hstart : t.At start start') (property : String) :
    t.Reads m m t.Fresh (metaRest start property) (metaRest start' property) := by
  refine reads_plainTrivia.bind fun hgap => (reads_literal ".").seq ?_
  refine reads_trivia.bind fun hgap' => (reads_keyword property).seq ?_
  exact reads_node rfl hstart (hgap.append hgap')

theorem reads_propertyWord :
    t.Reads m m t.Fresh (word .propertyIdentifier) (word .propertyIdentifier) :=
  .inner fun _ _ => (reads_word rfl).mono fun _ _ hword => hword.fresh

/-- The word `import` as an operand: a call or a property. -/
theorem reads_importOperand_lt (h : t.Subs n s sub sub') :
    t.Reads (n + 1) n t.Fresh (importOperand sub) (importOperand sub') := by
  refine reads_position.bind fun hstart => (reads_keyword_lt (by decide)).seq ?_
  refine reads_position.bind fun hstop => .get fun c hc => ?_
  have hword := copy_node (P := IsGap) (show isPlain .importWord = true from rfl) hstart hstop .nil
  refine reads_plainTrivia.bind fun hgap => .get fun d _ => ?_
  refine .ite (fun _ => ?_) fun _ => ?_
  · refine (reads_arguments h).bind fun hargs => ?_
    exact reads_node rfl hstart (((hword.as _).one.append hgap).append (hargs.as _).one)
  refine .get fun e _ => ?_
  refine .ite (fun _ => ?_) fun _ => ?_
  · refine (reads_literal _).seq <| reads_trivia.bind fun hgap' => .get fun f _ => ?_
    dsimp only
    refine .branch (fun _ => .inner fun _ _ => reads_privateName) (fun _ => reads_propertyWord)
      fun hproperty => ?_
    exact reads_node rfl hstart (((hword.one.append hgap).append hgap').append hproperty.one)
  · exact (reads_set ⟨hc, rfl⟩).seq <| reads_metaRest hstart "meta"

/-- An operand that begins with a word, whichever it is. -/
theorem reads_wordOperand_lt (h : t.Subs n n sub sub') (asi constructing : Bool) :
    t.Reads (n + 1) n t.Fresh (wordOperand sub asi constructing)
      (wordOperand sub' asi constructing) := by
  have hword {kind : Kind} (hkind : isPlain kind || isNameKind kind) :
      t.Reads (n + 1) n t.Fresh (word kind) (word kind) :=
    (reads_word hkind).mono fun _ _ hnode => hnode.fresh
  intro c hc
  refine .position (.get ?_)
  have hstart := hc.at
  by_cases hundefined : c.word = "undefined"
  · rw [Cursor.word_moved, hundefined]
    exact readsAt_undefinedWord hc hundefined
  refine (?_ : t.Reads (n + 1) n t.Fresh _ _) c hc
  rw [Cursor.word_moved]
  split
  case h_6 hword => exact absurd hword hundefined
  · exact hword rfl
  · exact hword rfl
  · exact hword rfl
  · exact hword rfl
  · exact hword rfl
  · exact reads_functionLiteral h hstart .nil
  · exact reads_classLiteral h hstart .nil
  · exact reads_background_lt h asi constructing
  · exact reads_importOperand_lt h
  · exact (reads_keyword_lt (by decide)).seq <| reads_metaRest hstart "target"
  · exact reads_failure
  · refine (reads_word rfl).bind fun hid => (reads_arrowBehind asi).next (fun hgap hc => ?_) ?_
    · refine (reads_set ⟨hc, rfl⟩).seq ?_
      exact reads_arrowRest h asi hstart ((hid.unnamed (by decide)).join hgap.roleless.unnamed)
    · exact .ret hid.fresh
  · exact reads_identifier_lt h asi

/-- An operand without accesses, by its first character. -/
theorem reads_primary_lt (h : t.Subs n n sub sub') (asi constructing : Bool) :
    t.Reads (n + 1) n t.Fresh (primary sub asi constructing) (primary sub' asi constructing) := by
  have hstring : t.Reads (n + 1) n t.Fresh string string :=
    reads_string.mono fun _ _ hnode => hnode.fresh
  refine .get fun c _ => ?_
  rw [Cursor.rest_moved]
  split
  · exact reads_group_lt h asi
  · exact reads_array_lt h
  · exact reads_object_lt h
  · exact hstring
  · exact hstring
  · exact reads_template_lt h
  · exact reads_regex
  · refine reads_position.bind fun hstart => ?_
    refine (reads_decorators fun _ hn => h.mono (Nat.le_of_lt_succ hn) le_rfl).bind
      fun hmarks => ?_
    exact reads_classLiteral h hstart hmarks
  · exact .ite (fun _ => reads_number) fun _ => reads_wordOperand_lt h asi constructing
  · exact reads_failure

/-! ## Accesses and calls -/

section
variable {left left' : Node} {gap gap' : List Node}

/-- A property behind a dot. -/
theorem reads_accessName (hleft : t.Fresh left left') (hgap : t.Parts gap gap') :
    t.Reads m m t.Fresh (accessName left gap) (accessName left' gap') := by
  refine reads_trivia.bind fun hgap₁ => .get fun c _ => ?_
  dsimp only
  refine .branch (fun _ => .inner fun _ _ => reads_privateName) (fun _ => reads_propertyWord)
    fun hproperty => ?_
  exact reads_node rfl hleft.at_start
    (((hleft.one.append hgap).append hgap₁).append hproperty.one)

theorem reads_accessIndex (h : t.Subs m s sub sub') (hleft : t.Fresh left left')
    (hgap : t.Parts gap gap') :
    t.Reads m m t.Fresh (accessIndex sub left gap) (accessIndex sub' left' gap') := by
  refine (reads_literal "[").seq <| reads_trivia.bind fun hgap₁ => ?_
  refine (reads_expressions h false).bind fun hindex => reads_plainTrivia.bind fun hgap₂ => ?_
  refine (reads_literal "]").seq ?_
  exact reads_node rfl hleft.at_start
    ((((hleft.one.append hgap).append hgap₁).append hindex.one).append hgap₂)

theorem reads_call (h : t.Subs m s sub sub') (hleft : t.Fresh left left') (hgap : t.Parts gap gap') :
    t.Reads m m t.Fresh (call sub left gap) (call sub' left' gap') := by
  refine (reads_arguments h).bind fun hargs => ?_
  exact reads_node rfl hleft.at_start (((hleft.as _).one.append hgap).append (hargs.as _).one)

/-- The next access, call or template behind an operand, or none. -/
theorem reads_access (h : t.Subs m s sub sub') (asi constructing update : Bool)
    (hleft : t.Fresh left left') :
    t.Reads m m (Option.Rel t.Fresh) (access sub asi constructing update left)
      (access sub' asi constructing update left') := by
  have hfound {p q : Parser Node} (hp : t.Reads m m t.Fresh p q) :
      t.Reads m m (Option.Rel t.Fresh) (do return some (← p) : Parser (Option Node))
        (do return some (← q)) :=
    hp.bind fun hnode => .ret (.some hnode)
  refine (reads_lookahead asi).next (fun hgap hc => ?_) ?_
  · dsimp only
    rw [hleft.kind_eq, Cursor.rest_moved]
    refine .ite (fun _ => .ret .none) fun _ => ?_
    split
    · refine (reads_set (k := m) ⟨hc.skip _, Cursor.skip_moved _ _ _⟩).seq ?_
      exact hfound (reads_accessName hleft hgap.parts)
    · refine .ite (fun _ => .ret .none) fun _ => ?_
      refine (reads_set (k := m) ⟨hc.skip _, Cursor.skip_moved _ _ _⟩).seq ?_
      refine reads_trivia.bind fun hgap₁ => .get fun d _ => ?_
      refine .ite (fun _ => ?_) fun _ => .ite (fun _ => ?_) fun _ => ?_
      · exact (reads_require _).seq <| hfound (reads_call h hleft (hgap.append hgap₁))
      · exact hfound (reads_accessIndex h hleft (hgap.append hgap₁))
      · exact hfound (reads_accessName hleft (hgap.append hgap₁))
    · refine (reads_set ⟨hc, rfl⟩).seq ?_
      exact hfound (reads_accessIndex h hleft hgap.parts)
    · refine .ite (fun _ => .ret .none) fun _ => (reads_set ⟨hc, rfl⟩).seq ?_
      exact hfound (reads_call h hleft hgap.parts)
    · refine .ite (fun _ => .ret .none) fun _ => (reads_set ⟨hc, rfl⟩).seq ?_
      refine (Reads.inner fun _ hn => reads_template_lt (h.mono hn.le le_rfl)).bind fun htext => ?_
      exact hfound (reads_node rfl hleft.at_start
        (((hleft.as _).one.append hgap).append (htext.as _).one))
    · refine .ite (fun _ => ?_) fun _ => .ret .none
      refine (reads_set (k := m) ⟨hc.skip _, Cursor.skip_moved _ _ _⟩).seq ?_
      exact hfound (reads_node rfl hleft.at_start ((hleft.as _).one.append hgap))
    · exact .ret .none
  · exact .ret .none

end

/-- An operand of `new`, which takes one list of arguments at most. -/
theorem reads_construct_lt (h : t.Subs n n sub sub') (asi : Bool) :
    t.Reads (n + 1) n t.Fresh (construct sub asi) (construct sub' asi) := by
  have hprimary : t.Reads n n t.Fresh (primary sub asi true) (primary sub' asi true) :=
    .inner fun _ hn => reads_primary_lt (h.mono hn.le hn.le) asi true
  refine reads_position.bind fun hstart => (reads_keyword_lt (by decide)).seq ?_
  refine reads_trivia.bind fun hgap => .get fun c _ => ?_
  dsimp only
  refine .branch (fun _ => (h.construct n le_rfl asi).orElse hprimary) (fun _ => hprimary)
    fun hinner => ?_
  refine (reads_iterate (fun _ _ => reads_access h asi true false) hinner).bind
    fun hcallee => (reads_lookahead asi).next (fun hgap' hc => ?_) ?_
  · refine .ite (fun _ => ?_) fun _ => reads_node rfl hstart (hgap.append hcallee.one)
    refine (reads_set ⟨hc, rfl⟩).seq <| (reads_arguments h).bind fun hargs => ?_
    exact reads_node rfl hstart (((hgap.append hcallee.one).append hgap').append (hargs.as _).one)
  · exact reads_node rfl hstart (hgap.append hcallee.one)

/-! ## Operators -/

/-- An operator in front of an operand has at least one character. -/
theorem reads_unary_lt (h : t.Subs n s sub sub') {spelling : String} (hspelling : spelling.toList ≠ [])
    (asi : Bool) : t.Reads (n + 1) n t.Fresh (unary sub spelling asi) (unary sub' spelling asi) := by
  refine reads_position.bind fun hstart => (reads_literal_lt hspelling).seq ?_
  refine reads_trivia.bind fun hgap => (h.expression n le_rfl _ _).bind fun hoperand => ?_
  exact reads_node rfl hstart (hgap.append hoperand.one)

/-- An increment skips its characters unseen, so there has to be text at the cursor. -/
theorem readsAt_increment_lt (h : t.Subs n s sub sub') (asi : Bool) {c : Cursor}
    (hc : t.Inside (n + 1) c) (hrest : c.rest ≠ []) :
    t.ReadsAt c n t.Fresh (increment sub asi) (increment sub' asi) := by
  have hskip := hc.skip_lt (Nat.succ_ne_zero 1) hrest
  refine .get ((?_ : t.Reads (n + 1) n t.Fresh _ _) c hc)
  refine (reads_set ⟨hskip, Cursor.skip_moved _ _ _⟩).seq ?_
  refine reads_trivia.bind fun hgap => (h.expression n le_rfl _ _).bind fun hoperand => ?_
  exact reads_node rfl hc.at (hgap.append (hoperand.as _).one)

theorem reads_yield_lt (h : t.Subs n s sub sub') (asi : Bool) :
    t.Reads (n + 1) n t.Fresh (Parser.yield sub asi) (Parser.yield sub' asi) := by
  intro c hc
  refine .position ((readsAt_keyword_lt (by decide) hc).bind fun hsees => ?_)
  -- whatever follows the word, the node begins with it
  have hnode {children children' : List Node} (hchildren : t.Parts children children') :
      t.Reads n n t.Fresh (node .yieldExpression c.pos children)
        (node .yieldExpression (c.moved t.offset).pos children') :=
    reads_node_of hc.at hchildren fun _ hmark => ⟨hc.at.1, hmark, .inl rfl, hc.beginsAt hsees rfl⟩
  refine (reads_lookahead asi).next (fun hgap hd => ?_) ?_
  · refine .ite (fun _ => ?_) fun _ => .ite (fun _ => ?_) fun _ => hnode .nil
    · refine (reads_set ⟨hd, rfl⟩).seq <| (reads_literal "*").seq ?_
      refine reads_trivia.bind fun hgap' => ?_
      refine (h.expression n le_rfl _ _).bind fun hoperand => ?_
      exact hnode ((hgap.append hgap').append hoperand.one)
    · refine (reads_set ⟨hd, rfl⟩).seq ?_
      refine (h.expression n le_rfl _ _).bind fun hoperand => ?_
      exact hnode (hgap.append hoperand.one)
  · exact hnode .nil

/-- The word `await` with an operand. -/
theorem reads_await_lt (h : t.Subs n s sub sub') (asi : Bool) :
    t.Reads (n + 1) n t.Fresh (await sub asi) (await sub' asi) := by
  refine reads_position.bind fun hstart => (reads_keyword_lt (by decide)).seq ?_
  refine (reads_lookahead asi).next (fun hgap hc => ?_) ?_
  · refine (reads_require _).seq <| (reads_set ⟨hc, rfl⟩).seq ?_
    refine (h.expression n le_rfl _ _).bind fun hoperand => ?_
    exact reads_node rfl hstart (hgap.append hoperand.one)
  · exact reads_failure

theorem reads_privateTest_lt (h : t.Subs n s sub sub') (asi : Bool) :
    t.Reads (n + 1) n t.Fresh (privateTest sub asi) (privateTest sub' asi) := by
  refine reads_privateName.bind fun hname => (reads_lookahead asi).next (fun hgap hc => ?_) ?_
  · refine (reads_set ⟨hc, rfl⟩).seq <| (reads_keyword "in").seq ?_
    refine reads_trivia.bind fun hgap' => (h.expression n le_rfl _ _).bind fun hoperand => ?_
    exact reads_node rfl hname.at_start
      (((hname.one.append hgap).append hgap').append hoperand.one)
  · exact reads_failure

/-- An operand with all that may stand in front of it. -/
theorem reads_fronted_lt (h : t.Subs n n sub sub') (asi : Bool) :
    t.Reads (n + 1) n t.Fresh (fronted sub asi) (fronted sub' asi) := by
  have hprimary := reads_primary_lt h asi false
  intro c hc
  refine .get ?_
  rw [Cursor.rest_moved, Cursor.word_moved]
  split
  · next hrest => exact readsAt_increment_lt h asi hc (by simp [hrest])
  · next hrest => exact readsAt_increment_lt h asi hc (by simp [hrest])
  · exact reads_unary_lt h (by decide) asi c hc
  · exact reads_unary_lt h (by decide) asi c hc
  · exact reads_unary_lt h (by decide) asi c hc
  · exact reads_unary_lt h (by decide) asi c hc
  · exact reads_markup_lt h c hc
  · exact reads_privateTest_lt h asi c hc
  · split
    · exact reads_unary_lt h (by decide) asi c hc
    · exact reads_unary_lt h (by decide) asi c hc
    · exact reads_unary_lt h (by decide) asi c hc
    · exact reads_yield_lt h asi c hc
    · exact ((reads_await_lt h asi).orElse hprimary) c hc
    · exact ((reads_construct_lt h asi).orElse hprimary) c hc
    · exact hprimary c hc

/-- An assignment to an operand, if its operator follows, with the operand as a pattern. -/
theorem reads_assignment (h : t.Subs m s sub sub') (asi : Bool) {left left' : Node}
    (hleft : t.Fresh left left') :
    t.Reads m m t.Fresh (assignment sub asi left) (assignment sub' asi left') := by
  refine (reads_lookahead asi).next (@fun gap gap' c hgap hc => ?_) ?_
  · have hvalue {P : Node → Prop} {target target' : Node} (htarget : t.Copy P target target')
        {kind : Kind} (hkind : isPlain kind = true) (spelling : String) :
        t.Reads m m t.Fresh
          (do
            set c
            literal spelling
            let gap' ← trivia
            let right ← sub.expression Level.lowest asi
            node kind left.start ([target.as .left] ++ gap ++ gap' ++ [right]) : Parser Node)
          (do
            set (c.moved t.offset)
            literal spelling
            let gap₁ ← trivia
            let right ← sub'.expression Level.lowest asi
            node kind left'.start ([target'.as .left] ++ gap' ++ gap₁ ++ [right])) := by
      refine (reads_set ⟨hc, rfl⟩).seq <| (reads_literal spelling).seq ?_
      refine reads_trivia.bind fun hgap' => (h.expression m le_rfl _ _).bind fun hright => ?_
      exact reads_node hkind hleft.at_start
        ((((htarget.as _).one.append hgap).append hgap').append hright.one)
    dsimp only
    rw [hleft.kind_eq]
    simp only [Cursor.startsWith_moved]
    split
    case h_1 | h_2 | h_3 | h_4 =>
      refine .ite (fun _ => hvalue hleft rfl "=") fun _ => ?_
      split
      · exact hvalue hleft rfl _
      · exact .ret hleft
    case h_5 => exact .ite (fun _ => hvalue hleft rfl "=") fun _ => .ret hleft
    case h_6 | h_7 =>
      refine .ite (fun _ => ?_) fun _ => .ret hleft
      refine (reads_ofOption (rel_asPattern? hleft)).bind fun htarget => ?_
      exact hvalue htarget rfl "="
    case h_8 => exact .ret hleft
  · exact .ret hleft

/-- The next operator of at least the given level and its right operand, or none. -/
theorem reads_operation (h : t.Subs m s sub sub') (level : Nat) (asi : Bool) {left left' : Node}
    (hleft : t.Fresh left left') :
    t.Reads m m (Option.Rel t.Fresh) (operation sub level asi left)
      (operation sub' level asi left') := by
  refine (reads_lookahead asi).next (@fun _ _ c hgap hc => ?_) ?_
  · refine .ite (fun _ => ?_) fun _ => ?_
    · refine (reads_set (k := m) ⟨hc.skip _, Cursor.skip_moved _ _ _⟩).seq ?_
      refine reads_trivia.bind fun hgap₁ => (h.expression m le_rfl _ _).bind fun hfirst => ?_
      refine reads_plainTrivia.bind fun hgap₂ => (reads_literal ":").seq ?_
      refine reads_trivia.bind fun hgap₃ => (h.expression m le_rfl _ _).bind fun hsecond => ?_
      refine (reads_node rfl hleft.at_start ((((((hleft.one.append hgap).append hgap₁).append
        hfirst.one).append hgap₂).append hgap₃).append hsecond.one)).bind fun hnode => ?_
      exact .ret (.some hnode)
    · rw [show (c.moved t.offset).binaryOperator? = c.binaryOperator? from rfl]
      split
      · refine .ite (fun _ => .ret .none) fun _ => (reads_set ⟨hc, rfl⟩).seq ?_
        refine (reads_literal _).seq <| reads_trivia.bind fun hgap₁ => ?_
        refine (h.expression m le_rfl _ _).bind fun hright => ?_
        refine (reads_node rfl hleft.at_start
          (((hleft.one.append hgap).append hgap₁).append hright.one)).bind fun hnode => ?_
        exact .ret (.some hnode)
      · exact .ret .none
  · exact .ret .none

theorem reads_chain_lt (h : t.Subs n n sub sub') (asi : Bool) :
    t.Reads (n + 1) n t.Fresh (chain sub asi) (chain sub' asi) :=
  (reads_fronted_lt h asi).bind fun hfirst =>
    reads_iterate (fun _ _ => reads_access h asi false false) hfirst

/-- An expression whose first operand has been read. -/
theorem reads_continueFrom (h : t.Subs m s sub sub') (level : Nat) (asi : Bool) {first first' : Node}
    (hfirst : t.Fresh first first') :
    t.Reads m m t.Fresh (continueFrom sub level asi first) (continueFrom sub' level asi first') := by
  refine (reads_iterate (fun _ _ => reads_access h asi false _) hfirst).bind fun hoperand => ?_
  refine (reads_assignment h asi hoperand).bind fun hoperand => ?_
  exact reads_iterate (fun _ _ => reads_operation h level asi) hoperand

/-- Expressions read alike at two places if the entry points do on texts that are shorter. -/
theorem reads_expression_lt (h : t.Subs n n sub sub') (level : Nat) (asi : Bool) :
    t.Reads (n + 1) n t.Fresh (expression sub level asi) (expression sub' level asi) := by
  refine .ite (fun _ => reads_primary_lt h asi false) fun _ => ?_
  exact (reads_fronted_lt h asi).bind fun hfirst => reads_continueFrom h level asi hfirst

end NotebookCell.Script.Suffix
