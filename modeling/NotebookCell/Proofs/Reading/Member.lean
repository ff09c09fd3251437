import NotebookCell.Proofs.Reading.Lexis

/-!
# Lists, functions and members at two places

The constructs of the grammar that are lists between brackets, blocks, functions, objects and
classes. Each is about two sets of entry points that agree on shorter texts (`Suffix.Subs`): what
stands behind at least one character is read by them in the same way.
-/

namespace NotebookCell.Script.Suffix

open NotebookCell.Tree NotebookCell.Script.Parser

/-- The entry points agree on texts of the given lengths: `e` bounds the texts of expressions and `s`
those of statements. -/
structure Subs (t : Suffix) (e s : Nat) (sub sub' : Parsers) : Prop where
  expression : ∀ m ≤ e, ∀ level asi,
    t.Reads m m t.Fresh (sub.expression level asi) (sub'.expression level asi)
  construct : ∀ m ≤ e, ∀ asi, t.Reads m m t.Fresh (sub.construct asi) (sub'.construct asi)
  markup : ∀ m ≤ e, t.Reads m m t.Fresh sub.markup sub'.markup
  statement : ∀ m ≤ s, t.Reads m m t.Fresh sub.statement sub'.statement
  opening : ∀ m ≤ s, t.Reads m m t.Fresh sub.opening sub'.opening

variable {t : Suffix} {m n s : Nat} {sub sub' : Parsers}

theorem Subs.mono {e e' s' : Nat} (h : t.Subs e s sub sub') (he : e' ≤ e) (hs : s' ≤ s) :
    t.Subs e' s' sub sub' where
  expression m hm := h.expression m (Nat.le_trans hm he)
  construct m hm := h.construct m (Nat.le_trans hm he)
  markup m hm := h.markup m (Nat.le_trans hm he)
  statement m hm := h.statement m (Nat.le_trans hm hs)
  opening m hm := h.opening m (Nat.le_trans hm hs)

/-! ## Lists between brackets -/

/-- The items of both lists are the same ones, and the nodes among them have the property `P`. -/
def Items (t : Suffix) (P : Node → Prop) (xs ys : List (Option Node)) : Prop :=
  (∀ a, some a ∈ xs → P a ∧ a.Sound t.text) ∧ ys = xs.map (Option.map (Node.moved t.offset))

section
variable {P Q : Node → Prop} {xs ys xs' ys' : List (Option Node)}

/-- Comments and other nodes as items of a list. -/
theorem Copies.items {as bs : List Node} (h : t.Copies P as bs) (hP : ∀ a, P a → Q a) :
    t.Items Q (as.map some) (bs.map some) := by
  obtain ⟨hall, rfl⟩ := h
  refine ⟨?_, ?_⟩
  · intro a ha
    have hmem : a ∈ as := by simpa using ha
    exact ⟨hP a (hall a hmem).1, (hall a hmem).2⟩
  · simp

theorem Items.append (h : t.Items P xs ys) (h' : t.Items P xs' ys') :
    t.Items P (xs ++ xs') (ys ++ ys') := by
  obtain ⟨hall, rfl⟩ := h
  obtain ⟨hall', rfl⟩ := h'
  refine ⟨?_, List.map_append.symm⟩
  intro a ha
  rcases List.mem_append.mp ha with ha | ha
  · exact hall a ha
  · exact hall' a ha

/-- A comma is an item without a node. -/
theorem Items.comma : t.Items P [none] [none] :=
  ⟨fun a ha => by simp at ha, rfl⟩

/-- The items of all steps together. -/
theorem Items.flatten {lists lists' : List (List (Option Node))}
    (h : List.Forall₂ (t.Items P) lists lists') : t.Items P lists.flatten lists'.flatten := by
  induction h with
  | nil => exact ⟨fun _ ha => (nomatch ha), rfl⟩
  | cons hhead _ ih => exact hhead.append ih

/-- The nodes among the items. -/
theorem Items.nodes (h : t.Items P xs ys) : t.Copies P (xs.filterMap id) (ys.filterMap id) := by
  obtain ⟨hall, rfl⟩ := h
  refine ⟨?_, ?_⟩
  · intro a ha
    obtain ⟨item, hitem, rfl⟩ := List.mem_filterMap.mp ha
    exact hall a hitem
  · rw [List.filterMap_map, List.map_filterMap]
    rfl

theorem any_isRemark_map (offset : Nat) (item : Option Node) :
    (item.map (Node.moved offset)).any Node.isRemark = item.any Node.isRemark := by
  cases item with
  | none => rfl
  | some node => exact Node.isRemark_moved offset node

/-- Whether a list has an element between any two commas does not depend on where it stands. -/
theorem withoutHoles_go_map (offset : Nat) (element : Bool) (items : List (Option Node)) :
    withoutHoles.go element (items.map (Option.map (Node.moved offset))) =
      withoutHoles.go element items := by
  induction items generalizing element with
  | nil => rfl
  | cons item items ih =>
    cases item with
    | none =>
      rw [List.map_cons, Option.map_none, withoutHoles.go, withoutHoles.go, ih]
    | some node => rw [List.map_cons, Option.map_some, withoutHoles.go, withoutHoles.go, ih]

/-- The items that are no comments. -/
theorem Items.elements (h : t.Items P xs ys) :
    (ys.filter fun item => !item.any Node.isRemark) =
      (xs.filter fun item => !item.any Node.isRemark).map (Option.map (Node.moved t.offset)) := by
  rw [h.2, List.filter_map]
  congr 2
  funext item
  exact congrArg (!·) (any_isRemark_map t.offset item)

/-- A list has holes at one place if it has some at the other. -/
theorem Items.withoutHoles_eq (h : t.Items P xs ys) : withoutHoles ys = withoutHoles xs := by
  rw [withoutHoles, withoutHoles, h.elements, withoutHoles_go_map]

theorem Items.any_isNone_eq (h : t.Items P xs ys) : ys.any (·.isNone) = xs.any (·.isNone) := by
  rw [h.2, List.any_map]
  congr 1
  funext item
  exact Option.isNone_map

/-- There are as many commas at both places. -/
theorem Items.countP_isNone_eq (h : t.Items P xs ys) :
    ys.countP (·.isNone) = xs.countP (·.isNone) := by
  rw [h.2, List.countP_map]
  congr 1
  funext item
  exact Option.isNone_map

/-- One element or comma of a list, with the comments behind it. -/
theorem reads_listStep {close : String} {element element' : Parser Node}
    (h : t.Reads m m (t.Copy Q) element element') (hgap : ∀ a, IsGap a → P a)
    (helement : ∀ a, Q a → P a) :
    t.Reads m m (Option.Rel (t.Items P)) (listStep close element) (listStep close element') := by
  refine .get fun c _ => ?_
  refine .ite (fun _ => .ret .none) fun _ => .ite (fun _ => ?_) fun _ => ?_
  · refine (reads_literal ",").seq <| reads_trivia.bind fun hnodes => ?_
    exact .ret (.some (Items.comma.append (hnodes.items hgap)))
  · refine h.bind fun hnode => reads_plainTrivia.bind fun hnodes => .get fun c _ => ?_
    refine (reads_require _).seq ?_
    exact .ret (.some ((hnode.one.items helement).append (hnodes.items hgap)))

/-- A list between brackets takes its opening bracket first, so its elements may be read by entry points
that agree on shorter texts only. -/
theorem reads_commaList_lt {opening close : String} (hopening : opening.toList ≠ [])
    {element element' : Parser Node} (h : t.Reads n n (t.Copy Q) element element')
    (hgap : ∀ a, IsGap a → P a) (helement : ∀ a, Q a → P a) :
    t.Reads (n + 1) n (t.Items P) (commaList opening close element)
      (commaList opening close element') := by
  refine (reads_literal_lt hopening).seq <| reads_trivia.bind fun hlead => ?_
  refine (reads_many (reads_listStep h hgap helement)).bind fun hitems => ?_
  refine (reads_literal close).seq ?_
  exact .ret ((hlead.items hgap).append (Items.flatten hitems))

end

/-! ## Expressions in a row -/

theorem reads_spread (h : t.Subs m s sub sub') : t.Reads m m t.Fresh (spread sub) (spread sub') := by
  refine reads_position.bind fun hstart => (reads_literal "...").seq ?_
  refine reads_trivia.bind fun hgap => (h.expression m le_rfl _ _).bind fun hvalue => ?_
  exact reads_node rfl hstart (hgap.append hvalue.one)

/-- An element of a list is an expression, perhaps spread. -/
theorem reads_element (h : t.Subs m s sub sub') :
    t.Reads m m t.Fresh (element sub) (element sub') := by
  refine .get fun c _ => ?_
  exact .ite (fun _ => reads_spread h) fun _ => h.expression m le_rfl _ _

/-- The next expression behind a comma, or none. -/
theorem reads_sequenceStep (h : t.Subs m s sub sub') (asi : Bool) :
    t.Reads m m (Option.Rel t.Parts) (sequenceStep sub asi) (sequenceStep sub' asi) := by
  refine (reads_lookahead asi).next (fun hgap hc => ?_) ?_
  · refine .ite (fun _ => ?_) fun _ => .ret .none
    refine (reads_set ⟨hc, rfl⟩).seq <| (reads_literal ",").seq ?_
    refine reads_trivia.bind fun hgap' => (h.expression m le_rfl _ _).bind fun hnext => ?_
    exact .ret (.some ((hgap.append hgap').append hnext.one))
  · exact .ret .none

/-- Expressions in a row are one node only if there are several. -/
theorem reads_sequenceFrom (h : t.Subs m s sub sub') (asi : Bool) {first first' : Node}
    (hfirst : t.Fresh first first') :
    t.Reads m m t.Fresh (sequenceFrom sub asi first) (sequenceFrom sub' asi first') := by
  refine (reads_many (reads_sequenceStep h asi)).bind @fun rest rest' hrest => ?_
  have hempty : rest'.isEmpty = rest.isEmpty := by
    cases hrest <;> rfl
  rw [hempty]
  refine .ite (fun _ => .ret hfirst) fun _ => ?_
  exact reads_node rfl hfirst.at_start (hfirst.cons (Copies.flatten hrest))

/-- One expression or several in a row. -/
theorem reads_expressions (h : t.Subs m s sub sub') (asi : Bool) :
    t.Reads m m t.Fresh (expressions sub asi) (expressions sub' asi) :=
  (h.expression m le_rfl _ _).bind fun hfirst => reads_sequenceFrom h asi hfirst

/-- A bracketed list of expressions as one node. -/
theorem reads_elements_lt (h : t.Subs n s sub sub') {opening close : String}
    (hopening : opening.toList ≠ []) :
    t.Reads (n + 1) n (t.Items fun _ => True) (commaList opening close (element sub))
      (commaList opening close (element sub')) :=
  reads_commaList_lt hopening (reads_element h) (fun _ _ => trivial) fun _ _ => trivial

theorem reads_arguments_lt (h : t.Subs n s sub sub') :
    t.Reads (n + 1) n t.Fresh (arguments sub) (arguments sub') := by
  refine reads_position.bind fun hstart => ?_
  refine (reads_elements_lt h (by decide)).bind fun hitems => ?_
  exact reads_node rfl hstart hitems.nodes

theorem reads_arguments (h : t.Subs m s sub sub') :
    t.Reads m m t.Fresh (arguments sub) (arguments sub') :=
  .inner fun _ hn => reads_arguments_lt (h.mono hn.le le_rfl)

/-- An array takes its opening bracket first; it may have holes. -/
theorem reads_array_lt (h : t.Subs n s sub sub') :
    t.Reads (n + 1) n t.Fresh (array sub) (array sub') := by
  refine reads_position.bind fun hstart => ?_
  refine (reads_elements_lt h (by decide)).bind fun hitems => ?_
  exact reads_node rfl hstart hitems.nodes

/-- An expression in parentheses where the grammar demands it, as behind `if`. -/
theorem reads_parenthesized (h : t.Subs m s sub sub') :
    t.Reads m m t.Fresh (parenthesized sub) (parenthesized sub') := by
  refine reads_position.bind fun hstart => (reads_literal "(").seq ?_
  refine reads_trivia.bind fun hgap => (reads_expressions h false).bind fun hinner => ?_
  refine reads_plainTrivia.bind fun hgap' => (reads_literal ")").seq ?_
  exact reads_node rfl hstart ((hgap.append hinner.one).append hgap')

/-- An expression becomes a pattern at one place if it does at the other, in the same role. -/
theorem rel_asPattern? {P : Node → Prop} {a b : Node} (h : t.Copy P a b) :
    Option.Rel (t.Copy fun node => node.field = a.field) (asPattern? a) (asPattern? b) := by
  obtain ⟨-, hsound, rfl⟩ := h
  rw [asPattern?_moved]
  cases hpattern : asPattern? a with
  | none => exact .none
  | some pattern =>
    obtain ⟨hpattern, -, hfield⟩ := sound_of_asPattern? hsound hpattern
    exact .some ⟨hfield, hpattern, rfl⟩

theorem rel_asPatterns? {P : Node → Prop} {xs ys : List Node} (h : t.Copies P xs ys) :
    Option.Rel t.Parts (asPatterns? xs) (asPatterns? ys) := by
  obtain ⟨hall, rfl⟩ := h
  rw [asPatterns?_moved]
  cases hpatterns : asPatterns? xs with
  | none => exact .none
  | some patterns =>
    have hsound := sound_of_asPatterns? (fun node hnode => (hall node hnode).2) hpatterns
    exact .some ⟨fun pattern hpattern => ⟨trivial, hsound pattern hpattern⟩, rfl⟩

/-- A pattern is read as an expression and then converted. -/
theorem reads_destructuring (h : t.Subs m s sub sub') :
    t.Reads m m t.Fresh (destructuring sub) (destructuring sub') := by
  refine .get fun c _ => ?_
  refine (reads_require _).seq <| (h.expression m le_rfl _ _).bind fun hvalue => ?_
  refine (reads_ofOption (rel_asPattern? hvalue)).mono fun _ _ hpattern => ?_
  exact hpattern.mono fun _ hfield => hfield.trans hvalue.1

/-! ## Templates -/

/-- A hole of a template with the comments around its expression. -/
theorem reads_substitution (h : t.Subs m s sub sub') :
    t.Reads m m t.Fresh (substitution sub) (substitution sub') := by
  refine reads_position.bind fun hstart => (reads_literal _).seq ?_
  refine reads_trivia.bind fun hgap => (reads_expressions h false).bind fun hinner => ?_
  refine reads_plainTrivia.bind fun hgap' => (reads_literal _).seq ?_
  exact reads_node rfl hstart ((hgap.append hinner.one).append hgap')

/-- One escape, hole or character of a template, or its end. -/
theorem reads_templateStep (h : t.Subs m s sub sub') :
    t.Reads m m (Option.Rel t.Parts) (templateStep sub) (templateStep sub') := by
  refine .get fun c hc => ?_
  have hpass {d d' : Cursor} (hd : t.Here m d d') :
      t.Reads m m (Option.Rel t.Parts) (do set d; return some [] : Parser (Option (List Node)))
        (do set d'; return some []) :=
    (reads_set hd).seq <| .ret (.some .nil)
  rw [Cursor.rest_moved]
  split
  · exact reads_failure
  · exact .ret .none
  · refine (reads_require _).seq ?_
    exact hpass ⟨hc.skip _, Cursor.skip_moved _ _ _⟩
  · exact (reads_substitution h).bind fun hhole => .ret (.some hhole.one.parts)
  · exact hpass ⟨hc.skip _, Cursor.skip_moved _ _ _⟩
  · exact hpass ⟨hc.skipWhile _, Cursor.skipWhile_moved _ _ _⟩

/-- A template literal takes its opening backtick first. -/
theorem reads_template_lt (h : t.Subs n s sub sub') :
    t.Reads (n + 1) n t.Fresh (template sub) (template sub') := by
  refine reads_position.bind fun hstart => (reads_literal_lt (by decide)).seq ?_
  refine (reads_many (reads_templateStep h)).bind fun hholes => ?_
  exact (reads_literal _).seq <| reads_node rfl hstart (Copies.flatten hholes)

/-! ## Functions and blocks -/

/-- One statement with the comments behind it, or the end of a block. -/
theorem reads_statementStep {p q : Parser Node} (h : t.Reads m m t.Fresh p q) :
    t.Reads m m (Option.Rel t.Parts) (statementStep p) (statementStep q) := by
  refine .get fun c _ => ?_
  refine .ite (fun _ => .ret .none) fun _ => ?_
  refine h.bind fun hnode => reads_trivia.bind fun hgap => ?_
  exact .ret (.some (hnode.cons hgap))

theorem reads_statements (h : t.Subs m n sub sub') :
    t.Reads n n t.Parts (statements sub) (statements sub') := by
  refine reads_trivia.bind fun hlead => ?_
  refine (reads_many (reads_statementStep (h.statement n le_rfl))).bind fun hbody => ?_
  exact .ret (hlead.append (Copies.flatten hbody))

/-- A block may be followed by an operand or not, as its place demands. -/
theorem reads_block (h : t.Subs m n sub sub') (operand : Bool) :
    t.Reads n n t.Fresh (block sub operand) (block sub' operand) := by
  refine reads_position.bind fun hstart => (reads_literal _).seq ?_
  refine (reads_statements h).bind fun hbody => (reads_literal _).seq ?_
  refine (reads_suppliedSemicolon operand).bind fun hgap => ?_
  exact reads_node rfl hstart (hbody.append hgap)

/-- A block that could also be an object. What counts as an empty block is the same at both places. -/
theorem reads_ambiguousBlock_lt (h : t.Subs m n sub sub') {operand operand' : List Node → Bool}
    (hoperand : ∀ xs ys, t.Parts xs ys → operand' ys = operand xs) :
    t.Reads (n + 1) n t.Fresh (ambiguousBlock sub operand) (ambiguousBlock sub' operand') := by
  refine reads_position.bind fun hstart => (reads_literal_lt (by decide)).seq ?_
  refine reads_trivia.bind fun hlead => ?_
  refine (reads_statementStep (h.opening n le_rfl)).bind @fun first first' hfirst => ?_
  have hopening : t.Parts (first.getD []) (first'.getD []) := by
    cases hfirst with
    | some hnodes => exact hnodes
    | none => exact .nil
  refine (reads_many (reads_statementStep (h.statement n le_rfl))).bind fun hrest => ?_
  have hbody := (hlead.append hopening).append (Copies.flatten hrest)
  refine (reads_literal _).seq ?_
  rw [hoperand _ _ hbody]
  refine (reads_suppliedSemicolon _).bind fun hgap => ?_
  exact reads_node rfl hstart (hbody.append hgap)

/-- The parameters of a function are patterns. -/
theorem reads_parameters (h : t.Subs m s sub sub') :
    t.Reads m m t.Fresh (parameters sub) (parameters sub') := by
  refine reads_position.bind fun hstart => ?_
  refine (Reads.inner fun _ hn => reads_elements_lt (h.mono hn.le le_rfl) (by decide)).bind
    fun hitems => ?_
  rw [hitems.withoutHoles_eq]
  refine (reads_require _).seq ?_
  refine (reads_ofOption (rel_asPatterns? hitems.nodes)).bind fun hpatterns => ?_
  exact reads_node rfl hstart hpatterns

/-- The optional name of a function or class, and the comments behind it. -/
theorem reads_ownName : t.Reads m m (t.Copies NamesByIdentifier)
    (do return (← name .identifier).as .name :: (← trivia) : Parser (List Node))
    (do return (← name .identifier).as .name :: (← trivia)) := by
  refine (Reads.inner fun _ _ => reads_name rfl).bind @fun id id' hid => ?_
  refine reads_trivia.bind fun hgap => .ret ?_
  have hname : t.Copy NamesByIdentifier (id.as .name) (id'.as .name) :=
    ⟨fun _ => hid.1.2.1, (hid.as .name).2⟩
  exact hname.one.join (hgap.mono fun _ hnode => namesByIdentifier_of_field hnode.2 (by decide))

/-- A function or class is sound if the only one of its parts that names it is an identifier. -/
theorem reads_definitionNode {start start' : Nat} {children children' : List Node} {kind : Kind}
    (hkind : isDefinition kind = true) (hstart : t.At start start')
    (hchildren : t.Copies NamesByIdentifier children children') :
    t.Reads m m t.Fresh (node kind start children) (node kind start' children') :=
  reads_node_of hstart hchildren fun _ hmark =>
    proper_of_isDefinition hkind hstart.1 hmark (.inl rfl) fun child hchild =>
      (hchildren.1 child hchild).1

/-- Nodes without a role. -/
abbrev Roleless (t : Suffix) : List Node → List Node → Prop :=
  t.Copies fun node => node.field = none

theorem Copies.roleless {xs ys : List Node} (h : t.Gaps xs ys) : t.Roleless xs ys :=
  h.mono fun _ hnode => hnode.2

/-- Nodes without a role name nothing. -/
theorem Copies.unnamed {xs ys : List Node} (h : t.Roleless xs ys) :
    t.Copies NamesByIdentifier xs ys :=
  h.mono fun _ hfield => namesByIdentifier_of_field hfield (by decide)

/-- A node in a role other than that of a name. -/
theorem Copy.unnamed {P : Node → Prop} {a b : Node} (h : t.Copy P a b) {field : Field}
    (hfield : some field ≠ some .name) :
    t.Copies NamesByIdentifier [a.as field] [b.as field] :=
  ((h.as field).mono fun _ hrole => namesByIdentifier_of_field hrole hfield).one

/-- A function with or without a name of its own. Its name, if it has one, is an identifier. -/
theorem reads_functionLiteral (h : t.Subs n n sub sub') {start start' : Nat}
    {lead lead' : List Node} (hstart : t.At start start') (hlead : t.Roleless lead lead') :
    t.Reads (n + 1) n t.Fresh (functionLiteral sub start lead)
      (functionLiteral sub' start' lead') := by
  refine (reads_keyword_lt (by decide)).seq ?_
  refine reads_trivia.bind fun hgap => .get fun c _ => ?_
  dsimp only
  refine .branch (fun _ => (reads_literal "*").seq reads_trivia)
    (fun _ => .ret .nil) fun hgap' => .get fun d _ => ?_
  refine .branch (fun _ => reads_ownName) (fun _ => .ret .nil) fun hnames => ?_
  refine (reads_parameters h).bind @fun params params' hparams => ?_
  refine reads_trivia.bind fun hgap'' => (reads_block h true).bind fun hbody => ?_
  have hfront := ((hlead.join hgap.roleless).join hgap'.roleless).unnamed
  have hown := hparams.unnamed (show some Field.parameters ≠ some .name by decide)
  refine reads_definitionNode ?_ hstart
    ((((hfront.join hnames).join hown).join hgap''.roleless.unnamed).join hbody.one.unnamed)
  split <;> rfl

/-! ## Names and modifiers -/

theorem reads_computedName (h : t.Subs m s sub sub') :
    t.Reads m m t.Fresh (computedName sub) (computedName sub') := by
  refine reads_position.bind fun hstart => (reads_literal "[").seq ?_
  refine reads_trivia.bind fun hgap => (h.expression m le_rfl _ _).bind fun hinner => ?_
  refine reads_plainTrivia.bind fun hgap' => (reads_literal "]").seq ?_
  exact reads_node rfl hstart ((hgap.append hinner.one).append hgap')

/-- A new node that covers a name, if there is a word at the cursor. -/
def IsKey (c : Cursor) (node : Node) : Prop :=
  node.field = none ∧ (c.seesWord "" = false → isNameKind node.kind = true)

/-- The key of a member. It is a name where no other word or sign stands at the cursor. -/
theorem readsAt_propertyName (h : t.Subs m s sub sub') {c : Cursor} (hc : t.Inside m c) :
    t.ReadsAt c m (t.Copy (IsKey c)) (propertyName sub) (propertyName sub') := by
  -- names other than words do not begin like one
  have hother {p q : Parser Node} (hp : t.Reads m m t.Fresh p q) {first : Char} {text : List Char}
      (hrest : c.rest = first :: text) (hfirst : (first.isDigit || endsWord first) = true) :
      t.Reads m m (t.Copy (IsKey c)) p q := by
    refine hp.mono fun _ _ hnode => hnode.mono fun node hfield => ⟨hfield, ?_⟩
    rw [Cursor.seesWord_empty hrest hfirst]
    exact fun hfalse => (nomatch hfalse)
  have hstring : t.Reads m m t.Fresh string string :=
    .inner fun _ _ => reads_string.mono fun _ _ hnode => hnode.fresh
  have hword : t.Reads m m (t.Copy (IsKey c)) (word .propertyIdentifier)
      (word .propertyIdentifier) := by
    refine .inner fun _ _ => (reads_word rfl).mono fun _ _ hnode => ?_
    refine ⟨⟨hnode.1.1, fun _ => ?_⟩, hnode.2⟩
    rw [hnode.1.2.1]
    rfl
  refine .get ((?_ : t.Reads m m (t.Copy (IsKey c)) _ _) c hc)
  rw [Cursor.rest_moved]
  split
  · next hrest => exact hother (reads_computedName h) hrest (by decide)
  · next hrest => exact hother (.inner fun _ _ => reads_privateName) hrest (by decide)
  · next hrest => exact hother hstring hrest (by decide)
  · next hrest => exact hother hstring hrest (by decide)
  · next first _ _ _ _ _ hrest =>
    refine .ite (fun hnumber => ?_) fun _ => hword
    refine hother (.inner fun _ _ => reads_number) hrest ?_
    rw [Bool.or_eq_true, beq_iff_eq] at hnumber
    rcases hnumber with hdigit | rfl
    · rw [hdigit]
      rfl
    · decide
  · exact reads_failure

/-- A modifier in front of a member, unless the word is the key itself. -/
theorem reads_modifier (inClass : Bool) (text : String) :
    t.Reads m m (Option.Rel t.Gaps) (modifier inClass text) (modifier inClass text) := by
  refine .get fun c hc => ?_
  dsimp only
  refine .ite (fun _ => .ret .none) fun _ => (reads_literal text).seq ?_
  have habsent : t.Reads m m (Option.Rel t.Gaps)
      (do set c; return none : Parser (Option (List Node)))
      (do set (c.moved t.offset); return none) :=
    (reads_set ⟨hc, rfl⟩).seq <| .ret .none
  refine .branch (fun _ => reads_lookaheadPlain)
    (fun _ => reads_peekTrivia.map fun _ _ hnext => .some hnext) ?_
  rintro _ _ (@⟨⟨gap, after⟩, ⟨gap', _⟩, hgap, hafter, rfl⟩ | _)
  · refine .ite (fun _ => habsent) fun _ => ?_
    exact (reads_set ⟨hafter, rfl⟩).seq <| .ret (.some hgap)
  · exact habsent

theorem reads_star : t.Reads m m (Option.Rel t.Gaps) star star := by
  refine .get fun c _ => ?_
  refine .ite (fun _ => ?_) fun _ => .ret .none
  exact (reads_literal "*").seq <| reads_trivia.bind fun hgap => .ret (.some hgap)

/-- What is found at one place is found at the other. -/
theorem isSome_eq_of_rel {α β : Type} {A : α → β → Prop} {x : Option α} {y : Option β}
    (h : Option.Rel A x y) : y.isSome = x.isSome := by
  cases h <;> rfl

theorem getD_of_rel {xs ys : Option (List Node)} {P : Node → Prop}
    (h : Option.Rel (t.Copies P) xs ys) : t.Copies P (xs.getD []) (ys.getD []) := by
  cases h with
  | some hnodes => exact hnodes
  | none => exact .nil

/-- The lists among optional ones, one behind the other. -/
theorem copies_filterMap {P : Node → Prop} {xs ys : List (Option (List Node))}
    (h : List.Forall₂ (Option.Rel (t.Copies P)) xs ys) :
    t.Copies P (xs.filterMap id).flatten (ys.filterMap id).flatten := by
  induction h with
  | nil => exact .nil
  | cons hhead _ ih =>
    cases hhead with
    | some hnodes => exact hnodes.join ih
    | none => exact ih

theorem any_isSome_eq {α β : Type} {A : α → β → Prop} {xs : List (Option α)} {ys : List (Option β)}
    (h : List.Forall₂ (Option.Rel A) xs ys) : ys.any (·.isSome) = xs.any (·.isSome) := by
  induction h with
  | nil => rfl
  | cons hhead _ ih => rw [List.any_cons, List.any_cons, isSome_eq_of_rel hhead, ih]

/-- All modifiers in front of a member, and whether there is one. -/
theorem reads_modifiers (inClass : Bool) :
    t.Reads m m (fun x y => t.Gaps x.1 y.1 ∧ y.2 = x.2) (modifiers inClass) (modifiers inClass) := by
  refine .get fun c hc => ?_
  dsimp only
  refine .branch (fun _ => reads_modifier inClass "static") (fun _ => ?_) @fun lead lead' hlead => ?_
  · refine (reads_set (k := m) ⟨hc.skip _, Cursor.skip_moved _ _ _⟩).seq ?_
    exact reads_trivia.map fun _ _ hgap => .some hgap
  refine (reads_modifier inClass "async").bind @fun first first' hfirst => ?_
  refine reads_star.bind @fun second second' hsecond => ?_
  rw [isSome_eq_of_rel hlead, isSome_eq_of_rel hsecond, ← Option.not_isSome, ← Option.not_isSome,
    isSome_eq_of_rel hfirst]
  refine .branch (fun _ => .ret .none) (fun _ => reads_modifier _ "get") @fun third third' hthird => ?_
  rw [isSome_eq_of_rel hthird]
  refine .branch (fun _ => .ret .none) (fun _ => reads_modifier _ "set") fun hfourth => ?_
  have hparts := List.Forall₂.cons hfirst (.cons hsecond (.cons hthird (.cons hfourth .nil)))
  rw [any_isSome_eq hparts]
  exact .ret ⟨(getD_of_rel hlead).join (copies_filterMap hparts), rfl⟩

/-- A method from its parameters on. -/
theorem reads_methodRest (h : t.Subs n n sub sub') {start start' : Nat} {lead lead' : List Node}
    (hstart : t.At start start') (hlead : t.Parts lead lead') :
    t.Reads n n t.Fresh (methodRest sub start lead) (methodRest sub' start' lead') := by
  refine (reads_parameters h).bind fun hparams => reads_trivia.bind fun hgap => ?_
  refine (reads_block h false).bind fun hbody => ?_
  exact reads_node rfl hstart (((hlead.append (hparams.as _).one).append hgap).append hbody.one)

/-! ## Decorators -/

theorem reads_decoratorStep {left left' : Node} (hleft : t.Fresh left left') :
    t.Reads m m (Option.Rel t.Fresh) (decoratorStep left) (decoratorStep left') := by
  refine .get fun c hc => ?_
  refine reads_plainTrivia.bind fun hgap => .get fun dot _ => ?_
  rw [Cursor.skip_moved]
  refine .ite (fun _ => ?_) fun _ => (reads_set ⟨hc, rfl⟩).seq <| .ret .none
  refine (reads_literal ".").seq <| reads_trivia.bind fun hgap' => ?_
  refine (Reads.inner fun _ _ => reads_name rfl).bind fun hproperty => ?_
  refine (reads_node rfl hleft.at_start
    (((hleft.one.append hgap).append hgap').append hproperty.one)).bind fun hnode => ?_
  exact .ret (.some hnode)

/-- A decorator takes its sign first. -/
theorem reads_decorator_lt (h : t.Subs n s sub sub') :
    t.Reads (n + 1) n t.Fresh (decorator sub) (decorator sub') := by
  refine reads_position.bind fun hstart => (reads_literal_lt (by decide)).seq ?_
  refine reads_trivia.bind fun hgap => ?_
  refine (Reads.inner fun _ _ => reads_name rfl).bind fun hname => ?_
  refine (reads_iterate (fun _ _ => reads_decoratorStep) hname.fresh).bind fun hpath => ?_
  refine .get fun c hc => ?_
  refine reads_plainTrivia.bind fun hgap' => .get fun d _ => ?_
  dsimp only
  refine .branch (fun _ => ?_) (fun _ => (reads_set ⟨hc, rfl⟩).seq <| .ret hpath)
    fun htarget => reads_node rfl hstart (hgap.append htarget.one)
  refine (reads_arguments h).bind fun hargs => ?_
  exact reads_node rfl hpath.at_start (((hpath.as _).one.append hgap').append (hargs.as _).one)

/-- Decorators in front of a class or member have no role of their own. -/
theorem reads_decorators (h : ∀ n < m, t.Subs n s sub sub') :
    t.Reads m m t.Roleless (decorators sub) (decorators sub') := by
  have hstep : t.Reads m m (Option.Rel t.Roleless)
      (do
        if (← get).startsWith "@" then
          let node ← decorator sub
          return some (node :: (← trivia))
        else
          return none : Parser (Option (List Node)))
      (do
        if (← get).startsWith "@" then
          let node ← decorator sub'
          return some (node :: (← trivia))
        else
          return none) := by
    refine .get fun c _ => ?_
    refine .ite (fun _ => ?_) fun _ => .ret .none
    refine (Reads.inner fun n hn => reads_decorator_lt (h n hn)).bind fun hnode => ?_
    exact reads_trivia.bind fun hgap => .ret (.some (hnode.one.join hgap.roleless))
  exact (reads_many hstep).bind fun hparts => .ret (Copies.flatten hparts)

/-! ## Objects -/

/-- A member of an object with a key: a method, a pair, or a name that stands for both. -/
theorem reads_namedMember (h : t.Subs n n sub sub') :
    t.Reads n n t.Fresh (namedMember sub) (namedMember sub') := by
  refine reads_position.bind fun hstart => ?_
  refine (reads_decorators fun _ hn => h.mono hn.le le_rfl).bind @fun marks marks' hmarks => ?_
  refine (reads_modifiers false).bind ?_
  rintro ⟨lead, methodOnly⟩ ⟨lead', _⟩ ⟨hlead, rfl⟩
  intro c hc
  refine .get ((readsAt_propertyName h hc).bind @fun key key' hkey => ?_)
  refine reads_peekTrivia.bind ?_
  rintro ⟨gap, next⟩ ⟨gap', _⟩ ⟨hgap, hnext, rfl⟩
  dsimp only
  refine .ite (fun _ => ?_) fun _ => ?_
  · refine (reads_set ⟨hnext, rfl⟩).seq ?_
    exact reads_methodRest h hstart (((hmarks.append hlead).append (hkey.as _).one).append hgap)
  rw [hmarks.isEmpty_eq]
  refine (reads_require _).seq <| .ite (fun _ => ?_) fun _ => ?_
  · refine (reads_set ⟨hnext, rfl⟩).seq <| (reads_literal ":").seq ?_
    refine reads_trivia.bind fun hgap' => (reads_element h).bind fun hvalue => ?_
    exact reads_node rfl hstart (((hkey.one.append hgap).append hgap').append (hvalue.as _).one)
  refine (reads_require _).bind fun hword => ?_
  have hname : isNameKind key.kind = true := hkey.1.2 (by simpa using hword)
  refine .ite (fun _ => ?_) fun _ => ?_
  · refine (reads_set ⟨hnext, rfl⟩).seq <| (reads_literal "=").seq ?_
    refine reads_trivia.bind fun hgap' => (h.expression n le_rfl _ _).bind fun hvalue => ?_
    have hleft := (hkey.toName hname (show isNameKind .shorthandPropertyIdentifierPattern = true from
      rfl)).as .left
    exact reads_node rfl hstart (((hleft.one.append hgap).append hgap').append hvalue.one)
  · exact .ret ((hkey.toName hname rfl).mono fun _ hfield => hfield.trans hkey.1.1)

/-- A pattern with a default value, which only another pattern may have. -/
theorem reads_patternDefault (h : t.Subs m s sub sub') :
    t.Reads m m t.Fresh (patternDefault sub) (patternDefault sub') := by
  refine (h.expression m le_rfl _ _).bind @fun value value' hvalue => ?_
  rw [hvalue.kind_eq, hvalue.children.any_eq (by simp)]
  refine (reads_require _).bind fun hkind => (reads_require _).seq ?_
  have hnode : isKeyword value.kind = false := by rw [beq_iff_eq.mp hkind]; rfl
  exact .ret ((hvalue.toPlain hnode rfl).mono fun _ hfield => hfield.trans hvalue.1)

/-- A member of an object. In front of a bracket two readings are tried one behind the other. -/
theorem reads_objectMember (h : t.Subs n n sub sub') :
    t.Reads n n t.Fresh (objectMember sub) (objectMember sub') := by
  refine .get fun c _ => ?_
  refine .ite (fun _ => reads_spread h) fun _ => ?_
  refine .ite (fun _ => reads_patternDefault h) fun _ => ?_
  refine .ite (fun _ => ?_) fun _ => reads_namedMember h
  exact (reads_namedMember h).orElse (reads_patternDefault h)

/-- An object takes its opening brace first. -/
theorem reads_object_lt (h : t.Subs n n sub sub') :
    t.Reads (n + 1) n t.Fresh (object sub) (object sub') := by
  refine reads_position.bind fun hstart => ?_
  refine (reads_commaList_lt (P := fun _ => True) (by decide) (reads_objectMember h)
    (fun _ _ => trivial) fun _ _ => trivial).bind fun hitems => ?_
  exact reads_node rfl hstart hitems.nodes

/-- Whether braces hold a single default is tried out without moving, with the same answer at both places. -/
theorem reads_seesLoneDefault (h : ∀ n < m, t.Subs n n sub sub') :
    t.Reads m m (fun x y => y = x) (seesLoneDefault sub) (seesLoneDefault sub') := by
  have htest : t.Reads m m Any
      (do
        literal "\x7b"
        let _ ← trivia
        let member ← objectMember sub
        require (member.kind == .objectAssignmentPattern)
        let _ ← plainTrivia
        literal "\x7d" : Parser Unit)
      (do
        literal "\x7b"
        let _ ← trivia
        let member ← objectMember sub'
        require (member.kind == .objectAssignmentPattern)
        let _ ← plainTrivia
        literal "\x7d") := by
    refine .inner fun n hn => (reads_literal_lt (by decide)).seq ?_
    refine reads_trivia.seq <| (reads_objectMember (h n hn)).bind fun hmember => ?_
    rw [hmember.kind_eq]
    refine (reads_require _).seq <| reads_plainTrivia.seq ?_
    exact reads_literal _
  refine .get fun c hc => ?_
  refine (reads_optional htest le_rfl).bind fun hanswer => ?_
  exact (reads_set ⟨hc, rfl⟩).seq <| .ret (isSome_eq_of_rel hanswer)

/-! ## Classes -/

theorem reads_staticBlock (h : t.Subs n n sub sub') :
    t.Reads n n (Option.Rel t.Fresh) (staticBlock sub) (staticBlock sub') := by
  refine .get fun c hc => ?_
  refine .ite (fun _ => .ret .none) fun _ => (reads_literal "static").seq ?_
  have habsent : t.Reads n n (Option.Rel t.Fresh)
      (do set c; return none : Parser (Option Node))
      (do set (c.moved t.offset); return none) :=
    (reads_set ⟨hc, rfl⟩).seq <| .ret .none
  refine reads_lookaheadPlain.next (fun hgap hnext => ?_) ?_
  · refine .ite (fun _ => ?_) fun _ => habsent
    refine (reads_set ⟨hnext, rfl⟩).seq <| (reads_block h false).bind fun hbody => ?_
    refine (reads_node rfl hc.at (hgap.append hbody.one)).bind fun hnode => ?_
    exact .ret (.some hnode)
  · exact habsent

/-- A member of a class: a method or a field with its semicolon. -/
theorem reads_methodOrField (h : t.Subs n n sub sub') :
    t.Reads n n t.Parts (methodOrField sub) (methodOrField sub') := by
  refine reads_position.bind @fun start start' hstart => ?_
  refine (reads_decorators fun _ hn => h.mono hn.le le_rfl).bind @fun marks marks' hmarks => ?_
  refine (reads_modifiers true).bind ?_
  rintro ⟨lead, methodOnly⟩ ⟨lead', _⟩ ⟨hlead, rfl⟩
  intro c hc
  refine (readsAt_propertyName h hc).bind @fun key key' hkey => ?_
  have hfront := (hmarks.append hlead).append hkey.one
  -- a field ends where a statement would
  have hfield {children children' : List Node} (hchildren : t.Parts children children')
      (operand : Bool) : t.Reads n n t.Parts
      (do
        let field ← node .fieldDefinition start (marks ++ lead ++ [key] ++ children)
        return field :: (← semicolon operand) : Parser (List Node))
      (do
        let field ← node .fieldDefinition start' (marks' ++ lead' ++ [key'] ++ children')
        return field :: (← semicolon operand)) := by
    refine (reads_node rfl hstart (hfront.append hchildren)).bind fun hnode => ?_
    exact (reads_semicolon operand).bind fun hgap => .ret (hnode.cons hgap)
  refine .branch (fun _ => reads_peekTrivia.map fun _ _ hnext => .some hnext)
    (fun _ => reads_lookaheadPlain) ?_
  rintro _ _ (@⟨⟨gap, next⟩, ⟨gap', _⟩, hgap, hnext, rfl⟩ | _)
  · refine .ite (fun _ => ?_) fun _ => (reads_require _).seq <| .ite (fun _ => ?_) fun _ => ?_
    · refine (reads_set ⟨hnext, rfl⟩).seq ?_
      refine (reads_methodRest h hstart
        (((hmarks.append hlead).append (hkey.as _).one).append hgap)).bind fun hmethod => ?_
      exact (reads_noMarkupComment false).seq <| .ret hmethod.one.parts
    · refine (reads_set ⟨hnext, rfl⟩).seq <| (reads_literal "=").seq ?_
      refine reads_trivia.bind fun hgap' => (h.expression n le_rfl _ _).bind fun hvalue => ?_
      exact hfield ((hgap.append hgap').append (hvalue.as _).one) true
    · exact hfield .nil false
  · exact hfield .nil false

/-- The next member of a class, or none in front of the closing brace. -/
theorem reads_classMember (h : t.Subs n n sub sub') :
    t.Reads n n (Option.Rel t.Parts) (classMember sub) (classMember sub') := by
  refine .get fun c _ => ?_
  refine .ite (fun _ => .ret .none) fun _ => .ite (fun _ => ?_) fun _ => ?_
  · refine (reads_literal ";").seq <| reads_trivia.bind fun hgap => ?_
    exact .ret (.some hgap.parts)
  refine (reads_staticBlock h).bind ?_
  rintro _ _ (hblock | _)
  · refine (reads_noMarkupComment false).seq <| reads_trivia.bind fun hgap => ?_
    exact .ret (.some (hblock.cons hgap))
  · refine (reads_methodOrField h).bind fun hnodes => reads_trivia.bind fun hgap => ?_
    exact .ret (.some (hnodes.append hgap))

theorem reads_classBody (h : t.Subs n n sub sub') :
    t.Reads n n t.Fresh (classBody sub) (classBody sub') := by
  refine reads_position.bind fun hstart => (reads_literal _).seq ?_
  refine reads_trivia.bind fun hlead => ?_
  refine (reads_many (reads_classMember h)).bind fun hmembers => ?_
  refine (reads_literal _).seq ?_
  exact reads_node rfl hstart (hlead.append (Copies.flatten hmembers))

/-- What a class extends, if it does. -/
theorem reads_heritage (h : t.Subs m s sub sub') :
    t.Reads m m t.Roleless (heritage sub) (heritage sub') := by
  refine .get fun c _ => ?_
  refine .ite (fun _ => ?_) fun _ => .ret .nil
  refine reads_position.bind fun hstart => (reads_literal _).seq ?_
  refine reads_trivia.bind fun hgap => (h.expression m le_rfl _ _).bind fun hvalue => ?_
  refine (reads_node rfl hstart (hgap.append hvalue.one)).bind fun hclause => ?_
  exact reads_plainTrivia.bind fun hgap' => .ret (hclause.one.join hgap'.roleless)

/-- A class with or without a name of its own. -/
theorem reads_classLiteral (h : t.Subs n n sub sub') {start start' : Nat} {lead lead' : List Node}
    (hstart : t.At start start') (hlead : t.Roleless lead lead') :
    t.Reads (n + 1) n t.Fresh (classLiteral sub start lead) (classLiteral sub' start' lead') := by
  refine (reads_keyword_lt (by decide)).seq ?_
  refine reads_trivia.bind fun hgap => .get fun c _ => ?_
  dsimp only
  refine .branch (fun _ => .ret .nil) (fun _ => reads_ownName) fun hnames => ?_
  refine (reads_heritage h).bind fun hbase => (reads_classBody h).bind fun hbody => ?_
  exact reads_definitionNode rfl hstart ((((hlead.join hgap.roleless).unnamed.join hnames).join
    hbase.unnamed).join hbody.one.unnamed)

end NotebookCell.Script.Suffix
