import NotebookCell.Proofs.Reading.Expression
import NotebookCell.Script.Grammar.Module

/-!
# Declarations and imports at two places

Declarations of variables, functions and classes, imports and exports. A statement of this kind may
begin with an expression, so the entry points have to agree on expressions of its own length; on
statements they have to agree only behind its first character (`m ≤ s + 1`).

An import statement is also the one construct whose parts are promised in full (`IsImport`).
-/

namespace NotebookCell.Script.Suffix

open NotebookCell.Tree NotebookCell.Script.Parser

variable {t : Suffix} {m n s : Nat} {sub sub' : Parsers}

/-! ## Variables -/

/-- The target of a declaration is a name or a pattern. -/
theorem reads_binding (h : t.Subs m s sub sub') :
    t.Reads m m t.Fresh (binding sub) (binding sub') := by
  refine .get fun c _ => ?_
  refine .ite (fun _ => reads_destructuring h) fun _ => .inner fun _ _ => ?_
  exact (reads_name rfl).mono fun _ _ hid => hid.fresh

/-- One variable of a declaration. Whether the statement ends behind it is part of the result. -/
theorem reads_declarator (h : t.Subs m s sub sub') :
    t.Reads m m (fun x y => t.Fresh x.1 y.1 ∧ y.2 = x.2) (declarator sub) (declarator sub') := by
  refine (reads_binding h).bind @fun target target' htarget => ?_
  have hbare : t.Reads m m (fun x y => t.Fresh x.1 y.1 ∧ y.2 = x.2)
      (do return (← node .variableDeclarator target.start [target.as .name], false))
      (do return (← node .variableDeclarator target'.start [target'.as .name], false)) :=
    (reads_node rfl htarget.at_start (htarget.as .name).one).bind fun hnode => .ret ⟨hnode, rfl⟩
  refine reads_lookaheadPlain.next (fun hgap hc => ?_) ?_
  · refine .ite (fun _ => ?_) fun _ => hbare
    refine (reads_set ⟨hc, rfl⟩).seq <| (reads_literal "=").seq ?_
    refine reads_trivia.bind fun hgap' => (h.expression m le_rfl _ _).bind fun hvalue => ?_
    refine (reads_node rfl htarget.at_start ((((htarget.as .name).one.append hgap).append
      hgap').append (hvalue.as .value).one)).bind fun hnode => ?_
    exact .ret ⟨hnode, rfl⟩
  · exact hbare

/-- The next variable behind a comma, unless the statement has ended. -/
theorem reads_declaratorStep (h : t.Subs m s sub sub') {before before' : List Node × Bool}
    (hbefore : t.Parts before.1 before'.1 ∧ before'.2 = before.2) :
    t.Reads m m (Option.Rel fun x y => t.Parts x.1 y.1 ∧ y.2 = x.2) (declaratorStep sub before)
      (declaratorStep sub' before') := by
  unfold declaratorStep
  rw [hbefore.2]
  refine .branch (fun _ => reads_lookahead true) (fun _ => reads_lookaheadPlain) ?_
  rintro _ _ (@⟨⟨gap, c⟩, ⟨gap', _⟩, hgap, hc, rfl⟩ | _)
  · refine .ite (fun _ => ?_) fun _ => .ret .none
    refine (reads_set ⟨hc, rfl⟩).seq <| (reads_literal ",").seq ?_
    refine reads_trivia.bind fun hgap' => (reads_declarator h).bind ?_
    rintro ⟨next, _⟩ ⟨next', valued⟩ ⟨hnext, rfl⟩
    exact .ret (.some ⟨((hbefore.1.append hgap).append hgap').append hnext.one, rfl⟩)
  · exact .ret .none

/-- All variables of a declaration up to its end. -/
theorem reads_declarators (h : t.Subs m s sub sub') {kind : Kind} (hkind : isPlain kind = true)
    {start start' : Nat} {lead lead' : List Node} (hstart : t.At start start')
    (hlead : t.Gaps lead lead') :
    t.Reads m m t.Fresh (declarators sub kind start lead) (declarators sub' kind start' lead') := by
  refine reads_trivia.bind fun hgap => (reads_declarator h).bind ?_
  rintro ⟨first, _⟩ ⟨first', valued⟩ ⟨hfirst, rfl⟩
  refine (reads_iterate (A := fun x y => t.Parts x.1 y.1 ∧ y.2 = x.2)
    (fun _ _ => reads_declaratorStep h) ⟨hfirst.one.parts, rfl⟩).bind ?_
  rintro ⟨list, _⟩ ⟨list', valued⟩ ⟨hlist, rfl⟩
  refine (reads_semicolon valued).bind fun hgap' => ?_
  exact reads_node hkind hstart (((hlead.append hgap).append hlist).append hgap')

/-- A declaration of variables from its keyword on. -/
theorem reads_declareVariables (h : t.Subs m s sub sub') {kind : Kind} (hkind : isPlain kind = true)
    (text : String) :
    t.Reads m m t.Fresh (declareVariables sub kind text) (declareVariables sub' kind text) := by
  refine reads_position.bind fun hstart => (reads_keyword text).seq ?_
  exact reads_declarators h hkind hstart .nil

/-- The next token behind some characters is the same one. -/
theorem Inside.nextToken {c : Cursor} (h : t.Inside m c) (n : Nat) (ends : Cursor → Bool)
    (hends : ∀ c, ends (c.moved t.offset) = ends c) :
    Option.Rel (t.Next m) ((c.skip n).nextToken? ends (c.skip n).rest)
      (((c.moved t.offset).skip n).nextToken? ends ((c.moved t.offset).skip n).rest) := by
  rw [Cursor.skip_moved]
  exact rel_nextToken? hends _ (h.skip n)

/-- Whether `let` is a keyword depends on the token behind it alone. -/
theorem reads_letDeclares : t.Reads m m (fun x y => y = x) letDeclares letDeclares := by
  refine .get fun c hc => ?_
  dsimp only
  refine rel_elim (hc.nextToken 3 (·.endsStatement true) fun _ => rfl) (.ret rfl) ?_
  rintro ⟨gap, d⟩ ⟨gap', _⟩ ⟨-, -, rfl⟩
  exact .ret rfl

/-- Whether `await` begins a declaration depends on the words behind it alone. -/
theorem reads_awaitDeclares : t.Reads m m (fun x y => y = x) awaitDeclares awaitDeclares := by
  refine .get fun c hc => ?_
  dsimp only
  refine rel_elim (hc.nextToken 5 (·.endsStatement true) fun _ => rfl) (.ret rfl) ?_
  rintro ⟨gap, d⟩ ⟨gap', _⟩ ⟨-, -, rfl⟩
  exact .ret rfl

/-- A declaration of resources that are awaited. -/
theorem reads_awaitUsing (h : t.Subs m s sub sub') :
    t.Reads m m t.Fresh (awaitUsing sub) (awaitUsing sub') := by
  refine reads_position.bind fun hstart => (reads_keyword "await").seq ?_
  refine reads_trivia.bind fun hgap => (reads_keyword "using").seq ?_
  exact reads_declarators h rfl hstart hgap

/-! ## Functions and classes -/

/-- A function or a class with its decorators. -/
theorem reads_definition (h : t.Subs m s sub sub') (hs : m ≤ s + 1) :
    t.Reads m m t.Fresh (definition sub) (definition sub') := by
  have hlt {n : Nat} (hn : n < m) : t.Subs n n sub sub' := h.mono hn.le (by omega)
  refine reads_position.bind fun hstart => ?_
  refine (reads_decorators fun n hn => h.mono hn.le le_rfl).bind fun hlead => .get fun c _ => ?_
  refine .ite (fun _ => ?_) fun _ => .ite (fun _ => ?_) fun _ => ?_
  · refine (reads_keyword "async").seq <| reads_plainTrivia.bind fun hgap => ?_
    exact .inner fun _ hn => reads_functionLiteral (hlt hn) hstart (hlead.join hgap.roleless)
  · exact .inner fun _ hn => reads_functionLiteral (hlt hn) hstart hlead
  · exact .inner fun _ hn => reads_classLiteral (hlt hn) hstart hlead

/-- Whether a definition is a statement of its own depends on its kind, its name and what is behind it.
-/
theorem reads_standsAlone {a b : Node} (h : t.Fresh a b) :
    t.Reads m m (fun x y => y = x) (standsAlone a) (standsAlone b) := by
  have hname : (b.child? .name).isNone = (a.child? .name).isNone := by
    rw [h.2.2, Node.child?_moved, Option.isNone_map]
  unfold standsAlone
  rw [hname]
  refine .ite (fun _ => .ret rfl) fun _ => (reads_lookahead true).next (fun _ _ => ?_) ?_
  · exact .ret rfl
  · exact .ret rfl

/-- An expression that becomes a declaration was and is a definition. -/
theorem isDefinition_of_declarationKind? {kind kind' : Kind} (h : declarationKind? kind = some kind') :
    isDefinition kind = true ∧ isDefinition kind' = true := by
  rw [declarationKind?.eq_def] at h
  split at h <;> cases h <;> exact ⟨rfl, rfl⟩

/-- A definition as a statement, or else an expression that goes on behind it. -/
theorem reads_definitionOr (h : t.Subs m s sub sub') (hs : m ≤ s + 1)
    {continued continued' : Node → Parser Node}
    (hcontinued : ∀ {a b}, t.Fresh a b → t.Reads m m t.Fresh (continued a) (continued' b)) :
    t.Reads m m t.Fresh (definitionOr sub continued) (definitionOr sub' continued') := by
  refine (reads_definition h hs).bind @fun a b hliteral => (reads_standsAlone hliteral).bind ?_
  rintro alone _ rfl
  dsimp only
  rw [hliteral.kind_eq]
  split
  · next kind hkind =>
    have hkinds : isDefinition a.kind = true ∧ isDefinition kind = true := by
      split at hkind
      · exact isDefinition_of_declarationKind? hkind
      · cases hkind
    refine (reads_suppliedSemicolon true).bind fun hgap => ?_
    refine (reads_noMarkupComment true).seq ?_
    -- the parts of a declaration are those of the literal
    have hnames := names_of_isDefinition hliteral.2.1.proper hkinds.1
    have hparts : t.Copies NamesByIdentifier a.children b.children :=
      ⟨fun child hchild => ⟨hnames child hchild, hliteral.2.1.children child hchild⟩,
        hliteral.children.2⟩
    exact reads_definitionNode hkinds.2 hliteral.at_start (hparts.join hgap.roleless.unnamed)
  · exact (reads_continueFrom h _ _ hliteral).bind hcontinued

theorem reads_seesDefinition : t.Reads m m (fun x y => y = x) seesDefinition seesDefinition := by
  refine .get fun c hc => ?_
  refine .ite (fun _ => .ret rfl) fun _ => .ite (fun _ => ?_) fun _ => .ret rfl
  dsimp only
  refine rel_elim (hc.nextToken 5 (·.endsStatement true) fun _ => rfl) (.ret rfl) ?_
  rintro ⟨gap, d⟩ ⟨gap', _⟩ ⟨-, -, rfl⟩
  exact .ret rfl

/-- Declarations of every kind, by their first word. -/
theorem reads_declaration (h : t.Subs m s sub sub') (hs : m ≤ s + 1) :
    t.Reads m m t.Fresh (declaration sub) (declaration sub') := by
  refine .get fun c _ => ?_
  rw [Cursor.word_moved]
  split
  · exact reads_declareVariables h rfl _
  · exact reads_declareVariables h rfl _
  · exact reads_declareVariables h rfl _
  · exact reads_declareVariables h rfl _
  · exact reads_awaitUsing h
  · exact reads_definitionOr h hs fun _ => reads_failure

/-! ## Lists of names -/

/-- The names between the braces of an import or export, each with the properties of its parts. -/
theorem reads_specifiers {P Q : Node → Prop} {kind : Kind} (hkind : isPlain kind = true)
    {specifier specifier' : Parser Node} (h : ∀ n, t.Reads n n (t.Copy Q) specifier specifier')
    (hgap : ∀ a, IsGap a → P a) (hspecifier : ∀ a, Q a → P a) :
    t.Reads m m (t.Copy fun node => node.kind = kind ∧ node.named = true ∧ node.field = none ∧
        ∀ child ∈ node.children, P child)
      (specifiers kind specifier) (specifiers kind specifier') := by
  refine reads_position.bind fun hstart => ?_
  refine (Reads.inner fun n _ => reads_commaList_lt (by decide) (h n) hgap hspecifier).bind
    @fun items items' hitems => ?_
  dsimp only
  rw [hitems.withoutHoles_eq, hitems.any_isNone_eq, hitems.elements, List.length_map]
  refine (reads_require _).seq ?_
  refine (reads_built hkind hstart hitems.nodes).mono fun _ _ hnode => hnode.mono ?_
  rintro node ⟨hnode, hnamed, hfield, hchildren⟩
  refine ⟨hnode, hnamed, hfield, fun child hchild => ?_⟩
  rw [hchildren] at hchild
  exact (hitems.nodes.1 child hchild).1

/-- A word that is seen is the beginning of the text. -/
theorem rest_of_seesWord {c : Cursor} {text : String} (h : c.seesWord text = true) :
    c.rest = text.toList ++ c.rest.drop text.length := by
  have hword : c.rest.take (wordLength c.rest) = text.toList := by
    have hword : c.word = text := by simpa [Cursor.seesWord] using h
    rw [← hword, Cursor.word, String.toList_ofList]
  have hlength : text.length = wordLength c.rest := by
    rw [← String.length_toList, ← hword, List.length_take, Nat.min_eq_left (wordLength_le _)]
  rw [← hword, hlength, List.take_append_drop]

/-- The word at the cursor can be read as a keyword. -/
theorem keyword_of_seesWord {c : Cursor} {text : String} (h : c.seesWord text = true) :
    keyword text c = some ((), c.skip text.length) := by
  have hstarts : c.startsWith text = true := by
    rw [Cursor.startsWith, List.isPrefixOf_iff_prefix]
    exact ⟨_, (rest_of_seesWord h).symm⟩
  have hliteral : literal text c = some ((), c.skip text.length) := by
    show (require (c.startsWith text) >>= fun _ => set (c.skip text.length)) c = _
    rw [hstarts]
    rfl
  show (require (c.seesWord text) >>= fun _ => literal text) c = _
  rw [h]
  exact hliteral

/-- The word `default` as a node. -/
theorem readsAt_defaultWord {c : Cursor} (hc : t.Inside m c) (hsees : c.seesWord "default" = true) :
    t.ReadsAt c m (t.Copy fun node => node.field = none ∧ IsExportedName t.text node)
      (do
        keyword "default"
        let word ← node (.token "default") c.pos []
        return { word with named := false })
      (do
        keyword "default"
        let word ← node (.token "default") (c.moved t.offset).pos []
        return { word with named := false }) := by
  have hword : Lexeme (fun lexeme _ => lexeme = "default".toList) t.text
      { kind := .token "default", start := c.pos, stop := (c.skip 7).pos } := by
    refine hc.lexeme ?_ _
    rw [rest_of_seesWord hsees, List.take_append_of_le_length (by decide)]
    rfl
  have hnode : t.Fresh { kind := .token "default", start := c.pos, stop := (c.skip 7).pos }
      { kind := .token "default", start := (c.moved t.offset).pos
        stop := ((c.skip 7).moved t.offset).pos } :=
    copy_node rfl hc.at (hc.skip 7).at (.nil (P := fun _ => True))
  show Option.Rel _ ((keyword "default" c).bind _) ((keyword "default" (c.moved t.offset)).bind _)
  rw [keyword_of_seesWord hsees, keyword_of_seesWord (c := c.moved t.offset) hsees,
    Cursor.skip_moved]
  refine .some ⟨⟨⟨rfl, .inr (.inr ⟨rfl, hword⟩)⟩, (hnode.anonymous rfl rfl).2⟩, hc.skip 7, rfl⟩

/-- An exported name is a word, a string or `default`, and covers it. -/
theorem reads_exportedName :
    t.Reads m m (t.Copy fun node => node.field = none ∧ IsExportedName t.text node) exportedName
      exportedName := by
  intro c hc
  refine .get ?_
  rw [Cursor.startsWith_moved, Cursor.startsWith_moved, Cursor.seesWord_moved]
  split
  · refine (Reads.inner fun _ _ => reads_string.mono ?_) c hc
    rintro _ _ ⟨⟨hfield, hkind, -, hstring⟩, hcopy⟩
    exact ⟨⟨hfield, .inr (.inl ⟨hkind, hstring⟩)⟩, hcopy⟩
  · split
    · next hsees => exact readsAt_defaultWord hc hsees
    · refine (Reads.inner fun _ _ => (reads_name rfl).mono ?_) c hc
      rintro _ _ ⟨⟨hfield, hkind, -, hword⟩, hcopy⟩
      exact ⟨⟨hfield, .inl ⟨hkind, hword⟩⟩, hcopy⟩

/-- Comments, and a node with a given property behind them. -/
def Behind (t : Suffix) (P : Node → Prop) (xs ys : List Node) : Prop :=
  t.Parts xs ys ∧ ∃ gap last, xs = gap ++ [last] ∧ (∀ remark ∈ gap, IsGap remark) ∧ P last

/-- A node and the comments in front of it. -/
theorem Copy.behind {P : Node → Prop} {a b : Node} {xs ys : List Node} (h : t.Copy P a b)
    (hgap : t.Gaps xs ys) : t.Behind P (xs ++ [a]) (ys ++ [b]) :=
  ⟨hgap.append h.one, xs, a, rfl, fun remark hremark => (hgap.1 remark hremark).1, h.1⟩

/-- The name behind `as`, if there is one. -/
theorem reads_renamed {P : Node → Prop} {target target' : Parser Node}
    (h : t.Reads m m (t.Copy P) target target') :
    t.Reads m m (Option.Rel (t.Behind P)) (renamed target) (renamed target') := by
  refine .get fun c hc => ?_
  refine reads_trivia.bind fun hgap => .get fun d _ => ?_
  refine .ite (fun _ => ?_) fun _ => (reads_set ⟨hc, rfl⟩).seq <| .ret .none
  refine (reads_keyword "as").seq <| reads_trivia.bind fun hgap' => ?_
  exact h.bind fun htarget => .ret (.some (htarget.behind (hgap.join hgap')))

theorem reads_exportSpecifier : t.Reads m m t.Fresh exportSpecifier exportSpecifier := by
  refine reads_position.bind fun hstart => reads_exportedName.bind fun hexported => ?_
  have htarget : t.Reads m m (t.Copy fun node => node.field = some .localName)
      (do return (← exportedName).as .localName : Parser Node)
      (do return (← exportedName).as .localName) :=
    reads_exportedName.bind fun hname => .ret (hname.as .localName)
  refine (reads_renamed htarget).bind ?_
  rintro _ _ (hnewName | _)
  · exact reads_node rfl hstart ((hexported.as .name).cons hnewName.1)
  · exact reads_node rfl hstart ((hexported.as .name).cons (.nil (P := fun _ => True)))

/-- A local name is an identifier that covers a whole word. -/
theorem reads_localName :
    t.Reads m m (t.Copy fun node => node.field = none ∧ IsLocalName t.text node)
      (name .identifier) (name .identifier) := by
  refine .inner fun _ _ => (reads_name rfl).mono fun _ _ hid => hid.mono ?_
  rintro node ⟨hfield, hkind, hnamed, hword⟩
  exact ⟨hfield, hkind, hnamed, hword⟩

/-- An import specifier keeps the promise of its parts. -/
theorem reads_importSpecifier :
    t.Reads m m (t.Copy (IsSpecifier t.text)) importSpecifier importSpecifier := by
  refine reads_position.bind fun hstart => reads_exportedName.bind @fun imported _ himported => ?_
  have htarget : t.Reads m m
      (t.Copy fun node => node.field = some .localName ∧ IsLocalName t.text node)
      (do return (← name .identifier).as .localName : Parser Node)
      (do return (← name .identifier).as .localName) :=
    reads_localName.bind fun hid => .ret ⟨⟨rfl, hid.1.2⟩, (hid.as .localName).2⟩
  refine (reads_renamed htarget).bind ?_
  rintro _ _ (@⟨xs, ys, hparts, gap, id, rfl, hgap, hfield, hid⟩ | _)
  · refine (reads_require _).seq ?_
    refine (reads_built rfl hstart ((himported.as .name).cons hparts)).mono fun _ _ hnode =>
      hnode.mono ?_
    rintro node ⟨hkind, hnamed, hnone, hchildren⟩
    exact ⟨hkind, hnamed, hnone, _, _, hchildren, rfl, himported.1.2,
      .inr ⟨gap, id, rfl, hgap, hfield, hid⟩⟩
  · rw [himported.kind_eq]
    refine (reads_require _).bind fun hidentifier => ?_
    refine (reads_built rfl hstart ((himported.as .name).cons (.nil (P := fun _ => True)))).mono
      fun _ _ hnode => hnode.mono ?_
    rintro node ⟨hkind, hnamed, hnone, hchildren⟩
    have hkind' : imported.kind = .identifier := by simpa using hidentifier
    exact ⟨hkind, hnamed, hnone, _, _, hchildren, rfl, himported.1.2, .inl ⟨rfl, hkind'⟩⟩

/-- The name of a module. -/
def IsSource (text : List Char) (node : Node) : Prop :=
  node.kind = .string ∧ node.field = some .source ∧ StringAt text node

/-- The module of a declaration is a string. -/
theorem reads_source :
    t.Reads m m (fun x y => t.Copy (IsSource t.text) (x.as .source) (y.as .source)) string string := by
  refine .inner fun _ _ => reads_string.mono fun _ _ hstring => ?_
  exact ⟨⟨hstring.1.2.1, rfl, hstring.1.2.2.2⟩, (hstring.as .source).2⟩

/-- The module behind `from`. -/
theorem reads_fromClause : t.Reads m m (t.Behind (IsSource t.text)) fromClause fromClause := by
  refine reads_trivia.bind fun hgap => (reads_keyword "from").seq ?_
  refine reads_trivia.bind fun hgap' => reads_source.bind fun hsource => ?_
  exact .ret (hsource.behind (hgap.join hgap'))

/-! ## Imports -/

/-- All of a module under one name. -/
theorem reads_namespaceImport :
    t.Reads m m (t.Copy (IsImportedNames t.text)) namespaceImport namespaceImport := by
  refine reads_position.bind fun hstart => (reads_literal "*").seq ?_
  refine reads_trivia.bind fun hgap => (reads_keyword "as").seq ?_
  refine reads_trivia.bind fun hgap' => reads_localName.bind @fun id _ hid => ?_
  have hgaps := hgap.join hgap'
  refine (reads_built rfl hstart (hgaps.append hid.one)).mono fun _ _ hnode => hnode.mono ?_
  rintro node ⟨hkind, hnamed, hnone, hchildren⟩
  exact ⟨hnamed, hnone, .inl ⟨hkind, _, id, hchildren,
    fun remark hremark => (hgaps.1 remark hremark).1, hid.1.1, hid.1.2⟩⟩

theorem reads_importedNames :
    t.Reads m m (t.Copy (IsImportedNames t.text)) importedNames importedNames := by
  refine .get fun c _ => ?_
  refine .ite (fun _ => reads_namespaceImport) fun _ => ?_
  refine (reads_specifiers (P := fun child => IsGap child ∨ IsSpecifier t.text child) rfl
    (fun _ => reads_importSpecifier) (fun _ => .inl) fun _ => .inr).mono fun _ _ hnode => hnode.mono ?_
  rintro node ⟨hkind, hnamed, hnone, hchildren⟩
  exact ⟨hnamed, hnone, .inr ⟨hkind, hchildren⟩⟩

/-- An import clause keeps the promise of its parts, in each of its three forms. -/
theorem reads_importClause :
    t.Reads m m (t.Copy (IsImportClause t.text)) importClause importClause := by
  refine reads_position.bind fun hstart => .get fun c _ => ?_
  refine .ite (fun _ => ?_) fun _ => ?_
  · refine reads_importedNames.bind @fun names _ hnames => ?_
    refine (reads_built rfl hstart hnames.one).mono fun _ _ hnode => hnode.mono ?_
    rintro node ⟨hkind, hnamed, hnone, hchildren⟩
    exact ⟨hkind, hnamed, hnone, .inl ⟨names, hchildren, hnames.1⟩⟩
  · refine reads_localName.bind @fun id _ hid => .get fun d hd => ?_
    refine reads_trivia.bind @fun gap _ hgap => .get fun e _ => ?_
    refine .ite (fun _ => ?_) fun _ => (reads_set ⟨hd, rfl⟩).seq ?_
    · refine (reads_literal ",").seq <| reads_trivia.bind @fun gap' _ hgap' => ?_
      refine reads_importedNames.bind @fun names _ hnames => ?_
      have hgaps := hgap.join hgap'
      refine (reads_built rfl hstart (((hid.one.append hgap).append hgap').append hnames.one)).mono
        fun _ _ hnode => hnode.mono ?_
      rintro node ⟨hkind, hnamed, hnone, hchildren⟩
      refine ⟨hkind, hnamed, hnone, .inr (.inr ⟨id, gap ++ gap', names, ?_, hid.1.1, hid.1.2,
        fun remark hremark => (hgaps.1 remark hremark).1, hnames.1⟩)⟩
      rw [hchildren, List.append_assoc [id]]
    · refine (reads_built rfl hstart hid.one).mono fun _ _ hnode => hnode.mono ?_
      rintro node ⟨hkind, hnamed, hnone, hchildren⟩
      exact ⟨hkind, hnamed, hnone, .inr (.inl ⟨id, hchildren, hid.1⟩)⟩

theorem ne_importClause_of_isGap {node : Node} (h : IsGap node) : node.kind ≠ .importClause := by
  intro hkind
  have hremark := h.1
  rw [Node.isRemark, hkind] at hremark
  cases hremark

/-- No import clause is among the attributes of a module. -/
theorem reads_importAttributes (h : t.Subs m s sub sub') (hs : m ≤ s + 1) :
    t.Reads m m (t.Copies fun node => node.kind ≠ .importClause) (importAttributes sub)
      (importAttributes sub') := by
  refine reads_lookaheadPlain.next (@fun gap _ _ hgap hc => ?_) ?_
  · refine .ite (fun _ => ?_) fun _ => .ret .nil
    refine (reads_set ⟨hc, rfl⟩).seq <| (reads_keyword "with").seq ?_
    refine reads_trivia.bind fun hgap' => ?_
    refine (Reads.inner fun n hn => reads_object_lt (h.mono hn.le (by omega))).bind
      fun hvalue => ?_
    refine (reads_built rfl hc.at (hgap'.append hvalue.one)).bind @fun clause _ hclause => .ret ?_
    refine (hgap.mono ?_).join (hclause.mono ?_).one
    · exact fun _ => ne_importClause_of_isGap
    · rintro node ⟨hkind, -⟩ hclauseKind
      cases hkind.symm.trans hclauseKind
  · exact .ret .nil

/-- What an import statement imports and from where. -/
def IsOrigin (text : List Char) (nodes : List Node) : Prop :=
  ∃ clause source, nodes = clause ++ [source] ∧
    (clause = [] ∨ ∃ part gap, clause = part :: gap ∧ IsImportClause text part ∧
      ∀ remark ∈ gap, IsGap remark) ∧ IsSource text source

/-- An import statement keeps its whole promise (`IsImport`). -/
theorem reads_importStatement (h : t.Subs m s sub sub') (hs : m ≤ s + 1) :
    t.Reads m m t.Fresh (importStatement sub) (importStatement sub') := by
  refine reads_position.bind @fun start start' hstart => (reads_keyword "import").seq ?_
  refine reads_trivia.bind @fun gap gap' hgap => .get fun c _ => ?_
  have hrest : ∀ {xs ys}, t.Parts xs ys ∧ IsOrigin t.text xs → t.Reads m m t.Fresh
      (do
        let attributes ← importAttributes sub
        let trail ← semicolon false
        node .importStatement start (gap ++ xs ++ attributes ++ trail))
      (do
        let attributes ← importAttributes sub'
        let trail ← semicolon false
        node .importStatement start' (gap' ++ ys ++ attributes ++ trail)) := by
    rintro _ _ ⟨hparts, clause, source, rfl, hclause, hkind, hfield, hstring⟩
    refine (reads_importAttributes h hs).bind @fun attributes _ hattributes => ?_
    refine (reads_semicolon false).bind @fun trail _ htrail => ?_
    refine reads_node_of hstart (((hgap.append hparts).append hattributes).append htrail)
      fun _ hmark => ⟨hstart.1, hmark, .inl rfl, gap, clause, source, attributes ++ trail, ?_, ?_,
        hclause, hkind, hfield, hstring, ?_⟩
    · simp only [List.append_assoc]
    · exact fun remark hremark => (hgap.1 remark hremark).1
    · intro other hother
      rcases List.mem_append.mp hother with hother | hother
      · exact (hattributes.1 other hother).1
      · exact ne_importClause_of_isGap (htrail.1 other hother).1
  refine .ite (fun _ => ?_) fun _ => ?_
  · refine reads_source.bind @fun source _ hsource => (Reads.ret ⟨hsource.one.parts, ?_⟩).bind hrest
    exact ⟨[], source.as .source, rfl, .inl rfl, hsource.1⟩
  · refine reads_importClause.bind @fun clause _ hclause => reads_fromClause.bind ?_
    rintro _ _ ⟨hparts, gap, source, rfl, hgap, hsource⟩
    refine (Reads.ret ⟨hclause.cons hparts, clause :: gap, source, rfl, .inr ?_, hsource⟩).bind hrest
    exact ⟨clause, gap, rfl, hclause.1, hgap⟩

/-! ## Exports -/

/-- All names of another module, perhaps under one name. -/
theorem reads_exportAll : t.Reads m m t.Parts exportAll exportAll := by
  refine reads_position.bind fun hstart => (reads_literal "*").seq <| .get fun c hc => ?_
  refine (reads_renamed reads_exportedName).bind ?_
  rintro _ _ (hnodes | _)
  · refine (reads_node rfl hstart hnodes.1).bind fun hall => ?_
    exact reads_fromClause.bind fun hfrom => .ret (hall.cons hfrom.1)
  · exact (reads_set ⟨hc, rfl⟩).seq <| reads_fromClause.mono fun _ _ hfrom => hfrom.1

theorem reads_exportList : t.Reads m m t.Parts exportList exportList := by
  refine (reads_specifiers (P := fun _ => True) rfl (fun _ => reads_exportSpecifier)
    (fun _ _ => trivial) fun _ _ => trivial).bind fun hnames => reads_lookaheadPlain.next (fun _ _ => ?_) ?_
  · refine .ite (fun _ => ?_) fun _ => .ret hnames.one.parts
    exact reads_fromClause.bind fun hfrom => .ret (hnames.cons hfrom.1)
  · exact .ret hnames.one.parts

theorem reads_exportDefault (h : t.Subs m s sub sub') (hs : m ≤ s + 1) :
    t.Reads m m t.Parts (exportDefault sub) (exportDefault sub') := by
  have hfinish : ∀ {first first'}, t.Fresh first first' → t.Reads m m t.Fresh
      (do
        let gap ← semicolon true
        node .exportStatement first.start (first :: gap))
      (do
        let gap ← semicolon true
        node .exportStatement first'.start (first' :: gap)) := fun hfirst =>
    (reads_semicolon true).bind fun hgap => reads_node rfl hfirst.at_start (hfirst.cons hgap)
  have hrest (declares : Bool) : t.Reads m m t.Parts
      (if declares = true then do return [← declaration sub]
        else do
          let value ← sub.expression Level.lowest true
          return value :: (← semicolon true))
      (if declares = true then do return [← declaration sub']
        else do
          let value ← sub'.expression Level.lowest true
          return value :: (← semicolon true)) := by
    refine .ite (fun _ => ?_) fun _ => (h.expression m le_rfl _ _).bind fun hvalue => ?_
    · exact (reads_declaration h hs).bind fun hnode => .ret hnode.one.parts
    · exact (reads_semicolon true).bind fun hgap => .ret (hvalue.cons hgap)
  refine .get fun c _ => ?_
  refine reads_seesDefinition.bind ?_
  rintro _ defines rfl
  refine .ite (fun _ => ?_) fun _ => ?_
  · refine (reads_definitionOr h hs hfinish).bind fun hvalue => .ret ?_
    rw [hvalue.kind_eq]
    split
    · exact hvalue.children
    · exact hvalue.one.parts
  · rw [Cursor.word_moved]
    split
    case h_1 | h_2 | h_3 | h_6 =>
      exact (Reads.ret rfl).bind @fun _ declares heq => heq ▸ hrest declares
    case h_4 => exact reads_letDeclares.bind @fun _ declares heq => heq ▸ hrest declares
    case h_5 => exact reads_awaitDeclares.bind @fun _ declares heq => heq ▸ hrest declares

/-- An export of any form, with what stands in front of it. -/
theorem reads_exportStatement (h : t.Subs m s sub sub') (hs : m ≤ s + 1) {start start' : Nat}
    {lead lead' : List Node} (hstart : t.At start start') (hlead : t.Roleless lead lead') :
    t.Reads m m t.Fresh (exportStatement sub start lead) (exportStatement sub' start' lead') := by
  refine (reads_keyword "export").seq ?_
  refine reads_trivia.bind @fun gap gap' hgap => .get fun c _ => ?_
  rw [hlead.isEmpty_eq]
  refine (reads_require _).seq ?_
  have hrest : ∀ {xs ys}, t.Parts xs ys → t.Reads m m t.Fresh
      (node .exportStatement start (lead ++ gap ++ xs))
      (node .exportStatement start' (lead' ++ gap' ++ ys)) := fun hwhat =>
    reads_node rfl hstart ((hlead.append hgap).append hwhat)
  refine .ite (fun _ => ?_) fun _ => .ite (fun _ => ?_) fun _ => .ite (fun _ => ?_) fun _ => ?_
  · refine reads_exportAll.bind fun hall => (reads_semicolon false).bind fun htrail => ?_
    exact (Reads.ret (hall.append htrail)).bind hrest
  · refine reads_exportList.bind fun hlist => (reads_semicolon false).bind fun htrail => ?_
    exact (Reads.ret (hlist.append htrail)).bind hrest
  · refine (reads_keyword "default").seq <| reads_trivia.bind fun hfront => ?_
    refine (reads_exportDefault h hs).bind fun hvalue => ?_
    exact (Reads.ret (hfront.append hvalue)).bind hrest
  · refine (reads_declaration h hs).bind fun hnode => ?_
    exact (Reads.ret hnode.one.parts).bind hrest

end NotebookCell.Script.Suffix
