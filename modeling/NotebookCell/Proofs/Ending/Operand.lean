import NotebookCell.Proofs.Ending.Markup

/-!
# Operands before two ends

Operands and the accesses and calls behind them. What looks ahead behind an operand, for an arrow or the
next access, finds the same token in front of both ends, or a closing mark in front of each.
-/

namespace NotebookCell.Script.Ending

open NotebookCell.Tree NotebookCell.Script.Parser

variable {e : Ending} {sub : Parsers} {α : Type} {c d : Cursor} {m n : Nat}

/-- What the text has not is not read in front of either end. -/
theorem Refuses.follows {H : Cursor → Prop} {S : α → Cursor → Cursor → Prop} {p : Parser α}
    (h : e.Refuses p) : Follows Lost H (e.Same m) S p where
  same c d hsame := .refused (h c hsame.suffix)
  beyond c hc a c' hc' := by
    have hend : c.rest <:+ ['\n', ')'] := by
      rcases hc with hc | hc
      · rw [hc]
        exact List.nil_suffix
      · rw [hc]
        exact List.suffix_cons '\n' [')']
    cases (h c (hend.trans (List.suffix_append _ _))).symm.trans hc'

/-! ## Arrow functions -/

/-- An arrow is two characters of the text. -/
theorem rest_of_arrow {c' : Cursor} (h : literal "=>" c = some ((), c')) :
    c.rest = '=' :: '>' :: c'.rest := by
  obtain ⟨hstarts, rfl⟩ := rest_of_literal h
  rw [Cursor.startsWith, List.isPrefixOf_iff_prefix] at hstarts
  obtain ⟨rest, hrest⟩ := hstarts
  rw [Cursor.skip, ← hrest]
  rfl

/-- Behind an arrow of the text there is no brace. -/
theorem follows_arrow {H : Cursor → Prop} {S : α → Cursor → Cursor → Prop}
    {f g : List Node → Parser α} (hg : ∀ gap, Follows Lost H (e.Same n) S (g gap)) :
    Follows Lost H (e.Same (n + 1)) S (do
      literal "=>"
      let gap ← trivia
      if (← get).startsWith "\x7b" then f gap else g gap) := by
  have harrow : Follows Lost Gone (e.Same (n + 1)) (fun _ c d => e.Same n c d ∧
      '=' :: '>' :: c.rest <:+ e.text ++ ['\n', ')']) (literal "=>") := by
    have hliteral : Follows Lost Gone (e.Same (n + 1)) (fun _ => e.Same n) (literal "=>") :=
      strict_literal rfl (by decide) n
    refine ⟨fun c d hsame a c' hc' => ?_, hliteral.beyond⟩
    rcases hliteral.same c d hsame a c' hc' with hend | ⟨d', hd', hsame'⟩
    · exact .inl hend
    · refine .inr ⟨d', hd', hsame', ?_⟩
      rw [← rest_of_arrow hc']
      exact hsame.suffix
  have hgap : Follows Gone Lost (fun c d => e.Same n c d ∧
      '=' :: '>' :: c.rest <:+ e.text ++ ['\n', ')'])
      (fun _ c d => e.Same n c d ∧ c.rest.head? ≠ some '\x7b') trivia := by
    have htrivia : Follows Gone Lost (e.Same n) (fun _ => e.Same n) trivia := follows_trivia.plain.within
    refine ⟨fun c d hsame gap c' hc' => ?_, htrivia.beyond⟩
    rcases htrivia.same c d hsame.1 gap c' hc' with hend | ⟨d', hd', hsame'⟩
    · exact .inl hend
    · exact .inr ⟨d', hd', hsame', trivia_behind_arrow hsame.2 hc'⟩
  refine harrow.bind fun _ => hgap.bind fun gap => ?_
  constructor
  · intro c d hsame
    have hbrace : c.startsWith "\x7b" = false := startsWith_brace hsame.2
    have hbrace' : d.startsWith "\x7b" = false := (hsame.1.startsWith_eq rfl).trans hbrace
    show FollowsAt H S c d (if c.startsWith "\x7b" then _ else _) (if d.startsWith "\x7b" then _ else _)
    rw [hbrace, hbrace']
    exact (hg gap).same c d hsame.1
  · intro c hc
    have hbrace : c.startsWith "\x7b" = false := closed_startsWith hc.closed rfl rfl
    refine givesAt_get ?_
    rw [hbrace]
    exact (hg gap).beyond c hc

/-- An arrow function whose body is an expression. A straight text has no arrow in front of a brace. -/
theorem loose_arrowRest (h : e.Subs sub) (start : Nat) (lead : List Node) :
    e.Loose (arrowRest sub false start lead) := fun n =>
  follows_arrow fun _ => ((h.expression _).weak n).bind fun _ => follows_node _ _ _

theorem arrowBehind_bind {F : Option (List Node × Cursor) → Parser α} {gap : List Node} {c' : Cursor}
    (h : plainTrivia c = some (gap, c')) :
    (arrowBehind false >>= F) c = F (if c'.startsWith "=>" then some (gap, c') else none) c := by
  have hbehind : arrowBehind false c =
      some (if c'.startsWith "=>" then some (gap, c') else none, c) := by
    rw [arrowBehind, bind_of_eq (lookahead_false c), h]
    rfl
  rw [bind_of_eq hbehind]

/-- A parser that goes on if an arrow follows. -/
theorem follows_arrowBehind {S : α → Cursor → Cursor → Prop} {F : Option (List Node × Cursor) → Parser α}
    (hquiet : Quiet (F none)) (hstay : ∀ c d a c', e.Same m c d → F none c = some (a, c') → S a c d)
    (hgo : ∀ gap c d c' d', e.Same m c d → e.Same m c' d' →
      FollowsAt Over S c d (F (some (gap, c'))) (F (some (gap, d')))) :
    Follows Over Over (e.Same m) S (arrowBehind false >>= F) := by
  refine follows_looking (F := fun gap c c' => F (if c'.startsWith "=>" then some (gap, c') else none) c)
    hquiet (fun c gap c' => arrowBehind_bind) ?_ hstay ?_
  · intro c gap c' hc
    rw [closed_startsWith hc rfl rfl]
    rfl
  · intro gap c d c' d' hsame htoken a c'' ha
    have harrow : d'.startsWith "=>" = c'.startsWith "=>" := htoken.toSame.startsWith_eq rfl
    rw [harrow]
    cases hsees : c'.startsWith "=>" with
    | true =>
      rw [hsees] at ha
      exact hgo gap c d c' d' hsame htoken.toSame a c'' ha
    | false =>
      rw [hsees] at ha
      obtain ⟨rfl, hd⟩ := hquiet c d a c'' hsame.pos ha
      exact .inr ⟨d, hd, hstay _ d a _ hsame ha⟩

/-- A name, or a function with one parameter. -/
theorem follows_parameter (h : e.Subs sub) (start : Nat) (id : Node) :
    Follows Gone Over (e.Same m) (fun _ => e.Same m) (do
      match ← arrowBehind false with
      | some (gap, c) =>
        set c
        arrowRest sub false start ([id.as .parameter] ++ gap)
      | none => return id) := by
  refine Follows.within (follows_arrowBehind (quiet_pure id) (fun _ _ _ _ h _ => h) ?_)
  intro gap c d c' d' hsame harrow
  exact .set (((loose_arrowRest h _ _).weak m).same c' d' harrow)

/-- A name, or the arrow function with that name as its parameter. -/
theorem loose_identifier (h : e.Subs sub) : e.Loose (identifier sub false) := fun n =>
  (strict_name _ n).bind fun id => follows_parameter h id.start id

theorem quiet_guard {p : Parser α} {condition : Bool} (h : Quiet p) :
    Quiet (require condition >>= fun _ => p) := by
  cases condition
  · exact quiet_failure
  · exact h

/-- What a list between parentheses amounts to is decided without reading on. -/
theorem quiet_groupOf (items : List (Option Node)) (start stop : Nat) :
    Quiet (Suffix.groupOf items start stop) := by
  refine quiet_guard ?_
  dsimp only
  split
  · exact quiet_guard (quiet_pure _)
  · exact quiet_failure

/-- A group, or the arrow function with those parameters, is closed by a parenthesis of its own. -/
theorem loose_group (h : e.Subs sub) : e.Loose (group sub false) := by
  intro n
  refine .start fun start => ?_
  refine (strict_commaList rfl (by decide) rfl (by decide) ((loose_element h).elements rfl) n).bind
    fun items => .start fun stop => ?_
  refine Follows.within (follows_arrowBehind (quiet_groupOf items start stop) (fun _ _ _ _ h _ => h) ?_)
  intro gap c d c' d' hsame harrow
  dsimp only
  cases withoutHoles items with
  | false => exact followsAt_failure
  | true =>
    cases asPatterns? (items.filterMap id) with
    | none => exact followsAt_failure
    | some patterns => exact ((loose_arrowRest h _ _).weak n).same c' d' harrow

/-! ## Words -/

/-- The property of `new.target` and `import.meta` has a point in front of it, which no end has. -/
theorem follows_metaRest (start : Nat) {property : String}
    (hproperty : property.toList.all (!isStop ·) = true) (hne : property.toList ≠ []) :
    Follows Late Gone (e.Same m) (fun _ => e.Same m) (metaRest start property) := by
  refine follows_plainTrivia.plain.bind fun gap => ((strict_literal rfl (by decide)).weak m).bind fun _ => ?_
  refine follows_trivia.plain.bind fun gap' => ((strict_keyword hproperty hne).weak m).bind fun _ => ?_
  exact follows_node _ _ _

/-- Without a point there is no such property. -/
theorem metaRest_lost (start : Nat) (property : String) {gap : List Node} {c' : Cursor}
    (h : plainTrivia c = some (gap, c')) (hc' : Lost c') : metaRest start property c = none := by
  rw [metaRest, bind_of_eq h]
  exact bind_of_refused (literal_refused (closed_startsWith hc'.closed rfl rfl)) _

/-- A private name or a word behind a dot. -/
theorem follows_property {H : Cursor → Prop} {S : α → Cursor → Cursor → Prop} {f : Node → Parser α}
    (hf : ∀ property, Follows Gone H (e.Same m) S (f property)) :
    Follows Lost H (e.Same m) S (do
      if (← get).startsWith "#" then privateName >>= f else word .propertyIdentifier >>= f) :=
  .test (fun _ _ h => h.startsWith_eq rfl) ((strict_privateName.weak m).bind hf)
    (((strict_word _).weak m).bind hf)

/-- What follows the word `import` at `c` and a gap behind it. -/
def importAt (sub : Parsers) (start stop : Nat) (c : Cursor) (gap : List Node) : Parser Node := do
  if (← get).startsWith "(" then
    let callee : Node := { kind := .importWord, start, stop }
    let args ← arguments sub
    node .callExpression start ([callee.as .function] ++ gap ++ [args.as .arguments])
  else if (← get).startsWith "?." then
    literal "?."
    let gap' ← trivia
    let property ← if (← get).startsWith "#" then privateName else word .propertyIdentifier
    let root : Node := { kind := .importWord, start, stop }
    node .memberExpression start ([root] ++ gap ++ gap' ++ [property])
  else
    set c
    metaRest start "meta"

/-- The word `import` is followed by a point or a parenthesis, or it is a word on its own. -/
theorem followsAt_importAt (h : e.Subs sub) (start stop : Nat) (gap : List Node) (hsame : e.Same m c d)
    {c' d' : Cursor} (htoken : e.Token m c' d') :
    FollowsAt Gone (fun _ => e.Same m) c' d' (importAt sub start stop c gap)
      (importAt sub start stop d gap) := by
  have hcall (callee : Node) : Follows Lost Gone (e.Same m) (fun _ => e.Same m) (do
      let args ← arguments sub
      node .callExpression start ([callee.as .function] ++ gap ++ [args.as .arguments])) :=
    ((strict_arguments h).weak m).bind fun _ => follows_node _ _ _
  have hproperty (root : Node) : Follows Lost Gone (e.Same m) (fun _ => e.Same m) (do
      literal "?."
      let gap' ← trivia
      let property ← if (← get).startsWith "#" then privateName else word .propertyIdentifier
      node .memberExpression start ([root] ++ gap ++ gap' ++ [property])) := by
    refine ((strict_literal rfl (by decide)).weak m).bind fun _ => follows_trivia.plain.bind fun _ => ?_
    exact follows_property fun _ => follows_node _ _ _
  have hmeta : Follows Late Gone (e.Same m) (fun _ => e.Same m) (metaRest start "meta") :=
    follows_metaRest start rfl (by decide)
  have hparen : d'.startsWith "(" = c'.startsWith "(" := htoken.startsWith_eq rfl
  have hchain : d'.startsWith "?." = c'.startsWith "?." := htoken.toSame.startsWith_eq rfl
  show FollowsAt Gone _ c' d' (if c'.startsWith "(" then _ else get >>= _)
    (if d'.startsWith "(" then _ else get >>= _)
  rw [hparen]
  refine .ite (fun _ => (hcall _).same c' d' htoken.toSame) fun _ => ?_
  show FollowsAt Gone _ c' d' (if c'.startsWith "?." then _ else _) (if d'.startsWith "?." then _ else _)
  rw [hchain]
  exact .ite (fun _ => (hproperty _).same c' d' htoken.toSame) fun _ => .set (hmeta.same c d hsame)

theorem follows_importRest (h : e.Subs sub) (start stop : Nat) :
    Follows Gone Gone (e.Same m) (fun _ => e.Same m)
      (get >>= fun c => plainTrivia >>= fun gap => importAt sub start stop c gap) := by
  constructor
  · intro c d hsame a c' hc'
    rw [get_bind] at hc' ⊢
    obtain ⟨gap, c₁, hgap, hrest⟩ := exists_of_bind hc'
    have hpassed := hsame.plainTrivia
    -- without a token there is no dot either
    have hlost (hc₁ : c₁.rest = [')']) : importAt sub start stop c gap c₁ = none := by
      have hclosed : Closed c₁ := (lost_of_rest hc₁).closed
      rw [importAt, get_bind, closed_startsWith hclosed rfl rfl, if_neg Bool.false_ne_true, get_bind,
        closed_startsWith hclosed rfl rfl]
      exact metaRest_lost start "meta" hgap (lost_of_rest hc₁)
    rw [hgap] at hpassed
    generalize hgap' : plainTrivia d = other at hpassed
    cases hpassed with
    | token htoken =>
      rw [bind_of_eq hgap']
      exact followsAt_importAt h start stop gap hsame (htoken.mono hsame.lt) a c' hrest
    | finish hc₁ => cases (hlost hc₁).symm.trans hrest
    | runs hc₁ => cases (hlost hc₁).symm.trans hrest
  · intro c hc a c' hc'
    obtain ⟨text, pos⟩ := c
    obtain rfl : text = [] := hc
    cases hc'

/-- What begins with `import` is read whole in front of both ends. -/
theorem strict_importOperand (h : e.Subs sub) : e.Strict (importOperand sub) := by
  intro n
  refine .start fun start => (strict_keyword rfl (by decide) n).bind fun _ => .start fun stop => ?_
  exact follows_importRest h start stop

/-- A primary expression that begins with a given word. -/
def wordOperandAt (sub : Parsers) (constructing : Bool) (start : Nat) : String → Parser Node
  | "this" => word .thisWord
  | "super" => word .superWord
  | "true" => word .trueWord
  | "false" => word .falseWord
  | "null" => word .nullWord
  | "undefined" => word .undefinedWord
  | "function" => functionLiteral sub start []
  | "class" => classLiteral sub start []
  | "async" => background sub false constructing
  | "import" => importOperand sub
  | "new" => do
    keyword "new"
    metaRest start "target"
  | "yield" => failure
  | "export" => do
    let id ← word .identifier
    match ← arrowBehind false with
    | some (gap, c) =>
      set c
      arrowRest sub false start ([id.as .parameter] ++ gap)
    | none => return id
  | _ => identifier sub false

/-- An operand that begins with a word, by that word. -/
theorem wordOperand_eq {constructing : Bool} :
    wordOperand sub false constructing = (do
      let start ← position
      let c ← get
      wordOperandAt sub constructing start c.word) := rfl

theorem strict_target (start : Nat) :
    e.Strict (do
      keyword "new"
      metaRest start "target") := fun n =>
  (strict_keyword rfl (by decide) n).bind fun _ => (follows_metaRest start rfl (by decide)).within

/-- An operand by its word. The word `async` is left to texts that are not straight. -/
theorem follows_wordOperandAt (h : e.Subs sub) (constructing : Bool) (start : Nat) (text : String)
    (hasync : text ≠ "async") :
    Follows Lost Over (e.Same (n + 1)) (fun _ => e.Same n) (wordOperandAt sub constructing start text) := by
  unfold wordOperandAt
  split
  · exact (strict_word _).loose n
  · exact (strict_word _).loose n
  · exact (strict_word _).loose n
  · exact (strict_word _).loose n
  · exact (strict_word _).loose n
  · exact (strict_word _).loose n
  · exact (refuses_functionLiteral h start []).follows
  · exact (refuses_classLiteral start []).follows
  · exact absurd rfl hasync
  · exact (strict_importOperand h).loose n
  · exact (strict_target start).loose n
  · exact follows_failure
  · exact (strict_word _ n).bind fun id => follows_parameter h start id
  · exact loose_identifier h n

/-- In a straight text the first word of an operand is not `async`. -/
theorem loose_wordOperand (h : e.Subs sub) (constructing : Bool) :
    e.Loose (wordOperand sub false constructing) := by
  intro n
  rw [wordOperand_eq]
  refine .start fun start => ?_
  constructor
  · intro c d hsame
    show FollowsAt Over _ c d (wordOperandAt sub constructing start c.word)
      (wordOperandAt sub constructing start d.word)
    have hasync : c.word ≠ "async" := by
      have hfork : c.seesWord "async" = false := seesWord_fork hsame.suffix rfl (by decide) (by decide)
      rw [Cursor.seesWord] at hfork
      exact fun hword => ne_of_beq_false hfork hword
    rw [hsame.word_eq]
    exact (follows_wordOperandAt h constructing start c.word hasync).same c d hsame
  · intro c hc
    have hempty : c.word = "" := by
      obtain ⟨text, pos⟩ := c
      obtain rfl | rfl : text = [] ∨ text = [')'] := hc
      · rfl
      · rfl
    refine givesAt_get ?_
    rw [hempty]
    exact (follows_wordOperandAt (n := 0) h constructing start "" (by decide)).beyond c hc

/-- A primary expression that begins with a given character. -/
def primaryAt (sub : Parsers) (constructing : Bool) : Option Char → Parser Node
  | some '(' => group sub false
  | some '[' => array sub
  | some '\x7b' => object sub
  | some '\x22' => Parser.string
  | some '\x27' => Parser.string
  | some '\x60' => template sub
  | some '/' => regex
  | some '@' => do
    let start ← position
    let marks ← decorators sub
    classLiteral sub start marks
  | some first => if first.isDigit || first == '.' then number else wordOperand sub false constructing
  | none => failure

/-- An operand without accesses, by its first character. -/
theorem primary_eq {constructing : Bool} :
    primary sub false constructing = get >>= fun c => primaryAt sub constructing c.rest.head? := by
  unfold primary
  congr 1
  funext c
  cases c.rest with
  | nil => rfl
  | cons first rest =>
    rw [List.head?_cons]
    unfold primaryAt
    split <;> simp_all

/-- An operand without accesses is read before both ends. -/
theorem loose_primary (h : e.Subs sub) (constructing : Bool) :
    e.Loose (primary sub false constructing) := by
  intro n
  rw [primary_eq]
  refine follows_head (fun first => ?_) rfl ?_
  · unfold primaryAt
    split
    · exact loose_group h n
    · exact (strict_array h).loose n
    · exact (strict_object h).loose n
    · exact strict_string.loose n
    · exact strict_string.loose n
    · exact (strict_template h).loose n
    · exact strict_regex.loose n
    · exact (refuses_decorated h).follows
    · exact .ite (fun _ => strict_number.loose n) fun _ => loose_wordOperand h constructing n
    · exact follows_failure
  · intro c hc
    obtain ⟨text, pos⟩ := c
    subst hc
    rfl

/-! ## Accesses and calls -/

/-- A property behind its point. -/
theorem follows_accessName (left : Node) (gap : List Node) :
    Follows Late Gone (e.Same m) (fun _ => e.Same m) (accessName left gap) :=
  follows_trivia.plain.bind fun _ => follows_property fun _ => follows_node _ _ _

/-- An index is closed by a bracket of its own. -/
theorem strict_accessIndex (h : e.Subs sub) (left : Node) (gap : List Node) :
    e.Strict (accessIndex sub left gap) := by
  intro n
  refine (strict_literal rfl (by decide) n).bind fun _ => follows_trivia.plain.bind fun gap' => ?_
  refine ((loose_expressions h).weak n).bind fun index => follows_plainTrivia.bind fun gap'' => ?_
  exact (follows_close rfl (by decide)).bind fun _ => follows_node _ _ _

theorem strict_call (h : e.Subs sub) (left : Node) (gap : List Node) : e.Strict (call sub left gap) :=
  fun n => (strict_arguments h n).bind fun _ => follows_node _ _ _

/-- What is read behind `?.` after `left`. -/
def chained (sub : Parsers) (left : Node) (gap : List Node) : Parser (Option Node) := do
  let gap' ← trivia
  let c ← get
  if c.startsWith "(" then
    require (isPrimary left.kind)
    return some (← call sub left (gap ++ gap'))
  else if c.startsWith "[" then
    return some (← accessIndex sub left (gap ++ gap'))
  else
    return some (← accessName left (gap ++ gap'))

/-- An access behind `?.`, in each of its forms. -/
theorem follows_chained (h : e.Subs sub) (left : Node) (gap : List Node) :
    Follows Lost Gone (e.Same n) (Stepwise e.Same n) (chained sub left gap) := by
  refine follows_trivia.plain.bind fun gap' => .test₂ (fun _ _ h => h.startsWith_eq rfl)
    (fun _ _ h => h.startsWith_eq rfl) ?_ ?_ ?_
  · refine .guard fun _ => ((strict_call h left _).weak n).bind fun _ => ?_
    exact follows_return fun _ _ h => h
  · exact ((strict_accessIndex h left _).weak n).bind fun _ => follows_return fun _ _ h => h
  · exact ((follows_accessName left _)).bind fun _ => follows_return fun _ _ h => h

/-- What is read behind `left` and a gap, with the next token at `c`. -/
def accessAt (sub : Parsers) (constructing update : Bool) (left : Node) (gap : List Node) (c : Cursor) :
    Parser (Option Node) := do
  match c.rest with
  | '.' :: _ =>
    set (c.skip 1)
    return some (← accessName left gap)
  | '?' :: '.' :: text =>
    if text.head?.any Char.isDigit then
      return none
    set (c.skip 2)
    chained sub left gap
  | '[' :: _ =>
    set c
    return some (← accessIndex sub left gap)
  | '(' :: _ =>
    if constructing then
      return none
    set c
    return some (← call sub left gap)
  | '\x60' :: _ =>
    if !(isPrimary left.kind || left.kind == .newExpression) then
      return none
    set c
    let text ← template sub
    return some (← node .callExpression left.start
      ([left.as .function] ++ gap ++ [text.as .arguments]))
  | a :: b :: _ =>
    if update && (a == '+' || a == '-') && a == b then
      set (c.skip 2)
      return some (← node .updateExpression left.start ([left.as .argument] ++ gap))
    else
      return none
  | _ => return none

/-- What an access looks at, and what it does with that, apart from each other. -/
theorem access_eq {asi constructing update : Bool} {left : Node} :
    access sub asi constructing update left = (do
      match ← lookahead asi with
      | none => return none
      | some (gap, c) =>
        if constructing && left.kind == .newExpression && !c.startsWith "\x60" then
          return none
        else
          accessAt sub constructing update left gap c) := rfl

/-- At a closing mark there is no access. -/
theorem accessAt_closed {constructing update : Bool} {left : Node} {gap : List Node} (h : Closed c) :
    accessAt sub constructing update left gap c = pure none := by
  obtain ⟨text, pos⟩ := c
  rcases h with hc | ⟨rest, hc | hc⟩
  · obtain rfl : text = [] := hc
    rfl
  · obtain rfl : text = ')' :: rest := hc
    cases update <;> cases rest <;> rfl
  · obtain rfl : text = '\x7d' :: rest := hc
    cases update <;> cases rest <;> rfl

/-- What may be read behind an operand that ends in front of no access. -/
def updated (update : Bool) (left : Node) (gap : List Node) (c : Cursor) : Parser (Option Node) := do
  match c.rest with
  | a :: b :: _ =>
    if update && (a == '+' || a == '-') && a == b then
      set (c.skip 2)
      return some (← node .updateExpression left.start ([left.as .argument] ++ gap))
    else
      return none
  | _ => return none

/-- Without one of its marks an access can only be an increment. -/
theorem accessAt_other {constructing update : Bool} {left : Node} {gap : List Node}
    {first : Char} {rest : List Char} (hc : c.rest = first :: rest)
    (hfirst : first ≠ '.' ∧ first ≠ '[' ∧ first ≠ '(' ∧ first ≠ '\x60')
    (hchain : first = '?' → rest.head? ≠ some '.') :
    accessAt sub constructing update left gap c = updated update left gap c := by
  unfold accessAt updated
  rw [hc]
  split <;> simp_all

theorem followsAt_updated (update : Bool) (left : Node) (gap : List Node) (hsame : e.Same (n + 1) c d)
    {c' d' : Cursor} (htoken : e.Token (n + 1) c' d') :
    FollowsAt Over (Stepwise e.Same n) c d (updated update left gap c') (updated update left gap d') := by
  obtain ⟨first, rest, -, hc', hd'⟩ := htoken.exists_cons
  have hlt := htoken.lt
  have hnode : Follows Gone Over (e.Same n) (Stepwise e.Same n) (do
      return some (← node .updateExpression left.start ([left.as .argument] ++ gap))) :=
    .part fun _ => follows_return fun _ _ h => h
  unfold updated
  rw [hc', hd']
  cases rest with
  | nil =>
    -- no increment is half in the text
    have hhalf {stop : Char} (hstop : isStop stop = true) :
        (update && (first == '+' || first == '-') && first == stop) = false := by
      by_cases hfirst : first = stop
      · subst hfirst
        have hplus : first ≠ '+' := ne_of_isStop hstop (by decide)
        have hminus : first ≠ '-' := ne_of_isStop hstop (by decide)
        simp [hplus, hminus]
      · simp [hfirst]
    show FollowsAt Over _ c d (if update && (first == '+' || first == '-') && first == '\n' then _ else _)
      (if update && (first == '+' || first == '-') && first == e.close then _ else _)
    rw [hhalf rfl, hhalf e.isStop_close]
    exact .pure hsame
  | cons second rest =>
    have hlength : c'.rest.length = rest.length + 4 := by rw [hc']; simp
    exact .ite (fun _ => .set (hnode.same _ _ (htoken.toSame.skip (by omega) (by omega))))
      fun _ => .pure hsame

/-- One more access, call or increment by the mark it begins with. -/
theorem followsAt_accessAt (h : e.Subs sub) (constructing update : Bool) (left : Node) (gap : List Node)
    (hsame : e.Same (n + 1) c d) {c' d' : Cursor} (htoken : e.Token (n + 1) c' d') :
    FollowsAt Over (Stepwise e.Same n) c d (accessAt sub constructing update left gap c')
      (accessAt sub constructing update left gap d') := by
  obtain ⟨first, rest, -, hc', hd'⟩ := htoken.exists_cons
  have hlt := htoken.lt
  have hlength : c'.rest.length = rest.length + 3 := by rw [hc']; simp
  by_cases hdot : first = '.'
  · subst hdot
    have hname : Follows Gone Over (e.Same n) (Stepwise e.Same n) (do return some (← accessName left gap)) :=
      (follows_accessName left gap).bind fun _ => follows_return fun _ _ h => h
    unfold accessAt
    rw [hc', hd']
    exact .set (hname.same _ _ (htoken.toSame.skip (by omega) (by omega)))
  by_cases hindex : first = '['
  · subst hindex
    have hread : Follows Lost Over (e.Same (n + 1)) (Stepwise e.Same n) (do
        return some (← accessIndex sub left gap)) :=
      (strict_accessIndex h left gap n).bind fun _ => follows_return fun _ _ h => h
    unfold accessAt
    rw [hc', hd']
    exact .set (hread.same c' d' htoken.toSame)
  by_cases hparen : first = '('
  · subst hparen
    have hread : Follows Lost Over (e.Same (n + 1)) (Stepwise e.Same n) (do
        return some (← call sub left gap)) :=
      (strict_call h left gap n).bind fun _ => follows_return fun _ _ h => h
    unfold accessAt
    rw [hc', hd']
    exact .ite (fun _ => .pure hsame) fun _ => .set (hread.same c' d' htoken.toSame)
  by_cases htick : first = '\x60'
  · subst htick
    have hread : Follows Lost Over (e.Same (n + 1)) (Stepwise e.Same n) (do
        let text ← template sub
        return some (← node .callExpression left.start
          ([left.as .function] ++ gap ++ [text.as .arguments]))) :=
      (strict_template h n).bind fun _ => .part fun _ => follows_return fun _ _ h => h
    unfold accessAt
    rw [hc', hd']
    exact .ite (fun _ => .pure hsame) fun _ => .set (hread.same c' d' htoken.toSame)
  by_cases hchain : first = '?' ∧ rest.head? = some '.'
  · obtain ⟨rfl, hhead⟩ := hchain
    obtain ⟨rest, rfl⟩ := List.head?_eq_some_iff.mp hhead
    have hread : Follows Lost Over (e.Same n) (Stepwise e.Same n) (chained sub left gap) :=
      (follows_chained h left gap).within
    have hdigit {stop : Char} (hstop : isStop stop = true) (tail : List Char) :
        (rest ++ stop :: tail).head?.any Char.isDigit = rest.head?.any Char.isDigit :=
      head?_any_append (not_of_isStop hstop (by decide) (by decide) (by decide))
    unfold accessAt
    rw [hc', hd']
    show FollowsAt Over _ c d
      (if (rest ++ ['\n', ')']).head?.any Char.isDigit then _ else _)
      (if (rest ++ e.close :: e.after).head?.any Char.isDigit then _ else _)
    rw [hdigit e.isStop_close, hdigit rfl]
    rw [List.length_cons] at hlength
    exact .ite (fun _ => .pure hsame) fun _ =>
      .set (hread.same _ _ (htoken.toSame.skip (by omega) (by omega)))
  have hnot {stop : Char} (hstop : isStop stop = true) (tail : List Char) :
      first = '?' → (rest ++ stop :: tail).head? ≠ some '.' := by
    intro hmark
    cases rest with
    | nil => simpa using ne_of_isStop hstop (by decide)
    | cons second rest => exact fun hhead => hchain ⟨hmark, hhead⟩
  rw [accessAt_other hc' ⟨hdot, hindex, hparen, htick⟩ (hnot rfl _),
    accessAt_other hd' ⟨hdot, hindex, hparen, htick⟩ (hnot e.isStop_close _)]
  exact followsAt_updated update left gap hsame htoken

/-- One more access behind an operand, or none at an end. -/
theorem follows_access (h : e.Subs sub) (constructing update : Bool) (left : Node) :
    Follows Over Over (e.Same (n + 1)) (Stepwise e.Same n) (access sub false constructing update left) := by
  rw [access_eq]
  refine follows_lookahead (quiet_pure none) ?_ (fun _ _ _ _ => stepwise_none) ?_
  · intro gap c hc
    dsimp only
    split
    · rfl
    · exact accessAt_closed hc
  · intro gap c d c' d' hsame htoken
    have htick : d'.startsWith "\x60" = c'.startsWith "\x60" := htoken.startsWith_eq rfl
    dsimp only
    rw [htick]
    exact .ite (fun _ => .pure hsame) fun _ =>
      followsAt_accessAt h constructing update left gap hsame htoken

/-! ## Constructions -/

/-- The word `new` begins no primary expression but `new.target`. -/
theorem target_of_primary {constructing : Bool} (hnew : c.seesWord "new" = true) {found : Node × Cursor}
    (hc : primary sub false constructing c = some found) :
    (keyword "new" >>= fun _ => metaRest c.pos "target") c = some found := by
  obtain ⟨rest, hrest⟩ := rest_of_seesWord rfl hnew
  rw [primary_eq, get_bind, hrest] at hc
  replace hc : wordOperand sub false constructing c = some found := hc
  rw [wordOperand_eq, position_bind, get_bind, beq_iff_eq.mp hnew] at hc
  exact hc

/-- An operand of `new` with its arguments, if it has some. -/
theorem loose_construct (h : e.Subs sub) : e.Loose (construct sub false) := by
  intro n
  have hrest (start : Nat) (gap : List Node) (inner : Node) :
      Follows Over Over (e.Same n) (fun _ => e.Same n) (do
        let callee ← iterate (access sub false true false) inner
        match ← lookahead false with
        | some (gap', c) =>
          if c.startsWith "(" then
            set c
            let args ← arguments sub
            node .newExpression start (gap ++ [callee] ++ gap' ++ [args.as .arguments])
          else
            node .newExpression start (gap ++ [callee])
        | none => node .newExpression start (gap ++ [callee])) := by
    refine (follows_iterate (place_same e) (fun left _ => follows_access h true false left) inner).bind
      fun callee => ?_
    refine follows_lookahead (quiet_node .newExpression start (gap ++ [callee])) ?_
      (fun _ _ _ _ h _ => h) ?_
    · intro gap' c hc
      dsimp only
      rw [closed_startsWith hc rfl rfl]
      rfl
    · intro gap' c d c' d' hsame htoken
      have hparen : d'.startsWith "(" = c'.startsWith "(" := htoken.startsWith_eq rfl
      have hcall : Follows Lost Over (e.Same n) (fun _ => e.Same n) (do
          let args ← arguments sub
          node .newExpression start (gap ++ [callee] ++ gap' ++ [args.as .arguments])) :=
        ((strict_arguments h).weak n).bind fun _ => follows_node _ _ _
      have hnode : Follows Over Over (e.Same n) (fun _ => e.Same n)
          (node .newExpression start (gap ++ [callee])) := follows_node _ _ _
      dsimp only
      rw [hparen]
      exact .ite (fun _ => .set (hcall.same c' d' htoken.toSame)) fun _ => hnode.same c d hsame
  refine .start fun start => (strict_keyword rfl (by decide) n).bind fun _ => ?_
  refine follows_trivia.plain.bind fun gap => ?_
  have hconstruct := (h.construct).weak n
  have hprimary := (loose_primary h true).weak n
  constructor
  · intro c d hsame
    show FollowsAt Over _ c d
      (if c.seesWord "new" then (sub.construct false <|> primary sub false true) >>= _
        else primary sub false true >>= _)
      (if d.seesWord "new" then (sub.construct false <|> primary sub false true) >>= _
        else primary sub false true >>= _)
    rw [hsame.seesWord_eq]
    refine .ite (fun hnew => ?_) fun _ => (hprimary.same c d hsame).bind
      (fun inner => (hrest start gap inner).same) fun inner => (hrest start gap inner).beyond
    have hnew' : d.seesWord "new" = true := (hsame.seesWord_eq _).trans hnew
    exact ((hconstruct.same c d hsame).orElse (hprimary.same c d hsame) fun found hd =>
      h.target d d.pos found (target_of_primary hnew' hd)).bind
        (fun inner => (hrest start gap inner).same) fun inner => (hrest start gap inner).beyond
  · intro c hc
    have hover (inner : Node) := (hrest start gap inner).beyond
    exact givesAt_get (.ite ((hconstruct.beyond c hc).orElse (hprimary.beyond c hc) |>.bind hover)
      ((hprimary.beyond c hc).bind hover))

end NotebookCell.Script.Ending
