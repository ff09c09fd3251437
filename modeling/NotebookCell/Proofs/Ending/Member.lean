import NotebookCell.Proofs.Ending.Fork

/-!
# Objects before two ends

A member of an object is a name with a value, a name on its own or a pattern with a default. Behind a
name on its own the text may be over (`Ended`), but then no brace closes the object.

* `modifiers_cases`: no member of the text has a modifier;
* `strict_object`: an object is the same in front of both ends.
-/

namespace NotebookCell.Script.Ending

open NotebookCell.Tree NotebookCell.Script.Parser

variable {e : Ending} {sub : Parsers} {α : Type} {c d : Cursor} {m n : Nat}

/-! ## Names -/

/-- A computed name is closed by a bracket of its own. -/
theorem strict_computedName (h : e.Subs sub) : e.Strict (computedName sub) := by
  intro n
  refine .start fun start => (strict_literal rfl (by decide) n).bind fun _ => ?_
  refine follows_trivia.plain.bind fun gap => ((h.expression _).weak n).bind fun inner => ?_
  refine follows_plainTrivia.bind fun gap' => (follows_close rfl (by decide)).bind fun _ => ?_
  exact follows_node _ _ _

/-- The name of a property that begins with a given character. -/
def propertyNameAt (sub : Parsers) : Option Char → Parser Node
  | some '[' => computedName sub
  | some '#' => privateName
  | some '\x22' => Parser.string
  | some '\x27' => Parser.string
  | some first => if first.isDigit || first == '.' then number else word .propertyIdentifier
  | none => failure

/-- The key of a member by its first character. -/
theorem propertyName_eq : propertyName sub = get >>= fun c => propertyNameAt sub c.rest.head? := by
  unfold propertyName
  congr 1
  funext c
  cases c.rest with
  | nil => rfl
  | cons first rest =>
    rw [List.head?_cons]
    unfold propertyNameAt
    split <;> simp_all

/-- The key of a member is read whole in front of both ends. -/
theorem strict_propertyName (h : e.Subs sub) : e.Strict (propertyName sub) := by
  intro n
  rw [propertyName_eq]
  refine follows_head (fun first => ?_) rfl ?_
  · unfold propertyNameAt
    split
    · exact strict_computedName h n
    · exact strict_privateName n
    · exact strict_string n
    · exact strict_string n
    · exact .ite (fun _ => strict_number n) fun _ => strict_word _ n
    · exact follows_failure
  · intro c hc
    obtain ⟨text, pos⟩ := c
    subst hc
    rfl

/-! ## Modifiers -/

/-- What follows a word that is a name and no modifier. -/
def endsModifier (c : Cursor) : Bool :=
  c.rest.isEmpty || c.sees "(,:=\x7d".toList.contains

/-- Whether a word is a modifier or a key is the same in front of both ends. -/
theorem Token.endsModifier_eq (h : e.Token m c d) : endsModifier d = endsModifier c := by
  obtain ⟨first, left, -, hc, hd⟩ := h.exists_cons
  rw [endsModifier, endsModifier, Cursor.sees, Cursor.sees, hc, hd]
  rfl

/-- Without its word there is no modifier. -/
theorem modifier_absent {text : String} (h : c.seesWord text = false) :
    modifier false text c = some (none, c) := by
  rw [modifier, get_bind, h]
  rfl

/-- A word is a modifier unless what follows it makes it a key. -/
theorem modifier_of_word {text : String} (h : c.seesWord text = true) {c₁ after : Cursor}
    {gap : List Node} (hliteral : literal text c = some ((), c₁))
    (htrivia : trivia c₁ = some (gap, after)) :
    modifier false text c =
      if endsModifier after then some (none, c) else some (some gap, after) := by
  have hpeek : (some <$> peekTrivia) c₁ = some (some (gap, after), c₁) := by
    show (peekTrivia c₁).bind _ = _
    rw [peekTrivia, get_bind, bind_of_eq htrivia]
    rfl
  rw [modifier, get_bind, h]
  show (literal text >>= fun _ => (some <$> peekTrivia) >>= _ : Parser _) c = _
  rw [bind_of_eq hliteral, bind_of_eq hpeek]
  dsimp only
  show (if endsModifier after = true then _ else _ : Parser _) c₁ = _
  cases endsModifier after <;> rfl

/-- A modifier that is absent in one reading is absent in the other. -/
theorem modifier_none_of_same (h : e.Same m c d) {text : String}
    (htext : text.toList.all (!isStop ·) = true) (hne : text.toList ≠ []) {c' : Cursor}
    (hc : modifier false text c = some (none, c')) :
    c' = c ∧ modifier false text d = some (none, d) := by
  have hsees := h.seesWord_eq text
  cases hword : c.seesWord text with
  | false =>
    rw [modifier_absent hword] at hc
    cases hc
    exact ⟨rfl, modifier_absent (hsees.trans hword)⟩
  | true =>
    have hliteral : ∃ c₁, literal text c = some ((), c₁) := by
      cases hfound : literal text c with
      | some found => exact ⟨found.2, rfl⟩
      | none =>
        rw [modifier, get_bind, hword] at hc
        cases (bind_of_refused hfound _).symm.trans hc
    obtain ⟨c₁, hc₁⟩ := hliteral
    obtain ⟨d₁, hd₁, hsame⟩ := h.exists_literal htext hne hc₁
    have hpassed := hsame.trivia
    have hc' := @modifier_of_word c text hword c₁
    have hd' := @modifier_of_word d text (hsees.trans hword) d₁
    generalize trivia c₁ = found at hpassed hc'
    generalize trivia d₁ = found' at hpassed hd'
    cases hpassed with
    | token htoken =>
      rw [hc' hc₁ rfl] at hc
      rw [hd' hd₁ rfl]
      rw [htoken.endsModifier_eq]
      split at hc
      · next hends =>
        cases hc
        rw [if_pos hends]
        exact ⟨rfl, rfl⟩
      · cases hc
    | finish hrest =>
      rw [hc' hc₁ rfl] at hc
      rw [endsModifier, Cursor.sees, hrest] at hc
      cases hc
    | runs hrest =>
      rw [hc' hc₁ rfl] at hc
      rw [endsModifier, Cursor.sees, hrest] at hc
      cases hc

/-- Where `static get` is looked for, the word `static` stands in front of a blank. -/
theorem exists_of_staticGetLength {text : List Char} (h : staticGetLength text ≠ 0) :
    ∃ blank rest, text = "static".toList ++ blank :: rest ∧ isBlank blank = true := by
  rw [staticGetLength] at h
  split at h
  · next hall =>
    simp only [Bool.and_eq_true, List.isPrefixOf_iff_prefix, Bool.not_eq_true'] at hall
    obtain ⟨⟨⟨⟨rest, rfl⟩, hbetween⟩, -⟩, -⟩ := hall
    have hdrop : ("static".toList ++ rest).drop 6 = rest := List.drop_left' rfl
    rw [hdrop] at hbetween
    cases rest with
    | nil => cases hbetween
    | cons blank rest =>
      refine ⟨blank, rest, rfl, ?_⟩
      by_contra hblank
      rw [List.takeWhile_cons_of_neg] at hbetween
      · cases hbetween
      · simp only [isBlank, isSpaceSeparator, Bool.or_eq_true, not_or] at hblank
        simp [hblank]
  · exact absurd rfl h

theorem seesWord_static {blank : Char} {rest : List Char} (hblank : isBlank blank = true)
    (hc : c.rest = "static".toList ++ blank :: rest) : c.seesWord "static" = true := by
  have hstop : endsWord blank = true := by
    rw [endsWord, isNamePart, hblank, Bool.not_true, Bool.and_false, Bool.not_false, Bool.true_and,
      bne_iff_ne]
    rintro rfl
    cases hblank
  have hlength : wordLength c.rest = "static".toList.length := by
    rw [hc]
    exact wordLength_append (by decide) hstop rest
  rw [Cursor.seesWord, Cursor.word, hlength, hc, List.take_left]
  rfl

/-- A straight text has no `static` in it. -/
theorem Same.staticGetLength_eq (h : e.Same m c d) :
    staticGetLength c.rest = 0 ∧ staticGetLength d.rest = 0 := by
  have hnot : c.seesWord "static" = false := seesWord_fork h.suffix rfl (by decide) (by decide)
  constructor
  · by_contra hne
    obtain ⟨blank, rest, hrest, hblank⟩ := exists_of_staticGetLength hne
    cases (seesWord_static hblank hrest).symm.trans hnot
  · by_contra hne
    obtain ⟨blank, rest, hrest, hblank⟩ := exists_of_staticGetLength hne
    cases ((h.seesWord_eq _).symm.trans (seesWord_static hblank hrest)).symm.trans hnot

theorem star_absent (h : c.startsWith "*" = false) : Parser.star c = some (none, c) := by
  rw [Parser.star, get_bind, h]
  rfl

/-- What is read behind `static` and `async`, where there are none. -/
def accessModifiers : Parser (List Node × Bool) := do
  let generator ← Parser.star
  let getter ← if generator.isSome then pure none else modifier false "get"
  let setter ← if generator.isSome || getter.isSome then pure none else modifier false "set"
  let parts := [none, generator, getter, setter]
  return ((parts.filterMap id).flatten, parts.any (·.isSome))

/-- In a straight text only the modifiers of accessors and generators remain. -/
theorem modifiers_eq (h : e.Same m c d) :
    modifiers false c = accessModifiers c ∧ modifiers false d = accessModifiers d := by
  obtain ⟨hzero, hzero'⟩ := h.staticGetLength_eq
  have hstatic : c.seesWord "static" = false := seesWord_fork h.suffix rfl (by decide) (by decide)
  have hasync : c.seesWord "async" = false := seesWord_fork h.suffix rfl (by decide) (by decide)
  have heq (x : Cursor) (hzero : staticGetLength x.rest = 0) (hstatic : x.seesWord "static" = false)
      (hasync : x.seesWord "async" = false) : modifiers false x = accessModifiers x := by
    rw [modifiers, get_bind, hzero]
    show (modifier false "static" >>= _ : Parser _) x = _
    rw [bind_of_eq (modifier_absent hstatic)]
    dsimp only
    rw [bind_of_eq (modifier_absent hasync)]
    simp only [Option.isSome_none, Bool.false_and, Bool.or_false]
    rfl
  exact ⟨heq c hzero hstatic hasync, heq d hzero' ((h.seesWord_eq _).trans hstatic)
    ((h.seesWord_eq _).trans hasync)⟩

/-- Modifiers of the text allow a method only, or there are none in both readings. -/
theorem modifiers_cases (h : e.Same m c d) {lead : List Node} {methodOnly : Bool} {c' : Cursor}
    (hc : modifiers false c = some ((lead, methodOnly), c')) :
    methodOnly = true ∨ (lead = [] ∧ methodOnly = false ∧ c' = c ∧
      modifiers false d = some (([], false), d)) := by
  rw [(modifiers_eq h).1] at hc
  rw [(modifiers_eq h).2]
  have hstar : d.startsWith "*" = c.startsWith "*" := h.startsWith_eq rfl
  obtain ⟨generator, c₁, hgenerator, hgets⟩ := exists_of_bind hc
  cases generator with
  | some gap =>
    cases hgets
    exact .inl rfl
  | none =>
    cases hsees : c.startsWith "*" with
    | true =>
      rw [Parser.star, get_bind, hsees] at hgenerator
      obtain ⟨_, _, _, hgenerator⟩ := exists_of_bind hgenerator
      obtain ⟨_, _, _, hgenerator⟩ := exists_of_bind hgenerator
      cases hgenerator
    | false =>
      rw [star_absent hsees] at hgenerator
      cases hgenerator
      dsimp only at hgets
      rw [if_neg (by decide)] at hgets
      obtain ⟨getter, c₂, hgetter, hsets⟩ := exists_of_bind hgets
      cases getter with
      | some gap =>
        cases hsets
        exact .inl rfl
      | none =>
        obtain ⟨rfl, hgetter'⟩ := modifier_none_of_same h rfl (by decide) hgetter
        rw [if_neg (by decide)] at hsets
        obtain ⟨setter, c₃, hsetter, hlast⟩ := exists_of_bind hsets
        cases setter with
        | some gap =>
          cases hlast
          exact .inl rfl
        | none =>
          obtain ⟨rfl, hsetter'⟩ := modifier_none_of_same h rfl (by decide) hsetter
          cases hlast
          refine .inr ⟨rfl, rfl, rfl, ?_⟩
          show (Parser.star >>= _ : Parser _) d = _
          rw [bind_of_eq (star_absent (hstar.trans hsees))]
          show (modifier false "get" >>= _ : Parser _) d = _
          rw [bind_of_eq hgetter']
          show (modifier false "set" >>= _ : Parser _) d = _
          rw [bind_of_eq hsetter']
          rfl

/-! ## Members -/

/-- Nothing of the text is left where an operand may start. -/
def Ended (c : Cursor) : Prop := GivesAt c (fun _ => Lost) trivia

instance : Within Over Ended := ⟨fun _ h => over_trivia (Within.imp _ h)⟩

instance : Within Gone Ended := ⟨fun _ h => over_trivia (Within.imp _ h)⟩

/-- What follows the name of a member and a gap behind it. -/
def memberAt (sub : Parsers) (start : Nat) (lead : List Node) (isWord plain : Bool) (key : Node)
    (gap : List Node) (next : Cursor) : Parser Node := do
  if next.startsWith "(" then
    set next
    methodRest sub start (lead ++ [key.as .name] ++ gap)
  else
    require plain
    if next.startsWith ":" then
      set next
      literal ":"
      let gap' ← trivia
      let value ← element sub
      node .pair start ([key] ++ gap ++ gap' ++ [value.as .value])
    else
      require isWord
      if next.startsWith "=" then
        set next
        literal "="
        let gap' ← trivia
        let value ← sub.expression Level.lowest false
        let left := { key with kind := .shorthandPropertyIdentifierPattern }
        node .objectAssignmentPattern start ([left.as .left] ++ gap ++ gap' ++ [value])
      else
        return { key with kind := .shorthandPropertyIdentifier }

/-- What follows the name of a member. -/
def memberRest (sub : Parsers) (start : Nat) (lead : List Node) (isWord plain : Bool) (key : Node) :
    Parser Node := do
  let found ← peekTrivia
  memberAt sub start lead isWord plain key found.1 found.2

/-- A member from its name on. -/
def memberFrom (sub : Parsers) (start : Nat) (lead : List Node) (plain : Bool) : Parser Node := do
  let isWord := !(← get).seesWord ""
  let key ← propertyName sub
  memberRest sub start lead isWord plain key

/-- A member by its decorators, its modifiers and the rest. -/
theorem namedMember_eq :
    namedMember sub = (do
      let start ← position
      let marks ← decorators sub
      let found ← modifiers false
      memberFrom sub start (marks ++ found.1) (marks.isEmpty && !found.2)) := rfl

theorem peekTrivia_eq {gap : List Node} {next : Cursor} (h : trivia c = some (gap, next)) :
    peekTrivia c = some ((gap, next), c) := by
  rw [peekTrivia, get_bind, bind_of_eq h]
  rfl

theorem advances_propertyName (h : e.Subs sub) : Advances (propertyName sub) :=
  advances_of_reads (A := fun _ => Suffix.Any) fun t m _ hc =>
    Suffix.rel_imp (fun _ _ hrelated => ⟨trivial, hrelated.2⟩)
      (Suffix.readsAt_propertyName (h.self t m) hc)

/-- Decorators and most modifiers ask for a method, which has a block. -/
theorem refuses_memberFrom (h : e.Subs sub) (start : Nat) (lead : List Node) :
    e.Refuses (memberFrom sub start lead false) := by
  refine .get fun c => .bind (advances_propertyName h) fun key c hc => ?_
  cases htrivia : trivia c with
  | none =>
    refine bind_of_refused ?_ _
    rw [peekTrivia, get_bind]
    exact bind_of_refused htrivia _
  | some found =>
    obtain ⟨gap, next⟩ := found
    rw [memberRest, bind_of_eq (peekTrivia_eq htrivia), memberAt]
    split
    · exact refuses_methodRest h start _ next ((advances_trivia _ _ _ htrivia).suffix.trans hc)
    · rfl

/-- A name with nothing behind it may be a member of its own. -/
theorem memberAt_lost {start : Nat} {lead : List Node} {isWord plain : Bool} {key : Node}
    {gap : List Node} {next : Cursor} (hnext : Lost next) :
    GivesAt c (fun _ => (· = c)) (memberAt sub start lead isWord plain key gap next) := by
  obtain ⟨text, pos⟩ := next
  have hfound : GivesAt c (fun _ => (· = c)) (do
      require plain
      require isWord
      return { key with kind := .shorthandPropertyIdentifier }) := by
    cases plain
    · exact givesAt_failure
    cases isWord
    · exact givesAt_failure
    intro a c' h
    cases h
    rfl
  obtain rfl | rfl : text = [] ∨ text = [')'] := hnext
  · exact hfound
  · exact hfound

/-- What a key is followed by decides what member it is, in front of both ends alike. -/
theorem followsAt_memberAt (h : e.Subs sub) (start : Nat) (isWord : Bool) (key : Node) (gap : List Node)
    (hsame : e.Same m c d) {c' d' : Cursor} (htoken : e.Token m c' d') :
    FollowsAt Ended (fun _ => e.Same m) c d (memberAt sub start [] isWord true key gap c')
      (memberAt sub start [] isWord true key gap d') := by
  have hpair : Follows Lost Ended (e.Same m) (fun _ => e.Same m) (do
      literal ":"
      let gap' ← trivia
      let value ← element sub
      node .pair start ([key] ++ gap ++ gap' ++ [value.as .value])) := by
    refine ((strict_literal rfl (by decide)).weak m).bind fun _ => follows_trivia.plain.bind fun _ => ?_
    exact ((loose_element h).weak m).bind fun _ => follows_node _ _ _
  have hdefault : Follows Lost Ended (e.Same m) (fun _ => e.Same m) (do
      literal "="
      let gap' ← trivia
      let value ← sub.expression Level.lowest false
      let left := { key with kind := .shorthandPropertyIdentifierPattern }
      node .objectAssignmentPattern start ([left.as .left] ++ gap ++ gap' ++ [value])) := by
    refine ((strict_literal rfl (by decide)).weak m).bind fun _ => follows_trivia.plain.bind fun _ => ?_
    exact ((h.expression _).weak m).bind fun _ => follows_node _ _ _
  have hstarts {text : String} {mark : Char} (htext : text.toList = [mark]) :
      d'.startsWith text = c'.startsWith text := htoken.startsWith_eq htext
  have hcolon : d'.startsWith ":" = c'.startsWith ":" := hstarts rfl
  have hequals : d'.startsWith "=" = c'.startsWith "=" := hstarts rfl
  rw [memberAt, memberAt, hstarts rfl, hcolon, hequals]
  refine .ite (fun _ => .refused ?_) fun _ => .ite (fun _ => ?_) fun _ => ?_
  · exact refuses_methodRest h start _ c' htoken.suffix
  · exact .set (hpair.same c' d' htoken.toSame)
  · cases isWord
    · exact followsAt_failure
    · refine .ite (fun _ => ?_) fun _ => .pure hsame
      exact .set (hdefault.same c' d' htoken.toSame)

/-- A member from behind its key on. The text may be over behind a key on its own. -/
theorem follows_memberRest (h : e.Subs sub) (start : Nat) (isWord : Bool) (key : Node) :
    Follows Gone Ended (e.Same n) (fun _ => e.Same n) (memberRest sub start [] isWord true key) := by
  constructor
  · intro c d hsame
    have hpassed := hsame.trivia
    have hover {gap : List Node} {next : Cursor} (htrivia : trivia c = some (gap, next))
        (hnext : next.rest = [')']) : FollowsAt Ended (fun _ => e.Same n) c d
          (memberRest sub start [] isWord true key) (memberRest sub start [] isWord true key) := by
      intro a c' hrest
      rw [memberRest, bind_of_eq (peekTrivia_eq htrivia)] at hrest
      rw [memberAt_lost (.inr hnext) a c' hrest]
      refine .inl fun gap' next' htrivia' => ?_
      cases htrivia.symm.trans htrivia'
      exact .inr hnext
    have hinside {gap : List Node} {c' d' : Cursor} (htrivia : trivia c = some (gap, c'))
        (htrivia' : trivia d = some (gap, d')) (htoken : e.Token n c' d') :
        FollowsAt Ended (fun _ => e.Same n) c d
          (memberRest sub start [] isWord true key) (memberRest sub start [] isWord true key) := by
      intro a c' hrest
      rw [memberRest, bind_of_eq (peekTrivia_eq htrivia)] at hrest
      rw [memberRest, bind_of_eq (peekTrivia_eq htrivia')]
      exact followsAt_memberAt h start isWord key gap hsame htoken a c' hrest
    generalize trivia c = found at hpassed hover hinside
    generalize trivia d = found' at hpassed hinside
    cases hpassed with
    | token htoken => exact hinside rfl rfl (htoken.mono hsame.lt)
    | finish hrest => exact hover rfl hrest
    | runs hrest => exact hover rfl hrest
  · intro c hc a c' hrest
    have htrivia : trivia c = some ([], c) := comments_lost true (.inl hc)
    rw [memberRest, bind_of_eq (peekTrivia_eq htrivia)] at hrest
    rw [memberAt_lost (.inl hc) a c' hrest]
    exact Within.imp c hc

theorem decorators_absent (h : c.startsWith "@" = false) : decorators sub c = some ([], c) := by
  have hstep : (do
      if (← get).startsWith "@" then
        let node ← decorator sub
        return some (node :: (← trivia))
      else
        return none : Parser (Option (List Node))) c = some (none, c) := by
    rw [get_bind, h]
    rfl
  have hmany : many _ c = _ := collect_of_none hstep c.rest
  rw [decorators, bind_of_eq hmany]
  rfl

/-- Where the sign of a decorator is seen, there is a decorator. -/
theorem decorators_present (h : c.startsWith "@" = true) {marks : List Node} {c' : Cursor}
    (hc : decorators sub c = some (marks, c')) : marks.isEmpty = false := by
  obtain ⟨parts, c₁, hparts, hmarks⟩ := exists_of_bind hc
  cases hmarks
  rcases exists_of_collect hparts with ⟨-, hlast⟩ | ⟨a, more, c₂, rfl, hfirst, -⟩
  · rw [get_bind, h] at hlast
    obtain ⟨_, _, -, hlast⟩ := exists_of_bind hlast
    obtain ⟨_, _, -, hlast⟩ := exists_of_bind hlast
    cases hlast
  · rw [get_bind, h] at hfirst
    obtain ⟨_, _, -, hfirst⟩ := exists_of_bind hfirst
    obtain ⟨_, _, -, hfirst⟩ := exists_of_bind hfirst
    cases hfirst
    rfl

/-- A member without decorators and modifiers. -/
theorem follows_memberFrom (h : e.Subs sub) (start : Nat) :
    Follows Lost Ended (e.Same (n + 1)) (fun _ => e.Same n) (memberFrom sub start [] true) := by
  have hread (isWord : Bool) : Follows Lost Ended (e.Same (n + 1)) (fun _ => e.Same n)
      (propertyName sub >>= memberRest sub start [] isWord true) :=
    (strict_propertyName h n).bind (follows_memberRest h start isWord)
  constructor
  · intro c d hsame
    show FollowsAt Ended _ c d (propertyName sub >>= memberRest sub start [] (!c.seesWord "") true)
      (propertyName sub >>= memberRest sub start [] (!d.seesWord "") true)
    rw [hsame.seesWord_eq]
    exact (hread _).same c d hsame
  · intro c hc
    exact givesAt_get ((hread _).beyond c hc)

/-- A member with a key. One with a decorator or a modifier would be a method, whose body the text
cannot have. -/
theorem follows_namedMember (h : e.Subs sub) :
    Follows Lost Ended (e.Same (n + 1)) (fun _ => e.Same n) (namedMember sub) := by
  rw [namedMember_eq]
  refine .start fun start => ?_
  constructor
  · intro c d hsame
    have hat : d.startsWith "@" = c.startsWith "@" := hsame.startsWith_eq rfl
    intro a c' hmember
    obtain ⟨marks, c₁, hmarks, hrest⟩ := exists_of_bind hmember
    obtain ⟨⟨lead, methodOnly⟩, c₂, hfound, hfrom⟩ := exists_of_bind hrest
    have hrefuses : e.Refuses (memberFrom sub start (marks ++ lead) false) :=
      refuses_memberFrom h start _
    have hsuffix : c₂.rest <:+ e.text ++ ['\n', ')'] :=
      ((advances_decorators h _ _ _ hmarks).trans
        (advances_modifiers false _ _ _ hfound)).suffix.trans hsame.suffix
    cases hsees : c.startsWith "@" with
    | true =>
      rw [decorators_present hsees hmarks] at hfrom
      cases (hrefuses c₂ hsuffix).symm.trans hfrom
    | false =>
      rw [hsees] at hat
      rw [decorators_absent hsees] at hmarks
      cases hmarks
      rcases modifiers_cases hsame hfound with rfl | ⟨rfl, rfl, rfl, hd⟩
      · cases (hrefuses c₂ hsuffix).symm.trans hfrom
      · rw [bind_of_eq (decorators_absent hat), bind_of_eq hd]
        exact (follows_memberFrom h start).same _ d hsame a c' hfrom
  · intro c hc a c' hmember
    obtain ⟨text, pos⟩ := c
    obtain rfl | rfl : text = [] ∨ text = [')'] := hc
    · cases hmember
    · cases hmember

/-! ## Objects -/

/-- A pattern with a default value is read as an expression is. -/
theorem loose_patternDefault (h : e.Subs sub) : e.Loose (patternDefault sub) := by
  intro n
  refine (h.expression _ n).bind fun value => .guard fun _ => .guard fun _ => ?_
  exact follows_pure _

/-- A member of an object, whichever reading of a bracket is taken. -/
theorem follows_objectMember (h : e.Subs sub) :
    Follows Lost Ended (e.Same (n + 1)) (fun _ => e.Same n) (objectMember sub) := by
  have hspread : Follows Lost Ended (e.Same (n + 1)) (fun _ => e.Same n) (spread sub) :=
    (loose_spread h n).within
  have hdefault : Follows Lost Ended (e.Same (n + 1)) (fun _ => e.Same n) (patternDefault sub) :=
    (loose_patternDefault h n).within
  have hmember := follows_namedMember (n := n) h
  constructor
  · intro c d hsame
    show FollowsAt Ended _ c d
      (if c.startsWith "..." then spread sub else if c.startsWith "\x7b" then patternDefault sub
        else if c.startsWith "[" then namedMember sub <|> patternDefault sub else namedMember sub)
      (if d.startsWith "..." then spread sub else if d.startsWith "\x7b" then patternDefault sub
        else if d.startsWith "[" then namedMember sub <|> patternDefault sub else namedMember sub)
    have hdots : d.startsWith "..." = c.startsWith "..." := hsame.startsWith_eq rfl
    have hbrace : d.startsWith "\x7b" = c.startsWith "\x7b" := hsame.startsWith_eq rfl
    have hbracket : d.startsWith "[" = c.startsWith "[" := hsame.startsWith_eq rfl
    rw [hdots, hbrace, hbracket]
    refine .ite (fun _ => hspread.same c d hsame) fun _ => .ite (fun _ => hdefault.same c d hsame)
      fun _ => .ite (fun hsees => ?_) fun _ => hmember.same c d hsame
    obtain ⟨rest, hrest⟩ := rest_of_startsWith rfl hsees
    refine (hmember.same c d hsame).first (h.bracket c hsame.suffix ?_)
    rw [hrest]
    rfl
  · intro c hc
    refine givesAt_get (.ite (hspread.beyond c hc) (.ite (hdefault.beyond c hc) (.ite ?_ (hmember.beyond c hc))))
    exact .orElse (hmember.beyond c hc) (hdefault.beyond c hc)

/-- The members of an object as elements of a list that a brace closes. -/
theorem elements_objectMember (h : e.Subs sub) : e.Elements "\x7d" (objectMember sub) := by
  refine ⟨Ended, fun n => follows_objectMember h, fun c node hc => ?_⟩
  intro a c' hend
  obtain ⟨gap, c₁, hgap, hend⟩ := exists_of_bind hend
  -- a comma or a brace behind the gap is no markup
  have hnot (text : String) {mark : Char} {marks : List Char} (htext : text.toList = mark :: marks)
      (hmark : mark ≠ '<' ∧ mark ≠ '-' ∧ mark ≠ ')') : c₁.startsWith text = false := by
    rw [Bool.eq_false_iff]
    intro hstarts
    obtain ⟨rest, hrest⟩ := rest_of_startsWith htext hstarts
    have htrivia := trivia_of_plainTrivia hgap (by simp [hrest, hmark]) (by simp [hrest, hmark])
    rcases hc gap c₁ htrivia with hlost | hlost
    · cases hrest.symm.trans hlost
    · cases hrest.symm.trans hlost
      exact hmark.2.2 rfl
  rw [get_bind, hnot "," rfl (by decide), hnot "\x7d" rfl (by decide)] at hend
  cases hend

/-- An object ends with a brace of its own, within the text. -/
theorem strict_object (h : e.Subs sub) : e.Strict (object sub) := by
  intro n
  refine .start fun start => ?_
  refine (strict_commaList rfl (by decide) rfl (by decide) (elements_objectMember h) n).bind fun items => ?_
  exact follows_node _ _ _

end NotebookCell.Script.Ending
