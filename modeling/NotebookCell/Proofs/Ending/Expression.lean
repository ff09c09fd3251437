import NotebookCell.Proofs.Ending.Operand

/-!
# Expressions before two ends

An expression is an operand with signs and words in front of it, and operators with operands behind it.
None of the operators begins with a stop, so both ends cut the text at the same operand
(`follows_continueFrom`).
-/

namespace NotebookCell.Script.Ending

open NotebookCell.Tree NotebookCell.Script.Parser

variable {e : Ending} {sub : Parsers} {α : Type} {c d : Cursor} {m n : Nat}

/-! ## Operators in front -/

/-- An operator in front of an operand closes nothing. -/
theorem loose_unary (h : e.Subs sub) {spelling : String}
    (hspelling : spelling.toList.all (!isStop ·) = true) (hne : spelling.toList ≠ []) :
    e.Loose (unary sub spelling false) := by
  intro n
  refine .start fun start => (strict_literal hspelling hne n).bind fun _ => ?_
  exact follows_trivia.plain.bind fun _ => ((h.expression _).weak n).bind fun _ => follows_node _ _ _

/-- Behind both marks of an increment. -/
theorem followsAt_increment (h : e.Subs sub) (hsame : e.Same (n + 1) c d) (hinside : 4 ≤ c.rest.length) :
    FollowsAt Over (fun _ => e.Same n) c d (increment sub false) (increment sub false) := by
  have hlt := hsame.lt
  have hread (start : Nat) : Follows Lost Over (e.Same n) (fun _ => e.Same n) (do
      let gap ← trivia
      let operand ← sub.expression Level.update false
      node .updateExpression start (gap ++ [operand.as .argument])) :=
    follows_trivia.plain.bind fun _ => ((h.expression _).weak n).bind fun _ => follows_node _ _ _
  have hskip : e.Same n (c.skip 2) (d.skip 2) := hsame.skip hinside (by omega)
  intro a c' hc'
  have hfound := (hread c.pos).same _ _ hskip a c' hc'
  rw [← hsame.pos] at hfound
  exact hfound

/-- No operand begins at a closing mark. -/
theorem beginsOperand_closed (h : Closed c) : beginsOperand c.rest = false := by
  rcases h with hc | ⟨rest, hc | hc⟩
  · rw [hc]
    rfl
  · rw [hc]
    rfl
  · rw [hc]
    rfl

/-- An operand begins in front of both ends or of none. -/
theorem Token.beginsOperand_eq (h : e.Token m c d) : beginsOperand d.rest = beginsOperand c.rest := by
  obtain ⟨first, left, hleft, hc, hd⟩ := h.exists_cons
  have hends := e.endsEscapes.suffix hleft
  rw [hc, hd]
  exact (beginsOperand_append_stop e.isStop_close hends (List.cons_ne_nil _ _)).trans
    (beginsOperand_append_stop rfl hends (List.cons_ne_nil _ _)).symm

/-- The word `yield` has an operand in front of both ends or of none. -/
theorem loose_yield (h : e.Subs sub) : e.Loose (yield sub false) := by
  intro n
  refine .start fun start => (strict_keyword rfl (by decide) n).bind fun _ => ?_
  refine Follows.within (follows_lookahead (quiet_node .yieldExpression start []) ?_
    (fun _ _ _ _ h _ => h) ?_)
  · intro gap c hc
    dsimp only
    rw [closed_startsWith hc rfl rfl, beginsOperand_closed hc]
    rfl
  · intro gap c d c' d' hsame htoken
    have hstar : d'.startsWith "*" = c'.startsWith "*" := htoken.startsWith_eq rfl
    have hpower : d'.startsWith "**" = c'.startsWith "**" := htoken.toSame.startsWith_eq rfl
    have hall : Follows Lost Over (e.Same n) (fun _ => e.Same n) (do
        literal "*"
        let gap' ← trivia
        let operand ← sub.expression Level.lowest false
        node .yieldExpression start (gap ++ gap' ++ [operand])) := by
      refine ((strict_literal rfl (by decide)).weak n).bind fun _ => follows_trivia.plain.bind fun _ => ?_
      exact ((h.expression _).weak n).bind fun _ => follows_node _ _ _
    have hone : Follows Lost Over (e.Same n) (fun _ => e.Same n) (do
        let operand ← sub.expression Level.lowest false
        node .yieldExpression start (gap ++ [operand])) :=
      ((h.expression _).weak n).bind fun _ => follows_node _ _ _
    have hnode : Follows Over Over (e.Same n) (fun _ => e.Same n) (node .yieldExpression start []) :=
      follows_node _ _ _
    dsimp only
    rw [hstar, hpower, htoken.beginsOperand_eq]
    exact .ite (fun _ => .set (hall.same c' d' htoken.toSame)) fun _ =>
      .ite (fun _ => .set (hone.same c' d' htoken.toSame)) fun _ => hnode.same c d hsame

/-- No word stands at a closing mark. -/
theorem closed_seesWord (h : Closed c) {text : String} {mark : Char} {marks : List Char}
    (htext : text.toList = mark :: marks) (hmark : isStop mark = false) : c.seesWord text = false := by
  rw [Bool.eq_false_iff]
  intro hsees
  obtain ⟨rest, hrest⟩ := rest_of_seesWord htext hsees
  rcases h with hc | ⟨_, hc | hc⟩
  · cases hc.symm.trans hrest
  · cases hc.symm.trans hrest
    cases hmark
  · cases hc.symm.trans hrest
    cases hmark

/-- A keyword that is not seen is not read. -/
theorem keyword_refused {text : String} (h : c.seesWord text = false) : keyword text c = none := by
  rw [keyword, get_bind, h]
  rfl

/-- A private name is followed by `in`, never by an end. -/
theorem loose_privateTest (h : e.Subs sub) : e.Loose (privateTest sub false) := by
  intro n
  refine (strict_privateName n).bind fun name => ?_
  refine Follows.within (follows_lookahead quiet_failure ?_ (fun _ _ _ _ h _ => h) ?_)
  · intro gap c hc
    have hword : c.seesWord "in" = false := closed_seesWord hc rfl rfl
    funext x
    have hset (f : PUnit → Parser Node) : (set c >>= f) x = f ⟨⟩ c := rfl
    exact (hset _).trans (bind_of_refused (keyword_refused hword) _)
  · intro gap c d c' d' hsame htoken
    have hread : Follows Lost Over (e.Same n) (fun _ => e.Same n) (do
        keyword "in"
        let gap' ← trivia
        let operand ← sub.expression 9 false
        node .binaryExpression name.start ([name] ++ gap ++ gap' ++ [operand])) := by
      refine ((strict_keyword rfl (by decide)).weak n).bind fun _ => follows_trivia.plain.bind fun _ => ?_
      exact ((h.expression _).weak n).bind fun _ => follows_node _ _ _
    exact .set (hread.same c' d' htoken.toSame)

/-- An operand that begins with a given word. -/
def frontedWord (sub : Parsers) : String → Parser Node
  | "typeof" => unary sub "typeof" false
  | "void" => unary sub "void" false
  | "delete" => unary sub "delete" false
  | "yield" => yield sub false
  | "await" => await sub false <|> primary sub false false
  | "new" => construct sub false <|> primary sub false false
  | _ => primary sub false false

/-- An operand of the text that begins with a given word. -/
def frontedAt (sub : Parsers) (text : List Char) (word : String) : Parser Node :=
  match text with
  | '+' :: '+' :: _ => increment sub false
  | '-' :: '-' :: _ => increment sub false
  | '+' :: _ => unary sub "+" false
  | '-' :: _ => unary sub "-" false
  | '!' :: _ => unary sub "!" false
  | '~' :: _ => unary sub "~" false
  | '<' :: _ => markup sub
  | '#' :: _ => privateTest sub false
  | _ => frontedWord sub word

/-- What stands in front of an operand is decided by the text and its first word. -/
theorem fronted_eq : fronted sub false = get >>= fun c => frontedAt sub c.rest c.word := rfl

/-- Where no sign stands, the first word decides. -/
theorem frontedAt_other {first : Char} {rest : List Char} (word : String)
    (hfirst : first ∉ ['+', '-', '!', '~', '<', '#']) :
    frontedAt sub (first :: rest) word = frontedWord sub word := by
  simp only [List.mem_cons, List.not_mem_nil, or_false, not_or] at hfirst
  unfold frontedAt
  split <;> simp_all

/-- A sign that is not half of an increment. -/
theorem frontedAt_sign {first : Char} {rest : List Char} (word : String) (hfirst : first = '+' ∨ first = '-')
    (hrest : rest.head? ≠ some first) :
    frontedAt sub (first :: rest) word = unary sub (String.singleton first) false := by
  unfold frontedAt
  rcases hfirst with rfl | rfl
  · split <;> simp_all
  · split <;> simp_all

/-! ### The word `new` -/

theorem token_of_isDigit {first : Char} (h : first.isDigit = true) :
    isBlank first = false ∧ first ≠ '/' ∧ first ≠ '<' ∧ first ≠ '-' := by
  obtain ⟨hlow, hhigh⟩ := toNat_of_isDigit h
  rw [← Char.ofNat_toNat first]
  generalize first.toNat = code at hlow hhigh
  have hcode : code = 48 ∨ code = 49 ∨ code = 50 ∨ code = 51 ∨ code = 52 ∨ code = 53 ∨ code = 54 ∨
      code = 55 ∨ code = 56 ∨ code = 57 := by omega
  rcases hcode with rfl | rfl | rfl | rfl | rfl | rfl | rfl | rfl | rfl | rfl <;> decide

/-- There is nothing to skip in front of a digit. -/
theorem trivia_digit {first : Char} {rest : List Char} (hc : c.rest = first :: rest)
    (h : first.isDigit = true) : trivia c = some ([], c) := by
  obtain ⟨hblank, hslash, hopen, hclose⟩ := token_of_isDigit h
  obtain ⟨text, pos⟩ := c
  subst hc
  exact trivia_token hblank hslash hopen hclose

/-- A point without a digit behind it is no number. -/
theorem numberLength_dot {rest : List Char} (h : rest.head?.any Char.isDigit = false) :
    numberLength ('.' :: rest) = 0 := by
  have hfraction : fractionLength ('.' :: rest) = 0 := by
    show (if 0 == 0 && digitRun Char.isDigit rest == 0 then 0 else _) = 0
    rw [digitRun, h]
    rfl
  show [0, 0, 0, fractionLength ('.' :: rest), 0].foldl max 0 = 0
  rw [hfraction]
  rfl

/-- A dot in front of no digit is no primary expression. -/
theorem primary_dot {constructing : Bool} {rest : List Char} (hc : c.rest = '.' :: rest)
    (h : rest.head?.any Char.isDigit = false) : primary sub false constructing c = none := by
  rw [primary_eq, get_bind, hc]
  show number c = none
  rw [number, get_bind, hc, numberLength_dot h]
  rfl

/-- Where `new.target` is read there is no construction. -/
theorem construct_of_target {start : Nat} {found : Node × Cursor}
    (h : (keyword "new" >>= fun _ => metaRest start "target") c = some found) :
    construct sub false c = none := by
  obtain ⟨node, c'⟩ := found
  obtain ⟨_, c₁, hnew, hmeta⟩ := exists_of_bind h
  obtain ⟨gap, c₂, hgap, hmeta⟩ := exists_of_bind hmeta
  obtain ⟨_, c₃, hdot, hmeta⟩ := exists_of_bind hmeta
  obtain ⟨gap', c₄, hgap', hmeta⟩ := exists_of_bind hmeta
  obtain ⟨_, c₅, htarget, -⟩ := exists_of_bind hmeta
  obtain ⟨hstarts, rfl⟩ := rest_of_literal hdot
  obtain ⟨rest, hrest⟩ : ∃ rest, c₂.rest = '.' :: rest := rest_of_startsWith rfl hstarts
  have htrivia : trivia c₁ = some (gap, c₂) :=
    trivia_of_plainTrivia hgap (by simp [hrest]) (by simp [hrest])
  have hsees : c₂.seesWord "new" = false := by
    rw [Bool.eq_false_iff]
    intro hsees
    obtain ⟨_, hother⟩ := rest_of_seesWord rfl hsees
    cases hrest.symm.trans hother
  have hsees' : c₄.seesWord "target" = true := by
    by_contra hnot
    cases (keyword_refused (Bool.not_eq_true _ ▸ hnot)).symm.trans htarget
  have hdigit : rest.head?.any Char.isDigit = false := by
    cases rest with
    | nil => rfl
    | cons first rest =>
      rw [Bool.eq_false_iff]
      intro hfirst
      have hskip : (c₂.skip 1).rest = first :: rest := by rw [Cursor.skip, hrest]; rfl
      cases (trivia_digit hskip hfirst).symm.trans hgap'
      obtain ⟨_, hother⟩ := rest_of_seesWord rfl hsees'
      cases hskip.symm.trans hother
      cases hfirst
  rw [construct, position_bind, bind_of_eq hnew, bind_of_eq htrivia, get_bind, hsees]
  exact bind_of_refused (primary_dot hrest hdigit) _

/-- An operand by its first word. For the word `new` two readings are tried one behind the other. -/
theorem followsAt_frontedWord (h : e.Subs sub) (hsame : e.Same (n + 1) c d) :
    FollowsAt Over (fun _ => e.Same n) c d (frontedWord sub c.word) (frontedWord sub d.word) := by
  have hawait : c.word ≠ "await" := by
    have hfork : c.seesWord "await" = false := seesWord_fork hsame.suffix rfl (by decide) (by decide)
    exact fun hword => ne_of_beq_false hfork hword
  have hprimary := loose_primary h false n
  rw [hsame.word_eq]
  by_cases hnew : c.word = "new"
  · rw [hnew]
    refine ((loose_construct h n).same c d hsame).orElse (hprimary.same c d hsame) fun found hd => ?_
    have hnew' : d.seesWord "new" = true := by
      rw [hsame.seesWord_eq, Cursor.seesWord, hnew]
      rfl
    exact construct_of_target (target_of_primary hnew' hd)
  · have hother : Follows Lost Over (e.Same (n + 1)) (fun _ => e.Same n) (frontedWord sub c.word) := by
      unfold frontedWord
      split
      · exact loose_unary h rfl (by decide) n
      · exact loose_unary h rfl (by decide) n
      · exact loose_unary h rfl (by decide) n
      · exact loose_yield h n
      · next hword => exact absurd hword hawait
      · next hword => exact absurd hword hnew
      · exact hprimary
    exact hother.same c d hsame

/-- An operand with what stands in front of it is read before both ends. -/
theorem loose_fronted (h : e.Subs sub) : e.Loose (fronted sub false) := by
  intro n
  rw [fronted_eq]
  constructor
  · intro c d hsame
    show FollowsAt Over _ c d (frontedAt sub c.rest c.word) (frontedAt sub d.rest d.word)
    obtain ⟨left, -, hc, hd⟩ := hsame.left
    cases left with
    | nil =>
      refine .refused ?_
      obtain ⟨text, pos⟩ := c
      subst hc
      rfl
    | cons first left =>
      rw [List.cons_append] at hc hd
      have hlength : c.rest.length = left.length + 3 := by rw [hc]; simp
      rw [hc, hd]
      by_cases hsign : first = '+' ∨ first = '-'
      · have hunary : Follows Lost Over (e.Same (n + 1)) (fun _ => e.Same n)
            (unary sub (String.singleton first) false) := by
          rcases hsign with rfl | rfl
          · exact loose_unary h rfl (by decide) n
          · exact loose_unary h rfl (by decide) n
        by_cases hhead : left.head? = some first
        · obtain ⟨left, rfl⟩ := List.head?_eq_some_iff.mp hhead
          rw [List.length_cons] at hlength
          have hread := followsAt_increment h hsame (by omega)
          rcases hsign with rfl | rfl
          · exact hread
          · exact hread
        · have hnot {stop : Char} (hstop : isStop stop = true) (tail : List Char) :
              (left ++ stop :: tail).head? ≠ some first := by
            cases left with
            | nil =>
              rcases hsign with rfl | rfl
              · simpa using ne_of_isStop hstop (by decide)
              · simpa using ne_of_isStop hstop (by decide)
            | cons second left => exact hhead
          rw [frontedAt_sign _ hsign (hnot rfl _), frontedAt_sign _ hsign (hnot e.isStop_close _)]
          exact hunary.same c d hsame
      by_cases hmark : first = '!'
      · subst hmark
        exact (loose_unary h rfl (by decide) n).same c d hsame
      by_cases htilde : first = '~'
      · subst htilde
        exact (loose_unary h rfl (by decide) n).same c d hsame
      by_cases hangle : first = '<'
      · subst hangle
        exact ((strict_markup h).loose n).same c d hsame
      by_cases hhash : first = '#'
      · subst hhash
        exact (loose_privateTest h n).same c d hsame
      rw [not_or] at hsign
      rw [frontedAt_other _ (by simp_all), frontedAt_other _ (by simp_all)]
      exact followsAt_frontedWord h hsame
  · intro c hc
    refine givesAt_get ?_
    obtain ⟨text, pos⟩ := c
    obtain rfl | rfl : text = [] ∨ text = [')'] := hc
    · exact (loose_primary h false n).beyond _ (.inl rfl)
    · exact (loose_primary h false n).beyond _ (.inr rfl)

/-! ## Assignments -/

/-- The assignment operator at a cursor, if it has several characters. -/
def compoundAssignment (c : Cursor) : Option String :=
  compoundAssignments.find? fun spelling => c.startsWith spelling

/-- How a node is assigned to: the target, if it can be one, the kind of the assignment and its
operator. -/
def assignmentTo (assigns : Bool) (compound : Option String) (left : Node) :
    Option (Option Node × Kind × String) :=
  match left.kind with
  | .identifier | .memberExpression | .subscriptExpression | .parenthesizedExpression =>
    if assigns then some (some left, .assignmentExpression, "=")
    else compound.map fun spelling => (some left, .augmentedAssignmentExpression, spelling)
  | .undefinedWord => if assigns then some (some left, .assignmentExpression, "=") else none
  | .array | .object => if assigns then some (asPattern? left, .assignmentExpression, "=") else none
  | _ => none

/-- An assignment to `left` from its operator on. -/
def assignmentFrom (sub : Parsers) (left : Node) (gap : List Node) (c : Cursor) :
    Option (Option Node × Kind × String) → Parser Node
  | none => pure left
  | some (target, kind, spelling) => do
    let target ← ofOption target
    set c
    literal spelling
    let gap' ← trivia
    let right ← sub.expression Level.lowest false
    node kind left.start ([target.as .left] ++ gap ++ gap' ++ [right])

/-- What an assignment looks at, and what it does with that, apart from each other. -/
theorem assignment_eq {left : Node} :
    assignment sub false left = (do
      match ← lookahead false with
      | none => return left
      | some (gap, c) =>
        assignmentFrom sub left gap c (assignmentTo (assigns c) (compoundAssignment c) left)) := by
  rw [assignment]
  congr 1
  funext found
  cases found with
  | none => rfl
  | some found =>
    obtain ⟨gap, c⟩ := found
    unfold assignmentTo assigns compoundAssignment
    dsimp only
    generalize (c.startsWith "=" && !c.startsWith "==" && !c.startsWith "=>") = equals
    generalize compoundAssignments.find? (fun spelling => c.startsWith spelling) = compound
    generalize left.kind = kind
    -- most kinds of nodes cannot be assigned to, whatever the operator is
    cases kind <;> first | rfl | (cases equals <;> cases compound <;> rfl)

/-- Without an operator there is no assignment. -/
theorem assignmentTo_absent (left : Node) : assignmentTo false none left = none := by
  unfold assignmentTo
  split <;> rfl

/-- The operator of an assignment is one that was seen. -/
theorem spelling_of_assignmentTo {equals : Bool} {compound : Option String} {left : Node}
    {target : Option Node} {kind : Kind} {spelling : String}
    (h : assignmentTo equals compound left = some (target, kind, spelling)) :
    spelling = "=" ∨ compound = some spelling := by
  unfold assignmentTo at h
  split at h <;> cases equals <;> cases compound <;> cases h <;> simp

section
variable {β : Type} {f : β → String} {items : List β}

/-- The spellings of the items are marks that close nothing. -/
def AreOpen (f : β → String) (items : List β) : Prop :=
  ∀ item ∈ items, (f item).toList.all (!isStop ·) = true ∧ (f item).toList ≠ []

instance : Decidable (AreOpen f items) := inferInstanceAs (Decidable (∀ item ∈ items, _))

/-- No open mark is found at a closing one. -/
theorem closed_find? (h : AreOpen f items) (hc : Closed c) :
    items.find? (fun item => c.startsWith (f item)) = none := by
  rw [List.find?_eq_none]
  intro item hitem
  obtain ⟨hall, hne⟩ := h item hitem
  obtain ⟨mark, marks, htext⟩ := List.exists_cons_of_ne_nil hne
  rw [htext, List.all_cons, Bool.and_eq_true, Bool.not_eq_true'] at hall
  rw [closed_startsWith hc htext hall.1]
  exact Bool.false_ne_true

/-- The same open mark is found in front of both ends. -/
theorem Same.find?_eq (hsame : e.Same m c d) (h : AreOpen f items) :
    items.find? (fun item => d.startsWith (f item)) =
      items.find? (fun item => c.startsWith (f item)) := by
  induction items with
  | nil => rfl
  | cons item items ih =>
    have hitem := (h item List.mem_cons_self).1
    rw [List.find?_cons, List.find?_cons, hsame.startsWith_eq hitem,
      ih fun other hother => h other (List.mem_cons_of_mem item hother)]

end

/-- No assignment operator begins with a stop. -/
theorem areOpen_compoundAssignments : AreOpen id compoundAssignments := by decide

theorem areOpen_binaryOperators : AreOpen BinaryOperator.spelling binaryOperators := by decide

/-- An assignment goes on in front of both ends or of none. -/
theorem follows_assignment (h : e.Subs sub) (left : Node) :
    Follows Over Over (e.Same m) (fun _ => e.Same m) (assignment sub false left) := by
  rw [assignment_eq]
  refine follows_lookahead (quiet_pure left) ?_ (fun _ _ _ _ h _ => h) ?_
  · intro gap c hc
    have hequals : assigns c = false := by
      rw [assigns, closed_startsWith hc rfl rfl]
      rfl
    have hcompound : compoundAssignment c = none := closed_find? areOpen_compoundAssignments hc
    dsimp only
    rw [hequals, hcompound, assignmentTo_absent]
    rfl
  · intro gap c d c' d' hsame htoken
    have hequals : assigns d' = assigns c' := by
      have hone : d'.startsWith "=" = c'.startsWith "=" := htoken.startsWith_eq rfl
      have htwo : d'.startsWith "==" = c'.startsWith "==" := htoken.toSame.startsWith_eq rfl
      have harrow : d'.startsWith "=>" = c'.startsWith "=>" := htoken.toSame.startsWith_eq rfl
      rw [assigns, assigns, hone, htwo, harrow]
    have hcompound : compoundAssignment d' = compoundAssignment c' :=
      htoken.toSame.find?_eq areOpen_compoundAssignments
    dsimp only
    rw [hequals, hcompound]
    cases hplan : assignmentTo (assigns c') (compoundAssignment c') left with
    | none => exact .pure hsame
    | some plan =>
      obtain ⟨target, kind, spelling⟩ := plan
      cases target with
      | none => exact followsAt_failure
      | some target =>
        have hspelling : spelling.toList.all (!isStop ·) = true ∧ spelling.toList ≠ [] := by
          rcases spelling_of_assignmentTo hplan with rfl | hfound
          · decide
          · exact areOpen_compoundAssignments spelling (List.mem_of_find?_eq_some hfound)
        have hread : Follows Lost Over (e.Same m) (fun _ => e.Same m) (do
            literal spelling
            let gap' ← trivia
            let right ← sub.expression Level.lowest false
            node kind left.start ([target.as .left] ++ gap ++ gap' ++ [right])) := by
          refine ((strict_literal hspelling.1 hspelling.2).weak m).bind fun _ => ?_
          exact follows_trivia.plain.bind fun _ => ((h.expression _).weak m).bind fun _ =>
            follows_node _ _ _
        exact hread.same c' d' htoken.toSame

/-! ## Operators between -/

theorem seesConditional_closed (h : Closed c) : c.seesConditional = false := by
  rw [Cursor.seesConditional]
  rcases h with hc | ⟨rest, hc | hc⟩ <;> rw [hc] <;> rfl

/-- A question mark is seen in front of both ends or of none. -/
theorem Token.seesConditional_eq (h : e.Token m c d) : d.seesConditional = c.seesConditional := by
  obtain ⟨first, left, -, hc, hd⟩ := h.exists_cons
  rw [Cursor.seesConditional, Cursor.seesConditional, hc, hd]
  by_cases hmark : first = '?'
  · subst hmark
    cases left with
    | nil => rcases e.closes with hclose | hclose <;> rw [hclose] <;> rfl
    | cons second left =>
      have hdigit {stop : Char} (hstop : isStop stop = true) (tail : List Char) :
          (left ++ stop :: tail).head?.any Char.isDigit = left.head?.any Char.isDigit :=
        head?_any_append (not_of_isStop hstop (by decide) (by decide) (by decide))
      by_cases hdot : second = '.'
      · subst hdot
        exact (hdigit e.isStop_close _).trans (hdigit rfl _).symm
      · by_cases hchain : second = '?'
        · subst hchain
          rfl
        · simp [hdot, hchain]
  · simp [hmark]

theorem binaryOperator?_closed (h : Closed c) : c.binaryOperator? = none := by
  have hin : c.seesWord "in" = false := closed_seesWord h rfl rfl
  have hof : c.seesWord "instanceof" = false := closed_seesWord h rfl rfl
  rw [Cursor.binaryOperator?, hin, hof]
  exact closed_find? areOpen_binaryOperators h

/-- The same operator follows in front of both ends. -/
theorem Same.binaryOperator?_eq (h : e.Same m c d) : d.binaryOperator? = c.binaryOperator? := by
  rw [Cursor.binaryOperator?, Cursor.binaryOperator?, h.seesWord_eq, h.seesWord_eq, h.word_eq,
    h.find?_eq areOpen_binaryOperators]

/-- An operator between operands has at least one character, and none of them is a stop. -/
theorem spelling_of_binaryOperator? {operator : BinaryOperator} (h : c.binaryOperator? = some operator) :
    operator.spelling.toList.all (!isStop ·) = true ∧ operator.spelling.toList ≠ [] := by
  rw [Cursor.binaryOperator?] at h
  split at h
  · next hword =>
    rw [Bool.or_eq_true, Cursor.seesWord, Cursor.seesWord, beq_iff_eq, beq_iff_eq] at hword
    cases h
    rcases hword with hword | hword
    · rw [hword]
      decide
    · rw [hword]
      decide
  · exact areOpen_binaryOperators operator (List.mem_of_find?_eq_some h)

/-- One more operator and operand, or none at an end. -/
theorem follows_operation (h : e.Subs sub) (level : Nat) (left : Node) :
    Follows Over Over (e.Same (n + 1)) (Stepwise e.Same n) (operation sub level false left) := by
  refine follows_lookahead (quiet_pure none) ?_ (fun _ _ _ _ => stepwise_none) ?_
  · intro gap c hc
    dsimp only
    rw [seesConditional_closed hc, binaryOperator?_closed hc]
    rfl
  · intro gap c d c' d' hsame htoken
    dsimp only
    rw [htoken.seesConditional_eq, htoken.toSame.binaryOperator?_eq]
    have hlt := htoken.lt
    refine .ite (fun _ => ?_) fun _ => ?_
    · have hconditional : Follows Lost Over (e.Same n) (Stepwise e.Same n) (do
          let gap₁ ← trivia
          let first ← sub.expression Level.lowest false
          let gap₂ ← plainTrivia
          literal ":"
          let gap₃ ← trivia
          let second ← sub.expression Level.lowest false
          return some (← node .ternaryExpression left.start
            ([left] ++ gap ++ gap₁ ++ [first] ++ gap₂ ++ gap₃ ++ [second]))) := by
        refine follows_trivia.plain.bind fun _ => ((h.expression _).weak n).bind fun _ => ?_
        refine follows_plainTrivia.plain.bind fun _ => ((strict_literal rfl (by decide)).weak n).bind fun _ => ?_
        refine follows_trivia.plain.bind fun _ => ((h.expression _).weak n).bind fun _ => ?_
        exact .part fun _ => follows_return fun _ _ h => h
      obtain ⟨first, rest, -, hc', -⟩ := htoken.exists_cons
      have hlength : c'.rest.length = rest.length + 3 := by rw [hc']; simp
      exact .set (hconditional.same _ _ (htoken.toSame.skip (by omega) (by omega)))
    · cases hoperator : c'.binaryOperator? with
      | none => exact .pure hsame
      | some operator =>
        obtain ⟨hspelling, hne⟩ := spelling_of_binaryOperator? hoperator
        have hbinary : Follows Lost Over (e.Same (n + 1)) (Stepwise e.Same n) (do
            literal operator.spelling
            let gap' ← trivia
            let right ← sub.expression (if operator.rightward then operator.level
              else operator.level + 1) false
            return some (← node .binaryExpression left.start ([left] ++ gap ++ gap' ++ [right]))) := by
          refine (strict_literal hspelling hne n).bind fun _ => follows_trivia.plain.bind fun _ => ?_
          refine ((h.expression _).weak n).bind fun _ => ?_
          exact .part fun _ => follows_return fun _ _ h => h
        exact .ite (fun _ => .pure hsame) fun _ => .set (hbinary.same c' d' htoken.toSame)

/-- An expression whose first operand has been read ends in front of both ends. -/
theorem follows_continueFrom (h : e.Subs sub) (level : Nat) (first : Node) :
    Follows Over Over (e.Same m) (fun _ => e.Same m) (continueFrom sub level false first) := by
  refine (follows_iterate (place_same e) (fun left _ => follows_access h false _ left) first).bind
    fun operand => (follows_assignment h operand).bind fun operand => ?_
  exact follows_iterate (place_same e) (fun left _ => follows_operation h level left) operand

/-- An expression that ends before one end ends before the other, if those inside it do. -/
theorem loose_expression (h : e.Subs sub) (level : Nat) : e.Loose (expression sub level false) := by
  intro n
  refine .ite (fun _ => loose_primary h false n) fun _ => (loose_fronted h n).bind fun first => ?_
  exact follows_continueFrom h level first

end NotebookCell.Script.Ending
