import NotebookCell.Proofs.Script.Operand

/-!
# Reading tagged templates

A template behind a tag reads as the call of the tag on the template. `ReadsTag` says that a text is
a tag: it reads as the same operand wherever it stands.

* `readsTag_name`, `readsTag_member`, `readsTag_call`: a name, a member of a name, and the call of
  a name on a name and a member are tags;
* `expression_tagged`: a tag and a template are one expression.
-/

namespace NotebookCell.Text

/-! ## Slices by bytes -/

open NotebookCell.Script (byteLength)

theorem byteSlice_go_shift (start stop pos shift : Nat) (text : List Char) :
    byteSlice.go (shift + start) (shift + stop) text (shift + pos) =
      byteSlice.go start stop text pos := by
  induction text generalizing pos with
  | nil => rfl
  | cons c text ih =>
    rw [byteSlice.go, byteSlice.go, Nat.add_assoc, ih]
    simp only [Nat.add_le_add_iff_left]

/-- Nothing is taken from what lies before the slice. -/
theorem byteSlice_go_skip {start stop pos : Nat} (before text : List Char)
    (h : pos + byteLength before ≤ start) :
    byteSlice.go start stop (before ++ text) pos =
      byteSlice.go start stop text (pos + byteLength before) := by
  induction before generalizing pos with
  | nil => rfl
  | cons c before ih =>
    rw [byteLength] at h ⊢
    have hc := c.utf8Size_pos
    rw [List.cons_append, byteSlice.go, ih (by omega), if_neg (show ¬ start ≤ pos by omega)]
    split
    · cases text with
      | nil => rfl
      | cons d text => rw [byteSlice.go, if_pos (by omega)]
    · rw [Nat.add_assoc]

/-- Nothing is taken from what lies behind the slice. -/
theorem byteSlice_go_append {start stop pos : Nat} (text after : List Char)
    (h : stop ≤ pos + byteLength text) :
    byteSlice.go start stop (text ++ after) pos = byteSlice.go start stop text pos := by
  induction text generalizing pos with
  | nil =>
    rw [byteLength, Nat.add_zero] at h
    cases after with
    | nil => rfl
    | cons c after =>
      show byteSlice.go start stop (c :: after) pos = []
      rw [byteSlice.go, if_pos h]
  | cons c text ih =>
    rw [byteLength] at h
    rw [List.cons_append, byteSlice.go, byteSlice.go, ih (by omega)]

/-- A slice of a part of a text. -/
theorem byteSlice_within (before text after : List Char) {start stop : Nat}
    (h : stop ≤ byteLength text) :
    byteSlice (before ++ (text ++ after)) (byteLength before + start) (byteLength before + stop) =
      byteSlice text start stop := by
  have hskip := @byteSlice_go_skip (byteLength before + start) (byteLength before + stop) 0 before
    (text ++ after) (by omega)
  rw [byteSlice, hskip, Nat.zero_add]
  exact (byteSlice_go_shift start stop 0 (byteLength before) (text ++ after)).trans
    (byteSlice_go_append text after (by omega))

end NotebookCell.Text

namespace NotebookCell.Script

open NotebookCell.Tree NotebookCell.Text NotebookCell.Script.Parser

/-! ## Tags -/

/-- A node inside a tag has the same name wherever the tag stands. -/
theorem nameIn_tag {before tag after : List Char} {node other : Node} (start stop : Nat)
    (hstart : node.start = byteLength before + start) (hstop : node.stop = byteLength before + stop)
    (hstart' : other.start = 1 + start) (hstop' : other.stop = 1 + stop)
    (h : stop ≤ byteLength tag) :
    nameIn (before ++ (tag ++ after)) node = nameIn (enclose tag) other := by
  have hown := @byteSlice_within ['('] tag ['\n', ')'] start stop h
  rw [nameIn, hstart, hstop, byteSlice_within before tag after h, nameIn, hstart', hstop']
  exact congrArg String.ofList hown.symm

/-- A text that reads as an operand wherever it stands; `callee pos` is the operand at `pos`. -/
structure ReadsTag (tag : List Char) (callee : Nat → Node) : Prop where
  kind : ∀ pos, (callee pos).kind = .identifier ∨ (callee pos).kind = .memberExpression ∨
    (callee pos).kind = .callExpression
  named : ∀ pos, (callee pos).named = true
  settled : ∀ pos, hasStrayDefault (callee pos) = false
  clean : '\x00' ∉ tag
  begins : ∃ word rest, tag = word ++ rest ∧ isName word = true ∧
    (rest = [] ∨ rest.head? = some '.' ∨ rest.head? = some '(')
  reads : ∀ (depth : Nat) (asi : Bool) (stop : Char) (rest : List Char) (pos : Nat),
    endsWord stop = true →
    (∀ pos, arrowBehind asi ⟨stop :: rest, pos⟩ = some (none, ⟨stop :: rest, pos⟩)) →
    ∃ bound, operand (parsers (depth + 1)) asi ⟨tag ++ stop :: rest, pos⟩ =
      extend (access (parsers (depth + 1)) asi false true) bound (callee pos)
        ⟨stop :: rest, pos + byteLength tag⟩
  alike : ∀ before after : List Char,
    (callee (byteLength before)).Alike (nameIn (before ++ (tag ++ after))) (nameIn (enclose tag))
      (callee 1)

theorem ReadsTag.primary {tag : List Char} {callee : Nat → Node} (h : ReadsTag tag callee)
    (pos : Nat) : isPrimary (callee pos).kind = true := by
  rcases h.kind pos with hkind | hkind | hkind <;> rw [hkind] <;> rfl

/-- An identifier at an offset. -/
def identifierAt (word : List Char) (pos : Nat) : Node :=
  { kind := .identifier, start := pos, stop := pos + byteLength word }

/-- An identifier inside a tag is alike wherever the tag stands. -/
theorem alike_identifierAt {before tag after word : List Char} (offset : Nat)
    (h : offset + byteLength word ≤ byteLength tag) :
    (identifierAt word (byteLength before + offset)).Alike (nameIn (before ++ (tag ++ after)))
      (nameIn (enclose tag)) (identifierAt word (1 + offset)) :=
  Node.alike_of_name rfl rfl rfl
    (nameIn_tag offset _ rfl (Nat.add_assoc _ _ _) rfl (Nat.add_assoc _ _ _) h) trivial

theorem readsTag_name {word : List Char} (hname : isName word = true) :
    ReadsTag word (identifierAt word) where
  kind _ := .inl rfl
  named _ := rfl
  settled _ := rfl
  clean := nul_notMem_of_isName hname
  begins := ⟨word, [], (List.append_nil word).symm, hname, .inl rfl⟩
  reads depth asi stop rest pos hstop harrow := by
    refine ⟨stop :: rest, ?_⟩
    rw [operand, bind_of_eq (fronted_name hname hstop rest pos _ (harrow _))]
    rfl
  alike before after := alike_identifierAt 0 (by omega)

/-- A member of a name at an offset. -/
def memberAt (word property : List Char) (pos : Nat) : Node :=
  { kind := .memberExpression, start := pos,
    stop := pos + (byteLength word + (1 + byteLength property)),
    children := [identifierAt word pos,
      { kind := .propertyIdentifier, start := pos + (byteLength word + 1),
        stop := pos + (byteLength word + (1 + byteLength property)) }] }

/-- A name and a member of it, read as an operand. -/
theorem operand_member {word property : List Char} (hname : isName word = true)
    (hproperty : isName property = true) {stop : Char} (hstop : endsWord stop = true)
    (sub : Parsers) (asi : Bool) (rest : List Char) (pos : Nat) :
    operand sub asi ⟨word ++ '.' :: (property ++ stop :: rest), pos⟩ =
      extend (access sub asi false true) (property ++ stop :: rest) (memberAt word property pos)
        ⟨stop :: rest, pos + (byteLength word + (1 + byteLength property))⟩ := by
  have hdot : endsWord '.' = true := by decide
  have harrow := @arrowBehind_token '.' (property ++ stop :: rest) (pos + byteLength word)
    (by decide) (by decide) (by decide) (by decide) asi
  have haccess := @access_dot sub asi true (identifierAt word pos) (pos + byteLength word) property
    hproperty stop hstop rest
  simp only [Nat.add_assoc] at haccess
  rw [operand, bind_of_eq (fronted_name hname hdot (property ++ stop :: rest) pos _ harrow)]
  exact extend_of_some haccess '.' (property ++ stop :: rest)

/-- A member inside a tag is alike wherever the tag stands. -/
theorem alike_memberAt {before tag after word property : List Char} (offset : Nat)
    (h : offset + (byteLength word + (1 + byteLength property)) ≤ byteLength tag) :
    (memberAt word property (byteLength before + offset)).Alike (nameIn (before ++ (tag ++ after)))
      (nameIn (enclose tag)) (memberAt word property (1 + offset)) := by
  have hassoc : ∀ shift inner : Nat, shift + offset + inner = shift + (offset + inner) :=
    fun shift inner => Nat.add_assoc _ _ _
  refine Node.alike_of_name rfl rfl rfl (nameIn_tag offset _ rfl (hassoc _ _) rfl (hassoc _ _) h)
    ⟨⟨rfl, alike_identifierAt offset (by omega)⟩, ⟨rfl, ?_⟩, trivial⟩
  exact Node.alike_of_name rfl rfl rfl
    (nameIn_tag _ _ (hassoc _ _) (hassoc _ _) (hassoc _ _) (hassoc _ _) h) trivial

theorem readsTag_member {word property : List Char} (hname : isName word = true)
    (hproperty : isName property = true) :
    ReadsTag (word ++ '.' :: property) (memberAt word property) where
  kind _ := .inr (.inl rfl)
  named _ := rfl
  settled _ := rfl
  clean := by
    have hword := nul_notMem_of_isName hname
    have hproperty := nul_notMem_of_isName hproperty
    simp [hword, hproperty]
  begins := ⟨word, '.' :: property, rfl, hname, .inr (.inl rfl)⟩
  reads depth asi stop rest pos hstop _ := by
    refine ⟨property ++ stop :: rest, ?_⟩
    rw [List.append_assoc, byteLength_append]
    exact operand_member hname hproperty hstop _ asi rest pos
  alike before after := alike_memberAt 0 (by rw [byteLength_append]; exact Nat.le_of_eq (Nat.zero_add _))

/-! ## Lists in parentheses -/

section
variable {first : Char} {tail : List Char} {pos : Nat}

theorem endsExpression_comma (asi : Bool) : EndsExpression asi ⟨',' :: tail, pos⟩ :=
  .inr ⟨[], ',', tail, pos, .inl rfl, lookahead_token (by decide) (by decide) (by decide) asi⟩

theorem endsExpression_paren (asi : Bool) : EndsExpression asi ⟨')' :: tail, pos⟩ :=
  .inr ⟨[], ')', tail, pos, .inr (.inl rfl),
    lookahead_token (by decide) (by decide) (by decide) asi⟩

/-- The characters of names begin no punctuation. -/
theorem startsWith_of_namePart (hfirst : isNamePart first = true) {text : String} {mark : Char}
    {marks : List Char} (htext : text.toList = mark :: marks) (hmark : isNamePart mark = false) :
    (⟨first :: tail, pos⟩ : Cursor).startsWith text = false :=
  startsWith_of_ne htext (ne_of_namePart hfirst hmark)

theorem isBlank_of_namePart (hfirst : isNamePart first = true) : isBlank first = false := by
  rw [isNamePart, Bool.and_eq_true, Bool.not_eq_true', Bool.not_eq_true'] at hfirst
  exact hfirst.2

theorem trivia_namePart (hfirst : isNamePart first = true) :
    trivia ⟨first :: tail, pos⟩ = some ([], ⟨first :: tail, pos⟩) :=
  trivia_token (isBlank_of_namePart hfirst) (ne_of_namePart hfirst (by decide))
    (ne_of_namePart hfirst (by decide)) (ne_of_namePart hfirst (by decide))

/-- A space before a name is passed over. -/
theorem trivia_space (hfirst : isNamePart first = true) :
    trivia ⟨' ' :: first :: tail, pos⟩ = some ([], ⟨first :: tail, pos + 1⟩) := by
  have hblank := isBlank_of_namePart hfirst
  have hspacing : isSpacing first = false := by
    rw [← Bool.not_eq_true] at hblank ⊢
    exact fun h => hblank (isBlank_of_isSpacing h)
  have hskip : ∀ p : Char → Bool, p ' ' = true → p first = false →
      (⟨' ' :: first :: tail, pos⟩ : Cursor).skipWhile p = ⟨first :: tail, pos + 1⟩ := by
    intro p hspace hp
    rw [Cursor.skipWhile, List.dropWhile_cons, List.takeWhile_cons, if_pos hspace, if_pos hspace,
      List.dropWhile_cons, List.takeWhile_cons, hp]
    rfl
  have hmarkup : (⟨' ' :: first :: tail, pos⟩ : Cursor).markupComment? = none := by
    rw [Cursor.markupComment?, hskip _ (by decide) hspacing,
      startsWith_of_namePart hfirst rfl (by decide), startsWith_of_namePart hfirst rfl (by decide)]
    rfl
  refine collect_of_none ?_ _
  rw [comment, get_bind, hskip _ (by decide) hblank, hmarkup]
  dsimp only
  rw [comment?_token (ne_of_namePart hfirst (by decide))]
  rfl

/-- Where a name begins, the next item of a list is an expression. -/
theorem listStep_namePart (hfirst : isNamePart first = true) (sub : Parsers) :
    listStep ")" (element sub) ⟨first :: tail, pos⟩ =
      (do
        let node ← sub.expression Level.lowest false
        let gap ← plainTrivia
        let c ← get
        require (c.startsWith "," || c.startsWith ")")
        return some (some node :: gap.map some) : Parser (Option (List (Option Node))))
          ⟨first :: tail, pos⟩ := by
  have helement : element sub ⟨first :: tail, pos⟩ =
      sub.expression Level.lowest false ⟨first :: tail, pos⟩ := by
    rw [element, get_bind, startsWith_of_namePart hfirst rfl (by decide),
      if_neg Bool.false_ne_true]
  rw [listStep, get_bind, startsWith_of_namePart hfirst rfl (by decide),
    if_neg Bool.false_ne_true, startsWith_of_namePart hfirst rfl (by decide),
    if_neg Bool.false_ne_true]
  show (element sub ⟨first :: tail, pos⟩).bind _ = _
  rw [helement]
  rfl

theorem listStep_element (hfirst : isNamePart first = true) {sub : Parsers} {node : Node}
    {c c' : Cursor}
    (h : sub.expression Level.lowest false ⟨first :: tail, pos⟩ = some (node, c))
    (htrivia : plainTrivia c = some ([], c'))
    (hnext : (c'.startsWith "," || c'.startsWith ")") = true) :
    listStep ")" (element sub) ⟨first :: tail, pos⟩ = some (some [some node], c') := by
  rw [listStep_namePart hfirst, bind_of_eq h, bind_of_eq htrivia, get_bind, hnext]
  rfl

theorem listStep_refused (hfirst : isNamePart first = true) {sub : Parsers}
    (h : sub.expression Level.lowest false ⟨first :: tail, pos⟩ = none) :
    listStep ")" (element sub) ⟨first :: tail, pos⟩ = none :=
  (listStep_namePart hfirst sub).trans (bind_of_refused h _)

theorem listStep_comma (hfirst : isNamePart first = true) {sub : Parsers} :
    listStep ")" (element sub) ⟨',' :: ' ' :: first :: tail, pos⟩ =
      some (some [none], ⟨first :: tail, pos + 1 + 1⟩) := by
  show (trivia ⟨' ' :: first :: tail, pos + 1⟩).bind _ = _
  rw [trivia_space hfirst]
  rfl

/-- A list that a closing parenthesis ends. -/
theorem commaList_of_collect (hfirst : isNamePart first = true) {sub : Parsers}
    {items : List (List (Option Node))} {rest : List Char} {stop : Nat}
    (h : collect (listStep ")" (element sub)) (first :: tail) ⟨first :: tail, pos + 1⟩ =
      some (items, ⟨')' :: rest, stop⟩)) :
    commaList "(" ")" (element sub) ⟨'(' :: first :: tail, pos⟩ =
      some (items.flatten, ⟨rest, stop + 1⟩) := by
  show (trivia ⟨first :: tail, pos + 1⟩).bind _ = _
  rw [trivia_namePart hfirst]
  show (collect (listStep ")" (element sub)) (first :: tail) ⟨first :: tail, pos + 1⟩).bind _ = _
  rw [h]
  rfl

theorem commaList_refused (hfirst : isNamePart first = true) {sub : Parsers}
    (h : listStep ")" (element sub) ⟨first :: tail, pos + 1⟩ = none) :
    commaList "(" ")" (element sub) ⟨'(' :: first :: tail, pos⟩ = none := by
  show (trivia ⟨first :: tail, pos + 1⟩).bind _ = _
  rw [trivia_namePart hfirst]
  show (collect (listStep ")" (element sub)) (first :: tail) ⟨first :: tail, pos + 1⟩).bind _ = _
  rw [collect_of_refused h]
  rfl

end

/-! ## Calls as tags -/

/-- The call of a name on a name and a member, as it is written. -/
def callText (word argument object property : List Char) : List Char :=
  word ++ '(' :: (argument ++ ',' :: ' ' :: (object ++ '.' :: (property ++ [')'])))

/-- The arguments of such a call at an offset. -/
def argumentsAt (argument object property : List Char) (pos : Nat) : Node :=
  { kind := .arguments, start := pos,
    stop := pos + (1 + (byteLength argument + (2 +
      (byteLength object + (1 + (byteLength property + 1)))))),
    children := [identifierAt argument (pos + 1),
      memberAt object property (pos + (1 + (byteLength argument + 2)))] }

/-- Such a call at an offset. -/
def callAt (word argument object property : List Char) (pos : Nat) : Node :=
  { kind := .callExpression, start := pos,
    stop := pos + (byteLength word + (1 + (byteLength argument + (2 +
      (byteLength object + (1 + (byteLength property + 1))))))),
    children := [(identifierAt word pos).as .function,
      (argumentsAt argument object property (pos + byteLength word)).as .arguments] }

section
variable {word argument object property : List Char}

theorem expression_name (hname : isName word = true) (sub : Parsers) {stop : Char}
    (hstop : endsWord stop = true) (tail : List Char) (pos : Nat)
    (harrow : ∀ pos, arrowBehind false ⟨stop :: tail, pos⟩ = some (none, ⟨stop :: tail, pos⟩))
    (hend : ∀ pos, EndsExpression false ⟨stop :: tail, pos⟩) :
    expression sub Level.lowest false ⟨word ++ stop :: tail, pos⟩ =
      some (identifierAt word pos, ⟨stop :: tail, pos + byteLength word⟩) := by
  refine expression_of_operand ?_ (hend _)
  rw [operand, bind_of_eq (fronted_name hname hstop tail pos sub (harrow _))]
  exact extend_of_none (access_end (hend _) true _) _

theorem expression_member (hname : isName object = true) (hproperty : isName property = true)
    (sub : Parsers) {stop : Char} (hstop : endsWord stop = true) (tail : List Char) (pos : Nat)
    (hend : ∀ pos, EndsExpression false ⟨stop :: tail, pos⟩) :
    expression sub Level.lowest false ⟨object ++ '.' :: (property ++ stop :: tail), pos⟩ =
      some (memberAt object property pos,
        ⟨stop :: tail, pos + (byteLength object + (1 + byteLength property))⟩) := by
  refine expression_of_operand ?_ (hend _)
  rw [operand_member hname hproperty hstop]
  exact extend_of_none (access_end (hend _) true _) _

/-- Three steps and the end. -/
theorem collect_of_steps {α : Type} {step : Parser (Option α)} {c c₁ c₂ c₃ c₄ : Cursor}
    {a₁ a₂ a₃ : α} (h₁ : step c = some (some a₁, c₁)) (h₂ : step c₁ = some (some a₂, c₂))
    (h₃ : step c₂ = some (some a₃, c₃)) (hend : step c₃ = some (none, c₄)) (bound : List Char)
    (hbound : 3 ≤ bound.length) : collect step bound c = some ([a₁, a₂, a₃], c₄) := by
  obtain ⟨d₁, d₂, d₃, bound, rfl⟩ : ∃ d₁ d₂ d₃ rest, bound = d₁ :: d₂ :: d₃ :: rest := by
    match bound with
    | d₁ :: d₂ :: d₃ :: rest => exact ⟨d₁, d₂, d₃, rest, rfl⟩
  rw [collect_of_some h₁, collect_of_some h₂, collect_of_some h₃, collect_of_none hend]
  rfl

theorem arguments_call (hargument : isName argument = true) (hobject : isName object = true)
    (hproperty : isName property = true) (depth : Nat) (rest : List Char) (pos : Nat) :
    arguments (parsers (depth + 1))
        ⟨'(' :: (argument ++ ',' :: ' ' :: (object ++ '.' :: (property ++ ')' :: rest))), pos⟩ =
      some (argumentsAt argument object property pos,
        ⟨rest, (argumentsAt argument object property pos).stop⟩) := by
  obtain ⟨a, argument', rfl, -, ha⟩ := cons_of_isName hargument
  obtain ⟨o, object', rfl, -, ho⟩ := cons_of_isName hobject
  -- the argument, the comma, the member, and the end of the list
  have hone := expression_name hargument (parsers depth) (by decide : endsWord ',' = true)
    (' ' :: (o :: object' ++ '.' :: (property ++ ')' :: rest))) (pos + 1)
    (fun _ => arrowBehind_token (by decide) (by decide) (by decide) (by decide) false)
    (fun _ => endsExpression_comma false)
  have htwo := expression_member hobject hproperty (parsers depth) (by decide : endsWord ')' = true)
    rest (pos + 1 + byteLength (a :: argument') + 1 + 1) (fun _ => endsExpression_paren false)
  have hstep₁ := @listStep_element a _ (pos + 1) ha (parsers (depth + 1)) _ _ _ hone
    (plainTrivia_token (by decide) (by decide)) rfl
  have hstep₂ := @listStep_comma o (object' ++ '.' :: (property ++ ')' :: rest))
    (pos + 1 + byteLength (a :: argument')) ho (parsers (depth + 1))
  have hstep₃ := @listStep_element o _ _ ho (parsers (depth + 1)) _ _ _ htwo
    (plainTrivia_token (by decide) (by decide)) rfl
  have hend : ∀ pos, listStep ")" (element (parsers (depth + 1))) ⟨')' :: rest, pos⟩ =
      some (none, ⟨')' :: rest, pos⟩) := fun _ => rfl
  have hcollect := collect_of_steps hstep₁ hstep₂ hstep₃ (hend _)
    (a :: (argument' ++ ',' :: ' ' :: (o :: object' ++ '.' :: (property ++ ')' :: rest))))
    (by simp only [List.length_cons, List.length_append]; omega)
  rw [arguments, position_bind]
  refine (bind_of_eq (commaList_of_collect ha hcollect) _).trans ?_
  simp only [argumentsAt, ← Nat.add_assoc]
  rfl

theorem byteLength_callText :
    byteLength (callText word argument object property) =
      byteLength word + (1 + (byteLength argument + (2 +
        (byteLength object + (1 + (byteLength property + 1)))))) := by
  have hone : ∀ text : List Char, byteLength ('(' :: text) = 1 + byteLength text := fun _ => rfl
  have htwo : ∀ text : List Char, byteLength (',' :: ' ' :: text) = 2 + byteLength text := by
    intro text
    show 1 + (1 + byteLength text) = 2 + byteLength text
    omega
  have hthree : ∀ text : List Char, byteLength ('.' :: text) = 1 + byteLength text := fun _ => rfl
  rw [callText, byteLength_append, hone, byteLength_append, htwo, byteLength_append, hthree,
    byteLength_append]
  rfl

theorem readsTag_call (hname : isName word = true) (hargument : isName argument = true)
    (hobject : isName object = true) (hproperty : isName property = true) :
    ReadsTag (callText word argument object property) (callAt word argument object property) where
  kind _ := .inr (.inr rfl)
  named _ := rfl
  settled _ := rfl
  clean := by
    have hword := nul_notMem_of_isName hname
    have hargument := nul_notMem_of_isName hargument
    have hobject := nul_notMem_of_isName hobject
    have hproperty := nul_notMem_of_isName hproperty
    simp [callText, hword, hargument, hobject, hproperty]
  begins := ⟨word, _, rfl, hname, .inr (.inr rfl)⟩
  reads depth asi stop rest pos hstop _ := by
    have hparen : endsWord '(' = true := by decide
    have harrow := fun tail => @arrowBehind_token '(' tail (pos + byteLength word)
      (by decide) (by decide) (by decide) (by decide) asi
    have harguments := arguments_call hargument hobject hproperty depth (stop :: rest)
      (pos + byteLength word)
    have htext : callText word argument object property ++ stop :: rest =
        word ++ '(' :: (argument ++ ',' :: ' ' :: (object ++ '.' :: (property ++ ')' :: stop :: rest))) := by
      simp [callText]
    refine ⟨argument ++ ',' :: ' ' :: (object ++ '.' :: (property ++ ')' :: stop :: rest)), ?_⟩
    rw [htext, byteLength_callText, operand,
      bind_of_eq (fronted_name hname hparen _ pos _ (harrow _))]
    have haccess := @access_call (parsers (depth + 1)) asi true (identifierAt word pos) _ _ _ _
      harguments
    have hstop : (argumentsAt argument object property (pos + byteLength word)).stop =
        (callAt word argument object property pos).stop := Nat.add_assoc _ _ _
    rw [hstop] at haccess
    exact extend_of_some haccess '(' _
  alike before after := by
    have hlength := @byteLength_callText word argument object property
    have hassoc : ∀ shift inner : Nat, shift + byteLength word + inner =
        shift + (byteLength word + inner) := fun shift inner => Nat.add_assoc _ _ _
    refine Node.alike_of_name rfl rfl rfl
      (nameIn_tag 0 _ rfl rfl rfl rfl (Nat.le_of_eq hlength.symm)) ⟨⟨rfl, ?_⟩, ⟨rfl, ?_⟩, trivial⟩
    · exact @alike_identifierAt before _ after word 0 (by omega)
    · refine Node.alike_of_name rfl rfl rfl (nameIn_tag _ _ rfl (hassoc _ _) rfl (hassoc _ _)
        (Nat.le_of_eq hlength.symm)) ⟨⟨rfl, ?_⟩, ⟨rfl, ?_⟩, trivial⟩
      · have hargument := @alike_identifierAt before (callText word argument object property) after
          argument (byteLength word + 1) (by omega)
        rw [← hassoc, ← hassoc] at hargument
        exact hargument
      · have hmember := @alike_memberAt before (callText word argument object property) after
          object property (byteLength word + (1 + (byteLength argument + 2))) (by omega)
        rw [← hassoc, ← hassoc] at hmember
        exact hmember

end

/-! ## Tags and templates -/

/-- The tree of a tag and a template with the given holes, read as part of `text`. -/
def IsTagged (text : List Char) (callee : Node) (holes : List (List Char)) (node : Node) : Prop :=
  ∃ template, node = tagged callee template ∧ template.kind = .templateString ∧
    template.named = true ∧ List.Forall₂ (IsReading text) holes template.children

/-- A tag and a template are one expression, unless the text of the template cannot be read. -/
theorem expression_tagged {tag body : List Char} {callee : Nat → Node} {holes : List (List Char)}
    {ok : Bool} (htag : ReadsTag tag callee) (hsteps : Steps holes body ok) {depth : Nat}
    {asi : Bool} (before tail : List Char) (hend : ∀ pos, EndsExpression asi ⟨tail, pos⟩)
    (hdepth : 2 * body.length + 4 ≤ depth + 1) :
    if ok then
      ∃ node, expression (parsers (depth + 1)) Level.lowest asi
          ⟨tag ++ '\x60' :: (body ++ '\x60' :: tail), byteLength before⟩ =
          some (node, ⟨tail, node.stop⟩) ∧
        node.stop = byteLength before + byteLength (tag ++ '\x60' :: (body ++ ['\x60'])) ∧
        IsTagged (before ++ (tag ++ '\x60' :: (body ++ '\x60' :: tail))) (callee (byteLength before))
          holes node
    else
      expression (parsers (depth + 1)) Level.lowest asi
        ⟨tag ++ '\x60' :: (body ++ '\x60' :: tail), byteLength before⟩ = none := by
  obtain ⟨bound, hoperand⟩ := htag.reads depth asi '\x60' (body ++ '\x60' :: tail)
    (byteLength before) (by decide)
    (fun pos => arrowBehind_token (by decide) (by decide) (by decide) (by decide) asi)
  have htemplate := hsteps.template (before ++ tag) tail hdepth
  rw [byteLength_append, List.append_assoc] at htemplate
  cases ok with
  | false =>
    rw [if_neg Bool.false_ne_true] at htemplate ⊢
    apply expression_of_refused
    rw [hoperand]
    exact extend_of_refused (access_refused (htag.primary _) htemplate) bound
  | true =>
    rw [if_pos rfl] at htemplate ⊢
    obtain ⟨children, htemplate, hholes⟩ := htemplate
    have hcall := hoperand.trans (extend_of_last (access_template (htag.primary _) htemplate rfl)
      (access_end (hend _) true _) bound)
    refine ⟨_, expression_of_operand hcall (hend _), ?_, _, rfl, rfl, rfl, hholes⟩
    rw [byteLength_append, byteLength, byteLength_append]
    show byteLength before + byteLength tag + (byteLength body + 2) =
      byteLength before + (byteLength tag + (1 + (byteLength body + 1)))
    omega

end NotebookCell.Script
