import NotebookCell.Proofs.Script.Name
import NotebookCell.Script.Parse

/-!
# Where nodes begin and end

An expression begins where its parser was started (`begins_expression`). A statement also ends where
its parser stopped (`spans_statement`): what the parser looks at beyond that is no part of it.
-/

namespace NotebookCell.Script.Parser

open NotebookCell.Tree

variable {α β : Type}

/-- What the parser yields at a cursor, and where it stops, has a given property. -/
def GivesAt (c : Cursor) (P : α → Cursor → Prop) (p : Parser α) : Prop :=
  ∀ a c', p c = some (a, c') → P a c'

/-- Whatever the parser yields, and where it stops, has a given property. -/
def Gives (P : α → Cursor → Prop) (p : Parser α) : Prop := ∀ c, GivesAt c P p

/-- Whatever the parser reads begins at a given offset. -/
abbrev StartsAt (start : Nat) : Parser Node → Prop := Gives fun node _ => node.start = start

/-- If the parser reads anything, it begins at a given offset. -/
abbrev MayStartAt (start : Nat) : Parser (Option Node) → Prop :=
  Gives fun found _ => ∀ node ∈ found, node.start = start

/-- The kinds of nodes that are neither comments nor the line that names an interpreter. -/
def isStatementKind : Kind → Bool
  | .comment | .htmlComment | .hashBangLine => false
  | _ => true

/-- Whatever the parser reads is a statement from a given offset to where the parser stops. -/
abbrev SpansFrom (start : Nat) : Parser Node → Prop :=
  Gives fun node c => node.start = start ∧ node.stop = c.pos ∧ isStatementKind node.kind = true ∧
    node.named = true

/-- What the parser reads at a cursor begins there. -/
abbrev BeginsAt (c : Cursor) : Parser Node → Prop := GivesAt c fun node _ => node.start = c.pos

/-- What the parser reads at a cursor is a statement from there to where the parser stops. -/
abbrev SpansAt (c : Cursor) : Parser Node → Prop :=
  GivesAt c fun node c' =>
    node.start = c.pos ∧ node.stop = c'.pos ∧ isStatementKind node.kind = true ∧ node.named = true

/-- What the parser reads begins at the cursor. -/
def Begins (p : Parser Node) : Prop := ∀ c, BeginsAt c p

/-- What the parser reads is a statement from the cursor to where the parser stops. -/
def Spans (p : Parser Node) : Prop := ∀ c, SpansAt c p

/-- The parser does not move. -/
def Still (p : Parser α) : Prop :=
  ∀ c a c', p c = some (a, c') → c' = c

/-- The parser yields one value at most, and does not move. -/
def Keeps (a : α) (p : Parser α) : Prop :=
  ∀ c b c', p c = some (b, c') → b = a ∧ c' = c

/-! ## Combinators -/

/-- What two parsers in a row read was read by the first and then by the second. -/
theorem exists_of_bind {p : Parser α} {f : α → Parser β} {c c'' : Cursor} {b : β}
    (h : (p >>= f) c = some (b, c'')) : ∃ a c', p c = some (a, c') ∧ f a c' = some (b, c'') := by
  obtain ⟨⟨a, c'⟩, hp, hf⟩ := Option.bind_eq_some_iff.mp h
  exact ⟨a, c', hp, hf⟩

/-- What a choice reads was read by one of the alternatives. -/
theorem exists_of_orElse {p q : Parser α} {c c' : Cursor} {a : α}
    (h : (p <|> q) c = some (a, c')) : p c = some (a, c') ∨ q c = some (a, c') := by
  have hor : (p c).orElse (fun _ => q c) = some (a, c') := h
  cases hp : p c with
  | none =>
    rw [hp] at hor
    exact .inr hor
  | some found =>
    rw [hp] at hor
    exact .inl hor

section
variable {P : β → Cursor → Prop} {Q : α → Cursor → Prop} {c : Cursor} {p q : Parser β}
  {r r' : Parser α} {f : α → Parser β}

/-- A parser that never succeeds gives anything. -/
theorem givesAt_failure : GivesAt c P failure := fun _ _ h => nomatch h

theorem givesAt_get {f : Cursor → Parser β} (h : GivesAt c P (f c)) : GivesAt c P (get >>= f) := h

/-- Asking for the position moves nothing. -/
theorem givesAt_position {f : Nat → Parser β} (h : GivesAt c P (f c.pos)) :
    GivesAt c P (position >>= f) := h

/-- What the first parser yields, and where it stops, is known where the second one goes on. -/
theorem GivesAt.bind (hr : GivesAt c Q r) (hf : ∀ a d, Q a d → GivesAt d P (f a)) :
    GivesAt c P (r >>= f) := by
  intro b c' h
  obtain ⟨a, d, hfirst, hrest⟩ := exists_of_bind h
  exact hf a d (hr a d hfirst) b c' hrest

theorem GivesAt.ite {b : Prop} [Decidable b] (hp : GivesAt c P p) (hq : GivesAt c P q) :
    GivesAt c P (if b then p else q) := by
  split
  · exact hp
  · exact hq

/-- Both alternatives have to give what is promised, since the second is tried where the first fails. -/
theorem GivesAt.orElse (hp : GivesAt c P p) (hq : GivesAt c P q) : GivesAt c P (p <|> q) :=
  fun b c' h => (exists_of_orElse h).elim (hp b c') (hq b c')

/-- A parser that does not move in front changes nothing. -/
theorem GivesAt.still (hr : Still r) (hf : ∀ a, GivesAt c P (f a)) : GivesAt c P (r >>= f) := by
  intro b c' h
  obtain ⟨a, d, hlook, hrest⟩ := exists_of_bind h
  obtain rfl := hr c a d hlook
  exact hf a b c' hrest

/-- A look at what follows changes nothing. -/
theorem GivesAt.keep {f : β → Parser β} (hp : GivesAt c P p) (hf : ∀ b, Keeps b (f b)) :
    GivesAt c P (p >>= f) := by
  intro b c' h
  obtain ⟨first, d, hfirst, hrest⟩ := exists_of_bind h
  obtain ⟨rfl, rfl⟩ := hf first d b c' hrest
  exact hp b c' hfirst

/-- A parser that reads nothing gives its value at any cursor. -/
theorem gives_pure {b : β} (h : ∀ c, P b c) : Gives P (pure b) := by
  intro c b' c' hpure
  cases hpure
  exact h c

theorem gives_failure : Gives P failure := fun _ => givesAt_failure

/-- Nothing has to be known of what is read first. -/
theorem Gives.step (h : ∀ a, Gives P (f a)) : Gives P (r >>= f) := by
  intro c b c' hbind
  obtain ⟨a, d, -, hf⟩ := exists_of_bind hbind
  exact h a d b c' hf

section
variable {α₂ α₃ α₄ : Type} {r₂ : α → Parser α₂} {r₃ : α → α₂ → Parser α₃}
  {r₄ : α → α₂ → α₃ → Parser α₄}

/-- A promise that the last of three parsers keeps, wherever the others stop. -/
theorem Gives.step₂ {f : α → α₂ → Parser β} (h : ∀ a a₂, Gives P (f a a₂)) :
    Gives P (r >>= fun a => r₂ a >>= f a) :=
  .step fun a => .step (h a)

theorem Gives.step₃ {f : α → α₂ → α₃ → Parser β} (h : ∀ a a₂ a₃, Gives P (f a a₂ a₃)) :
    Gives P (r >>= fun a => r₂ a >>= fun a₂ => r₃ a a₂ >>= f a a₂) :=
  .step fun a => .step₂ (h a)

theorem Gives.step₄ {f : α → α₂ → α₃ → α₄ → Parser β} (h : ∀ a a₂ a₃ a₄, Gives P (f a a₂ a₃ a₄)) :
    Gives P (r >>= fun a => r₂ a >>= fun a₂ => r₃ a a₂ >>= fun a₃ => r₄ a a₂ a₃ >>= f a a₂ a₃) :=
  .step fun a => .step₃ (h a)

end

/-- A promise about the first parser used for the second. -/
theorem Gives.bind (hr : Gives Q r) (hf : ∀ a d, Q a d → GivesAt d P (f a)) : Gives P (r >>= f) :=
  fun c => (hr c).bind hf

/-- A promise that is kept on either side. -/
theorem Gives.ite {b : Prop} [Decidable b] (hp : Gives P p) (hq : Gives P q) :
    Gives P (if b then p else q) :=
  fun c => (hp c).ite (hq c)

/-- Both branches go on in the same way. -/
theorem Gives.branch {b : Prop} [Decidable b] (h : ∀ a, Gives P (f a)) :
    Gives P (if b then r >>= f else r' >>= f) :=
  .ite (.step h) (.step h)

theorem Gives.orElse (hp : Gives P p) (hq : Gives P q) : Gives P (p <|> q) :=
  fun c => (hp c).orElse (hq c)

/-- A parser that goes back first does the same as if it was started there. -/
theorem gives_set {d : Cursor} (h : GivesAt d P p) : Gives P (set d >>= fun _ => p) :=
  fun _ b c' hp => h b c' hp

end

/-- A node is made with the start it is given. -/
theorem startsAt_node (kind : Kind) (start : Nat) (children : List Node) :
    StartsAt start (node kind start children) := by
  intro c node c' h
  cases h
  rfl

/-- A node that is made last ends where the parser stops. -/
theorem spansFrom_node {kind : Kind} (hkind : isStatementKind kind = true) (start : Nat)
    (children : List Node) : SpansFrom start (node kind start children) := by
  intro c node c' h
  cases h
  exact ⟨rfl, rfl, hkind, rfl⟩

section
variable {c : Cursor} {p : Parser Node} {f : Node → Parser Node}

/-- A node that starts at the offset of the cursor. -/
theorem StartsAt.beginsAt (h : StartsAt c.pos p) : BeginsAt c p := h c

/-- What begins at the cursor that was looked at. -/
theorem begins_get {f : Cursor → Parser Node} (h : ∀ c, BeginsAt c (f c)) : Begins (get >>= f) :=
  fun c => givesAt_get (h c)

/-- What starts at the position that was asked for. -/
theorem begins_position {f : Nat → Parser Node} (h : ∀ start, StartsAt start (f start)) :
    Begins (position >>= f) :=
  fun c => givesAt_position (h c.pos c)

/-- A statement from the position that was asked for. -/
theorem spans_position {f : Nat → Parser Node} (h : ∀ start, SpansFrom start (f start)) :
    Spans (position >>= f) :=
  fun c => givesAt_position (h c.pos c)

/-- What is made of a node begins where the node does. -/
theorem BeginsAt.made (hp : BeginsAt c p) (hf : ∀ node, StartsAt node.start (f node)) :
    BeginsAt c (p >>= f) :=
  GivesAt.bind hp fun node d hnode => hnode ▸ hf node d

/-- A node around another one starts where that one does. -/
theorem StartsAt.made {start : Nat} (hp : StartsAt start p)
    (hf : ∀ node, StartsAt node.start (f node)) : StartsAt start (p >>= f) :=
  Gives.bind hp fun node d hnode => hnode ▸ hf node d

/-- A statement that begins with an expression. -/
theorem BeginsAt.spans (hp : BeginsAt c p) (hf : ∀ node, SpansFrom node.start (f node)) :
    SpansAt c (p >>= f) :=
  GivesAt.bind hp fun node d hnode => hnode ▸ hf node d

/-- A statement around a node that starts at a given offset. -/
theorem StartsAt.spans {start : Nat} (hp : StartsAt start p)
    (hf : ∀ node, SpansFrom node.start (f node)) : SpansFrom start (p >>= f) :=
  Gives.bind hp fun node d hnode => hnode ▸ hf node d

end

/-! ### Looking ahead -/

section
variable {a : α} {p q : Parser α}

/-- A value is kept by returning it. -/
theorem keeps_pure (a : α) : Keeps a (pure a) := by
  intro c b c' h
  cases h
  exact ⟨rfl, rfl⟩

/-- A value is kept by looking ahead first. -/
theorem Keeps.still_bind {r : Parser β} {f : β → Parser α} (hr : Still r) (hf : ∀ b, Keeps a (f b)) :
    Keeps a (r >>= f) :=
  fun c => GivesAt.still hr fun b => hf b c

theorem still_pure (a : α) : Still (pure a) := by
  intro c b c' h
  cases h
  rfl

theorem still_failure : Still (failure : Parser α) := fun _ => givesAt_failure

/-- Looking at the cursor does not move it. -/
theorem still_get : Still get := by
  intro c b c' h
  cases h
  rfl

/-- Looking ahead twice moves nothing. -/
theorem still_bind {r : Parser β} {f : β → Parser α} (hr : Still r) (hf : ∀ b, Still (f b)) :
    Still (r >>= f) :=
  fun c => GivesAt.still hr fun b => hf b c

/-- A condition moves nothing. -/
theorem still_require (condition : Bool) : Still (require condition) := by
  rw [require]
  split
  · exact still_pure ()
  · exact still_failure

/-- The token behind is looked at, not taken. -/
theorem still_lookahead (asi : Bool) : Still (lookahead asi) :=
  still_bind still_get fun _ => still_pure _

theorem still_lookaheadPlain : Still lookaheadPlain :=
  still_bind still_get fun _ => still_pure _

/-- Wherever the parser is started, it stops at a given place. -/
def StopsAt (d : Cursor) (p : Parser α) : Prop :=
  ∀ c a c', p c = some (a, c') → c' = d

/-- Where a parser stops is up to its last step. -/
theorem stopsAt_bind {d : Cursor} {r : Parser β} {f : β → Parser α} (hf : ∀ b, StopsAt d (f b)) :
    StopsAt d (r >>= f) :=
  Gives.step hf

/-- A cursor that is set back. -/
theorem stopsAt_set {d : Cursor} {f : PUnit → Parser α} (hf : Still (f ⟨⟩)) :
    StopsAt d (set d >>= f) := fun _ a c' h => hf d a c' h

/-- A parser that sets the cursor back has not moved. -/
theorem still_of_stopsAt {f : Cursor → Parser α} (h : ∀ c, StopsAt c (f c)) : Still (get >>= f) :=
  fun c a c' hf => h c c a c' hf

/-- A choice between two looks ahead. -/
theorem Still.ite {b : Prop} [Decidable b] (hp : Still p) (hq : Still q) :
    Still (if b then p else q) :=
  fun c => GivesAt.ite (hp c) (hq c)

theorem Keeps.ite {b : Prop} [Decidable b] (hp : Keeps a p) (hq : Keeps a q) :
    Keeps a (if b then p else q) :=
  fun c => GivesAt.ite (hp c) (hq c)

theorem still_noMarkupComment (operand : Bool) : Still (noMarkupComment operand) := by
  refine still_bind still_get fun c => ?_
  split
  · exact still_require _
  · exact still_pure _

/-- The word in front of the colon is looked at and not taken. -/
theorem still_seesColon : Still seesColon :=
  still_of_stopsAt fun _ => stopsAt_bind fun _ => stopsAt_set (still_pure _)

/-- The braces are read to their end and then left. -/
theorem still_seesLoneDefault (sub : Parsers) : Still (seesLoneDefault sub) :=
  still_of_stopsAt fun _ => stopsAt_bind fun _ => stopsAt_set (still_pure _)

/-- The word behind the brace is looked at and not taken. -/
theorem still_braceReading : Still braceReading := by
  refine still_of_stopsAt fun _ => stopsAt_bind fun _ => stopsAt_bind fun _ => stopsAt_bind fun _ =>
    stopsAt_bind fun _ => stopsAt_bind fun next => stopsAt_set ?_
  refine .ite (still_pure _) (.ite (still_pure _) ?_)
  split
  · exact still_pure _
  · exact .ite (still_pure _) (still_pure _)

/-- The token behind `let` is looked at and not taken. -/
theorem still_letDeclares : Still letDeclares := by
  refine still_bind still_get fun c => ?_
  dsimp only
  split <;> exact still_pure _

/-- The words behind `await` are looked at and not taken. -/
theorem still_awaitDeclares : Still awaitDeclares := by
  refine still_bind still_get fun c => ?_
  dsimp only
  split <;> exact still_pure _

/-- The decorators in front of a class are read and then left. -/
theorem still_seesDefinition : Still seesDefinition := by
  refine still_bind still_get fun c => .ite (still_pure _) (.ite ?_ (still_pure _))
  dsimp only
  split <;> exact still_pure _

end

/-! ## Operands -/

section
variable {sub : Parsers}

/-- A word begins at its first character. -/
theorem begins_word (kind : Kind) : Begins (word kind) :=
  begins_get fun _ => StartsAt.beginsAt
    (.step₂ fun _ _ => gives_pure fun _ => rfl)

theorem begins_name (kind : Kind) : Begins (name kind) :=
  begins_get fun c => .still (still_require _) fun _ => begins_word kind c

theorem begins_privateName : Begins privateName :=
  begins_get fun _ => StartsAt.beginsAt
    (.step₂ fun _ _ => gives_pure fun _ => rfl)

theorem begins_number : Begins number :=
  begins_get fun _ => StartsAt.beginsAt
    (.step₂ fun _ _ => gives_pure fun _ => rfl)

/-- A string begins at its opening quote. -/
theorem begins_string : Begins string := by
  refine begins_get fun c => StartsAt.beginsAt ?_
  split
  · refine .step fun _ => ?_
    split
    · exact .step fun _ => gives_pure fun _ => rfl
    · exact gives_failure
  · exact gives_failure

theorem begins_regex : Begins regex :=
  begins_get fun _ => StartsAt.beginsAt <| .step₄ fun _ _ _ _ => .step₃ fun _ _ _ => gives_pure fun _ => rfl

/-- A template begins at its opening backtick. -/
theorem begins_template : Begins (template sub) :=
  begins_position fun _ => .step₃ fun _ _ _ => startsAt_node _ _ _

theorem begins_array : Begins (array sub) :=
  begins_position fun _ => .step fun _ => startsAt_node _ _ _

/-- An object begins at its brace. -/
theorem begins_object : Begins (object sub) :=
  begins_position fun _ => .step fun _ => startsAt_node _ _ _

/-- A function starts at what stands in front of its keyword. -/
theorem startsAt_functionLiteral (start : Nat) (lead : List Node) :
    StartsAt start (functionLiteral sub start lead) :=
  .step₃ fun _ _ _ => .branch fun _ =>
    .step fun _ => .branch fun _ => .step₃ fun _ _ _ => startsAt_node _ _ _

/-- A class starts at its decorators. -/
theorem startsAt_classLiteral (start : Nat) (lead : List Node) :
    StartsAt start (classLiteral sub start lead) :=
  .step₃ fun _ _ _ => .branch fun _ => .step₂ fun _ _ => startsAt_node _ _ _

/-- An arrow function starts at its parameters. -/
theorem startsAt_arrowRest (asi : Bool) (start : Nat) (lead : List Node) :
    StartsAt start (arrowRest sub asi start lead) :=
  .step₃ fun _ _ _ => .branch fun _ => startsAt_node _ _ _

/-- A group and the arrow function with its parameters begin at the parenthesis. -/
theorem begins_group (asi : Bool) : Begins (group sub asi) := by
  refine begins_position fun start => .step₃ fun _ _ _ => ?_
  split
  · exact .step₃ fun _ _ _ => startsAt_arrowRest asi start _
  · refine .step fun _ => ?_
    split
    · exact .step fun _ => gives_pure fun _ => rfl
    · exact gives_failure

/-- A name begins where the arrow function does that has it as a parameter. -/
theorem begins_identifier (asi : Bool) : Begins (identifier sub asi) := by
  refine fun c => (begins_name .identifier c).made fun id => .step fun _ => ?_
  split
  · exact .step fun _ => startsAt_arrowRest asi _ _
  · exact gives_pure fun _ => rfl

/-- The word `async` belongs to the function behind it. -/
theorem begins_background (asi constructing : Bool) : Begins (background sub asi constructing) := by
  refine fun c => (begins_word .identifier c).made fun self => .step fun _ => ?_
  split
  · exact gives_pure fun _ => rfl
  refine .ite ?_ (.ite ?_ (.ite ?_ (.ite ?_ ?_)))
  · exact .step fun _ => startsAt_arrowRest asi _ _
  · exact .step fun _ => startsAt_functionLiteral _ _
  · refine .step₃ fun _ _ _ => .step₂ fun _ _ => ?_
    split
    · exact .step₃ fun _ _ _ => startsAt_arrowRest asi _ _
    · exact .ite (.step fun _ => gives_pure fun _ => rfl) (startsAt_node _ _ _)
  · exact gives_pure fun _ => rfl
  · refine .step₄ fun _ _ _ _ => ?_
    split
    · exact .step fun _ => startsAt_arrowRest asi _ _
    · exact .step fun _ => gives_pure fun _ => rfl

theorem startsAt_metaRest (start : Nat) (property : String) :
    StartsAt start (metaRest start property) :=
  .step₄ fun _ _ _ _ => startsAt_node _ _ _

/-- What begins with the word `import`. -/
theorem begins_importOperand : Begins (importOperand sub) := by
  refine begins_position fun start => .step₃ fun _ _ _ => .step₂ fun _ _ => .ite ?_ ?_
  · exact .step fun _ => startsAt_node _ _ _
  · refine .step fun _ => .ite ?_ ?_
    · exact .step₃ fun _ _ _ => .branch fun _ => startsAt_node _ _ _
    · exact .step fun _ => startsAt_metaRest _ _

/-- An operand begins at its word, whichever it is. -/
theorem begins_wordOperand (asi constructing : Bool) : Begins (wordOperand sub asi constructing) := by
  refine fun c => givesAt_position (givesAt_get ?_)
  split
  case h_7 => exact (startsAt_functionLiteral _ _).beginsAt
  case h_8 => exact (startsAt_classLiteral _ _).beginsAt
  case h_9 => exact begins_background asi constructing c
  case h_10 => exact begins_importOperand c
  case h_11 => exact StartsAt.beginsAt (.step fun _ => startsAt_metaRest _ _)
  case h_12 => exact givesAt_failure
  case h_13 =>
    refine GivesAt.bind (begins_word .identifier c) fun id d hid => Gives.step (fun _ => ?_) d
    split
    · exact .step fun _ => startsAt_arrowRest asi _ _
    · exact gives_pure fun _ => hid
  case h_14 => exact begins_identifier asi c
  all_goals exact begins_word _ c

/-- An operand begins at its first character. -/
theorem begins_primary (asi constructing : Bool) : Begins (primary sub asi constructing) := by
  refine begins_get fun c => ?_
  split
  · exact begins_group asi c
  · exact begins_array c
  · exact begins_object c
  · exact begins_string c
  · exact begins_string c
  · exact begins_template c
  · exact begins_regex c
  · exact givesAt_position
      (StartsAt.beginsAt (.step fun _ => startsAt_classLiteral _ _))
  · exact .ite (begins_number c) (begins_wordOperand asi constructing c)
  · exact givesAt_failure

/-! ## Expressions -/

/-- An operand of `new` begins at the first `new`. -/
theorem begins_construct (asi : Bool) : Begins (construct sub asi) := by
  refine begins_position fun start => .step₃ fun _ _ _ => .branch fun _ => .step₂ fun _ _ => ?_
  split
  · exact .ite (.step₂ fun _ _ => startsAt_node _ _ _)
      (startsAt_node _ _ _)
  · exact startsAt_node _ _ _

/-- An element begins at its opening angle. -/
theorem begins_markup : Begins (markup sub) := by
  refine begins_position fun start => .step₃ fun _ _ _ => .branch fun _ => .step fun _ => .ite ?_ ?_
  · exact .step fun _ => startsAt_node _ _ _
  · exact .step₄ fun _ _ _ _ => startsAt_node _ _ _

/-- An operation begins at the operator in front. -/
theorem begins_unary (spelling : String) (asi : Bool) : Begins (unary sub spelling asi) :=
  begins_position fun _ => .step₃ fun _ _ _ => startsAt_node _ _ _

theorem begins_increment (asi : Bool) : Begins (increment sub asi) :=
  begins_get fun _ => StartsAt.beginsAt <| .step₃ fun _ _ _ => startsAt_node _ _ _

theorem begins_yield (asi : Bool) : Begins (yield sub asi) := by
  refine begins_position fun start => .step₂ fun _ _ => ?_
  split
  · exact startsAt_node _ _ _
  refine .ite ?_ (.ite ?_ (startsAt_node _ _ _))
  · exact .step₄ fun _ _ _ _ => startsAt_node _ _ _
  · exact .step₂ fun _ _ => startsAt_node _ _ _

/-- What is read as `await` with an operand or as a name begins at the word. -/
theorem begins_await (asi : Bool) : Begins (await sub asi) := by
  refine begins_position fun start => .step₂ fun _ _ => ?_
  split
  · exact gives_failure
  · exact .step₃ fun _ _ _ => startsAt_node _ _ _

theorem begins_privateTest (asi : Bool) : Begins (privateTest sub asi) := by
  refine fun c => (begins_privateName c).made fun name => .step fun _ => ?_
  split
  · exact .step₄ fun _ _ _ _ => startsAt_node _ _ _
  · exact gives_failure

/-- An operand begins at what stands in front of it. -/
theorem begins_fronted (asi : Bool) : Begins (fronted sub asi) := by
  refine begins_get fun c => ?_
  split
  · exact begins_increment asi c
  · exact begins_increment asi c
  · exact begins_unary "+" asi c
  · exact begins_unary "-" asi c
  · exact begins_unary "!" asi c
  · exact begins_unary "~" asi c
  · exact begins_markup c
  · exact begins_privateTest asi c
  · split
    · exact begins_unary "typeof" asi c
    · exact begins_unary "void" asi c
    · exact begins_unary "delete" asi c
    · exact begins_yield asi c
    · exact (begins_await asi c).orElse (begins_primary asi false c)
    · exact (begins_construct asi c).orElse (begins_primary asi false c)
    · exact begins_primary asi false c

/-- Steps that keep the start of a node lead to a node with that start. -/
theorem startsAt_iterate {step : Node → Parser (Option Node)}
    (h : ∀ left, MayStartAt left.start (step left)) (left : Node) :
    StartsAt left.start (iterate step left) := by
  refine .step fun c => ?_
  generalize c.rest = bound
  induction bound generalizing left with
  | nil =>
    refine (h left).bind fun found d hfound => gives_pure (fun _ => ?_) d
    cases found with
    | none => rfl
    | some next => exact hfound next rfl
  | cons _ bound ih =>
    refine (h left).bind fun found d hfound => ?_
    cases found with
    | none => exact gives_pure (fun _ => rfl) d
    | some next =>
      have hnext := ih next d
      rw [hfound next rfl] at hnext
      exact hnext

/-- Where nothing is read there is nothing to start. -/
theorem mayStartAt_none {start : Nat} : MayStartAt start (pure none) :=
  gives_pure fun _ _ h => nomatch h

/-- What is read starts where its parser says. -/
theorem StartsAt.some {start : Nat} {p : Parser Node} (h : StartsAt start p) :
    MayStartAt start (p >>= fun node => pure (some node)) :=
  Gives.bind h fun node d hnode => gives_pure (fun _ found hfound => by
    cases hfound
    exact hnode) d

/-- An access starts where the accessed object does. -/
theorem startsAt_accessName (left : Node) (gap : List Node) :
    StartsAt left.start (accessName left gap) :=
  .step₂ fun _ _ => .branch fun _ => startsAt_node _ _ _

theorem startsAt_accessIndex (left : Node) (gap : List Node) :
    StartsAt left.start (accessIndex sub left gap) :=
  .step₃ fun _ _ _ => .step₂ fun _ _ => startsAt_node _ _ _

/-- A call starts where the callee does. -/
theorem startsAt_call (left : Node) (gap : List Node) : StartsAt left.start (call sub left gap) :=
  .step fun _ => startsAt_node _ _ _

/-- What follows an operand is joined to it. -/
theorem mayStartAt_access (asi constructing update : Bool) (left : Node) :
    MayStartAt left.start (access sub asi constructing update left) := by
  refine .step fun _ => ?_
  split
  · exact mayStartAt_none
  refine .ite mayStartAt_none ?_
  split
  · exact .step fun _ => (startsAt_accessName left _).some
  · refine .ite mayStartAt_none (.step₃ fun _ _ _ => ?_)
    refine .ite (.step fun _ => (startsAt_call left _).some) (.ite ?_ ?_)
    · exact (startsAt_accessIndex left _).some
    · exact (startsAt_accessName left _).some
  · exact .step fun _ => (startsAt_accessIndex left _).some
  · exact .ite mayStartAt_none (.step fun _ => (startsAt_call left _).some)
  · exact .ite mayStartAt_none
      (.step₂ fun _ _ => (startsAt_node _ left.start _).some)
  · exact .ite (.step fun _ => (startsAt_node _ left.start _).some) mayStartAt_none
  · exact mayStartAt_none

/-- An assignment starts where its target does, even if the target becomes a pattern. -/
theorem startsAt_assignment (asi : Bool) (left : Node) :
    StartsAt left.start (assignment sub asi left) := by
  refine .step fun _ => ?_
  split
  · exact gives_pure fun _ => rfl
  dsimp only
  split
  case h_1 | h_2 | h_3 | h_4 =>
    refine .ite ?_ ?_
    · exact .step₄ fun _ _ _ _ => startsAt_node _ _ _
    · split
      · exact .step₄ fun _ _ _ _ => startsAt_node _ _ _
      · exact gives_pure fun _ => rfl
  case h_5 =>
    exact .ite (.step₄ fun _ _ _ _ => startsAt_node _ _ _) (gives_pure fun _ => rfl)
  case h_6 | h_7 =>
    exact .ite (.step₃ fun _ _ _ => .step₂ fun _ _ => startsAt_node _ _ _) (gives_pure fun _ => rfl)
  case h_8 => exact gives_pure fun _ => rfl

/-- An operation starts where its left operand does. -/
theorem mayStartAt_operation (level : Nat) (asi : Bool) (left : Node) :
    MayStartAt left.start (operation sub level asi left) := by
  refine .step fun _ => ?_
  split
  · exact mayStartAt_none
  refine .ite ?_ ?_
  · exact .step₄ fun _ _ _ _ => .step₃ fun _ _ _ => (startsAt_node _ left.start _).some
  · split
    · exact .ite mayStartAt_none (.step₄ fun _ _ _ _ => (startsAt_node _ left.start _).some)
    · exact mayStartAt_none

/-- However far an expression goes on, it starts at its first operand. -/
theorem startsAt_continueFrom (level : Nat) (asi : Bool) (first : Node) :
    StartsAt first.start (continueFrom sub level asi first) := by
  refine StartsAt.made (startsAt_iterate (mayStartAt_access asi false _) first) fun operand => ?_
  refine StartsAt.made (startsAt_assignment asi operand) fun assigned => ?_
  exact startsAt_iterate (mayStartAt_operation level asi) assigned

/-- An expression begins where its parser was started. -/
theorem begins_expression (level : Nat) (asi : Bool) : Begins (expression sub level asi) := by
  intro c
  rw [expression]
  exact .ite (begins_primary asi false c)
    ((begins_fronted asi c).made fun first => startsAt_continueFrom level asi first)

/-! ## Statements -/

/-- An expression statement reaches up to its semicolon, if it has one, and starts at the expression. -/
theorem spansFrom_expressionRest (first : Node) :
    SpansFrom first.start (expressionRest sub first) := by
  have hsequence : StartsAt first.start (sequenceFrom sub true first) :=
    .step fun _ => .ite (gives_pure fun _ => rfl) (startsAt_node _ _ _)
  exact hsequence.spans fun value => .step fun _ => spansFrom_node rfl _ _

/-- A block reaches from brace to brace. -/
theorem spans_ambiguousBlock (operand : List Node → Bool) : Spans (ambiguousBlock sub operand) :=
  spans_position fun _ => .step₄ fun _ _ _ _ => .step₂ fun _ _ => spansFrom_node rfl _ _

/-- What is looked at behind a block is no part of it. -/
theorem spans_blockAlone : Spans (blockAlone sub) := by
  refine fun c => (spans_ambiguousBlock _ c).keep fun body => ?_
  refine .ite (.still_bind (still_lookahead true) fun next => ?_)
    (.still_bind still_lookaheadPlain fun next => ?_)
  · cases next with
    | none => exact keeps_pure body
    | some next => exact .still_bind (still_require _) fun _ => keeps_pure body
  · cases next with
    | none => exact keeps_pure body
    | some next => exact .still_bind (still_require _) fun _ => keeps_pure body

/-- Whichever reading of the braces is taken. -/
theorem spans_blockOrElse {asBlock asObject : Parser Node} (hblock : Spans asBlock)
    (hobject : Spans asObject) : Spans (blockOrElse sub asBlock asObject) := by
  have hsettled : Spans (settled asObject) := fun c =>
    (hobject c).keep fun _ => .still_bind (still_require _) fun _ => keeps_pure _
  refine fun c => .still still_braceReading fun reading => ?_
  cases reading with
  | key => exact (hsettled c).orElse (hblock c)
  | block => exact hblock c
  | «open» =>
    refine (hblock c).orElse (.still (still_seesLoneDefault sub) fun _ => ?_)
    exact .still (still_require _) fun _ => hobject c

theorem begins_definition : Begins (definition sub) := by
  refine begins_position fun start => .step₂ fun _ _ => .ite ?_ (.ite ?_ ?_)
  · exact .step₂ fun _ _ => startsAt_functionLiteral _ _
  · exact startsAt_functionLiteral _ _
  · exact startsAt_classLiteral _ _

/-- A definition as a declaration, or as the first operand of an expression. -/
theorem spans_definitionOr : Spans (definitionOr sub (expressionRest sub)) := by
  refine fun c => BeginsAt.spans (begins_definition c) fun literal => .step fun alone => ?_
  dsimp only
  split
  · next kind hkind =>
    have hstatement : isStatementKind kind = true := by
      split at hkind
      · rw [declarationKind?.eq_def] at hkind
        split at hkind <;> cases hkind <;> rfl
      · cases hkind
    exact .step₂ fun _ _ => spansFrom_node hstatement _ _
  · exact StartsAt.spans (startsAt_continueFrom _ true literal) spansFrom_expressionRest

section
variable {kind : Kind} (hkind : isStatementKind kind = true)
include hkind

/-- A declaration reaches up to its semicolon, if it has one. -/
theorem spansFrom_declarators (start : Nat) (lead : List Node) :
    SpansFrom start (declarators sub kind start lead) :=
  .step₄ fun _ _ _ _ => spansFrom_node hkind _ _

theorem spans_declareVariables (text : String) : Spans (declareVariables sub kind text) :=
  spans_position fun _ => .step fun _ => spansFrom_declarators hkind _ _

theorem spans_guarded (text : String) : Spans (guarded sub kind text) :=
  spans_position fun _ => .step₃ fun _ _ _ => .step₂ fun _ _ => spansFrom_node hkind _ _

/-- A jump ends behind its label or its semicolon. -/
theorem spans_jump (text : String) : Spans (jump kind text) := by
  refine spans_position fun _ => .step₂ fun _ _ => ?_
  dsimp only
  split
  · exact .ite (.step₂ fun _ _ => spansFrom_node hkind _ _)
      (.step₄ fun _ _ _ _ => spansFrom_node hkind _ _)
  · exact .step₂ fun _ _ => spansFrom_node hkind _ _

end

theorem spans_awaitUsing : Spans (awaitUsing sub) :=
  spans_position fun _ => .step₃ fun _ _ _ => spansFrom_declarators rfl _ _

/-- An export starts at the decorators in front of it. -/
theorem spansFrom_exportStatement (start : Nat) (lead : List Node) :
    SpansFrom start (exportStatement sub start lead) := by
  refine .step₄ fun _ _ _ _ => ?_
  refine .ite ?_ (.ite ?_ (.ite ?_ ?_))
  · exact .step₃ fun _ _ _ => spansFrom_node rfl _ _
  · exact .step₃ fun _ _ _ => spansFrom_node rfl _ _
  · exact .step₄ fun _ _ _ _ => spansFrom_node rfl _ _
  · exact .step₂ fun _ _ => spansFrom_node rfl _ _

/-- An import statement reaches from its word to its semicolon, if it has one. -/
theorem spans_importStatement : Spans (importStatement sub) := by
  refine spans_position fun _ => .step₃ fun _ _ _ => .ite ?_ ?_
  · exact .step₄ fun _ _ _ _ => spansFrom_node rfl _ _
  · exact .step₃ fun _ _ _ => .step₂ fun _ _ => spansFrom_node rfl _ _

theorem spans_doStatement : Spans (doStatement sub) :=
  spans_position fun _ => .step₄ fun _ _ _ _ => .step₄ fun _ _ _ _ => spansFrom_node rfl _ _

/-- A loop over elements ends with its body. -/
theorem spansFrom_elementsRest (start : Nat) (lead : List Node) :
    SpansFrom start (elementsRest sub start lead) :=
  .step₄ fun _ _ _ _ => .step₄ fun _ _ _ _ => spansFrom_node rfl _ _

/-- Whichever kind of variable a loop over elements has. -/
theorem spansFrom_elementsLoop (asi : Bool) (start : Nat) (lead : List Node) :
    SpansFrom start (elementsLoop sub asi start lead) := by
  refine .step fun _ => .step fun gap => .step fun c => ?_
  have hrest (header : Parser (List Node)) : SpansFrom start (do
      let target ← header
      elementsRest sub start (lead ++ gap ++ target)) :=
    .step fun _ => spansFrom_elementsRest start _
  dsimp only
  split
  · exact (hrest _).orElse (hrest _)
  · exact hrest _
  · exact (hrest _).orElse ((hrest _).orElse (hrest _))
  · exact (hrest _).orElse (hrest _)

theorem spansFrom_steppedLoop (start : Nat) (lead : List Node) :
    SpansFrom start (steppedLoop sub start lead) := by
  refine .step fun _ => .step fun gap => .step fun c => ?_
  have hend (head step : List Node) : SpansFrom start (do
      literal ")"
      let gap₄ ← trivia
      let body ← sub.statement
      node .forStatement start (head ++ step ++ gap₄ ++ [body])) :=
    .step₃ fun _ _ _ => spansFrom_node rfl _ _
  have hrest (first : List Node) : SpansFrom start (do
      let gap₂ ← trivia
      let condition ← clause sub
      let gap₃ ← trivia
      let step ← if (← get).startsWith ")" then pure [] else do
        let value ← expressions sub false
        pure (value :: (← plainTrivia))
      literal ")"
      let gap₄ ← trivia
      let body ← sub.statement
      node .forStatement start
        (lead ++ gap ++ first ++ gap₂ ++ condition ++ gap₃ ++ step ++ gap₄ ++ [body])) := by
    refine .step₄ fun _ _ _ _ => .ite ?_ ?_
    · exact .step fun _ => hend _ _
    · exact .step₃ fun _ _ _ => hend _ _
  dsimp only
  split
  · exact .step₂ fun _ _ => hrest _
  · exact .step₂ fun _ _ => hrest _
  · exact .step fun _ => hrest _
  · exact .step fun _ => hrest _

/-- Both kinds of `for` loops begin at the word and end with their bodies. -/
theorem spans_forLoop : Spans (forLoop sub) := by
  refine spans_position fun _ => .step₃ fun _ _ _ => .ite ?_ ?_
  · exact .step₃ fun _ _ _ => spansFrom_elementsLoop _ _ _
  · exact (spansFrom_elementsLoop _ _ _).orElse (spansFrom_steppedLoop _ _)

/-- A branch ends with its last alternative. -/
theorem spans_ifStatement : Spans (ifStatement sub) := by
  refine fun c => GivesAt.bind (spans_guarded rfl _ c) fun first d hfirst => givesAt_get ?_
  rw [← hfirst.1]
  refine Gives.step (fun _ => .step₂ fun _ _ => .ite ?_ ?_) d
  · exact .step₄ fun _ _ _ _ => spansFrom_node rfl _ _
  · -- without an alternative the parser goes back to the end of the statement
    refine gives_set fun node c' h => ?_
    cases h
    exact ⟨rfl, hfirst.2⟩

theorem spans_switchStatement : Spans (switchStatement sub) :=
  spans_position fun _ => .step₄ fun _ _ _ _ => .step₄ fun _ _ _ _ => .step₂ fun _ _ => spansFrom_node rfl _ _

theorem spans_tryStatement : Spans (tryStatement sub) :=
  spans_position fun _ => .step₃ fun _ _ _ => .step₂ fun _ _ => spansFrom_node rfl _ _

theorem spans_debuggerStatement : Spans debuggerStatement :=
  spans_position fun _ => .step₂ fun _ _ => spansFrom_node rfl _ _

/-- A jump out of a function ends behind its value or at its line. -/
theorem spans_returnStatement : Spans (returnStatement sub) := by
  refine spans_position fun _ => .step₂ fun _ _ => ?_
  split
  · exact .ite (.step fun _ => spansFrom_node rfl _ _) (.step₃ fun _ _ _ => spansFrom_node rfl _ _)
  · exact .step fun _ => spansFrom_node rfl _ _

theorem spans_throwStatement : Spans (throwStatement sub) :=
  spans_position fun _ => .step₄ fun _ _ _ _ => spansFrom_node rfl _ _

theorem spans_labeledStatement : Spans (labeledStatement sub) :=
  fun c => BeginsAt.spans (begins_word _ c) fun _ => .step₄ fun _ _ _ _ => spansFrom_node rfl _ _

/-- Decorators belong to the class or export behind them. -/
theorem spans_decorated : Spans (decorated sub) := by
  refine fun c => givesAt_get (Gives.step (fun _ => .step fun _ => .ite ?_ ?_) c)
  · exact spansFrom_exportStatement _ _
  · exact .step₂ fun _ _ => gives_set (spans_definitionOr c)

section
variable (hexpression : ∀ level asi, Begins (sub.expression level asi))
include hexpression

/-- An expression as a statement. -/
theorem spans_expressionStatement : Spans (expressionStatement sub) :=
  fun c => BeginsAt.spans (hexpression _ _ c) spansFrom_expressionRest

/-- A statement that begins with a brace, block or not. -/
theorem spans_braceStatement : Spans (braceStatement sub) := by
  have hblock : Spans (blockOrElse sub (blockAlone sub) (expressionStatement sub)) :=
    spans_blockOrElse spans_blockAlone (spans_expressionStatement hexpression)
  refine fun c => (hblock c).keep fun node => .ite ?_ (keeps_pure node)
  exact .still_bind (still_noMarkupComment _) fun _ => keeps_pure node

theorem spans_exportOrName : Spans (exportOrName sub) := by
  refine fun c => givesAt_get ?_
  dsimp only
  split
  · exact .ite (spansFrom_exportStatement _ _ c) (spans_expressionStatement hexpression c)
  · exact spans_expressionStatement hexpression c

theorem spans_importOrCall : Spans (importOrCall sub) := by
  refine fun c => givesAt_get ?_
  dsimp only
  split
  · exact .ite (spans_expressionStatement hexpression c) (spans_importStatement c)
  · exact givesAt_failure

/-- A statement by its first word. -/
theorem spans_wordStatement : Spans (wordStatement sub) := by
  have hword := spans_expressionStatement hexpression
  refine fun c => givesAt_get ?_
  split
  · exact spans_declareVariables rfl _ c
  · exact spans_declareVariables rfl _ c
  · exact .still still_letDeclares fun _ => .ite (spans_declareVariables rfl _ c) (hword c)
  · exact spans_declareVariables rfl _ c
  · exact .still still_awaitDeclares fun _ => .ite (spans_awaitUsing c) (hword c)
  · exact spans_importOrCall hexpression c
  · exact spans_exportOrName hexpression c
  · exact spans_ifStatement c
  · exact spans_switchStatement c
  · exact spans_forLoop c
  · exact spans_guarded rfl _ c
  · exact spans_guarded rfl _ c
  · exact spans_doStatement c
  · exact spans_tryStatement c
  · exact spans_jump rfl _ c
  · exact spans_jump rfl _ c
  · exact spans_returnStatement c
  · exact spans_throwStatement c
  · exact spans_debuggerStatement c
  · exact .still still_seesDefinition fun _ => .ite (spans_definitionOr c) (hword c)

/-- A statement spans what its parser took, if the entry point for expressions begins at the cursor. -/
theorem spans_statement_of : Spans (statement sub) := by
  refine fun c => givesAt_get ?_
  split
  · exact spans_braceStatement hexpression c
  · exact Gives.step (fun _ => spansFrom_node rfl _ _) c
  · exact spans_decorated c
  · refine .still still_seesColon fun _ => .ite (spans_labeledStatement c) (.ite ?_ ?_)
    · exact spans_expressionStatement hexpression c
    · exact spans_wordStatement hexpression c

end

/-- The entry point for expressions begins at the cursor at every depth. -/
theorem begins_parsers (depth level : Nat) (asi : Bool) :
    Begins ((parsers depth).expression level asi) := by
  cases depth with
  | zero => exact fun _ => givesAt_failure
  | succ depth => exact begins_expression level asi

/-- A statement goes from where its parser starts to where it stops. -/
theorem spans_statement (depth : Nat) : Spans (statement (parsers depth)) :=
  spans_statement_of (begins_parsers depth)

end

end NotebookCell.Script.Parser
