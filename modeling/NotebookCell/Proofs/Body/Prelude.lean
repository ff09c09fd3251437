import NotebookCell.Body.Import
import NotebookCell.Proofs.Reading.Locality

/-!
# Reading what imports were replaced by

Import statements become one statement in front of the cell that awaits the modules and takes them
apart. `readPrelude` tells from its text what that statement binds: it knows words and strings,
destructuring patterns and dynamic imports, and nothing about the trees the text was made from.

`yields_prelude`: a statement made of patterns and dynamic imports is read as what each pattern binds
in its module.
-/

namespace NotebookCell.Body

open NotebookCell.Tree NotebookCell.Script

/-- What of a module a name stands for. -/
inductive Export where
  /-- all of it -/
  | whole
  /-- what it exports under a name, as the name is written -/
  | named (key : List Char)
deriving DecidableEq, Repr

/-- The module that an import is from: its specifier as written, and whether that is resolved against
the address of the document. -/
structure Origin where
  specifier : List Char
  resolved : Bool
deriving DecidableEq, Repr

/-- A name that stands for a part of a module. -/
structure Import where
  name : List Char
  exported : Export
  origin : Origin
deriving DecidableEq, Repr

/-! ## Bound names -/

section
open NotebookCell.Script.Parser
variable {α : Type}

/-- Reads something and yields its text. -/
def spelling (p : Parser α) : Parser (List Char) := do
  let before ← get
  let _ ← p
  return before.rest.take (before.rest.length - (← get).rest.length)

/-- Reads one more item of a list, if there is a comma. -/
def nextItem (item : Parser α) : Parser (Option α) := do
  if (← get).startsWith ", " then
    literal ", "
    return some (← item)
  else
    return none

/-- Reads items with commas between them, up to a closing text. -/
def listed (item : Parser α) (close : String) : Parser (List α) := do
  match ← Parser.optional item with
  | none =>
    literal close
    return []
  | some first =>
    let rest ← many (nextItem item)
    literal close
    return first :: rest

/-- Reads a member of an object pattern; a key that is a string needs another name. -/
def patternMember : Parser (List Char × Export) := do
  let c ← get
  if c.startsWith "\x22" || c.startsWith "\x27" then
    let key ← spelling string
    literal ": "
    return (← spelling (word .identifier), .named key)
  else
    let key ← spelling (word .identifier)
    if (← get).startsWith ": " then
      literal ": "
      return (← spelling (word .identifier), .named key)
    else
      return (key, .named key)

/-- Reads a pattern that takes a module apart, or a name for all of it. -/
def modulePattern : Parser (List (List Char × Export)) := do
  if (← get).startsWith "\x7b" then
    literal "\x7b"
    listed patternMember "\x7d"
  else
    return [(← spelling (word .identifier), .whole)]

/-- Reads a dynamic import. -/
def moduleCall : Parser Origin := do
  literal "import("
  if (← get).startsWith "new URL(" then
    literal "new URL("
    let specifier ← spelling string
    literal ", document.baseURI).href)"
    return ⟨specifier, true⟩
  else
    let specifier ← spelling string
    literal ")"
    return ⟨specifier, false⟩

/-- What a pattern binds when it is matched with a module. -/
def importsFrom (pattern : List (List Char × Export)) (origin : Origin) : List Import :=
  pattern.map fun (name, exported) => ⟨name, exported, origin⟩

/-- Reads a statement that awaits modules and takes them apart. -/
def readPrelude : Parser (List Import) := do
  literal "const "
  if (← get).startsWith "[" then
    literal "["
    let patterns ← listed modulePattern "] = await Promise.all(["
    let origins ← listed moduleCall "]);\n"
    require (patterns.length == origins.length)
    return (patterns.zipWith importsFrom origins).flatten
  else
    let pattern ← modulePattern
    literal " = await "
    let origin ← moduleCall
    literal ";\n"
    return importsFrom pattern origin

end

/-! ## Reading in place -/

section
open NotebookCell.Script.Parser
variable {α β : Type} {p : Parser α} {a : α} {b : β} {text text' rest : List Char}

/-- A parser reads a text, and no more of what is behind it. -/
def Yields (p : Parser α) (text : List Char) (a : α) (rest : List Char) : Prop :=
  ∀ pos, ∃ pos', p ⟨text ++ rest, pos⟩ = some (a, ⟨rest, pos'⟩)

theorem yields_pure (a : α) (rest : List Char) : Yields (pure a) [] a rest :=
  fun pos => ⟨pos, rfl⟩

/-- Two readings in a row. -/
theorem Yields.bind {f : α → Parser β} (h : Yields p text a (text' ++ rest))
    (hf : Yields (f a) text' b rest) : Yields (p >>= f) (text ++ text') b rest := by
  intro pos
  obtain ⟨pos', hp⟩ := h pos
  obtain ⟨stop, hstop⟩ := hf pos'
  exact ⟨stop, by rw [List.append_assoc, bind_of_eq hp, hstop]⟩

/-- A parser that reads nothing more. -/
theorem Yields.last {f : α → Parser β} (h : Yields p text a rest) (hf : Yields (f a) [] b rest) :
    Yields (p >>= f) text b rest := by
  rw [← List.append_nil text]
  exact h.bind hf

/-- A parser that looks at the cursor first. -/
theorem yields_get {f : Cursor → Parser α} (h : ∀ pos, Yields (f ⟨text ++ rest, pos⟩) text a rest) :
    Yields (get >>= f) text a rest :=
  fun pos => h pos pos

theorem startsWith_append (word : String) (rest : List Char) (pos : Nat) :
    (⟨word.toList ++ rest, pos⟩ : Cursor).startsWith word = true := by
  rw [Cursor.startsWith, List.isPrefixOf_iff_prefix]
  exact List.prefix_append _ _

/-- A literal yields nothing but its text. -/
theorem yields_literal (word : String) (rest : List Char) :
    Yields (literal word) word.toList () rest := by
  intro pos
  refine ⟨pos + byteLength word.toList, ?_⟩
  rw [literal, get_bind, startsWith_append]
  show some ((), (⟨word.toList ++ rest, pos⟩ : Cursor).skip word.length) = _
  rw [← String.length_toList, Cursor.skip_append]

/-- A literal in front of another reading. -/
theorem yields_literal_bind {f : Unit → Parser α} (word : String) (h : Yields (f ()) text a rest) :
    Yields (literal word >>= f) (word.toList ++ text) a rest :=
  (yields_literal word _).bind h

/-- The text that is read can be told from where the reading stops. -/
theorem yields_spelling
    (h : ∀ pos, ∃ a pos', p ⟨text ++ rest, pos⟩ = some (a, ⟨rest, pos'⟩)) :
    Yields (spelling p) text text rest := by
  intro pos
  obtain ⟨a, pos', hp⟩ := h pos
  refine ⟨pos', ?_⟩
  rw [spelling, get_bind, bind_of_eq hp, get_bind]
  show some ((text ++ rest).take ((text ++ rest).length - rest.length), _) = _
  rw [List.length_append, Nat.add_sub_cancel, List.take_left]

/-- A parser reads a text wherever one of some characters is behind it. -/
def ReadsBefore (p : Parser α) (stops : Char → Bool) (text : List Char) (a : α) : Prop :=
  ∀ stop, stops stop = true → ∀ tail, Yields p text a (stop :: tail)

/-! ### Words and strings -/

/-- A text that is one word. -/
def IsWord (text : List Char) : Prop :=
  text ≠ [] ∧ ∃ tail, wordLength (text ++ tail) = text.length

/-- A text that is one string. -/
def IsQuoted (text : List Char) : Prop :=
  ∃ tail pos node stop, string ⟨text ++ tail, pos⟩ = some (node, ⟨tail, stop⟩)

/-- A word is read up to what ends it. -/
theorem IsWord.readsBefore (h : IsWord text) :
    ReadsBefore (spelling (word .identifier)) endsWord text text := by
  intro stop hstop tail
  refine yields_spelling fun pos => ?_
  obtain ⟨hne, other, hlength⟩ := h
  have hword := wordLength_append_of_eq hne hlength hstop tail
  have hpos : (text.length != 0) = true := bne_iff_ne.mpr (mt List.length_eq_zero_iff.mp hne)
  refine ⟨⟨.identifier, pos, pos + byteLength text, true, false, none, []⟩,
    pos + byteLength text, ?_⟩
  rw [word, get_bind]
  dsimp only
  rw [hword, hpos, Cursor.skip_append]
  rfl

/-- A string literal is read whatever follows. -/
theorem IsQuoted.yields (h : IsQuoted text) (rest : List Char) :
    Yields (spelling string) text text rest := by
  refine yields_spelling fun pos => ?_
  obtain ⟨tail, pos', node, stop, hstring⟩ := h
  exact string_append hstring rest pos

theorem wordLength_of_endsWord {first : Char} (h : endsWord first = true) (rest : List Char) :
    wordLength (first :: rest) = 0 := by
  have hname : nameLength isNamePart (first :: rest) ([] ++ first :: rest) = 0 :=
    nameLength_append h (List.forall_mem_nil _) rest (first :: rest) (Nat.zero_lt_succ _)
  rw [wordLength]
  split
  · rfl
  · exact hname

/-- No word begins with a character that ends words. -/
theorem IsWord.exists_cons (h : IsWord text) :
    ∃ first rest, text = first :: rest ∧ endsWord first = false := by
  obtain ⟨hne, tail, hlength⟩ := h
  obtain ⟨first, rest, rfl⟩ := List.exists_cons_of_ne_nil hne
  refine ⟨first, rest, rfl, ?_⟩
  rw [Bool.eq_false_iff]
  intro hends
  rw [List.cons_append, wordLength_of_endsWord hends] at hlength
  cases hlength

/-- A string literal starts with its quote. -/
theorem IsQuoted.exists_cons (h : IsQuoted text) :
    ∃ quote rest, text = quote :: rest ∧ (quote == '\x22' || quote == '\x27') = true := by
  obtain ⟨tail, pos, node, stop, hstring⟩ := h
  -- the string is read the same with nothing behind it, so its quote is its own
  obtain ⟨node', stop', halone⟩ := string_append hstring [] pos
  obtain ⟨quote, rest, hrest, hquote, -⟩ := exists_of_string halone
  exact ⟨quote, rest, (List.append_nil text).symm.trans hrest, hquote⟩

/-! ### Members -/

/-- The characters behind a member of a pattern. -/
def endsMember (c : Char) : Bool := c == ',' || c == '\x7d'

/-- What ends a member ends a word. -/
theorem endsWord_of_endsMember {c : Char} (h : endsMember c = true) : endsWord c = true := by
  rw [endsMember, Bool.or_eq_true, beq_iff_eq, beq_iff_eq] at h
  obtain rfl | rfl := h <;> decide

/-- A word starts with no quote. -/
theorem IsWord.not_quote (h : IsWord text) (rest : List Char) (pos : Nat) :
    ((⟨text ++ rest, pos⟩ : Cursor).startsWith "\x22" ||
      (⟨text ++ rest, pos⟩ : Cursor).startsWith "\x27") = false := by
  obtain ⟨first, text, rfl, hfirst⟩ := h.exists_cons
  rw [Bool.or_eq_false_iff]
  constructor
  · refine startsWith_of_ne rfl ?_
    rintro rfl
    cases hfirst
  · refine startsWith_of_ne rfl ?_
    rintro rfl
    cases hfirst

theorem IsQuoted.is_quote (h : IsQuoted text) (rest : List Char) (pos : Nat) :
    ((⟨text ++ rest, pos⟩ : Cursor).startsWith "\x22" ||
      (⟨text ++ rest, pos⟩ : Cursor).startsWith "\x27") = true := by
  obtain ⟨quote, text, rfl, hquote⟩ := h.exists_cons
  rw [Bool.or_eq_true, beq_iff_eq, beq_iff_eq] at hquote
  obtain rfl | rfl := hquote <;> rfl

section
variable {key id : List Char}

/-- A member that is bound under its own name. -/
theorem IsWord.member (h : IsWord key) :
    ReadsBefore patternMember endsMember key (key, .named key) := by
  intro stop hstop tail
  have hcolon : ∀ pos, (⟨[] ++ stop :: tail, pos⟩ : Cursor).startsWith ": " = false := by
    intro pos
    refine startsWith_of_ne rfl ?_
    rintro rfl
    cases hstop
  rw [patternMember]
  refine yields_get fun pos => ?_
  rw [h.not_quote, if_neg Bool.false_ne_true]
  refine (h.readsBefore stop (endsWord_of_endsMember hstop) tail).last ?_
  refine yields_get fun pos => ?_
  rw [hcolon, if_neg Bool.false_ne_true]
  exact yields_pure _ _

/-- A member that is bound under another name. -/
theorem IsWord.member_renamed (h : IsWord key) (hid : IsWord id) :
    ReadsBefore patternMember endsMember (key ++ ": ".toList ++ id) (id, .named key) := by
  intro stop hstop tail
  rw [patternMember, List.append_assoc]
  refine yields_get fun pos => ?_
  rw [List.append_assoc, h.not_quote, if_neg Bool.false_ne_true]
  refine Yields.bind (h.readsBefore ':' (by decide) _) ?_
  refine yields_get fun pos => ?_
  rw [List.append_assoc, startsWith_append, if_pos rfl]
  refine yields_literal_bind _ ?_
  exact (hid.readsBefore stop (endsWord_of_endsMember hstop) tail).last (yields_pure _ _)

/-- A member whose name is a string. -/
theorem IsQuoted.member_renamed (h : IsQuoted key) (hid : IsWord id) :
    ReadsBefore patternMember endsMember (key ++ ": ".toList ++ id) (id, .named key) := by
  intro stop hstop tail
  rw [patternMember, List.append_assoc]
  refine yields_get fun pos => ?_
  rw [List.append_assoc, h.is_quote, if_pos rfl]
  refine Yields.bind (h.yields _) ?_
  refine yields_literal_bind _ ?_
  exact (hid.readsBefore stop (endsWord_of_endsMember hstop) tail).last (yields_pure _ _)

end

/-! ### Lists -/

/-- A list with commas, as its first text and the others with a comma each. -/
theorem commaSeparated_cons (text : List Char) (texts : List (List Char)) :
    commaSeparated (text :: texts) = text ++ texts.flatMap (", ".toList ++ ·) := by
  induction texts generalizing text with
  | nil => simp [commaSeparated]
  | cons next texts ih =>
    have hnext := ih next
    rw [commaSeparated] at hnext ⊢
    rw [List.intersperse_cons_cons, List.flatten_cons, List.flatten_cons, hnext, List.flatMap_cons,
      List.append_assoc]

section
variable {item : Parser α} {stops : Char → Bool} {texts : List (List Char)} {values : List α}
  {first : Char} {more : List Char}

/-- The items of a list behind the first one, up to what closes it. -/
theorem yields_collect (hitems : List.Forall₂ (ReadsBefore item stops) texts values)
    (hcomma : stops ',' = true) (hfirst : stops first = true) (hne : first ≠ ',')
    (rest bound : List Char) (hbound : texts.length ≤ bound.length) :
    Yields (collect (nextItem item) bound) (texts.flatMap (", ".toList ++ ·)) values
      (first :: rest) := by
  induction hitems generalizing bound with
  | nil =>
    intro pos
    refine ⟨pos, collect_of_none ?_ bound⟩
    rw [nextItem, get_bind, List.flatMap_nil, List.nil_append,
      startsWith_of_ne rfl hne, if_neg Bool.false_ne_true]
    rfl
  | @cons text value texts values hitem hitems ih =>
    intro pos
    obtain ⟨_, bound, rfl⟩ : ∃ d bound', bound = d :: bound' := by
      cases bound with
      | nil => cases hbound
      | cons d bound => exact ⟨d, bound, rfl⟩
    -- behind an item comes a comma or the closing text
    have hbehind : Yields item text value (texts.flatMap (", ".toList ++ ·) ++ first :: rest) := by
      cases texts with
      | nil => exact hitem first hfirst rest
      | cons next texts => exact hitem ',' hcomma _
    have hnext : Yields (nextItem item) (", ".toList ++ text) (some value)
        (texts.flatMap (", ".toList ++ ·) ++ first :: rest) := by
      refine yields_get fun pos => ?_
      rw [List.append_assoc, startsWith_append, if_pos rfl]
      exact yields_literal_bind _ (hbehind.last (yields_pure _ _))
    obtain ⟨pos', hstep⟩ := hnext pos
    obtain ⟨stop, hcollect⟩ := ih bound (Nat.le_of_succ_le_succ hbound) pos'
    refine ⟨stop, ?_⟩
    rw [List.flatMap_cons, List.append_assoc, collect_of_some hstep, hcollect]
    rfl

theorem length_le_flatMap (texts : List (List Char)) (rest : List Char) :
    texts.length ≤ (texts.flatMap (", ".toList ++ ·) ++ rest).length := by
  induction texts with
  | nil => exact Nat.zero_le _
  | cons text texts ih =>
    rw [List.length_append] at ih ⊢
    rw [List.flatMap_cons, List.length_append, List.length_cons, List.length_append]
    have hcomma : ", ".toList.length = 2 := rfl
    omega

/-- A list with commas up to what closes it. -/
theorem yields_listed (hitems : List.Forall₂ (ReadsBefore item stops) texts values) {close : String}
    (hclose : close.toList = first :: more) (hcomma : stops ',' = true)
    (hfirst : stops first = true) (hne : first ≠ ',')
    (hrefused : ∀ text pos, item ⟨first :: text, pos⟩ = none) (rest : List Char) :
    Yields (listed item close) (commaSeparated texts ++ close.toList) values rest := by
  cases hitems with
  | nil =>
    intro pos
    obtain ⟨stop, hliteral⟩ := yields_literal close rest pos
    have hnone : Parser.optional item ⟨close.toList ++ rest, pos⟩ =
        some (none, ⟨close.toList ++ rest, pos⟩) := by
      rw [Parser.optional, hclose, List.cons_append, hrefused]
    refine ⟨stop, ?_⟩
    show listed item close ⟨close.toList ++ rest, pos⟩ = _
    rw [listed, bind_of_eq hnone]
    exact bind_of_eq hliteral _
  | @cons text value texts values hitem hitems =>
    have hbehind : Yields (Parser.optional item) text (some value)
        (texts.flatMap (", ".toList ++ ·) ++ (close.toList ++ rest)) := by
      have hread : Yields item text value
          (texts.flatMap (", ".toList ++ ·) ++ (close.toList ++ rest)) := by
        cases texts with
        | nil =>
          rw [hclose]
          exact hitem first hfirst _
        | cons next texts => exact hitem ',' hcomma _
      intro pos
      obtain ⟨pos', hitem⟩ := hread pos
      exact ⟨pos', by rw [Parser.optional, hitem]⟩
    have hmany : Yields (many (nextItem item)) (texts.flatMap (", ".toList ++ ·)) values
        (close.toList ++ rest) := by
      refine yields_get fun pos => ?_
      rw [hclose]
      exact yields_collect hitems hcomma hfirst hne _ _ (length_le_flatMap _ _)
    rw [commaSeparated_cons, List.append_assoc]
    refine Yields.bind (by rwa [List.append_assoc]) ?_
    exact hmany.bind ((yields_literal close rest).last (yields_pure _ _))

end

/-! ### Preludes -/

theorem spelling_word_refused {first : Char} (h : endsWord first = true) (text : List Char)
    (pos : Nat) : spelling (word .identifier) ⟨first :: text, pos⟩ = none := by
  rw [spelling, get_bind]
  apply bind_of_refused
  rw [word, get_bind, wordLength_of_endsWord h]
  rfl

theorem patternMember_refused (text : List Char) (pos : Nat) :
    patternMember ⟨'\x7d' :: text, pos⟩ = none := by
  rw [patternMember, get_bind]
  show (spelling (word .identifier) >>= _ : Parser _) _ = _
  exact bind_of_refused (spelling_word_refused (by decide) text pos) _

/-- No pattern starts with a sign other than its brace. -/
theorem modulePattern_refused {first : Char} (h : endsWord first = true) (hne : first ≠ '\x7b')
    (text : List Char) (pos : Nat) : modulePattern ⟨first :: text, pos⟩ = none := by
  rw [modulePattern, get_bind, startsWith_of_ne rfl hne, if_neg Bool.false_ne_true]
  exact bind_of_refused (spelling_word_refused h text pos) _

theorem moduleCall_refused (text : List Char) (pos : Nat) :
    moduleCall ⟨']' :: text, pos⟩ = none := rfl

/-- The characters behind the pattern of a module. -/
def endsPattern (c : Char) : Bool := c == ' ' || c == ',' || c == ']'

/-- What ends a pattern ends a word. -/
theorem endsWord_of_endsPattern {c : Char} (h : endsPattern c = true) : endsWord c = true := by
  rw [endsPattern, Bool.or_eq_true, Bool.or_eq_true, beq_iff_eq, beq_iff_eq, beq_iff_eq] at h
  obtain (rfl | rfl) | rfl := h <;> decide

/-- A pattern of members in braces. -/
theorem readsBefore_members {members : List (List Char)} {values : List (List Char × Export)}
    (h : List.Forall₂ (ReadsBefore patternMember endsMember) members values) :
    ReadsBefore modulePattern endsPattern ('\x7b' :: commaSeparated members ++ ['\x7d']) values := by
  intro stop _ tail
  show Yields modulePattern ("\x7b".toList ++ (commaSeparated members ++ "\x7d".toList)) values _
  refine yields_get fun pos => ?_
  rw [List.append_assoc, startsWith_append, if_pos rfl]
  refine yields_literal_bind _ ?_
  exact yields_listed h rfl rfl rfl (by decide) patternMember_refused _

/-- A pattern that takes the whole module. -/
theorem IsWord.namespace {id : List Char} (h : IsWord id) :
    ReadsBefore modulePattern endsPattern id [(id, .whole)] := by
  intro stop hstop tail
  refine yields_get fun pos => ?_
  obtain ⟨first, rest, rfl, hfirst⟩ := h.exists_cons
  have hne : first ≠ '\x7b' := by
    rintro rfl
    cases hfirst
  rw [List.cons_append, startsWith_of_ne rfl hne, if_neg Bool.false_ne_true]
  exact (h.readsBefore stop (endsWord_of_endsPattern hstop) tail).last (yields_pure _ _)

/-- The call for a module whose address is resolved. -/
theorem yields_resolved_call {specifier : List Char} (h : IsQuoted specifier) (rest : List Char) :
    Yields moduleCall
      ("import(".toList ++ ("new URL(".toList ++ (specifier ++ ", document.baseURI).href)".toList)))
      ⟨specifier, true⟩ rest := by
  refine yields_literal_bind _ (yields_get fun pos => ?_)
  rw [List.append_assoc, startsWith_append, if_pos rfl]
  refine yields_literal_bind _ ((h.yields _).bind ?_)
  exact (yields_literal _ _).last (yields_pure _ _)

/-- The call for a module that is named as it is. -/
theorem yields_plain_call {specifier : List Char} (h : IsQuoted specifier) (rest : List Char) :
    Yields moduleCall ("import(".toList ++ (specifier ++ ")".toList)) ⟨specifier, false⟩ rest := by
  refine yields_literal_bind _ (yields_get fun pos => ?_)
  have hurl : (⟨specifier ++ ")".toList ++ rest, pos⟩ : Cursor).startsWith "new URL(" = false := by
    obtain ⟨quote, text, rfl, hquote⟩ := h.exists_cons
    refine startsWith_of_ne rfl ?_
    rintro rfl
    cases hquote
  rw [hurl, if_neg Bool.false_ne_true]
  exact (h.yields _).bind ((yields_literal _ _).last (yields_pure _ _))

/-- A dynamic import is read as the module it was made for. -/
theorem IsQuoted.yields_call {specifier : List Char} (h : IsQuoted specifier) (resolve : Bool)
    (rest : List Char) :
    Yields moduleCall ("import(".toList ++ resolveSpecifier resolve specifier ++ [')'])
      ⟨specifier, resolve && isLocalSpecifier specifier⟩ rest := by
  rw [resolveSpecifier, List.append_assoc]
  cases resolve && isLocalSpecifier specifier with
  | true =>
    rw [if_pos rfl, List.append_assoc, List.append_assoc]
    exact yields_resolved_call h rest
  | false => exact yields_plain_call h rest

/-- A pattern and a dynamic import are read as given, and so is what is made of them. -/
structure ReadsImport (texts : List Char × List Char)
    (value : List (List Char × Export) × Origin) : Prop where
  pattern : ReadsBefore modulePattern endsPattern texts.1 value.1
  call : ∀ rest, Yields moduleCall texts.2 value.2 rest

/-- No pattern of a module begins with a bracket. -/
theorem ReadsImport.not_bracket {texts value} (h : ReadsImport texts value) (tail : List Char)
    (pos : Nat) : (⟨texts.1 ++ (' ' :: tail), pos⟩ : Cursor).startsWith "[" = false := by
  obtain ⟨pos', hread⟩ := h.pattern ' ' rfl tail pos
  obtain ⟨pattern, call⟩ := texts
  dsimp only at hread ⊢
  cases pattern with
  | nil => rfl
  | cons first pattern =>
    refine startsWith_of_ne rfl ?_
    rintro rfl
    rw [List.cons_append, modulePattern_refused (by decide) (by decide)] at hread
    cases hread

section
variable {imports : List (List Char × List Char)}
  {values : List (List (List Char × Export) × Origin)}

/-- The statement for one module. -/
theorem yields_single {pattern call : List Char} {members : List (List Char × Export)}
    {origin : Origin} (h : ReadsImport (pattern, call) (members, origin)) (rest : List Char) :
    Yields readPrelude
      ("const ".toList ++ (pattern ++ (" = await ".toList ++ (call ++ ";\n".toList))))
      (importsFrom members origin) rest := by
  refine yields_literal_bind _ (yields_get fun pos => ?_)
  rw [List.append_assoc, List.append_assoc]
  have hbracket : (⟨pattern ++ (" = await ".toList ++ (call ++ ";\n".toList ++ rest)), pos⟩ :
      Cursor).startsWith "[" = false := h.not_bracket _ pos
  rw [hbracket, if_neg Bool.false_ne_true]
  refine (h.pattern ' ' rfl _).bind ?_
  refine yields_literal_bind _ ((h.call _).bind ?_)
  exact (yields_literal _ _).last (yields_pure _ _)

/-- The statement for several modules. -/
theorem yields_several (h : List.Forall₂ ReadsImport imports values) (rest : List Char) :
    Yields readPrelude
      ("const ".toList ++ ("[".toList ++
        (commaSeparated (imports.map (·.1)) ++ "] = await Promise.all([".toList ++
          (commaSeparated (imports.map (·.2)) ++ "]);\n".toList))))
      (values.flatMap fun value => importsFrom value.1 value.2) rest := by
  have hpatterns : List.Forall₂ (ReadsBefore modulePattern endsPattern) (imports.map (·.1))
      (values.map (·.1)) := by
    rw [List.forall₂_map_left_iff, List.forall₂_map_right_iff]
    exact h.imp fun _ _ himport => himport.pattern
  have hcalls : List.Forall₂ (ReadsBefore moduleCall endsPattern) (imports.map (·.2))
      (values.map (·.2)) := by
    rw [List.forall₂_map_left_iff, List.forall₂_map_right_iff]
    exact h.imp fun _ _ himport _ _ _ => himport.call _
  refine yields_literal_bind _ (yields_get fun pos => ?_)
  rw [List.append_assoc, startsWith_append, if_pos rfl]
  refine yields_literal_bind _ ?_
  refine (yields_listed hpatterns rfl rfl rfl (by decide)
    (modulePattern_refused (by decide) (by decide)) _).bind ?_
  refine (yields_listed hcalls rfl rfl rfl (by decide) moduleCall_refused _).last ?_
  rw [List.length_map, List.length_map, beq_self_eq_true, List.zipWith_map, List.zipWith_self]
  exact yields_pure _ _

/-- How the statement for one module is written. -/
theorem prelude_single (pattern call : List Char) :
    prelude [(pattern, call)] =
      "const ".toList ++ (pattern ++ (" = await ".toList ++ (call ++ ";\n".toList))) := by
  show "const ".toList ++ _ ++ _ ++ _ ++ _ = _
  simp only [List.append_assoc]

/-- How the statement for several modules is written. -/
theorem prelude_several (first second : List Char × List Char)
    (imports : List (List Char × List Char)) :
    prelude (first :: second :: imports) =
      "const ".toList ++ ("[".toList ++
        (commaSeparated ((first :: second :: imports).map (·.1)) ++
          "] = await Promise.all([".toList ++
          (commaSeparated ((first :: second :: imports).map (·.2)) ++ "]);\n".toList))) := by
  have hconst : "const [".toList = "const ".toList ++ "[".toList := rfl
  show "const [".toList ++ _ ++ _ ++ _ ++ _ = _
  rw [hconst]
  simp only [List.append_assoc]

/-- The statement in place of import statements is read as the patterns and modules it is made of. -/
theorem yields_prelude (h : List.Forall₂ ReadsImport imports values) (hne : imports ≠ [])
    (rest : List Char) :
    Yields readPrelude (prelude imports) (values.flatMap fun value => importsFrom value.1 value.2)
      rest := by
  cases h with
  | nil => exact absurd rfl hne
  | @cons first value imports values himport himports =>
    cases himports with
    | nil =>
      rw [prelude_single, List.flatMap_singleton]
      exact yields_single himport rest
    | cons himport' himports =>
      rw [prelude_several]
      exact yields_several (.cons himport (.cons himport' himports)) rest

end

end

end NotebookCell.Body
