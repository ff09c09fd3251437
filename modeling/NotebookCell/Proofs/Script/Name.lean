import NotebookCell.Proofs.Script.Literal

/-!
# Reading names

A word that is no keyword reads as an identifier wherever an operand may stand, and as an expression
statement where a statement may. What follows the word must end it, and must not make it the
parameter of a function.

* `fronted_name`: a name where an operand may stand;
* `statement_name`: a name at the start of a statement.
-/

namespace NotebookCell.Script

open NotebookCell.Tree

/-! ## Words -/

/-- The words that mean something else than a variable somewhere. -/
def keywords : List String :=
  reservedWords ++ ["", "async", "await", "let", "undefined", "using", "yield"]

/-- Whether a word can only be the name of a variable. -/
def isName (word : List Char) : Bool :=
  word.head?.any (!·.isDigit) && word.all isNamePart && !keywords.contains (String.ofList word)

section
variable {word : List Char}

/-- A name is no keyword. -/
theorem ne_of_isName (h : isName word = true) {keyword : String} (hkeyword : keyword ∈ keywords) :
    String.ofList word ≠ keyword := by
  rw [isName, Bool.and_eq_true, Bool.not_eq_true'] at h
  intro heq
  rw [heq, List.contains_iff_mem.mpr hkeyword] at h
  exact Bool.noConfusion h.2

/-- A name starts with a letter of names that is no digit. -/
theorem cons_of_isName (h : isName word = true) :
    ∃ first rest, word = first :: rest ∧ first.isDigit = false ∧ isNamePart first = true := by
  rw [isName, Bool.and_eq_true, Bool.and_eq_true] at h
  cases word with
  | nil => exact Bool.noConfusion h.1.1
  | cons first rest =>
    refine ⟨first, rest, rfl, ?_, List.all_eq_true.mp h.1.2 first List.mem_cons_self⟩
    have hdigit : (!first.isDigit) = true := h.1.1
    rw [Bool.not_eq_true'] at hdigit
    exact hdigit

theorem ne_of_namePart {c d : Char} (hc : isNamePart c = true) (hd : isNamePart d = false) :
    c ≠ d := by
  rintro rfl
  rw [hc] at hd
  cases hd

/-- There is no null character in a name. -/
theorem nul_notMem_of_isName (h : isName word = true) : '\x00' ∉ word := by
  rw [isName, Bool.and_eq_true, Bool.and_eq_true] at h
  intro hmem
  have hpart := List.all_eq_true.mp h.1.2 _ hmem
  revert hpart
  decide

/-- A character that ends a word. -/
def endsWord (c : Char) : Bool :=
  !isNamePart c && c != '\\'

/-- The characters of a name up to what ends it. -/
theorem nameLength_append {stop : Char} (hstop : endsWord stop = true) {word : List Char}
    (hword : ∀ c ∈ word, isNamePart c = true) (tail bound : List Char)
    (hbound : word.length < bound.length) :
    nameLength isNamePart bound (word ++ stop :: tail) = word.length := by
  rw [endsWord, Bool.and_eq_true, Bool.not_eq_true', bne_iff_ne] at hstop
  induction word generalizing bound with
  | nil =>
    have hescape : escapeLength (stop :: tail) = 0 := by
      rw [escapeLength.eq_def]
      split
      · next h => exact absurd (List.cons.inj h).1 hstop.2
      · next h => exact absurd (List.cons.inj h).1 hstop.2
      · rfl
    match bound with
    | [] => cases hbound
    | d :: bound =>
      rw [List.nil_append, nameLength, if_neg (by rw [hstop.1]; exact Bool.false_ne_true), hescape]
      rfl
  | cons c word ih =>
    match bound with
    | [] => cases hbound
    | d :: bound =>
      rw [List.cons_append, nameLength, if_pos (hword c List.mem_cons_self),
        ih (fun c hc => hword c (List.mem_cons_of_mem _ hc)) bound (Nat.lt_of_succ_lt_succ hbound),
        List.length_cons, Nat.add_comm]

/-- A name is a word up to what ends it. -/
theorem wordLength_append (h : isName word = true) {stop : Char} (hstop : endsWord stop = true)
    (tail : List Char) : wordLength (word ++ stop :: tail) = word.length := by
  obtain ⟨first, rest, rfl, hdigit, -⟩ := cons_of_isName h
  rw [isName, Bool.and_eq_true, Bool.and_eq_true] at h
  rw [List.cons_append, wordLength, if_neg (by rw [hdigit]; exact Bool.false_ne_true),
    ← List.cons_append]
  apply nameLength_append hstop (List.all_eq_true.mp h.1.2)
  rw [List.length_append, List.length_cons, List.length_cons]
  omega

/-- The word at a name is the name. -/
theorem Cursor.word_append (h : isName word = true) {stop : Char} (hstop : endsWord stop = true)
    (tail : List Char) (pos : Nat) :
    (⟨word ++ stop :: tail, pos⟩ : Cursor).word = String.ofList word := by
  rw [Cursor.word, wordLength_append h hstop, List.take_left]

end

namespace Parser

theorem position_bind {α : Type} (f : Nat → Parser α) (c : Cursor) :
    (position >>= f) c = f c.pos c := rfl

/-! ## Between tokens -/

section
variable {first : Char} {tail : List Char} {pos : Nat}

theorem startsWith_of_ne {text : String} {mark : Char} {marks : List Char}
    (htext : text.toList = mark :: marks) (hne : first ≠ mark) :
    (⟨first :: tail, pos⟩ : Cursor).startsWith text = false := by
  rw [Cursor.startsWith, htext, List.isPrefixOf, beq_eq_false_iff_ne.mpr hne.symm, Bool.false_and]

/-- A comment starts with a slash. -/
theorem comment?_token (hslash : first ≠ '/') : (⟨first :: tail, pos⟩ : Cursor).comment? = none := by
  rw [Cursor.comment?]
  split
  · next h => exact absurd (List.cons.inj h).1 hslash
  · next h => exact absurd (List.cons.inj h).1 hslash
  · rfl

/-- Nothing is skipped in front of another character. -/
theorem skipWhile_of_not {p : Char → Bool} (h : p first = false) :
    (⟨first :: tail, pos⟩ : Cursor).skipWhile p = ⟨first :: tail, pos⟩ := by
  rw [Cursor.skipWhile, List.dropWhile_cons, List.takeWhile_cons, h]
  rfl

/-- There is nothing to skip in front of a token. -/
theorem plainTrivia_token (hblank : isBlank first = false) (hslash : first ≠ '/') :
    plainTrivia ⟨first :: tail, pos⟩ = some ([], ⟨first :: tail, pos⟩) := by
  refine collect_of_none ?_ _
  rw [comment, get_bind, skipWhile_of_not hblank]
  dsimp only
  rw [comment?_token hslash]
  rfl

theorem isBlank_of_isSpacing {c : Char} (h : isSpacing c = true) : isBlank c = true := by
  simp only [isSpacing, isBlank, Bool.or_eq_true, Bool.and_eq_true] at h ⊢
  tauto

/-- There is nothing to skip in front of a token that could not open a markup comment either. -/
theorem trivia_token (hblank : isBlank first = false) (hslash : first ≠ '/') (hopen : first ≠ '<')
    (hclose : first ≠ '-') :
    trivia ⟨first :: tail, pos⟩ = some ([], ⟨first :: tail, pos⟩) := by
  have hspacing : isSpacing first = false := by
    rw [← Bool.not_eq_true]
    intro h
    rw [isBlank_of_isSpacing h] at hblank
    cases hblank
  have hmarkup : (⟨first :: tail, pos⟩ : Cursor).markupComment? = none := by
    rw [Cursor.markupComment?, skipWhile_of_not hspacing, startsWith_of_ne rfl hopen,
      startsWith_of_ne rfl hclose]
    rfl
  refine collect_of_none ?_ _
  rw [comment, get_bind, skipWhile_of_not hblank, hmarkup]
  dsimp only
  rw [comment?_token hslash]
  rfl

end

/-! ## Names -/

section
variable {word : List Char} (hname : isName word = true) {stop : Char}
  (hstop : endsWord stop = true) (tail : List Char) (pos : Nat)

include hname hstop

/-- A name as a word. -/
theorem word_name (kind : Kind) :
    Parser.word kind ⟨word ++ stop :: tail, pos⟩ =
      some ({ kind, start := pos, stop := pos + byteLength word },
        ⟨stop :: tail, pos + byteLength word⟩) := by
  have hlength : (word.length != 0) = true := by
    obtain ⟨first, rest, rfl, -, -⟩ := cons_of_isName hname
    rfl
  rw [Parser.word, get_bind]
  dsimp only
  rw [wordLength_append hname hstop, hlength, Cursor.skip_append]
  rfl

/-- A name where a name is due. -/
theorem name_name (kind : Kind) :
    Parser.name kind ⟨word ++ stop :: tail, pos⟩ =
      some ({ kind, start := pos, stop := pos + byteLength word },
        ⟨stop :: tail, pos + byteLength word⟩) := by
  have hfree : reservedWords.contains (String.ofList word) = false := by
    rw [← Bool.not_eq_true, List.contains_iff_mem]
    exact fun h => ne_of_isName hname (List.mem_append_left _ h) rfl
  rw [Parser.name, get_bind, Cursor.word_append hname hstop, hfree]
  exact word_name hname hstop tail pos kind

/-- A name that no arrow follows. -/
theorem identifier_name (sub : Parsers) {asi : Bool}
    (harrow : arrowBehind asi ⟨stop :: tail, pos + byteLength word⟩ =
      some (none, ⟨stop :: tail, pos + byteLength word⟩)) :
    identifier sub asi ⟨word ++ stop :: tail, pos⟩ =
      some ({ kind := .identifier, start := pos, stop := pos + byteLength word },
        ⟨stop :: tail, pos + byteLength word⟩) := by
  rw [identifier, bind_of_eq (name_name hname hstop tail pos .identifier), bind_of_eq harrow]
  rfl

/-- A name is the operand of no keyword. -/
theorem wordOperand_name (sub : Parsers) (asi constructing : Bool) :
    wordOperand sub asi constructing ⟨word ++ stop :: tail, pos⟩ =
      identifier sub asi ⟨word ++ stop :: tail, pos⟩ := by
  have hne := fun keyword h => @ne_of_isName word hname keyword h
  rw [wordOperand, position_bind, get_bind, Cursor.word_append hname hstop]
  refine congrFun ?_ _
  split
  case h_14 => rfl
  all_goals next h => exact absurd h (hne _ (by decide))

omit hstop in
/-- A name as the first part of an operand. -/
theorem primary_name (sub : Parsers) (asi constructing : Bool) :
    primary sub asi constructing ⟨word ++ stop :: tail, pos⟩ =
      wordOperand sub asi constructing ⟨word ++ stop :: tail, pos⟩ := by
  obtain ⟨first, rest, rfl, hdigit, hpart⟩ := cons_of_isName hname
  have hdot : first ≠ '.' := ne_of_namePart hpart (by decide)
  rw [primary, get_bind]
  refine congrFun ?_ _
  rw [List.cons_append]
  split
  case h_9 =>
    next h =>
    rw [← (List.cons.inj h).1, hdigit, Bool.false_or, if_neg (by rw [beq_iff_eq]; exact hdot)]
  case h_10 => next h => cases h
  all_goals next h => exact absurd (List.cons.inj h).1 (ne_of_namePart hpart (by decide))

/-- A name where an operand may stand. -/
theorem fronted_name (sub : Parsers) {asi : Bool}
    (harrow : arrowBehind asi ⟨stop :: tail, pos + byteLength word⟩ =
      some (none, ⟨stop :: tail, pos + byteLength word⟩)) :
    fronted sub asi ⟨word ++ stop :: tail, pos⟩ =
      some ({ kind := .identifier, start := pos, stop := pos + byteLength word },
        ⟨stop :: tail, pos + byteLength word⟩) := by
  have hne := fun keyword h => @ne_of_isName word hname keyword h
  have hprimary : fronted sub asi ⟨word ++ stop :: tail, pos⟩ =
      primary sub asi false ⟨word ++ stop :: tail, pos⟩ := by
    have hword := Cursor.word_append hname hstop tail pos
    rw [fronted, get_bind, hword]
    obtain ⟨first, rest, rfl, -, hpart⟩ := cons_of_isName hname
    refine congrFun ?_ _
    rw [List.cons_append]
    split
    case h_9 =>
      split
      case h_7 => rfl
      all_goals next h => exact absurd h (hne _ (by decide))
    all_goals next h => exact absurd (List.cons.inj h).1 (ne_of_namePart hpart (by decide))
  rw [hprimary, primary_name hname, wordOperand_name hname hstop,
    identifier_name hname hstop tail pos sub harrow]

/-- A name that no colon follows. -/
theorem seesColon_name (hblank : isBlank stop = false) (hslash : stop ≠ '/') (hcolon : stop ≠ ':') :
    seesColon ⟨word ++ stop :: tail, pos⟩ = some (false, ⟨word ++ stop :: tail, pos⟩) := by
  have htest : (do
      let _ ← Parser.word .statementIdentifier
      let _ ← plainTrivia
      literal ":" : Parser Unit) ⟨word ++ stop :: tail, pos⟩ = none := by
    rw [bind_of_eq (word_name hname hstop tail pos .statementIdentifier),
      bind_of_eq (plainTrivia_token hblank hslash), literal, get_bind, startsWith_of_ne rfl hcolon]
    rfl
  rw [seesColon, get_bind]
  show (optional _ >>= _ : Parser Bool) _ = _
  rw [bind_of_eq (show optional _ _ = some (none, ⟨word ++ stop :: tail, pos⟩) by
    rw [optional, htest])]
  rfl

/-- No definition starts with a name. -/
theorem seesDefinition_name :
    seesDefinition ⟨word ++ stop :: tail, pos⟩ = some (false, ⟨word ++ stop :: tail, pos⟩) := by
  have hsees : ∀ keyword ∈ keywords,
      (⟨word ++ stop :: tail, pos⟩ : Cursor).seesWord keyword = false := by
    intro keyword hkeyword
    rw [Cursor.seesWord, Cursor.word_append hname hstop, beq_eq_false_iff_ne]
    exact ne_of_isName hname hkeyword
  have hmark : (⟨word ++ stop :: tail, pos⟩ : Cursor).startsWith "@" = false := by
    obtain ⟨first, rest, rfl, -, hpart⟩ := cons_of_isName hname
    exact startsWith_of_ne rfl (ne_of_namePart hpart (by decide))
  rw [seesDefinition, get_bind, hsees "function" (by decide), hsees "class" (by decide), hmark,
    hsees "async" (by decide)]
  rfl

/-- A name starts the statement of no keyword. -/
theorem wordStatement_name (sub : Parsers) :
    wordStatement sub ⟨word ++ stop :: tail, pos⟩ =
      expressionStatement sub ⟨word ++ stop :: tail, pos⟩ := by
  have hne := fun keyword h => @ne_of_isName word hname keyword h
  have hword : wordStatement sub ⟨word ++ stop :: tail, pos⟩ =
      (do if ← seesDefinition then definitionOr sub (expressionRest sub)
          else expressionStatement sub : Parser Node) ⟨word ++ stop :: tail, pos⟩ := by
    rw [wordStatement, get_bind, Cursor.word_append hname hstop]
    refine congrFun ?_ _
    split
    case h_20 => rfl
    all_goals next h => exact absurd h (hne _ (by decide))
  rw [hword, bind_of_eq (seesDefinition_name hname hstop tail pos)]
  rfl

/-- A name at the start of a statement begins an expression. -/
theorem statement_name (sub : Parsers) (hblank : isBlank stop = false) (hslash : stop ≠ '/')
    (hcolon : stop ≠ ':') :
    statement sub ⟨word ++ stop :: tail, pos⟩ =
      expressionStatement sub ⟨word ++ stop :: tail, pos⟩ := by
  have hempty : (⟨word ++ stop :: tail, pos⟩ : Cursor).seesWord "" = false := by
    rw [Cursor.seesWord, Cursor.word_append hname hstop, beq_eq_false_iff_ne]
    exact ne_of_isName hname (by decide)
  have hwords : statement sub ⟨word ++ stop :: tail, pos⟩ = (do
      if isLabel (String.ofList word) && (← seesColon) then labeledStatement sub
      else if false then expressionStatement sub
      else wordStatement sub : Parser Node) ⟨word ++ stop :: tail, pos⟩ := by
    rw [statement, get_bind, Cursor.word_append hname hstop, hempty]
    refine congrFun ?_ _
    obtain ⟨first, rest, rfl, -, hpart⟩ := cons_of_isName hname
    rw [List.cons_append]
    split
    case h_4 => rfl
    all_goals next h => exact absurd (List.cons.inj h).1 (ne_of_namePart hpart (by decide))
  rw [hwords, bind_of_eq (seesColon_name hname hstop tail pos hblank hslash hcolon), Bool.and_false]
  exact wordStatement_name hname hstop tail pos sub

end

end Parser

end NotebookCell.Script
