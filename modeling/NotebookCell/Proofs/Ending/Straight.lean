import NotebookCell.Proofs.Reading.Gap
import NotebookCell.Script.Grammar.Expression

/-!
# Texts that are read straight on

At a few places the grammar tries one reading after the other, and what decides between them may be
far behind the place: the words of asynchronous functions and of classes, a brace that could open
a block, a pattern with a default. A text without such places is straight (`isStraight`), and so is
every end of it.

What stands behind a straight text does not change the lengths of the tokens in it, as long as it
begins with a line break or a closing mark (`isStop`).
-/

namespace NotebookCell.Script

open NotebookCell.Tree NotebookCell.Script.Parser

/-! ## Places where readings part -/

/-- A text from its next token on, where `gap` reads what is in front of the token. -/
def tokenBehind (gap : Parser (List Node)) (text : List Char) : List Char :=
  ((gap (.ofText text)).map (·.2.rest)).getD []

/-- Whether the cursor is at the assignment operator of a single character. -/
def assigns (c : Cursor) : Bool :=
  c.startsWith "=" && !c.startsWith "==" && !c.startsWith "=>"

/-- The words at which a function or a class may begin that is not read straight on. -/
def forkWords : List String := ["async", "await", "class", "static"]

/-- Whether readings may part at the start of the text: at a word, at a brace that could open
a block, at a bracket that a default could follow, and at an escape that is not closed. -/
def forks (text : List Char) : Bool :=
  match text with
  | ')' :: rest => (tokenBehind trivia rest).head? == some '\x7b'
  | '=' :: '>' :: rest => (tokenBehind trivia rest).head? == some '\x7b'
  | ']' :: rest => assigns (.ofText (tokenBehind plainTrivia rest))
  | '\\' :: 'u' :: '\x7b' :: _ => escapeLength text == 0
  | _ => forkWords.contains (Cursor.ofText text).word

/-- Whether readings part nowhere in the text. -/
def isStraight : List Char → Bool
  | [] => true
  | c :: rest => !forks (c :: rest) && isStraight rest

/-- The end of a straight text is straight. -/
theorem isStraight_suffix {text rest : List Char} (h : isStraight text = true) (hrest : rest <:+ text) :
    isStraight rest = true := by
  obtain ⟨before, rfl⟩ := hrest
  induction before with
  | nil => exact h
  | cons c before ih =>
    rw [List.cons_append, isStraight, Bool.and_eq_true] at h
    exact ih h.2

/-- At no place of a straight text are there two readings. -/
theorem forks_eq_false {text rest : List Char} (h : isStraight text = true) (hrest : rest <:+ text) :
    forks rest = false := by
  cases rest with
  | nil => rfl
  | cons c rest =>
    have hstraight := isStraight_suffix h hrest
    rw [isStraight, Bool.and_eq_true, Bool.not_eq_true'] at hstraight
    exact hstraight.1

/-! ## In front of a stop -/

/-- A line break or a closing mark: what may stand right behind a text. -/
def isStop (c : Char) : Bool :=
  c == '\n' || c == ')' || c == '\x7d'

/-- The stops are a line break, a parenthesis and a brace. -/
theorem eq_of_isStop {c : Char} (h : isStop c = true) : c = '\n' ∨ c = ')' ∨ c = '\x7d' := by
  simpa [isStop, or_assoc] using h

/-- Whether the text is an escape with braces of which only the closing one is missing. -/
def isOpenEscape : List Char → Bool
  | '\\' :: 'u' :: '\x7b' :: digits => !digits.isEmpty && digits.all isHexDigit
  | _ => false

/-- No escape is left open at the end of the text. -/
def EndsEscapes (text : List Char) : Prop := ∀ rest, rest <:+ text → isOpenEscape rest = false

/-- The end of a text has the escapes of the text. -/
theorem EndsEscapes.suffix {text rest : List Char} (h : EndsEscapes text) (hrest : rest <:+ text) :
    EndsEscapes rest :=
  fun _ hend => h _ (hend.trans hrest)

section
variable {left tail : List Char} {stop : Char}

/-- A stop adds nothing to what is asked of the first character. -/
theorem head?_any_append {p : Char → Bool} (hp : p stop = false) :
    (left ++ stop :: tail).head?.any p = left.head?.any p := by
  cases left with
  | nil => exact hp
  | cons c left => rfl

theorem head?_beq_append {c : Char} (hc : stop ≠ c) :
    ((left ++ stop :: tail).head? == some c) = (left.head? == some c) := by
  cases left with
  | nil => simpa using hc
  | cons d left => rfl

end

/-- Only a backslash and `u` begin an escape in a name. -/
theorem escapeLength_eq_zero {text : List Char} (h : ∀ rest, text ≠ '\\' :: 'u' :: rest) :
    escapeLength text = 0 := by
  by_contra hne
  obtain ⟨-, rest, hrest⟩ := exists_of_escapeLength hne
  exact h rest hrest

theorem digitsLength_le (digit : Char → Bool) (text : List Char) :
    digitsLength digit text ≤ text.length := by
  induction text with
  | nil => exact le_rfl
  | cons c text ih =>
    rw [digitsLength, List.length_cons]
    split
    · omega
    · split <;> omega

theorem digitRun_le (digit : Char → Bool) (text : List Char) :
    digitRun digit text ≤ text.length := by
  rw [digitRun]
  split
  · exact digitsLength_le digit text
  · exact Nat.zero_le _

theorem integerPartLength_le (text : List Char) : integerPartLength text ≤ text.length := by
  rw [integerPartLength]
  cases text with
  | nil => exact le_rfl
  | cons c text =>
    generalize hlead : (if (c :: text).head? == some '0' && ((c :: text).drop 1).head?.any
      (fun d => d.isDigit && d != '0') then 1 else 0) = lead
    have hle : lead ≤ 1 := by
      rw [← hlead]
      split <;> omega
    have hdigits := digitsLength_le Char.isDigit ((c :: text).drop lead)
    rw [List.length_drop, List.length_cons] at hdigits
    rw [List.length_cons]
    split
    · omega
    · split <;> omega

section
variable {left tail : List Char} {stop : Char} (hstop : isStop stop = true)

include hstop

/-- A class of characters without stops. -/
theorem not_of_isStop {p : Char → Bool} (hbreak : p '\n' = false) (hclose : p ')' = false)
    (hbrace : p '\x7d' = false) : p stop = false := by
  rcases eq_of_isStop hstop with rfl | rfl | rfl
  · exact hbreak
  · exact hclose
  · exact hbrace

/-- A stop is no other character. -/
theorem ne_of_isStop {c : Char} (hc : isStop c = false) : stop ≠ c := by
  rintro rfl
  rw [hstop] at hc
  cases hc

/-- An escape that is not left open ends in front of a stop. -/
theorem escapeLength_append_stop (hopen : isOpenEscape left = false) :
    escapeLength (left ++ stop :: tail) = escapeLength left := by
  have hhex : isHexDigit stop = false := not_of_isStop hstop (by decide) (by decide) (by decide)
  by_cases hescape : ∃ rest, left = '\\' :: 'u' :: rest
  · obtain ⟨rest, rfl⟩ := hescape
    by_cases hbrace : rest.head? = some '\x7b'
    · obtain ⟨digits, rfl⟩ := List.head?_eq_some_iff.mp hbrace
      have hrun := @takeWhile_append_stop isHexDigit stop hhex digits tail
      simp only [List.cons_append, escapeLength, hrun]
      have hle := (List.takeWhile_prefix (l := digits) isHexDigit).length_le
      rw [List.drop_append_of_le_length hle]
      by_cases hall : digits.drop (digits.takeWhile isHexDigit).length = []
      · -- all of the text behind the brace are digits, and there are none
        have hlength := List.length_drop (i := (digits.takeWhile isHexDigit).length) (l := digits)
        rw [hall, List.length_nil] at hlength
        have hwhole := (List.takeWhile_prefix (l := digits) isHexDigit).eq_of_length (by omega)
        have hdigits : digits.all isHexDigit = true := by
          rw [List.all_eq_true]
          intro c hc
          rw [← hwhole] at hc
          exact List.mem_takeWhile_imp hc
        have hnil : digits = [] := by simpa [isOpenEscape, hdigits] using hopen
        subst hnil
        rfl
      · rw [List.head?_append_of_ne_nil _ hall]
    · have hhead (more : List Char) (hmore : more.head? ≠ some '\x7b') :
          (rest ++ more).head? ≠ some '\x7b' := by
        cases rest with
        | nil => exact hmore
        | cons c rest => exact hbrace
      have hstart : (stop :: tail).head? ≠ some '\x7b' := by
        simpa using ne_of_isStop hstop (by decide)
      rw [List.cons_append, List.cons_append, escapeLength_digits (hhead _ hstart),
        escapeLength_digits hbrace]
      simp only [List.all_eq_true, all_take_append hhex]
  · rw [not_exists] at hescape
    rw [escapeLength_eq_zero hescape, escapeLength_eq_zero]
    intro rest hrest
    rcases left with _ | ⟨c, _ | ⟨d, left⟩⟩
    · exact ne_of_isStop hstop (by decide) (List.cons.inj hrest).1
    · exact ne_of_isStop hstop (by decide) (List.cons.inj (List.cons.inj hrest).2).1
    · obtain ⟨hc, hd, -⟩ : c = '\\' ∧ d = 'u' ∧ _ := by simpa using hrest
      exact hescape left (by rw [hc, hd])

omit hstop in
theorem nameLength_nil (part : Char → Bool) (bound : List Char) : nameLength part bound [] = 0 := by
  cases bound <;> rfl

/-- A name ends in front of a stop, whatever bounds are set to its length. -/
theorem nameLength_append_stop (hends : EndsEscapes left) {bound bound' : List Char}
    (hbound : left.length ≤ bound.length) (hbound' : left.length ≤ bound'.length) :
    nameLength isNamePart bound (left ++ stop :: tail) = nameLength isNamePart bound' left := by
  have hpart : isNamePart stop = false := not_of_isStop hstop (by decide) (by decide) (by decide)
  obtain ⟨length, hlength⟩ : ∃ length, left.length = length := ⟨_, rfl⟩
  -- an escape takes several characters, so the induction is on the length of the text
  induction length using Nat.strongRecOn generalizing left bound bound' with
  | ind length ih =>
  match left, bound, bound' with
  | [], [], bound' => rw [nameLength_nil]; rfl
  | [], d :: bound, bound' =>
    have hescape : escapeLength ([] ++ stop :: tail) = 0 := escapeLength_append_stop hstop rfl
    rw [List.nil_append] at hescape
    rw [nameLength_nil, List.nil_append, nameLength, hpart, hescape]
    rfl
  | c :: left, [], _ => cases hbound
  | c :: left, _ :: _, [] => cases hbound'
  | c :: left, d :: bound, d' :: bound' =>
    have hescape : escapeLength (c :: left ++ stop :: tail) = escapeLength (c :: left) :=
      escapeLength_append_stop hstop (hends _ List.suffix_rfl)
    rw [List.cons_append] at hescape
    rw [List.cons_append, nameLength, nameLength]
    simp only [List.length_cons] at hbound hbound' hlength
    split
    · have hrest : left.length ≤ bound.length ∧ left.length ≤ bound'.length := by omega
      rw [ih left.length (by omega) (hends.suffix (List.suffix_cons c left)) hrest.1 hrest.2 rfl]
    · dsimp only
      rw [hescape]
      split
      · rfl
      · next hne =>
        have hle := Suffix.escapeLength_le (c :: left)
        have hpos : 0 < escapeLength (c :: left) := by
          rw [Nat.pos_iff_ne_zero]
          simpa using hne
        rw [← List.cons_append, List.drop_append_of_le_length hle]
        rw [ih ((c :: left).drop (escapeLength (c :: left))).length ?_
          (hends.suffix (List.drop_suffix _ _)) ?_ ?_ rfl]
        all_goals rw [List.length_drop, List.length_cons]; omega

/-- A word ends in front of a stop. -/
theorem wordLength_append_stop (hends : EndsEscapes left) :
    wordLength (left ++ stop :: tail) = wordLength left := by
  cases left with
  | nil =>
    have hdigit : stop.isDigit = false := not_of_isStop hstop (by decide) (by decide) (by decide)
    show (if stop.isDigit then 0 else nameLength isNamePart (stop :: tail) (stop :: tail)) = 0
    rw [hdigit]
    exact (nameLength_append_stop hstop hends (Nat.zero_le _) le_rfl).trans (nameLength_nil _ [])
  | cons c left =>
    rw [List.cons_append, wordLength, wordLength, ← List.cons_append]
    split
    · rfl
    · refine nameLength_append_stop hstop hends ?_ le_rfl
      rw [List.length_append]
      omega

/-! ### Numbers -/

/-- Digits end in front of a stop, separators between them included. -/
theorem digitsLength_append_stop {digit : Char → Bool} (hdigit : digit stop = false) :
    digitsLength digit (left ++ stop :: tail) = digitsLength digit left := by
  have hunderscore : (stop == '_') = false := beq_false_of_ne (ne_of_isStop hstop (by decide))
  induction left with
  | nil =>
    show (if digit stop then _ else if stop == '_' && tail.head?.any digit then _ else 0) = 0
    rw [hdigit, hunderscore]
    rfl
  | cons c left ih =>
    rw [List.cons_append, digitsLength, digitsLength, ih, head?_any_append hdigit]

theorem digitRun_append_stop {digit : Char → Bool} (hdigit : digit stop = false) :
    digitRun digit (left ++ stop :: tail) = digitRun digit left := by
  rw [digitRun, digitRun, head?_any_append hdigit, digitsLength_append_stop hstop hdigit]

/-- An exponent needs a digit, which a stop is not. -/
theorem exponentLength_append_stop :
    exponentLength (left ++ stop :: tail) = exponentLength left := by
  have hdigit : Char.isDigit stop = false := not_of_isStop hstop (by decide) (by decide) (by decide)
  cases left with
  | nil =>
    have hmark : (stop == 'e' || stop == 'E') = false := by
      rcases eq_of_isStop hstop with rfl | rfl | rfl <;> rfl
    rw [List.nil_append, exponentLength, hmark]
    rfl
  | cons c left =>
    rw [List.cons_append, exponentLength, exponentLength,
      head?_beq_append (ne_of_isStop hstop (by decide)),
      head?_beq_append (ne_of_isStop hstop (by decide))]
    dsimp only
    have hdrop : (left ++ stop :: tail).drop
        (if left.head? == some '+' || left.head? == some '-' then 1 else 0) =
        left.drop (if left.head? == some '+' || left.head? == some '-' then 1 else 0) ++
          stop :: tail := by
      cases left with
      | nil => rfl
      | cons d left => split <;> rfl
    rw [hdrop, digitRun_append_stop hstop hdigit]

/-- The part of a number in front of its point. -/
theorem integerPartLength_append_stop :
    integerPartLength (left ++ stop :: tail) = integerPartLength left := by
  have hdigit : Char.isDigit stop = false := not_of_isStop hstop (by decide) (by decide) (by decide)
  have hnonzero : (stop.isDigit && stop != '0') = false := by rw [hdigit]; rfl
  have hzero : stop ≠ '0' := ne_of_isStop hstop (by decide)
  cases left with
  | nil =>
    have hhead : ((stop :: tail).head? == some '0') = false := by simpa using hzero
    rw [List.nil_append, integerPartLength, hhead]
    simp [hdigit, integerPartLength]
  | cons c left =>
    have hsecond : ((c :: left ++ stop :: tail).drop 1).head?.any (fun d => d.isDigit && d != '0') =
        ((c :: left).drop 1).head?.any fun d => d.isDigit && d != '0' :=
      head?_any_append (p := fun d => d.isDigit && d != '0') hnonzero
    have hdrop (lead : Nat) (hlead : lead ≤ 1) :
        (c :: left ++ stop :: tail).drop lead = (c :: left).drop lead ++ stop :: tail :=
      List.drop_append_of_le_length (by rw [List.length_cons]; omega)
    rw [integerPartLength, integerPartLength, hsecond, head?_beq_append hzero]
    generalize hlead : (if (c :: left).head? == some '0' && ((c :: left).drop 1).head?.any
      (fun d => d.isDigit && d != '0') then 1 else 0) = lead
    have hle : lead ≤ 1 := by
      rw [← hlead]
      split <;> omega
    rw [hdrop lead hle, head?_any_append (p := fun d => d.isDigit && d != '0') hnonzero,
      digitsLength_append_stop hstop hdigit]

/-- A number with a mark for its base. No stop is such a mark. -/
theorem basedLength_append_stop {mark : Char} {digit : Char → Bool}
    (hmark : (stop.toLower == mark) = false) (hdigit : digit stop = false) :
    basedLength mark digit (left ++ stop :: tail) = basedLength mark digit left := by
  have hzero : stop ≠ '0' := ne_of_isStop hstop (by decide)
  match left with
  | [] =>
    rw [List.nil_append, basedLength.eq_def]
    split
    · next h => exact absurd (List.cons.inj h).1 hzero
    · rfl
  | [c] =>
    rw [List.cons_append, List.nil_append, basedLength.eq_def]
    split
    · next h =>
      obtain ⟨-, rfl, -⟩ : c = '0' ∧ stop = _ ∧ _ := by simpa using h
      rw [hmark]
      simp [basedLength]
    · simp [basedLength]
  | c :: d :: left =>
    by_cases hc : c = '0'
    · subst hc
      have hle := digitRun_le digit left
      rw [List.cons_append, List.cons_append, basedLength, basedLength,
        digitRun_append_stop hstop hdigit]
      dsimp only
      rw [List.drop_append_of_le_length hle, head?_beq_append (ne_of_isStop hstop (by decide))]
    · have hne (rest : List Char) : basedLength mark digit (c :: rest) = 0 := by
        rw [basedLength.eq_def]
        split
        · next h => exact absurd (List.cons.inj h).1 hc
        · rfl
      rw [List.cons_append, hne, hne]

theorem fractionLength_append_stop : fractionLength (left ++ stop :: tail) = fractionLength left := by
  have hdigit : Char.isDigit stop = false := not_of_isStop hstop (by decide) (by decide) (by decide)
  have hwhole := integerPartLength_le left
  rw [fractionLength, fractionLength, integerPartLength_append_stop hstop]
  dsimp only
  rw [List.drop_append_of_le_length hwhole]
  generalize left.drop (integerPartLength left) = rest
  rw [head?_beq_append (ne_of_isStop hstop (by decide)), exponentLength_append_stop hstop]
  cases rest with
  | nil => rfl
  | cons c rest =>
    have hle := digitRun_le Char.isDigit rest
    simp only [List.cons_append, List.drop_succ_cons, List.drop_zero, Nat.add_comm 1]
    rw [digitRun_append_stop hstop hdigit, List.drop_append_of_le_length hle,
      exponentLength_append_stop hstop]

/-- A decimal number with fraction and exponent. -/
theorem plainLength_append_stop : plainLength (left ++ stop :: tail) = plainLength left := by
  have hdigit : Char.isDigit stop = false := not_of_isStop hstop (by decide) (by decide) (by decide)
  have hle := digitRun_le Char.isDigit left
  rw [plainLength, plainLength, digitRun_append_stop hstop hdigit,
    List.drop_append_of_le_length hle, head?_beq_append (ne_of_isStop hstop (by decide))]

/-- A number ends in front of a stop. -/
theorem numberLength_append_stop : numberLength (left ++ stop :: tail) = numberLength left := by
  have hbased (mark : Char) (hmark : mark ∈ ['x', 'b', 'o']) : (stop.toLower == mark) = false := by
    simp only [List.mem_cons, List.not_mem_nil, or_false] at hmark
    rcases eq_of_isStop hstop with rfl | rfl | rfl <;> rcases hmark with rfl | rfl | rfl <;> rfl
  rw [numberLength, numberLength,
    basedLength_append_stop hstop (hbased 'x' (by decide))
      (not_of_isStop hstop (by decide) (by decide) (by decide)),
    basedLength_append_stop hstop (hbased 'b' (by decide))
      (not_of_isStop hstop (by decide) (by decide) (by decide)),
    basedLength_append_stop hstop (hbased 'o' (by decide))
      (not_of_isStop hstop (by decide) (by decide) (by decide)),
    fractionLength_append_stop hstop, plainLength_append_stop hstop]

/-! ### Marks -/

/-- Marks without a stop among them are seen in front of it or not at all. -/
theorem isPrefixOf_append_stop {marks : List Char} (hmarks : marks.all (!isStop ·) = true) :
    marks.isPrefixOf (left ++ stop :: tail) = marks.isPrefixOf left := by
  induction marks generalizing left with
  | nil => rfl
  | cons mark marks ih =>
    rw [List.all_cons, Bool.and_eq_true, Bool.not_eq_true'] at hmarks
    cases left with
    | nil =>
      show (mark == stop && marks.isPrefixOf tail) = false
      rw [beq_false_of_ne (ne_of_isStop hstop hmarks.1).symm, Bool.false_and]
    | cons c left => exact congrArg (mark == c && ·) (ih hmarks.2)

/-- A hyphenated name ends in front of a stop. -/
theorem hyphenatedLength_append_stop :
    hyphenatedLength (left ++ stop :: tail) = hyphenatedLength left := by
  have hstart : isTagStart stop = false := not_of_isStop hstop (by decide) (by decide) (by decide)
  have hpart : (isTagStart stop || stop.isDigit) = false :=
    not_of_isStop (p := fun c => isTagStart c || c.isDigit) hstop (by decide) (by decide) (by decide)
  have hlonger : (isTagStart stop || stop.isDigit || stop == '-') = false :=
    not_of_isStop (p := fun c => isTagStart c || c.isDigit || c == '-') hstop (by decide) (by decide)
      (by decide)
  have hle := (List.takeWhile_prefix (l := left) fun c => isTagStart c || c.isDigit).length_le
  rw [hyphenatedLength, hyphenatedLength, head?_any_append hstart,
    takeWhile_append_stop (p := fun c => isTagStart c || c.isDigit) hpart,
    takeWhile_append_stop (p := fun c => isTagStart c || c.isDigit || c == '-') hlonger,
    List.drop_append_of_le_length hle, head?_beq_append (ne_of_isStop hstop (by decide))]

/-- The length of a character reference whose digits or letters are counted from `before` on. -/
theorem referenceEnd_append_stop {before most : Nat} {p : Char → Bool} (hp : p stop = false)
    (hbefore : before ≤ left.length) :
    (let digits := (((left ++ stop :: tail).drop before).takeWhile p).length
      if 0 < digits && digits ≤ most &&
          ((left ++ stop :: tail).drop (before + digits)).head? == some ';' then
        before + digits + 1
      else 0) =
    (let digits := ((left.drop before).takeWhile p).length
      if 0 < digits && digits ≤ most && (left.drop (before + digits)).head? == some ';' then
        before + digits + 1
      else 0) := by
  have hle : ((left.drop before).takeWhile p).length ≤ left.length - before :=
    List.length_drop (i := before) (l := left) ▸ (List.takeWhile_prefix p).length_le
  dsimp only
  rw [List.drop_append_of_le_length hbefore, takeWhile_append_stop hp,
    List.drop_append_of_le_length (by omega), head?_beq_append (ne_of_isStop hstop (by decide))]

omit hstop in
theorem characterReferenceLength_letters {text : List Char} (h : text.head? ≠ some '#') :
    characterReferenceLength ('&' :: text) =
      (let digits := (text.takeWhile Char.isAlpha).length
        if 0 < digits && digits ≤ 30 && (('&' :: text).drop (1 + digits)).head? == some ';' then
          1 + digits + 1
        else 0) := by
  cases text with
  | nil => rfl
  | cons c text => simp_all [characterReferenceLength]

/-- A character reference needs its semicolon, so none goes on behind a stop. -/
theorem characterReferenceLength_append_stop :
    characterReferenceLength (left ++ stop :: tail) = characterReferenceLength left := by
  have hhex : isHexDigit stop = false := not_of_isStop hstop (by decide) (by decide) (by decide)
  have hdigit : Char.isDigit stop = false := not_of_isStop hstop (by decide) (by decide) (by decide)
  have halpha : Char.isAlpha stop = false := not_of_isStop hstop (by decide) (by decide) (by decide)
  have hother {c : Char} (hc : c ≠ '&') (text : List Char) :
      characterReferenceLength (c :: text) = 0 := by
    simp [characterReferenceLength, hc]
  cases left with
  | nil => exact hother (ne_of_isStop hstop (by decide)) tail
  | cons c left =>
    by_cases hc : c = '&'
    swap
    · rw [List.cons_append, hother hc, hother hc]
    subst hc
    by_cases hhash : left.head? = some '#'
    · obtain ⟨left, rfl⟩ := List.head?_eq_some_iff.mp hhash
      cases left with
      | nil =>
        have hmark : (stop == 'x' || stop == 'X') = false := by
          rcases eq_of_isStop hstop with rfl | rfl | rfl <;> rfl
        show (if stop == 'x' || stop == 'X' then _ else _) = 0
        rw [hmark]
        exact @referenceEnd_append_stop ['&', '#'] tail stop hstop 2 5 _ hdigit le_rfl
      | cons x left =>
        show (if x == 'x' || x == 'X' then _ else _) = if x == 'x' || x == 'X' then _ else _
        split
        · exact @referenceEnd_append_stop ('&' :: '#' :: x :: left) tail stop hstop 3 6 _ hhex (by simp)
        · exact @referenceEnd_append_stop ('&' :: '#' :: x :: left) tail stop hstop 2 5 _ hdigit (by simp)
    · have hhead : (left ++ stop :: tail).head? ≠ some '#' := by
        cases left with
        | nil => simpa using ne_of_isStop hstop (by decide)
        | cons d left => exact hhash
      rw [List.cons_append, characterReferenceLength_letters hhead,
        characterReferenceLength_letters hhash]
      exact @referenceEnd_append_stop ('&' :: left) tail stop hstop 1 30 _ halpha (by simp)

/-- Whether an operand begins is decided in front of a stop, if anything is there. -/
theorem beginsOperand_append_stop (hends : EndsEscapes left) (hleft : left ≠ []) :
    beginsOperand (left ++ stop :: tail) = beginsOperand left := by
  have hdigit : Char.isDigit stop = false := not_of_isStop hstop (by decide) (by decide) (by decide)
  obtain ⟨c, left, rfl⟩ := List.exists_cons_of_ne_nil hleft
  have hword : wordLength (c :: left ++ stop :: tail) = wordLength (c :: left) :=
    wordLength_append_stop hstop hends
  have htake : (c :: left ++ stop :: tail).take (wordLength (c :: left)) =
      (c :: left).take (wordLength (c :: left)) :=
    List.take_append_of_le_length (Suffix.wordLength_le _)
  rw [List.cons_append] at hword htake
  have hhead (d : Char) (hd : isStop d = false) :
      ((left ++ stop :: tail).head? != some d) = (left.head? != some d) :=
    congrArg (!·) (head?_beq_append (ne_of_isStop hstop hd))
  rw [List.cons_append, beginsOperand, beginsOperand, hword, htake, head?_any_append hdigit,
    hhead '=' (by decide), hhead '<' (by decide)]

end

end NotebookCell.Script
