import Mathlib.Data.List.Forall2
import Mathlib.Data.List.TakeWhile
import NotebookCell.Proofs.Tree.Alike
import NotebookCell.Script.Cell

/-!
# Reading template literals

`LiteralText holes text` says how a text stands between backticks: a backslash takes the next
character with it, no backtick stands alone, and each `${` opens the next of the given holes. The
grammar reads such a text as one template with exactly these holes, whatever comes behind the closing
backtick, provided that each hole reads at its place as it does on its own (`ReadsAlike`).

* `stringEscapeLength_local`, `exists_run_of_escape`: an escape never reaches past a special
  character;
* `exists_steps`: the steps over the text of a template give its holes, or fail whatever is around it;
* `Steps.template`: the template that such steps make.
-/

namespace NotebookCell.Script

open NotebookCell.Tree

/-! ## Texts between backticks -/

/-- A character that opens nothing and ends nothing in a template. -/
def isOrdinary (c : Char) : Bool :=
  c != '\x60' && c != '\\' && c != '$'

/-- A text that can stand between backticks, with the given holes. -/
inductive LiteralText : (holes : List (List Char)) → List Char → Prop where
  | nil : LiteralText [] []
  | escape {holes : List (List Char)} {c : Char} {rest : List Char}
      (hrest : LiteralText holes rest) : LiteralText holes ('\\' :: c :: rest)
  | dollar {holes : List (List Char)} {rest : List Char} (hopen : rest.head? ≠ some '\x7b')
      (hrest : LiteralText holes rest) : LiteralText holes ('$' :: rest)
  | ordinary {holes : List (List Char)} {c : Char} {rest : List Char} (hc : isOrdinary c = true)
      (hrest : LiteralText holes rest) : LiteralText holes (c :: rest)
  | hole {holes : List (List Char)} {hole rest : List Char}
      (hrest : LiteralText holes rest) :
      LiteralText (hole :: holes) ('$' :: '\x7b' :: (hole ++ '\x7d' :: rest))

/-- A backslash in quotes, as it is written. -/
def backslashText : List Char := ['\'', '\\', '\\', '\'']

/-- Ordinary characters can be dropped from the front. -/
theorem LiteralText.of_append {holes : List (List Char)} {run rest : List Char}
    (hrun : ∀ c ∈ run, isOrdinary c = true) (h : LiteralText holes (run ++ rest)) :
    LiteralText holes rest := by
  induction run with
  | nil => exact h
  | cons c run ih =>
    have hc := hrun c List.mem_cons_self
    have hdrop : LiteralText holes (run ++ rest) := by
      rw [List.cons_append] at h
      generalize run ++ rest = text at h ⊢
      cases h with
      | escape _ => exact absurd hc (by decide)
      | dollar _ _ => exact absurd hc (by decide)
      | ordinary _ hrest => exact hrest
      | hole _ => exact absurd hc (by decide)
    exact ih (fun d hd => hrun d (List.mem_cons_of_mem _ hd)) hdrop

/-! ## Escapes -/

theorem takeWhile_append_stop {p : Char → Bool} {stop : Char} (hstop : p stop = false)
    (text tail : List Char) :
    (text ++ stop :: tail).takeWhile p = text.takeWhile p := by
  induction text with
  | nil => rw [List.nil_append, List.takeWhile_cons, hstop]; rfl
  | cons c text ih => rw [List.cons_append, List.takeWhile_cons, List.takeWhile_cons, ih]

theorem dropWhile_append_stop {p : Char → Bool} {stop : Char} (hstop : p stop = false)
    (text tail : List Char) :
    (text ++ stop :: tail).dropWhile p = text.dropWhile p ++ stop :: tail := by
  induction text with
  | nil => rw [List.nil_append, List.dropWhile_cons, hstop]; rfl
  | cons c text ih =>
    rw [List.cons_append, List.dropWhile_cons, List.dropWhile_cons, ih]
    split <;> rfl

theorem head?_drop_append {count : Nat} {text : List Char} (hcount : count ≤ text.length)
    (stop : Char) (tail : List Char) :
    ((text ++ stop :: tail).drop count).head? = ((text ++ [stop]).drop count).head? := by
  rw [List.drop_append_of_le_length hcount, List.drop_append_of_le_length hcount]
  cases text.drop count <;> rfl

/-- The first characters are all of a class up to a character that is not. -/
theorem all_take_append {p : Char → Bool} {stop : Char} (hstop : p stop = false) (count : Nat)
    (text tail : List Char) :
    (count ≤ (text ++ stop :: tail).length ∧ ∀ c ∈ (text ++ stop :: tail).take count, p c = true) ↔
      count ≤ text.length ∧ ∀ c ∈ text.take count, p c = true := by
  constructor
  · rintro ⟨-, hall⟩
    have hcount : count ≤ text.length := by
      by_contra hlong
      have hmem : stop ∈ (text ++ stop :: tail).take count := by
        apply List.mem_take_iff_getElem.mpr
        refine ⟨text.length, ?_, ?_⟩
        · simp only [List.length_append, List.length_cons]
          omega
        · simp
      rw [hall stop hmem] at hstop
      cases hstop
    rw [List.take_append_of_le_length hcount] at hall
    exact ⟨hcount, hall⟩
  · rintro ⟨hcount, hall⟩
    rw [List.take_append_of_le_length hcount]
    refine ⟨?_, hall⟩
    rw [List.length_append]
    omega

/-- An escape of four digits. -/
theorem escapeLength_digits {text : List Char} (hbrace : text.head? ≠ some '\x7b') :
    escapeLength ('\\' :: 'u' :: text) =
      if 4 ≤ text.length ∧ (text.take 4).all isHexDigit = true then 6 else 0 := by
  match text with
  | [] | [a] | [a, b] | [a, b, c] => simp_all [escapeLength]
  | a :: b :: c :: d :: rest => simp_all [escapeLength]

theorem escapeLength_local (rest tail : List Char) :
    escapeLength ('\\' :: 'u' :: (rest ++ '\x60' :: tail)) =
      escapeLength ('\\' :: 'u' :: (rest ++ ['\x60'])) := by
  by_cases hbrace : rest.head? = some '\x7b'
  · obtain ⟨text, rfl⟩ : ∃ text, rest = '\x7b' :: text := by
      cases rest with
      | nil => cases hbrace
      | cons c text => exact ⟨text, by rw [Option.some.inj hbrace]⟩
    have hdigits := fun tail => @takeWhile_append_stop isHexDigit '\x60' (by decide) text tail
    rw [List.cons_append, List.cons_append, escapeLength, escapeLength, hdigits, hdigits,
      head?_drop_append (List.takeWhile_prefix _).length_le]
  · have hhead : ∀ tail, (rest ++ '\x60' :: tail).head? ≠ some '\x7b' := by
      intro tail
      cases rest with
      | nil => simp
      | cons c text => exact hbrace
    rw [escapeLength_digits (hhead tail), escapeLength_digits (hhead [])]
    simp only [List.all_eq_true, all_take_append (show isHexDigit '\x60' = false by decide)]

/-- An escape that is neither of two digits nor of a code point. -/
theorem stringEscapeLength_other {c : Char} (hx : c ≠ 'x') (hu : c ≠ 'u') (text : List Char) :
    stringEscapeLength ('\\' :: c :: text) =
      if isOctalDigit c then 1 + min 3 ((c :: text).takeWhile isOctalDigit).length
      else if (c == '\r' || c == '?') && text.head?.any isLineBreak then 3 else 2 := by
  rw [stringEscapeLength.eq_def]
  split <;> simp_all

/-- How long an escape is does not depend on what stands behind a backtick. -/
theorem stringEscapeLength_local (c : Char) (rest tail : List Char) :
    stringEscapeLength ('\\' :: c :: (rest ++ '\x60' :: tail)) =
      stringEscapeLength ('\\' :: c :: (rest ++ ['\x60'])) := by
  by_cases hx : c = 'x'
  · subst hx
    have htick : isHexDigit '\x60' = false := by decide
    match rest with
    | [] => cases tail <;> simp [stringEscapeLength, htick]
    | [a] => simp [stringEscapeLength, htick]
    | a :: b :: rest => rfl
  by_cases hu : c = 'u'
  · subst hu
    exact escapeLength_local rest tail
  have hhead : (rest ++ '\x60' :: tail).head? = (rest ++ ['\x60']).head? := by
    cases rest <;> rfl
  have hdigits := fun tail =>
    @takeWhile_append_stop isOctalDigit '\x60' (by decide) (c :: rest) tail
  rw [stringEscapeLength_other hx hu, stringEscapeLength_other hx hu, ← List.cons_append,
    ← List.cons_append, hdigits, hdigits, hhead]

/-- The characters of a class without special ones are ordinary. -/
theorem isOrdinary_of_class {p : Char → Bool} (htick : p '\x60' = false) (hslash : p '\\' = false)
    (hdollar : p '$' = false) {c : Char} (hc : p c = true) : isOrdinary c = true := by
  have hne : ∀ d, p d = false → c ≠ d := by
    rintro d hd rfl
    rw [hc] at hd
    cases hd
  simp [isOrdinary, hne _ htick, hne _ hslash, hne _ hdollar]

theorem isOrdinary_of_hex {c : Char} (h : isHexDigit c = true) : isOrdinary c = true :=
  isOrdinary_of_class (by decide) (by decide) (by decide) h

theorem isOrdinary_of_octal {c : Char} (h : isOctalDigit c = true) : isOrdinary c = true :=
  isOrdinary_of_class (by decide) (by decide) (by decide) h

theorem isOrdinary_of_lineBreak {c : Char} (h : isLineBreak c = true) : isOrdinary c = true :=
  isOrdinary_of_class (by decide) (by decide) (by decide) h

/-- What an escape takes behind its first character is ordinary. -/
def TakesOrdinary (length : Nat) (text : List Char) : Prop :=
  ∃ count, length = count + 2 ∧ count ≤ text.length ∧ ∀ c ∈ text.take count, isOrdinary c = true

theorem takesOrdinary_escapeLength (text : List Char) :
    escapeLength ('\\' :: 'u' :: text) = 0 ∨
      TakesOrdinary (escapeLength ('\\' :: 'u' :: text)) text := by
  by_cases hbrace : text.head? = some '\x7b'
  · obtain ⟨text, rfl⟩ : ∃ rest, text = '\x7b' :: rest := by
      cases text with
      | nil => cases hbrace
      | cons c rest => exact ⟨rest, by rw [Option.some.inj hbrace]⟩
    rw [escapeLength]
    split
    · next hclosed =>
      simp only [Bool.and_eq_true, decide_eq_true_iff, beq_iff_eq] at hclosed
      obtain ⟨-, hclosed⟩ := hclosed
      have hlength : (text.takeWhile isHexDigit).length < text.length := by
        by_contra hlong
        rw [List.drop_eq_nil_of_le (Nat.le_of_not_lt hlong)] at hclosed
        cases hclosed
      refine .inr ⟨(text.takeWhile isHexDigit).length + 2, rfl, ?_, ?_⟩
      · rw [List.length_cons]
        omega
      · intro c hc
        rw [List.take_succ_cons, List.mem_cons, List.take_add_one, List.mem_append] at hc
        rcases hc with rfl | hc | hc
        · decide
        · rw [← List.prefix_iff_eq_take.mp (List.takeWhile_prefix _)] at hc
          exact isOrdinary_of_hex (List.mem_takeWhile_imp hc)
        · rw [← List.head?_drop, hclosed, Option.toList_some, List.mem_singleton] at hc
          rw [hc]
          decide
    · exact .inl rfl
  · rw [escapeLength_digits hbrace]
    split
    · next hdigits =>
      have hall := List.all_eq_true.mp hdigits.2
      exact .inr ⟨4, rfl, hdigits.1, fun c hc => isOrdinary_of_hex (hall c hc)⟩
    · exact .inl rfl

theorem takesOrdinary_stringEscapeLength (c : Char) (text : List Char) :
    stringEscapeLength ('\\' :: c :: text) = 0 ∨
      TakesOrdinary (stringEscapeLength ('\\' :: c :: text)) text := by
  by_cases hx : c = 'x'
  · subst hx
    match text with
    | [] | [_] => exact .inl rfl
    | a :: b :: rest =>
      rw [stringEscapeLength]
      split
      · next hdigits =>
        rw [Bool.and_eq_true] at hdigits
        refine .inr ⟨2, rfl, by simp, ?_⟩
        intro d hd
        simp only [List.take_succ_cons, List.take_zero, List.mem_cons, List.not_mem_nil,
          or_false] at hd
        rcases hd with rfl | rfl
        · exact isOrdinary_of_hex hdigits.1
        · exact isOrdinary_of_hex hdigits.2
      · exact .inl rfl
  by_cases hu : c = 'u'
  · subst hu
    exact takesOrdinary_escapeLength text
  right
  rw [stringEscapeLength_other hx hu]
  split
  · next hoctal =>
    have hlength := (List.takeWhile_prefix (p := isOctalDigit) (l := text)).length_le
    refine ⟨min 2 (text.takeWhile isOctalDigit).length, ?_, by omega, ?_⟩
    · rw [List.takeWhile_cons, if_pos hoctal, List.length_cons]
      omega
    · intro d hd
      have hmem : d ∈ text.takeWhile isOctalDigit := by
        rw [List.prefix_iff_eq_take.mp (List.takeWhile_prefix (p := isOctalDigit) (l := text))]
        exact List.take_subset_take_left text (Nat.min_le_right _ _) hd
      exact isOrdinary_of_octal (List.mem_takeWhile_imp hmem)
  split
  · next hbreak =>
    rw [Bool.and_eq_true] at hbreak
    match text with
    | [] => cases hbreak.2
    | d :: rest =>
      refine ⟨1, rfl, by simp, ?_⟩
      intro e he
      rw [List.take_succ_cons, List.take_zero, List.mem_singleton] at he
      rw [he]
      exact isOrdinary_of_lineBreak hbreak.2
  · exact ⟨0, rfl, Nat.zero_le _, by simp⟩

/-- An escape takes a character and a run of ordinary ones, all of them before the next backtick. -/
theorem exists_run_of_escape {c : Char} {rest tail : List Char}
    (h : stringEscapeLength ('\\' :: c :: (rest ++ '\x60' :: tail)) ≠ 0) :
    ∃ run after, rest = run ++ after ∧ (∀ d ∈ run, isOrdinary d = true) ∧
      stringEscapeLength ('\\' :: c :: (rest ++ '\x60' :: tail)) = run.length + 2 := by
  obtain ⟨count, hcount, hrun⟩ := (takesOrdinary_stringEscapeLength c _).resolve_left h
  obtain ⟨hle, hall⟩ := (all_take_append (show isOrdinary '\x60' = false by decide) _ _ _).mp hrun
  refine ⟨rest.take count, rest.drop count, (List.take_append_drop count rest).symm, hall, ?_⟩
  rw [hcount, List.length_take, Nat.min_eq_left hle]

/-! ## Steps of the grammar -/

theorem byteLength_append (text text' : List Char) :
    byteLength (text ++ text') = byteLength text + byteLength text' := by
  induction text with
  | nil => rw [List.nil_append, byteLength, Nat.zero_add]
  | cons c text ih => rw [List.cons_append, byteLength, byteLength, ih, Nat.add_assoc]

theorem Cursor.skip_append (run rest : List Char) (pos : Nat) :
    (⟨run ++ rest, pos⟩ : Cursor).skip run.length = ⟨rest, pos + byteLength run⟩ := by
  rw [Cursor.skip, List.drop_left, List.take_left]

namespace Parser

/-- What a step yields is passed on. -/
theorem bind_of_eq {α β : Type} {p : Parser α} {c c' : Cursor} {a : α} (h : p c = some (a, c'))
    (f : α → Parser β) : (p >>= f) c = f a c' := by
  show (p c).bind _ = _
  rw [h]
  rfl

theorem bind_of_refused {α β : Type} {p : Parser α} {c : Cursor} (h : p c = none)
    (f : α → Parser β) : (p >>= f) c = none := by
  show (p c).bind _ = none
  rw [h]
  rfl

section
variable {α : Type} {step : Parser (Option α)} {c c' : Cursor}

theorem collect_of_none (h : step c = some (none, c')) (bound : List Char) :
    collect step bound c = some ([], c') := by
  cases bound <;> exact bind_of_eq h _

theorem collect_of_refused (h : step c = none) (bound : List Char) :
    collect step bound c = none := by
  cases bound <;> exact bind_of_refused h _

theorem collect_of_some {a : α} (h : step c = some (some a, c')) (d : Char) (bound : List Char) :
    collect step (d :: bound) c =
      (collect step bound c').map fun found => (a :: found.1, found.2) := by
  refine (bind_of_eq h _).trans ?_
  show (collect step bound c').bind _ = _
  cases collect step bound c' <;> rfl

end

variable {sub : Parsers} {pos : Nat}

theorem get_bind {α : Type} (f : Cursor → Parser α) (c : Cursor) : (get >>= f) c = f c c := rfl

theorem templateStep_escape (text : List Char) :
    templateStep sub ⟨'\\' :: text, pos⟩ =
      if stringEscapeLength ('\\' :: text) = 0 then none
      else some (some [], (⟨'\\' :: text, pos⟩ : Cursor).skip (stringEscapeLength ('\\' :: text))) := by
  unfold templateStep
  rw [get_bind]
  show (require (stringEscapeLength ('\\' :: text) != 0) >>= fun _ => _ : Parser _) _ = _
  by_cases h : stringEscapeLength ('\\' :: text) = 0
  · rw [if_pos h, h]
    rfl
  · rw [if_neg h, bne_iff_ne.mpr h]
    rfl

/-- Moves to a cursor behind something that holds no hole. -/
def pass (c : Cursor) : Parser (Option (List Node)) := do
  set c
  return some []

theorem templateStep_dollar {text : List Char} (h : text.head? ≠ some '\x7b') :
    templateStep sub ⟨'$' :: text, pos⟩ = some (some [], ⟨text, pos + 1⟩) := by
  unfold templateStep
  rw [get_bind]
  refine congrFun (?_ : _ = pass ⟨text, pos + 1⟩) _
  dsimp only
  split
  · next hrest => cases hrest
  · next hrest => simp at hrest
  · next hrest => simp at hrest
  · next hrest => simp_all
  · rfl
  · next hno => exact absurd rfl (hno text)

theorem templateStep_ordinary {d : Char} {text : List Char} (h : isOrdinary d = true) :
    templateStep sub ⟨d :: text, pos⟩ =
      some (some [], (⟨d :: text, pos⟩ : Cursor).skipWhile isOrdinary) := by
  unfold templateStep
  rw [get_bind]
  refine congrFun (?_ : _ = pass ((⟨d :: text, pos⟩ : Cursor).skipWhile isOrdinary)) _
  dsimp only
  split
  · next hrest => cases hrest
  · next hrest => cases hrest; cases h
  · next hrest => cases hrest; cases h
  · next hrest => cases hrest; cases h
  · next hrest => cases hrest; cases h
  · rfl

theorem templateStep_hole {text : List Char} {node : Node} {c : Cursor}
    (h : substitution sub ⟨'$' :: '\x7b' :: text, pos⟩ = some (node, c)) :
    templateStep sub ⟨'$' :: '\x7b' :: text, pos⟩ = some (some [node], c) :=
  bind_of_eq h fun node => pure (some [node])

end Parser

/-! ## Whole templates -/

/-- A hole read as part of `text` that has the same tree as its expression on its own, comments
aside. -/
structure IsReading (text hole : List Char) (node : Node) : Prop where
  kind : node.kind = .templateSubstitution
  named : node.named = true
  children : ∃ parsed lead value trail, parseExpression hole = .ok parsed ∧
    node.children = lead ++ value :: trail ∧
    (∀ remark ∈ lead ++ trail, remark.isRemark = true ∧ remark.children = []) ∧
    value.Alike (nameIn text) (nameIn (enclose hole)) parsed.expression

/-- The text of a hole reads between braces as it reads on its own, wherever it stands and whatever
follows the brace. -/
def ReadsAlike (hole : List Char) : Prop :=
  ∀ (depth : Nat) (before after : List Char), 2 * hole.length + 6 ≤ depth →
    ∃ node, Parser.substitution (parsers depth)
        ⟨'$' :: '\x7b' :: (hole ++ '\x7d' :: after), byteLength before⟩ =
        some (node, ⟨after, byteLength before + (byteLength hole + 3)⟩) ∧
      IsReading (before ++ '$' :: '\x7b' :: (hole ++ '\x7d' :: after)) hole node

/-- How the steps over a text before a backtick turn out, whatever is around it: `ok` tells whether
they succeed, and then they give the holes. -/
def Steps (holes : List (List Char)) (body : List Char) (ok : Bool) : Prop :=
  ∀ (depth : Nat) (bound before tail : List Char), 2 * body.length + 4 ≤ depth →
    body.length ≤ bound.length →
    if ok then
      ∃ items, Parser.collect (Parser.templateStep (parsers depth)) bound
          ⟨body ++ '\x60' :: tail, byteLength before⟩ =
          some (items, ⟨'\x60' :: tail, byteLength (before ++ body)⟩) ∧
        List.Forall₂ (IsReading (before ++ body ++ '\x60' :: tail)) holes items.flatten
    else
      Parser.collect (Parser.templateStep (parsers depth)) bound
        ⟨body ++ '\x60' :: tail, byteLength before⟩ = none

theorem steps_nil : Steps [] [] true := by
  intro depth bound before tail _ _
  rw [if_pos rfl]
  refine ⟨[], ?_, .nil⟩
  rw [List.append_nil]
  exact Parser.collect_of_none rfl bound

section
variable {holes : List (List Char)} {run after : List Char} {ok : Bool}

/-- One step over some characters, and the steps over what is behind them. -/
theorem Steps.step {own : List (List Char)} (h : Steps holes after ok) (hrun : run ≠ [])
    (hstep : ∀ (depth : Nat) (before tail : List Char), 2 * (run ++ after).length + 4 ≤ depth →
      ∃ nodes, Parser.templateStep (parsers depth)
          ⟨run ++ after ++ '\x60' :: tail, byteLength before⟩ =
          some (some nodes, ⟨after ++ '\x60' :: tail, byteLength (before ++ run)⟩) ∧
        List.Forall₂ (IsReading (before ++ (run ++ after) ++ '\x60' :: tail)) own nodes) :
    Steps (own ++ holes) (run ++ after) ok := by
  intro depth bound before tail hdepth hbound
  obtain ⟨nodes, hnodes, hown⟩ := hstep depth before tail hdepth
  have hlength := List.length_pos_iff.mpr hrun
  rw [List.length_append] at hdepth hbound
  obtain ⟨d, bound, rfl⟩ : ∃ d rest, bound = d :: rest := by
    cases bound with
    | nil => rw [List.length_nil] at hbound; omega
    | cons d rest => exact ⟨d, rest, rfl⟩
  rw [List.length_cons] at hbound
  have hrest := h depth bound (before ++ run) tail (by omega) (by omega)
  rw [List.append_assoc before run after] at hrest
  rw [Parser.collect_of_some hnodes]
  cases ok with
  | false =>
    rw [if_neg Bool.false_ne_true] at hrest ⊢
    rw [hrest]
    rfl
  | true =>
    rw [if_pos rfl] at hrest ⊢
    obtain ⟨items, hitems, hholes⟩ := hrest
    refine ⟨nodes :: items, ?_, List.rel_append hown hholes⟩
    rw [hitems]
    rfl

/-- A step that passes over some characters. -/
theorem Steps.pass (h : Steps holes after ok) (hrun : run ≠ [])
    (hstep : ∀ (sub : Parsers) (tail : List Char) (pos : Nat),
      Parser.templateStep sub ⟨run ++ after ++ '\x60' :: tail, pos⟩ =
        some (some [], ⟨after ++ '\x60' :: tail, pos + byteLength run⟩)) :
    Steps holes (run ++ after) ok := by
  refine @Steps.step holes run after ok [] h hrun fun depth before tail _ => ⟨[], ?_, .nil⟩
  rw [byteLength_append]
  exact hstep (parsers depth) tail (byteLength before)

/-- A step over a hole. -/
theorem Steps.hole {hole : List Char} (h : Steps holes after ok) (hread : ReadsAlike hole) :
    Steps (hole :: holes) ('$' :: '\x7b' :: (hole ++ '\x7d' :: after)) ok := by
  have hbody : '$' :: '\x7b' :: (hole ++ '\x7d' :: after) =
      '$' :: '\x7b' :: (hole ++ ['\x7d']) ++ after := by
    simp
  rw [hbody]
  refine @Steps.step holes ('$' :: '\x7b' :: (hole ++ ['\x7d'])) after ok [hole] h (by simp) ?_
  intro depth before tail hdepth
  have hlength : ('$' :: '\x7b' :: (hole ++ ['\x7d']) ++ after).length =
      hole.length + after.length + 3 := by
    simp only [List.length_cons, List.length_append, List.length_nil]
    omega
  rw [hlength] at hdepth
  obtain ⟨node, hnode, hreading⟩ := hread depth before (after ++ '\x60' :: tail) (by omega)
  have hbytes : byteLength before + (byteLength hole + 3) =
      byteLength (before ++ '$' :: '\x7b' :: (hole ++ ['\x7d'])) := by
    rw [byteLength_append, byteLength, byteLength, byteLength_append]
    show _ = byteLength before + (1 + (1 + (byteLength hole + 1)))
    omega
  have hsplit : '$' :: '\x7b' :: (hole ++ ['\x7d']) ++ after ++ '\x60' :: tail =
      '$' :: '\x7b' :: (hole ++ '\x7d' :: (after ++ '\x60' :: tail)) := by
    simp
  rw [hbytes] at hnode
  rw [List.append_assoc before, hsplit]
  exact ⟨[node], Parser.templateStep_hole hnode, .cons hreading .nil⟩

end

/-- Reading the text of a template comes out the same way at every place. -/
theorem exists_steps {holes : List (List Char)} {body : List Char} (h : LiteralText holes body)
    (hread : ∀ hole ∈ holes, ReadsAlike hole) : ∃ ok, Steps holes body ok := by
  -- a step may take several characters, so the induction is on the length of the text
  obtain ⟨length, hlength⟩ : ∃ length, body.length = length := ⟨_, rfl⟩
  induction length using Nat.strongRecOn generalizing holes body with
  | ind length ih =>
  cases h with
  | nil => exact ⟨true, steps_nil⟩
  | @escape _ c rest hrest =>
    by_cases hzero : stringEscapeLength ('\\' :: c :: (rest ++ ['\x60'])) = 0
    · refine ⟨false, ?_⟩
      intro depth bound before tail _ _
      rw [if_neg Bool.false_ne_true]
      apply Parser.collect_of_refused
      rw [List.cons_append, List.cons_append, Parser.templateStep_escape,
        stringEscapeLength_local, if_pos hzero]
    · obtain ⟨run, after, rfl, hrun, hcount⟩ := exists_run_of_escape hzero
      rw [List.length_cons, List.length_cons, List.length_append] at hlength
      obtain ⟨ok, hok⟩ := ih after.length (by omega) (hrest.of_append hrun) hread rfl
      refine ⟨ok, @Steps.pass holes ('\\' :: c :: run) after ok hok (by simp) ?_⟩
      intro sub tail pos
      have hsame := stringEscapeLength_local c (run ++ after) tail
      rw [List.append_assoc] at hsame
      have hskip := Cursor.skip_append ('\\' :: c :: run) (after ++ '\x60' :: tail) pos
      rw [List.append_assoc, List.cons_append, List.cons_append, Parser.templateStep_escape,
        hsame, if_neg hzero, hcount]
      exact congrArg (fun c => some (some [], c)) hskip
  | @dollar _ rest hopen hrest =>
    rw [List.length_cons] at hlength
    obtain ⟨ok, hok⟩ := ih rest.length (by omega) hrest hread rfl
    refine ⟨ok, @Steps.pass holes ['$'] rest ok hok (by simp) ?_⟩
    intro sub tail pos
    apply Parser.templateStep_dollar
    cases rest with
    | nil => simp
    | cons c rest => exact hopen
  | @ordinary _ c rest hc hrest =>
    have hparts := List.takeWhile_append_dropWhile (p := isOrdinary) (l := c :: rest)
    have hne : (c :: rest).takeWhile isOrdinary ≠ [] := by
      rw [List.takeWhile_cons, if_pos hc]
      exact List.cons_ne_nil _ _
    have hafter : LiteralText holes ((c :: rest).dropWhile isOrdinary) := by
      apply LiteralText.of_append (fun d hd => List.mem_takeWhile_imp hd)
      rw [hparts]
      exact .ordinary hc hrest
    have hshort : ((c :: rest).dropWhile isOrdinary).length < length := by
      have hsum := congrArg List.length hparts
      have hpos := List.length_pos_iff.mpr hne
      rw [List.length_append] at hsum
      omega
    obtain ⟨ok, hok⟩ := ih _ hshort hafter hread rfl
    refine ⟨ok, ?_⟩
    have hpass := @Steps.pass holes ((c :: rest).takeWhile isOrdinary) _ ok hok hne
    rw [hparts] at hpass
    apply hpass
    intro sub tail pos
    have hstop : isOrdinary '\x60' = false := by decide
    rw [List.cons_append, Parser.templateStep_ordinary hc, Cursor.skipWhile, ← List.cons_append,
      takeWhile_append_stop hstop, dropWhile_append_stop hstop]
  | @hole holes hole rest hrest =>
    simp only [List.length_cons, List.length_append] at hlength
    rw [List.forall_mem_cons] at hread
    obtain ⟨ok, hok⟩ := ih rest.length (by omega) hrest hread.2 rfl
    exact ⟨ok, hok.hole hread.1⟩

/-- The template between two backticks, or none if the steps over its text fail. -/
theorem Steps.template {holes : List (List Char)} {body : List Char} {ok : Bool}
    (h : Steps holes body ok) {depth : Nat} (before tail : List Char)
    (hdepth : 2 * body.length + 4 ≤ depth) :
    if ok then
      ∃ children, Parser.template (parsers depth)
          ⟨'\x60' :: (body ++ '\x60' :: tail), byteLength before⟩ =
          some ({ kind := .templateString, start := byteLength before,
                  stop := byteLength before + (byteLength body + 2), children },
            ⟨tail, byteLength before + (byteLength body + 2)⟩) ∧
        List.Forall₂ (IsReading (before ++ '\x60' :: (body ++ '\x60' :: tail))) holes children
    else
      Parser.template (parsers depth) ⟨'\x60' :: (body ++ '\x60' :: tail), byteLength before⟩ =
        none := by
  have hsteps := h depth (body ++ '\x60' :: tail) (before ++ ['\x60']) tail hdepth
    (by rw [List.length_append]; omega)
  have hopen : byteLength (before ++ ['\x60']) = byteLength before + 1 := byteLength_append _ _
  have hclose : byteLength (before ++ ['\x60'] ++ body) + 1 =
      byteLength before + (byteLength body + 2) := by
    rw [byteLength_append, hopen]
    omega
  have htext : before ++ ['\x60'] ++ body ++ '\x60' :: tail =
      before ++ '\x60' :: (body ++ '\x60' :: tail) := by
    simp
  rw [hopen, htext] at hsteps
  cases ok with
  | false =>
    rw [if_neg Bool.false_ne_true] at hsteps ⊢
    show (Parser.collect (Parser.templateStep (parsers depth)) (body ++ '\x60' :: tail)
      ⟨body ++ '\x60' :: tail, byteLength before + 1⟩).bind _ = none
    rw [hsteps]
    rfl
  | true =>
    rw [if_pos rfl] at hsteps ⊢
    obtain ⟨items, hitems, hholes⟩ := hsteps
    refine ⟨items.flatten, ?_, hholes⟩
    show (Parser.collect (Parser.templateStep (parsers depth)) (body ++ '\x60' :: tail)
      ⟨body ++ '\x60' :: tail, byteLength before + 1⟩).bind _ = _
    rw [hitems, ← hclose]
    rfl

end NotebookCell.Script
