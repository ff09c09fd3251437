import NotebookCell.Proofs.Ending.Series

/-!
# Blocks and words that a straight text has not

A function with a block, a method or a class is read in several ways, one after the other, and a
reading that fails in front of one end may succeed in front of the other. A straight text has none of
them: what asks for one reads nothing of it (`Refuses`).
-/

namespace NotebookCell.Script.Ending

open NotebookCell.Tree NotebookCell.Script.Parser

variable {e : Ending} {sub : Parsers} {α : Type} {c d : Cursor} {m n : Nat}

/-! ## Words and braces -/

theorem forks_rest (h : c.rest <:+ e.text ++ ['\n', ')']) : forks c.rest = false :=
  forks_eq_false e.straight h

theorem rest_of_seesWord {text : String} {mark : Char} {marks : List Char}
    (htext : text.toList = mark :: marks) (h : c.seesWord text = true) :
    ∃ rest, c.rest = mark :: rest := by
  have hword : c.rest.take (wordLength c.rest) = mark :: marks := by
    rw [Cursor.seesWord, beq_iff_eq, Cursor.word] at h
    rw [← htext, ← h, String.toList_ofList]
  cases hrest : c.rest with
  | nil =>
    rw [hrest, List.take_nil] at hword
    cases hword
  | cons first rest =>
    rw [hrest] at hword
    cases hlength : wordLength (first :: rest) with
    | zero =>
      rw [hlength] at hword
      cases hword
    | succ length =>
      rw [hlength, List.take_succ_cons] at hword
      exact ⟨rest, by rw [(List.cons.inj hword).1]⟩

/-- None of the words is in the text at which readings may part. -/
theorem seesWord_fork (h : c.rest <:+ e.text ++ ['\n', ')']) {text : String} {mark : Char}
    {marks : List Char} (htext : text.toList = mark :: marks) (hword : forkWords.contains text = true)
    (hmark : mark = 'a' ∨ mark = 'c' ∨ mark = 's') : c.seesWord text = false := by
  rw [Bool.eq_false_iff]
  intro hsees
  obtain ⟨rest, hrest⟩ := rest_of_seesWord htext hsees
  have hforks := forks_rest h
  rw [Cursor.seesWord, beq_iff_eq] at hsees
  have hcontains : forkWords.contains (Cursor.ofText c.rest).word = true := by
    rw [show (Cursor.ofText c.rest).word = c.word from rfl, hsees, hword]
  have hcase : forks c.rest = forkWords.contains (Cursor.ofText c.rest).word := by
    rw [hrest]
    rcases hmark with rfl | rfl | rfl <;> rfl
  cases (hcase.trans hcontains).symm.trans hforks

/-- What is left behind a gap does not depend on where the text stands. -/
theorem tokenBehind_eq {gap : Parser (List Node)} {A : Suffix → List Node → List Node → Prop}
    (hreads : ∀ t m, Suffix.Reads t m m (A t) gap gap) {nodes : List Node} {c' : Cursor}
    (h : gap c = some (nodes, c')) : tokenBehind gap c.rest = c'.rest := by
  have hinside : (⟨c.rest, c.pos⟩ : Suffix).Inside (c.rest.length + 1) (.ofText c.rest) :=
    ⟨⟨[], rfl, rfl⟩, Nat.lt_succ_self _⟩
  have hread := hreads _ _ _ hinside
  have hmoved : (Cursor.ofText c.rest).moved c.pos = c := rfl
  unfold Suffix.ReadsAt at hread
  rw [hmoved, h] at hread
  rw [tokenBehind]
  generalize gap (Cursor.ofText c.rest) = found at hread ⊢
  cases hread with
  | some hrelated =>
    have hrest := congrArg Cursor.rest hrelated.2.2
    exact hrest.symm

/-- No block stands behind a closing parenthesis of the text. -/
theorem trivia_behind_paren (hc : ')' :: c.rest <:+ e.text ++ ['\n', ')'])
    {gap : List Node} {c' : Cursor} (h : trivia c = some (gap, c')) : c'.rest.head? ≠ some '\x7b' := by
  have hforks : forks (')' :: c.rest) = false := forks_eq_false e.straight hc
  have hbehind := tokenBehind_eq (fun _ _ => Suffix.reads_trivia) h
  intro hbrace
  rw [forks, hbehind, hbrace] at hforks
  cases hforks

/-- No block stands behind an arrow of the text. -/
theorem trivia_behind_arrow (hc : '=' :: '>' :: c.rest <:+ e.text ++ ['\n', ')'])
    {gap : List Node} {c' : Cursor} (h : trivia c = some (gap, c')) : c'.rest.head? ≠ some '\x7b' := by
  have hforks : forks ('=' :: '>' :: c.rest) = false := forks_eq_false e.straight hc
  have hbehind := tokenBehind_eq (fun _ _ => Suffix.reads_trivia) h
  intro hbrace
  rw [forks, hbehind, hbrace] at hforks
  cases hforks

theorem startsWith_brace (h : c.rest.head? ≠ some '\x7b') : c.startsWith "\x7b" = false := by
  rw [Bool.eq_false_iff]
  intro hstarts
  obtain ⟨rest, hrest⟩ := rest_of_startsWith rfl hstarts
  exact h (by rw [hrest]; rfl)

theorem literal_refused {text : String} (h : c.startsWith text = false) : literal text c = none := by
  rw [literal, get_bind, h]
  rfl

theorem block_refused (operand : Bool) (h : c.rest.head? ≠ some '\x7b') :
    block sub operand c = none := by
  rw [block, position_bind]
  exact bind_of_refused (literal_refused (startsWith_brace h)) _

/-! ## Methods, functions and classes -/

/-- The parser moves forward in the text. -/
def Advances (p : Parser α) : Prop := ∀ c a c', p c = some (a, c') → Onward c c'

/-- The parser reads nothing of the text. -/
def Refuses (e : Ending) (p : Parser α) : Prop := ∀ c, c.rest <:+ e.text ++ ['\n', ')'] → p c = none

section
variable {β : Type} {p p' : Parser α} {f : α → Parser β}

theorem Refuses.bind (hp : Advances p) (hf : ∀ a, e.Refuses (f a)) : e.Refuses (p >>= f) := by
  intro c hc
  cases hfirst : p c with
  | none => exact bind_of_refused hfirst f
  | some found =>
    obtain ⟨a, c'⟩ := found
    rw [bind_of_eq hfirst]
    exact hf a c' ((hp c a c' hfirst).suffix.trans hc)

theorem Refuses.get {f : Cursor → Parser α} (hf : ∀ c, e.Refuses (f c)) : e.Refuses (get >>= f) :=
  fun c hc => hf c c hc

theorem Refuses.start {f : Nat → Parser α} (hf : ∀ start, e.Refuses (f start)) :
    e.Refuses (position >>= f) :=
  fun c hc => hf c.pos c hc

theorem Refuses.ite {b : Prop} [Decidable b] (hp : e.Refuses p) (hp' : e.Refuses p') :
    e.Refuses (if b then p else p') := by
  split
  · exact hp
  · exact hp'

/-- Two branches with a common continuation. -/
theorem Refuses.branch {b : Prop} [Decidable b] (hp : Advances p) (hp' : Advances p')
    (hf : ∀ a, e.Refuses (f a)) : e.Refuses (if b then p >>= f else p' >>= f) :=
  .ite (.bind hp hf) (.bind hp' hf)

theorem Advances.bind (hp : Advances p) (hf : ∀ a, Advances (f a)) : Advances (p >>= f) := by
  intro c b c'' h
  obtain ⟨a, c', hfirst, hrest⟩ := exists_of_bind h
  exact (hp c a c' hfirst).trans (hf a c' b c'' hrest)

theorem advances_pure (a : α) : Advances (pure a) := by
  intro c b c' h
  cases h
  exact onward_refl c

theorem advances_of_reads {A : Suffix → α → α → Prop} (h : ∀ t m, Suffix.Reads t m m (A t) p p) :
    Advances p :=
  fun _ _ _ hp => onward_of_reads h hp

end

theorem advances_literal (text : String) : Advances (literal text) := by
  intro c _ c' h
  rw [(rest_of_literal h).2]
  exact onward_skip c _

theorem advances_trivia : Advances trivia := advances_of_reads fun _ _ => Suffix.reads_trivia

theorem advances_keyword (text : String) : Advances (keyword text) :=
  advances_of_reads (A := fun _ => Suffix.Any) fun _ _ => (Suffix.reads_keyword text).mono fun _ _ _ => trivial

theorem advances_identifierName : Advances (name .identifier) :=
  advances_of_reads fun _ _ => .inner fun _ _ => Suffix.reads_name (by decide)

theorem advances_elements (h : e.Subs sub) (close : String) :
    Advances (many (listStep close (element sub))) :=
  advances_of_reads fun t m => Suffix.reads_many
    (Suffix.reads_listStep (P := fun _ => True) (Suffix.reads_element (h.self t m)) (fun _ _ => trivial)
      fun _ _ => trivial)

/-- A list ends with its closing mark. -/
theorem rest_of_commaList (h : e.Subs sub) {opening close : String} {mark : Char}
    (hclose : close.toList = [mark]) {items : List (Option Node)} {c' : Cursor}
    (hlist : commaList opening close (element sub) c = some (items, c')) : mark :: c'.rest <:+ c.rest := by
  obtain ⟨_, c₁, hopening, hlist⟩ := exists_of_bind hlist
  obtain ⟨_, c₂, hlead, hlist⟩ := exists_of_bind hlist
  obtain ⟨_, c₃, hmany, hlist⟩ := exists_of_bind hlist
  obtain ⟨_, c₄, hend, hlist⟩ := exists_of_bind hlist
  cases hlist
  obtain ⟨hstarts, rfl⟩ := rest_of_literal hend
  obtain ⟨rest, hrest⟩ := rest_of_startsWith hclose hstarts
  have hlength : close.length = 1 := by rw [← String.length_toList, hclose]; rfl
  have hsuffix := (((advances_literal opening _ _ _ hopening).trans (advances_trivia _ _ _ hlead)).trans
    (advances_elements h close _ _ _ hmany)).suffix
  rw [hrest] at hsuffix
  rw [Cursor.skip, hrest, hlength]
  exact hsuffix

/-- The parameters of a function end with a parenthesis of the text. -/
theorem rest_of_parameters (h : e.Subs sub) {params : Node} {c' : Cursor}
    (hp : parameters sub c = some (params, c')) : ')' :: c'.rest <:+ c.rest := by
  rw [parameters, position_bind] at hp
  obtain ⟨items, c₁, hitems, hp⟩ := exists_of_bind hp
  obtain rfl : c' = c₁ := by
    cases hholes : withoutHoles items with
    | false =>
      rw [hholes] at hp
      cases hp
    | true =>
      rw [hholes] at hp
      cases hpatterns : asPatterns? (items.filterMap id) with
      | none =>
        rw [hpatterns] at hp
        cases hp
      | some patterns =>
        rw [hpatterns] at hp
        cases hp
        rfl
  exact rest_of_commaList h rfl hitems

theorem refuses_body (h : e.Subs sub) {β : Type} (operand : Bool)
    (f : Node → List Node → Node → Parser β) :
    e.Refuses (parameters sub >>= fun params => trivia >>= fun gap => block sub operand >>= fun body =>
      f params gap body) := by
  intro c hc
  cases hparams : parameters sub c with
  | none => exact bind_of_refused hparams _
  | some found =>
    obtain ⟨params, c₁⟩ := found
    rw [bind_of_eq hparams]
    cases htrivia : trivia c₁ with
    | none => exact bind_of_refused htrivia _
    | some found =>
      obtain ⟨gap, c₂⟩ := found
      rw [bind_of_eq htrivia]
      have hbrace := trivia_behind_paren ((rest_of_parameters h hparams).trans hc) htrivia
      exact bind_of_refused (block_refused operand hbrace) _

theorem refuses_methodRest (h : e.Subs sub) (start : Nat) (lead : List Node) :
    e.Refuses (methodRest sub start lead) :=
  refuses_body h false _

theorem refuses_functionLiteral (h : e.Subs sub) (start : Nat) (lead : List Node) :
    e.Refuses (functionLiteral sub start lead) := by
  refine .bind (advances_keyword _) fun _ => .bind advances_trivia fun gap => .get fun c => ?_
  refine .branch ((advances_literal _).bind fun _ => advances_trivia) (advances_pure _) fun gap' => ?_
  refine .get fun c => .branch ?_ (advances_pure _) fun names => refuses_body h true _
  exact advances_identifierName.bind fun _ => advances_trivia.bind fun _ => advances_pure _

theorem refuses_classLiteral (start : Nat) (lead : List Node) :
    e.Refuses (classLiteral sub start lead) := by
  intro c hc
  have hsees : c.seesWord "class" = false := seesWord_fork hc rfl (by decide) (by decide)
  refine bind_of_refused ?_ _
  rw [keyword, get_bind, hsees]
  rfl

theorem advances_decorators (h : e.Subs sub) : Advances (decorators sub) :=
  advances_of_reads fun t m => Suffix.reads_decorators fun _ hn => (h.self t m).mono hn.le le_rfl

theorem advances_modifiers (inClass : Bool) : Advances (modifiers inClass) :=
  advances_of_reads fun _ _ => Suffix.reads_modifiers inClass

/-- A class with decorators. -/
theorem refuses_decorated (h : e.Subs sub) :
    e.Refuses (position >>= fun start => decorators sub >>= fun marks => classLiteral sub start marks) :=
  .start fun _ => .bind (advances_decorators h) fun _ => refuses_classLiteral _ _

end NotebookCell.Script.Ending
