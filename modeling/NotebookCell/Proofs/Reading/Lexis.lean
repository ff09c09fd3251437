import NotebookCell.Proofs.Reading.Suffix
import NotebookCell.Proofs.Script.Name
import NotebookCell.Script.Grammar.Markup

/-!
# Tokens at two places

Blanks, comments, words and literals are found by looking ahead, so they are the same wherever the
text stands. Along with that: where a word has been read there is a name, and where a string has been
read its text reads as a string.

* `reads_trivia`, `rel_nextToken?`, `reads_semicolon`: what stands between tokens;
* `reads_word`, `reads_string`: the tokens that later theorems look into.
-/

namespace NotebookCell.Script

open NotebookCell.Tree

/-! ## The characters of names -/

theorem toNat_of_isBlank {c : Char} (h : isBlank c = true) : c.toNat ≤ 32 ∨ 128 ≤ c.toNat := by
  have heq (d : Char) (hd : d.toNat ≤ 32 ∨ 128 ≤ d.toNat) (hcd : c = d) :
      c.toNat ≤ 32 ∨ 128 ≤ c.toNat := hcd ▸ hd
  simp only [isBlank, isSpaceSeparator, isLineBreak, inRange, Bool.or_eq_true, Bool.and_eq_true,
    decide_eq_true_eq, beq_iff_eq] at h
  rcases h with ((((h | h) | h) | h) | h) | h
  · omega
  · rcases h with (((((h | h) | h) | h) | h) | h) | h
    · exact heq ' ' (by decide) h
    · exact heq '\u00a0' (by decide) h
    · exact heq '\u1680' (by decide) h
    · omega
    · exact heq '\u202f' (by decide) h
    · exact heq '\u205f' (by decide) h
    · exact heq '\u3000' (by decide) h
  · rcases h with (h | h) | h
    · exact heq '\n' (by decide) h
    · exact heq '\u2028' (by decide) h
    · exact heq '\u2029' (by decide) h
  · exact heq '\u200b' (by decide) h
  · exact heq '\u2060' (by decide) h
  · exact heq '\ufeff' (by decide) h

theorem isNameText_of_range {c : Char} (hlow : 32 < c.toNat) (hhigh : c.toNat < 128)
    (hopen : c.toNat ≠ 40) (hclose : c.toNat ≠ 41) : isNameText c = true := by
  simp only [isNameText, Bool.and_eq_true, Bool.not_eq_true', bne_iff_ne]
  refine ⟨⟨?_, ?_⟩, ?_⟩
  · rw [Bool.eq_false_iff]
    intro hblank
    have := toNat_of_isBlank hblank
    omega
  · rintro rfl
    exact hopen rfl
  · rintro rfl
    exact hclose rfl

theorem isNameText_of_namePart {c : Char} (h : isNamePart c = true) : isNameText c = true := by
  rw [isNamePart, Bool.and_eq_true] at h
  simp only [isNameText, Bool.and_eq_true, bne_iff_ne]
  refine ⟨⟨h.2, ?_⟩, ?_⟩
  · rintro rfl
    exact absurd h.1 (by decide)
  · rintro rfl
    exact absurd h.1 (by decide)

theorem toNat_of_isDigit {c : Char} (h : c.isDigit = true) : 48 ≤ c.toNat ∧ c.toNat ≤ 57 := by
  simpa [Char.isDigit, UInt32.le_iff_toNat_le] using h

theorem toNat_of_isAlpha {c : Char} (h : c.isAlpha = true) : 65 ≤ c.toNat ∧ c.toNat ≤ 122 := by
  have hcase : 65 ≤ c.toNat ∧ c.toNat ≤ 90 ∨ 97 ≤ c.toNat ∧ c.toNat ≤ 122 := by
    delta Char.isAlpha Char.isUpper Char.isLower at h
    simpa [UInt32.le_iff_toNat_le] using h
  omega

theorem isNameText_of_isHexDigit {c : Char} (h : isHexDigit c = true) : isNameText c = true := by
  have hrange : 48 ≤ c.toNat ∧ c.toNat ≤ 102 := by
    simp only [isHexDigit, inRange, Bool.or_eq_true, Bool.and_eq_true, decide_eq_true_eq] at h
    rcases h with (h | h) | h
    · have := toNat_of_isDigit h
      omega
    · omega
    · omega
  exact isNameText_of_range (by omega) (by omega) (by omega) (by omega)

theorem isNameText_of_isTagPart {c : Char}
    (h : (isTagStart c || c.isDigit || c == '-') = true) : isNameText c = true := by
  simp only [isTagStart, Bool.or_eq_true, beq_iff_eq] at h
  rcases h with (((h | rfl) | rfl) | h) | rfl
  · have := toNat_of_isAlpha h
    exact isNameText_of_range (by omega) (by omega) (by omega) (by omega)
  · decide
  · decide
  · have := toNat_of_isDigit h
    exact isNameText_of_range (by omega) (by omega) (by omega) (by omega)
  · decide

/-- The characters of a Unicode escape are those of a name. -/
theorem isNameText_of_mem_escape {text : List Char} :
    ∀ c ∈ text.take (escapeLength text), isNameText c = true := by
  have hslash : isNameText '\\' = true := by decide
  have hu : isNameText 'u' = true := by decide
  have hopen : isNameText '\x7b' = true := by decide
  have hclose : isNameText '\x7d' = true := by decide
  rw [escapeLength.eq_def]
  split
  · next text =>
    dsimp only
    split
    · next hclosed =>
      rw [Bool.and_eq_true, beq_iff_eq] at hclosed
      intro c hc
      rw [List.take_succ_cons, List.take_succ_cons, List.take_succ_cons, List.take_add_one,
        ← List.head?_drop, hclosed.2, ← List.prefix_iff_eq_take.mp (List.takeWhile_prefix isHexDigit)]
        at hc
      simp only [List.mem_cons, List.mem_append, Option.toList_some, List.not_mem_nil, or_false]
        at hc
      rcases hc with rfl | rfl | rfl | hc | rfl
      · exact hslash
      · exact hu
      · exact hopen
      · exact isNameText_of_isHexDigit (List.mem_takeWhile_imp hc)
      · exact hclose
    · intro c hc
      cases hc
  · next a b d e _ _ =>
    split
    · next hdigits =>
      intro c hc
      simp only [List.take_succ_cons, List.take_zero, List.mem_cons, List.not_mem_nil,
        or_false] at hc
      rcases hc with rfl | rfl | hc
      · exact hslash
      · exact hu
      · apply isNameText_of_isHexDigit
        apply List.all_eq_true.mp hdigits
        simpa using hc
    · intro c hc
      cases hc
  · intro c hc
    cases hc

theorem isNameText_of_mem_name {bound text : List Char} :
    ∀ c ∈ text.take (nameLength isNamePart bound text), isNameText c = true := by
  induction bound generalizing text with
  | nil => intro c hc; cases hc
  | cons d bound ih =>
    match text with
    | [] => intro c hc; cases hc
    | first :: text =>
      rw [nameLength]
      split
      · next hpart =>
        intro c hc
        rw [Nat.add_comm, List.take_succ_cons, List.mem_cons] at hc
        rcases hc with rfl | hc
        · exact isNameText_of_namePart hpart
        · exact ih c hc
      · dsimp only
        split
        · intro c hc
          cases hc
        · intro c hc
          rw [List.take_add, List.mem_append] at hc
          rcases hc with hc | hc
          · exact isNameText_of_mem_escape c hc
          · exact ih c hc

theorem isNameText_of_mem_word {text : List Char} :
    ∀ c ∈ text.take (wordLength text), isNameText c = true := by
  rw [wordLength.eq_def]
  split
  · intro c hc
    cases hc
  · split
    · intro c hc
      cases hc
    · exact isNameText_of_mem_name

/-- There is no word before a digit or a character that ends words. -/
theorem Cursor.seesWord_empty {c : Cursor} {first : Char} {text : List Char}
    (hrest : c.rest = first :: text) (hfirst : (first.isDigit || endsWord first) = true) :
    c.seesWord "" = true := by
  have hlength : wordLength (first :: text) = 0 := by
    rw [wordLength]
    split
    · rfl
    · next hdigit =>
      rw [Bool.or_eq_true, or_iff_right hdigit] at hfirst
      have hnone : ∀ c ∈ ([] : List Char), isNamePart c = true := by simp
      exact nameLength_append hfirst hnone text (first :: text) (Nat.succ_pos _)
  rw [Cursor.seesWord, Cursor.word, hrest, hlength]
  rfl

namespace Suffix

variable {t : Suffix} {m n : Nat} {c : Cursor}

/-! ## Comments -/

/-- What has been read between two places of the text. -/
theorem Inside.exists_append (h : t.Inside m c) {c' : Cursor}
    (h' : t.Inside (c.rest.length + 1) c') :
    ∃ lexeme, c.rest = lexeme ++ c'.rest ∧ c'.pos = c.pos + byteLength lexeme := by
  obtain ⟨before, htext, hpos⟩ := h.mark
  obtain ⟨before', htext', hpos'⟩ := h'.mark
  have hlt := h'.lt
  have hsuffix : c'.rest <:+ c.rest := by
    have hback : c'.rest <:+ t.text := ⟨before', htext'.symm⟩
    exact List.suffix_of_suffix_length_le hback ⟨before, htext.symm⟩ (by omega)
  obtain ⟨lexeme, hlexeme⟩ := hsuffix
  refine ⟨lexeme, hlexeme.symm, ?_⟩
  have hbefore : before' = before ++ lexeme := by
    rw [htext, ← hlexeme, ← List.append_assoc] at htext'
    exact (List.append_cancel_right htext').symm
  rw [← hpos', hbefore, byteLength_append, hpos]

/-- A comment between two places. -/
theorem copy_leaf {kind : Kind} (hkind : isPlain kind = true)
    (hgap : kind == .comment || kind == .htmlComment) {d : Cursor} (h : t.Inside m c)
    (hd : t.Inside n d) :
    t.Copy IsGap (Cursor.leaf kind c.pos d).1
        (Cursor.leaf kind (c.moved t.offset).pos (d.moved t.offset)).1 ∧
      t.Here n (Cursor.leaf kind c.pos d).2
        (Cursor.leaf kind (c.moved t.offset).pos (d.moved t.offset)).2 := by
  refine ⟨⟨⟨hgap, rfl⟩, ?_, ?_⟩, hd, rfl⟩
  · exact Node.sound_of_isPlain hkind h.at.1 hd.at.1 (.inl rfl) fun _ hmem => (nomatch hmem)
  · rw [Node.moved_eq]
    rfl

theorem rel_comment? (h : t.Inside m c) :
    Option.Rel (fun x y => t.Copy IsGap x.1 y.1 ∧ t.Here m x.2 y.2) c.comment?
      (c.moved t.offset).comment? := by
  rw [Cursor.comment?, Cursor.comment?, Cursor.rest_moved]
  split
  · rw [Cursor.skipWhile_moved]
    exact .some (copy_leaf rfl rfl h (h.skipWhile _))
  · next text _ =>
    cases blockCommentLength? text with
    | none => exact .none
    | some length =>
      rw [Option.map_some, Option.map_some, Cursor.skip_moved]
      exact .some (copy_leaf rfl rfl h (h.skip _))
  · exact .none

theorem rel_markupComment? (h : t.Inside m c) :
    Option.Rel (fun x y => t.Copy IsGap x.1 y.1 ∧ t.Here m x.2 y.2) c.markupComment?
      (c.moved t.offset).markupComment? := by
  rw [Cursor.markupComment?, Cursor.markupComment?]
  simp only [Cursor.skipWhile_moved, Cursor.startsWith_moved]
  split
  · exact .some (copy_leaf rfl rfl (h.skipWhile _) ((h.skipWhile _).skipWhile _))
  · exact .none

theorem reads_comment (markup : Bool) :
    t.Reads m m (Option.Rel (t.Copy IsGap)) (Parser.comment markup) (Parser.comment markup) := by
  -- whatever comment is found, it is yielded and the cursor moves behind it
  have hfound {x y : Node × Cursor} (hxy : t.Copy IsGap x.1 y.1 ∧ t.Here m x.2 y.2) :
      t.Reads m m (Option.Rel (t.Copy IsGap)) (do set x.2; return some x.1 : Parser (Option Node))
        (do set y.2; return some y.1) :=
    (reads_set hxy.2).seq <| .ret (.some hxy.1)
  refine .get fun c hc => ?_
  have hmarkup : Option.Rel (fun x y => t.Copy IsGap x.1 y.1 ∧ t.Here m x.2 y.2)
      (if markup then c.markupComment? else none)
      (if markup then (c.moved t.offset).markupComment? else none) := by
    cases markup
    · exact .none
    · exact rel_markupComment? hc
  dsimp only
  refine rel_elim hmarkup ?_ fun _ _ hxy => hfound hxy
  have hplain := rel_comment? (hc.skipWhile isBlank)
  rw [← Cursor.skipWhile_moved] at hplain
  dsimp only
  refine rel_elim hplain ?_ fun _ _ hxy => hfound hxy
  refine (reads_set (k := m) ⟨hc.skipWhile isBlank, Cursor.skipWhile_moved _ _ _⟩).seq ?_
  exact .ret .none

/-- The comments of a list of comments. -/
theorem copies_of_forall₂ {P : Node → Prop} {xs ys : List Node}
    (h : List.Forall₂ (t.Copy P) xs ys) : t.Copies P xs ys := by
  induction h with
  | nil => exact .nil
  | cons hhead _ ih => exact hhead.one.join ih

theorem reads_trivia : t.Reads m m t.Gaps Parser.trivia Parser.trivia :=
  (reads_many (reads_comment true)).mono fun _ _ => copies_of_forall₂

theorem reads_plainTrivia : t.Reads m m t.Gaps Parser.plainTrivia Parser.plainTrivia :=
  (reads_many (reads_comment false)).mono fun _ _ => copies_of_forall₂

/-! ## The next token -/

/-- The same comments, and behind them the same place. -/
def Next (t : Suffix) (bound : Nat) (x y : List Node × Cursor) : Prop :=
  t.Gaps x.1 y.1 ∧ t.Here bound x.2 y.2

/-- What follows a look at the next token is read in two cases: there is one, or the text ends. -/
theorem Reads.next {α β : Type} {A : α → β → Prop} {j k l : Nat}
    {p q : Parser (Option (List Node × Cursor))} {f : Option (List Node × Cursor) → Parser α}
    {g : Option (List Node × Cursor) → Parser β} (hp : t.Reads m k (Option.Rel (t.Next j)) p q)
    (hsome : ∀ {gap gap' c}, t.Gaps gap gap' → t.Inside j c →
      t.Reads k l A (f (some (gap, c))) (g (some (gap', c.moved t.offset))))
    (hnone : t.Reads k l A (f none) (g none)) : t.Reads m l A (p >>= f) (q >>= g) := by
  refine hp.bind ?_
  rintro _ _ (@⟨⟨gap, c⟩, ⟨gap', _⟩, hgap, hc, rfl⟩ | _)
  · exact hsome hgap hc
  · exact hnone

theorem rel_nextToken? {ends : Cursor → Bool} (hends : ∀ c, ends (c.moved t.offset) = ends c)
    (bound : List Char) (h : t.Inside m c) :
    Option.Rel (t.Next m) (c.nextToken? ends bound) ((c.moved t.offset).nextToken? ends bound) := by
  induction bound generalizing c with
  | nil =>
    rw [Cursor.nextToken?, Cursor.nextToken?, hends, Cursor.skipWhile_moved]
    split
    · exact .none
    · exact .some ⟨.nil, h.skipWhile _, rfl⟩
  | cons d bound ih =>
    rw [Cursor.nextToken?, Cursor.nextToken?, hends]
    split
    · exact .none
    · have hcomment := rel_comment? (h.skipWhile isBlank)
      rw [Cursor.skipWhile_moved]
      dsimp only
      refine rel_elim hcomment (.some ⟨.nil, h.skipWhile _, rfl⟩) ?_
      rintro ⟨node, c⟩ ⟨node', _⟩ ⟨hnode, hc, rfl⟩
      dsimp only
      exact rel_elim (ih hc) .none fun _ _ hnext => .some ⟨hnode.one.join hnext.1, hnext.2⟩

theorem reads_lookahead (asi : Bool) :
    t.Reads m m (Option.Rel (t.Next m)) (Parser.lookahead asi) (Parser.lookahead asi) := by
  refine .get fun c hc => ?_
  refine .ret (rel_nextToken? ?_ c.rest hc)
  intro _
  rfl

theorem reads_lookaheadPlain :
    t.Reads m m (Option.Rel (t.Next m)) Parser.lookaheadPlain Parser.lookaheadPlain := by
  refine .get fun c hc => ?_
  refine .ret (rel_nextToken? ?_ c.rest hc)
  intro _
  rfl

theorem reads_peekTrivia : t.Reads m m (t.Next m) Parser.peekTrivia Parser.peekTrivia := by
  refine .get fun c hc => ?_
  refine reads_trivia.bind fun hgap => .get fun next hnext => ?_
  exact (reads_set ⟨hc, rfl⟩).seq <| .ret ⟨hgap, hnext, rfl⟩

/-! ## Fixed texts -/

theorem reads_literal (text : String) :
    t.Reads m m Any (Parser.literal text) (Parser.literal text) := by
  refine .get fun c hc => ?_
  refine (reads_require _).seq ?_
  exact reads_set ⟨hc.skip _, Cursor.skip_moved _ _ _⟩

/-- A text that is not empty leaves less to read. -/
theorem reads_literal_lt {text : String} (htext : text.toList ≠ []) :
    t.Reads (n + 1) n Any (Parser.literal text) (Parser.literal text) := by
  refine .get fun c hc => ?_
  refine (reads_require _).bind fun hstarts => ?_
  refine reads_set ⟨hc.skip_lt ?_ ?_, Cursor.skip_moved _ _ _⟩
  · rw [← String.length_toList]
    exact Nat.ne_of_gt (List.length_pos_of_ne_nil htext)
  · intro hrest
    rw [Cursor.startsWith, hrest] at hstarts
    exact htext (List.prefix_nil.mp (List.isPrefixOf_iff_prefix.mp hstarts))

theorem reads_keyword (text : String) :
    t.Reads m m Any (Parser.keyword text) (Parser.keyword text) := by
  refine .get fun c _ => ?_
  exact (reads_require _).seq <| reads_literal text

theorem reads_keyword_lt {text : String} (htext : text.toList ≠ []) :
    t.Reads (n + 1) n Any (Parser.keyword text) (Parser.keyword text) := by
  refine .get fun c _ => ?_
  exact (reads_require _).seq <| reads_literal_lt htext

/-- Where a keyword has been read, it was the word at the cursor. -/
theorem readsAt_keyword_lt {text : String} (htext : text.toList ≠ []) (hc : t.Inside (n + 1) c) :
    t.ReadsAt c n (fun _ _ => c.seesWord text = true) (Parser.keyword text)
      (Parser.keyword text) := by
  refine .get ((?_ : t.Reads (n + 1) n (fun _ _ => c.seesWord text = true) _ _) c hc)
  exact (reads_require _).bind fun hsees => (reads_literal_lt htext).mono fun _ _ _ => hsees

/-- The node from a place where there is a given word begins with that word. -/
theorem Inside.beginsAt (h : t.Inside m c) {text : String} (hsees : c.seesWord text = true)
    {node : Node} (hstart : node.start = c.pos) : BeginsAt text t.text node := by
  obtain ⟨before, htext, hpos⟩ := h.mark
  have hword : c.word = text := by simpa [Cursor.seesWord] using hsees
  refine ⟨before, c.rest.drop (wordLength c.rest), ?_, hpos.trans hstart.symm⟩
  rw [← hword, Cursor.word, String.toList_ofList, List.take_append_drop, htext]

/-! ## The end of a statement -/

theorem reads_semicolonStep (operand : Bool) :
    t.Reads m m (Option.Rel (t.Copy IsGap)) (Parser.semicolonStep operand)
      (Parser.semicolonStep operand) := by
  refine .get fun c hc => ?_
  refine .ite (fun _ => .ret .none) fun _ => ?_
  have hcomment := rel_comment? (hc.skipWhile isBlank)
  rw [← Cursor.skipWhile_moved] at hcomment
  dsimp only
  refine rel_elim hcomment ?_ fun _ _ hxy => (reads_set hxy.2).seq <| .ret (.some hxy.1)
  refine (reads_set (k := m) ⟨hc.skipWhile isBlank, Cursor.skipWhile_moved _ _ _⟩).seq ?_
  exact (reads_literal ";").seq <| .ret .none

theorem reads_semicolon (operand : Bool) :
    t.Reads m m t.Gaps (Parser.semicolon operand) (Parser.semicolon operand) :=
  (reads_many (reads_semicolonStep operand)).mono fun _ _ => copies_of_forall₂

theorem rel_supplied? (operand : Bool) (bound : List Char) (h : t.Inside m c) :
    Option.Rel (t.Next m) (c.supplied? operand bound) ((c.moved t.offset).supplied? operand bound) := by
  induction bound generalizing c with
  | nil =>
    rw [Cursor.supplied?.eq_def, Cursor.supplied?.eq_def]
    dsimp only
    rw [Cursor.endsStatement_moved]
    split
    · exact .some ⟨.nil, h, rfl⟩
    · cases (c.skipWhile isBlank).comment? <;>
        cases ((c.moved t.offset).skipWhile isBlank).comment? <;> exact .none
  | cons d bound ih =>
    rw [Cursor.supplied?.eq_def, Cursor.supplied?.eq_def]
    dsimp only
    rw [Cursor.endsStatement_moved]
    split
    · exact .some ⟨.nil, h, rfl⟩
    · have hcomment := rel_comment? (h.skipWhile isBlank)
      rw [← Cursor.skipWhile_moved] at hcomment
      refine rel_elim hcomment .none ?_
      rintro ⟨node, c⟩ ⟨node', _⟩ ⟨hnode, hc, rfl⟩
      dsimp only
      exact rel_elim (ih hc) .none fun _ _ hnext => .some ⟨hnode.one.join hnext.1, hnext.2⟩

theorem reads_suppliedSemicolon (operand : Bool) :
    t.Reads m m t.Gaps (Parser.suppliedSemicolon operand) (Parser.suppliedSemicolon operand) := by
  refine .get fun c hc => ?_
  rw [Cursor.rest_moved]
  exact rel_elim (rel_supplied? operand c.rest hc) (.ret .nil) fun _ _ hnext =>
    (reads_set hnext.2).seq <| .ret hnext.1

theorem reads_noMarkupComment (operand : Bool) :
    t.Reads m m Any (Parser.noMarkupComment operand) (Parser.noMarkupComment operand) := by
  refine .get fun c hc => ?_
  have hnext : Option.Rel (t.Next m) (c.nextToken? (·.endsStatement operand) c.rest)
      ((c.moved t.offset).nextToken? (·.endsStatement operand) c.rest) :=
    rel_nextToken? (fun _ => rfl) c.rest hc
  rw [Cursor.rest_moved]
  refine rel_elim hnext (.ret trivial) ?_
  rintro ⟨gap, c⟩ ⟨gap', _⟩ ⟨-, -, rfl⟩
  exact (reads_require _).mono fun _ _ _ => trivial

/-! ## Words -/

/-- A new node of a given kind over a lexeme of the given form. -/
def Token (t : Suffix) (kind : Kind) (P : List Char → Node → Prop) : Node → Node → Prop :=
  t.Copy fun node => node.field = none ∧ node.kind = kind ∧ node.named = true ∧ P t.text node

theorem Token.fresh {kind : Kind} {P : List Char → Node → Prop} {a b : Node}
    (h : t.Token kind P a b) : t.Fresh a b :=
  h.mono fun _ hnode => hnode.1

/-- The characters from a place on. -/
theorem Inside.lexeme (h : t.Inside m c) {form : List Char → List Char → Prop} {length : Nat}
    (hform : form (c.rest.take length) (c.rest.drop length)) (kind : Kind) :
    Lexeme form t.text { kind, start := c.pos, stop := (c.skip length).pos } := by
  obtain ⟨before, htext, hpos⟩ := h.mark
  refine ⟨before, c.rest.take length, c.rest.drop length, ?_, hpos, ?_, hform⟩
  · rw [List.take_append_drop, htext]
  · rw [hpos]
    rfl

theorem escapeLength_le (text : List Char) : escapeLength text ≤ text.length := by
  rw [escapeLength.eq_def]
  split
  · next text =>
    dsimp only
    split
    · next hclosed =>
      rw [Bool.and_eq_true, beq_iff_eq] at hclosed
      have hlength : (text.takeWhile isHexDigit).length < text.length := by
        by_contra hlong
        rw [List.drop_eq_nil_of_le (Nat.le_of_not_lt hlong)] at hclosed
        cases hclosed.2
      simp only [List.length_cons]
      omega
    · exact Nat.zero_le _
  · split
    · simp only [List.length_cons]
      omega
    · exact Nat.zero_le _
  · exact Nat.zero_le _

theorem wordLength_le (text : List Char) : wordLength text ≤ text.length := by
  have hname (part : Char → Bool) (bound text : List Char) :
      nameLength part bound text ≤ text.length := by
    induction bound generalizing text with
    | nil => exact Nat.zero_le _
    | cons d bound ih =>
      match text with
      | [] => exact Nat.zero_le _
      | first :: text =>
        rw [nameLength]
        split
        · have := ih text
          rw [List.length_cons]
          omega
        · dsimp only
          split
          · exact Nat.zero_le _
          · have := ih ((first :: text).drop (escapeLength (first :: text)))
            rw [List.length_drop] at this
            have := escapeLength_le (first :: text)
            omega
  rw [wordLength.eq_def]
  split
  · exact Nat.zero_le _
  · split
    · exact Nat.zero_le _
    · exact hname _ _ _

theorem nameAt_word (h : t.Inside m c) (hlength : wordLength c.rest ≠ 0) (kind : Kind) :
    NameAt t.text { kind, start := c.pos, stop := (c.skip (wordLength c.rest)).pos } := by
  refine h.lexeme ⟨?_, isNameText_of_mem_word⟩ kind
  have := wordLength_le c.rest
  rw [ne_eq, List.take_eq_nil_iff]
  rintro (hzero | hnil)
  · exact hlength hzero
  · rw [hnil] at hlength
    exact hlength rfl

theorem wordAt_word (h : t.Inside m c) (hlength : wordLength c.rest ≠ 0) (kind : Kind) :
    WordAt t.text { kind, start := c.pos, stop := (c.skip (wordLength c.rest)).pos } := by
  refine h.lexeme ⟨?_, ?_⟩ kind
  · rw [ne_eq, List.take_eq_nil_iff]
    rintro (hzero | hnil)
    · exact hlength hzero
    · rw [hnil] at hlength
      exact hlength rfl
  · rw [List.take_append_drop, List.length_take, Nat.min_eq_left (wordLength_le c.rest)]

/-- A word is read as a node of any kind whose promise it keeps. -/
theorem readsAt_word_of {kind : Kind} {c : Cursor} (hc : t.Inside (n + 1) c)
    (hproper : wordLength c.rest ≠ 0 →
      Proper t.text { kind, start := c.pos, stop := (c.skip (wordLength c.rest)).pos }) :
    t.ReadsAt c n (t.Token kind WordAt) (Parser.word kind) (Parser.word kind) := by
  refine .get ((reads_require _).bind (fun hword => ?_) c hc)
  have hlength : wordLength c.rest ≠ 0 := by simpa using hword
  have hrest : c.rest ≠ [] := by
    intro hnil
    rw [hnil] at hlength
    exact hlength rfl
  refine (reads_set (k := n) ⟨hc.skip_lt hlength hrest, Cursor.skip_moved _ _ _⟩).seq ?_
  refine .ret ⟨⟨rfl, rfl, rfl, wordAt_word hc hlength kind⟩, ?_, ?_⟩
  · exact Node.sound_iff.mpr ⟨hproper hlength, fun _ hmem => (nomatch hmem)⟩
  · rw [Node.moved_eq, Cursor.rest_moved, Cursor.skip_moved]
    rfl

theorem reads_word {kind : Kind} (hkind : isPlain kind || isNameKind kind) :
    t.Reads (n + 1) n (t.Token kind WordAt) (Parser.word kind) (Parser.word kind) := by
  intro c hc
  refine readsAt_word_of hc fun hlength => ?_
  rcases Bool.or_eq_true_iff.mp hkind with hplain | hname
  · exact proper_of_isPlain hplain hc.at.1 (hc.skip _).at.1 (.inl rfl)
  · exact proper_of_isNameKind hname hc.at.1 (hc.skip _).at.1 (.inl rfl)
      (nameAt_word hc hlength kind)

theorem readsAt_undefinedWord {c : Cursor} (hc : t.Inside (n + 1) c) (hword : c.word = "undefined") :
    t.ReadsAt c n t.Fresh (Parser.word .undefinedWord) (Parser.word .undefinedWord) := by
  have hlexeme : Lexeme (fun lexeme _ => lexeme = "undefined".toList) t.text
      { kind := .undefinedWord, start := c.pos, stop := (c.skip (wordLength c.rest)).pos } :=
    hc.lexeme (by rw [← hword, Cursor.word, String.toList_ofList]) _
  have hread : t.ReadsAt c n (t.Token .undefinedWord WordAt) (Parser.word .undefinedWord)
      (Parser.word .undefinedWord) :=
    readsAt_word_of hc fun _ => ⟨hc.at.1, (hc.skip _).at.1, .inl rfl, hlexeme⟩
  exact rel_imp (fun _ _ hnode => ⟨hnode.1.fresh, hnode.2⟩) hread

theorem reads_name {kind : Kind} (hkind : isPlain kind || isNameKind kind) :
    t.Reads (n + 1) n (t.Token kind WordAt) (Parser.name kind) (Parser.name kind) := by
  refine .get fun c _ => ?_
  exact (reads_require _).seq <| reads_word hkind

theorem reads_privateName :
    t.Reads (n + 1) n t.Fresh Parser.privateName Parser.privateName := by
  refine .get fun c hc => ?_
  refine (reads_literal_lt (by decide)).seq ?_
  refine (Reads.inner fun _ _ => reads_word rfl).bind ?_
  rintro node _ ⟨⟨hfield, hkind, hnamed, -⟩, hsound, rfl⟩
  refine .ret ⟨hfield, ?_, ?_⟩
  · refine Node.sound_of_isPlain ?_ hc.at.1 hsound.proper.2.1 (.inl hnamed) hsound.children
    rw [hkind]
    rfl
  · rw [Node.moved_eq, Node.moved_eq]
    rfl

/-! ## Literals -/

theorem reads_number : t.Reads (n + 1) n t.Fresh Parser.number Parser.number := by
  refine .get fun c hc => ?_
  refine (reads_require _).bind fun hnumber => ?_
  have hlength : numberLength c.rest ≠ 0 := by simpa using hnumber
  have hrest : c.rest ≠ [] := by
    intro hnil
    rw [hnil] at hlength
    exact hlength (by decide)
  refine (reads_set (k := n) ⟨hc.skip_lt hlength hrest, Cursor.skip_moved _ _ _⟩).seq ?_
  refine .ret ⟨rfl, ?_, ?_⟩
  · exact Node.sound_of_isPlain rfl hc.at.1 (hc.skip _).at.1 (.inl rfl) fun _ hmem => (nomatch hmem)
  · rw [Node.moved_eq, Cursor.rest_moved, Cursor.skip_moved]
    rfl

theorem rel_stringEnd? (quote : Char) (bound : List Char) (h : t.Inside m c) :
    Option.Rel (t.Here m) (stringEnd? quote bound c) (stringEnd? quote bound (c.moved t.offset)) := by
  induction bound generalizing c with
  | nil => exact .none
  | cons d bound ih =>
    rw [stringEnd?, stringEnd?, Cursor.rest_moved]
    simp only [Cursor.skip_moved, Cursor.skipWhile_moved]
    split
    · exact .none
    split
    · exact .some ⟨h.skip 1, rfl⟩
    split
    · split
      · exact .none
      · exact ih (h.skip _)
    split
    · have hcomment := rel_comment? (h.skipWhile isBlank)
      refine rel_elim hcomment ?_ ?_
      · dsimp only
        rw [Cursor.rest_moved]
        split
        · exact .some ⟨(h.skipWhile _).skip 1, rfl⟩
        · exact .none
      · rintro ⟨node, c⟩ ⟨node', _⟩ ⟨-, hc, rfl⟩
        exact ih hc
    · exact ih (h.skip 1)

/-- The text from one place to another. -/
theorem Inside.lexeme_to (h : t.Inside m c) {d : Cursor} (hd : t.Inside (c.rest.length + 1) d)
    {form : List Char → List Char → Prop}
    (hform : ∀ lexeme, c.rest = lexeme ++ d.rest → form lexeme d.rest) (kind : Kind) :
    Lexeme form t.text { kind, start := c.pos, stop := d.pos } := by
  obtain ⟨before, htext, hpos⟩ := h.mark
  obtain ⟨lexeme, hrest, hstop⟩ := h.exists_append hd
  refine ⟨before, lexeme, d.rest, ?_, hpos, ?_, hform lexeme hrest⟩
  · rw [htext, hrest]
  · rw [hpos, hstop]

theorem string_of_stringEnd? {quote : Char} {text : List Char} (hrest : c.rest = quote :: text)
    (hquote : (quote == '\x22' || quote == '\x27') = true) {after : Cursor}
    (hend : stringEnd? quote text (c.skip 1) = some after) :
    Parser.string c = some ({ kind := .string, start := c.pos, stop := after.pos }, after) := by
  rw [Parser.string, Parser.get_bind, hrest]
  dsimp only
  rw [hquote, hend]
  rfl

theorem reads_string :
    t.Reads (n + 1) n (t.Token .string StringAt) Parser.string Parser.string := by
  refine .get fun c hc => ?_
  rw [Cursor.rest_moved]
  split
  · next quote text hrest =>
    refine (reads_require _).bind fun hquote => ?_
    have hskip : t.Inside n (c.skip 1) := by
      refine hc.skip_lt Nat.one_ne_zero ?_
      rw [hrest]
      exact List.cons_ne_nil _ _
    have hbehind := rel_stringEnd? quote text hskip
    have hlength := rel_stringEnd? (t := t) quote text
      ((show t.Inside (c.rest.length + 1) c from ⟨hc.mark, Nat.lt_succ_self _⟩).skip 1)
    rw [Cursor.skip_moved]
    cases hend : stringEnd? quote text (c.skip 1) with
    | none =>
      rw [hend] at hbehind
      cases hend' : stringEnd? quote text ((c.skip 1).moved t.offset) with
      | none => exact reads_failure
      | some after' => rw [hend'] at hbehind; cases hbehind
    | some after =>
      rw [hend] at hbehind hlength
      cases hend' : stringEnd? quote text ((c.skip 1).moved t.offset) with
      | none => rw [hend'] at hbehind; cases hbehind
      | some after' =>
        rw [hend'] at hbehind hlength
        cases hbehind with
        | some hafter =>
          cases hlength with
          | some hafter' =>
            obtain ⟨hinside, rfl⟩ := hafter
            refine (reads_set ⟨hinside, rfl⟩).seq ?_
            refine .ret ⟨⟨rfl, rfl, rfl, ?_⟩, ?_, ?_⟩
            · refine hc.lexeme_to hafter'.1 ?_ _
              intro lexeme hlexeme
              have hstring := string_of_stringEnd? hrest hquote hend
              rw [show c = ⟨lexeme ++ after.rest, c.pos⟩ by rw [← hlexeme]] at hstring
              exact ⟨c.pos, _, after.pos, hstring⟩
            · exact Node.sound_of_isPlain rfl hc.at.1 hinside.at.1 (.inl rfl) fun _ hmem =>
                (nomatch hmem)
            · rw [Node.moved_eq]
              rfl
  · exact reads_failure

theorem reads_regex : t.Reads (n + 1) n t.Fresh Parser.regex Parser.regex := by
  refine .get fun c hc => ?_
  refine (reads_literal_lt (by decide)).seq <| .get fun body hbody => ?_
  refine (reads_require _).seq ?_
  refine (reads_set (k := n) ⟨hbody.skip _, Cursor.skip_moved _ _ _⟩).seq ?_
  refine (reads_literal "/").seq <| .get fun flags hflags => ?_
  refine (reads_set (k := n) ⟨hflags.skipWhile _, Cursor.skipWhile_moved _ _ _⟩).seq ?_
  refine .ret ⟨rfl, ?_, ?_⟩
  · exact Node.sound_of_isPlain rfl hc.at.1 (hflags.skipWhile _).at.1 (.inl rfl) fun _ hmem =>
      (nomatch hmem)
  · rw [Node.moved_eq, Cursor.skipWhile_moved]
    rfl

end Suffix

end NotebookCell.Script
