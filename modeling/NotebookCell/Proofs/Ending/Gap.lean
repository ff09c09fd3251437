import NotebookCell.Proofs.Ending.Straight

/-!
# One text before two ends

A text is read in front of a line break and a parenthesis, and in front of a closing mark with
anything behind it (`Ending`). Two cursors are at the same place if they have the same part of the
text in front of them (`Ending.Same`). What stands between two tokens of the text is the same in both
readings (`Same.trivia`, `Same.plainTrivia`). Only at the end of the text they may differ, where a line
comment ends at the line break but takes in the closing mark (`Spent`).
-/

namespace NotebookCell.Script

open NotebookCell.Tree NotebookCell.Script.Parser

/-- A straight text between parentheses, with a line break behind it, and what else may stand behind
it: a closing mark and a text that ends no block comment of the first one. -/
structure Ending where
  text : List Char
  close : Char
  after : List Char
  closes : close = ')' ∨ close = '\x7d'
  straight : isStraight (text ++ ['\n', ')']) = true
  sealed : ∀ body, '/' :: '*' :: body <:+ text →
    blockCommentLength? (body ++ close :: after) = blockCommentLength? (body ++ ['\n', ')'])

/-- The text between the parentheses is over. -/
def Gone (c : Cursor) : Prop := c.rest = []

/-- At most the closing parenthesis is left. -/
def Lost (c : Cursor) : Prop := c.rest = [] ∨ c.rest = [')']

/-- The node is a line comment behind the cursor that runs up to the line break. -/
def LastLine (c : Cursor) (node : Node) : Prop :=
  ∃ before body, c.rest = before ++ '/' :: '/' :: (body ++ ['\n', ')']) ∧
    node = { kind := .comment, start := c.pos + byteLength before
             stop := c.pos + byteLength (before ++ '/' :: '/' :: body) }

/-- Only blanks and comments are left, and the last one is a line comment. -/
def Spent (c : Cursor) : Prop :=
  ∃ gap c', plainTrivia c = some (gap, c') ∧ c'.rest = [')'] ∧ ∃ node ∈ gap, LastLine c node

/-- The second cursor is behind the first one in the same text. -/
def Onward (c c' : Cursor) : Prop :=
  ∃ lexeme, c.rest = lexeme ++ c'.rest ∧ c'.pos = c.pos + byteLength lexeme

/-- The end of the text, or a closing mark. -/
def Closed (c : Cursor) : Prop := c.rest = [] ∨ ∃ rest, c.rest = ')' :: rest ∨ c.rest = '\x7d' :: rest

theorem Gone.lost {c : Cursor} (h : Gone c) : Lost c := .inl h

theorem Lost.closed {c : Cursor} (h : Lost c) : Closed c :=
  h.imp_right fun hrest => ⟨[], .inl hrest⟩

theorem Onward.trans {c c' c'' : Cursor} (h : Onward c c') (h' : Onward c' c'') : Onward c c'' := by
  obtain ⟨lexeme, hrest, hpos⟩ := h
  obtain ⟨lexeme', hrest', hpos'⟩ := h'
  refine ⟨lexeme ++ lexeme', ?_, ?_⟩
  · rw [hrest, hrest', List.append_assoc]
  · rw [hpos', hpos, byteLength_append, Nat.add_assoc]

theorem onward_refl (c : Cursor) : Onward c c := ⟨[], rfl, rfl⟩

theorem Onward.suffix {c c' : Cursor} (h : Onward c c') : c'.rest <:+ c.rest := by
  obtain ⟨lexeme, hrest, -⟩ := h
  exact ⟨lexeme, hrest.symm⟩

theorem onward_skip (c : Cursor) (n : Nat) : Onward c (c.skip n) :=
  ⟨c.rest.take n, (List.take_append_drop n c.rest).symm, rfl⟩

theorem onward_skipWhile (c : Cursor) (p : Char → Bool) : Onward c (c.skipWhile p) :=
  ⟨c.rest.takeWhile p, List.takeWhile_append_dropWhile.symm, rfl⟩

theorem Onward.lastLine {c c' : Cursor} {node : Node} (h : Onward c c') (hnode : LastLine c' node) :
    LastLine c node := by
  obtain ⟨lexeme, hrest, hpos⟩ := h
  obtain ⟨before, body, hrest', rfl⟩ := hnode
  refine ⟨lexeme ++ before, body, ?_, ?_⟩
  · rw [hrest, hrest', List.append_assoc]
  · simp only [hpos, byteLength_append, Nat.add_assoc]

namespace Ending

variable {e : Ending} {c d : Cursor} {m k : Nat}

/-- Both cursors have the same part of the text in front of them, and less than `bound` characters are
left between the parentheses. -/
structure Same (e : Ending) (bound : Nat) (c d : Cursor) : Prop where
  left : ∃ left, left <:+ e.text ∧ c.rest = left ++ ['\n', ')'] ∧ d.rest = left ++ e.close :: e.after
  pos : d.pos = c.pos
  lt : c.rest.length < bound

/-- Both cursors are in front of the same token. -/
structure Token (e : Ending) (bound : Nat) (c d : Cursor) : Prop extends e.Same bound c d where
  blank : c.rest.head?.any isBlank = false

/-! ## Places -/

theorem isStop_close (e : Ending) : isStop e.close = true := by
  rcases e.closes with h | h <;> rw [h] <;> rfl

theorem Same.mono (h : e.Same m c d) (hle : m ≤ k) : e.Same k c d :=
  ⟨h.left, h.pos, Nat.lt_of_lt_of_le h.lt hle⟩

theorem Token.mono (h : e.Token m c d) (hle : m ≤ k) : e.Token k c d :=
  ⟨h.toSame.mono hle, h.blank⟩

theorem append_suffix {left text : List Char} (h : left <:+ text) (tail : List Char) :
    left ++ tail <:+ text ++ tail := by
  obtain ⟨before, rfl⟩ := h
  exact ⟨before, (List.append_assoc before left tail).symm⟩

theorem Same.suffix (h : e.Same m c d) : c.rest <:+ e.text ++ ['\n', ')'] := by
  obtain ⟨left, hleft, hc, -⟩ := h.left
  rw [hc]
  exact append_suffix hleft _

/-- No escape is left open at the end of the text. -/
theorem endsEscapes (e : Ending) : EndsEscapes e.text := by
  intro rest hrest
  have hforks := forks_eq_false e.straight (append_suffix hrest ['\n', ')'])
  rw [Bool.eq_false_iff]
  intro hopen
  rw [isOpenEscape.eq_def] at hopen
  split at hopen
  · next digits =>
    rw [Bool.and_eq_true] at hopen
    have hhex : isHexDigit '\n' = false := by decide
    have hrun : (digits ++ ['\n', ')']).takeWhile isHexDigit = digits := by
      rw [takeWhile_append_stop hhex, List.takeWhile_eq_self_iff.mpr (List.all_eq_true.mp hopen.2)]
    have hzero : escapeLength ('\\' :: 'u' :: '\x7b' :: (digits ++ ['\n', ')'])) = 0 := by
      rw [escapeLength]
      rw [hrun, List.drop_left]
      simp
    have hfork : forks ('\\' :: 'u' :: '\x7b' :: (digits ++ ['\n', ')'])) = true := by
      rw [forks, hzero]
      rfl
    cases hfork.symm.trans hforks
  · cases hopen

/-- The first `n` characters are the same in both readings, if they are characters of the text. -/
theorem Same.skip (h : e.Same m c d) {n : Nat} (hn : n + 2 ≤ c.rest.length) (hk : c.rest.length < k + n) :
    e.Same k (c.skip n) (d.skip n) := by
  obtain ⟨left, hleft, hc, hd⟩ := h.left
  have hle : n ≤ left.length := by
    rw [hc, List.length_append] at hn
    simpa using hn
  refine ⟨⟨left.drop n, (List.drop_suffix n left).trans hleft, ?_, ?_⟩, ?_, ?_⟩
  · rw [Cursor.skip, hc, List.drop_append_of_le_length hle]
  · rw [Cursor.skip, hd, List.drop_append_of_le_length hle]
  · rw [Cursor.skip, Cursor.skip, hc, hd, List.take_append_of_le_length hle,
      List.take_append_of_le_length hle, h.pos]
  · rw [Cursor.skip, List.length_drop]
    omega

/-- What has been read of the text in one reading can be read in the other. -/
theorem Same.advance (h : e.Same m c d) {c' : Cursor} {lexeme : List Char}
    (hrest : c.rest = lexeme ++ c'.rest) (hpos : c'.pos = c.pos + byteLength lexeme)
    (hinside : 2 ≤ c'.rest.length) :
    e.Same (c'.rest.length + 1) c' (d.skip lexeme.length) := by
  have hlength := congrArg List.length hrest
  rw [List.length_append] at hlength
  have hsame : e.Same (c'.rest.length + 1) (c.skip lexeme.length) (d.skip lexeme.length) :=
    h.skip (by omega) (by omega)
  have heq : c.skip lexeme.length = c' := by
    obtain ⟨rest, pos⟩ := c
    obtain ⟨rest', pos'⟩ := c'
    dsimp only at hrest hpos
    subst hrest hpos
    exact Cursor.skip_append lexeme rest' pos
  rwa [heq] at hsame

/-- A test for marks that are no closing ones has the same answer. -/
theorem Same.startsWith_eq (h : e.Same m c d) {text : String}
    (htext : text.toList.all (!isStop ·) = true) : d.startsWith text = c.startsWith text := by
  obtain ⟨left, -, hc, hd⟩ := h.left
  rw [Cursor.startsWith, Cursor.startsWith, hc, hd, isPrefixOf_append_stop e.isStop_close htext,
    isPrefixOf_append_stop (show isStop '\n' = true from rfl) htext]

theorem Same.wordLength_eq (h : e.Same m c d) :
    wordLength d.rest = wordLength c.rest ∧ wordLength c.rest + 2 ≤ c.rest.length := by
  obtain ⟨left, hleft, hc, hd⟩ := h.left
  have hends := e.endsEscapes.suffix hleft
  have hle := Suffix.wordLength_le left
  rw [hc, hd, wordLength_append_stop e.isStop_close hends, List.length_append,
    wordLength_append_stop (show isStop '\n' = true from rfl) hends]
  exact ⟨rfl, Nat.add_le_add_right hle 2⟩

theorem Same.take_eq (h : e.Same m c d) {n : Nat} (hn : n + 2 ≤ c.rest.length) :
    d.rest.take n = c.rest.take n := by
  obtain ⟨left, -, hc, hd⟩ := h.left
  have hle : n ≤ left.length := by
    rw [hc, List.length_append] at hn
    simpa using hn
  rw [hc, hd, List.take_append_of_le_length hle, List.take_append_of_le_length hle]

theorem Same.word_eq (h : e.Same m c d) : d.word = c.word := by
  obtain ⟨hlength, hle⟩ := h.wordLength_eq
  rw [Cursor.word, Cursor.word, hlength, h.take_eq hle]

theorem Same.seesWord_eq (h : e.Same m c d) (text : String) : d.seesWord text = c.seesWord text := by
  rw [Cursor.seesWord, Cursor.seesWord, h.word_eq]

/-- There is a character of the text in front of both cursors. -/
theorem Token.exists_cons (h : e.Token m c d) :
    ∃ first left, first :: left <:+ e.text ∧ c.rest = first :: (left ++ ['\n', ')']) ∧
      d.rest = first :: (left ++ e.close :: e.after) := by
  obtain ⟨left, hleft, hc, hd⟩ := h.left
  cases left with
  | nil =>
    have hblank := h.blank
    rw [hc] at hblank
    cases hblank
  | cons first left => exact ⟨first, left, hleft, hc, hd⟩

/-- A test for one character has the same answer in front of a token. -/
theorem Token.startsWith_eq (h : e.Token m c d) {text : String} {mark : Char}
    (htext : text.toList = [mark]) : d.startsWith text = c.startsWith text := by
  obtain ⟨first, left, -, hc, hd⟩ := h.exists_cons
  rw [Cursor.startsWith, Cursor.startsWith, htext, hc, hd]
  show (mark == first && true) = (mark == first && true)
  rfl

/-! ## Blanks and comments -/

/-- A run of characters that ends inside the text. -/
theorem Same.takeWhile_eq (h : e.Same m c d) {p : Char → Bool}
    (hlength : 2 < (c.skipWhile p).rest.length) : d.rest.takeWhile p = c.rest.takeWhile p := by
  obtain ⟨left, -, hc, hd⟩ := h.left
  have hdrop : left.dropWhile p ≠ [] := by
    intro hnil
    rw [Cursor.skipWhile, hc, List.dropWhile_append, hnil] at hlength
    have hle := (List.dropWhile_suffix (l := ['\n', ')']) p).length_le
    simp only [List.isEmpty_nil, if_true, List.length_cons, List.length_nil] at hlength hle
    omega
  have hrun : left.takeWhile p ≠ left := by
    intro hall
    rw [List.takeWhile_eq_self_iff] at hall
    exact hdrop (List.dropWhile_eq_nil_iff.mpr hall)
  have htake (tail : List Char) : (left ++ tail).takeWhile p = left.takeWhile p := by
    rw [List.takeWhile_append, if_neg]
    intro hlength
    exact hrun ((List.takeWhile_prefix p).eq_of_length hlength)
  rw [hc, hd, htake, htake]

theorem Same.skipWhile (h : e.Same m c d) {p : Char → Bool}
    (hlength : 2 < (c.skipWhile p).rest.length) :
    e.Same ((c.skipWhile p).rest.length + 1) (c.skipWhile p) (d.skipWhile p) := by
  rw [Suffix.skipWhile_eq_skip p d, h.takeWhile_eq hlength]
  refine h.advance ?_ ?_ (by omega)
  · exact (List.takeWhile_append_dropWhile).symm
  · rfl

/-- A run of characters that does not end inside the text takes in what is left of it. -/
theorem Same.exists_run (h : e.Same m c d) {p : Char → Bool}
    (hlength : ¬2 < (c.skipWhile p).rest.length) :
    ∃ left, c.rest = left ++ ['\n', ')'] ∧ d.rest = left ++ e.close :: e.after ∧
      left.dropWhile p = [] := by
  obtain ⟨left, -, hc, hd⟩ := h.left
  refine ⟨left, hc, hd, ?_⟩
  by_contra hne
  rw [Cursor.skipWhile, hc, List.dropWhile_append, if_neg (by simpa using hne),
    List.length_append] at hlength
  have hpos := List.length_pos_of_ne_nil hne
  simp only [List.length_cons, List.length_nil] at hlength
  omega

/-- Where the text has been passed over, the other reading is at the closing mark. -/
theorem Same.skipWhile_end (h : e.Same m c d) {p : Char → Bool} (hbreak : p '\n' = true)
    (hclose : p ')' = false) (hclose' : p '\x7d' = false)
    (hlength : ¬2 < (c.skipWhile p).rest.length) :
    (c.skipWhile p).rest = [')'] ∧ (d.skipWhile p).rest = e.close :: e.after := by
  obtain ⟨left, hc, hd, hdrop⟩ := h.exists_run hlength
  have hstop : p e.close = false := by
    rcases e.closes with h | h <;> rw [h] <;> assumption
  rw [Cursor.skipWhile, Cursor.skipWhile, hc, hd, List.dropWhile_append, List.dropWhile_append, hdrop]
  constructor
  · simp [hbreak, hclose]
  · simp [hstop]

theorem length_of_closed {body : List Char} {length : Nat}
    (h : blockCommentLength? (body ++ ['\n', ')']) = some length) : length ≤ body.length := by
  induction body generalizing length with
  | nil => cases h
  | cons c body ih =>
    rw [List.cons_append] at h
    by_cases hclose : c = '*' ∧ (body ++ ['\n', ')']).head? = some '/'
    · obtain ⟨rfl, hhead⟩ := hclose
      cases body with
      | nil => cases hhead
      | cons d body =>
        cases hhead
        cases h
        simp
    · rw [blockCommentLength?_cons hclose] at h
      obtain ⟨shorter, hshorter, rfl⟩ := Option.map_eq_some_iff.mp h
      exact Nat.succ_le_succ (ih hshorter)

theorem comment?_none_of {c : Cursor} (hline : ∀ rest, c.rest ≠ '/' :: '/' :: rest)
    (hblock : ∀ rest, c.rest ≠ '/' :: '*' :: rest) : c.comment? = none := by
  rw [Cursor.comment?]
  split
  · next rest hrest => exact absurd hrest (hline rest)
  · next rest hrest => exact absurd hrest (hblock rest)
  · rfl

/-- A run that only a line break ends, and that does not end inside the text. -/
theorem Same.skipWhile_break (h : e.Same m c d) {p : Char → Bool} (hbreak : p '\n' = false)
    (hlength : ¬2 < (c.skipWhile p).rest.length) :
    (c.skipWhile p).rest = ['\n', ')'] ∧ ∃ left, c.rest = left ++ ['\n', ')'] ∧
      (c.skipWhile p).pos = c.pos + byteLength left := by
  obtain ⟨left, hc, -, hdrop⟩ := h.exists_run hlength
  have htake : left.takeWhile p = left :=
    List.takeWhile_eq_self_iff.mpr (List.dropWhile_eq_nil_iff.mp hdrop)
  refine ⟨?_, left, hc, ?_⟩
  · rw [Cursor.skipWhile, hc, List.dropWhile_append, hdrop]
    simp [hbreak]
  · rw [Cursor.skipWhile, hc, takeWhile_append_stop hbreak, htake]

theorem Same.lineComment? (h : e.Same m c d) {text text' : List Char} (hc : c.rest = '/' :: '/' :: text)
    (hd : d.rest = '/' :: '/' :: text') :
    (∃ node c' d', c.comment? = some (node, c') ∧ d.comment? = some (node, d') ∧ Onward c c' ∧
        e.Same c.rest.length c' d') ∨
      ∃ node c', c.comment? = some (node, c') ∧ c'.rest = ['\n', ')'] ∧ LastLine c node := by
  have hcomment (x : Cursor) {rest : List Char} (hx : x.rest = '/' :: '/' :: rest) :
      x.comment? = some (Cursor.leaf .comment x.pos (x.skipWhile fun ch => !endsLineComment ch)) := by
    obtain ⟨text, pos⟩ := x
    subst hx
    rfl
  by_cases hinside : 2 < (c.skipWhile fun ch => !endsLineComment ch).rest.length
  · have hsame := h.skipWhile hinside
    have hshorter : (c.skipWhile fun ch => !endsLineComment ch).rest.length < c.rest.length := by
      have hmap : (⟨c.rest, c.pos⟩ : Cursor).comment?.map (·.2.rest) =
          some (c.skipWhile fun ch => !endsLineComment ch).rest :=
        congrArg (Option.map (·.2.rest)) (hcomment c hc)
      exact length_of_comment? hmap
    refine .inl ⟨_, _, _, hcomment c hc, ?_, onward_skipWhile c _, hsame.mono hshorter⟩
    rw [hcomment d hd]
    simp only [Cursor.leaf, h.pos, hsame.pos]
  · obtain ⟨hrest, left, hleft, hpos⟩ := h.skipWhile_break rfl hinside
    refine .inr ⟨_, _, hcomment c hc, hrest, ?_⟩
    match left with
    | [] => cases hleft.symm.trans hc
    | [_] => cases hleft.symm.trans hc
    | first :: second :: body =>
      obtain ⟨rfl, rfl, -⟩ : first = '/' ∧ second = '/' ∧ _ := by
        simpa using hleft.symm.trans hc
      exact ⟨[], body, hleft, by simp only [hpos]; rfl⟩

theorem Same.blockComment? (h : e.Same m c d) {body : List Char} (hleft : '/' :: '*' :: body <:+ e.text)
    (hc : c.rest = '/' :: '*' :: (body ++ ['\n', ')']))
    (hd : d.rest = '/' :: '*' :: (body ++ e.close :: e.after)) :
    (c.comment? = none ∧ d.comment? = none) ∨
      ∃ node c' d', c.comment? = some (node, c') ∧ d.comment? = some (node, d') ∧ Onward c c' ∧
        e.Same c.rest.length c' d' := by
  have hcomment (x : Cursor) {rest : List Char} (hx : x.rest = '/' :: '*' :: rest) :
      x.comment? = (blockCommentLength? rest).map fun length =>
        Cursor.leaf .comment x.pos (x.skip (length + 2)) := by
    obtain ⟨text, pos⟩ := x
    subst hx
    rfl
  rw [hcomment c hc, hcomment d hd, e.sealed body hleft]
  cases hlength : blockCommentLength? (body ++ ['\n', ')']) with
  | none => exact .inl ⟨rfl, rfl⟩
  | some length =>
    have hle := length_of_closed hlength
    have hsize := congrArg List.length hc
    simp only [List.length_append, List.length_cons, List.length_nil] at hsize
    have hsame : e.Same c.rest.length (c.skip (length + 2)) (d.skip (length + 2)) :=
      h.skip (by omega) (by omega)
    refine .inr ⟨_, _, _, rfl, ?_, onward_skip c _, hsame⟩
    simp only [Option.map_some, Cursor.leaf, h.pos, hsame.pos]

/-- A comment is the same in both readings unless it is a line comment that runs up to the break. -/
theorem Same.comment? (h : e.Same m c d) :
    (c.comment? = none ∧ d.comment? = none) ∨
      (∃ node c' d', c.comment? = some (node, c') ∧ d.comment? = some (node, d') ∧ Onward c c' ∧
        e.Same c.rest.length c' d') ∨
      ∃ node c', c.comment? = some (node, c') ∧ c'.rest = ['\n', ')'] ∧ LastLine c node := by
  obtain ⟨left, hleft, hc, hd⟩ := h.left
  have hslash : e.close ≠ '/' := ne_of_isStop e.isStop_close (by decide)
  have hstar : e.close ≠ '*' := ne_of_isStop e.isStop_close (by decide)
  match left with
  | [] =>
    refine .inl ⟨comment?_none_of ?_ ?_, comment?_none_of ?_ ?_⟩ <;> intro rest <;> simp [hc, hd, hslash]
  | [first] =>
    refine .inl ⟨comment?_none_of ?_ ?_, comment?_none_of ?_ ?_⟩ <;> intro rest <;>
      simp [hc, hd, hslash, hstar]
  | first :: second :: body =>
    by_cases hline : first = '/' ∧ second = '/'
    · obtain ⟨rfl, rfl⟩ := hline
      exact .inr (h.lineComment? hc hd)
    by_cases hblock : first = '/' ∧ second = '*'
    · obtain ⟨rfl, rfl⟩ := hblock
      exact (h.blockComment? hleft hc hd).imp_right .inl
    · rw [not_and] at hline hblock
      refine .inl ⟨comment?_none_of ?_ ?_, comment?_none_of ?_ ?_⟩ <;> intro rest <;>
        simp only [hc, hd, List.cons_append, ne_eq, List.cons.injEq, not_and] <;> intro hfirst hsecond
      · exact absurd hsecond (hline hfirst)
      · exact absurd hsecond (hblock hfirst)
      · exact absurd hsecond (hline hfirst)
      · exact absurd hsecond (hblock hfirst)

/-- One step over blanks and comments, seen in both readings. -/
inductive Step (e : Ending) (markup : Bool) (c d : Cursor) : Prop
  /-- A token of the text follows. -/
  | token {c' d' : Cursor} (hc : comment markup c = some (none, c'))
      (hd : comment markup d = some (none, d')) (h : e.Token (c.rest.length + 1) c' d')
  /-- Nothing of the text follows. -/
  | finish {c' d' : Cursor} (hc : comment markup c = some (none, c'))
      (hd : comment markup d = some (none, d')) (hc' : c'.rest = [')'])
      (hd' : d'.rest = e.close :: e.after)
  /-- A comment follows and ends inside the text. -/
  | inside {node : Node} {c' d' : Cursor} (hc : comment markup c = some (some node, c'))
      (hd : comment markup d = some (some node, d')) (honward : Onward c c')
      (h : e.Same c.rest.length c' d')
  /-- A comment follows that runs up to the line break. -/
  | runs {node : Node} {c' : Cursor} (hc : comment markup c = some (some node, c'))
      (hc' : c'.rest = ['\n', ')']) (hnode : markup = false → LastLine c node)

theorem head?_skipWhile (p : Char → Bool) (c : Cursor) : (c.skipWhile p).rest.head?.any p = false := by
  show (c.rest.dropWhile p).head?.any p = false
  induction c.rest with
  | nil => rfl
  | cons d text ih =>
    by_cases hp : p d = true
    · rwa [List.dropWhile_cons_of_pos hp]
    · rw [List.dropWhile_cons_of_neg hp]
      exact Bool.not_eq_true _ ▸ hp

theorem comment_false (c : Cursor) :
    comment false c = match (c.skipWhile isBlank).comment? with
      | some (node, c) => some (some node, c)
      | none => some (none, c.skipWhile isBlank) := by
  rw [comment, get_bind]
  dsimp only [Bool.false_eq_true, if_false]
  cases (c.skipWhile isBlank).comment? <;> rfl

theorem comment_true {c : Cursor} (h : c.markupComment? = none) : comment true c = comment false c := by
  rw [comment_false, comment, get_bind, if_pos rfl, h]
  dsimp only
  cases (c.skipWhile isBlank).comment? <;> rfl

theorem Same.plainStep (h : e.Same m c d) : e.Step false c d := by
  have hle : (c.skipWhile isBlank).rest.length ≤ c.rest.length :=
    (List.dropWhile_suffix isBlank).length_le
  by_cases hinside : 2 < (c.skipWhile isBlank).rest.length
  · have hsame := h.skipWhile hinside
    rcases hsame.comment? with ⟨hc, hd⟩ | ⟨node, c', d', hc, hd, honward, hsame'⟩ | ⟨node, c', hc, hc', hnode⟩
    · refine .token (by rw [comment_false, hc]) (by rw [comment_false, hd]) ⟨hsame.mono ?_, ?_⟩
      · omega
      · exact head?_skipWhile isBlank c
    · refine .inside (by rw [comment_false, hc]) (by rw [comment_false, hd])
        ((onward_skipWhile c isBlank).trans honward) (hsame'.mono hle)
    · exact .runs (by rw [comment_false, hc]) hc' fun _ => (onward_skipWhile c isBlank).lastLine hnode
  · obtain ⟨hc, hd⟩ := h.skipWhile_end rfl rfl rfl hinside
    have hslash : e.close ≠ '/' := ne_of_isStop e.isStop_close (by decide)
    have hc' : (c.skipWhile isBlank).comment? = none :=
      comment?_none_of (by simp [hc]) (by simp [hc])
    have hd' : (d.skipWhile isBlank).comment? = none :=
      comment?_none_of (by simp [hd, hslash]) (by simp [hd, hslash])
    exact .finish (by rw [comment_false, hc']) (by rw [comment_false, hd']) hc hd

theorem markupComment?_none {c : Cursor} {first : Char} {rest : List Char}
    (hc : (c.skipWhile isSpacing).rest = first :: rest) (hopen : first ≠ '<') (hclose : first ≠ '-') :
    c.markupComment? = none := by
  have hne (text : String) {mark : Char} {marks : List Char} (htext : text.toList = mark :: marks)
      (hmark : first ≠ mark) : (c.skipWhile isSpacing).startsWith text = false := by
    rw [Cursor.startsWith, hc, htext]
    show (mark == first && _) = false
    rw [beq_false_of_ne hmark.symm, Bool.false_and]
  rw [Cursor.markupComment?, hne "<!--" rfl hopen, hne "-->" rfl hclose]
  rfl

theorem comment_some {c c' : Cursor} {node : Node} (h : c.markupComment? = some (node, c')) :
    comment true c = some (some node, c') := by
  rw [comment, get_bind, if_pos rfl, h]
  rfl

theorem rest_of_startsWith {c : Cursor} {text : String} {mark : Char} {marks : List Char}
    (htext : text.toList = mark :: marks) (h : c.startsWith text = true) :
    ∃ rest, c.rest = mark :: rest := by
  rw [Cursor.startsWith, htext, List.isPrefixOf_iff_prefix] at h
  obtain ⟨rest, hrest⟩ := h
  exact ⟨marks ++ rest, hrest.symm⟩

/-- A markup-style comment takes at least its first mark. -/
theorem length_of_markup {c : Cursor}
    (h : (c.startsWith "<!--" || c.startsWith "-->") = true) :
    (c.skipWhile fun ch => !isLineBreak ch).rest.length < c.rest.length := by
  have hfirst {mark : Char} (hmark : isLineBreak mark = false) {rest : List Char}
      (hrest : c.rest = mark :: rest) :
      (c.skipWhile fun ch => !isLineBreak ch).rest.length < c.rest.length := by
    have hle := (List.dropWhile_suffix (l := rest) fun ch => !isLineBreak ch).length_le
    rw [Cursor.skipWhile, hrest, List.dropWhile_cons_of_pos (by rw [hmark]; rfl), List.length_cons]
    exact Nat.lt_succ_of_le hle
  rcases Bool.or_eq_true_iff.mp h with hopen | hclose
  · obtain ⟨rest, hrest⟩ := rest_of_startsWith rfl hopen
    exact hfirst (by decide) hrest
  · obtain ⟨rest, hrest⟩ := rest_of_startsWith rfl hclose
    exact hfirst (by decide) hrest

theorem Same.step (h : e.Same m c d) (markup : Bool) : e.Step markup c d := by
  cases markup with
  | false => exact h.plainStep
  | true =>
    -- without a markup-style comment the step is the plain one
    have hplain (hc : c.markupComment? = none) (hd : d.markupComment? = none) : e.Step true c d := by
      cases h.plainStep with
      | token hc' hd' hsame =>
        exact .token (by rw [comment_true hc, hc']) (by rw [comment_true hd, hd']) hsame
      | finish hc' hd' hrest hrest' =>
        exact .finish (by rw [comment_true hc, hc']) (by rw [comment_true hd, hd']) hrest hrest'
      | inside hc' hd' honward hsame =>
        exact .inside (by rw [comment_true hc, hc']) (by rw [comment_true hd, hd']) honward hsame
      | runs hc' hrest =>
        exact .runs (by rw [comment_true hc, hc']) hrest Bool.noConfusion
    by_cases hinside : 2 < (c.skipWhile isSpacing).rest.length
    · have hsame := h.skipWhile hinside
      have hopen := @Same.startsWith_eq _ _ _ _ hsame "<!--" rfl
      have hclose := @Same.startsWith_eq _ _ _ _ hsame "-->" rfl
      by_cases hmark : ((c.skipWhile isSpacing).startsWith "<!--" ||
          (c.skipWhile isSpacing).startsWith "-->") = true
      · have hfound (x : Cursor) (hx : ((x.skipWhile isSpacing).startsWith "<!--" ||
            (x.skipWhile isSpacing).startsWith "-->") = true) :
            x.markupComment? = some (Cursor.leaf .htmlComment (x.skipWhile isSpacing).pos
              ((x.skipWhile isSpacing).skipWhile fun ch => !isLineBreak ch)) := if_pos hx
        have hc := hfound c hmark
        by_cases hinside' : 2 < ((c.skipWhile isSpacing).skipWhile fun ch => !isLineBreak ch).rest.length
        · have hsame' := hsame.skipWhile hinside'
          have hd := hfound d (by rw [hopen, hclose, hmark])
          have hle : (c.skipWhile isSpacing).rest.length ≤ c.rest.length :=
            (List.dropWhile_suffix isSpacing).length_le
          have hshorter := length_of_markup hmark
          refine .inside (comment_some hc) ?_
            ((onward_skipWhile c isSpacing).trans (onward_skipWhile _ _)) (hsame'.mono (by omega))
          rw [comment_some hd, hsame.pos, hsame'.pos]
        · exact .runs (comment_some hc) (hsame.skipWhile_break rfl hinside').1 Bool.noConfusion
      · have hnone (x : Cursor) (hx : ¬((x.skipWhile isSpacing).startsWith "<!--" ||
            (x.skipWhile isSpacing).startsWith "-->") = true) : x.markupComment? = none := if_neg hx
        exact hplain (hnone c hmark) (hnone d (by rwa [hopen, hclose]))
    · obtain ⟨hc, hd⟩ := h.skipWhile_end rfl rfl rfl hinside
      exact hplain (markupComment?_none hc (by decide) (by decide)) (markupComment?_none hd
        (ne_of_isStop e.isStop_close (by decide)) (ne_of_isStop e.isStop_close (by decide)))

/-- All blanks and comments in front of a token, as both readings see them. -/
inductive Passed (e : Ending) (markup : Bool) (c : Cursor) :
    Option (List Node × Cursor) → Option (List Node × Cursor) → Prop
  /-- A token of the text follows. -/
  | token {gap : List Node} {c' d' : Cursor} (h : e.Token (c.rest.length + 1) c' d')
      (hread : gap ≠ [] → c'.rest.length < c.rest.length) :
      Passed e markup c (some (gap, c')) (some (gap, d'))
  /-- Nothing of the text follows. -/
  | finish {gap : List Node} {c' d' : Cursor} (hc : c'.rest = [')'])
      (hd : d'.rest = e.close :: e.after) : Passed e markup c (some (gap, c')) (some (gap, d'))
  /-- The last comment runs up to the line break. -/
  | runs {gap : List Node} {c' : Cursor} {other : Option (List Node × Cursor)} (hc : c'.rest = [')'])
      (hnode : markup = false → ∃ node ∈ gap, LastLine c node) :
      Passed e markup c (some (gap, c')) other

theorem Same.length_eq (h : e.Same m c d) : d.rest.length + 2 = c.rest.length + e.after.length + 1 := by
  obtain ⟨left, -, hc, hd⟩ := h.left
  rw [hc, hd]
  simp only [List.length_append, List.length_cons, List.length_nil]
  omega

theorem Same.two_le (h : e.Same m c d) : 2 ≤ c.rest.length ∧ 1 ≤ d.rest.length := by
  obtain ⟨left, -, hc, hd⟩ := h.left
  rw [hc, hd]
  simp only [List.length_append, List.length_cons, List.length_nil]
  omega

theorem comment_break (markup : Bool) {c : Cursor} (h : c.rest = ['\n', ')']) :
    ∃ c', comment markup c = some (none, c') ∧ c'.rest = [')'] := by
  obtain ⟨rest, pos⟩ := c
  subst h
  cases markup
  · exact ⟨_, rfl, rfl⟩
  · exact ⟨_, rfl, rfl⟩

theorem Same.collect (h : e.Same m c d) (markup : Bool) {bound bound' : List Char}
    (hbound : c.rest.length ≤ bound.length) (hbound' : d.rest.length ≤ bound'.length) :
    e.Passed markup c (collect (comment markup) bound c) (collect (comment markup) bound' d) := by
  induction bound generalizing m c d bound' with
  | nil =>
    have htwo := h.two_le.1
    rw [List.length_nil] at hbound
    omega
  | cons x bound ih =>
    cases bound' with
    | nil =>
      have hone := h.two_le.2
      rw [List.length_nil] at hbound'
      omega
    | cons y bound' =>
      rw [List.length_cons] at hbound hbound'
      cases h.step markup with
      | token hc hd hsame =>
        rw [collect_of_none hc, collect_of_none hd]
        exact .token hsame fun hne => absurd rfl hne
      | finish hc hd hc' hd' =>
        rw [collect_of_none hc, collect_of_none hd]
        exact .finish hc' hd'
      | @runs node c' hc hc' hnode =>
        obtain ⟨c'', hc'', hrest⟩ := comment_break markup hc'
        rw [collect_of_some hc, collect_of_none hc'']
        exact .runs hrest fun hmarkup => ⟨node, List.mem_singleton_self node, hnode hmarkup⟩
      | @inside node c' d' hc hd honward hsame =>
        have hlt := hsame.lt
        have hlength := h.length_eq
        have hlength' := hsame.length_eq
        have hrest : e.Passed markup c' (collect (comment markup) bound c')
            (collect (comment markup) bound' d') := ih hsame (by omega) (by omega)
        rw [collect_of_some hc, collect_of_some hd]
        generalize collect (comment markup) bound c' = found at hrest ⊢
        generalize collect (comment markup) bound' d' = found' at hrest ⊢
        cases hrest with
        | token hsame' =>
          have hlt' := hsame'.lt
          exact .token (hsame'.mono (by omega)) fun _ => Nat.lt_of_lt_of_le hlt' (by omega)
        | finish hc' hd' => exact .finish hc' hd'
        | runs hc' hnode =>
          refine .runs hc' fun hmarkup => ?_
          obtain ⟨last, hlast, hline⟩ := hnode hmarkup
          exact ⟨last, List.mem_cons_of_mem _ hlast, honward.lastLine hline⟩

theorem Same.trivia (h : e.Same m c d) : e.Passed true c (trivia c) (trivia d) :=
  h.collect true le_rfl le_rfl

theorem Same.plainTrivia (h : e.Same m c d) : e.Passed false c (plainTrivia c) (plainTrivia d) :=
  h.collect false le_rfl le_rfl

end Ending

/-! ## Looking ahead -/

theorem nextToken?_eq_collect {bound : List Char} {c : Cursor} (h : c.rest.length ≤ bound.length) :
    c.nextToken? (fun _ => false) bound = collect (comment false) bound c := by
  induction bound generalizing c with
  | nil =>
    obtain ⟨rest, pos⟩ := c
    obtain rfl : rest = [] := List.length_eq_zero_iff.mp (Nat.le_zero.mp h)
    rfl
  | cons first bound ih =>
    rw [Cursor.nextToken?, if_neg Bool.false_ne_true]
    have hstep := Ending.comment_false c
    dsimp only
    cases hcomment : (c.skipWhile isBlank).comment? with
    | none =>
      rw [hcomment] at hstep
      rw [collect_of_none hstep]
    | some found =>
      obtain ⟨node, c'⟩ := found
      rw [hcomment] at hstep
      have hmap : (⟨(c.skipWhile isBlank).rest, (c.skipWhile isBlank).pos⟩ : Cursor).comment?.map
          (·.2.rest) = some c'.rest := congrArg (Option.map (·.2.rest)) hcomment
      have hshorter := length_of_comment? hmap
      have hle : (c.skipWhile isBlank).rest.length ≤ c.rest.length :=
        (List.dropWhile_suffix isBlank).length_le
      rw [List.length_cons] at h
      rw [collect_of_some hstep, ← ih (by omega)]

/-- Where no semicolon is supplied, the next token is the one behind blanks and comments. -/
theorem lookahead_false (c : Cursor) : lookahead false c = some (plainTrivia c, c) :=
  congrArg (fun found => some (found, c)) (nextToken?_eq_collect le_rfl)

/-! ## Markup-style comments -/

theorem dropWhile_dropWhile {p q : Char → Bool} (h : ∀ c, q c = true → p c = true) (text : List Char) :
    (text.dropWhile q).dropWhile p = text.dropWhile p := by
  induction text with
  | nil => rfl
  | cons c text ih =>
    by_cases hc : q c = true
    · rw [List.dropWhile_cons_of_pos hc, List.dropWhile_cons_of_pos (h c hc), ih]
    · rw [List.dropWhile_cons_of_neg hc]

/-- Where a markup-style comment is seen, no other comment comes first. -/
theorem comment_false_of_markup {c : Cursor} {found : Node × Cursor}
    (h : c.markupComment? = some found) :
    ∃ c', comment false c = some (none, c') ∧
      (c'.rest.head? = some '<' ∨ c'.rest.head? = some '-') := by
  have hmark : ((c.skipWhile isSpacing).startsWith "<!--" ||
      (c.skipWhile isSpacing).startsWith "-->") = true := by
    rw [Cursor.markupComment?] at h
    split at h
    · next hmark => exact hmark
    · cases h
  have hrest : (c.skipWhile isBlank).rest = (c.skipWhile isSpacing).rest.dropWhile isBlank :=
    (dropWhile_dropWhile (fun _ => isBlank_of_isSpacing) c.rest).symm
  have hfirst {mark : Char} {rest : List Char} (hblank : isBlank mark = false) (hslash : mark ≠ '/')
      (hc : (c.skipWhile isSpacing).rest = mark :: rest) :
      comment false c = some (none, c.skipWhile isBlank) ∧
        (c.skipWhile isBlank).rest.head? = some mark := by
    rw [hc, List.dropWhile_cons_of_neg (by rw [hblank]; exact Bool.false_ne_true)] at hrest
    have hnone : (c.skipWhile isBlank).comment? = none :=
      Ending.comment?_none_of (by simp [hrest, hslash]) (by simp [hrest, hslash])
    rw [Ending.comment_false, hnone, hrest]
    exact ⟨rfl, rfl⟩
  rcases Bool.or_eq_true_iff.mp hmark with hopen | hclose
  · obtain ⟨rest, hc⟩ := Ending.rest_of_startsWith rfl hopen
    obtain ⟨hstep, hhead⟩ := hfirst (by decide) (by decide) hc
    exact ⟨_, hstep, .inl hhead⟩
  · obtain ⟨rest, hc⟩ := Ending.rest_of_startsWith rfl hclose
    obtain ⟨hstep, hhead⟩ := hfirst (by decide) (by decide) hc
    exact ⟨_, hstep, .inr hhead⟩

/-- Where no markup-style comment follows, it does not matter whether one could be read. -/
theorem trivia_of_plainTrivia {c c' : Cursor} {gap : List Node}
    (h : plainTrivia c = some (gap, c')) (hopen : c'.rest.head? ≠ some '<')
    (hclose : c'.rest.head? ≠ some '-') : trivia c = some (gap, c') := by
  -- a step that finds a comment, or comes to the end, sees no markup-style comment
  have hplain {c d : Cursor} {found : Option Node} (hstep : comment false c = some (found, d))
      (hd : found = none → d = c') : comment true c = some (found, d) := by
    cases hmarkup : c.markupComment? with
    | none => rw [Ending.comment_true hmarkup, hstep]
    | some node =>
      obtain ⟨c'', hnone, hhead⟩ := comment_false_of_markup hmarkup
      cases hstep.symm.trans hnone
      obtain rfl := hd rfl
      exact absurd hhead (not_or_intro hopen hclose)
  have hcollect (bound : List Char) {c : Cursor} {gap : List Node}
      (h : collect (comment false) bound c = some (gap, c')) :
      collect (comment true) bound c = some (gap, c') := by
    induction bound generalizing c gap with
    | nil =>
      rcases exists_of_collect h with ⟨rfl, hlast⟩ | ⟨a, more, d, rfl, hfirst, hrest⟩
      · exact collect_of_none (hplain hlast fun _ => rfl) []
      · rcases hrest with ⟨-, rfl, rfl⟩ | ⟨_, _, hcons, -⟩
        · show (comment true c).bind (fun found => some (found.1.toList, found.2)) = _
          rw [hplain hfirst fun h => absurd h (Option.some_ne_none a)]
          rfl
        · cases hcons
    | cons first bound ih =>
      rcases exists_of_collect h with ⟨rfl, hlast⟩ | ⟨a, more, d, rfl, hfirst, hrest⟩
      · exact collect_of_none (hplain hlast fun _ => rfl) _
      · rcases hrest with ⟨hnil, -⟩ | ⟨_, _, hcons, hmore⟩
        · cases hnil
        cases hcons
        rw [collect_of_some (hplain hfirst fun h => absurd h (Option.some_ne_none a)), ih hmore]
        rfl
  exact hcollect c.rest h

end NotebookCell.Script
