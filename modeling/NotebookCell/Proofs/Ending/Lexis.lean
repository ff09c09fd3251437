import NotebookCell.Proofs.Ending.Follows

/-!
# Tokens before two ends

Tokens of a text do not depend on what stands behind it. Most of them end in front of a stop; a string
or a regular expression ends with a mark of its own, and the text has to have it.

* `follows_trivia`, `follows_plainTrivia`, `follows_lookahead`: what stands between tokens;
* `strict_word`, `strict_string`, `strict_regex`: the tokens.
-/

namespace NotebookCell.Script.Ending

open NotebookCell.Tree NotebookCell.Script.Parser

variable {e : Ending} {α : Type} {c d : Cursor} {m n : Nat}

/-! ## Between tokens -/

theorem lost_of_rest (h : c.rest = [')']) : Lost c := .inr h

theorem rest_of_spent (h : Spent c) : ∃ gap c', plainTrivia c = some (gap, c') ∧ c'.rest = [')'] := by
  obtain ⟨gap, c', hc, hrest, -⟩ := h
  exact ⟨gap, c', hc, hrest⟩

theorem comments_lost (markup : Bool) (h : Lost c) : many (comment markup) c = some ([], c) := by
  obtain ⟨rest, pos⟩ := c
  obtain rfl | rfl : rest = [] ∨ rest = [')'] := h
  · cases markup <;> rfl
  · cases markup <;> rfl

theorem over_plainTrivia (h : Late c) : GivesAt c (fun _ => Lost) plainTrivia := by
  intro gap c' hc'
  rcases h with hlost | hspent
  · cases (comments_lost false hlost).symm.trans hc'
    exact hlost
  · obtain ⟨_, _, hgap, hrest⟩ := rest_of_spent hspent
    cases hgap.symm.trans hc'
    exact lost_of_rest hrest

theorem over_trivia (h : Late c) : GivesAt c (fun _ => Lost) trivia := by
  intro gap c' hc'
  rcases h with hlost | hspent
  · cases (comments_lost true hlost).symm.trans hc'
    exact hlost
  · obtain ⟨_, _, hgap, hrest⟩ := rest_of_spent hspent
    have htrivia := trivia_of_plainTrivia hgap (by simp [hrest]) (by simp [hrest])
    cases htrivia.symm.trans hc'
    exact lost_of_rest hrest

theorem Passed.followsAt {markup : Bool} {p : Parser (List Node)} (h : e.Same m c d)
    (hp : e.Passed markup c (p c) (p d)) : FollowsAt Lost (fun _ => e.Token m) c d p p := by
  intro gap c' hc'
  rw [hc'] at hp
  generalize hother : p d = other at hp
  cases hp with
  | token hsame => exact .inr ⟨_, rfl, hsame.mono h.lt⟩
  | finish hrest => exact .inl (lost_of_rest hrest)
  | runs hrest => exact .inl (lost_of_rest hrest)

theorem follows_trivia : Follows Late Lost (e.Same m) (fun _ => e.Token m) trivia :=
  ⟨fun _ _ h => h.trivia.followsAt h, fun _ => over_trivia⟩

theorem follows_plainTrivia : Follows Late Lost (e.Same m) (fun _ => e.Token m) plainTrivia :=
  ⟨fun _ _ h => h.plainTrivia.followsAt h, fun _ => over_plainTrivia⟩

/-- Where there are comments, something of the text is read. -/
theorem follows_comments :
    Follows Late Lost (e.Same (n + 1)) (fun gap => e.Token (if gap.isEmpty then n + 1 else n)) trivia := by
  refine ⟨fun c d h gap c' hc' => ?_, fun _ => over_trivia⟩
  have hpassed := h.trivia
  rw [hc'] at hpassed
  generalize trivia d = other at hpassed
  cases hpassed with
  | token htoken hread =>
    refine .inr ⟨_, rfl, ?_⟩
    have hlt := h.lt
    cases gap with
    | nil => exact htoken.mono (show c.rest.length + 1 ≤ n + 1 by omega)
    | cons node gap =>
      have hless := hread (List.cons_ne_nil node gap)
      exact ((place_token e).tight htoken).mono (show c'.rest.length + 1 ≤ n by omega)
  | finish hrest => exact .inl (lost_of_rest hrest)
  | runs hrest => exact .inl (lost_of_rest hrest)

/-! ## Looking ahead -/

/-- The parser does not move, and what it yields depends on nothing but the offset. -/
def Quiet (p : Parser α) : Prop :=
  ∀ c d a c', d.pos = c.pos → p c = some (a, c') → c' = c ∧ p d = some (a, d)

theorem quiet_pure (a : α) : Quiet (pure a) := by
  intro c d b c' _ h
  cases h
  exact ⟨rfl, rfl⟩

theorem quiet_failure : Quiet (failure : Parser α) := fun _ _ _ _ _ h => nomatch h

theorem quiet_node (kind : Kind) (start : Nat) (children : List Node) :
    Quiet (node kind start children) := by
  intro c d b c' hpos h
  cases h
  refine ⟨rfl, ?_⟩
  show some (({ kind, start, stop := d.pos, children } : Node), d) = _
  rw [hpos]

theorem closed_close {e : Ending} (h : c.rest = e.close :: e.after) : Closed c := by
  refine .inr ⟨e.after, ?_⟩
  rcases e.closes with hclose | hclose
  · exact .inl (by rw [h, hclose])
  · exact .inr (by rw [h, hclose])

/-- A parser that looks at the next token first, and only goes on if it is there. -/
theorem follows_looking {S : α → Cursor → Cursor → Prop} {p quiet : Parser α}
    {F : List Node → Cursor → Cursor → Option (α × Cursor)} (hquiet : Quiet quiet)
    (hp : ∀ c gap c', plainTrivia c = some (gap, c') → p c = F gap c c')
    (hclosed : ∀ c gap c', Closed c' → F gap c c' = quiet c)
    (hstay : ∀ c d a c', e.Same m c d → quiet c = some (a, c') → S a c d)
    (hgo : ∀ gap c d c' d', e.Same m c d → e.Token m c' d' → ∀ a c'', F gap c c' = some (a, c'') →
      Over c'' ∨ ∃ d'', F gap d d' = some (a, d'') ∧ S a c'' d'') :
    Follows Over Over (e.Same m) S p where
  same c d h a c'' ha := by
    have hpassed := h.plainTrivia
    have hc := hp c
    have hd := hp d
    generalize hfound : plainTrivia c = found at hpassed hc
    generalize plainTrivia d = found' at hpassed hd
    cases hpassed with
    | token hsame =>
      rw [hc _ _ rfl] at ha
      rw [hd _ _ rfl]
      exact hgo _ c d _ _ h (hsame.mono h.lt) a c'' ha
    | finish hrest hrest' =>
      rw [hc _ _ rfl, hclosed _ _ _ (lost_of_rest hrest).closed] at ha
      obtain ⟨rfl, hd'⟩ := hquiet c d a c'' h.pos ha
      refine .inr ⟨d, ?_, hstay _ d a _ h ha⟩
      rw [hd _ _ rfl, hclosed _ _ _ (closed_close hrest'), hd']
    | runs hrest hnode =>
      rw [hc _ _ rfl, hclosed _ _ _ (lost_of_rest hrest).closed] at ha
      obtain ⟨rfl, -⟩ := hquiet c d a c'' h.pos ha
      exact .inl (.inr ⟨_, _, hfound, hrest, hnode rfl⟩)
  beyond c h a c'' ha := by
    obtain ⟨gap, c', hgap, hclose⟩ : ∃ gap c', plainTrivia c = some (gap, c') ∧ Closed c' := by
      rcases h with hgone | hspent
      · exact ⟨[], c, comments_lost false hgone.lost, hgone.lost.closed⟩
      · obtain ⟨gap, c', hgap, hrest⟩ := rest_of_spent hspent
        exact ⟨gap, c', hgap, (lost_of_rest hrest).closed⟩
    rw [hp c gap c' hgap, hclosed c gap c' hclose] at ha
    obtain ⟨rfl, -⟩ := hquiet c c a c'' rfl ha
    exact h

theorem follows_lookahead {S : α → Cursor → Cursor → Prop} {quiet : Parser α}
    {F : Option (List Node × Cursor) → Parser α} (hquiet : Quiet quiet)
    (hclosed : ∀ gap c, Closed c → F (some (gap, c)) = quiet)
    (hstay : ∀ c d a c', e.Same m c d → quiet c = some (a, c') → S a c d)
    (hgo : ∀ gap c d c' d', e.Same m c d → e.Token m c' d' →
      FollowsAt Over S c d (F (some (gap, c'))) (F (some (gap, d')))) :
    Follows Over Over (e.Same m) S (lookahead false >>= F) := by
  refine follows_looking (F := fun gap c c' => F (some (gap, c')) c) hquiet ?_ ?_ hstay hgo
  · intro c gap c' h
    rw [bind_of_eq (lookahead_false c), h]
  · intro c gap c' h
    rw [hclosed gap c' h]

/-- A parser that reads blanks and comments, and goes back if the next token is not there. -/
theorem follows_back {S : α → Cursor → Cursor → Prop} {quiet : Parser α}
    {f : Cursor → List Node → Parser α} (hquiet : Quiet quiet)
    (hclosed : ∀ c gap c', Closed c' → f c gap c' = quiet c)
    (hstay : ∀ c d a c', e.Same m c d → quiet c = some (a, c') → S a c d)
    (hgo : ∀ gap c d c' d', e.Same m c d → e.Token m c' d' →
      FollowsAt Over S c' d' (f c gap) (f d gap)) :
    Follows Over Over (e.Same m) S (get >>= fun c => plainTrivia >>= fun gap => f c gap) := by
  refine follows_looking (F := fun gap c c' => f c gap c') hquiet ?_ hclosed hstay hgo
  intro c gap c' h
  rw [get_bind, bind_of_eq h]

/-! ## Tokens -/

/-- What the parser reads of the text it reads in front of both ends, and it reads something. -/
def Strict (e : Ending) (p : Parser α) : Prop :=
  ∀ n, Follows Lost Gone (e.Same (n + 1)) (fun _ => e.Same n) p

/-- What the parser reads of the text it reads in front of both ends, unless only a line comment
follows; and it reads something. -/
def Loose (e : Ending) (p : Parser α) : Prop :=
  ∀ n, Follows Lost Over (e.Same (n + 1)) (fun _ => e.Same n) p

theorem follows_weak {G H : Cursor → Prop} {p : Parser α}
    (h : ∀ n, Follows G H (e.Same (n + 1)) (fun _ => e.Same n) p) (m : Nat) :
    Follows G H (e.Same m) (fun _ => e.Same m) p where
  same c d hcd a c' ha := by
    have htight : e.Same (c.rest.length + 1) c d := (place_same e).tight hcd
    refine ((h c.rest.length).same c d htight a c' ha).imp_right fun hfound => ?_
    obtain ⟨d', hd', hsame⟩ := hfound
    exact ⟨d', hd', hsame.mono hcd.lt.le⟩
  beyond := (h 0).beyond

section
variable {p : Parser α}

theorem Strict.weak (h : e.Strict p) (m : Nat) : Follows Lost Gone (e.Same m) (fun _ => e.Same m) p :=
  follows_weak h m

theorem Loose.weak (h : e.Loose p) (m : Nat) : Follows Lost Over (e.Same m) (fun _ => e.Same m) p :=
  follows_weak h m

theorem Strict.loose (h : e.Strict p) : e.Loose p := fun n => (h n).within

end

/-- A text is not read where the text between the parentheses is over. -/
theorem over_literal {text : String} (htext : text.toList ≠ []) (h : Lost c) :
    GivesAt c (fun _ => Gone) (literal text) := by
  intro a c' hc'
  rw [literal, get_bind] at hc'
  cases hstarts : c.startsWith text with
  | false =>
    rw [hstarts] at hc'
    cases hc'
  | true =>
    rw [hstarts] at hc'
    cases hc'
    obtain ⟨mark, marks, hmarks⟩ := List.exists_cons_of_ne_nil htext
    have hlength : text.length = marks.length + 1 := by
      rw [← String.length_toList, hmarks, List.length_cons]
    obtain ⟨rest, hrest⟩ := rest_of_startsWith hmarks hstarts
    rcases h with hc | hc
    · cases hc.symm.trans hrest
    · show c.rest.drop text.length = []
      rw [hc, hlength, List.drop_succ_cons, List.drop_nil]

/-- A text that both readings see is read in both. -/
theorem followsAt_literal {H : Cursor → Prop} {text : String}
    (htext : text.toList.all (· != '\n') = true) (hne : text.toList ≠ []) (h : e.Same (n + 1) c d)
    (hstarts : d.startsWith text = c.startsWith text) :
    FollowsAt H (fun _ => e.Same n) c d (literal text) (literal text) := by
  intro a c' hc'
  rw [literal, get_bind] at hc' ⊢
  rw [hstarts]
  cases hc : c.startsWith text with
  | false =>
    rw [hc] at hc'
    cases hc'
  | true =>
    rw [hc] at hc'
    cases hc'
    refine .inr ⟨_, rfl, ?_⟩
    have hpos := List.length_pos_of_ne_nil hne
    rw [String.length_toList] at hpos
    have hlt := h.lt
    refine h.skip ?_ (by omega)
    -- the text has no line break, so it ends in front of the one behind it
    obtain ⟨left, -, hrest, -⟩ := h.left
    rw [Cursor.startsWith, List.isPrefixOf_iff_prefix, hrest] at hc
    have hle : text.toList.length ≤ left.length := by
      by_contra hlong
      have hbreak : left ++ ['\n'] <+: text.toList := by
        refine List.prefix_of_prefix_length_le ?_ hc (by simp; omega)
        exact ⟨[')'], by simp⟩
      have hmem : '\n' ∈ text.toList := hbreak.subset (by simp)
      have hnot := List.all_eq_true.mp htext '\n' hmem
      cases hnot
    rw [hrest, List.length_append, ← String.length_toList]
    exact Nat.add_le_add_right hle 2

theorem noBreak_of_noStop {text : List Char} (h : text.all (!isStop ·) = true) :
    text.all (· != '\n') = true := by
  rw [List.all_eq_true] at h ⊢
  intro c hc
  have hstop := h c hc
  rw [bne_iff_ne]
  rintro rfl
  cases hstop

theorem strict_literal {text : String} (htext : text.toList.all (!isStop ·) = true)
    (hne : text.toList ≠ []) : e.Strict (literal text) := fun _ =>
  ⟨fun _ _ h => followsAt_literal (noBreak_of_noStop htext) hne h (h.startsWith_eq htext), fun _ =>
    over_literal hne⟩

/-- What is read of the text is read in both readings. -/
theorem Same.exists_literal (h : e.Same m c d) {text : String} (htext : text.toList.all (!isStop ·) = true)
    (hne : text.toList ≠ []) {c' : Cursor} (hc : literal text c = some ((), c')) :
    ∃ d', literal text d = some ((), d') ∧ e.Same m c' d' := by
  have hfollows : FollowsAt (fun _ => False) (fun _ => e.Same m) c d (literal text) (literal text) :=
    followsAt_literal (noBreak_of_noStop htext) hne (h.mono (Nat.le_succ m)) (h.startsWith_eq htext)
  exact (hfollows _ _ hc).resolve_left id

/-- A closing mark is read in front of a token. -/
theorem follows_close {text : String} {mark : Char} (htext : text.toList = [mark]) (hmark : mark ≠ '\n') :
    Follows Lost Gone (e.Token m) (fun _ => e.Same m) (literal text) := by
  have hne : text.toList ≠ [] := by simp [htext]
  have hbreak : text.toList.all (· != '\n') = true := by simp [htext, hmark]
  refine ⟨fun c d h => ?_, fun c => over_literal hne⟩
  exact followsAt_literal hbreak hne (h.toSame.mono (Nat.le_succ m)) (h.startsWith_eq htext)

/-- A token whose length is the same in front of both ends. -/
theorem strict_lexeme {length : List Char → Nat} (kind : Kind)
    (hlength : ∀ m c d, e.Same m c d →
      length d.rest = length c.rest ∧ length c.rest + 2 ≤ c.rest.length)
    (hlost : length [] = 0 ∧ length [')'] = 0) :
    e.Strict (do
      let c ← get
      require (length c.rest != 0)
      set (c.skip (length c.rest))
      return ({ kind, start := c.pos, stop := (c.skip (length c.rest)).pos } : Node)) := by
  intro n
  constructor
  · intro c d h a c' hc'
    obtain ⟨heq, hle⟩ := hlength _ c d h
    rw [get_bind] at hc' ⊢
    cases hzero : (length c.rest != 0) with
    | false =>
      rw [hzero] at hc'
      cases hc'
    | true =>
      rw [hzero] at hc'
      cases hc'
      have hpos : length c.rest ≠ 0 := by simpa using hzero
      have hlt := h.lt
      have hsame : e.Same n (c.skip (length c.rest)) (d.skip (length c.rest)) :=
        h.skip hle (by omega)
      refine .inr ⟨d.skip (length c.rest), ?_, hsame⟩
      rw [heq, hzero, h.pos, hsame.pos]
      rfl
  · intro c h a c' hc'
    rw [get_bind] at hc'
    have hzero : length c.rest = 0 := by
      rcases h with hc | hc
      · rw [hc, hlost.1]
      · rw [hc, hlost.2]
    rw [hzero] at hc'
    cases hc'

theorem strict_word (kind : Kind) : e.Strict (word kind) :=
  strict_lexeme kind (fun _ _ _ h => h.wordLength_eq) ⟨rfl, rfl⟩

theorem exponentLength_le (text : List Char) : exponentLength text ≤ text.length := by
  cases text with
  | nil => exact le_rfl
  | cons c text =>
    rw [exponentLength]
    generalize (if text.head? == some '+' || text.head? == some '-' then 1 else 0) = sign
    have hrun := digitRun_le Char.isDigit (text.drop sign)
    rw [List.length_drop] at hrun
    rw [List.length_cons]
    split
    · dsimp only
      split
      · exact Nat.zero_le _
      · next hdigits =>
        have hpos : digitRun Char.isDigit (text.drop sign) ≠ 0 := by simpa using hdigits
        omega
    · exact Nat.zero_le _

/-- A number and the suffix of a big integer. -/
theorem suffix_le (p : Bool) (text : List Char) {digits : Nat} (hdigits : digits ≤ text.length) :
    digits + (if p && (text.drop digits).head? == some 'n' then 1 else 0) ≤ text.length := by
  split
  · next h =>
    rw [Bool.and_eq_true, beq_iff_eq] at h
    have hne : text.drop digits ≠ [] := by
      intro hnil
      rw [hnil] at h
      cases h.2
    have hpos := List.length_pos_of_ne_nil hne
    rw [List.length_drop] at hpos
    omega
  · exact hdigits

theorem basedLength_le (mark : Char) (digit : Char → Bool) (text : List Char) :
    basedLength mark digit text ≤ text.length := by
  rw [basedLength.eq_def]
  split
  · next m text =>
    split
    · dsimp only
      have hsuffix := suffix_le true text (digitRun_le digit text)
      rw [Bool.true_and] at hsuffix
      rw [List.length_cons, List.length_cons]
      split
      · exact Nat.zero_le _
      · omega
    · exact Nat.zero_le _
  · exact Nat.zero_le _

theorem fractionLength_le (text : List Char) : fractionLength text ≤ text.length := by
  have hwhole := integerPartLength_le text
  rw [fractionLength]
  dsimp only
  generalize hrest : text.drop (integerPartLength text) = rest
  have hlength := congrArg List.length hrest
  rw [List.length_drop] at hlength
  split
  · next hpoint =>
    obtain ⟨rest, rfl⟩ := List.head?_eq_some_iff.mp (beq_iff_eq.mp hpoint)
    have hrun := digitRun_le Char.isDigit rest
    have hexponent := exponentLength_le (rest.drop (digitRun Char.isDigit rest))
    rw [List.length_drop] at hexponent
    rw [List.length_cons] at hlength
    rw [List.drop_succ_cons, List.drop_zero, Nat.add_comm 1, List.drop_succ_cons]
    split
    · exact Nat.zero_le _
    · omega
  · have hexponent := exponentLength_le rest
    split
    · exact Nat.zero_le _
    · omega

theorem numberLength_le (text : List Char) : numberLength text ≤ text.length := by
  have hplain : plainLength text ≤ text.length := suffix_le _ text (digitRun_le Char.isDigit text)
  simp only [numberLength, List.foldl_cons, List.foldl_nil, Nat.max_le, Nat.zero_le, true_and]
  exact ⟨⟨⟨⟨basedLength_le _ _ _, basedLength_le _ _ _⟩, basedLength_le _ _ _⟩,
    fractionLength_le _⟩, hplain⟩

theorem strict_number : e.Strict number := by
  refine strict_lexeme .number (fun m c d h => ?_) ⟨rfl, rfl⟩
  obtain ⟨left, -, hc, hd⟩ := h.left
  rw [hc, hd, numberLength_append_stop e.isStop_close, List.length_append,
    numberLength_append_stop (show isStop '\n' = true from rfl)]
  exact ⟨rfl, Nat.add_le_add_right (numberLength_le left) 2⟩

theorem strict_name (kind : Kind) : e.Strict (name kind) := by
  intro n
  refine Follows.must (t := fun c => !reservedWords.contains c.word) ?_ (strict_word kind n)
  intro c d h
  rw [h.word_eq]

theorem strict_keyword {text : String} (htext : text.toList.all (!isStop ·) = true)
    (hne : text.toList ≠ []) : e.Strict (keyword text) := by
  intro n
  refine Follows.must (t := fun c => c.seesWord text) ?_ (strict_literal htext hne n)
  exact fun c d h => h.seesWord_eq text

theorem strict_privateName : e.Strict privateName := by
  intro n
  show Follows Lost Gone _ _ (position >>= fun start => literal "#" >>= fun _ =>
    word .privatePropertyIdentifier >>= fun node => pure { node with start })
  exact .start fun _ => (strict_literal rfl (by decide) n).bind fun _ =>
    ((strict_word _).weak n).bind fun _ => follows_pure _

/-! ### Strings -/

theorem suffix_of_comment? {node : Node} {c' : Cursor} (h : c.comment? = some (node, c')) :
    c'.rest <:+ c.rest := by
  rcases rest_of_comment? h with ⟨body, hrest, -⟩ | ⟨body, hrest, -⟩
  · exact ⟨'/' :: '/' :: body, hrest.symm⟩
  · exact ⟨'/' :: '*' :: body, hrest.symm⟩

/-- A string ends with its quote. -/
theorem quote_suffix {quote : Char} {bound : List Char} {c' : Cursor}
    (h : stringEnd? quote bound c = some c') : quote :: c'.rest <:+ c.rest := by
  induction bound generalizing c with
  | nil => cases h
  | cons x bound ih =>
    have hskip (n : Nat) (h : stringEnd? quote bound (c.skip n) = some c') :
        quote :: c'.rest <:+ c.rest :=
      (ih h).trans (List.drop_suffix n c.rest)
    rw [stringEnd?] at h
    split at h
    · cases h
    · next first text hrest =>
      split at h
      · next hquote =>
        cases h
        rw [beq_iff_eq] at hquote
        rw [Cursor.skip, hrest, hquote]
        exact List.suffix_rfl
      · split at h
        · split at h
          · cases h
          · exact hskip _ h
        · split at h
          · dsimp only at h
            have hblank : (c.skipWhile isBlank).rest <:+ c.rest := List.dropWhile_suffix isBlank
            split at h
            · next hcomment => exact ((ih h).trans (suffix_of_comment? hcomment)).trans hblank
            · split at h
              · next hhead =>
                cases h
                obtain ⟨rest, hafter⟩ := List.head?_eq_some_iff.mp (beq_iff_eq.mp hhead)
                rw [hafter] at hblank
                rw [Cursor.skip, hafter]
                exact hblank
              · cases h
          · exact hskip _ h

/-- What ends with a mark of its own ends inside the text. -/
theorem Same.two_le_of_suffix (h : e.Same m c d) {mark : Char} {rest : List Char}
    (hbreak : mark ≠ '\n') (hclose : mark ≠ ')') (hrest : mark :: rest <:+ c.rest) :
    2 ≤ rest.length := by
  obtain ⟨left, -, hc, -⟩ := h.left
  rw [hc] at hrest
  by_contra hshort
  have hend : mark :: rest <:+ ['\n', ')'] :=
    List.suffix_of_suffix_length_le hrest (List.suffix_append left _) (by
      rw [List.length_cons, List.length_cons, List.length_singleton]
      omega)
  rcases List.suffix_cons_iff.mp hend with heq | hend
  · exact hbreak (List.cons.inj heq).1
  · rcases List.suffix_cons_iff.mp hend with heq | hend
    · exact hclose (List.cons.inj heq).1
    · cases List.suffix_nil.mp hend

theorem byteLength_replicate (length : Nat) : byteLength (List.replicate length 'a') = length := by
  induction length with
  | zero => rfl
  | succ length ih =>
    rw [List.replicate_succ, byteLength, ih, Nat.add_comm]
    rfl

/-- What does the same at two places of a text moves forward in it. -/
theorem related_of_reads {A : Suffix → α → α → Prop} {p : Parser α} {a : α} {c' : Cursor}
    (hreads : ∀ t m, Suffix.Reads t m m (A t) p p) (h : p c = some (a, c')) :
    Onward c c' ∧ ∃ t b, A t a b := by
  have hinside : (⟨List.replicate c.pos 'a' ++ c.rest, 0⟩ : Suffix).Inside (c.rest.length + 1) c :=
    ⟨⟨_, rfl, byteLength_replicate c.pos⟩, Nat.lt_succ_self _⟩
  obtain ⟨b, -, hab, hinside'⟩ := (hreads _ _).eq_some hinside h
  exact ⟨hinside.exists_append hinside', _, b, hab⟩

theorem onward_of_reads {A : Suffix → α → α → Prop} {p : Parser α} {a : α} {c' : Cursor}
    (hreads : ∀ t m, Suffix.Reads t m m (A t) p p) (h : p c = some (a, c')) : Onward c c' :=
  (related_of_reads hreads h).1

theorem onward_string {node : Node} {c' : Cursor} (h : Parser.string c = some (node, c')) :
    Onward c c' ∧ node = { kind := .string, start := c.pos, stop := c'.pos } := by
  obtain ⟨quote, text, hrest, hquote, hend⟩ := exists_of_string h
  have heq := h.symm.trans (Suffix.string_of_stringEnd? hrest hquote hend)
  have hreads (t : Suffix) (m : Nat) :
      t.Reads m m (t.Token .string StringAt) Parser.string Parser.string :=
    .inner fun _ _ => Suffix.reads_string
  exact ⟨onward_of_reads hreads h, (Prod.mk.inj (Option.some.inj heq)).1⟩

theorem Same.append_eq (h : e.Same m c d) {lexeme rest : List Char} (hrest : c.rest = lexeme ++ rest)
    (hinside : 2 ≤ rest.length) : d.rest = lexeme ++ (d.skip lexeme.length).rest := by
  have hlength := congrArg List.length hrest
  rw [List.length_append] at hlength
  have htake := h.take_eq (n := lexeme.length) (by omega)
  rw [hrest, List.take_left] at htake
  rw [Cursor.skip]
  nth_rewrite 1 [← List.take_append_drop lexeme.length d.rest]
  rw [htake]

theorem strict_string : e.Strict Parser.string := by
  intro n
  constructor
  · intro c d h node c' hc'
    obtain ⟨⟨lexeme, hrest, hpos⟩, rfl⟩ := onward_string hc'
    obtain ⟨quote, text, htext, hquote, hend⟩ := exists_of_string hc'
    have hlast : quote :: c'.rest <:+ c.rest :=
      (quote_suffix hend).trans (List.drop_suffix 1 c.rest)
    have hinside : 2 ≤ c'.rest.length := by
      refine h.two_le_of_suffix ?_ ?_ hlast <;> rintro rfl <;> cases hquote
    have hsame := h.advance hrest hpos hinside
    have hd := h.append_eq hrest hinside
    have hlength := length_of_stringEnd? hend
    have hlt := h.lt
    rw [Cursor.skip, List.length_drop] at hlength
    -- the string has the same characters in both readings, so it ends at the same place
    rw [show c = ⟨lexeme ++ c'.rest, c.pos⟩ by rw [← hrest]] at hc'
    obtain ⟨node, stop, hstring⟩ := string_append hc' (d.skip lexeme.length).rest d.pos
    rw [← hd] at hstring
    obtain ⟨⟨lexeme', hrest', hpos'⟩, rfl⟩ := onward_string hstring
    obtain rfl : lexeme = lexeme' := List.append_cancel_right (hd.symm.trans hrest')
    have hstop : stop = (d.skip lexeme.length).pos := by
      rw [hsame.pos, hpos, ← h.pos]
      exact hpos'
    subst hstop
    refine .inr ⟨d.skip lexeme.length, ?_, hsame.mono (by omega)⟩
    rw [← h.pos, ← hsame.pos]
    exact hstring
  · intro c h node c' hc'
    obtain ⟨quote, text, hrest, hquote, -⟩ := exists_of_string hc'
    rcases h with hc | hc
    · cases hc.symm.trans hrest
    · cases hc.symm.trans hrest
      cases hquote

/-! ### Regular expressions -/

theorem regexClassLength_other {c : Char} (hclose : c ≠ ']') (hescape : c ≠ '\\') (text : List Char) :
    regexClassLength (c :: text) =
      if c == '\n' then none else (regexClassLength text).map (· + 1) := by
  rw [regexClassLength.eq_def]
  split
  · next h => exact absurd (List.cons.inj h).1 hclose
  · next h => exact absurd (List.cons.inj h).1 hescape
  · next h =>
    obtain ⟨rfl, rfl⟩ := List.cons.inj h
    rw [beq_false_of_ne hescape, Bool.or_false]
  · next h => cases h

/-- A class that is closed on its line is as long before any other text. -/
theorem regexClassLength_append {text rest : List Char} {length : Nat}
    (h : regexClassLength (text ++ '\n' :: rest) = some length) :
    length ≤ text.length ∧ ∀ other, regexClassLength (text ++ other) = some length := by
  obtain ⟨size, hsize⟩ : ∃ size, text.length = size := ⟨_, rfl⟩
  -- an escape takes two characters, so the induction is on the length of the text
  induction size using Nat.strongRecOn generalizing text length with
  | ind size ih =>
  cases text with
  | nil => cases h
  | cons c text =>
    rw [List.length_cons] at hsize ⊢
    by_cases hclose : c = ']'
    · subst hclose
      cases h
      exact ⟨Nat.succ_le_succ (Nat.zero_le _), fun _ => rfl⟩
    by_cases hescape : c = '\\'
    · subst hescape
      cases text with
      | nil => cases h
      | cons d text =>
        replace h : (if d == '\n' then none else
          (regexClassLength (text ++ '\n' :: rest)).map (· + 2)) = some length := h
        split at h
        · cases h
        · next hbreak =>
          obtain ⟨shorter, hshorter, rfl⟩ := Option.map_eq_some_iff.mp h
          rw [List.length_cons] at hsize ⊢
          obtain ⟨hle, hother⟩ := ih text.length (by omega) hshorter rfl
          refine ⟨by omega, fun other => ?_⟩
          show (if d == '\n' then none else (regexClassLength (text ++ other)).map (· + 2)) = _
          rw [if_neg hbreak, hother, Option.map_some]
    · rw [List.cons_append, regexClassLength_other hclose hescape] at h
      split at h
      · cases h
      · next hbreak =>
        obtain ⟨shorter, hshorter, rfl⟩ := Option.map_eq_some_iff.mp h
        obtain ⟨hle, hother⟩ := ih text.length (by omega) hshorter rfl
        refine ⟨by omega, fun other => ?_⟩
        rw [List.cons_append, regexClassLength_other hclose hescape, if_neg hbreak, hother,
          Option.map_some]

/-- The number of characters of the first unit in the body of a regular expression. -/
def regexUnit (c : Char) (text : List Char) : Nat :=
  if c == '[' then ((regexClassLength text).map (· + 1)).getD 0
  else if c == '\\' then
    match text with
    | d :: _ => if d == '\n' then 0 else 2
    | [] => 0
  else if c == '/' || c == '\n' then 0
  else 1

theorem regexBodyLength_cons (x c : Char) (bound text : List Char) :
    regexBodyLength (x :: bound) (c :: text) =
      if regexUnit c text == 0 then 0
      else regexUnit c text + regexBodyLength bound ((c :: text).drop (regexUnit c text)) := rfl

theorem regexUnit_other {c : Char} (hclass : c ≠ '[') (hescape : c ≠ '\\') (text : List Char) :
    regexUnit c text = if c == '/' || c == '\n' then 0 else 1 := by
  unfold regexUnit
  rw [beq_false_of_ne hclass, beq_false_of_ne hescape]
  rfl

theorem regexUnit_append {c : Char} {text rest : List Char}
    (h : regexUnit c (text ++ '\n' :: rest) ≠ 0) :
    regexUnit c (text ++ '\n' :: rest) ≤ text.length + 1 ∧
      ∀ other, regexUnit c (text ++ other) = regexUnit c (text ++ '\n' :: rest) := by
  by_cases hclass : c = '['
  · subst hclass
    have hunit (text : List Char) :
        regexUnit '[' text = ((regexClassLength text).map (· + 1)).getD 0 := rfl
    rw [hunit] at h ⊢
    cases hlength : regexClassLength (text ++ '\n' :: rest) with
    | none =>
      rw [hlength] at h
      exact absurd rfl h
    | some length =>
      obtain ⟨hle, hother⟩ := regexClassLength_append hlength
      refine ⟨Nat.succ_le_succ hle, fun other => ?_⟩
      rw [hunit, hother]
  by_cases hescape : c = '\\'
  · subst hescape
    cases text with
    | nil => exact absurd rfl h
    | cons d text =>
      have hunit (text : List Char) :
          regexUnit '\\' (d :: text) = if d == '\n' then 0 else 2 := rfl
      rw [List.cons_append, hunit] at h ⊢
      split at h
      · exact absurd rfl h
      · next hbreak =>
        rw [if_neg hbreak, List.length_cons]
        refine ⟨by omega, fun other => ?_⟩
        rw [List.cons_append, hunit, if_neg hbreak]
  · rw [regexUnit_other hclass hescape] at h ⊢
    split at h
    · exact absurd rfl h
    · next hend =>
      rw [if_neg hend]
      refine ⟨by omega, fun other => ?_⟩
      rw [regexUnit_other hclass hescape, if_neg hend]

/-- The body of a regular expression is as long before any other text, if a slash follows. -/
theorem regexBodyLength_append {left rest bound bound' : List Char}
    (hslash : ((left ++ '\n' :: rest).drop
      (regexBodyLength bound (left ++ '\n' :: rest))).head? = some '/')
    (hbound : left.length < bound.length) (hbound' : left.length < bound'.length)
    (other : List Char) :
    regexBodyLength bound (left ++ '\n' :: rest) < left.length ∧
      regexBodyLength bound' (left ++ other) = regexBodyLength bound (left ++ '\n' :: rest) := by
  obtain ⟨size, hsize⟩ : ∃ size, left.length = size := ⟨_, rfl⟩
  induction size using Nat.strongRecOn generalizing left bound bound' with
  | ind size ih =>
  match left, bound, bound' with
  | _, [], _ => cases hbound
  | _, _ :: _, [] => cases hbound'
  | [], x :: bound, _ :: _ => cases hslash
  | c :: left, x :: bound, y :: bound' =>
    rw [List.cons_append, regexBodyLength_cons] at hslash ⊢
    rw [List.cons_append, regexBodyLength_cons]
    simp only [List.length_cons] at hbound hbound' hsize
    by_cases hzero : regexUnit c (left ++ '\n' :: rest) = 0
    · rw [hzero] at hslash ⊢
      obtain rfl : c = '/' := Option.some.inj hslash
      exact ⟨Nat.succ_pos _, rfl⟩
    · obtain ⟨hle, hother⟩ := regexUnit_append hzero
      have hunit : (regexUnit c (left ++ '\n' :: rest) == 0) = false := by simpa using hzero
      have hdrop (tail : List Char) :
          (c :: (left ++ tail)).drop (regexUnit c (left ++ '\n' :: rest)) =
            (c :: left).drop (regexUnit c (left ++ '\n' :: rest)) ++ tail := by
        rw [← List.cons_append, List.drop_append_of_le_length hle]
      rw [hunit, hdrop, if_neg Bool.false_ne_true] at hslash ⊢
      rw [hother other, hunit, hdrop, if_neg Bool.false_ne_true, List.length_cons]
      rw [← List.drop_drop, hdrop] at hslash
      have hlength := List.length_drop (i := regexUnit c (left ++ '\n' :: rest)) (l := c :: left)
      rw [List.length_cons] at hlength
      obtain ⟨hlt, heq⟩ := ih _ (by omega) hslash (by omega) (show _ < bound'.length by omega) rfl
      exact ⟨by omega, by rw [heq]⟩

theorem Same.skipWhile_stop (h : e.Same m c d) {p : Char → Bool} (hbreak : p '\n' = false)
    (hclose : p ')' = false) (hbrace : p '\x7d' = false) : e.Same m (c.skipWhile p) (d.skipWhile p) := by
  obtain ⟨left, -, hc, hd⟩ := h.left
  have hstop : p e.close = false := not_of_isStop e.isStop_close hbreak hclose hbrace
  have hle := (List.takeWhile_prefix (l := left) p).length_le
  rw [Suffix.skipWhile_eq_skip, Suffix.skipWhile_eq_skip, hc, hd, takeWhile_append_stop hbreak,
    takeWhile_append_stop hstop]
  have hlt := h.lt
  refine h.skip ?_ (by omega)
  rw [hc, List.length_append]
  exact Nat.add_le_add_right hle 2

theorem rest_of_literal {text : String} {c' : Cursor} (h : literal text c = some ((), c')) :
    c.startsWith text = true ∧ c' = c.skip text.length := by
  rw [literal, get_bind] at h
  cases hstarts : c.startsWith text with
  | false =>
    rw [hstarts] at h
    cases h
  | true =>
    rw [hstarts] at h
    cases h
    exact ⟨rfl, rfl⟩

/-- The body of a regular expression with the slash behind it, and what follows. -/
theorem follows_regexBody {H : Cursor → Prop} {S : α → Cursor → Cursor → Prop} {p : Parser α}
    (hp : Follows Gone H (e.Same n) S p) :
    Follows Lost H (e.Same n) S (do
      let body ← get
      require (regexBodyLength body.rest body.rest != 0)
      set (body.skip (regexBodyLength body.rest body.rest))
      literal "/"
      p) := by
  constructor
  · intro c d h a c' hc'
    rw [get_bind] at hc' ⊢
    cases hzero : (regexBodyLength c.rest c.rest != 0) with
    | false =>
      rw [hzero] at hc'
      cases hc'
    | true =>
      rw [hzero] at hc'
      have hbehind : (literal "/" >>= fun _ => p) (c.skip (regexBodyLength c.rest c.rest)) =
          some (a, c') := hc'
      obtain ⟨_, _, hslash, -⟩ := exists_of_bind hbehind
      obtain ⟨rest, hrest⟩ := rest_of_startsWith rfl (rest_of_literal hslash).1
      have hhead : (c.rest.drop (regexBodyLength c.rest c.rest)).head? = some '/' :=
        congrArg List.head? hrest
      obtain ⟨left, -, hc, hd⟩ := h.left
      have hshort : left.length < c.rest.length ∧ left.length < d.rest.length := by
        rw [hc, hd]
        simp only [List.length_append, List.length_cons]
        omega
      have hlength : regexBodyLength c.rest c.rest < left.length ∧
          regexBodyLength d.rest d.rest = regexBodyLength c.rest c.rest := by
        rw [hc] at hhead hshort ⊢
        rw [hd] at hshort ⊢
        exact regexBodyLength_append hhead hshort.1 hshort.2 _
      have hsame : e.Same n (c.skip (regexBodyLength c.rest c.rest))
          (d.skip (regexBodyLength c.rest c.rest)) := by
        have hlt := h.lt
        have hsize := congrArg List.length hc
        simp only [List.length_append, List.length_cons, List.length_nil] at hsize
        exact h.skip (by omega) (by omega)
      have hfollows : Follows Lost H (e.Same n) S (literal "/" >>= fun _ => p) :=
        ((strict_literal rfl (by decide)).weak n).bind fun _ => hp
      rw [hlength.2, hzero]
      exact hfollows.same _ _ hsame _ _ hbehind
  · intro c h a c' hc'
    rw [get_bind] at hc'
    obtain ⟨rest, pos⟩ := c
    obtain rfl | rfl : rest = [] ∨ rest = [')'] := h
    · cases hc'
    · cases hc'

theorem follows_flags (start : Nat) :
    Follows Gone Gone (e.Same n) (fun _ => e.Same n) (do
      let after := (← get).skipWhile (inRange 0x61 0x7a)
      set after
      return ({ kind := .regex, start, stop := after.pos } : Node)) := by
  constructor
  · intro c d h node c' hc'
    have hsame : e.Same n (c.skipWhile (inRange 0x61 0x7a)) (d.skipWhile (inRange 0x61 0x7a)) :=
      h.skipWhile_stop rfl rfl rfl
    cases hc'
    refine .inr ⟨_, ?_, hsame⟩
    show some (_, _) = some (_, _)
    rw [hsame.pos]
  · intro c h node c' hc'
    cases hc'
    show c.rest.dropWhile _ = []
    rw [show c.rest = [] from h]
    rfl

theorem strict_regex : e.Strict regex := by
  intro n
  show Follows Lost Gone _ _ (position >>= fun start => literal "/" >>= fun _ => do
    let body ← get
    require (regexBodyLength body.rest body.rest != 0)
    set (body.skip (regexBodyLength body.rest body.rest))
    literal "/"
    let after := (← get).skipWhile (inRange 0x61 0x7a)
    set after
    return ({ kind := .regex, start, stop := after.pos } : Node))
  refine .start fun start => (strict_literal rfl (by decide) n).bind fun _ => ?_
  exact (follows_regexBody (follows_flags start)).within

/-! ## First characters -/

/-- A parser that only looks at the first character. -/
theorem follows_head {H : Cursor → Prop} {S : α → Cursor → Cursor → Prop} {f : Option Char → Parser α}
    (hf : ∀ first, Follows Lost H (e.Same m) S (f (some first))) (hnone : f none = failure)
    (hbreak : ∀ c, c.rest = ['\n', ')'] → f (some '\n') c = none) :
    Follows Lost H (e.Same m) S (get >>= fun c => f c.rest.head?) where
  same c d h := by
    show FollowsAt H S c d (f c.rest.head?) (f d.rest.head?)
    obtain ⟨left, -, hc, hd⟩ := h.left
    cases left with
    | nil =>
      refine .refused ?_
      rw [hc]
      exact hbreak c hc
    | cons first left =>
      rw [hc, hd]
      exact (hf first).same c d h
  beyond c h := by
    refine givesAt_get ?_
    rcases h with hc | hc
    · rw [hc]
      show GivesAt c _ (f none)
      rw [hnone]
      exact givesAt_failure
    · have hover := (hf ')').beyond c (.inr hc)
      rwa [hc]

end NotebookCell.Script.Ending
