import NotebookCell.Proofs.Ending.Lexis
import NotebookCell.Proofs.Reading.Expression

/-!
# Lists and templates before two ends

Lists between brackets, expressions in a row and templates. Each is about entry points whose readings
of the text do not depend on its end (`Ending.Subs`).
-/

namespace NotebookCell.Script.Ending

open NotebookCell.Tree NotebookCell.Script.Parser

/-- The entry points read the text in front of both ends. -/
structure Subs (e : Ending) (sub : Parsers) : Prop where
  expression : ∀ level, e.Loose (sub.expression level false)
  construct : e.Loose (sub.construct false)
  markup : e.Strict sub.markup
  self : ∀ t n, Suffix.Subs t n n sub sub
  /-- Where `new.target` is read there is no construction. -/
  target : ∀ c start found, (keyword "new" >>= fun _ => metaRest start "target") c = some found →
    sub.construct false c = none
  /-- No default stands behind a bracket. -/
  bracket : ∀ c, c.rest <:+ e.text ++ ['\n', ')'] → c.rest.head? = some '[' →
    patternDefault sub c = none

variable {e : Ending} {sub : Parsers} {α : Type} {c d : Cursor} {m n : Nat}

/-! ## Lists between brackets -/

theorem closed_startsWith (h : Closed c) {text : String} {mark : Char} {marks : List Char}
    (htext : text.toList = mark :: marks) (hmark : isStop mark = false) :
    c.startsWith text = false := by
  rw [Bool.eq_false_iff]
  intro hstarts
  obtain ⟨rest, hrest⟩ := rest_of_startsWith htext hstarts
  rcases h with hc | ⟨_, hc | hc⟩
  · cases hc.symm.trans hrest
  · cases hc.symm.trans hrest
    cases hmark
  · cases hc.symm.trans hrest
    cases hmark

/-- What stands behind an element of a list. -/
def elementEnd (close : String) (node : Node) : Parser (Option (List (Option Node))) := do
  let gap ← plainTrivia
  let c ← get
  require (c.startsWith "," || c.startsWith close)
  return some (some node :: gap.map some)

theorem follows_elementEnd {close : String} {mark : Char} (hclose : close.toList = [mark])
    (node : Node) : Follows Late Lost (e.Same n) (Stepwise e.Token n) (elementEnd close node) := by
  refine follows_plainTrivia.bind fun gap => ?_
  refine Follows.must (t := fun c => c.startsWith "," || c.startsWith close) ?_
    (follows_return fun _ _ h => h)
  intro c d h
  have hcomma : d.startsWith "," = c.startsWith "," := h.startsWith_eq rfl
  rw [hcomma, h.startsWith_eq hclose]

/-- An element in front of a list's end, whichever way the text may be over behind it. -/
def Elements (e : Ending) (close : String) (element : Parser Node) : Prop :=
  ∃ H : Cursor → Prop, (∀ n, Follows Lost H (e.Same (n + 1)) (fun _ => e.Same n) element) ∧
    ∀ c node, H c → GivesAt c (fun _ => Lost) (elementEnd close node)

theorem Loose.elements {element : Parser Node} (h : e.Loose element) {close : String} {mark : Char}
    (hclose : close.toList = [mark]) : e.Elements close element :=
  ⟨Over, h, fun c node hc =>
    (follows_elementEnd (e := e) (n := 0) hclose node).beyond c (Within.imp c hc)⟩

theorem follows_listStep {close : String} {mark : Char} (hclose : close.toList = [mark])
    {element : Parser Node} (helement : e.Elements close element) :
    Follows Lost Lost (e.Token (n + 1)) (Stepwise e.Token n) (listStep close element) := by
  obtain ⟨H, hread, hend⟩ := helement
  refine .test₂ (fun c d h => h.startsWith_eq hclose) (fun c d h => h.startsWith_eq rfl) ?_ ?_ ?_
  · exact follows_return fun _ _ h => h
  · refine Follows.bind ((strict_literal rfl (by decide) n).from fun _ _ => Token.toSame) fun _ => ?_
    exact follows_trivia.bind fun _ => follows_return fun _ _ h => h
  · refine Follows.bind ((hread n).from fun _ _ => Token.toSame) fun node => ?_
    exact ⟨(follows_elementEnd hclose node).same, fun c => hend c node⟩

theorem strict_commaList {opening close : String} {mark : Char}
    (hopening : opening.toList.all (!isStop ·) = true) (hne : opening.toList ≠ [])
    (hclose : close.toList = [mark]) (hmark : mark ≠ '\n') {element : Parser Node}
    (helement : e.Elements close element) : e.Strict (commaList opening close element) := by
  intro n
  refine (strict_literal hopening hne n).bind fun _ => follows_trivia.bind fun lead => ?_
  refine (follows_many (place_token e) fun _ => follows_listStep hclose helement).bind fun items => ?_
  exact (follows_close hclose hmark).bind fun _ => follows_pure _

/-! ## Expressions in a row -/

theorem loose_spread (h : e.Subs sub) : e.Loose (spread sub) := by
  intro n
  refine .start fun start => (strict_literal rfl (by decide) n).bind fun _ => ?_
  refine follows_trivia.plain.bind fun gap => ((h.expression _).weak n).bind fun value => ?_
  exact follows_node _ _ _

theorem loose_element (h : e.Subs sub) : e.Loose (element sub) := by
  intro n
  exact .test (fun c d h => h.startsWith_eq rfl) (loose_spread h n) (h.expression _ n)

/-- Where nothing of the text follows, nothing is read. -/
theorem stepwise_none {R : Nat → Cursor → Cursor → Prop} {a : Option α} {c' : Cursor} (h : R (n + 1) c d)
    (ha : (pure none : Parser (Option α)) c = some (a, c')) : Stepwise R n a c d := by
  cases ha
  exact h

theorem follows_sequenceStep (h : e.Subs sub) :
    Follows Over Over (e.Same (n + 1)) (Stepwise e.Same n) (sequenceStep sub false) := by
  refine follows_lookahead (quiet_pure none) ?_ (fun _ _ _ _ => stepwise_none) ?_
  · intro gap c hc
    exact if_neg (by rw [closed_startsWith hc rfl rfl]; exact Bool.false_ne_true)
  · intro gap c d c' d' hsame htoken
    have hcomma : d'.startsWith "," = c'.startsWith "," := htoken.startsWith_eq rfl
    dsimp only
    rw [hcomma]
    refine .ite (fun _ => .set ?_) fun _ => .pure hsame
    have hread : Follows Lost Over (e.Same (n + 1)) (Stepwise e.Same n) (do
        literal ","
        let gap' ← trivia
        let next ← sub.expression Level.lowest false
        return some (gap ++ gap' ++ [next])) := by
      refine (strict_literal rfl (by decide) n).bind fun _ => follows_trivia.plain.bind fun _ => ?_
      exact ((h.expression _).weak n).bind fun _ => follows_return fun _ _ h => h
    exact hread.same c' d' htoken.toSame

theorem follows_sequenceFrom (h : e.Subs sub) (first : Node) :
    Follows Over Over (e.Same m) (fun _ => e.Same m) (sequenceFrom sub false first) := by
  refine (follows_many (place_same e) fun _ => follows_sequenceStep h).bind fun rest => ?_
  exact .ite (fun _ => follows_pure _) fun _ => follows_node _ _ _

theorem loose_expressions (h : e.Subs sub) : e.Loose (expressions sub false) :=
  fun n => (h.expression _ n).bind fun first => follows_sequenceFrom h first

theorem strict_arguments (h : e.Subs sub) : e.Strict (arguments sub) := by
  intro n
  refine .start fun start => ?_
  refine (strict_commaList rfl (by decide) rfl (by decide) ((loose_element h).elements rfl) n).bind fun items => ?_
  exact follows_node _ _ _

theorem strict_array (h : e.Subs sub) : e.Strict (array sub) := by
  intro n
  refine .start fun start => ?_
  refine (strict_commaList rfl (by decide) rfl (by decide) ((loose_element h).elements rfl) n).bind fun items => ?_
  exact follows_node _ _ _

/-! ## Templates -/

theorem strict_substitution (h : e.Subs sub) : e.Strict (substitution sub) := by
  intro n
  refine .start fun start => (strict_literal rfl (by decide) n).bind fun _ => ?_
  refine follows_trivia.plain.bind fun gap => ((loose_expressions h).weak n).bind fun inner => ?_
  refine follows_plainTrivia.bind fun gap' => (follows_close rfl (by decide)).bind fun _ => ?_
  exact follows_node _ _ _

/-- An escape that ends inside the text is the same in front of both ends. -/
theorem Same.stringEscapeLength_eq (h : e.Same m c d)
    (hinside : stringEscapeLength c.rest + 2 ≤ c.rest.length) (hne : stringEscapeLength c.rest ≠ 0) :
    stringEscapeLength d.rest = stringEscapeLength c.rest := by
  obtain ⟨left, hleft, hc, hd⟩ := h.left
  obtain ⟨hlong, _, _, htext⟩ := exists_of_stringEscapeLength hne
  rw [hc] at hinside hne hlong htext ⊢
  rw [hd]
  simp only [List.length_append, List.length_cons, List.length_nil] at hinside
  match left with
  | [] => cases htext
  | [_] =>
    simp only [List.length_cons, List.length_nil] at hinside
    omega
  | first :: second :: rest =>
    simp only [List.cons_append, List.cons.injEq] at htext
    obtain ⟨rfl, -⟩ := htext
    by_cases hx : second = 'x'
    · subst hx
      match rest with
      | [] => exact absurd rfl hne
      | [digit] =>
        refine absurd ?_ hne
        show (if isHexDigit digit && isHexDigit '\n' then 4 else 0) = 0
        rw [show isHexDigit '\n' = false from rfl, Bool.and_false]
        rfl
      | _ :: _ :: _ => rfl
    by_cases hu : second = 'u'
    · subst hu
      have hopen := e.endsEscapes _ hleft
      exact (escapeLength_append_stop e.isStop_close hopen).trans
        (escapeLength_append_stop (show isStop '\n' = true from rfl) hopen).symm
    simp only [List.cons_append] at hinside ⊢
    rw [stringEscapeLength_other hx hu] at hinside
    rw [stringEscapeLength_other hx hu, stringEscapeLength_other hx hu, ← List.cons_append,
      ← List.cons_append, takeWhile_append_stop (show isOctalDigit '\n' = false from rfl),
      takeWhile_append_stop (not_of_isStop e.isStop_close (by decide) (by decide) (by decide))]
    cases rest with
    | cons third rest => rfl
    | nil =>
      -- a line break behind the text would belong to the escape
      have hclose : isLineBreak e.close = false := by
        rcases e.closes with hclose | hclose <;> rw [hclose] <;> rfl
      split at hinside
      · next hoctal => rw [if_pos hoctal, if_pos hoctal]
      · next hoctal =>
        rw [if_neg hoctal, if_neg hoctal]
        split at hinside
        · simp only [List.length_cons, List.length_nil] at hinside
          omega
        · next hbreak =>
          rw [if_neg hbreak, if_neg]
          simp [hclose]

theorem Same.lost_skip (h : e.Same m c d) (hbeyond : c.rest.length < n + 2) : Lost (c.skip n) := by
  obtain ⟨left, -, hc, -⟩ := h.left
  rw [hc, List.length_append] at hbeyond
  simp only [List.length_cons, List.length_nil] at hbeyond
  show c.rest.drop n = [] ∨ c.rest.drop n = [')']
  rw [hc, List.drop_append, List.drop_eq_nil_of_le (by omega), List.nil_append]
  obtain ⟨more, hmore⟩ : ∃ more, n - left.length = more + 1 := ⟨n - left.length - 1, by omega⟩
  rw [hmore, List.drop_succ_cons]
  cases more with
  | zero => exact .inr rfl
  | succ more => exact .inl (List.drop_nil)

theorem length_skipWhile_lt {p : Char → Bool} {first : Char} {rest : List Char}
    (hc : c.rest = first :: rest) (hfirst : p first = true) :
    (c.skipWhile p).rest.length < c.rest.length := by
  have hle := (List.dropWhile_suffix (l := rest) p).length_le
  rw [Cursor.skipWhile, hc, List.dropWhile_cons_of_pos hfirst, List.length_cons]
  exact Nat.lt_succ_of_le hle

/-- An escape in a template. -/
theorem followsAt_escape {left : List Char} {pos : Nat}
    (h : e.Same (n + 1) ⟨'\\' :: (left ++ ['\n', ')']), pos⟩
      ⟨'\\' :: (left ++ e.close :: e.after), pos⟩) :
    FollowsAt Lost (Stepwise e.Same n) ⟨'\\' :: (left ++ ['\n', ')']), pos⟩
      ⟨'\\' :: (left ++ e.close :: e.after), pos⟩ (templateStep sub) (templateStep sub) := by
  intro found c' hc'
  rw [templateStep_escape] at hc'
  split at hc'
  · cases hc'
  · next hne =>
    cases hc'
    by_cases hinside : stringEscapeLength ('\\' :: (left ++ ['\n', ')'])) + 2 ≤
        ('\\' :: (left ++ ['\n', ')'])).length
    · have hlength : stringEscapeLength ('\\' :: (left ++ e.close :: e.after)) =
          stringEscapeLength ('\\' :: (left ++ ['\n', ')'])) :=
        h.stringEscapeLength_eq hinside hne
      have hlt := h.lt
      rw [templateStep_escape, hlength, if_neg hne]
      exact .inr ⟨_, rfl, h.skip hinside (by omega)⟩
    · exact .inl (h.lost_skip (Nat.lt_of_not_le hinside))

/-- A dollar sign in a template that opens no hole. -/
theorem followsAt_dollar {left : List Char} {pos : Nat} (hleft : left.head? ≠ some '\x7b')
    (h : e.Same (n + 1) ⟨'$' :: (left ++ ['\n', ')']), pos⟩ ⟨'$' :: (left ++ e.close :: e.after), pos⟩) :
    FollowsAt Lost (Stepwise e.Same n) ⟨'$' :: (left ++ ['\n', ')']), pos⟩
      ⟨'$' :: (left ++ e.close :: e.after), pos⟩ (templateStep sub) (templateStep sub) := by
  have hhead {stop : Char} (hstop : isStop stop = true) (tail : List Char) :
      (left ++ stop :: tail).head? ≠ some '\x7b' := by
    cases left with
    | nil => simpa using ne_of_isStop hstop (by decide)
    | cons first left => exact hleft
  have hlt := h.lt
  intro found c' hc'
  rw [templateStep_dollar (hhead rfl _)] at hc'
  cases hc'
  refine .inr ⟨_, templateStep_dollar (hhead e.isStop_close _), ?_⟩
  refine h.skip (n := 1) ?_ (by omega)
  simp only [List.length_cons, List.length_append, List.length_nil]
  omega

/-- A run of ordinary characters in a template. -/
theorem followsAt_ordinary {first : Char} (hfirst : isOrdinary first = true) {left : List Char} {pos : Nat}
    (h : e.Same (n + 1) ⟨first :: (left ++ ['\n', ')']), pos⟩
      ⟨first :: (left ++ e.close :: e.after), pos⟩) :
    FollowsAt Lost (Stepwise e.Same n) ⟨first :: (left ++ ['\n', ')']), pos⟩
      ⟨first :: (left ++ e.close :: e.after), pos⟩ (templateStep sub) (templateStep sub) := by
  intro found c' hc'
  rw [templateStep_ordinary hfirst] at hc'
  cases hc'
  by_cases hinside : 2 < ((⟨first :: (left ++ ['\n', ')']), pos⟩ : Cursor).skipWhile
      isOrdinary).rest.length
  · have hsame := h.skipWhile hinside
    have hshorter := @length_skipWhile_lt ⟨first :: (left ++ ['\n', ')']), pos⟩ isOrdinary _ _ rfl hfirst
    have hlt := h.lt
    exact .inr ⟨_, templateStep_ordinary hfirst, hsame.mono (by omega)⟩
  · obtain ⟨run, hrun, -, hdrop⟩ := h.exists_run hinside
    refine .inl (.inl ?_)
    rw [Cursor.skipWhile, hrun, List.dropWhile_append, hdrop]
    rfl

theorem follows_templateStep (h : e.Subs sub) :
    Follows Lost Lost (e.Same (n + 1)) (Stepwise e.Same n) (templateStep sub) := by
  constructor
  · intro c d hsame
    obtain ⟨left, hleft, hc, hd⟩ := hsame.left
    obtain ⟨text, pos⟩ := c
    obtain ⟨text', pos'⟩ := d
    obtain rfl : pos' = pos := hsame.pos
    dsimp only at hc hd
    subst hc hd
    cases left with
    | nil =>
      intro found c' hc'
      cases hc'
      exact .inl (.inl rfl)
    | cons first left =>
      by_cases htick : first = '\x60'
      · subst htick
        intro found c' hc'
        cases hc'
        exact .inr ⟨_, rfl, hsame⟩
      by_cases hslash : first = '\\'
      · subst hslash
        exact followsAt_escape hsame
      by_cases hdollar : first = '$'
      · subst hdollar
        by_cases hbrace : left.head? = some '\x7b'
        · obtain ⟨left, rfl⟩ := List.head?_eq_some_iff.mp hbrace
          have hhole : Follows Lost Lost (e.Same (n + 1)) (Stepwise e.Same n)
              (substitution sub >>= fun hole => pure (some [hole])) :=
            (strict_substitution h n).bind fun _ => follows_return fun _ _ h => h
          exact hhole.same _ _ hsame
        · exact followsAt_dollar hbrace hsame
      · exact followsAt_ordinary (by simp [isOrdinary, htick, hslash, hdollar]) hsame
  · intro c hc found c' hc'
    obtain ⟨rest, pos⟩ := c
    obtain rfl | rfl : rest = [] ∨ rest = [')'] := hc
    · cases hc'
    · cases hc'
      exact .inl rfl

theorem strict_template (h : e.Subs sub) : e.Strict (template sub) := by
  intro n
  refine .start fun start => (strict_literal rfl (by decide) n).bind fun _ => ?_
  refine Follows.bind (follows_many (place_same e) fun _ => follows_templateStep h) fun holes => ?_
  exact ((strict_literal rfl (by decide)).weak n).bind fun _ => follows_node _ _ _

end NotebookCell.Script.Ending
