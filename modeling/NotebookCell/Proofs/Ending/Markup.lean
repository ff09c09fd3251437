import NotebookCell.Proofs.Ending.Member

/-!
# Markup before two ends

The parts of an element end in front of marks that close no expression, and its text is free of braces.
So an element is the same in front of both ends (`strict_markup`).
-/

namespace NotebookCell.Script.Ending

open NotebookCell.Tree NotebookCell.Script.Parser

variable {e : Ending} {sub : Parsers} {c d : Cursor} {m n : Nat}

/-! ## Names -/

theorem hyphenatedLength_le (text : List Char) : hyphenatedLength text ≤ text.length := by
  rw [hyphenatedLength]
  split
  · exact (List.takeWhile_prefix _).length_le
  · exact Nat.zero_le _

/-- A hyphenated name is as long in front of both ends, and reaches to neither. -/
theorem Same.hyphenatedLength_eq (h : e.Same m c d) :
    hyphenatedLength d.rest = hyphenatedLength c.rest ∧
      hyphenatedLength c.rest + 2 ≤ c.rest.length := by
  obtain ⟨left, -, hc, hd⟩ := h.left
  have hle := hyphenatedLength_le left
  rw [hc, hd, hyphenatedLength_append_stop e.isStop_close, List.length_append,
    hyphenatedLength_append_stop (show isStop '\n' = true from rfl)]
  exact ⟨rfl, Nat.add_le_add_right hle 2⟩

/-- The name of a tag ends within the text. -/
theorem strict_tagName (kind : Kind) : e.Strict (tagName kind) := by
  intro n
  have hname : Follows Lost Gone (e.Same (n + 1)) (fun _ => e.Same n) (do
      return (← name kind, false)) :=
    (strict_name kind n).bind fun _ => follows_pure _
  constructor
  · intro c d h
    obtain ⟨hlength, hinside⟩ := h.hyphenatedLength_eq
    obtain ⟨hword, -⟩ := h.wordLength_eq
    have hlt := h.lt
    rw [tagName]
    show FollowsAt Gone _ c d
      (if hyphenatedLength c.rest > wordLength c.rest then _ else _)
      (if hyphenatedLength d.rest > wordLength d.rest then _ else _)
    rw [hlength, hword]
    refine .ite (fun hlong => ?_) fun _ => hname.same c d h
    have hskip : e.Same n (c.skip (hyphenatedLength c.rest)) (d.skip (hyphenatedLength c.rest)) :=
      h.skip hinside (by omega)
    refine .set ?_
    rw [h.pos, hskip.pos]
    exact .pure hskip
  · intro c hc
    refine givesAt_get ?_
    obtain ⟨text, pos⟩ := c
    obtain rfl | rfl : text = [] ∨ text = [')'] := hc
    · exact hname.beyond _ (.inl rfl)
    · exact hname.beyond _ (.inr rfl)

/-- The next part of a name with dots in it, or none. -/
theorem follows_tagMember (left : Node) :
    Follows Over Over (e.Same (n + 1)) (Stepwise e.Same n) (tagMember left) := by
  refine follows_back (quiet_pure none) ?_ (fun _ _ _ _ => stepwise_none) ?_
  · intro c gap c' hc
    rw [get_bind, closed_startsWith hc rfl rfl]
    rfl
  · intro gap c d c' d' hsame htoken
    have hdot : d'.startsWith "." = c'.startsWith "." := htoken.startsWith_eq rfl
    show FollowsAt Over _ c' d' (if c'.startsWith "." then _ else _) (if d'.startsWith "." then _ else _)
    rw [hdot]
    refine .ite (fun _ => ?_) fun _ => .set (.pure hsame)
    have hread : Follows Lost Over (e.Same (n + 1)) (Stepwise e.Same n) (do
        literal "."
        let gap' ← trivia
        let property ← name .propertyIdentifier
        return some (← node .memberExpression left.start ([left] ++ gap ++ gap' ++ [property]))) := by
      refine (strict_literal rfl (by decide) n).bind fun _ => follows_trivia.plain.bind fun _ => ?_
      exact ((strict_name _).weak n).bind fun _ => .part fun _ => follows_return fun _ _ h => h
    exact hread.same c' d' htoken.toSame

/-- A name with all its parts. -/
theorem follows_qualifiedName (first : Node) (single : Kind) :
    Follows Over Over (e.Same m) (fun _ => e.Same m) (qualifiedName first single) := by
  refine follows_back (quiet_pure { first with kind := single }) ?_ (fun _ _ _ _ h _ => h) ?_
  · intro c gap c' hc
    rw [get_bind, closed_startsWith hc rfl rfl]
    rfl
  · intro gap c d c' d' hsame htoken
    have hcolon : d'.startsWith ":" = c'.startsWith ":" := htoken.startsWith_eq rfl
    show FollowsAt Over _ c' d' (if c'.startsWith ":" then _ else _) (if d'.startsWith ":" then _ else _)
    rw [hcolon]
    refine .ite (fun _ => ?_) fun _ => .set (.pure hsame)
    refine Follows.same (G := Lost) ?_ c' d' htoken.toSame
    refine ((strict_literal rfl (by decide)).weak m).bind fun _ => follows_trivia.plain.bind fun _ => ?_
    exact ((strict_tagName _).weak m).bind fun _ => follows_node _ _ _

/-- The name of an element may stand in front of an end. -/
theorem loose_elementName : e.Loose elementName := by
  intro n
  refine (strict_tagName _ n).bind fun found => ?_
  obtain ⟨first, hyphenated⟩ := found
  refine .ite (fun _ => (follows_qualifiedName first _).within) fun _ => ?_
  refine Follows.bind (follows_iterate (place_same e) (fun left _ => follows_tagMember left) first)
    fun path => ?_
  exact .ite (fun _ => follows_pure _) fun _ => follows_qualifiedName first _

/-! ## Attributes -/

/-- An expression in braces of its own is closed by its own brace. -/
theorem strict_braced (h : e.Subs sub) : e.Strict (braced sub) := by
  intro n
  have hrest (start : Nat) (nodes : List Node) : Follows Late Gone (e.Same n) (fun _ => e.Same n) (do
      let gap' ← plainTrivia
      literal "\x7d"
      node .jsxExpression start (nodes ++ gap')) := by
    refine follows_plainTrivia.bind fun gap' => (follows_close rfl (by decide)).bind fun _ => ?_
    exact follows_node _ _ _
  refine .start fun start => (strict_literal rfl (by decide) n).bind fun _ => ?_
  refine follows_trivia.bind fun gap => .test₂ (fun c d h => h.startsWith_eq rfl)
    (fun c d h => h.toSame.startsWith_eq rfl) ?_ ?_ ?_
  · exact .value ((hrest start _).from fun _ _ => Token.toSame).within
  · have hspread : Follows Lost Over (e.Token n) (fun _ => e.Same n) (do return [← spread sub]) :=
      (((loose_spread h).weak n).from fun _ _ => Token.toSame).bind fun _ => follows_pure _
    exact hspread.bind fun inner => (hrest start _).within
  · have hinner : Follows Lost Over (e.Token n) (fun _ => e.Same n) (do return [← expressions sub false]) :=
      (((loose_expressions h).weak n).from fun _ _ => Token.toSame).bind fun _ => follows_pure _
    exact hinner.bind fun inner => (hrest start _).within

theorem characterReferenceLength_le (text : List Char) :
    characterReferenceLength text ≤ text.length := by
  have hclosed (before most digits : Nat) :
      (if 0 < digits && digits ≤ most && (text.drop (before + digits)).head? == some ';' then
        before + digits + 1 else 0) ≤ text.length := by
    split
    · next h =>
      rw [Bool.and_eq_true, beq_iff_eq] at h
      by_contra hlt
      rw [List.drop_eq_nil_of_le (by omega)] at h
      cases h.2
    · exact Nat.zero_le _
  rw [characterReferenceLength.eq_def]
  dsimp only
  split
  · split
    · exact hclosed _ _ _
    · exact hclosed _ _ _
  · exact hclosed _ _ _
  · exact Nat.zero_le _

/-- A character reference is as long in front of both ends, and reaches to neither. -/
theorem Same.characterReferenceLength_eq (h : e.Same m c d) :
    characterReferenceLength d.rest = characterReferenceLength c.rest ∧
      characterReferenceLength c.rest + 2 ≤ c.rest.length := by
  obtain ⟨left, -, hc, hd⟩ := h.left
  have hle := characterReferenceLength_le left
  rw [hc, hd, characterReferenceLength_append_stop e.isStop_close, List.length_append,
    characterReferenceLength_append_stop (show isStop '\n' = true from rfl)]
  exact ⟨rfl, Nat.add_le_add_right hle 2⟩

/-- The number of characters of a step inside the value of an attribute. -/
def attributeUnit (c : Char) (text : List Char) : Nat :=
  if c == '&' then
    if referenceFollows text then characterReferenceLength (c :: text)
    else if text.isEmpty then 0 else 2
  else 1

/-- A quoted attribute ends at its quote, or goes on by one character or reference. -/
theorem attributeEnd?_cons {quote first x : Char} {bound text : List Char}
    (hc : c.rest = first :: text) :
    attributeEnd? quote (x :: bound) c =
      if first == quote then some (c.skip 1)
      else if attributeUnit first text = 0 then none
      else attributeEnd? quote bound (c.skip (attributeUnit first text)) := by
  obtain ⟨rest, pos⟩ := c
  subst hc
  rw [attributeEnd?, attributeUnit]
  dsimp only
  split
  · rfl
  · split
    · split
      · split
        · next hzero => rw [if_pos hzero]
        · next hne => rw [if_neg hne]
      · split
        · rfl
        · rfl
    · rfl

/-- A step stays inside the text, or skips its end. -/
theorem attributeUnit_append {first : Char} {left : List Char} (h : first :: left <:+ e.text) :
    (attributeUnit first (left ++ e.close :: e.after) = attributeUnit first (left ++ ['\n', ')']) ∧
      attributeUnit first (left ++ ['\n', ')']) ≤ left.length + 1) ∨
    (left = [] ∧ attributeUnit first (left ++ ['\n', ')']) = 2) := by
  have hsame : e.Same (left.length + 4) ⟨first :: (left ++ ['\n', ')']), 0⟩
      ⟨first :: (left ++ e.close :: e.after), 0⟩ :=
    ⟨⟨first :: left, h, rfl, rfl⟩, rfl, by simp⟩
  obtain ⟨hlength, hinside⟩ := hsame.characterReferenceLength_eq
  have hfollows {stop : Char} (hstop : isStop stop = true) (tail : List Char) :
      referenceFollows (left ++ stop :: tail) = referenceFollows left :=
    head?_any_append (not_of_isStop (p := fun c => c == '#' || c.isAlpha) hstop (by decide)
      (by decide) (by decide))
  rw [attributeUnit, attributeUnit, hfollows e.isStop_close, hfollows rfl, hlength]
  simp only [List.length_cons, List.length_append, List.length_nil] at hinside
  split
  · split
    · exact .inl ⟨rfl, by omega⟩
    · cases left with
      | nil => exact .inr ⟨rfl, rfl⟩
      | cons second left => exact .inl ⟨rfl, by simp⟩
  · exact .inl ⟨rfl, by omega⟩

section
variable {quote : Char} (hquote : (quote == '\x22' || quote == '\x27') = true)
include hquote

/-- Behind the last quote no attribute ends. -/
theorem attributeEnd?_lost (bound : List Char) (hc : Lost c) : attributeEnd? quote bound c = none := by
  have hmark : (')' == quote) = false := by
    rw [Bool.or_eq_true, beq_iff_eq, beq_iff_eq] at hquote
    rcases hquote with rfl | rfl <;> rfl
  obtain ⟨text, pos⟩ := c
  cases bound with
  | nil => rfl
  | cons x bound =>
    obtain rfl | rfl : text = [] ∨ text = [')'] := hc
    · rfl
    · rw [attributeEnd?]
      dsimp only
      rw [hmark]
      cases bound <;> rfl

/-- The value of an attribute ends inside the text. -/
theorem exists_of_attributeEnd? {bound bound' : List Char} (h : e.Same (n + 1) c d)
    (hbound : d.rest.length ≤ bound'.length) {c' : Cursor}
    (hc' : attributeEnd? quote bound c = some c') :
    ∃ d', attributeEnd? quote bound' d = some d' ∧ e.Same n c' d' := by
  induction bound generalizing n c d bound' with
  | nil => cases hc'
  | cons x bound ih =>
    cases bound' with
    | nil =>
      have hone := h.two_le.2
      rw [List.length_nil] at hbound
      omega
    | cons y bound' =>
      have hlt := h.lt
      obtain ⟨left, hleft, hc, hd⟩ := h.left
      cases left with
      | nil =>
        -- the break is no quote, and behind it there is none
        have hbreak : ('\n' == quote) = false := by
          rw [Bool.or_eq_true, beq_iff_eq, beq_iff_eq] at hquote
          rcases hquote with rfl | rfl <;> rfl
        rw [attributeEnd?_cons hc, hbreak] at hc'
        have hlost : Lost (c.skip 1) := .inr (by rw [Cursor.skip, hc]; rfl)
        cases (attributeEnd?_lost hquote bound hlost).symm.trans hc'
      | cons first left =>
        rw [List.cons_append] at hc hd
        have hlength : c.rest.length = left.length + 3 := by rw [hc]; simp
        rw [attributeEnd?_cons hc] at hc'
        rw [attributeEnd?_cons hd]
        split at hc'
        · next hends =>
          cases hc'
          rw [if_pos hends]
          exact ⟨_, rfl, h.skip (by omega) (by omega)⟩
        · next hends =>
          rw [if_neg hends]
          split at hc'
          · cases hc'
          · next hne =>
            rcases attributeUnit_append hleft with ⟨hunit, hinside⟩ | ⟨rfl, hunit⟩
            · rw [hunit, if_neg hne]
              refine ih (h.skip (by omega) (by omega)) ?_ hc'
              rw [Cursor.skip, List.length_drop]
              rw [List.length_cons] at hbound
              omega
            · rw [hunit] at hc'
              have hlost : Lost (c.skip 2) := .inr (by rw [Cursor.skip, hc]; rfl)
              cases (attributeEnd?_lost hquote bound hlost).symm.trans hc'

end

/-- A quoted attribute is closed by its own quote. -/
theorem strict_quotedValue : e.Strict quotedValue := by
  intro n
  constructor
  · intro c d h a c' hc'
    obtain ⟨left, hleft, hc, hd⟩ := h.left
    rw [quotedValue, get_bind, hc] at hc'
    rw [quotedValue, get_bind, hd]
    cases left with
    | nil => cases hc'
    | cons quote left =>
      dsimp only [List.cons_append] at hc' ⊢
      cases hquote : (quote == '\x22' || quote == '\x27') with
      | false =>
        rw [hquote] at hc'
        cases hc'
      | true =>
        rw [hquote] at hc'
        cases hend : attributeEnd? quote (left ++ ['\n', ')']) (c.skip 1) with
        | none =>
          rw [hend] at hc'
          cases hc'
        | some after =>
          rw [hend] at hc'
          cases hc'
          have hlt := h.lt
          have hlength : c.rest.length = left.length + 3 := by rw [hc]; simp
          have hskip : e.Same (n + 1) (c.skip 1) (d.skip 1) := h.skip (by omega) (by omega)
          have hbound : (d.skip 1).rest.length ≤ (left ++ e.close :: e.after).length := by
            rw [Cursor.skip, hd, List.cons_append, List.drop_succ_cons, List.drop_zero]
          obtain ⟨after', hend', hsame⟩ := exists_of_attributeEnd? hquote hskip hbound hend
          rw [hend', h.pos, ← hsame.pos]
          exact .inr ⟨after', rfl, hsame⟩
  · intro c hc a c' hc'
    obtain ⟨text, pos⟩ := c
    obtain rfl | rfl : text = [] ∨ text = [')'] := hc
    · cases hc'
    · cases hc'

/-- The value of an attribute, in each of its forms, has a closing mark of its own. -/
theorem strict_attributeValue (h : e.Subs sub) : e.Strict (attributeValue sub) := fun n =>
  .test₂ (fun _ _ h => h.startsWith_eq rfl) (fun _ _ h => h.startsWith_eq rfl) (strict_braced h n)
    (h.markup n) (strict_quotedValue n)

/-- An attribute without a value may stand in front of an end. -/
theorem loose_tagAttribute (h : e.Subs sub) : e.Loose (tagAttribute sub) := by
  intro n
  refine (strict_tagName _ n).bind fun found => ?_
  obtain ⟨first, hyphenated⟩ := found
  refine (follows_qualifiedName first _).bind fun key => ?_
  refine follows_back (quiet_node .jsxAttribute first.start [key]) ?_ (fun _ _ _ _ h _ => h) ?_
  · intro c gap c' hc
    rw [get_bind, closed_startsWith hc rfl rfl]
    rfl
  · intro gap c d c' d' hsame htoken
    have hequals : d'.startsWith "=" = c'.startsWith "=" := htoken.startsWith_eq rfl
    show FollowsAt Over _ c' d' (if c'.startsWith "=" then _ else _) (if d'.startsWith "=" then _ else _)
    rw [hequals]
    have hread : Follows Lost Over (e.Same n) (fun _ => e.Same n) (do
        literal "="
        let gap' ← trivia
        let value ← attributeValue sub
        node .jsxAttribute first.start ([key] ++ gap ++ gap' ++ [value])) := by
      refine ((strict_literal rfl (by decide)).weak n).bind fun _ => follows_trivia.plain.bind fun _ => ?_
      exact ((strict_attributeValue h).weak n).bind fun _ => follows_node _ _ _
    have hnode : Follows Over Over (e.Same n) (fun _ => e.Same n)
        (node .jsxAttribute first.start [key]) := follows_node _ _ _
    exact .ite (fun _ => hread.same c' d' htoken.toSame) fun _ => .set (hnode.same c d hsame)

/-- The next attribute of a tag, or none. -/
theorem follows_attributeStep (h : e.Subs sub) :
    Follows Lost Lost (e.Token (n + 1)) (Stepwise e.Token n) (attributeStep sub) := by
  refine .test₂ (t := fun c => c.startsWith ">" || c.startsWith "/>") ?_ (fun _ _ h => h.startsWith_eq rfl)
    ?_ ?_ ?_
  · intro c d h
    have hend : d.startsWith ">" = c.startsWith ">" := h.startsWith_eq rfl
    have hend' : d.startsWith "/>" = c.startsWith "/>" := h.toSame.startsWith_eq rfl
    rw [hend, hend']
  · exact follows_return fun _ _ h => h
  · refine ((strict_braced h n).from fun _ _ => Token.toSame).bind fun _ => ?_
    exact follows_trivia.bind fun _ => follows_return fun _ _ h => h
  · refine ((loose_tagAttribute h n).from fun _ _ => Token.toSame).bind fun _ => ?_
    exact follows_trivia.bind fun _ => follows_return fun _ _ h => h

/-! ## Elements -/

/-- Up to the end of the text there is something to show. -/
theorem showsText_end (atBreak : Bool) (text : List Char) : showsText atBreak (text ++ ['\n', ')']) = true := by
  induction text generalizing atBreak with
  | nil => rfl
  | cons c text ih =>
    rw [List.cons_append, showsText]
    split
    · exact ih true
    · split
      · exact ih true
      · rfl

/-- A child of an element that is no text. -/
def childRest (sub : Parsers) : Parser (Option (List Node)) := do
  let gap ← trivia
  let c ← get
  if c.startsWith "</" then
    return if gap.isEmpty then none else some gap
  else if c.startsWith "<" then
    return some (gap ++ [← sub.markup])
  else if c.startsWith "\x7b" then
    return some (gap ++ [← braced sub])
  else
    let length := characterReferenceLength c.rest
    require (length != 0)
    set (c.skip length)
    return some (gap ++ [← node .htmlCharacterReference c.pos []])

/-- A child of an element is text up to the next mark, if there is any, or begins with that mark. -/
theorem child_eq (c : Cursor) :
    child sub c =
      (if showsText false (c.rest.takeWhile fun ch => !endsMarkupText ch) then (do
        set (c.skipWhile fun ch => !endsMarkupText ch)
        return some [← node .jsxText c.pos []])
      else childRest sub : Parser _) c := by
  rw [Suffix.skipWhile_eq_skip]
  rfl

theorem follows_childRest (h : e.Subs sub) :
    Follows Lost Lost (e.Same (n + 1)) (Stepwise e.Same n) (childRest sub) := by
  refine follows_comments.bindAt fun gap => ?_
  have hmarkup : Follows Lost Lost (e.Same (n + 1)) (Stepwise e.Same n) (do
      return some (gap ++ [← sub.markup])) :=
    (h.markup n).bind fun _ => follows_return fun _ _ h => h
  have hbraced : Follows Lost Lost (e.Same (n + 1)) (Stepwise e.Same n) (do
      return some (gap ++ [← braced sub])) :=
    (strict_braced h n).bind fun _ => follows_return fun _ _ h => h
  constructor
  · intro c d htoken
    have hle : (if gap.isEmpty then n + 1 else n) ≤ n + 1 := by split <;> omega
    have hsame : e.Same (n + 1) c d := htoken.toSame.mono hle
    have hclosing : d.startsWith "</" = c.startsWith "</" := hsame.startsWith_eq rfl
    have hopening : d.startsWith "<" = c.startsWith "<" := hsame.startsWith_eq rfl
    have hbrace : d.startsWith "\x7b" = c.startsWith "\x7b" := hsame.startsWith_eq rfl
    obtain ⟨hlength, hinside⟩ := hsame.characterReferenceLength_eq
    show FollowsAt Lost _ c d (if c.startsWith "</" then _ else if c.startsWith "<" then _
        else if c.startsWith "\x7b" then _ else require (characterReferenceLength c.rest != 0) >>= _)
      (if d.startsWith "</" then _ else if d.startsWith "<" then _
        else if d.startsWith "\x7b" then _ else require (characterReferenceLength d.rest != 0) >>= _)
    rw [hclosing, hopening, hbrace, hlength, hsame.pos]
    refine .ite (fun _ => .pure ?_) fun _ => .ite (fun _ => hmarkup.same c d hsame) fun _ =>
      .ite (fun _ => hbraced.same c d hsame) fun _ => ?_
    · cases gap
      · exact htoken.toSame
      · exact htoken.toSame
    · cases hzero : characterReferenceLength c.rest != 0 with
      | false => exact followsAt_failure
      | true =>
        have hpos : characterReferenceLength c.rest ≠ 0 := by simpa using hzero
        have hlt := hsame.lt
        have hskip : e.Same n (c.skip (characterReferenceLength c.rest))
            (d.skip (characterReferenceLength c.rest)) := hsame.skip hinside (by omega)
        have hnode : Follows Lost Lost (e.Same n) (Stepwise e.Same n) (do
            return some (gap ++ [← node .htmlCharacterReference c.pos []])) :=
          .part fun _ => follows_return fun _ _ h => h
        exact hnode.same _ _ hskip
  · intro c hc a c' hc'
    obtain ⟨text, pos⟩ := c
    obtain rfl | rfl : text = [] ∨ text = [')'] := hc
    · cases hc'
    · cases hc'

/-- One more child of an element. Text that reached the end would have no tag behind it. -/
theorem follows_child (h : e.Subs sub) :
    Follows Lost Lost (e.Same (n + 1)) (Stepwise e.Same n) (child sub) := by
  constructor
  · intro c d hsame a c' hc'
    rw [child_eq] at hc' ⊢
    by_cases hinside : 2 < (c.skipWhile fun ch => !endsMarkupText ch).rest.length
    · have hskip := hsame.skipWhile hinside
      rw [hsame.takeWhile_eq hinside, hsame.pos]
      refine FollowsAt.ite (fun hshows => ?_) (fun _ => (follows_childRest h).same c d hsame) a c' hc'
      have hne : c.rest.takeWhile (fun ch => !endsMarkupText ch) ≠ [] := by
        intro hnil
        rw [hnil] at hshows
        cases hshows
      have hpos := List.length_pos_of_ne_nil hne
      have hlength : (c.rest.takeWhile fun ch => !endsMarkupText ch).length +
          (c.skipWhile fun ch => !endsMarkupText ch).rest.length = c.rest.length := by
        rw [Cursor.skipWhile, ← List.length_append, List.takeWhile_append_dropWhile]
      have hlt := hsame.lt
      have hnode : Follows Lost Lost (e.Same n) (Stepwise e.Same n) (do
          return some [← node .jsxText c.pos []]) :=
        .part fun _ => follows_return fun _ _ h => h
      exact .set (hnode.same _ _ (hskip.mono (by omega)))
    · obtain ⟨left, hleft, -, hdrop⟩ := hsame.exists_run hinside
      have hall : left.takeWhile (fun ch => !endsMarkupText ch) = left :=
        List.takeWhile_eq_self_iff.mpr (List.dropWhile_eq_nil_iff.mp hdrop)
      have htake : c.rest.takeWhile (fun ch => !endsMarkupText ch) = left ++ ['\n', ')'] := by
        rw [hleft, List.takeWhile_append, hall, if_pos rfl]
        rfl
      rw [htake, showsText_end] at hc'
      cases hc'
      refine .inl (.inl ?_)
      rw [Cursor.skipWhile, hleft, List.dropWhile_append, hdrop]
      rfl
  · intro c hc a c' hc'
    obtain ⟨text, pos⟩ := c
    obtain rfl | rfl : text = [] ∨ text = [')'] := hc
    · cases hc'
    · cases hc'
      exact .inl rfl

/-- A closing tag ends with an angle of its own. -/
theorem strict_closingTag : e.Strict closingTag := by
  intro n
  have hrest (start : Nat) (nodes : List Node) : Follows Lost Gone (e.Same n) (fun _ => e.Same n) (do
      literal ">"
      node .jsxClosingElement start nodes) :=
    ((strict_literal rfl (by decide)).weak n).bind fun _ => follows_node _ _ _
  refine .start fun start => (strict_literal rfl (by decide) n).bind fun _ => ?_
  refine follows_trivia.plain.bind fun gap => .test (fun _ _ h => h.startsWith_eq rfl) ?_ ?_
  · exact .value (hrest start _)
  · have hname : Follows Lost Lost (e.Same n) (fun _ => e.Same n) (do
        return (← elementName).as .name :: (← plainTrivia)) := by
      refine (loose_elementName.weak n).bind fun _ => follows_plainTrivia.plain.bind fun _ => ?_
      exact follows_pure _
    exact hname.bind fun names => hrest start _

/-- An element ends with a tag of its own, within the text. -/
theorem strict_markup (h : e.Subs sub) : e.Strict (markup sub) := by
  intro n
  -- what follows the opening name and the attributes
  have hrest (start : Nat) (gap : List Node) (parts : Option (List Node)) :
      Follows Lost Gone (e.Same n) (fun _ => e.Same n) (do
        if parts.isSome && (← get).startsWith "/>" then
          literal "/>"
          node .jsxSelfClosingElement start (gap ++ parts.getD [])
        else
          literal ">"
          let openingTag ← node .jsxOpeningElement start (gap ++ parts.getD [])
          let children ← many (child sub)
          let closing ← closingTag
          node .jsxElement start ([openingTag] ++ children.flatten ++ [closing])) := by
    refine .test (t := fun c => parts.isSome && c.startsWith "/>") ?_ ?_ ?_
    · intro c d hsame
      have hend : d.startsWith "/>" = c.startsWith "/>" := hsame.startsWith_eq rfl
      rw [hend]
    · exact ((strict_literal rfl (by decide)).weak n).bind fun _ => follows_node _ _ _
    · refine ((strict_literal rfl (by decide)).weak n).bind fun _ => .part fun openingTag => ?_
      refine (follows_many (place_same e) fun _ => follows_child h).bind fun children => ?_
      exact (strict_closingTag.weak n).bind fun _ => follows_node _ _ _
  refine .start fun start => (strict_literal rfl (by decide) n).bind fun _ => ?_
  refine follows_trivia.plain.bind fun gap => .test (fun _ _ h => h.startsWith_eq rfl) ?_ ?_
  · exact .value (hrest start gap none)
  · have hparts : Follows Lost Lost (e.Same n) (fun _ => e.Same n) (do
        let name ← elementName
        let gap' ← trivia
        let attributes ← many (attributeStep sub)
        return some ([name.as .name] ++ gap' ++ attributes.flatten)) := by
      refine (loose_elementName.weak n).bind fun name => follows_trivia.bind fun gap' => ?_
      refine Follows.bind (follows_many (place_token e) fun _ => follows_attributeStep h).plain fun _ => ?_
      exact follows_pure _
    exact hparts.bind fun parts => hrest start gap parts

end NotebookCell.Script.Ending
