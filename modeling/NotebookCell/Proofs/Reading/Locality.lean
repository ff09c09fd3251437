import NotebookCell.Proofs.Reading.Lexis

/-!
# Tokens in other surroundings

A word or a string that was read somewhere is read in the same way wherever its text stands: a word
in front of any character that ends words (`wordLength_append_of_eq`), and a string in front of anything
(`string_append`). What follows the token in the text it was read from plays no part, since
every decision of a scanner is about characters in front of the one it stops at.
-/

namespace NotebookCell.Script

open NotebookCell.Tree

section
variable {lexeme other tail : List Char}

/-! ## Escapes -/

theorem exists_of_escapeLength {text : List Char} (h : escapeLength text ≠ 0) :
    4 < escapeLength text ∧ ∃ rest, text = '\\' :: 'u' :: rest := by
  rw [escapeLength.eq_def] at h ⊢
  split at h
  · next rest =>
    dsimp only at h ⊢
    split at h
    · next hclosed =>
      rw [if_pos hclosed]
      simp only [Bool.and_eq_true, decide_eq_true_iff] at hclosed
      exact ⟨by omega, _, rfl⟩
    · exact absurd rfl h
  · split at h
    · next hdigits =>
      rw [if_pos hdigits]
      exact ⟨by omega, _, rfl⟩
    · exact absurd rfl h
  · exact absurd rfl h

theorem takeWhile_append_of_lt {p : Char → Bool} (text tail : List Char)
    (h : ((text ++ tail).takeWhile p).length < text.length) (other : List Char) :
    (text ++ other).takeWhile p = text.takeWhile p := by
  have hstop : ¬ ∀ c ∈ text, p c = true := by
    intro hall
    rw [List.takeWhile_append_of_pos hall, List.length_append] at h
    omega
  rw [List.takeWhile_append, if_neg]
  intro hwhole
  have heq := (List.takeWhile_prefix (l := text) p).eq_of_length hwhole
  exact hstop fun c hc => List.mem_takeWhile_imp (heq ▸ hc)

/-- A Unicode escape is as long before any other text. -/
theorem escapeLength_append (h : escapeLength (lexeme ++ tail) ≠ 0)
    (hle : escapeLength (lexeme ++ tail) ≤ lexeme.length) :
    escapeLength (lexeme ++ other) = escapeLength (lexeme ++ tail) := by
  obtain ⟨hlong, rest, hrest⟩ := exists_of_escapeLength h
  match lexeme with
  | [] | [_] | [_, _] => simp only [List.length_cons, List.length_nil] at hle; omega
  | first :: second :: third :: text =>
    simp only [List.cons_append, List.cons.injEq] at hrest
    obtain ⟨rfl, rfl, -⟩ := hrest
    by_cases hbrace : third = '\x7b'
    · subst hbrace
      simp only [List.cons_append, escapeLength] at h hle ⊢
      split at h
      · next hclosed =>
        rw [if_pos hclosed] at hle ⊢
        have hdigits : ((text ++ tail).takeWhile isHexDigit).length < text.length := by
          simp only [List.length_cons] at hle
          omega
        have hown := takeWhile_append_of_lt text tail hdigits
        rw [hown tail] at hclosed hdigits ⊢
        rw [hown other]
        rw [List.drop_append_of_le_length hdigits.le] at hclosed ⊢
        have hhead : ∀ more : List Char,
            (text.drop (text.takeWhile isHexDigit).length ++ more).head? =
              (text.drop (text.takeWhile isHexDigit).length).head? := by
          intro more
          rw [List.head?_append_of_ne_nil]
          exact List.ne_nil_of_length_pos (by rw [List.length_drop]; omega)
        rw [hhead] at hclosed ⊢
        rw [if_pos hclosed]
      · exact absurd rfl h
    · have hhead (more : List Char) : (third :: (text ++ more)).head? ≠ some '\x7b' := by
        simpa using hbrace
      simp only [List.cons_append] at h hle ⊢
      rw [escapeLength_digits (hhead tail)] at h hle ⊢
      rw [escapeLength_digits (hhead other)]
      split at h
      · next hdigits =>
        rw [if_pos hdigits] at hle ⊢
        have hlength : 4 ≤ (third :: text).length := by
          simp only [List.length_cons] at hle ⊢
          omega
        rw [if_pos]
        refine ⟨?_, ?_⟩
        · rw [← List.cons_append, List.length_append]
          omega
        · rw [← List.cons_append, List.take_append_of_le_length hlength]
          rw [← List.cons_append, List.take_append_of_le_length hlength] at hdigits
          exact hdigits.2
      · exact absurd rfl h

theorem exists_of_stringEscapeLength {text : List Char} (h : stringEscapeLength text ≠ 0) :
    1 < stringEscapeLength text ∧ ∃ c rest, text = '\\' :: c :: rest := by
  match text with
  | [] => exact absurd rfl h
  | [c] =>
    rw [stringEscapeLength.eq_def] at h
    split at h <;> simp_all
  | first :: c :: rest =>
    by_cases hfirst : first = '\\'
    · subst hfirst
      rcases takesOrdinary_stringEscapeLength c rest with hzero | ⟨count, hcount, -⟩
      · exact absurd hzero h
      · exact ⟨by omega, c, rest, rfl⟩
    · rw [stringEscapeLength.eq_def] at h
      split at h <;> simp_all

theorem min_takeWhile_append (p : Char → Bool) (text tail other : List Char)
    (h : min 3 ((text ++ tail).takeWhile p).length < text.length) :
    min 3 ((text ++ other).takeWhile p).length = min 3 ((text ++ tail).takeWhile p).length := by
  by_cases hall : ∀ c ∈ text, p c = true
  · rw [List.takeWhile_append_of_pos hall, List.length_append] at h ⊢
    rw [List.takeWhile_append_of_pos hall, List.length_append]
    omega
  · have hstop (more : List Char) : (text ++ more).takeWhile p = text.takeWhile p := by
      rw [List.takeWhile_append, if_neg]
      intro hwhole
      have heq := (List.takeWhile_prefix (l := text) p).eq_of_length hwhole
      exact hall fun c hc => List.mem_takeWhile_imp (heq ▸ hc)
    rw [hstop, hstop]

/-- An escape in a string is as long before any other text. -/
theorem stringEscapeLength_append (h : stringEscapeLength (lexeme ++ tail) ≠ 0)
    (hlt : stringEscapeLength (lexeme ++ tail) < lexeme.length) :
    stringEscapeLength (lexeme ++ other) = stringEscapeLength (lexeme ++ tail) := by
  obtain ⟨hlong, _, _, htext⟩ := exists_of_stringEscapeLength h
  match lexeme with
  | [] | [_] | [_, _] => simp only [List.length_cons, List.length_nil] at hlt; omega
  | first :: second :: third :: text =>
    simp only [List.cons_append, List.cons.injEq] at htext
    obtain ⟨rfl, -⟩ := htext
    by_cases hx : second = 'x'
    · subst hx
      cases text with
      | nil =>
        cases tail with
        | nil => exact absurd rfl h
        | cons d tail =>
          simp only [List.cons_append, List.nil_append, stringEscapeLength] at h hlt
          split at h
          · next hdigits =>
            rw [if_pos hdigits] at hlt
            simp only [List.length_cons, List.length_nil] at hlt
            omega
          · exact absurd rfl h
      | cons d text => rfl
    by_cases hu : second = 'u'
    · subst hu
      exact escapeLength_append h hlt.le
    simp only [List.cons_append] at h hlt ⊢
    rw [stringEscapeLength_other hx hu] at hlt ⊢
    rw [stringEscapeLength_other hx hu]
    split
    · next hoctal =>
      rw [if_pos hoctal] at hlt
      have hdigits := min_takeWhile_append isOctalDigit (second :: third :: text) tail other (by
        simp only [List.cons_append, List.length_cons] at hlt ⊢
        omega)
      simp only [List.cons_append] at hdigits
      rw [hdigits]
    · rfl

/-! ## Words -/

theorem nameLength_append_of_eq {stop : Char} (hstop : endsWord stop = true)
    {bound bound' : List Char} (hbound : lexeme.length < bound'.length)
    (h : nameLength isNamePart bound (lexeme ++ tail) = lexeme.length) (other : List Char) :
    nameLength isNamePart bound' (lexeme ++ stop :: other) = lexeme.length := by
  induction bound generalizing lexeme bound' with
  | nil =>
    have hnil : lexeme = [] := by
      rw [nameLength.eq_def] at h
      split at h
      · next heq _ => cases heq
      · exact List.eq_nil_of_length_eq_zero h.symm
    subst hnil
    exact nameLength_append hstop (by simp) other bound' hbound
  | cons d bound ih =>
    match lexeme, bound' with
    | [], bound' => exact nameLength_append hstop (by simp) other bound' hbound
    | c :: text, [] => cases hbound
    | c :: text, d' :: bound' =>
      rw [List.cons_append, nameLength] at h ⊢
      simp only [List.length_cons] at hbound
      by_cases hpart : isNamePart c = true
      · rw [if_pos hpart] at h ⊢
        have hshort : nameLength isNamePart bound (text ++ tail) = text.length := by
          rw [List.length_cons] at h
          omega
        have hlonger : text.length < bound'.length := by omega
        rw [ih hlonger hshort, List.length_cons, Nat.add_comm]
      · rw [if_neg hpart] at h ⊢
        dsimp only at h ⊢
        rw [← List.cons_append] at h
        split at h
        · rw [List.length_cons] at h
          omega
        · next hescape =>
          have hne : escapeLength (c :: text ++ tail) ≠ 0 := by simpa using hescape
          have hle : escapeLength (c :: text ++ tail) ≤ (c :: text).length := by omega
          have hlong := (exists_of_escapeLength hne).1
          have hsize : (c :: text).length = text.length + 1 := rfl
          have hsame : escapeLength (c :: text ++ stop :: other) = escapeLength (c :: text ++ tail) :=
            escapeLength_append hne hle
          rw [List.drop_append_of_le_length hle] at h
          rw [← List.cons_append, hsame, if_neg hescape, List.drop_append_of_le_length hle]
          have hlonger : ((c :: text).drop (escapeLength (c :: text ++ tail))).length <
              bound'.length := by
            rw [List.length_drop]
            omega
          rw [ih hlonger (by rw [List.length_drop]; omega), List.length_drop]
          omega

/-- A word that was read somewhere is a word in front of any character that ends words. -/
theorem wordLength_append_of_eq (hne : lexeme ≠ [])
    (h : wordLength (lexeme ++ tail) = lexeme.length) {stop : Char} (hstop : endsWord stop = true)
    (other : List Char) : wordLength (lexeme ++ stop :: other) = lexeme.length := by
  obtain ⟨c, text, rfl⟩ := List.exists_cons_of_ne_nil hne
  rw [List.cons_append, wordLength] at h ⊢
  split at h
  · cases h
  · next hdigit =>
    rw [if_neg hdigit]
    rw [← List.cons_append] at h ⊢
    exact nameLength_append_of_eq hstop (by simp) h other

/-! ## Strings -/

theorem dropWhile_append_of_lt {p : Char → Bool} (text tail : List Char)
    (h : tail.length < ((text ++ tail).dropWhile p).length) (other : List Char) :
    (text ++ other).dropWhile p = text.dropWhile p ++ other := by
  rw [List.dropWhile_append, if_neg]
  intro hempty
  rw [List.dropWhile_append, if_pos hempty] at h
  exact absurd (List.dropWhile_suffix p).length_le (Nat.not_le.mpr h)

theorem blockCommentLength?_cons {c : Char} {text : List Char}
    (h : ¬(c = '*' ∧ text.head? = some '/')) :
    blockCommentLength? (c :: text) = (blockCommentLength? text).map (· + 1) := by
  rw [blockCommentLength?.eq_def]
  split
  · next heq => cases heq
  · next heq =>
    cases heq
    exact absurd ⟨rfl, rfl⟩ h
  · next heq =>
    cases heq
    rfl

/-- The end of a block comment takes two characters and lies in the text. -/
theorem bounds_of_blockCommentLength? {length : Nat} {text : List Char}
    (h : blockCommentLength? text = some length) : 2 ≤ length ∧ length ≤ text.length := by
  induction text generalizing length with
  | nil => cases h
  | cons c text ih =>
    by_cases hclose : c = '*' ∧ text.head? = some '/'
    · obtain ⟨rfl, hhead⟩ := hclose
      obtain ⟨rest, rfl⟩ := List.head?_eq_some_iff.mp hhead
      cases h
      simp
    · rw [blockCommentLength?_cons hclose] at h
      obtain ⟨shorter, hshorter, rfl⟩ := Option.map_eq_some_iff.mp h
      obtain ⟨htwo, hle⟩ := ih hshorter
      exact ⟨Nat.le_succ_of_le htwo, Nat.succ_le_succ hle⟩

theorem blockCommentLength?_append {length : Nat} {text : List Char}
    (h : blockCommentLength? (text ++ tail) = some length) (hle : length ≤ text.length)
    (other : List Char) : blockCommentLength? (text ++ other) = some length := by
  have htwo := (bounds_of_blockCommentLength? h).1
  induction text generalizing length with
  | nil =>
    rw [List.length_nil] at hle
    omega
  | cons c text ih =>
    cases text with
    | nil =>
      rw [List.length_singleton] at hle
      omega
    | cons d text =>
      rw [List.cons_append] at h ⊢
      by_cases hclose : c = '*' ∧ (d :: text ++ tail).head? = some '/'
      · obtain ⟨rfl, hhead⟩ := hclose
        cases hhead
        exact h
      · rw [blockCommentLength?_cons hclose] at h
        have hclose' : ¬(c = '*' ∧ (d :: text ++ other).head? = some '/') := hclose
        obtain ⟨shorter, hshorter, rfl⟩ := Option.map_eq_some_iff.mp h
        rw [blockCommentLength?_cons hclose', ih hshorter (by rw [List.length_cons] at hle; omega)
          (bounds_of_blockCommentLength? hshorter).1]
        rfl

theorem comment?_line (text : List Char) (pos : Nat) :
    (⟨'/' :: '/' :: text, pos⟩ : Cursor).comment?.map (·.2.rest) =
      some (('/' :: '/' :: text).dropWhile fun c => !endsLineComment c) := rfl

theorem comment?_block (text : List Char) (pos : Nat) :
    (⟨'/' :: '*' :: text, pos⟩ : Cursor).comment?.map (·.2.rest) =
      (blockCommentLength? text).map (text.drop ·) := by
  show Option.map _ ((blockCommentLength? text).map _) = _
  rw [Option.map_map]
  rfl

theorem exists_of_comment? {text after : List Char} {pos : Nat}
    (h : (⟨text, pos⟩ : Cursor).comment?.map (·.2.rest) = some after) :
    (∃ rest, text = '/' :: '/' :: rest ∧ after = text.dropWhile fun c => !endsLineComment c) ∨
      ∃ rest length, text = '/' :: '*' :: rest ∧ blockCommentLength? rest = some length ∧
        after = rest.drop length := by
  rw [Cursor.comment?] at h
  dsimp only at h
  split at h
  · next rest => exact .inl ⟨rest, rfl, (Option.some.inj h).symm⟩
  · next rest =>
    rw [Option.map_map] at h
    obtain ⟨length, hlength, rfl⟩ := Option.map_eq_some_iff.mp h
    exact .inr ⟨rest, length, rfl, hlength, rfl⟩
  · cases h

/-- A comment is as long before any other text, if it leaves something of its own text. -/
theorem comment?_append {pos : Nat} {after : List Char}
    (h : (⟨lexeme ++ tail, pos⟩ : Cursor).comment?.map (·.2.rest) = some after)
    (hlt : tail.length < after.length) :
    ∃ text, after = text ++ tail ∧ ∀ other pos',
      (⟨lexeme ++ other, pos'⟩ : Cursor).comment?.map (·.2.rest) = some (text ++ other) := by
  rcases exists_of_comment? h with ⟨rest, hrest, rfl⟩ | ⟨rest, length, hrest, hblock, rfl⟩
  · have hown := dropWhile_append_of_lt lexeme tail hlt
    match lexeme with
    | [] =>
      rw [hown tail] at hlt
      exact absurd hlt (Nat.lt_irrefl _)
    | [c] =>
      obtain ⟨rfl, -⟩ := List.cons.inj hrest
      rw [hown tail] at hlt
      exact absurd hlt (Nat.lt_irrefl _)
    | first :: second :: text =>
      simp only [List.cons_append, List.cons.injEq] at hrest
      obtain ⟨rfl, rfl, -⟩ := hrest
      refine ⟨_, hown tail, fun other pos' => ?_⟩
      rw [← hown other]
      exact comment?_line (text ++ other) pos'
  · rw [List.length_drop] at hlt
    have hlength := congrArg List.length hrest
    simp only [List.length_append, List.length_cons] at hlength
    match lexeme with
    | [] | [_] =>
      simp only [List.length_cons, List.length_nil] at hlength
      omega
    | first :: second :: text =>
      simp only [List.cons_append, List.cons.injEq] at hrest
      obtain ⟨rfl, rfl, rfl⟩ := hrest
      have hle : length ≤ text.length := by
        rw [List.length_append] at hlt
        omega
      refine ⟨text.drop length, List.drop_append_of_le_length hle, fun other pos' => ?_⟩
      refine (comment?_block (text ++ other) pos').trans ?_
      rw [blockCommentLength?_append hblock hle other, Option.map_some,
        List.drop_append_of_le_length hle]

theorem length_of_comment? {text after : List Char} {pos : Nat}
    (h : (⟨text, pos⟩ : Cursor).comment?.map (·.2.rest) = some after) :
    after.length < text.length := by
  rcases exists_of_comment? h with ⟨rest, rfl, rfl⟩ | ⟨rest, length, rfl, -, rfl⟩
  · have hle := (List.dropWhile_suffix (l := rest) fun c => !endsLineComment c).length_le
    exact Nat.lt_succ_of_le (Nat.le_succ_of_le hle)
  · rw [List.length_drop, List.length_cons, List.length_cons]
    omega

/-- A string takes at least its closing quote. -/
theorem length_of_stringEnd? {quote : Char} {bound : List Char} {c after : Cursor}
    (h : stringEnd? quote bound c = some after) : after.rest.length < c.rest.length := by
  induction bound generalizing c with
  | nil => cases h
  | cons d bound ih =>
    have hskip (n : Nat) : (c.skip n).rest.length ≤ c.rest.length := by
      rw [Cursor.skip, List.length_drop]
      omega
    have hblank : (c.skipWhile isBlank).rest.length ≤ c.rest.length :=
      (List.dropWhile_suffix _).length_le
    rw [stringEnd?] at h
    split at h
    · cases h
    · next ch text hrest =>
      split at h
      · cases h
        rw [Cursor.skip, List.length_drop, hrest, List.length_cons]
        omega
      · split at h
        · split at h
          · cases h
          · exact Nat.lt_of_lt_of_le (ih h) (hskip _)
        · split at h
          · dsimp only at h
            split at h
            · next node behind hcomment =>
              have hbehind := @length_of_comment? (c.skipWhile isBlank).rest behind.rest
                (c.skipWhile isBlank).pos (by rw [hcomment]; rfl)
              exact Nat.lt_of_lt_of_le (ih h) (hbehind.le.trans hblank)
            · split at h
              · next hhead =>
                cases h
                obtain ⟨rest, hrest'⟩ := List.head?_eq_some_iff.mp (beq_iff_eq.mp hhead)
                rw [Cursor.skip, List.length_drop]
                rw [hrest', List.length_cons] at hblank ⊢
                omega
              · cases h
          · exact Nat.lt_of_lt_of_le (ih h) (hskip 1)

/-- The step over a line break in a string, if what follows the break is local. `c` and `c'` are
behind the blanks that begin with the break. -/
theorem stringBreak_append {quote : Char} (hquote : quote ≠ '/') {bound bound' : List Char}
    (hlocal : ∀ {text : List Char} {pos pos' : Nat}, text.length < lexeme.length →
      (stringEnd? quote bound ⟨text ++ tail, pos⟩).map (·.rest) = some tail →
      (stringEnd? quote bound' ⟨text ++ other, pos'⟩).map (·.rest) = some other)
    {c c' : Cursor} (hc : c.rest = (lexeme ++ tail).dropWhile isBlank)
    (hc' : c'.rest = (lexeme ++ other).dropWhile isBlank)
    (h : (match c.comment? with
      | some (_, after) => stringEnd? quote bound after
      | none => if c.rest.head? == some quote then some (c.skip 1) else none).map Cursor.rest =
        some tail) :
    (match c'.comment? with
      | some (_, after) => stringEnd? quote bound' after
      | none => if c'.rest.head? == some quote then some (c'.skip 1) else none).map Cursor.rest =
        some other := by
  obtain ⟨text, start⟩ := c
  obtain ⟨text', start'⟩ := c'
  dsimp only at hc hc'
  subst hc'
  cases hcomment : (⟨text, start⟩ : Cursor).comment? with
  | some found =>
    obtain ⟨node, after⟩ := found
    rw [hcomment] at h
    have hlt : tail.length < after.rest.length := by
      obtain ⟨stop, hstop, rfl⟩ := Option.map_eq_some_iff.mp h
      exact length_of_stringEnd? hstop
    have hbehind : (⟨text, start⟩ : Cursor).comment?.map (·.2.rest) = some after.rest := by
      rw [hcomment]
      rfl
    have hshort := length_of_comment? hbehind
    have hown := dropWhile_append_of_lt lexeme tail (hc ▸ hlt.trans hshort)
    rw [hc, hown tail] at hbehind
    obtain ⟨text, htext, hother⟩ := comment?_append hbehind hlt
    obtain ⟨⟨node', after'⟩, hcomment', hrest'⟩ := Option.map_eq_some_iff.mp (hother other start')
    obtain ⟨rest, stop⟩ := after
    obtain ⟨rest', stop'⟩ := after'
    obtain rfl : rest = text ++ tail := htext
    obtain rfl : rest' = text ++ other := hrest'
    rw [hown other, hcomment']
    refine hlocal ?_ h
    have hblank := (List.dropWhile_suffix (l := lexeme) isBlank).length_le
    rw [hc, hown tail, List.length_append, List.length_append] at hshort
    omega
  | none =>
    rw [hcomment] at h
    obtain ⟨after, hafter, hrest⟩ := Option.map_eq_some_iff.mp h
    dsimp only at hafter
    split at hafter
    · next hhead =>
      cases hafter
      obtain ⟨rest, rfl⟩ := List.head?_eq_some_iff.mp (beq_iff_eq.mp hhead)
      obtain rfl : rest = tail := hrest
      have hown := dropWhile_append_of_lt lexeme rest (by rw [← hc, List.length_cons]; omega)
      have hquoted : lexeme.dropWhile isBlank = [quote] := by
        rw [hown rest] at hc
        exact (List.append_cancel_right (hc : [quote] ++ rest = _)).symm
      have hnone : (⟨quote :: other, start'⟩ : Cursor).comment? = none := by
        rw [Cursor.comment?]
        split
        · next heq => exact absurd (List.cons.inj heq).1 hquote
        · next heq => exact absurd (List.cons.inj heq).1 hquote
        · rfl
      rw [hown other, hquoted, List.singleton_append, hnone]
      simp [Cursor.skip]
    · cases hafter

theorem stringEnd?_append {quote : Char} (hquote : quote ≠ '/') {bound bound' : List Char}
    (hbound : lexeme.length ≤ bound'.length) {pos : Nat}
    (h : (stringEnd? quote bound ⟨lexeme ++ tail, pos⟩).map (·.rest) = some tail)
    (other : List Char) (pos' : Nat) :
    (stringEnd? quote bound' ⟨lexeme ++ other, pos'⟩).map (·.rest) = some other := by
  induction bound generalizing lexeme bound' pos pos' with
  | nil => cases h
  | cons d bound ih =>
    match lexeme, bound' with
    | [], _ =>
      obtain ⟨after, hafter, hrest⟩ := Option.map_eq_some_iff.mp h
      have hlt := length_of_stringEnd? hafter
      rw [hrest] at hlt
      exact absurd hlt (Nat.lt_irrefl _)
    | _ :: _, [] => cases hbound
    | ch :: text, d' :: bound' =>
      have hbound : text.length ≤ bound'.length := Nat.le_of_succ_le_succ hbound
      -- what is left of the string behind a place inside it
      have hleft {c : Cursor} (h : (stringEnd? quote bound c).map (·.rest) = some tail) :
          tail.length < c.rest.length := by
        obtain ⟨after, hafter, rfl⟩ := Option.map_eq_some_iff.mp h
        exact length_of_stringEnd? hafter
      -- a step that passes over some characters of the string
      have hskip {n pos pos' : Nat}
          (h : (stringEnd? quote bound ((⟨ch :: (text ++ tail), pos⟩ : Cursor).skip (n + 1))).map
            (·.rest) = some tail) :
          (stringEnd? quote bound' ((⟨ch :: (text ++ other), pos'⟩ : Cursor).skip (n + 1))).map
            (·.rest) = some other := by
        have hn : n ≤ text.length := by
          have hlt := hleft h
          simp only [Cursor.skip, List.drop_succ_cons, List.length_drop, List.length_append] at hlt
          omega
        simp only [Cursor.skip, List.drop_succ_cons, List.drop_append_of_le_length hn] at h ⊢
        exact ih (by rw [List.length_drop]; omega) h _
      rw [stringEnd?] at h ⊢
      dsimp only [List.cons_append] at h ⊢
      split at h
      · next hclose =>
        rw [if_pos hclose]
        have hnil : text = [] := List.append_left_eq_self.mp (Option.some.inj h)
        rw [hnil]
        rfl
      · next hopen =>
        rw [if_neg hopen]
        split at h
        · next hescape =>
          rw [if_pos hescape]
          cases hlength : stringEscapeLength (ch :: (text ++ tail)) with
          | zero =>
            rw [hlength] at h
            cases h
          | succ n =>
            rw [hlength] at h
            have hlt : n + 1 < (ch :: text).length := by
              have hlt := hleft h
              simp only [Cursor.skip, List.drop_succ_cons, List.length_drop, List.length_append]
                at hlt
              rw [List.length_cons]
              omega
            have hsame : stringEscapeLength (ch :: text ++ other) =
                stringEscapeLength (ch :: text ++ tail) :=
              stringEscapeLength_append (hlength ▸ Nat.succ_ne_zero n) (hlength ▸ hlt)
            rw [List.cons_append, List.cons_append, hlength] at hsame
            rw [hsame]
            exact hskip h
        · next hplain =>
          rw [if_neg hplain]
          split at h
          · next hbreak =>
            rw [if_pos hbreak]
            have hlocal {inner : List Char} {pos pos' : Nat} (hinner : inner.length < (ch :: text).length)
                (h : (stringEnd? quote bound ⟨inner ++ tail, pos⟩).map (·.rest) = some tail) :
                (stringEnd? quote bound' ⟨inner ++ other, pos'⟩).map (·.rest) = some other :=
              ih ((Nat.le_of_lt_succ hinner).trans hbound) h pos'
            exact stringBreak_append hquote hlocal rfl rfl h
          · next hinline =>
            rw [if_neg hinline]
            exact hskip h

theorem exists_of_string {c after : Cursor} {node : Node}
    (h : Parser.string c = some (node, after)) :
    ∃ quote text, c.rest = quote :: text ∧ (quote == '\x22' || quote == '\x27') = true ∧
      stringEnd? quote text (c.skip 1) = some after := by
  rw [Parser.string, Parser.get_bind] at h
  cases hrest : c.rest with
  | nil =>
    rw [hrest] at h
    cases h
  | cons quote text =>
    rw [hrest] at h
    dsimp only at h
    cases hquote : (quote == '\x22' || quote == '\x27') with
    | false =>
      rw [hquote] at h
      cases h
    | true =>
      rw [hquote] at h
      cases hend : stringEnd? quote text (c.skip 1) with
      | none =>
        rw [hend] at h
        cases h
      | some stop =>
        rw [hend] at h
        cases h
        exact ⟨quote, text, rfl, hquote, hend⟩

/-- A string that was read somewhere is read in the same way before any other text. -/
theorem string_append {node : Node} {pos stop : Nat}
    (h : Parser.string ⟨lexeme ++ tail, pos⟩ = some (node, ⟨tail, stop⟩)) (other : List Char)
    (pos' : Nat) :
    ∃ node' stop', Parser.string ⟨lexeme ++ other, pos'⟩ = some (node', ⟨other, stop'⟩) := by
  obtain ⟨quote, text, hrest, hquote, hend⟩ := exists_of_string h
  have hslash : quote ≠ '/' := by
    rintro rfl
    cases hquote
  have hlt := length_of_stringEnd? hend
  cases lexeme with
  | nil =>
    rw [Cursor.skip, List.length_drop] at hlt
    exact absurd hlt (Nat.not_lt.mpr (Nat.sub_le _ _))
  | cons first lexeme =>
    obtain ⟨rfl, rfl⟩ := List.cons.inj hrest
    have hbound : lexeme.length ≤ (lexeme ++ other).length := by
      rw [List.length_append]
      omega
    have hsame := stringEnd?_append hslash hbound (congrArg (Option.map Cursor.rest) hend) other
      ((⟨first :: lexeme ++ other, pos'⟩ : Cursor).skip 1).pos
    obtain ⟨⟨rest, stop'⟩, hend', rfl⟩ := Option.map_eq_some_iff.mp hsame
    exact ⟨_, stop', Suffix.string_of_stringEnd? rfl hquote hend'⟩

end

end NotebookCell.Script
