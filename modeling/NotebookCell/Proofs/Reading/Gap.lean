import NotebookCell.Proofs.Reading.Locality

/-!
# Comments between tokens

What stands between two tokens is read comment by comment. `comment_cases` says what one step of that can
find, `trivia_induction` is the induction over the steps, and behind the last of them there is no blank
(`not_blank_of_trivia`).
-/

namespace NotebookCell.Script

open NotebookCell.Tree NotebookCell.Script.Parser

theorem head?_dropWhile_not (p : Char → Bool) (text : List Char) :
    (text.dropWhile fun c => !p c).head?.all p = true := by
  induction text with
  | nil => rfl
  | cons c text ih =>
    by_cases hc : p c = true
    · rw [List.dropWhile_cons_of_neg (by rw [hc]; exact Bool.false_ne_true)]
      exact hc
    · rw [List.dropWhile_cons_of_pos (by rw [Bool.not_eq_true] at hc; rw [hc]; rfl)]
      exact ih

/-- A comment is a line or a block, and what is behind a line breaks it. -/
theorem rest_of_comment? {c c' : Cursor} {node : Node} (h : c.comment? = some (node, c')) :
    (∃ body, c.rest = '/' :: '/' :: (body ++ c'.rest) ∧ (∀ d ∈ body, endsLineComment d = false) ∧
      c'.rest.head?.all endsLineComment = true) ∨
    ∃ body, c.rest = '/' :: '*' :: (body ++ c'.rest) ∧
      blockCommentLength? body = some body.length := by
  obtain ⟨text, pos⟩ := c
  have hrest : (⟨text, pos⟩ : Cursor).comment?.map (·.2.rest) = some c'.rest := by rw [h]; rfl
  rcases exists_of_comment? hrest with ⟨rest, rfl, hc⟩ | ⟨rest, length, rfl, hlength, hc⟩
  · refine .inl ⟨rest.takeWhile fun d => !endsLineComment d, ?_, ?_, ?_⟩
    · rw [hc]
      exact congrArg ('/' :: '/' :: ·) List.takeWhile_append_dropWhile.symm
    · intro d hd
      have hnot : (!endsLineComment d) = true :=
        List.mem_takeWhile_imp (p := fun d => !endsLineComment d) hd
      rwa [Bool.not_eq_true'] at hnot
    · rw [hc]
      exact head?_dropWhile_not endsLineComment _
  · have hle := (bounds_of_blockCommentLength? hlength).2
    refine .inr ⟨rest.take length, ?_, ?_⟩
    · rw [hc, List.take_append_drop]
    · rw [← List.take_append_drop length rest] at hlength
      have hsize : (rest.take length).length = length := List.length_take_of_le hle
      have halone := blockCommentLength?_append hlength (Nat.le_of_eq hsize.symm) []
      rw [List.append_nil] at halone
      rw [halone, hsize]

theorem comment_cases {c d : Cursor} {found : Option Node} (h : comment true c = some (found, d)) :
    (∃ node, found = some node ∧ node.kind = .htmlComment) ∨
      (found = none ∧ d = c.skipWhile isBlank ∧ d.comment? = none) ∨
      ∃ node, found = some node ∧ (c.skipWhile isBlank).comment? = some (node, d) := by
  rw [comment, get_bind, if_pos rfl] at h
  cases hmarkup : c.markupComment? with
  | some result =>
    rw [hmarkup] at h
    cases h
    rw [Cursor.markupComment?] at hmarkup
    split at hmarkup
    · cases hmarkup
      exact .inl ⟨_, rfl, rfl⟩
    · cases hmarkup
  | none =>
    rw [hmarkup] at h
    dsimp only at h
    cases hcomment : (c.skipWhile isBlank).comment? with
    | some result =>
      rw [hcomment] at h
      cases h
      exact .inr (.inr ⟨_, rfl, rfl⟩)
    | none =>
      rw [hcomment] at h
      cases h
      exact .inr (.inl ⟨rfl, rfl, hcomment⟩)

/-- A repetition stops at its first step that yields nothing, or runs out of characters. -/
theorem exists_of_collect {α : Type} {step : Parser (Option α)} {bound : List Char} {c c' : Cursor}
    {found : List α} (h : collect step bound c = some (found, c')) :
    (found = [] ∧ step c = some (none, c')) ∨
      ∃ a more d, found = a :: more ∧ step c = some (some a, d) ∧
        ((bound = [] ∧ more = [] ∧ d = c') ∨
          ∃ first rest, bound = first :: rest ∧ collect step rest d = some (more, c')) := by
  cases hstep : step c with
  | none =>
    rw [collect_of_refused hstep] at h
    cases h
  | some result =>
    obtain ⟨item, d⟩ := result
    cases item with
    | none =>
      rw [collect_of_none hstep] at h
      cases h
      exact .inl ⟨rfl, rfl⟩
    | some a =>
      cases bound with
      | nil =>
        replace h : (step c).bind (fun found => some (found.1.toList, found.2)) = some (found, c') := h
        rw [hstep] at h
        cases h
        exact .inr ⟨a, [], d, rfl, rfl, .inl ⟨rfl, rfl, rfl⟩⟩
      | cons first rest =>
        rw [collect_of_some hstep] at h
        obtain ⟨⟨more, e⟩, hmore, heq⟩ := Option.map_eq_some_iff.mp h
        cases heq
        exact .inr ⟨a, more, d, rfl, rfl, .inr ⟨first, rest, rfl, hmore⟩⟩

/-- What a repetition collects has whatever each of its steps yields. -/
theorem forall_mem_of_many {α : Type} {P : α → Prop} {step : Parser (Option α)} {c c' : Cursor}
    {found : List α} (hstep : ∀ c a c', step c = some (some a, c') → P a)
    (h : many step c = some (found, c')) : ∀ a ∈ found, P a := by
  have hcollect (bound : List Char) {c : Cursor} {found : List α}
      (h : collect step bound c = some (found, c')) : ∀ a ∈ found, P a := by
    induction bound generalizing c found with
    | nil =>
      rcases exists_of_collect h with ⟨rfl, -⟩ | ⟨a, more, d, rfl, ha, hmore⟩
      · exact List.forall_mem_nil _
      rcases hmore with ⟨-, rfl, -⟩ | ⟨_, _, hcons, -⟩
      · exact List.forall_mem_singleton.mpr (hstep _ _ _ ha)
      · cases hcons
    | cons _ bound ih =>
      rcases exists_of_collect h with ⟨rfl, -⟩ | ⟨a, more, d, rfl, ha, hmore⟩
      · exact List.forall_mem_nil _
      rcases hmore with ⟨hnil, -⟩ | ⟨_, _, hcons, hmore⟩
      · cases hnil
      cases hcons
      exact List.forall_mem_cons.mpr ⟨hstep _ _ _ ha, ih hmore⟩
  exact hcollect c.rest h

/-- There is nothing below a comment. -/
theorem children_of_comment {markup : Bool} {c c' : Cursor} {node : Node}
    (h : comment markup c = some (some node, c')) : node.children = [] := by
  rw [comment, get_bind] at h
  cases hmarkup : (if markup then c.markupComment? else none) with
  | some found =>
    rw [hmarkup] at h
    cases h
    cases markup with
    | false => cases hmarkup
    | true =>
      rw [if_pos rfl, Cursor.markupComment?] at hmarkup
      split at hmarkup
      · cases hmarkup
        rfl
      · cases hmarkup
  | none =>
    rw [hmarkup] at h
    dsimp only at h
    cases hcomment : (c.skipWhile isBlank).comment? with
    | none =>
      rw [hcomment] at h
      cases h
    | some found =>
      rw [hcomment] at h
      cases h
      rw [Cursor.comment?] at hcomment
      split at hcomment
      · cases hcomment
        rfl
      · obtain ⟨_, -, hleaf⟩ := Option.map_eq_some_iff.mp hcomment
        cases hleaf
        rfl
      · cases hcomment

theorem not_blank_skipWhile (c : Cursor) : (c.skipWhile isBlank).rest.head?.any isBlank = false := by
  show (c.rest.dropWhile isBlank).head?.any isBlank = false
  induction c.rest with
  | nil => rfl
  | cons d text ih =>
    by_cases hblank : isBlank d = true
    · rwa [List.dropWhile_cons_of_pos hblank]
    · rw [List.dropWhile_cons_of_neg hblank]
      exact Bool.not_eq_true _ ▸ hblank

theorem length_dropWhile_lt {p : Char → Bool} {first : Char} (h : p first = true) (text : List Char) :
    ((first :: text).dropWhile p).length < (first :: text).length := by
  rw [List.dropWhile_cons_of_pos h]
  exact Nat.lt_succ_of_le (List.dropWhile_sublist p).length_le

/-- A comment takes some text. -/
theorem length_of_comment {c d : Cursor} {node : Node} (h : comment true c = some (some node, d)) :
    d.rest.length < c.rest.length := by
  have hspaces : (c.skipWhile isSpacing).rest.length ≤ c.rest.length :=
    (List.dropWhile_sublist _).length_le
  have hblanks : (c.skipWhile isBlank).rest.length ≤ c.rest.length :=
    (List.dropWhile_sublist _).length_le
  rw [comment, get_bind, if_pos rfl] at h
  cases hmarkup : c.markupComment? with
  | some result =>
    rw [hmarkup] at h
    cases h
    rw [Cursor.markupComment?] at hmarkup
    split at hmarkup
    · next hstarts =>
      cases hmarkup
      refine Nat.lt_of_lt_of_le ?_ hspaces
      show ((c.skipWhile isSpacing).rest.dropWhile fun ch => !isLineBreak ch).length < _
      rw [Bool.or_eq_true] at hstarts
      rcases hstarts with hopen | hclose
      · obtain ⟨behind, hrest⟩ := List.isPrefixOf_iff_prefix.mp hopen
        rw [← hrest]
        exact length_dropWhile_lt (by decide) _
      · obtain ⟨behind, hrest⟩ := List.isPrefixOf_iff_prefix.mp hclose
        rw [← hrest]
        exact length_dropWhile_lt (by decide) _
    · cases hmarkup
  | none =>
    rw [hmarkup] at h
    dsimp only at h
    cases hcomment : (c.skipWhile isBlank).comment? with
    | none =>
      rw [hcomment] at h
      cases h
    | some result =>
      rw [hcomment] at h
      cases h
      refine Nat.lt_of_lt_of_le ?_ hblanks
      rcases rest_of_comment? hcomment with ⟨body, htext, -⟩ | ⟨body, htext, -⟩
      · rw [htext]
        simp only [List.length_cons, List.length_append]
        omega
      · rw [htext]
        simp only [List.length_cons, List.length_append]
        omega

/-- Comments are read one by one up to a place where there is none. -/
theorem trivia_induction {motive : Cursor → List Node → Prop} {c c' : Cursor} {nodes : List Node}
    (h : trivia c = some (nodes, c')) (last : ∀ c, comment true c = some (none, c') → motive c [])
    (step : ∀ c node d nodes, comment true c = some (some node, d) → motive d nodes →
      motive c (node :: nodes)) : motive c nodes := by
  have hcollect (bound : List Char) {c : Cursor} {nodes : List Node}
      (h : collect (comment true) bound c = some (nodes, c'))
      (hbound : c.rest.length ≤ bound.length) : motive c nodes := by
    induction bound generalizing c nodes with
    | nil =>
      rcases exists_of_collect h with ⟨rfl, hlast⟩ | ⟨_, _, _, -, hfirst, -⟩
      · exact last c hlast
      · have hless := length_of_comment hfirst
        rw [List.length_nil] at hbound
        omega
    | cons _ bound ih =>
      rcases exists_of_collect h with ⟨rfl, hlast⟩ | ⟨node, more, d, rfl, hfirst, hmore⟩
      · exact last c hlast
      rcases hmore with ⟨hnil, -⟩ | ⟨_, _, hcons, hmore⟩
      · cases hnil
      cases hcons
      have hless := length_of_comment hfirst
      rw [List.length_cons] at hbound
      exact step c node d more hfirst (ih hmore (by omega))
  exact hcollect c.rest h le_rfl

/-- No blank is left behind comments. -/
theorem not_blank_of_trivia {c d : Cursor} {nodes : List Node} (h : trivia c = some (nodes, d)) :
    d.rest.head?.any isBlank = false := by
  refine trivia_induction (motive := fun _ _ => d.rest.head?.any isBlank = false) h ?_ ?_
  · intro c hlast
    rcases comment_cases hlast with ⟨_, hsome, -⟩ | ⟨-, rfl, -⟩ | ⟨_, hsome, -⟩
    · cases hsome
    · exact not_blank_skipWhile c
    · cases hsome
  · exact fun _ _ _ _ _ ih => ih

end NotebookCell.Script
