import NotebookCell.Proofs.Reading.Gap
import NotebookCell.Proofs.Reading.Program
import NotebookCell.Proofs.Reading.Span

/-!
# The statements of a program one by one

A program is a series of statements, each with the comments behind it. The loop that reads it has a
bound, but in a program that is read to its end every step moves on, so the bound is never reached
(`series_of_collect`) and any larger bound does as well (`collect_of_series`).
-/

namespace NotebookCell.Script

open NotebookCell.Tree NotebookCell.Script.Parser

/-! ## Cursors in a text -/

/-- The cursor is somewhere in the text. -/
def Within (text : List Char) (c : Cursor) : Prop :=
  ∃ before, text = before ++ c.rest ∧ byteLength before = c.pos

theorem within_ofText (text : List Char) : Within text (.ofText text) := ⟨[], rfl, rfl⟩

/-- In a text, what is left tells where a cursor is. -/
theorem Within.eq_of_length {text : List Char} {c d : Cursor} (hc : Within text c)
    (hd : Within text d) (hlength : d.rest.length = c.rest.length) : d = c := by
  obtain ⟨before, htext, hpos⟩ := hc
  obtain ⟨before', htext', hpos'⟩ := hd
  obtain ⟨hbefore, hrest⟩ := List.append_inj' (htext'.symm.trans htext) hlength
  obtain ⟨rest, pos⟩ := c
  obtain ⟨rest', pos'⟩ := d
  rw [hbefore, hpos] at hpos'
  exact congr (congrArg Cursor.mk hrest) hpos'.symm

section
variable {α β : Type} {A : α → β → Prop} {t : Suffix} {m : Nat}

theorem inside_of_within {text : List Char} {c : Cursor} (h : Within text c) (offset : Nat) :
    Suffix.Inside ⟨text, offset⟩ (c.rest.length + 1) c := ⟨h, Nat.lt_succ_self _⟩

/-- A parser that reads alike at two places stays in the text and does not move back. -/
theorem within_of_reads {p : Parser α} {q : Parser β} {c d : Cursor} {a : α}
    (h : t.Reads (c.rest.length + 1) (c.rest.length + 1) A p q) (hc : Within t.text c)
    (hp : p c = some (a, d)) : Within t.text d ∧ d.rest.length ≤ c.rest.length := by
  obtain ⟨_, -, -, hd⟩ := h.eq_some ⟨hc, Nat.lt_succ_self _⟩ hp
  exact ⟨hd.mark, Nat.le_of_lt_succ hd.lt⟩

end

/-! ## Repetitions -/

section
variable {α : Type} {step : Parser (Option α)}

/-- Some steps of a repetition, each of which moves on. -/
inductive Series (step : Parser (Option α)) : Cursor → List α → Cursor → Prop
  | done (c : Cursor) : Series step c [] c
  | next {c d e : Cursor} {a : α} {more : List α} (hstep : step c = some (some a, d))
      (hless : d.rest.length < c.rest.length) (hmore : Series step d more e) :
      Series step c (a :: more) e

/-- A step that does not move is repeated where it is. -/
theorem eq_of_collect {bound : List Char} {c c' : Cursor} {a : α} {found : List α}
    (hstep : step c = some (some a, c)) (h : collect step bound c = some (found, c')) : c' = c := by
  induction bound generalizing found with
  | nil =>
    rcases exists_of_collect h with ⟨-, hnone⟩ | ⟨_, _, d, -, hsome, ⟨-, -, rfl⟩ | ⟨_, _, hbound, -⟩⟩
    · cases hstep.symm.trans hnone
    · cases hstep.symm.trans hsome
      rfl
    · cases hbound
  | cons first bound ih =>
    rcases exists_of_collect h with ⟨-, hnone⟩ | ⟨_, _, d, -, hsome, ⟨hbound, -⟩ | ⟨_, _, hbound, hrest⟩⟩
    · cases hstep.symm.trans hnone
    · cases hbound
    · cases hstep.symm.trans hsome
      cases hbound
      exact ih hrest

/-- A repetition that goes on to the end of the text moves on with each step and ends with one that
yields nothing. -/
theorem series_of_collect {text bound : List Char} {c c' : Cursor} {found : List α}
    (hc : Within text c) (h : collect step bound c = some (found, c')) (hend : c'.rest = [])
    (hbound : c.rest.length ≤ bound.length)
    (hforward : ∀ c a d, Within text c → step c = some (some a, d) →
      c.rest ≠ [] ∧ Within text d ∧ d.rest.length ≤ c.rest.length) :
    ∃ d, Series step c found d ∧ Within text d ∧ step d = some (none, c') := by
  induction bound generalizing c found with
  | nil =>
    rcases exists_of_collect h with ⟨rfl, hnone⟩ | ⟨a, _, d, -, hsome, -⟩
    · exact ⟨c, .done c, hc, hnone⟩
    · have hrest : c.rest = [] := List.length_eq_zero_iff.mp (Nat.le_zero.mp hbound)
      exact absurd hrest (hforward c a d hc hsome).1
  | cons first bound ih =>
    rcases exists_of_collect h with
      ⟨rfl, hnone⟩ | ⟨a, more, d, rfl, hsome, ⟨hnil, -⟩ | ⟨_, _, hcons, hmore⟩⟩
    · exact ⟨c, .done c, hc, hnone⟩
    · cases hnil
    · cases hcons
      obtain ⟨hne, hd, hle⟩ := hforward c a d hc hsome
      have hless : d.rest.length < c.rest.length := by
        refine Nat.lt_of_le_of_ne hle fun hequal => ?_
        -- a step in place would be repeated for ever, and the end never be reached
        obtain rfl := hc.eq_of_length hd hequal
        rw [eq_of_collect hsome hmore] at hend
        exact hne hend
      rw [List.length_cons] at hbound
      obtain ⟨e, hseries, he, hlast⟩ := ih hd hmore (by omega)
      exact ⟨e, .next hsome hless hseries, he, hlast⟩

theorem collect_of_series {bound : List Char} {c d c' : Cursor} {found : List α}
    (h : Series step c found d) (hlast : step d = some (none, c'))
    (hbound : c.rest.length ≤ bound.length) : collect step bound c = some (found, c') := by
  induction h generalizing bound with
  | done c => exact collect_of_none hlast bound
  | next hstep hless _ ih =>
    cases bound with
    | nil =>
      rw [List.length_nil] at hbound
      omega
    | cons first bound =>
      rw [List.length_cons] at hbound
      rw [collect_of_some hstep, ih hlast (by omega)]
      rfl

end

/-! ## Statements -/

/-- The kind of a step of the loop over statements. -/
theorem exists_of_statementStep {statement : Parser Node} {c d : Cursor} {group : List Node}
    (h : statementStep statement c = some (some group, d)) :
    c.rest ≠ [] ∧ ∃ node gap e, group = node :: gap ∧ statement c = some (node, e) ∧
      trivia e = some (gap, d) := by
  rw [statementStep, get_bind] at h
  split at h
  · cases h
  · next hempty =>
    obtain ⟨node, e, hnode, hrest⟩ := exists_of_bind h
    obtain ⟨gap, d', hgap, hpure⟩ := exists_of_bind hrest
    cases hpure
    refine ⟨fun hnil => hempty ?_, node, gap, e, rfl, hnode, hgap⟩
    rw [hnil]
    rfl

/-- What is read between statements is none. -/
theorem isStatementKind_of_trivia {text : List Char} {c d : Cursor} {gap : List Node}
    (hc : Within text c) (h : trivia c = some (gap, d)) :
    ∀ remark ∈ gap, isStatementKind remark.kind = false := by
  obtain ⟨_, -, hgaps, -⟩ := Suffix.reads_trivia.eq_some (inside_of_within hc 0) h
  intro remark hremark
  have hkind := (hgaps.1 remark hremark).1.1
  rw [Node.isRemark, Bool.or_eq_true, beq_iff_eq, beq_iff_eq] at hkind
  rcases hkind with hkind | hkind <;> rw [hkind] <;> rfl

/-- A statement of a program: where it begins and ends, and where the next one may begin. -/
structure StatementAt (text : List Char) (c : Cursor) (node : Node) (gap : List Node) (e d : Cursor) :
    Prop where
  start_eq : node.start = c.pos
  stop_eq : node.stop = e.pos
  kind : isStatementKind node.kind = true
  named : node.named = true
  within_stop : Within text e
  stop_le : e.rest.length ≤ c.rest.length
  within_next : Within text d
  next_le : d.rest.length ≤ e.rest.length
  gap_eq : trivia e = some (gap, d)

theorem length_le_of_within {text : List Char} {c : Cursor} (h : Within text c) :
    c.rest.length ≤ text.length := by
  obtain ⟨before, rfl, -⟩ := h
  rw [List.length_append]
  omega

theorem statementAt_of_step {text : List Char} {depth : Nat} (hdepth : 2 * (text.length + 1) ≤ depth)
    {c d : Cursor} {group : List Node} (hc : Within text c)
    (h : statementStep (parsers depth).statement c = some (some group, d)) :
    c.rest ≠ [] ∧ ∃ node gap e, group = node :: gap ∧ StatementAt text c node gap e d := by
  obtain ⟨hne, node, gap, e, hgroup, hnode, hgap⟩ := exists_of_statementStep h
  have hsubs : Suffix.Subs ⟨text, 0⟩ (text.length + 1) (text.length + 1) (parsers depth)
      (parsers depth) := Suffix.subs_parsers hdepth hdepth
  obtain ⟨he, hstop⟩ := within_of_reads
    (hsubs.statement _ (Nat.succ_le_succ (length_le_of_within hc))) hc hnode
  obtain ⟨hd, hnext⟩ := within_of_reads (t := ⟨text, 0⟩) Suffix.reads_trivia he hgap
  obtain ⟨depth, rfl⟩ : ∃ k, depth = k + 1 := ⟨depth - 1, by omega⟩
  obtain ⟨hstart, hend, hkind, hnamed⟩ := spans_statement depth c node e hnode
  exact ⟨hne, node, gap, e, hgroup, hstart, hend, hkind, hnamed, he, hstop, hd, hnext, hgap⟩

/-! ## Programs -/

theorem program_eq {sub : Parsers} {text : List Char} {lead : List Node} {c : Cursor}
    (htrivia : trivia (.ofText text) = some (lead, c)) (hbang : c.startsWith "#!" = false) :
    program sub (.ofText text) =
      match many (statementStep sub.statement) c with
      | some (groups, d) =>
        if d.rest.isEmpty then
          some ({ kind := .program, start := 0, stop := d.pos, children := lead ++ groups.flatten }, d)
        else none
      | none => none := by
  have hline : hashBangLine (.ofText text) = some ([], .ofText text) := by
    rw [hashBangLine, get_bind, bind_of_eq htrivia, get_bind, hbang]
    rfl
  rw [program, bind_of_eq hline, statements]
  cases hmany : many (statementStep sub.statement) c with
  | none =>
    refine bind_of_refused ?_ _
    rw [bind_of_eq htrivia]
    exact bind_of_refused hmany _
  | some result =>
    obtain ⟨groups, d⟩ := result
    have hbody : (do
        let lead ← trivia
        return lead ++ (← many (statementStep sub.statement)).flatten) (.ofText text) =
          some (lead ++ groups.flatten, d) := by
      rw [bind_of_eq htrivia, bind_of_eq hmany]
      rfl
    rw [bind_of_eq hbody, get_bind]
    dsimp only
    cases d.rest.isEmpty <;> rfl

theorem eq_of_statementStep_none {statement : Parser Node} {c d : Cursor}
    (h : statementStep statement c = some (none, d)) : d = c := by
  rw [statementStep, get_bind] at h
  split at h
  · cases h
    rfl
  · obtain ⟨node, e, -, hrest⟩ := exists_of_bind h
    obtain ⟨gap, d', -, hpure⟩ := exists_of_bind hrest
    cases hpure

/-- The depth that a script is read with. -/
def depthOf (text : List Char) : Nat := 2 * text.length + 10

/-- The parts of a program. -/
theorem exists_of_program {sub : Parsers} {text : List Char} {root : Node} {d : Cursor}
    (h : program sub (.ofText text) = some (root, d)) :
    ∃ line b lead c groups, hashBangLine (.ofText text) = some (line, b) ∧
      trivia b = some (lead, c) ∧ many (statementStep sub.statement) c = some (groups, d) ∧
      d.rest = [] ∧ root.children = line ++ (lead ++ groups.flatten) := by
  rw [program] at h
  obtain ⟨line, b, hline, hbody⟩ := exists_of_bind h
  obtain ⟨body, d', hstatements, hend⟩ := exists_of_bind hbody
  rw [statements] at hstatements
  obtain ⟨lead, c, hlead, hmany⟩ := exists_of_bind hstatements
  obtain ⟨groups, d'', hgroups, hpure⟩ := exists_of_bind hmany
  cases hpure
  rw [get_bind] at hend
  obtain ⟨_, e, hrequire, hnode⟩ := exists_of_bind hend
  have hempty : d'.rest = [] ∧ e = d' := by
    cases hempty : d'.rest.isEmpty with
    | true =>
      rw [hempty] at hrequire
      cases hrequire
      exact ⟨List.isEmpty_iff.mp hempty, rfl⟩
    | false =>
      rw [hempty] at hrequire
      cases hrequire
  obtain ⟨hrest, rfl⟩ := hempty
  cases hnode
  exact ⟨line, b, lead, c, groups, hline, hlead, hgroups, hrest, rfl⟩

/-- The line that names an interpreter is no statement. -/
theorem isStatementKind_of_hashBangLine {text : List Char} {c d : Cursor} {line : List Node}
    (hc : Within text c) (h : hashBangLine c = some (line, d)) :
    ∀ node ∈ line, isStatementKind node.kind = false := by
  rw [hashBangLine, get_bind] at h
  obtain ⟨lead, e, hlead, hrest⟩ := exists_of_bind h
  rw [get_bind] at hrest
  split at hrest
  · cases hrest
    intro node hnode
    rcases List.mem_append.mp hnode with hnode | hnode
    · exact isStatementKind_of_trivia hc hlead node hnode
    · rw [List.mem_singleton.mp hnode]
      rfl
  · cases hrest
    exact List.forall_mem_nil _

/-- A program is a series of statements up to the end, with comments in front. -/
theorem series_of_parse? {text : List Char} {root : Node} (h : parse? text = some root) :
    ∃ line b lead c groups d, hashBangLine (.ofText text) = some (line, b) ∧
      trivia b = some (lead, c) ∧ Within text b ∧ Within text c ∧
      Series (statementStep (parsers (depthOf text)).statement) c groups d ∧ d.rest = [] ∧
      root.children = line ++ (lead ++ groups.flatten) ∧ anyStrayDefault root.children = false ∧
      '\x00' ∉ text := by
  rw [parse?] at h
  split at h
  · cases h
  next hnull =>
  split at h
  · next root' d hprogram =>
    split at h
    · cases h
    next hstray =>
    cases h
    obtain ⟨line, b, lead, c, groups, hline, hlead, hmany, hend, hchildren⟩ :=
      exists_of_program hprogram
    have hb : Within text b :=
      (within_of_reads (t := ⟨text, 0⟩) Suffix.reads_hashBangLine (within_ofText text) hline).1
    have hc : Within text c := (within_of_reads (t := ⟨text, 0⟩) Suffix.reads_trivia hb hlead).1
    have hdepth : 2 * (text.length + 1) ≤ depthOf text := by
      rw [depthOf]
      omega
    obtain ⟨e, hseries, -, hlast⟩ := series_of_collect hc hmany hend (Nat.le_refl _)
      fun c group d hc hstep => by
        obtain ⟨hne, node, gap, e, -, hat⟩ := statementAt_of_step hdepth hc hstep
        exact ⟨hne, hat.within_next, Nat.le_trans hat.next_le hat.stop_le⟩
    obtain rfl := eq_of_statementStep_none hlast
    refine ⟨line, b, lead, c, groups, _, hline, hlead, hb, hc, hseries, hend, hchildren, ?_, ?_⟩
    · obtain ⟨kind, _, _, _, _, _, children⟩ := root
      rw [hasStrayDefault, Bool.not_eq_true, Bool.or_eq_false_iff] at hstray
      exact hstray.2
    · simpa using hnull
  · cases h

end NotebookCell.Script
