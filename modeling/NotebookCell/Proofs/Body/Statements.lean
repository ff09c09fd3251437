import NotebookCell.Proofs.Body.Emission
import NotebookCell.Proofs.Reading.Place
import NotebookCell.Proofs.Reading.Series

/-!
# The statements of a program

The statements at the top level of a program stand one behind the other (`le_startIn_of_series`), each
between two places of the text, and its import statements are among them (`topImports_eq`). What goes
with a statement that is taken out is its own text and perhaps the line break behind it (`goesWith`),
never a part of the next one (`goesWith_of_le`).
-/

namespace NotebookCell

open NotebookCell.Tree NotebookCell.Text NotebookCell.Editing NotebookCell.Script NotebookCell.Body
open NotebookCell.Script.Parser

/-- The statements among the children of a program. -/
def statementsIn (nodes : List Node) : List Node := nodes.filter fun node => isStatementKind node.kind

/-- The statements at the top level of a program. -/
def topStatements (body : Node) : List Node := statementsIn body.children

/-- How many characters of the text are in front of the cursor. -/
def position (text : List Char) (c : Cursor) : Nat := text.length - c.rest.length

/-- Whether the character at an offset goes with the statement between two others. -/
def goesWith (text : List Char) (start stop pos : Nat) : Bool :=
  start ≤ pos && (pos < stop ||
    (pos == stop && text[pos]? == some '\n' && (text.drop (pos + 1)).any fun c => !isWhite c))

section
variable {text : List Char} {c d e : Cursor}

theorem drop_position (h : Within text c) : text.drop (position text c) = c.rest := by
  obtain ⟨before, htext, -⟩ := h
  have hposition : position text c = before.length := by
    rw [position, htext, List.length_append]
    omega
  rw [hposition]
  nth_rewrite 1 [htext]
  exact List.drop_left

theorem char_of_within (h : Within text c) :
    (Offsets.ofSource text 0).char c.pos = position text c := by
  obtain ⟨before, htext, hpos⟩ := h
  rw [Offsets.char_ofSource htext (by omega), position]
  nth_rewrite 1 [htext]
  rw [List.length_append]
  omega

theorem position_le (h : d.rest.length ≤ c.rest.length) : position text c ≤ position text d :=
  Nat.sub_le_sub_left h _

theorem getElem?_position (h : Within text c) : text[position text c]? = c.rest.head? := by
  rw [← drop_position h, List.head?_drop]

theorem goesWith_of_lt {start stop pos : Nat} (h : pos < start) :
    goesWith text start stop pos = false := by
  rw [goesWith, decide_eq_false (Nat.not_le.mpr h)]
  rfl

/-- Nothing goes with a statement from the next token on. -/
theorem goesWith_of_le {start stop pos : Nat} (hd : Within text d)
    (hblank : d.rest.head?.any isBlank = false) (hstop : stop ≤ position text d)
    (hpos : position text d ≤ pos) :
    goesWith text start stop pos = false := by
  have hbreak : (pos == stop && text[pos]? == some '\n') = false := by
    rw [Bool.and_eq_false_iff, beq_eq_false_iff_ne, beq_eq_false_iff_ne]
    by_cases hne : pos = stop
    · obtain rfl : pos = position text d := by omega
      refine .inr fun hbreak => ?_
      rw [← getElem?_position hd, hbreak] at hblank
      cases hblank
    · exact .inl hne
  rw [goesWith, hbreak, decide_eq_false (Nat.not_lt.mpr (Nat.le_trans hstop hpos))]
  simp

/-- A statement covers the characters between its cursors. -/
theorem Script.StatementAt.startIn_eq {node : Node} {gap : List Node} (hc : Within text c)
    (h : StatementAt text c node gap e d) :
    node.startIn (.ofSource text 0) = position text c := by
  rw [Node.startIn, h.start_eq, char_of_within hc]

theorem Script.StatementAt.stopIn_eq {node : Node} {gap : List Node}
    (h : StatementAt text c node gap e d) :
    node.stopIn (.ofSource text 0) = position text e := by
  rw [Node.stopIn, h.stop_eq, char_of_within h.within_stop]

end

theorem statementsIn_append (nodes more : List Node) :
    statementsIn (nodes ++ more) = statementsIn nodes ++ statementsIn more := List.filter_append ..

theorem statementsIn_remarks {nodes : List Node}
    (h : ∀ node ∈ nodes, isStatementKind node.kind = false) : statementsIn nodes = [] := by
  refine List.filter_eq_nil_iff.mpr fun node hnode => ?_
  rw [h node hnode]
  exact Bool.false_ne_true

/-- A statement with the comments behind it. -/
theorem statementsIn_group {node : Node} {gap : List Node} (hkind : isStatementKind node.kind = true)
    (hgap : ∀ remark ∈ gap, isStatementKind remark.kind = false) (groups : List (List Node)) :
    statementsIn ((node :: gap) :: groups).flatten = node :: statementsIn groups.flatten := by
  have hone : statementsIn [node] = [node] := List.filter_cons_of_pos hkind
  rw [List.flatten_cons, ← List.singleton_append, statementsIn_append, statementsIn_append, hone,
    statementsIn_remarks hgap, List.append_nil, List.singleton_append]

section
variable {text : List Char} {depth : Nat} {c d : Cursor} {groups : List (List Node)}

/-- The statements of a program come one behind the other. -/
theorem le_startIn_of_series (hdepth : 2 * (text.length + 1) ≤ depth)
    (h : Series (statementStep (parsers depth).statement) c groups d) (hc : Within text c) :
    ∀ node ∈ statementsIn groups.flatten, node.named = true ∧
      position text c ≤ node.startIn (.ofSource text 0) ∧
      node.startIn (.ofSource text 0) ≤ node.stopIn (.ofSource text 0) := by
  induction h with
  | done c => exact List.forall_mem_nil _
  | next hstep _ _ ih =>
    obtain ⟨-, node, gap, e, rfl, hat⟩ := statementAt_of_step hdepth hc hstep
    rw [statementsIn_group hat.kind (isStatementKind_of_trivia hat.within_stop hat.gap_eq)]
    refine List.forall_mem_cons.mpr ⟨⟨hat.named, (hat.startIn_eq hc).ge, ?_⟩, fun other hother => ?_⟩
    · rw [hat.startIn_eq hc, hat.stopIn_eq]
      exact position_le hat.stop_le
    · obtain ⟨hnamed, hstart, hstop⟩ := ih hat.within_next other hother
      exact ⟨hnamed, Nat.le_trans (position_le (Nat.le_trans hat.next_le hat.stop_le)) hstart, hstop⟩

end

theorem topImports_eq {body : Node} (h : ∀ node ∈ topStatements body, node.named = true) :
    topImports body = (topStatements body).filter (·.kind == .importStatement) := by
  rw [topImports, topStatements, statementsIn, Node.namedChildren, List.filter_filter,
    List.filter_filter]
  refine List.filter_congr fun node hnode => ?_
  by_cases hkind : node.kind = .importStatement
  · have hstatement : node ∈ topStatements body := by
      refine List.mem_filter.mpr ⟨hnode, ?_⟩
      rw [hkind]
      rfl
    rw [hkind, h node hstatement]
    rfl
  · rw [beq_eq_false_iff_ne.mpr hkind, Bool.false_and, Bool.false_and]

end NotebookCell
