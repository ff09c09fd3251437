import Mathlib.Data.List.Induction
import NotebookCell.Text.Position

/-!
# Lines and columns mark offsets

`placeOf` counts the line feeds in front of an offset for the line and looks back to the last of them for
the column. Here a place is measured against the lines of the text, the parts between its line feeds:
`Place.Marks` says that it lies in one of them and which offset it stands for.

* `splitOn_append_eq`: the text in front of an offset ends in the line of its place;
* `marks_placeOf`: the place of an offset marks it;
* `Place.Marks.lt_of_before`: an earlier place marks an earlier offset.
-/

namespace NotebookCell.Text

/-- The number of characters of some lines, each with the line feed behind it. -/
def extent : List (List Char) → Nat
  | [] => 0
  | line :: lines => line.length + 1 + extent lines

theorem extent_append (lines others : List (List Char)) :
    extent (lines ++ others) = extent lines + extent others := by
  induction lines with
  | nil => exact (Nat.zero_add _).symm
  | cons line lines ih =>
    rw [List.cons_append, extent, extent, ih]
    omega

theorem extent_singleton (line : List Char) : extent [line] = line.length + 1 := rfl

theorem extent_take_le (lines : List (List Char)) {i j : Nat} (h : i ≤ j) :
    extent (lines.take i) ≤ extent (lines.take j) := by
  obtain ⟨k, rfl⟩ := Nat.exists_eq_add_of_le h
  rw [List.take_add, extent_append]
  exact Nat.le_add_right _ _

theorem extent_take_succ {lines : List (List Char)} {i : Nat} {line : List Char}
    (h : lines[i]? = some line) :
    extent (lines.take (i + 1)) = extent (lines.take i) + (line.length + 1) := by
  rw [List.take_add_one, h, extent_append]
  rfl

namespace Place

/-- A place marks an offset of a text: it lies in one of the lines, at the latest right behind the last
character, and the lines in front of it and the column make up the offset. -/
structure Marks (text : List Char) (place : Place) (offset : Int) : Prop where
  one_le_line : 1 ≤ place.line
  line_le : place.line ≤ (text.splitOn '\n').length
  column_le : ∃ line, (text.splitOn '\n')[place.line - 1]? = some line ∧ place.column ≤ line.length
  offset_eq : ((extent ((text.splitOn '\n').take (place.line - 1)) + place.column : Nat) : Int) = offset

/-- A place comes before another in lexicographic order. -/
def Before (first second : Place) : Prop :=
  first.line < second.line ∨ first.line = second.line ∧ first.column < second.column

theorem eq_or_before (first second : Place) :
    first = second ∨ first.Before second ∨ second.Before first := by
  obtain ⟨line, column⟩ := first
  obtain ⟨line', column'⟩ := second
  unfold Before
  rw [Place.mk.injEq]
  dsimp only
  omega

variable {text : List Char} {place place' : Place} {offset offset' : Int}

/-- An earlier place marks an earlier offset. -/
theorem Marks.lt_of_before (h : place.Marks text offset) (h' : place'.Marks text offset')
    (hbefore : place.Before place') : offset < offset' := by
  rw [← h.offset_eq, ← h'.offset_eq]
  rcases hbefore with hline | ⟨hline, hcolumn⟩
  · -- the whole line of the first place lies in front of the line of the second
    obtain ⟨line, hget, hcolumn⟩ := h.column_le
    have hwhole := extent_take_succ hget
    have hfront := extent_take_le (text.splitOn '\n') (show place.line - 1 + 1 ≤ place'.line - 1 by
      have := h.one_le_line
      omega)
    omega
  · rw [hline]
    omega

/-- No two places mark one offset. -/
theorem Marks.unique (h : place.Marks text offset) (h' : place'.Marks text offset) :
    place = place' := by
  rcases eq_or_before place place' with heq | hbefore | hbefore
  · exact heq
  · exact absurd (h.lt_of_before h' hbefore) (Int.lt_irrefl _)
  · exact absurd (h'.lt_of_before h hbefore) (Int.lt_irrefl _)

/-- Places come in the order of the offsets that they mark. -/
theorem Marks.before_of_lt (h : place.Marks text offset) (h' : place'.Marks text offset')
    (hlt : offset < offset') : place.Before place' := by
  rcases eq_or_before place place' with rfl | hbefore | hbefore
  · have := h.offset_eq.symm.trans h'.offset_eq
    omega
  · exact hbefore
  · have := h'.lt_of_before h hbefore
    omega

end Place

/-! ## The line of an offset -/

/-- The text in front of an offset consists of whole lines and the beginning of one more, which goes on
behind the offset. The whole lines are counted by their line feeds, and the beginning is what a look back
to the last line feed finds. -/
theorem splitOn_append_eq (before : List Char) :
    ∃ earlier line, earlier.length = before.count '\n' ∧
      line.length = (before.reverse.takeWhile (· != '\n')).length ∧
      extent earlier + line.length = before.length ∧
      ∀ behind rest later, behind.splitOn '\n' = rest :: later →
        (before ++ behind).splitOn '\n' = earlier ++ (line ++ rest) :: later := by
  -- from one offset to the next: a character goes to the end of the line, and a line feed ends it
  induction before using List.reverseRecOn with
  | nil => exact ⟨[], [], rfl, rfl, rfl, fun behind rest later h => h⟩
  | append_singleton before c ih =>
    obtain ⟨earlier, line, hcount, hcolumn, hextent, hlines⟩ := ih
    rw [List.count_append, List.reverse_append, List.length_append]
    by_cases hfeed : c = '\n'
    · subst hfeed
      refine ⟨earlier ++ [line], [], ?_, rfl, ?_, ?_⟩
      · rw [List.length_append, hcount]
        rfl
      · rw [extent_append, extent_singleton, ← hextent]
        rfl
      · intro behind rest later hbehind
        rw [List.append_assoc, List.append_assoc]
        have hnext : ('\n' :: behind).splitOn '\n' = [] :: rest :: later := by
          rw [List.splitOn_cons_eq_if_modifyHead, if_pos (beq_self_eq_true '\n'), hbehind]
        have h := hlines _ _ _ hnext
        rw [List.append_nil] at h
        exact h
    · refine ⟨earlier, line ++ [c], ?_, ?_, ?_, ?_⟩
      · rw [List.count_singleton, if_neg (by simpa using hfeed), hcount]
        rfl
      · rw [List.length_append, hcolumn, List.reverse_singleton, List.singleton_append,
          List.takeWhile_cons_of_pos (by simpa using hfeed)]
        rfl
      · rw [List.length_append, ← hextent, Nat.add_assoc]
      · intro behind rest later hbehind
        have hnext : (c :: behind).splitOn '\n' = (c :: rest) :: later := by
          rw [List.splitOn_cons_eq_if_modifyHead, if_neg (by simpa using hfeed), hbehind]
          rfl
        rw [List.append_assoc, List.append_assoc]
        exact hlines _ _ _ hnext

theorem cast_clamp (length : Nat) (pos : Int) :
    (clamp length pos : Int) = max 0 (min pos length) := by
  unfold clamp
  omega

/-- The place of an offset marks it; an offset outside of the text is taken for its nearest end. -/
theorem marks_placeOf (text : List Char) (pos : Int) :
    (placeOf text pos).Marks text (max 0 (min pos text.length)) := by
  rw [← cast_clamp]
  have hle : clamp text.length pos ≤ text.length := Nat.min_le_right _ _
  generalize hoffset : clamp text.length pos = offset at hle
  obtain ⟨earlier, line, hcount, hcolumn, hextent, hlines⟩ := splitOn_append_eq (text.take offset)
  obtain ⟨rest, later, hbehind⟩ := List.exists_cons_of_ne_nil
    (List.splitOn_ne_nil '\n' (text.drop offset))
  have htext := hlines _ _ _ hbehind
  rw [List.take_append_drop] at htext
  have hplace : placeOf text pos = ⟨earlier.length + 1, line.length⟩ := by
    unfold placeOf
    rw [hoffset, hcount, hcolumn]
  rw [hplace]
  constructor
  · exact Nat.le_add_left _ _
  · rw [htext, List.length_append, List.length_cons]
    show earlier.length + 1 ≤ _
    omega
  · refine ⟨line ++ rest, ?_, ?_⟩
    · rw [htext, Nat.add_sub_cancel, List.getElem?_append_right (Nat.le_refl _), Nat.sub_self]
      rfl
    · rw [List.length_append]
      exact Nat.le_add_right _ _
  · rw [htext, Nat.add_sub_cancel, List.take_left, hextent, List.length_take_of_le hle]

/-- The line and column of an offset are the only ones that mark it, in the lines that the text has
between its line feeds, where an offset outside of the text is taken for its nearest end. So different
offsets of a text have different places, and later ones have later places. -/
theorem placeOf_eq_iff_marks (text : List Char) :
    (∀ (pos : Int) (place : Place),
      placeOf text pos = place ↔ place.Marks text (max 0 (min pos text.length))) ∧
    (∀ pos pos' : Int, 0 ≤ pos → pos ≤ text.length → 0 ≤ pos' → pos' ≤ text.length →
      placeOf text pos = placeOf text pos' → pos = pos') ∧
    (∀ pos pos' : Int, 0 ≤ pos → pos < pos' → pos' ≤ text.length →
      (placeOf text pos).Before (placeOf text pos')) := by
  have hinside {pos : Int} (hlower : 0 ≤ pos) (hupper : pos ≤ text.length) :
      (placeOf text pos).Marks text pos := by
    have hmarks := marks_placeOf text pos
    rwa [show max 0 (min pos text.length) = pos by omega] at hmarks
  refine ⟨?_, ?_, ?_⟩
  · intro pos place
    constructor
    · rintro rfl
      exact marks_placeOf text pos
    · exact (marks_placeOf text pos).unique
  · intro pos pos' hlower hupper hlower' hupper' heq
    have hmarks := hinside hlower hupper
    rw [heq] at hmarks
    exact hmarks.offset_eq.symm.trans (hinside hlower' hupper').offset_eq
  · intro pos pos' hlower hlt hupper
    exact (hinside hlower (by omega)).before_of_lt (hinside (by omega) hupper) hlt

/-- In a text with an empty line each end of a line has its own place, and what lies behind the text has
the place of its end. -/
theorem placeOf_eq_iff_marks_emptyLine :
    let text := ['a', 'b', '\n', '\n', 'c']
    placeOf text 9 = ⟨3, 1⟩ ∧ (⟨3, 1⟩ : Place).Marks text 5 ∧
      (placeOf text 2).Before (placeOf text 3) ∧ (placeOf text 3).Before (placeOf text 4) ∧
      ∀ pos : Int, 0 ≤ pos → pos ≤ 5 → placeOf text pos = ⟨2, 0⟩ → pos = 3 := by
  intro text
  obtain ⟨hmarks, hinjective, hmono⟩ := placeOf_eq_iff_marks text
  refine ⟨by decide, (hmarks 9 ⟨3, 1⟩).mp (by decide), ?_, ?_, ?_⟩
  · exact hmono 2 3 (by decide) (by decide) (by decide)
  · exact hmono 3 4 (by decide) (by decide) (by decide)
  · intro pos hlower hupper hplace
    exact hinjective pos 3 hlower hupper (by decide) (by decide) hplace

end NotebookCell.Text
