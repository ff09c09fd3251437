import Mathlib.Algebra.Group.Nat.Even
import Mathlib.Order.Bounds.Basic
import NotebookCell.Proofs.Template.Content

/-!
# Where literal text ends

The reader of literal text takes a backslash together with the character behind it. Here its answer is
given without reading: literal text ends at the first `${` with an even number of backslashes directly
before it, where those in front of the start do not count. The lemmas about stretches apply to the text
from the start on, since the reader does not look back.
-/

namespace NotebookCell.Template

/-- The number of backslashes directly before an offset, counted back no further than `start`. -/
def slashesSince (source : List Char) (start pos : Nat) : Nat :=
  ((slice source start pos).reverse.takeWhile (· == '\\')).length

/-- A hole opens at an offset of text that begins at `start`: `${` stands there, behind an even number
of backslashes. -/
def IsOpening (source : List Char) (start pos : Nat) : Prop :=
  start ≤ pos ∧ pos < source.length ∧ opensAt source pos = true ∧
    Even (slashesSince source start pos)

variable {source : List Char} {start pos : Nat}

/-- Seen from the start, an opening is one of the text from there on. -/
theorem isOpening_iff (source : List Char) (start count : Nat) :
    IsOpening source start (start + count) ↔
      opensAt (source.drop start) count = true ∧ slashesBefore (source.drop start) count % 2 = 0 := by
  have hslashes : slashesSince source start (start + count) =
      slashesBefore (source.drop start) count := by
    unfold slashesSince slashesBefore slice
    rw [Nat.add_sub_cancel_left]
  have hopens : opensAt (source.drop start) count = opensAt source (start + count) := by
    unfold opensAt
    rw [List.drop_drop]
  have hinside : opensAt source (start + count) = true → start + count < source.length := by
    unfold opensAt
    intro h
    have hlength := (List.isPrefixOf_iff_prefix.mp h).length_le
    rw [List.length_drop] at hlength
    have : "$\x7b".toList.length = 2 := rfl
    omega
  unfold IsOpening
  rw [hslashes, hopens, Nat.even_iff]
  constructor
  · intro h
    exact h.2.2
  · intro h
    exact ⟨Nat.le_add_right _ _, hinside h.1, h⟩

/-- The reader counts on from where its text stands. -/
theorem literalEnd_add (start pos : Nat) (text : List Char) :
    literalEnd (start + pos) text = start + literalEnd pos text := by
  fun_induction literalEnd pos text with
  | case1 pos => rfl
  | case2 pos c rest ih =>
    rw [literalEnd]
    exact ih
  | case3 pos rest =>
    unfold literalEnd
    rfl
  | case4 pos c rest hslash hopen ih =>
    rw [literalEnd.eq_4 _ _ _ hslash hopen]
    exact ih

/-- Literal text from `start` on ends as a stretch of the text from there on. -/
theorem exists_stretch_drop (hstart : start < source.length) :
    ∃ count, readLiteral source start = start + count ∧ Stretch (source.drop start) 0 count := by
  refine ⟨literalEnd 0 (source.drop start), ?_, ?_⟩
  · unfold readLiteral
    rw [if_neg (by omega)]
    exact literalEnd_add start 0 (source.drop start)
  · -- nothing stands before the text itself
    apply stretch_literalEnd List.drop_zero (Nat.zero_le _)
    rfl

/-- The reader stops at an opening, or at the end of the source. -/
theorem isOpening_readLiteral (hstop : readLiteral source start ≠ source.length) :
    IsOpening source start (readLiteral source start) := by
  have hstart : start < source.length := by
    by_contra hle
    unfold readLiteral at hstop
    rw [if_pos (by omega)] at hstop
    exact hstop rfl
  obtain ⟨count, heq, hstretch⟩ := exists_stretch_drop hstart
  have hinside := hstretch.inside
  rw [List.length_drop] at hinside
  rw [heq] at hstop ⊢
  rw [isOpening_iff]
  apply hstretch.opens
  rw [List.length_drop]
  omega

/-- The reader passes over no opening. -/
theorem readLiteral_le_of_isOpening (hopening : IsOpening source start pos) :
    readLiteral source start ≤ pos := by
  have hle := hopening.1
  have hlt := hopening.2.1
  obtain ⟨count, heq, hstretch⟩ := exists_stretch_drop (show start < source.length by omega)
  obtain ⟨offset, rfl⟩ := Nat.exists_eq_add_of_le hle
  obtain ⟨hopens, heven⟩ := (isOpening_iff source start offset).mp hopening
  rw [heq]
  by_contra hbehind
  -- inside of a stretch only an odd run stands before `${`
  have hodd := hstretch.odd_of_opens offset (Nat.zero_le _) (by omega) hopens
  omega

/-- Literal text ends at the first opening at or behind its start, and at the end of the source if there
is none. -/
theorem readLiteral_eq_iff (source : List Char) (start stop : Nat) :
    readLiteral source start = stop ↔
      IsLeast {pos | IsOpening source start pos} stop ∨
        (stop = source.length ∧ ∀ pos, ¬ IsOpening source start pos) := by
  have hleast (hstop : readLiteral source start ≠ source.length) :
      IsLeast {pos | IsOpening source start pos} (readLiteral source start) :=
    ⟨isOpening_readLiteral hstop, fun _ hpos => readLiteral_le_of_isOpening hpos⟩
  constructor
  · intro h
    subst h
    by_cases hend : readLiteral source start = source.length
    · right
      refine ⟨hend, fun pos hopening => ?_⟩
      have hle := readLiteral_le_of_isOpening hopening
      have hlt := hopening.2.1
      omega
    · left
      exact hleast hend
  · intro h
    have hopening (pos : Nat) (hpos : IsOpening source start pos) :
        readLiteral source start ≠ source.length := by
      have hle := readLiteral_le_of_isOpening hpos
      have hlt := hpos.2.1
      omega
    rcases h with h | ⟨rfl, hnone⟩
    · exact (hleast (hopening stop h.1)).unique h
    · by_contra hend
      exact hnone _ (isOpening_readLiteral hend)

/-- Behind two backslashes a hole opens, unless the text begins between them. -/
example : readLiteral "\\\\$\x7b".toList 0 = 2 ∧ readLiteral "\\\\$\x7b".toList 1 = 4 := by decide

end NotebookCell.Template
