import Mathlib.Data.List.TakeWhile
import NotebookCell.Proofs.Editing.Text

/-!
# Trimming

Trimming a buffer deletes the white space at the two ends of its source, or all of it where there is
nothing else. What is left are the characters from `leading source` on, as many as the trimmed text
has (`isCovered_trim`).
-/

namespace NotebookCell.Editing

open NotebookCell.Text

/-! ## White space around a text -/

/-- The number of white characters that a text starts with. -/
def leading (source : List Char) : Nat := source.length - (trimStart source).length

theorem length_trimStart_le (source : List Char) : (trimStart source).length ≤ source.length :=
  (List.dropWhile_suffix isWhite).length_le

theorem trimStart_eq_drop (source : List Char) : trimStart source = source.drop (leading source) :=
  List.suffix_iff_eq_drop.mp (List.dropWhile_suffix isWhite)

/-- What is trimmed at the end starts with what is left. -/
theorem trimEnd_initial (text : List Char) : trimEnd text <+: text := by
  rw [trimEnd, ← List.reverse_suffix, List.reverse_reverse]
  exact List.dropWhile_suffix isWhite

/-- A trimmed text is the stretch of the source behind its leading white space. -/
theorem trim_eq_take_drop (source : List Char) :
    trim source = (source.drop (leading source)).take (trim source).length := by
  rw [← trimStart_eq_drop]
  exact List.prefix_iff_eq_take.mp (trimEnd_initial _)

theorem leading_add_length_trim_le (source : List Char) :
    leading source + (trim source).length ≤ source.length := by
  have hstart := length_trimStart_le source
  have hend := (trimEnd_initial (trimStart source)).length_le
  rw [leading, trim]
  omega

/-- The source is its leading white space, the trimmed text and the rest. -/
theorem source_eq_trim (source : List Char) :
    source = source.take (leading source) ++
      (trim source ++ source.drop (leading source + (trim source).length)) := by
  have hrest : trim source ++ source.drop (leading source + (trim source).length) =
      source.drop (leading source) := by
    rw [← List.drop_drop]
    conv_lhs => arg 1; rw [trim_eq_take_drop source]
    exact List.take_append_drop ..
  rw [hrest, List.take_append_drop]

theorem trimEnd_eq_nil_iff (text : List Char) :
    trimEnd text = [] ↔ ∀ c ∈ text, isWhite c = true := by
  rw [trimEnd, List.reverse_eq_nil_iff, List.dropWhile_eq_nil_iff]
  simp

/-- What is left behind leading white space is nothing or starts with something else. -/
theorem exists_not_white {text : List Char} (h : trimStart text ≠ []) :
    ∃ c ∈ trimStart text, isWhite c = false :=
  ⟨_, List.head_mem h, List.head_dropWhile_not isWhite h⟩

/-- Only white space trims to nothing. -/
theorem trim_eq_nil_iff (text : List Char) : trim text = [] ↔ ∀ c ∈ text, isWhite c = true := by
  rw [trim, trimEnd_eq_nil_iff]
  constructor
  · intro hwhite
    have hnone : trimStart text = [] := by
      by_contra hsome
      obtain ⟨c, hc, hblack⟩ := exists_not_white hsome
      rw [hwhite c hc] at hblack
      cases hblack
    exact List.dropWhile_eq_nil_iff.mp hnone
  · intro hwhite c hc
    exact hwhite c ((List.dropWhile_suffix isWhite).mem hc)

/-- Where there is more than white space, trimming the end leaves the leading white space and the
trimmed text. -/
theorem length_trimEnd {source : List Char} (h : leading source ≠ source.length) :
    (trimEnd source).length = leading source + (trim source).length := by
  have hle : leading source ≤ source.length := Nat.sub_le ..
  have hsome : trimStart source ≠ [] := by
    rw [trimStart_eq_drop, ne_eq, List.drop_eq_nil_iff]
    omega
  obtain ⟨c, hc, hblack⟩ := exists_not_white hsome
  have hrest : ((trimStart source).reverse.dropWhile isWhite).isEmpty = false := by
    rw [List.isEmpty_eq_false_iff, ne_eq, List.dropWhile_eq_nil_iff]
    intro hwhite
    rw [hwhite c (List.mem_reverse.mpr hc)] at hblack
    cases hblack
  have hsplit : source.reverse =
      (trimStart source).reverse ++ (source.take (leading source)).reverse := by
    rw [← List.reverse_append, trimStart_eq_drop, List.take_append_drop]
  rw [trimEnd, hsplit, List.dropWhile_append, hrest, trim, trimEnd]
  simp [hle]

/-- A character that is no white space is in the trimmed text. -/
theorem inside_of_not_white {source : List Char} {pos : Nat} {c : Char} (h : source[pos]? = some c)
    (hblack : isWhite c = false) :
    leading source ≤ pos ∧ pos < leading source + (trim source).length := by
  have hnot {text : List Char} : c ∉ text.takeWhile isWhite := by
    intro hmem
    rw [List.mem_takeWhile_imp hmem] at hblack
    cases hblack
  have hhead : source.takeWhile isWhite ++ trimStart source = source :=
    List.takeWhile_append_dropWhile
  have htail : trim source ++ ((trimStart source).reverse.takeWhile isWhite).reverse =
      trimStart source := by
    rw [trim, trimEnd, ← List.reverse_append, List.takeWhile_append_dropWhile, List.reverse_reverse]
  have hleading : (source.takeWhile isWhite).length = leading source := by
    have hlength := congrArg List.length hhead
    rw [List.length_append] at hlength
    rw [leading]
    omega
  rw [← hhead, ← htail] at h
  by_cases hlow : leading source ≤ pos
  · rw [List.getElem?_append_right (by omega), hleading] at h
    refine ⟨hlow, ?_⟩
    by_contra hhigh
    rw [List.getElem?_append_right (by omega)] at h
    exact hnot (List.mem_reverse.mp (List.mem_of_getElem? h))
  · rw [List.getElem?_append_left (by omega)] at h
    exact absurd (List.mem_of_getElem? h) hnot

/-! ## What trimming deletes -/

/-- Trimming covers what is not in the trimmed text. -/
theorem isCovered_trim (source : List Char) (pos : Nat) :
    isCovered (Operation.edits source .trim) pos = (decide (pos < source.length) &&
      (decide (pos < leading source) || decide (leading source + (trim source).length ≤ pos))) := by
  have hranges : isCovered (Operation.edits source .trim) pos =
      (Buffer.margins source).any fun range => decide (range.1 ≤ pos) && decide (pos < range.2) := by
    rw [isCovered, Operation.edits, List.any_map, List.any_filter]
    congr 1
    funext range
    -- an empty range covers nothing
    by_cases hempty : range.1 = range.2
    · simp [hempty]
    · simp [hempty, Edit.covers]
  have hsum := leading_add_length_trim_le source
  rw [hranges, Buffer.margins]
  split
  · next hblank =>
    rw [beq_iff_eq] at hblank
    simp only [List.any_cons, List.any_nil, leading]
    grind
  · next hblank =>
    rw [beq_iff_eq] at hblank
    rw [length_trimEnd hblank, ← leading]
    simp only [List.any_cons, List.any_nil]
    grind

/-- Nothing is trimmed between two characters that are no white space. -/
theorem isCovered_trim_between {source : List Char} {first last pos : Nat} {c d : Char}
    (hfirst : source[first]? = some c) (hc : isWhite c = false) (hlast : source[last]? = some d)
    (hd : isWhite d = false) (hlow : first ≤ pos) (hhigh : pos ≤ last) :
    isCovered (Operation.edits source .trim) pos = false := by
  have hstart := (inside_of_not_white hfirst hc).1
  have hstop := (inside_of_not_white hlast hd).2
  rw [isCovered_trim, decide_eq_false (show ¬pos < leading source by omega),
    decide_eq_false (show ¬leading source + (trim source).length ≤ pos by omega), Bool.or_false,
    Bool.and_false]

/-- Weaving over a source that is trimmed is weaving over the trimmed text, if nothing is written
outside of it. -/
theorem weave_trim {before : Nat → List Char} {gone : Nat → Bool} {source : List Char}
    (hbefore : ∀ p, p < leading source ∨ leading source + (trim source).length < p →
      before p = []) :
    weave before (fun p => isCovered (Operation.edits source .trim) p || gone p) 0 source =
      weave before gone (leading source) (trim source) := by
  have hsum := leading_add_length_trim_le source
  have hlead : (source.take (leading source)).length = leading source := by
    rw [List.length_take]
    omega
  have hrest : (source.drop (leading source + (trim source).length)).length =
      source.length - (leading source + (trim source).length) := List.length_drop
  calc
    _ = weave before (fun p => isCovered (Operation.edits source .trim) p || gone p) 0
          (source.take (leading source) ++
            (trim source ++ source.drop (leading source + (trim source).length))) :=
      congrArg _ (source_eq_trim source)
    _ = weave before (fun p => isCovered (Operation.edits source .trim) p || gone p) (leading source)
          (trim source ++ source.drop (leading source + (trim source).length)) := by
      rw [weave_gone_append, Nat.zero_add, hlead]
      · intro p _ hp
        exact hbefore p (by omega)
      · intro p _ hp
        have hcovered : p < source.length ∧ p < leading source := by omega
        simp [isCovered_trim, hcovered]
    _ = weave before (fun p => isCovered (Operation.edits source .trim) p || gone p) (leading source)
          (trim source) := by
      apply weave_append_gone
      · intro p hp _
        exact hbefore p (by omega)
      · intro p hp hlength
        have hcovered : p < source.length ∧ leading source + (trim source).length ≤ p := by omega
        simp [isCovered_trim, hcovered]
    _ = weave before gone (leading source) (trim source) := by
      apply weave_congr
      · intro p _ _
        rfl
      · intro p hlow hhigh
        have hkept : ¬p < leading source ∧ ¬leading source + (trim source).length ≤ p := by omega
        simp [isCovered_trim, hkept]

end NotebookCell.Editing
