import NotebookCell.Proofs.Template.Raw

/-!
# Embedded content stays between its backticks

What an embedding writes between its two backticks has the holes of the content and no others, so that
none of its literal text is read as anything but text.

* `literalText_cooked`: this is so for all content that is embedded cooked;
* `literalText_raw`: raw embedding needs that no backtick of the literal text stands behind an odd run
  of backslashes.
-/

namespace NotebookCell.Template

open NotebookCell.Editing NotebookCell.Script

/-! ## Cooked content -/

/-- What reads as a template literal stays between its backticks. -/
theorem literalText_of_strings {escape : Char → Option (List Char)} {holes : List (List Char)}
    {pending text : List Char} {found : List (List Char)}
    (h : strings escape holes pending text = some found) :
    ∃ rest, text = pending ++ rest ∧ LiteralText holes rest := by
  fun_induction strings escape holes pending text generalizing found with
  | case1 => exact ⟨[], rfl, .nil⟩
  | case2 => cases h
  | case3 holes expected pending c rest hc ih =>
    obtain ⟨after, rfl, hafter⟩ := ih h
    rw [beq_iff_eq.mp hc]
    exact ⟨after, rfl, hafter⟩
  | case4 => cases h
  | case5 holes c rest text hescape ih =>
    obtain ⟨others, hothers, -⟩ := Option.map_eq_some_iff.mp h
    obtain ⟨after, rfl, hafter⟩ := ih hothers
    exact ⟨_, rfl, .escape hafter⟩
  | case6 => cases h
  | case7 hole holes rest ih =>
    obtain ⟨others, hothers, -⟩ := Option.map_eq_some_iff.mp h
    obtain ⟨after, rfl, hafter⟩ := ih hothers
    rw [List.append_assoc]
    exact ⟨_, rfl, .hole hafter⟩
  | case8 => cases h
  | case9 => cases h
  | case10 holes c rest hescape hhole hnone hspecial ih =>
    obtain ⟨others, hothers, -⟩ := Option.map_eq_some_iff.mp h
    obtain ⟨after, rfl, hafter⟩ := ih hothers
    refine ⟨c :: rest, rfl, ?_⟩
    rw [Bool.or_eq_true, not_or, beq_iff_eq, beq_iff_eq] at hspecial
    by_cases hdollar : c = '$'
    · subst hdollar
      refine .dollar (fun hbrace => ?_) hafter
      obtain ⟨tail, rfl⟩ := List.head?_eq_some_iff.mp hbrace
      cases holes with
      | nil => exact hnone tail rfl rfl rfl
      | cons hole holes => exact hhole hole holes tail rfl rfl rfl
    · refine .ordinary ?_ hafter
      simp [isOrdinary, hspecial, hdollar]

theorem literalText_cooked {source : List Char} {content : Content}
    (hparse : parse source = .ok content) :
    LiteralText (content.holes.map (Hole.text source)) (embedded .cooked source content) := by
  obtain ⟨rest, hrest, hliteral⟩ := literalText_of_strings (strings_escapesAt hparse)
  rw [embedded_cooked hparse, hrest]
  exact hliteral

/-! ## Raw content -/

/-- Raw content whose backticks stand behind even runs of backslashes stays between its backticks. -/
theorem literalText_raw {source : List Char} {content : Content}
    (hparse : parse source = .ok content) (hticks : content.TicksEven source) :
    LiteralText (content.holes.map (Hole.text source) ++ rawHoles source)
      (embedded .raw source content) := by
  obtain ⟨rest, hrest, hliteral⟩ := literalText_of_strings (strings_embedded_raw hparse hticks)
  rw [hrest]
  exact hliteral

end NotebookCell.Template
