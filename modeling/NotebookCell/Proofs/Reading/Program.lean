import NotebookCell.Proofs.Reading.Statement
import NotebookCell.Script.Parse

/-!
# Whole scripts

Every level of nesting reads a character or goes from a statement to its first expression. So
grammars of different depths do the same on a text that is short for both (`subs_parsers`), and the
depth that a script is read with is never reached.

`sound_of_parse?`: the tree of a script keeps the promises of `Node.Sound`.
-/

namespace NotebookCell.Script

open NotebookCell.Tree NotebookCell.Script.Parser

namespace Suffix

variable {t : Suffix} {m n : Nat}

/-! ## Depth -/

/-- One level further up, expressions may be as long as statements were, and statements may be longer
by a character than expressions were. -/
theorem Subs.step {e s d d' : Nat} (h : t.Subs s (e - 1) (parsers d) (parsers d')) (hs : s ≤ e)
    (he : e ≤ s + 1) : t.Subs e s (parsers (d + 1)) (parsers (d' + 1)) := by
  have hlt {m k : Nat} (hm : m ≤ e) (hk : k < m) : t.Subs k k (parsers d) (parsers d') :=
    h.mono (by omega) (by omega)
  have hle {m : Nat} (hm : m ≤ s) : t.Subs m (e - 1) (parsers d) (parsers d') := h.mono hm le_rfl
  exact {
    expression := fun m hm level asi => .inner fun _ hk => reads_expression_lt (hlt hm hk) level asi
    construct := fun m hm asi => .inner fun _ hk => reads_construct_lt (hlt hm hk) asi
    markup := fun m hm => .inner fun _ hk => reads_markup_lt (hlt hm hk)
    statement := fun m hm => reads_statement (hle hm) (by omega)
    opening := fun m hm => reads_openingStatement (hle hm) (by omega) }

theorem subs_of_le (depth : Nat) : ∀ {d d' e s : Nat}, depth ≤ d → depth ≤ d' → e + s ≤ depth →
    s ≤ e → e ≤ s + 1 → t.Subs e s (parsers d) (parsers d') := by
  have hnone {α β : Type} {A : α → β → Prop} {p : Parser α} {q : Parser β} {m : Nat} (hm : m ≤ 0) :
      t.Reads m m A p q := fun c hc => absurd hc.lt (by omega)
  induction depth with
  | zero =>
    intro d d' e s _ _ hsum _ _
    obtain rfl : e = 0 := by omega
    obtain rfl : s = 0 := by omega
    exact ⟨fun _ hm _ _ => hnone hm, fun _ hm _ => hnone hm, fun _ hm => hnone hm,
      fun _ hm => hnone hm, fun _ hm => hnone hm⟩
  | succ depth ih =>
    intro d d' e s hd hd' hsum hs he
    obtain ⟨d, rfl⟩ : ∃ k, d = k + 1 := ⟨d - 1, by omega⟩
    obtain ⟨d', rfl⟩ : ∃ k, d' = k + 1 := ⟨d' - 1, by omega⟩
    have hsub : t.Subs s (e - 1) (parsers d) (parsers d') :=
      ih (by omega) (by omega) (by omega) (by omega) (by omega)
    exact hsub.step hs he

/-- Grammars that are deep enough do the same. -/
theorem subs_parsers {d d' : Nat} (hd : 2 * n ≤ d) (hd' : 2 * n ≤ d') :
    t.Subs n n (parsers d) (parsers d') :=
  subs_of_le (2 * n) hd hd' (by omega) le_rfl (by omega)

/-! ## Scripts -/

theorem reads_hashBangLine : t.Reads m m t.Parts hashBangLine hashBangLine := by
  refine .get fun c hc => ?_
  refine reads_trivia.bind fun hlead => .get fun d hd => ?_
  refine .ite (fun _ => ?_) fun _ => (reads_set ⟨hc, rfl⟩).seq <| .ret .nil
  have hafter : t.Inside m (d.skipWhile (· != '\n')) := hd.skipWhile _
  refine (reads_set ⟨hafter, Cursor.skipWhile_moved _ _ _⟩).seq <| .ret ?_
  refine hlead.append (Copy.one (P := fun node => node.field = none) ?_)
  rw [Cursor.skipWhile_moved]
  exact copy_node rfl hd.at hafter.at (.nil (P := fun _ => True))

theorem reads_program {sub sub' : Parsers} (h : t.Subs n n sub sub') (hoffset : t.offset = 0) :
    t.Reads n n t.Fresh (program sub) (program sub') := by
  have hstart : t.At 0 0 := ⟨⟨[], t.text, rfl, rfl⟩, by rw [hoffset]⟩
  refine reads_hashBangLine.bind fun hlead => (reads_statements h).bind fun hbody => ?_
  refine .get fun c _ => ?_
  exact (reads_require _).seq <| reads_node rfl hstart (hlead.append hbody)

theorem inside_ofText (text : List Char) (offset : Nat) :
    Inside ⟨text, offset⟩ (text.length + 1) (.ofText text) :=
  ⟨⟨[], rfl, rfl⟩, Nat.lt_succ_self _⟩

end Suffix

theorem program_of_parse? {text : List Char} {root : Node} (h : parse? text = some root) :
    ∃ c, program (parsers (2 * text.length + 10)) (.ofText text) = some (root, c) := by
  rw [parse?] at h
  split at h
  · cases h
  · split at h
    · next hprogram =>
      split at h
      · cases h
      · cases h
        exact ⟨_, hprogram⟩
    · cases h

/-- The tree of a script is sound. -/
theorem sound_of_parse? {text : List Char} {root : Node} (h : parse? text = some root) :
    root.Sound text := by
  obtain ⟨c, hprogram⟩ := program_of_parse? h
  have hsubs : Suffix.Subs ⟨text, 0⟩ (text.length + 1) (text.length + 1)
      (parsers (2 * text.length + 10)) (parsers (2 * text.length + 10)) :=
    Suffix.subs_parsers (by omega) (by omega)
  obtain ⟨_, -, ⟨-, hsound, -⟩, -⟩ :=
    (Suffix.reads_program hsubs rfl).eq_some (Suffix.inside_ofText text 0) hprogram
  exact hsound

end NotebookCell.Script
