import NotebookCell.Proofs.Ending.Grammar
import NotebookCell.Proofs.Reading.Series
import NotebookCell.Proofs.Script.Program

/-!
# A group before two ends

The expressions of a group stand in a row, with a comma between any two (`Row`). A row that is read up
to the line break and the parenthesis is read up to the other end as well, unless it ends with a line
comment (`Row.follows`). At its new place it can be the contents of a group again
(`collect_of_row`), or of any other construct that holds expressions (`Row.expressions`).
-/

namespace NotebookCell.Script

open NotebookCell.Tree NotebookCell.Script.Parser

/-- The cursor is neither at a mark of a list nor at a spread element. -/
structure StartsItem (c : Cursor) : Prop where
  close : c.startsWith ")" = false
  comma : c.startsWith "," = false
  dots : c.startsWith "..." = false

/-- Expressions with commas between them and comments around them. A comma is nothing in the list of
items. -/
inductive Row (sub : Parsers) : Cursor → List (Option Node) → Cursor → Prop
  | last {c c₁ c₂ : Cursor} {node : Node} {gap : List Node} (hstart : StartsItem c)
      (hnode : sub.expression Level.lowest false c = some (node, c₁))
      (hgap : plainTrivia c₁ = some (gap, c₂)) : Row sub c (some node :: gap.map some) c₂
  | more {c c₁ c₂ c₃ c₄ c₅ : Cursor} {node : Node} {gap gap' : List Node} {items : List (Option Node)}
      (hstart : StartsItem c) (hnode : sub.expression Level.lowest false c = some (node, c₁))
      (hgap : plainTrivia c₁ = some (gap, c₂)) (hcomma : literal "," c₂ = some ((), c₃))
      (hgap' : trivia c₃ = some (gap', c₄)) (hrest : Row sub c₄ items c₅) :
      Row sub c (some node :: (gap.map some ++ none :: (gap'.map some ++ items))) c₅

variable {sub : Parsers} {c c' d : Cursor} {items : List (Option Node)}

/-! ## The items of a group -/

/-- The constructs among items, other than comments. -/
def constructs (items : List (Option Node)) : Nat :=
  (items.filterMap id).countP fun node => !node.isRemark

/-- The commas among items. -/
def commas (items : List (Option Node)) : Nat :=
  items.countP (·.isNone)

theorem constructs_append (items items' : List (Option Node)) :
    constructs (items ++ items') = constructs items + constructs items' := by
  rw [constructs, List.filterMap_append, List.countP_append]
  rfl

theorem commas_append (items items' : List (Option Node)) :
    commas (items ++ items') = commas items + commas items' :=
  List.countP_append

/-- There is no construct among comments. -/
theorem constructs_gap {gap : List Node} (h : ∀ node ∈ gap, IsGap node) :
    constructs (gap.map some) = 0 := by
  rw [constructs, List.filterMap_map, List.countP_eq_zero]
  intro node hnode
  have hmem : node ∈ gap := by simpa using hnode
  rw [(h node hmem).1]
  exact Bool.false_ne_true

theorem commas_gap (gap : List Node) : commas (gap.map some) = 0 := by
  rw [commas, List.countP_eq_zero]
  intro item hitem
  obtain ⟨node, -, rfl⟩ := List.mem_map.mp hitem
  exact Bool.false_ne_true

theorem constructs_cons_some (node : Node) (items : List (Option Node)) :
    constructs (some node :: items) = constructs items + if node.isRemark then 0 else 1 := by
  show (node :: items.filterMap id).countP (fun node => !node.isRemark) = _
  rw [List.countP_cons]
  cases node.isRemark <;> rfl

theorem commas_cons_some (node : Node) (items : List (Option Node)) :
    commas (some node :: items) = commas items :=
  List.countP_cons_of_neg Bool.false_ne_true

theorem constructs_cons_none (items : List (Option Node)) :
    constructs (none :: items) = constructs items := rfl

theorem commas_cons_none (items : List (Option Node)) :
    commas (none :: items) = commas items + 1 :=
  List.countP_cons_of_pos rfl

/-- A step of the loop over the items of a group. -/
theorem listStep_cases {found : Option (List (Option Node))} {c' : Cursor}
    (h : listStep ")" (element sub) c = some (found, c')) :
    (found = none ∧ c' = c ∧ c.startsWith ")" = true) ∨
      (∃ c₁ gap, found = some (none :: gap.map some) ∧ literal "," c = some ((), c₁) ∧
        trivia c₁ = some (gap, c')) ∨
      ∃ node c₁ gap, found = some (some node :: gap.map some) ∧ c.startsWith ")" = false ∧
        c.startsWith "," = false ∧ element sub c = some (node, c₁) ∧
        plainTrivia c₁ = some (gap, c') ∧ (c'.startsWith "," || c'.startsWith ")") = true := by
  rw [listStep, get_bind] at h
  cases hclose : c.startsWith ")" with
  | true =>
    rw [hclose] at h
    cases h
    exact .inl ⟨rfl, rfl, rfl⟩
  | false =>
    rw [hclose, if_neg Bool.false_ne_true] at h
    cases hcomma : c.startsWith "," with
    | true =>
      rw [hcomma, if_pos rfl] at h
      obtain ⟨_, c₁, hliteral, h⟩ := exists_of_bind h
      obtain ⟨gap, c₂, hgap, h⟩ := exists_of_bind h
      cases h
      exact .inr (.inl ⟨c₁, gap, rfl, hliteral, hgap⟩)
    | false =>
      rw [hcomma, if_neg Bool.false_ne_true] at h
      obtain ⟨node, c₁, hnode, h⟩ := exists_of_bind h
      obtain ⟨gap, c₂, hgap, h⟩ := exists_of_bind h
      rw [get_bind] at h
      cases hend : c₂.startsWith "," || c₂.startsWith ")" with
      | false =>
        rw [hend] at h
        cases h
      | true =>
        rw [hend] at h
        cases h
        exact .inr (.inr ⟨node, c₁, gap, rfl, rfl, rfl, hnode, hgap, hend⟩)

/-- The list of a group ends at its parenthesis. -/
theorem listStep_close (h : c.startsWith ")" = true) :
    listStep ")" (element sub) c = some (none, c) := by
  rw [listStep, get_bind, h]
  rfl

/-- An element that spreads nothing is an expression. -/
theorem expression_of_element {node : Node} (h : element sub c = some (node, c'))
    (hkind : node.kind ≠ .spreadElement) :
    c.startsWith "..." = false ∧ sub.expression Level.lowest false c = some (node, c') := by
  rw [element, get_bind] at h
  cases hdots : c.startsWith "..." with
  | true =>
    rw [hdots, if_pos rfl, spread, position_bind] at h
    obtain ⟨_, _, -, h⟩ := exists_of_bind h
    obtain ⟨_, _, -, h⟩ := exists_of_bind h
    obtain ⟨_, _, -, h⟩ := exists_of_bind h
    cases h
    exact absurd rfl hkind
  | false =>
    rw [hdots, if_neg Bool.false_ne_true] at h
    exact ⟨rfl, h⟩

/-- Items among which no two constructs follow each other: there is at most one construct more than
there are commas, and if there is one more the items are a row. -/
structure Listed (sub : Parsers) (c : Cursor) (items : List (Option Node)) (c' : Cursor) : Prop where
  le : constructs items ≤ commas items + 1
  row : constructs items = commas items + 1 → Row sub c items c'

/-- Such items behind a comma. -/
structure Continued (sub : Parsers) (c : Cursor) (items : List (Option Node)) (c' : Cursor) : Prop where
  le : constructs items ≤ commas items
  row : constructs items = commas items → ∃ c₁ c₂ gap rest, items = none :: (gap.map some ++ rest) ∧
    literal "," c = some ((), c₁) ∧ trivia c₁ = some (gap, c₂) ∧ Row sub c₂ rest c'

theorem Continued.listed (h : Continued sub c items c') : Listed sub c items c' :=
  ⟨Nat.le_succ_of_le h.le, fun heq => absurd h.le (by omega)⟩

theorem listed_nil (sub : Parsers) (c c' : Cursor) : Listed sub c [] c' :=
  ⟨Nat.zero_le _, fun h => absurd h (Nat.succ_ne_zero 0).symm⟩

/-- A comma in front of listed items. -/
theorem Listed.comma {c₁ c₂ : Cursor} {gap : List Node} (h : Listed sub c₂ items c')
    (hcomma : literal "," c = some ((), c₁)) (hgap : trivia c₁ = some (gap, c₂)) :
    Continued sub c (none :: (gap.map some ++ items)) c' := by
  have hcommas : commas (none :: (gap.map some ++ items)) = commas items + 1 := by
    rw [commas_cons_none, commas_append, commas_gap, Nat.zero_add]
  have hconstructs : constructs (none :: (gap.map some ++ items)) = constructs items := by
    rw [constructs_cons_none, constructs_append, constructs_gap (Ending.isGap_of_trivia hgap),
      Nat.zero_add]
  constructor
  · rw [hcommas, hconstructs]
    exact h.le
  · intro heq
    rw [hcommas, hconstructs] at heq
    exact ⟨c₁, c₂, gap, items, rfl, hcomma, hgap, h.row heq⟩

/-- An expression in front of listed items. -/
theorem Listed.element {c₁ c₂ : Cursor} {node : Node} {gap : List Node} (hstart : StartsItem c)
    (hnode : sub.expression Level.lowest false c = some (node, c₁))
    (hgap : plainTrivia c₁ = some (gap, c₂)) (h : items = [] ∧ c' = c₂ ∨ Continued sub c₂ items c') :
    Listed sub c (some node :: (gap.map some ++ items)) c' := by
  have hcommas : commas (some node :: (gap.map some ++ items)) = commas items := by
    rw [commas_cons_some, commas_append, commas_gap, Nat.zero_add]
  have hconstructs : constructs (some node :: (gap.map some ++ items)) =
      constructs items + if node.isRemark then 0 else 1 := by
    rw [constructs_cons_some, constructs_append, constructs_gap (Ending.isGap_of_plainTrivia hgap),
      Nat.zero_add]
  have hone : (if node.isRemark then 0 else 1) ≤ 1 := by split <;> omega
  have hle : constructs items ≤ commas items := by
    rcases h with ⟨rfl, -⟩ | h
    · exact le_rfl
    · exact h.le
  refine ⟨by omega, fun heq => ?_⟩
  rcases h with ⟨rfl, rfl⟩ | h
  · rw [List.append_nil]
    exact .last hstart hnode hgap
  · obtain ⟨c₃, c₄, gap', rest, rfl, hcomma, hgap', hrow⟩ := h.row (by omega)
    exact .more hstart hnode hgap hcomma hgap' hrow

/-- No items where a group ends. -/
theorem listed_of_end (h : listStep ")" (element sub) c = some (none, c')) :
    Listed sub c [] c' ∧ (c.startsWith "," = true → Continued sub c [] c') := by
  refine ⟨listed_nil sub c c', fun hcomma => ?_⟩
  obtain ⟨-, -, hclose⟩ | ⟨_, _, hnone, -⟩ | ⟨_, _, _, hnone, -⟩ := listStep_cases h
  · obtain ⟨rest, hrest⟩ := Ending.rest_of_startsWith rfl hclose
    obtain ⟨rest', hrest'⟩ := Ending.rest_of_startsWith rfl hcomma
    cases hrest.symm.trans hrest'
  · cases hnone
  · cases hnone

/-- The items of one step in front of others. -/
theorem listed_of_listStep {group : List (Option Node)} {c₁ : Cursor}
    (hstep : listStep ")" (element sub) c = some (some group, c₁))
    (hspread : ∀ node, some node ∈ group → node.kind ≠ .spreadElement) (hrest : Listed sub c₁ items c')
    (hmark : (c₁.startsWith "," || c₁.startsWith ")") = true →
      items = [] ∧ c' = c₁ ∨ Continued sub c₁ items c') :
    Listed sub c (group ++ items) c' ∧
      (c.startsWith "," = true → Continued sub c (group ++ items) c') := by
  obtain ⟨hnone, -⟩ | ⟨c₂, gap, hgroup, hcomma, hgap⟩ |
    ⟨node, c₂, gap, hgroup, hclose, hcomma, hnode, hgap, hend⟩ := listStep_cases hstep
  · cases hnone
  · cases hgroup
    have hcontinued := hrest.comma hcomma hgap
    exact ⟨hcontinued.listed, fun _ => hcontinued⟩
  · cases hgroup
    obtain ⟨hdots, hexpression⟩ := expression_of_element hnode (hspread node List.mem_cons_self)
    refine ⟨.element ⟨hclose, hcomma, hdots⟩ hexpression hgap (hmark hend), fun h => ?_⟩
    cases h.symm.trans hcomma

/-- What the loop over the items of a group finds. -/
theorem listed_of_collect {bound : List Char} {groups : List (List (Option Node))}
    (h : collect (listStep ")" (element sub)) bound c = some (groups, c'))
    (hspread : ∀ node, some node ∈ groups.flatten → node.kind ≠ .spreadElement) :
    Listed sub c groups.flatten c' ∧
      (c.startsWith "," = true → Continued sub c groups.flatten c') := by
  induction bound generalizing c groups with
  | nil =>
    rcases exists_of_collect h with ⟨rfl, hlast⟩ | ⟨group, more, c₁, rfl, hfirst, hrest⟩
    · exact listed_of_end hlast
    · rcases hrest with ⟨-, rfl, rfl⟩ | ⟨_, _, hcons, -⟩
      · exact listed_of_listStep hfirst (fun node hnode => hspread node (List.mem_append_left _ hnode))
          (listed_nil _ _ _) fun _ => .inl ⟨rfl, rfl⟩
      · cases hcons
  | cons x bound ih =>
    rcases exists_of_collect h with ⟨rfl, hlast⟩ | ⟨group, more, c₁, rfl, hfirst, hrest⟩
    · exact listed_of_end hlast
    · rcases hrest with ⟨hnil, -⟩ | ⟨_, _, hcons, hrest⟩
      · cases hnil
      cases hcons
      obtain ⟨hmore, hcontinued⟩ := ih hrest fun node hnode =>
        hspread node (List.mem_append_right _ hnode)
      refine listed_of_listStep hfirst (fun node hnode => hspread node (List.mem_append_left _ hnode))
        hmore fun hmark => ?_
      rcases Bool.or_eq_true_iff.mp hmark with hcomma | hclose
      · exact .inr (hcontinued hcomma)
      · rw [collect_of_none (listStep_close hclose)] at hrest
        cases hrest
        exact .inl ⟨rfl, rfl⟩

/-! ## A row before two ends -/

section
variable {e : Ending} {m : Nat} {c₁ : Cursor} {node : Node} {gap : List Node}

theorem onward_expression (hsub : e.Subs sub) {level : Nat}
    (h : sub.expression level false c = some (node, c₁)) : Onward c c₁ :=
  Ending.onward_of_reads (fun t n => (hsub.self t n).expression n le_rfl level false) h

theorem onward_plainTrivia (h : plainTrivia c = some (gap, c₁)) : Onward c c₁ :=
  Ending.onward_of_reads (fun _ _ => Suffix.reads_plainTrivia) h

/-- Nothing but comments is read between the last expression and the end. -/
theorem gone_of_plainTrivia (hc : Gone c) (h : plainTrivia c = some (gap, c₁)) : Gone c₁ := by
  obtain ⟨rest, pos⟩ := c
  obtain rfl : rest = [] := hc
  cases h
  rfl

/-- Behind the end of the text there is nothing to skip. -/
theorem gone_of_trivia (hc : Gone c) (h : trivia c = some (gap, c₁)) : Gone c₁ := by
  obtain ⟨rest, pos⟩ := c
  obtain rfl : rest = [] := hc
  cases h
  rfl

/-- An expression in front of the last parenthesis takes it with it. -/
theorem gone_of_expression (hsub : e.Subs sub) (hc : Lost c)
    (h : sub.expression Level.lowest false c = some (node, c₁)) : Gone c₁ := by
  rcases (hsub.expression Level.lowest 0).beyond c hc node c₁ h with hgone | ⟨_, _, -, -, _, -, hline⟩
  · exact hgone
  · obtain ⟨before, body, hrest, -⟩ := hline
    have hle := (onward_expression hsub h).suffix.length_le
    have hone : c.rest.length ≤ 1 := by rcases hc with hc | hc <;> simp [hc]
    simp only [hrest, List.length_append, List.length_cons, List.length_nil] at hle
    omega

/-- No row begins in front of the last parenthesis. -/
theorem Row.not_lost (hsub : e.Subs sub) (h : Row sub c items c') (hc : Lost c) : c'.rest ≠ [')'] := by
  intro hend
  cases h with
  | last _ hnode hgap =>
    have hgone := gone_of_plainTrivia (gone_of_expression hsub hc hnode) hgap
    cases hgone.symm.trans hend
  | more _ hnode hgap hcomma =>
    have hgone := gone_of_plainTrivia (gone_of_expression hsub hc hnode) hgap
    obtain ⟨hstarts, -⟩ := Ending.rest_of_literal hcomma
    obtain ⟨rest, hrest⟩ := Ending.rest_of_startsWith rfl hstarts
    cases hgone.symm.trans hrest

/-- An item starts also before the other end. -/
theorem StartsItem.follows (hstart : StartsItem c) (h : e.Token m c d) : StartsItem d where
  close := (h.startsWith_eq rfl).trans hstart.close
  comma := (h.startsWith_eq rfl).trans hstart.comma
  dots := (h.toSame.startsWith_eq rfl).trans hstart.dots

/-- An expression of a row and the comments behind it, none of which runs up to the line break. -/
theorem follows_item {c₂ : Cursor} (hsub : e.Subs sub) (h : e.Token m c d)
    (hnode : sub.expression Level.lowest false c = some (node, c₁))
    (hgap : plainTrivia c₁ = some (gap, c₂)) (hlast : ∀ remark ∈ gap, ¬LastLine c remark) :
    Gone c₂ ∨ ∃ d₁ d₂, sub.expression Level.lowest false d = some (node, d₁) ∧
      plainTrivia d₁ = some (gap, d₂) ∧
        (e.Token (c₁.rest.length + 1) c₂ d₂ ∨ c₂.rest = [')'] ∧ d₂.rest = e.close :: e.after) := by
  have honward := onward_expression hsub hnode
  rcases ((hsub.expression _).weak m).same c d h.toSame node c₁ hnode with hover | ⟨d₁, hd₁, hsame⟩
  · rcases hover with hgone | ⟨gap', c', hgap', -, remark, hremark, hline⟩
    · exact .inl (gone_of_plainTrivia hgone hgap)
    · cases hgap.symm.trans hgap'
      exact absurd (honward.lastLine hline) (hlast remark hremark)
  · have hpassed := hsame.plainTrivia
    rw [hgap] at hpassed
    generalize hfound : plainTrivia d₁ = found at hpassed
    cases hpassed with
    | token htoken => exact .inr ⟨d₁, _, hd₁, hfound, .inl htoken⟩
    | finish hc₂ hd₂ => exact .inr ⟨d₁, _, hd₁, hfound, .inr ⟨hc₂, hd₂⟩⟩
    | runs _ hline =>
      obtain ⟨remark, hremark, hline⟩ := hline rfl
      exact absurd (honward.lastLine hline) (hlast remark hremark)

/-- A row that is read up to the line break and the parenthesis, and does not end with a line comment,
is read up to the other end. -/
theorem Row.follows (hsub : e.Subs sub) (hrow : Row sub c items c') (hc' : c'.rest = [')'])
    (hlast : ∀ node, some node ∈ items → ¬LastLine c node) (h : e.Token m c d) :
    ∃ d', Row sub d items d' ∧ d'.rest = e.close :: e.after := by
  induction hrow generalizing m d with
  | @last c c₁ c₂ node gap hstart hnode hgap =>
    have hgaps : ∀ remark ∈ gap, ¬LastLine c remark := fun remark hremark =>
      hlast remark (List.mem_cons_of_mem _ (List.mem_map_of_mem hremark))
    rcases follows_item hsub h hnode hgap hgaps with hgone | ⟨d₁, d₂, hd₁, hd₂, hplace⟩
    · cases hgone.symm.trans hc'
    · rcases hplace with htoken | ⟨-, hrest⟩
      · have htwo := htoken.toSame.two_le.1
        rw [hc', List.length_singleton] at htwo
        omega
      · exact ⟨d₂, .last (hstart.follows h) hd₁ hd₂, hrest⟩
  | @more c c₁ c₂ c₃ c₄ c₅ node gap gap' items hstart hnode hgap hcomma hgap' hrest ih =>
    have hmem {remark : Node} (hremark : some remark ∈ items) :
        some remark ∈ some node :: (gap.map some ++ none :: (gap'.map some ++ items)) := by
      simp [hremark]
    have hgaps : ∀ remark ∈ gap, ¬LastLine c remark := fun remark hremark =>
      hlast remark (List.mem_cons_of_mem _ (List.mem_append_left _ (List.mem_map_of_mem hremark)))
    obtain ⟨hstarts, rfl⟩ := Ending.rest_of_literal hcomma
    obtain ⟨rest, hcommaRest⟩ := Ending.rest_of_startsWith rfl hstarts
    rcases follows_item hsub h hnode hgap hgaps with hgone | ⟨d₁, d₂, hd₁, hd₂, hplace⟩
    · cases hgone.symm.trans hcommaRest
    rcases hplace with htoken | ⟨hclose, -⟩
    · rcases (Ending.strict_literal rfl (by decide) _).same c₂ d₂ htoken.toSame () _ hcomma with
        hgone | ⟨d₃, hd₃, hsame⟩
      · exact absurd hc' (hrest.not_lost hsub (gone_of_trivia hgone hgap').lost)
      have hpassed := hsame.trivia
      rw [hgap'] at hpassed
      generalize hfound : trivia d₃ = found at hpassed
      cases hpassed with
      | token htoken' =>
        have honward : Onward c c₄ := ((((onward_expression hsub hnode).trans
          (onward_plainTrivia hgap)).trans (onward_skip c₂ _))).trans
          (Ending.onward_of_reads (fun _ _ => Suffix.reads_trivia) hgap')
        obtain ⟨d', hd', hrest'⟩ := ih hc' (fun remark hremark hline =>
          hlast remark (hmem hremark) (honward.lastLine hline)) htoken'
        exact ⟨d', .more (hstart.follows h) hd₁ hd₂ hd₃ hfound hd', hrest'⟩
      | finish hc₄ _ => exact absurd hc' (hrest.not_lost hsub (.inr hc₄))
      | runs hc₄ _ => exact absurd hc' (hrest.not_lost hsub (.inr hc₄))
    · cases hclose.symm.trans hcommaRest

end

/-! ## A row at another place -/

theorem StartsItem.moved (h : StartsItem c) (offset : Nat) : StartsItem (c.moved offset) :=
  ⟨h.close, h.comma, h.dots⟩

/-- A row in a text that starts further on. -/
theorem Row.moved {t : Suffix} {n : Nat} {sub' : Parsers} (hsubs : t.Subs n n sub sub')
    (h : Row sub c items c') (hc : t.Inside n c) :
    Row sub' (c.moved t.offset) (items.map (Option.map (Node.moved t.offset))) (c'.moved t.offset) ∧
      t.Inside n c' := by
  induction h with
  | @last c c₁ c₂ node gap hstart hnode hgap =>
    obtain ⟨_, hnode', ⟨-, -, rfl⟩, hc₁⟩ := (hsubs.expression n le_rfl _ _).eq_some hc hnode
    obtain ⟨_, hgap', ⟨-, rfl⟩, hc₂⟩ := Suffix.reads_plainTrivia.eq_some hc₁ hgap
    have hrow := Row.last (hstart.moved t.offset) hnode' hgap'
    rw [List.map_cons, List.map_map]
    rw [List.map_map] at hrow
    exact ⟨hrow, hc₂⟩
  | @more c c₁ c₂ c₃ c₄ c₅ node gap gap' items hstart hnode hgap hcomma hgap' _ ih =>
    obtain ⟨_, hnode', ⟨-, -, rfl⟩, hc₁⟩ := (hsubs.expression n le_rfl _ _).eq_some hc hnode
    obtain ⟨_, hplain, ⟨-, rfl⟩, hc₂⟩ := Suffix.reads_plainTrivia.eq_some hc₁ hgap
    obtain ⟨_, hcomma', -, hc₃⟩ := (Suffix.reads_literal ",").eq_some hc₂ hcomma
    obtain ⟨_, htrivia, ⟨-, rfl⟩, hc₄⟩ := Suffix.reads_trivia.eq_some hc₃ hgap'
    obtain ⟨hrest, hc₅⟩ := ih hc₄
    have hrow := Row.more (hstart.moved t.offset) hnode' hplain hcomma' htrivia hrest
    simp only [List.map_cons, List.map_append, List.map_map, Option.map_none, Option.map_some] at hrow ⊢
    exact ⟨hrow, hc₅⟩

mutual

theorem moved_zero (node : Node) : node.moved 0 = node := by
  match node with
  | ⟨kind, start, stop, named, missing, field, children⟩ =>
    rw [Node.moved, movedAll_zero children, Nat.zero_add, Nat.zero_add]

theorem movedAll_zero (nodes : List Node) : Node.movedAll 0 nodes = nodes := by
  match nodes with
  | [] => rfl
  | node :: nodes => rw [Node.movedAll, moved_zero node, movedAll_zero nodes]

end

theorem map_moved_zero (items : List (Option Node)) : items.map (Option.map (Node.moved 0)) = items := by
  have hitem : Option.map (Node.moved 0) = id := by
    funext item
    cases item with
    | none => rfl
    | some node => exact congrArg some (moved_zero node)
  rw [hitem, List.map_id]

/-- Grammars that are deep enough read the same rows. -/
theorem Row.deep {text : List Char} {n depth depth' : Nat} (h : Row (parsers depth) c items c')
    (hc : Suffix.Inside ⟨text, 0⟩ n c) (hdepth : 2 * n ≤ depth) (hdepth' : 2 * n ≤ depth') :
    Row (parsers depth') c items c' := by
  have hmoved := (h.moved (Suffix.subs_parsers hdepth hdepth') hc).1
  rw [map_moved_zero] at hmoved
  have hzero (c : Cursor) : c.moved 0 = c := by rw [Cursor.moved, Nat.zero_add]
  rwa [hzero, hzero] at hmoved

/-! ## Rows as contents -/

section
variable {depth : Nat} {c₁ : Cursor} {node : Node}

/-- An expression has at least one character. -/
theorem length_of_expression {level : Nat} {asi : Bool}
    (h : (parsers depth).expression level asi c = some (node, c₁)) : c₁.rest.length < c.rest.length := by
  cases depth with
  | zero => cases h
  | succ depth =>
    have hinside : (⟨List.replicate c.pos 'a' ++ c.rest, 0⟩ : Suffix).Inside (c.rest.length + 1) c :=
      ⟨⟨_, rfl, Ending.byteLength_replicate c.pos⟩, Nat.lt_succ_self _⟩
    obtain ⟨_, -, -, hc₁⟩ := (Suffix.reads_expression_lt
      (Ending.suffixSubs_self _ depth le_rfl (Nat.le_succ _)) level asi).eq_some hinside h
    exact hc₁.lt

/-- One step of a list over an expression and the comments behind it. -/
theorem listStep_item {c₂ : Cursor} {gap : List Node} (hstart : StartsItem c)
    (hnode : sub.expression Level.lowest false c = some (node, c₁))
    (hgap : plainTrivia c₁ = some (gap, c₂))
    (hend : (c₂.startsWith "," || c₂.startsWith ")") = true) :
    listStep ")" (element sub) c = some (some (some node :: gap.map some), c₂) := by
  have helement : element sub c = some (node, c₁) := by
    rw [element, get_bind, hstart.dots]
    exact hnode
  rw [listStep, get_bind, hstart.close, if_neg Bool.false_ne_true, hstart.comma,
    if_neg Bool.false_ne_true, bind_of_eq helement, bind_of_eq hgap, get_bind, hend]
  rfl

/-- One step of a list over a comma and the comments behind it. -/
theorem listStep_separator {c₂ : Cursor} {gap : List Node} (hcomma : literal "," c = some ((), c₁))
    (hgap : trivia c₁ = some (gap, c₂)) :
    listStep ")" (element sub) c = some (some (none :: gap.map some), c₂) := by
  obtain ⟨hstarts, -⟩ := Ending.rest_of_literal hcomma
  obtain ⟨rest, hrest⟩ := Ending.rest_of_startsWith rfl hstarts
  have hclose : c.startsWith ")" = false := by
    rw [Cursor.startsWith, hrest]
    rfl
  rw [listStep, get_bind, hclose, if_neg Bool.false_ne_true, hstarts, if_pos rfl, bind_of_eq hcomma,
    bind_of_eq hgap]
  rfl

theorem length_of_comma (h : literal "," c = some ((), c₁)) : c₁.rest.length < c.rest.length := by
  obtain ⟨hstarts, rfl⟩ := Ending.rest_of_literal h
  obtain ⟨rest, hrest⟩ := Ending.rest_of_startsWith rfl hstarts
  rw [Cursor.skip, hrest]
  exact Nat.lt_succ_self _

theorem length_of_plainTrivia {gap : List Node} (h : plainTrivia c = some (gap, c₁)) :
    c₁.rest.length ≤ c.rest.length :=
  (onward_plainTrivia h).suffix.length_le

theorem length_of_trivia {gap : List Node} (h : trivia c = some (gap, c₁)) :
    c₁.rest.length ≤ c.rest.length :=
  (Ending.onward_of_reads (fun _ _ => Suffix.reads_trivia) h).suffix.length_le

/-- A row that a parenthesis ends is the list of items of a group. -/
theorem Row.series (h : Row (parsers depth) c items c') (hclose : c'.startsWith ")" = true) :
    ∃ groups, Series (listStep ")" (element (parsers depth))) c groups c' ∧ groups.flatten = items := by
  induction h with
  | @last c c₁ c₂ node gap hstart hnode hgap =>
    have hless := length_of_expression hnode
    have hle := length_of_plainTrivia hgap
    have hstep := listStep_item hstart hnode hgap (by rw [hclose, Bool.or_true])
    exact ⟨_, .next hstep (by omega) (.done c₂), List.append_nil _⟩
  | @more c c₁ c₂ c₃ c₄ c₅ node gap gap' items hstart hnode hgap hcomma hgap' _ ih =>
    obtain ⟨groups, hseries, rfl⟩ := ih hclose
    have hless := length_of_expression hnode
    have hle := length_of_plainTrivia hgap
    have hless' := length_of_comma hcomma
    have hle' := length_of_trivia hgap'
    have hstarts := (Ending.rest_of_literal hcomma).1
    have hstep := listStep_item hstart hnode hgap (by rw [hstarts, Bool.true_or])
    refine ⟨_, .next hstep (by omega) (.next (listStep_separator hcomma hgap') (by omega) hseries), ?_⟩
    simp only [List.flatten_cons, List.cons_append]

/-- The items of a row, an expression in front of them. -/
theorem constructs_more {node : Node} {gap gap' : List Node} {items : List (Option Node)}
    (hgap : plainTrivia c = some (gap, c')) (hgap' : trivia d = some (gap', c₁)) :
    constructs (some node :: (gap.map some ++ none :: (gap'.map some ++ items))) =
        constructs items + (if node.isRemark then 0 else 1) ∧
      commas (some node :: (gap.map some ++ none :: (gap'.map some ++ items))) = commas items + 1 := by
  constructor
  · rw [constructs_cons_some, constructs_append, constructs_gap (Ending.isGap_of_plainTrivia hgap),
      constructs_cons_none, constructs_append, constructs_gap (Ending.isGap_of_trivia hgap')]
    omega
  · rw [commas_cons_some, commas_append, commas_gap, commas_cons_none, commas_append, commas_gap]
    omega

/-- A row has at most one construct more than it has commas. -/
theorem Row.constructs_le (h : Row sub c items c') : constructs items ≤ commas items + 1 := by
  induction h with
  | @last c c₁ c₂ node gap hstart hnode hgap =>
    rw [constructs_cons_some, constructs_gap (Ending.isGap_of_plainTrivia hgap)]
    split <;> omega
  | @more c c₁ c₂ c₃ c₄ c₅ node gap gap' items hstart hnode hgap hcomma hgap' _ ih =>
    obtain ⟨hconstructs, hcommas⟩ := @constructs_more _ _ _ _ node _ _ items hgap hgap'
    rw [hconstructs, hcommas]
    split <;> omega

/-- A node that has to count as a construct is no comment. -/
theorem isRemark_eq_false_of_le {node : Node} {least count : Nat} (hmost : count ≤ least)
    (hle : least + 1 ≤ count + if node.isRemark then 0 else 1) : node.isRemark = false := by
  cases hremark : node.isRemark with
  | false => rfl
  | true =>
    rw [hremark, if_pos rfl] at hle
    omega

/-- The rest of a row behind its first expression. Without a comment among its expressions a row begins
and ends with an expression. -/
theorem Row.sequence (h : Row (parsers depth) c items c') (hcomma : c'.startsWith "," = false)
    (hle : commas items + 1 ≤ constructs items) :
    ∃ first c₁ rest c₂ trail, (parsers depth).expression Level.lowest false c = some (first, c₁) ∧
      Series (sequenceStep (parsers depth) false) c₁ rest c₂ ∧ plainTrivia c₂ = some (trail, c') ∧
      items.filterMap id = first :: rest.flatten ++ trail ∧ (rest = [] ∨ rest.flatten ≠ []) ∧
      first.isRemark = false ∧ (first :: rest.flatten).getLast?.any (!·.isRemark) = true := by
  induction h with
  | @last c c₁ c₂ node gap hstart hnode hgap =>
    rw [constructs_cons_some, constructs_gap (Ending.isGap_of_plainTrivia hgap)] at hle
    have hremark := isRemark_eq_false_of_le (Nat.zero_le _) hle
    refine ⟨node, c₁, [], c₁, gap, hnode, .done c₁, hgap, ?_, .inl rfl, hremark, ?_⟩
    · simp
    · simp [hremark]
  | @more c c₁ c₂ c₃ c₄ c₅ node gap gap' items hstart hnode hgap hliteral hgap' hrow ih =>
    obtain ⟨hconstructs, hcommas⟩ := @constructs_more _ _ _ _ node _ _ items hgap hgap'
    rw [hconstructs, hcommas] at hle
    have hremark := isRemark_eq_false_of_le hrow.constructs_le hle
    rw [hremark, if_neg Bool.false_ne_true] at hle
    obtain ⟨next, c₆, rest, c₇, trail, hnext, hseries, htrail, hnodes, -, -, hlast⟩ :=
      ih hcomma (by omega)
    have hstarts := (Ending.rest_of_literal hliteral).1
    have hstep : sequenceStep (parsers depth) false c₁ = some (some (gap ++ gap' ++ [next]), c₆) := by
      rw [sequenceStep, bind_of_eq (lookahead_false c₁), hgap]
      dsimp only
      rw [hstarts, if_pos rfl]
      have hset : (set c₂ : Parser PUnit) c₁ = some ((), c₂) := rfl
      rw [bind_of_eq hset, bind_of_eq hliteral, bind_of_eq hgap', bind_of_eq hnext]
      rfl
    have hless := length_of_expression hnext
    have hle := length_of_plainTrivia hgap
    have hless' := length_of_comma hliteral
    have hle' := length_of_trivia hgap'
    have hinside : node :: ((gap ++ gap' ++ [next]) :: rest).flatten =
        node :: (gap ++ gap') ++ next :: rest.flatten := by simp
    rw [List.getLast?_cons] at hlast
    refine ⟨node, c₁, _, c₇, trail, hnode, .next hstep (by omega) hseries, htrail, ?_, ?_, hremark, ?_⟩
    · replace hnodes : items.filterMap (fun item => item) = next :: rest.flatten ++ trail := hnodes
      simp [hnodes]
    · exact .inr (by simp)
    · rw [hinside, List.getLast?_append, List.getLast?_cons]
      exact hlast

/-- The node that constructs in a row make: the only one of them, or a sequence of them. -/
def Makes (inner : List Node) (value : Node) : Prop :=
  inner = [value] ∨ inner.length ≠ 1 ∧ value.kind = .sequenceExpression ∧ value.named = true ∧
    value.children = inner

/-- Constructs with comments in front of them and behind them, and none at their own ends. -/
structure Surrounded (nodes lead inner trail : List Node) : Prop where
  nodes_eq : nodes = lead ++ inner ++ trail
  lead : ∀ node ∈ lead, node.isRemark = true
  trail : ∀ node ∈ trail, node.isRemark = true
  first : inner.head?.any (!·.isRemark) = true
  last : inner.getLast?.any (!·.isRemark) = true

/-- The comments in front are all that stand there. -/
theorem Surrounded.lead_eq {nodes lead inner trail : List Node}
    (h : Surrounded nodes lead inner trail) : lead = nodes.takeWhile Node.isRemark := by
  obtain ⟨rfl, hlead, -, hfirst, -⟩ := h
  rw [List.append_assoc, List.takeWhile_append_of_pos hlead]
  cases inner with
  | nil => cases hfirst
  | cons first inner =>
    replace hfirst : (!first.isRemark) = true := hfirst
    rw [Bool.not_eq_true'] at hfirst
    rw [List.cons_append, List.takeWhile_cons_of_neg (by rw [hfirst]; exact Bool.false_ne_true),
      List.append_nil]

/-- Read from the end, what was behind the constructs stands in front of them. -/
theorem Surrounded.reverse {nodes lead inner trail : List Node}
    (h : Surrounded nodes lead inner trail) :
    Surrounded nodes.reverse trail.reverse inner.reverse lead.reverse where
  nodes_eq := by rw [h.nodes_eq, List.reverse_append, List.reverse_append, List.append_assoc]
  lead node hnode := h.trail node (List.mem_reverse.mp hnode)
  trail node hnode := h.lead node (List.mem_reverse.mp hnode)
  first := by rw [List.head?_reverse]; exact h.last
  last := by rw [List.getLast?_reverse]; exact h.first

/-- A row that no comma follows is read as expressions with commas between them. -/
theorem Row.expressions (h : Row (parsers depth) c items c') (hcomma : c'.startsWith "," = false)
    (hle : commas items + 1 ≤ constructs items) :
    ∃ value c₁ inner trail, Parser.expressions (parsers depth) false c = some (value, c₁) ∧
      plainTrivia c₁ = some (trail, c') ∧ Surrounded (items.filterMap id) [] inner trail ∧
      Makes inner value := by
  obtain ⟨first, c₁, rest, c₂, trail, hfirst, hseries, htrail, hnodes, hmore, hremark, hlast⟩ :=
    h.sequence hcomma hle
  have hgap : ∀ node ∈ trail, node.isRemark = true := fun node hnode =>
    (Ending.isGap_of_plainTrivia htrail node hnode).1
  have hfront : (first :: rest.flatten).head?.any (!·.isRemark) = true := by
    show (!first.isRemark) = true
    rw [hremark]
    rfl
  have hstop : sequenceStep (parsers depth) false c₂ = some (none, c₂) := by
    rw [sequenceStep, bind_of_eq (lookahead_false c₂), htrail]
    dsimp only
    rw [hcomma]
    rfl
  have hcollect := collect_of_series hseries hstop le_rfl
  have hmany : many (sequenceStep (parsers depth) false) c₁ = some (rest, c₂) := hcollect
  cases rest with
  | nil =>
    refine ⟨first, c₂, [first], trail, ?_, htrail, ⟨hnodes, List.forall_mem_nil _, hgap, hfront, hlast⟩,
      .inl rfl⟩
    rw [Parser.expressions, bind_of_eq hfirst, sequenceFrom, bind_of_eq hmany]
    rfl
  | cons step rest =>
    refine ⟨{ kind := .sequenceExpression, start := first.start, stop := c₂.pos
              children := first :: (step :: rest).flatten }, c₂, first :: (step :: rest).flatten, trail, ?_,
      htrail, ⟨hnodes, List.forall_mem_nil _, hgap, hfront, hlast⟩, .inr ⟨?_, rfl, rfl, rfl⟩⟩
    · rw [Parser.expressions, bind_of_eq hfirst, sequenceFrom, bind_of_eq hmany]
      rfl
    · have hne := hmore.resolve_left (List.cons_ne_nil step rest)
      rw [List.length_cons]
      exact fun hone => hne (List.length_eq_zero_iff.mp (by omega))

end

/-! ## Groups -/

/-- A list with a front, a back and something in between. -/
theorem eq_append_between {α : Type} {xs front inner back : List α} (hfront : front <+: xs)
    (hback : back <:+ xs)
    (h : (xs.drop front.length).take (xs.length - front.length - back.length) = inner)
    (hne : inner ≠ []) : xs = front ++ inner ++ back := by
  obtain ⟨rest, rfl⟩ := hfront
  rw [List.drop_left, List.length_append, Nat.add_sub_cancel_left] at h
  have hle : back.length ≤ rest.length := by
    by_contra hlong
    rw [Nat.sub_eq_zero_of_le (Nat.le_of_not_le hlong), List.take_zero] at h
    exact hne h.symm
  obtain ⟨between, rfl⟩ := List.suffix_of_suffix_length_le hback (List.suffix_append front rest) hle
  rw [List.length_append, Nat.add_sub_cancel, List.take_left] at h
  rw [h, List.append_assoc]

/-- The expression in parentheses that a list of items makes. -/
structure Grouped (items : List (Option Node)) (children : List Node) : Prop where
  /-- Only its span depends on where it stands. -/
  group : ∀ start stop c, Suffix.groupOf items start stop c =
    some ({ kind := .parenthesizedExpression, start, stop, children }, c)
  parts : ∃ lead inner value trail, children = lead ++ [value] ++ trail ∧
    items.filterMap id = lead ++ inner ++ trail ∧ Makes inner value ∧
      lead = (items.filterMap id).takeWhile Node.isRemark ∧
      trail = ((items.filterMap id).reverse.takeWhile Node.isRemark).reverse
  le : commas items + 1 ≤ constructs items
  spread : ∀ node, some node ∈ items → node.kind ≠ .spreadElement

/-- What is no comment is one of the constructs. -/
theorem mem_between {lead inner trail : List Node} {node : Node}
    (hlead : ∀ node ∈ lead, node.isRemark = true) (htrail : ∀ node ∈ trail, node.isRemark = true)
    (hnode : node ∈ lead ++ inner ++ trail) (hremark : node.isRemark = false) : node ∈ inner := by
  rw [List.mem_append, List.mem_append] at hnode
  rcases hnode with (hnode | hnode) | hnode
  · cases hremark.symm.trans (hlead node hnode)
  · exact hnode
  · cases hremark.symm.trans (htrail node hnode)

/-- The children of a group are its items, with the constructs made into one. -/
theorem grouped_of_groupOf {start stop : Nat} {node : Node}
    (h : Suffix.groupOf items start stop c = some (node, c')) : Grouped items node.children := by
  unfold Suffix.groupOf at h
  dsimp only at h
  have hfront : (items.filterMap id).takeWhile Node.isRemark <+: items.filterMap id :=
    List.takeWhile_prefix _
  have hback : ((items.filterMap id).reverse.takeWhile Node.isRemark).reverse <:+ items.filterMap id :=
    List.reverse_prefix.mp (by rw [List.reverse_reverse]; exact List.takeWhile_prefix _)
  have hlead : ∀ node ∈ (items.filterMap id).takeWhile Node.isRemark, node.isRemark = true :=
    fun _ hnode => List.mem_takeWhile_imp hnode
  have htrail : ∀ node ∈ ((items.filterMap id).reverse.takeWhile Node.isRemark).reverse,
      node.isRemark = true := fun _ hnode => List.mem_takeWhile_imp (List.mem_reverse.mp hnode)
  generalize hinner : ((items.filterMap id).drop ((items.filterMap id).takeWhile Node.isRemark).length).take
    ((items.filterMap id).length - ((items.filterMap id).takeWhile Node.isRemark).length -
      ((items.filterMap id).reverse.takeWhile Node.isRemark).reverse.length) = inner at h
  cases hholes : withoutHoles items && !(inner.filter fun node => !node.isRemark).any
    (·.kind == .spreadElement) with
  | false =>
    rw [hholes] at h
    cases h
  | true =>
  rw [hholes] at h
  cases inner with
  | nil => cases h
  | cons first rest =>
  cases hlast : (first :: rest).getLast? with
  | none =>
    rw [List.getLast?_eq_none_iff] at hlast
    cases hlast
  | some last =>
  rw [hlast] at h
  cases hcount : items.countP (·.isNone) + 1 == ((first :: rest).filter fun node => !node.isRemark).length with
  | false =>
    replace h : (require (items.countP (·.isNone) + 1 ==
      ((first :: rest).filter fun node => !node.isRemark).length) c).bind _ = some (node, c') := h
    rw [hcount] at h
    cases h
  | true =>
  replace h : (require (items.countP (·.isNone) + 1 ==
    ((first :: rest).filter fun node => !node.isRemark).length) c).bind _ = some (node, c') := h
  rw [hcount] at h
  cases h
  have hnodes := eq_append_between hfront hback hinner (List.cons_ne_nil _ _)
  refine ⟨fun start stop d => ?_, ⟨_, _, _, _, rfl, hnodes, ?_, rfl, rfl⟩, ?_, ?_⟩
  · unfold Suffix.groupOf
    dsimp only
    rw [hinner, hholes, hlast]
    show (require (items.countP (·.isNone) + 1 ==
      ((first :: rest).filter fun node => !node.isRemark).length) d).bind _ = _
    rw [hcount]
    rfl
  · cases rest with
    | nil => exact .inl rfl
    | cons second rest => exact .inr ⟨by simp, rfl, rfl, rfl⟩
  · rw [beq_iff_eq] at hcount
    show items.countP (·.isNone) + 1 ≤ _
    rw [hcount, ← List.countP_eq_length_filter, constructs, hnodes, List.countP_append,
      List.countP_append]
    omega
  · intro node hmem hkind
    have hremark : node.isRemark = false := by
      rw [Node.isRemark, hkind]
      rfl
    have hnode : node ∈ items.filterMap id := List.mem_filterMap.mpr ⟨some node, hmem, rfl⟩
    rw [hnodes] at hnode
    have hinside := mem_between hlead htrail hnode hremark
    rw [Bool.and_eq_true, Bool.not_eq_true', List.any_eq_false] at hholes
    refine hholes.2 node (List.mem_filter.mpr ⟨hinside, ?_⟩) (beq_iff_eq.mpr hkind)
    rw [hremark]
    rfl

theorem still_arrowBehind (asi : Bool) : Still (arrowBehind asi) := by
  refine still_bind (still_lookahead asi) fun next => ?_
  cases next <;> exact still_pure _

/-- Behind an arrow there is an arrow function. -/
theorem gives_arrowRest (asi : Bool) (start : Nat) (lead : List Node) :
    Gives (fun node _ => node.kind = .arrowFunction) (arrowRest sub asi start lead) := by
  have hnode (children : List Node) :
      Gives (fun node _ => node.kind = .arrowFunction) (node .arrowFunction start children) := by
    intro c node c' h
    cases h
    rfl
  exact .step₃ fun _ _ _ => .branch fun _ => hnode _

/-- What is read in parentheses, if it is no function, is a row of expressions. -/
theorem exists_row_of_group {asi : Bool} {node : Node} (h : group sub asi c = some (node, c'))
    (hkind : node.kind = .parenthesizedExpression) :
    ∃ c₁ lead c₂ items c₃, literal "(" c = some ((), c₁) ∧ trivia c₁ = some (lead, c₂) ∧
      Row sub c₂ items c₃ ∧ literal ")" c₃ = some ((), c') ∧
      node = { kind := .parenthesizedExpression, start := c.pos, stop := c'.pos
               children := node.children } ∧ Grouped (lead.map some ++ items) node.children := by
  rw [group, position_bind] at h
  obtain ⟨_, c₄, hlist, h⟩ := exists_of_bind h
  rw [commaList] at hlist
  obtain ⟨_, c₁, hopening, hlist⟩ := exists_of_bind hlist
  obtain ⟨lead, c₂, hlead, hlist⟩ := exists_of_bind hlist
  obtain ⟨groups, c₃, hgroups, hlist⟩ := exists_of_bind hlist
  obtain ⟨_, _, hclose, hlist⟩ := exists_of_bind hlist
  cases hlist
  rw [position_bind] at h
  obtain ⟨arrow, c₅, harrow, h⟩ := exists_of_bind h
  obtain rfl := still_arrowBehind asi _ _ _ harrow
  cases arrow with
  | some behind =>
    have hgives : Gives (fun node _ => node.kind = .arrowFunction) (do
        require (withoutHoles (lead.map some ++ groups.flatten))
        let patterns ← ofOption (asPatterns? ((lead.map some ++ groups.flatten).filterMap id))
        let params : Node := { kind := .formalParameters, start := c.pos, stop := c₅.pos
                               children := patterns }
        set behind.2
        arrowRest sub asi c.pos ([params.as .parameters] ++ behind.1)) :=
      .step₃ fun _ _ _ => gives_arrowRest _ _ _
    cases (hgives c₅ node c' h).symm.trans hkind
  | none =>
    have hgrouped : Grouped (lead.map some ++ groups.flatten) node.children := grouped_of_groupOf h
    have hsame := h.symm.trans (hgrouped.group c.pos c₅.pos c₅)
    obtain ⟨hnode, rfl⟩ := Prod.mk.inj (Option.some.inj hsame)
    obtain ⟨hlisted, -⟩ := listed_of_collect hgroups fun node hnode =>
      hgrouped.spread node (List.mem_append_right _ hnode)
    have hle := hgrouped.le
    rw [commas_append, commas_gap, constructs_append, constructs_gap (Ending.isGap_of_trivia hlead),
      Nat.zero_add, Nat.zero_add] at hle
    have hrow := hlisted.row (Nat.le_antisymm hlisted.le hle)
    exact ⟨c₁, lead, c₂, groups.flatten, c₃, hopening, hlead, hrow, hclose, hnode, hgrouped⟩

/-- A row of expressions in parentheses behind which nothing follows. -/
theorem group_of_row {depth : Nat} {asi : Bool} {text : List Char} {pos : Nat} {lead children : List Node}
    (hlead : trivia ⟨text, pos + 1⟩ = some (lead, c)) (hrow : Row (parsers depth) c items c')
    (hend : c'.rest = [')']) (hgrouped : Grouped (lead.map some ++ items) children) :
    group (parsers depth) asi ⟨'(' :: text, pos⟩ =
      some ({ kind := .parenthesizedExpression, start := pos, stop := c'.pos + 1, children },
        ⟨[], c'.pos + 1⟩) := by
  obtain ⟨rest, stop⟩ := c'
  obtain rfl : rest = [')'] := hend
  obtain ⟨groups, hseries, rfl⟩ := hrow.series rfl
  have hmany : many (listStep ")" (element (parsers depth))) c = some (groups, ⟨[')'], stop⟩) :=
    collect_of_series hseries (listStep_close rfl) le_rfl
  have hlist : commaList "(" ")" (element (parsers depth)) ⟨'(' :: text, pos⟩ =
      some (lead.map some ++ groups.flatten, ⟨[], stop + 1⟩) := by
    have hopening : literal "(" ⟨'(' :: text, pos⟩ = some ((), ⟨text, pos + 1⟩) := rfl
    have hclose : literal ")" ⟨[')'], stop⟩ = some ((), ⟨[], stop + 1⟩) := rfl
    rw [commaList, bind_of_eq hopening, bind_of_eq hlead, bind_of_eq hmany, bind_of_eq hclose]
    rfl
  have harrow : arrowBehind asi ⟨[], stop + 1⟩ = some (none, ⟨[], stop + 1⟩) := by
    cases asi <;> rfl
  rw [group, position_bind, bind_of_eq hlist, position_bind, bind_of_eq harrow]
  exact hgrouped.group pos (stop + 1) ⟨[], stop + 1⟩

end NotebookCell.Script
