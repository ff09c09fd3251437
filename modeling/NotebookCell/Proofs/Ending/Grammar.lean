import NotebookCell.Proofs.Ending.Expression
import NotebookCell.Proofs.Reading.Program

/-!
# The grammar before two ends
-/

namespace NotebookCell.Script.Ending

open NotebookCell.Tree NotebookCell.Script.Parser

variable {e : Ending} {sub : Parsers} {α : Type} {c d : Cursor} {m n : Nat}

/-! ## Brackets -/

theorem rest_of_array (h : e.Subs sub) {value : Node} {c' : Cursor}
    (hp : array sub c = some (value, c')) : value.kind = .array ∧ ']' :: c'.rest <:+ c.rest := by
  rw [array, position_bind] at hp
  obtain ⟨items, c₁, hitems, hp⟩ := exists_of_bind hp
  cases hp
  exact ⟨rfl, rest_of_commaList h rfl hitems⟩

/-! ### Steps -/

/-- The parser stays where it is, or finds something with the property `P`. -/
def StillOr (P : α → Prop) (c : Cursor) : Option α → Cursor → Prop
  | none, c' => c' = c
  | some a, _ => P a

section
variable {P : α → Prop}

theorem givesAt_still : GivesAt c (StillOr P c) (pure none) := by
  intro found c' h
  cases h
  rfl

theorem gives_found {p : Parser α} (hp : Gives (fun a _ => P a) p) :
    Gives (StillOr P c) (do return some (← p)) := by
  refine hp.bind fun a c' ha found c'' h => ?_
  cases h
  exact ha

/-- Repeated steps read nothing, or end with a step. -/
theorem iterate_cases {step : α → Parser (Option α)} (hstep : ∀ a c, GivesAt c (StillOr P c) (step a))
    {a b : α} {c' : Cursor} (h : iterate step a c = some (b, c')) : (b = a ∧ c' = c) ∨ P b := by
  have hextend (bound : List Char) {a : α} {c : Cursor} (h : extend step bound a c = some (b, c')) :
      (b = a ∧ c' = c) ∨ P b := by
    induction bound generalizing a c with
    | nil =>
      rcases exists_of_extend h with ⟨rfl, hlast⟩ | ⟨a', c₁, hfirst, ⟨-, rfl, rfl⟩ | ⟨_, _, hcons, _⟩⟩
      · exact .inl ⟨rfl, hstep _ _ _ _ hlast⟩
      · exact .inr (hstep _ _ _ _ hfirst)
      · cases hcons
    | cons x bound ih =>
      rcases exists_of_extend h with ⟨rfl, hlast⟩ | ⟨a', c₁, hfirst, ⟨hnil, -⟩ | ⟨_, _, hcons, hrest⟩⟩
      · exact .inl ⟨rfl, hstep _ _ _ _ hlast⟩
      · cases hnil
      · cases hcons
        rcases ih hrest with ⟨rfl, rfl⟩ | hb
        · exact .inr (hstep _ _ _ _ hfirst)
        · exact .inr hb
  exact hextend c.rest h

end

/-! ### Accesses -/

/-- The kinds of expressions that end with an access. -/
def isAccess : Kind → Bool
  | .memberExpression | .subscriptExpression | .callExpression | .updateExpression => true
  | _ => false

theorem gives_node {p : Kind → Bool} {kind : Kind} (hkind : p kind = true) (start : Nat)
    (children : List Node) : Gives (fun node _ => p node.kind = true) (node kind start children) := by
  intro c node c' h
  cases h
  exact hkind

theorem gives_accessName (left : Node) (gap : List Node) :
    Gives (fun node _ => isAccess node.kind = true) (accessName left gap) :=
  .step₂ fun _ _ => .branch fun _ => gives_node rfl _ _

theorem gives_accessIndex (left : Node) (gap : List Node) :
    Gives (fun node _ => isAccess node.kind = true) (accessIndex sub left gap) :=
  .step₃ fun _ _ _ => .step₂ fun _ _ => gives_node rfl _ _

theorem gives_call (left : Node) (gap : List Node) :
    Gives (fun node _ => isAccess node.kind = true) (call sub left gap) :=
  .step fun _ => gives_node rfl _ _

theorem gives_chained (left : Node) (gap : List Node) :
    Gives (StillOr (fun node => isAccess node.kind = true) c) (chained sub left gap) :=
  .step₂ fun _ _ => .ite (.step fun _ => gives_found (gives_call _ _))
    (.ite (gives_found (gives_accessIndex _ _)) (gives_found (gives_accessName _ _)))

theorem givesAt_accessAt (constructing update : Bool) (left : Node) (gap : List Node) (next : Cursor) :
    GivesAt c (StillOr (fun node => isAccess node.kind = true) c)
      (accessAt sub constructing update left gap next) := by
  unfold accessAt
  split
  · exact Gives.step (fun _ => gives_found (gives_accessName _ _)) c
  · exact .ite givesAt_still (Gives.step (fun _ => gives_chained _ _) c)
  · exact Gives.step (fun _ => gives_found (gives_accessIndex _ _)) c
  · exact .ite givesAt_still (Gives.step (fun _ => gives_found (gives_call _ _)) c)
  · refine .ite givesAt_still (Gives.step (fun _ => .step fun _ => ?_) c)
    exact gives_found (gives_node rfl _ _)
  · exact .ite (Gives.step (fun _ => gives_found (gives_node rfl _ _)) c) givesAt_still
  · exact givesAt_still

theorem givesAt_access {asi : Bool} (constructing update : Bool) (left : Node) (c : Cursor) :
    GivesAt c (StillOr (fun node => isAccess node.kind = true) c)
      (access sub asi constructing update left) := by
  rw [access_eq]
  refine .still (still_lookahead asi) fun next => ?_
  cases next with
  | none => exact givesAt_still
  | some behind => exact .ite givesAt_still (givesAt_accessAt constructing update left _ _)

/-- The kinds of expressions with operators that assign nothing. -/
def isOperation : Kind → Bool
  | .ternaryExpression | .binaryExpression => true
  | _ => false

theorem givesAt_operation {asi : Bool} (level : Nat) (left : Node) (c : Cursor) :
    GivesAt c (StillOr (fun node => isOperation node.kind = true) c) (operation sub level asi left) := by
  refine .still (still_lookahead asi) fun next => ?_
  cases next with
  | none => exact givesAt_still
  | some behind =>
    obtain ⟨gap, next⟩ := behind
    refine .ite ?_ ?_
    · refine Gives.step (fun _ => .step₄ fun _ _ _ _ => .step₂ fun _ _ => ?_) c
      exact gives_found (gives_node rfl _ _)
    · split
      · refine .ite givesAt_still (Gives.step (fun _ => .step₃ fun _ _ _ => ?_) c)
        exact gives_found (gives_node rfl _ _)
      · exact givesAt_still

/-! ### Defaults -/

/-- Whether a node is a pattern on the left of an assignment. -/
def isLeftPattern (child : Node) : Bool :=
  child.field == some .left && (child.kind == .objectPattern || child.kind == .arrayPattern)

/-- What is behind a bracket of the text assigns nothing to it. -/
theorem assigns_behind_bracket (hc : ']' :: c.rest <:+ e.text ++ ['\n', ')']) {gap : List Node}
    {next : Cursor} (h : plainTrivia c = some (gap, next)) : assigns next = false := by
  have hforks : forks (']' :: c.rest) = false := forks_eq_false e.straight hc
  have hbehind := tokenBehind_eq (fun _ _ => Suffix.reads_plainTrivia) h
  rw [forks, hbehind] at hforks
  exact hforks

theorem assignmentTo_array {compound : Option String} {left : Node} (h : left.kind = .array) :
    assignmentTo false compound left = none := by
  rw [assignmentTo, h]
  rfl

theorem assignmentTo_access {equals : Bool} {compound : Option String} {left : Node}
    (h : isAccess left.kind = true) {target : Option Node} {kind : Kind} {spelling : String}
    (hplan : assignmentTo equals compound left = some (target, kind, spelling)) :
    target = some left := by
  unfold assignmentTo at hplan
  split at hplan
  case h_6 hkind => rw [hkind] at h; cases h
  case h_7 hkind => rw [hkind] at h; cases h
  all_goals cases equals <;> cases compound <;> cases hplan <;> rfl

theorem isLeftPattern_of_field {child : Node} (h : child.field = none) : isLeftPattern child = false := by
  rw [isLeftPattern, h]
  rfl

theorem isLeftPattern_gap {gap : List Node} (h : ∀ node ∈ gap, IsGap node) :
    gap.any isLeftPattern = false := by
  rw [List.any_eq_false]
  intro node hnode
  rw [isLeftPattern_of_field (h node hnode).2]
  exact Bool.false_ne_true

theorem isLeftPattern_access {operand : Node} (h : isAccess operand.kind = true) :
    isLeftPattern (operand.as .left) = false := by
  have hkind : (operand.as .left).kind = operand.kind := rfl
  rw [isLeftPattern, hkind]
  generalize operand.kind = kind at h
  unfold isAccess at h
  split at h
  · rfl
  · rfl
  · rfl
  · rfl
  · cases h

theorem isGap_of_trivia {gap : List Node} {c' : Cursor} (h : trivia c = some (gap, c')) :
    ∀ node ∈ gap, IsGap node := by
  obtain ⟨-, t, gap', hgap⟩ := related_of_reads (fun _ _ => Suffix.reads_trivia) h
  exact fun node hnode => (hgap.1 node hnode).1

theorem isGap_of_plainTrivia {gap : List Node} {c' : Cursor} (h : plainTrivia c = some (gap, c')) :
    ∀ node ∈ gap, IsGap node := by
  obtain ⟨-, t, gap', hgap⟩ := related_of_reads (fun _ _ => Suffix.reads_plainTrivia) h
  exact fun node hnode => (hgap.1 node hnode).1

theorem field_of_expression (h : e.Subs sub) {level : Nat} {value : Node} {c' : Cursor}
    (hvalue : sub.expression level false c = some (value, c')) : value.field = none := by
  obtain ⟨-, t, value', hfresh⟩ :=
    related_of_reads (fun t m => (h.self t m).expression m le_rfl level false) hvalue
  exact hfresh.1

/-- An assignment to an access has no pattern on its left. -/
theorem isLeftPattern_assignment (h : e.Subs sub) {operand : Node} (hoperand : isAccess operand.kind = true)
    {value : Node} {c' : Cursor} (hvalue : assignment sub false operand c = some (value, c'))
    (hkind : value.kind = .assignmentExpression) : value.children.any isLeftPattern = false := by
  have hother {found : Node} (hfound : found = operand) : found.kind ≠ .assignmentExpression := by
    rintro hkind
    rw [← hfound, hkind] at hoperand
    cases hoperand
  rw [assignment_eq, bind_of_eq (lookahead_false c)] at hvalue
  cases hgap : plainTrivia c with
  | none =>
    rw [hgap] at hvalue
    cases hvalue
    exact absurd hkind (hother rfl)
  | some behind =>
    obtain ⟨gap, next⟩ := behind
    rw [hgap] at hvalue
    dsimp only at hvalue
    cases hplan : assignmentTo (assigns next) (compoundAssignment next) operand with
    | none =>
      rw [hplan] at hvalue
      cases hvalue
      exact absurd hkind (hother rfl)
    | some plan =>
      obtain ⟨target, kind, spelling⟩ := plan
      rw [hplan] at hvalue
      obtain rfl := assignmentTo_access hoperand hplan
      obtain ⟨_, _, hset, hvalue⟩ := exists_of_bind hvalue
      cases hset
      obtain ⟨_, c₁, -, hvalue⟩ := exists_of_bind hvalue
      obtain ⟨_, c₂, -, hvalue⟩ := exists_of_bind hvalue
      obtain ⟨gap', c₃, hgap', hvalue⟩ := exists_of_bind hvalue
      obtain ⟨right, c₄, hright, hvalue⟩ := exists_of_bind hvalue
      cases hvalue
      show ([operand.as .left] ++ gap ++ gap' ++ [right]).any isLeftPattern = false
      rw [List.any_append, List.any_append, List.any_append, isLeftPattern_gap (isGap_of_plainTrivia hgap),
        isLeftPattern_gap (isGap_of_trivia hgap'), List.any_cons, isLeftPattern_access hoperand,
        List.any_cons, isLeftPattern_of_field (field_of_expression h hright)]
      rfl

theorem fronted_bracket {rest : List Char} (hc : c.rest = '[' :: rest) :
    fronted sub false c = array sub c := by
  have hword : c.word = "" := by
    rw [Cursor.word, hc]
    rfl
  rw [fronted_eq, get_bind, hc, hword]
  show primary sub false false c = _
  rw [primary_eq, get_bind, hc]
  rfl

/-- An array of the text is assigned nothing. -/
theorem assignment_array {operand value : Node} {c' : Cursor} (hoperand : operand.kind = .array)
    (hc : ']' :: c.rest <:+ e.text ++ ['\n', ')'])
    (hvalue : assignment sub false operand c = some (value, c')) : value = operand := by
  rw [assignment_eq, bind_of_eq (lookahead_false c)] at hvalue
  cases hgap : plainTrivia c with
  | none =>
    rw [hgap] at hvalue
    cases hvalue
    rfl
  | some behind =>
    obtain ⟨gap, next⟩ := behind
    rw [hgap] at hvalue
    dsimp only at hvalue
    rw [assigns_behind_bracket hc hgap, assignmentTo_array hoperand] at hvalue
    cases hvalue
    rfl

/-- An expression that begins with a bracket of the text is no assignment to a pattern. -/
theorem isLeftPattern_of_bracket (h : e.Subs sub) (hc : c.rest <:+ e.text ++ ['\n', ')'])
    (hhead : c.rest.head? = some '[') {value : Node} {c' : Cursor}
    (hvalue : expression sub Level.lowest false c = some (value, c'))
    (hkind : value.kind = .assignmentExpression) : value.children.any isLeftPattern = false := by
  obtain ⟨rest, hrest⟩ := List.head?_eq_some_iff.mp hhead
  rw [expression, if_neg (by decide)] at hvalue
  obtain ⟨first, c₁, hfirst, hvalue⟩ := exists_of_bind hvalue
  rw [fronted_bracket hrest] at hfirst
  obtain ⟨hfirstKind, hbracket⟩ := rest_of_array h hfirst
  obtain ⟨operand, c₂, hoperand, hvalue⟩ := exists_of_bind hvalue
  obtain ⟨assigned, c₃, hassigned, hvalue⟩ := exists_of_bind hvalue
  -- an operator behind it would be the kind of the whole
  obtain ⟨rfl, rfl⟩ : value = assigned ∧ c' = c₃ := by
    rcases iterate_cases (givesAt_operation Level.lowest) hvalue with hsame | hother
    · exact hsame
    · rw [hkind] at hother
      cases hother
  rcases iterate_cases (givesAt_access false _) hoperand with ⟨rfl, rfl⟩ | haccess
  · rw [assignment_array hfirstKind (hbracket.trans hc) hassigned, hfirstKind] at hkind
    cases hkind
  · exact isLeftPattern_assignment h haccess hassigned hkind

/-! ## All depths -/

theorem suffixSubs_self (t : Suffix) (depth : Nat) :
    ∀ {m k : Nat}, k ≤ m → m ≤ k + 1 → t.Subs m k (parsers depth) (parsers depth) := by
  induction depth with
  | zero =>
    intro m k _ _
    exact ⟨fun _ _ _ _ => Suffix.reads_failure, fun _ _ _ => Suffix.reads_failure,
      fun _ _ => Suffix.reads_failure, fun _ _ => Suffix.reads_failure, fun _ _ => Suffix.reads_failure⟩
  | succ depth ih =>
    intro m k hk hm
    exact (ih (by omega) (by omega)).step hk hm

theorem patternDefault_bracket (h : e.Subs sub) (hc : c.rest <:+ e.text ++ ['\n', ')'])
    (hhead : c.rest.head? = some '[') {next : Parsers}
    (hnext : next.expression Level.lowest false = expression sub Level.lowest false) :
    patternDefault next c = none := by
  rw [patternDefault, hnext]
  cases hvalue : expression sub Level.lowest false c with
  | none => exact bind_of_refused hvalue _
  | some found =>
    obtain ⟨value, c'⟩ := found
    rw [bind_of_eq hvalue]
    cases hkind : value.kind == .assignmentExpression with
    | false => rfl
    | true =>
      have hleft := isLeftPattern_of_bracket h hc hhead hvalue (beq_iff_eq.mp hkind)
      unfold isLeftPattern at hleft
      rw [hleft]
      rfl

/-- The grammar of any depth reads the text in front of both ends. -/
theorem subs_parsers (e : Ending) (depth : Nat) : e.Subs (parsers depth) := by
  induction depth with
  | zero =>
    exact {
      expression := fun _ _ => follows_failure
      construct := fun _ => follows_failure
      markup := fun _ => follows_failure
      self := fun t n => suffixSubs_self t 0 le_rfl (Nat.le_succ n)
      target := fun _ _ _ _ => rfl
      bracket := fun _ _ _ => rfl }
  | succ depth ih =>
    exact {
      expression := fun level => loose_expression ih level
      construct := loose_construct ih
      markup := strict_markup ih
      self := fun t n => suffixSubs_self t (depth + 1) le_rfl (Nat.le_succ n)
      target := fun _ _ _ htarget => construct_of_target htarget
      bracket := fun _ hc hhead => patternDefault_bracket ih hc hhead rfl }

end NotebookCell.Script.Ending
