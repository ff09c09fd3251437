import Mathlib.Data.List.Forall2
import Mathlib.Data.Option.Basic
import NotebookCell.Proofs.Reading.Shape

/-!
# One text at two places

The same text can be read on its own, and as the end of a longer text. Nothing in the grammar looks
back, so both readings do the same: they fail together, or they make the same tree, moved by the
length of what stands in front (`Suffix.Reads`). The two parsers need not be the same either; they
only have to agree on texts shorter than a bound, which is how the depth of the grammar drops out.

A `Reads` is built like the parser it is about, with one lemma for each way of putting parsers
together. On the way it also carries what the nodes promise (`Node.Sound`), which is the same
induction over the grammar.
-/

namespace NotebookCell.Script

open NotebookCell.Tree

namespace Cursor

/-- The cursor in a text that starts `offset` bytes earlier. -/
def moved (offset : Nat) (c : Cursor) : Cursor := ⟨c.rest, offset + c.pos⟩

section
variable (offset : Nat) (c : Cursor)

@[simp] theorem rest_moved : (c.moved offset).rest = c.rest := rfl

@[simp] theorem pos_moved : (c.moved offset).pos = offset + c.pos := rfl

@[simp] theorem startsWith_moved (text : String) :
    (c.moved offset).startsWith text = c.startsWith text := rfl

@[simp] theorem sees_moved (p : Char → Bool) : (c.moved offset).sees p = c.sees p := rfl

@[simp] theorem word_moved : (c.moved offset).word = c.word := rfl

@[simp] theorem seesWord_moved (text : String) :
    (c.moved offset).seesWord text = c.seesWord text := rfl

@[simp] theorem endsStatement_moved (operand : Bool) :
    (c.moved offset).endsStatement operand = c.endsStatement operand := rfl

@[simp] theorem skip_moved (n : Nat) : (c.moved offset).skip n = (c.skip n).moved offset := by
  simp [moved, skip, Nat.add_assoc]

@[simp] theorem skipWhile_moved (p : Char → Bool) :
    (c.moved offset).skipWhile p = (c.skipWhile p).moved offset := by
  simp [moved, skipWhile, Nat.add_assoc]

end

end Cursor

/-- A text, and the length in bytes of what may stand in front of it. -/
structure Suffix where
  text : List Char
  offset : Nat

namespace Suffix

variable {t : Suffix} {α β γ δ : Type}

/-! ## Places -/

/-- The cursor is in the text, and less than `bound` characters are left. -/
structure Inside (t : Suffix) (bound : Nat) (c : Cursor) : Prop where
  mark : ∃ before, t.text = before ++ c.rest ∧ byteLength before = c.pos
  lt : c.rest.length < bound

/-- Both cursors are at the same place of the text. -/
def Here (t : Suffix) (bound : Nat) (c d : Cursor) : Prop :=
  t.Inside bound c ∧ d = c.moved t.offset

/-- Both offsets are of the same place of the text. -/
def At (t : Suffix) (pos pos' : Nat) : Prop :=
  Mark t.text pos ∧ pos' = t.offset + pos

section
variable {m k : Nat} {c : Cursor}

theorem Inside.mono (h : t.Inside m c) (hle : m ≤ k) : t.Inside k c :=
  ⟨h.mark, Nat.lt_of_lt_of_le h.lt hle⟩

theorem Inside.at (h : t.Inside m c) : t.At c.pos (c.moved t.offset).pos := by
  obtain ⟨before, htext, hpos⟩ := h.mark
  exact ⟨⟨before, c.rest, htext, hpos⟩, rfl⟩

theorem Inside.skip (h : t.Inside m c) (n : Nat) : t.Inside m (c.skip n) := by
  obtain ⟨before, htext, hpos⟩ := h.mark
  refine ⟨⟨before ++ c.rest.take n, ?_, ?_⟩, ?_⟩
  · rw [List.append_assoc, Cursor.skip, List.take_append_drop, htext]
  · rw [byteLength_append, hpos]
    rfl
  · rw [Cursor.skip, List.length_drop]
    exact Nat.lt_of_le_of_lt (Nat.sub_le _ _) h.lt

/-- Passing over a character leaves less to read. -/
theorem Inside.skip_lt (h : t.Inside (m + 1) c) {n : Nat} (hn : n ≠ 0) (hrest : c.rest ≠ []) :
    t.Inside m (c.skip n) := by
  refine ⟨(h.skip n).mark, ?_⟩
  have hlt := h.lt
  have hpos := List.length_pos_of_ne_nil hrest
  rw [Cursor.skip, List.length_drop]
  omega

theorem skipWhile_eq_skip (p : Char → Bool) (c : Cursor) :
    c.skipWhile p = c.skip (c.rest.takeWhile p).length := by
  rw [Cursor.skipWhile, Cursor.skip, List.dropWhile_eq_drop_findIdx_not,
    List.takeWhile_eq_take_findIdx_not]
  simp [List.findIdx_le_length]

theorem Inside.skipWhile (h : t.Inside m c) (p : Char → Bool) : t.Inside m (c.skipWhile p) := by
  rw [skipWhile_eq_skip]
  exact h.skip _

end

/-! ## Trees -/

/-- Both nodes are the same one of the text, and it has the property `P`. -/
def Copy (t : Suffix) (P : Node → Prop) (a b : Node) : Prop :=
  P a ∧ a.Sound t.text ∧ b = a.moved t.offset

/-- The nodes of both lists are the same ones, and they have the property `P`. -/
def Copies (t : Suffix) (P : Node → Prop) (xs ys : List Node) : Prop :=
  (∀ a ∈ xs, P a ∧ a.Sound t.text) ∧ ys = xs.map (Node.moved t.offset)

/-- Nodes in any role. -/
abbrev Parts (t : Suffix) : List Node → List Node → Prop := t.Copies fun _ => True

/-- A node that has no role yet. -/
abbrev Fresh (t : Suffix) : Node → Node → Prop := t.Copy fun node => node.field = none

/-- Comments. -/
abbrev Gaps (t : Suffix) : List Node → List Node → Prop := t.Copies IsGap

section
variable {P Q : Node → Prop} {a b : Node} {xs ys xs' ys' : List Node}

theorem Copy.mono (h : t.Copy P a b) (hP : ∀ a, P a → Q a) : t.Copy Q a b :=
  ⟨hP a h.1, h.2⟩

theorem Copy.at_start (h : t.Copy P a b) : t.At a.start b.start := by
  obtain ⟨-, hsound, rfl⟩ := h
  exact ⟨hsound.proper.1, Node.start_moved _ _⟩

theorem Copy.as (h : t.Copy P a b) (field : Field) :
    t.Copy (fun node => node.field = some field) (a.as field) (b.as field) := by
  obtain ⟨-, hsound, rfl⟩ := h
  exact ⟨rfl, hsound.as field, (Node.as_moved _ _ _).symm⟩

theorem Copy.toPlain (h : t.Copy P a b) (hnode : isKeyword a.kind = false) {kind : Kind}
    (hkind : isPlain kind = true) :
    t.Copy (fun node => node.field = a.field) { a with kind } { b with kind } := by
  obtain ⟨-, hsound, rfl⟩ := h
  exact ⟨rfl, hsound.toPlain hnode hkind, by rw [Node.moved_eq, Node.moved_eq]⟩

theorem Copy.toName (h : t.Copy P a b) (hnode : isNameKind a.kind = true) {kind : Kind}
    (hkind : isNameKind kind = true) :
    t.Copy (fun node => node.field = a.field) { a with kind } { b with kind } := by
  obtain ⟨-, hsound, rfl⟩ := h
  exact ⟨rfl, hsound.toName hnode hkind, by rw [Node.moved_eq, Node.moved_eq]⟩

/-- A word kept as a node is not a construct. -/
theorem Copy.anonymous (h : t.Copy P a b) (hnode : isKeyword a.kind = true)
    (hleaf : a.children = []) :
    t.Copy (fun node => node.field = a.field) { a with named := false }
      { b with named := false } := by
  obtain ⟨-, hsound, rfl⟩ := h
  exact ⟨rfl, hsound.anonymous hnode hleaf, by rw [Node.moved_eq, Node.moved_eq]⟩

theorem Copy.children (h : t.Copy P a b) : t.Parts a.children b.children := by
  obtain ⟨-, hsound, rfl⟩ := h
  exact ⟨fun child hchild => ⟨trivial, hsound.children child hchild⟩, Node.children_moved _ _⟩

theorem Copy.kind_eq (h : t.Copy P a b) : b.kind = a.kind := by
  rw [h.2.2, Node.kind_moved]

theorem Copies.mono (h : t.Copies P xs ys) (hP : ∀ a, P a → Q a) : t.Copies Q xs ys :=
  ⟨fun a ha => ⟨hP a (h.1 a ha).1, (h.1 a ha).2⟩, h.2⟩

theorem Copies.parts (h : t.Copies P xs ys) : t.Parts xs ys :=
  h.mono fun _ _ => trivial

theorem Copies.nil : t.Copies P [] [] :=
  ⟨fun _ h => (nomatch h), rfl⟩

theorem Copy.one (h : t.Copy P a b) : t.Copies P [a] [b] := by
  obtain ⟨hP, hsound, rfl⟩ := h
  refine ⟨?_, rfl⟩
  intro a ha
  rw [List.mem_singleton] at ha
  exact ha ▸ ⟨hP, hsound⟩

/-- Lists with the same property, one behind the other. -/
theorem Copies.join (h : t.Copies P xs ys) (h' : t.Copies P xs' ys') :
    t.Copies P (xs ++ xs') (ys ++ ys') := by
  obtain ⟨hall, rfl⟩ := h
  obtain ⟨hall', rfl⟩ := h'
  refine ⟨?_, List.map_append.symm⟩
  intro a ha
  rcases List.mem_append.mp ha with ha | ha
  · exact hall a ha
  · exact hall' a ha

/-- Any lists, one behind the other. -/
theorem Copies.append (h : t.Copies P xs ys) (h' : t.Copies Q xs' ys') :
    t.Parts (xs ++ xs') (ys ++ ys') :=
  h.parts.join h'.parts

theorem Copy.cons (h : t.Copy P a b) (h' : t.Copies Q xs ys) : t.Parts (a :: xs) (b :: ys) :=
  h.one.append h'

theorem Copies.flatten {lists lists' : List (List Node)}
    (h : List.Forall₂ (t.Copies P) lists lists') : t.Copies P lists.flatten lists'.flatten := by
  induction h with
  | nil => exact .nil
  | cons hhead _ ih => exact hhead.join ih

/-- A property of the kinds and roles holds of both lists. -/
theorem Copies.any_eq (h : t.Copies P xs ys) {p : Node → Bool}
    (hp : ∀ node, p (node.moved t.offset) = p node) : ys.any p = xs.any p := by
  rw [h.2, any_map_moved t.offset hp]

theorem Copies.all_isRemark (h : t.Copies P xs ys) :
    ys.all Node.isRemark = xs.all Node.isRemark := by
  rw [h.2, List.all_map]
  congr 1
  funext node
  exact Node.isRemark_moved _ _

theorem Copies.isEmpty_eq (h : t.Copies P xs ys) : ys.isEmpty = xs.isEmpty := by
  rw [h.2, List.isEmpty_map]

end

/-! ## Parsers -/

/-- Started at the place of `c`, both parsers refuse, or they yield values related by `A` and stop at
the same place with less than `k` characters left. -/
abbrev ReadsAt (t : Suffix) (c : Cursor) (k : Nat) (A : α → β → Prop) (p : Parser α)
    (q : Parser β) : Prop :=
  Option.Rel (fun x y => A x.1 y.1 ∧ t.Here k x.2 y.2) (p c) (q (c.moved t.offset))

/-- Both parsers do the same wherever less than `m` characters are left. -/
def Reads (t : Suffix) (m k : Nat) (A : α → β → Prop) (p : Parser α) (q : Parser β) : Prop :=
  ∀ c, t.Inside m c → t.ReadsAt c k A p q

/-- What depends on two related options can be shown for each case of both. -/
@[elab_as_elim]
theorem rel_elim {r : α → β → Prop} {motive : Option α → Option β → Prop} {x : Option α}
    {y : Option β} (h : Option.Rel r x y) (none : motive none none)
    (some : ∀ a b, r a b → motive (some a) (some b)) : motive x y := by
  cases h with
  | some hab => exact some _ _ hab
  | none => exact none

theorem rel_imp {r s : α → β → Prop} (h : ∀ a b, r a b → s a b) {x : Option α} {y : Option β}
    (hxy : Option.Rel r x y) : Option.Rel s x y :=
  rel_elim hxy .none fun a b hab => .some (h a b hab)

/-- Values about which nothing is said. -/
abbrev Any : α → β → Prop := fun _ _ => True

section
variable {m k k' l : Nat} {A : α → β → Prop} {B : γ → δ → Prop} {p p' : Parser α}
  {q q' : Parser β}

/-- What the first parser yields, the second one yields further on. -/
theorem Reads.eq_some {c c' : Cursor} {a : α} (h : t.Reads m k A p q) (hc : t.Inside m c)
    (hp : p c = some (a, c')) :
    ∃ b, q (c.moved t.offset) = some (b, c'.moved t.offset) ∧ A a b ∧ t.Inside k c' := by
  have hread := h c hc
  rw [ReadsAt, hp] at hread
  generalize q (c.moved t.offset) = found at hread ⊢
  cases hread with
  | @some _ y hrelated =>
    obtain ⟨b, d⟩ := y
    obtain ⟨hab, hinside, rfl⟩ := hrelated
    exact ⟨b, rfl, hab, hinside⟩

theorem ReadsAt.bind {f : α → Parser γ} {g : β → Parser δ} {c : Cursor}
    (hp : t.ReadsAt c k A p q) (hf : ∀ {a b}, A a b → t.Reads k l B (f a) (g b)) :
    t.ReadsAt c l B (p >>= f) (q >>= g) := by
  show Option.Rel _ ((p c).bind fun x => f x.1 x.2)
    ((q (c.moved t.offset)).bind fun y => g y.1 y.2)
  refine rel_elim hp .none ?_
  rintro ⟨a, c₁⟩ ⟨b, _⟩ ⟨hab, hc₁, rfl⟩
  exact hf hab c₁ hc₁

theorem Reads.bind {f : α → Parser γ} {g : β → Parser δ} (hp : t.Reads m k A p q)
    (hf : ∀ {a b}, A a b → t.Reads k l B (f a) (g b)) : t.Reads m l B (p >>= f) (q >>= g) :=
  fun c hc => (hp c hc).bind hf

theorem Reads.seq {r : Parser γ} {r' : Parser δ} (hp : t.Reads m k A p q)
    (hr : t.Reads k l B r r') : t.Reads m l B (p >>= fun _ => r) (q >>= fun _ => r') :=
  hp.bind fun _ => hr

theorem Reads.ret {a : α} {b : β} (h : A a b) : t.Reads m m A (pure a) (pure b) :=
  fun _ hc => .some ⟨h, hc, rfl⟩

theorem Reads.mono {A' : α → β → Prop} (h : t.Reads m k A p q) (hA : ∀ a b, A a b → A' a b) :
    t.Reads m k A' p q := by
  intro c hc
  exact rel_imp (fun _ _ hrelated => ⟨hA _ _ hrelated.1, hrelated.2⟩) (h c hc)

/-- The bound on what is left may be larger. -/
theorem Reads.weaken (h : t.Reads m k A p q) (hle : k ≤ k') : t.Reads m k' A p q := by
  intro c hc
  exact rel_imp (fun _ _ hrelated => ⟨hrelated.1, hrelated.2.1.mono hle, hrelated.2.2⟩) (h c hc)

/-- What leaves less to read can be read under any bound. -/
theorem Reads.inner (h : ∀ n < m, t.Reads (n + 1) n A p q) : t.Reads m m A p q := by
  cases m with
  | zero => exact fun c hc => absurd hc.lt (Nat.not_lt_zero _)
  | succ n => exact (h n (Nat.lt_succ_self n)).weaken (Nat.le_succ n)

theorem ReadsAt.get {c : Cursor} {f : Cursor → Parser α} {g : Cursor → Parser β}
    (h : t.ReadsAt c k A (f c) (g (c.moved t.offset))) : t.ReadsAt c k A (get >>= f) (get >>= g) :=
  h

theorem ReadsAt.position {c : Cursor} {f : Nat → Parser α} {g : Nat → Parser β}
    (h : t.ReadsAt c k A (f c.pos) (g (c.moved t.offset).pos)) :
    t.ReadsAt c k A (Parser.position >>= f) (Parser.position >>= g) :=
  h

theorem Reads.get {f : Cursor → Parser α} {g : Cursor → Parser β}
    (h : ∀ c, t.Inside m c → t.Reads m k A (f c) (g (c.moved t.offset))) :
    t.Reads m k A (get >>= f) (get >>= g) :=
  fun c hc => h c hc c hc

theorem reads_set {c d : Cursor} (h : t.Here k c d) :
    t.Reads m k Any (set c : Parser PUnit) (set d) :=
  fun _ _ => .some ⟨trivial, h⟩

theorem reads_position : t.Reads m m t.At Parser.position Parser.position :=
  fun _ hc => .some ⟨hc.at, hc, rfl⟩

theorem reads_failure : t.Reads m k A (failure : Parser α) failure :=
  fun _ _ => .none

theorem reads_require (condition : Bool) :
    t.Reads m m (fun _ _ => condition = true) (Parser.require condition)
      (Parser.require condition) := by
  cases condition
  · exact reads_failure
  · exact .ret rfl

theorem Reads.ite {condition : Prop} [Decidable condition]
    (hp : condition → t.Reads m k A p q) (hq : ¬condition → t.Reads m k A p' q') :
    t.Reads m k A (if condition then p else p') (if condition then q else q') := by
  by_cases h : condition
  · rw [if_pos h, if_pos h]
    exact hp h
  · rw [if_neg h, if_neg h]
    exact hq h

/-- Two branches with a common continuation. -/
theorem Reads.branch {condition : Prop} [Decidable condition] {f : α → Parser γ} {g : β → Parser δ}
    (hp : condition → t.Reads m k A p q) (hq : ¬condition → t.Reads m k A p' q')
    (hf : ∀ {a b}, A a b → t.Reads k l B (f a) (g b)) :
    t.Reads m l B (if condition then p >>= f else p' >>= f)
      (if condition then q >>= g else q' >>= g) :=
  .ite (fun h => (hp h).bind hf) fun h => (hq h).bind hf

/-- Three branches with a common continuation. -/
theorem Reads.branch₃ {first second : Prop} [Decidable first] [Decidable second] {p'' : Parser α}
    {q'' : Parser β} {f : α → Parser γ} {g : β → Parser δ} (hp : first → t.Reads m k A p q)
    (hp' : second → t.Reads m k A p' q') (hp'' : ¬second → t.Reads m k A p'' q'')
    (hf : ∀ {a b}, A a b → t.Reads k l B (f a) (g b)) :
    t.Reads m l B (if first then p >>= f else if second then p' >>= f else p'' >>= f)
      (if first then q >>= g else if second then q' >>= g else q'' >>= g) :=
  .ite (fun h => (hp h).bind hf) fun _ => .branch hp' hp'' hf

theorem Reads.orElse (hp : t.Reads m k A p q) (hq : t.Reads m k A p' q') :
    t.Reads m k A (p <|> p') (q <|> q') := by
  intro c hc
  show Option.Rel _ ((p c).orElse fun _ => p' c)
    ((q (c.moved t.offset)).orElse fun _ => q' (c.moved t.offset))
  exact rel_elim (hp c hc) (hq c hc) fun _ _ hrelated => .some hrelated

theorem Reads.map {f : α → γ} {g : β → δ} (hp : t.Reads m k A p q)
    (hf : ∀ a b, A a b → B (f a) (g b)) : t.Reads m k B (f <$> p) (g <$> q) := by
  rw [map_eq_pure_bind, map_eq_pure_bind]
  exact hp.bind @fun a b hab => .ret (hf a b hab)

theorem reads_optional (hp : t.Reads m k A p q) (hle : k ≤ m) :
    t.Reads m m (Option.Rel A) (Parser.optional p) (Parser.optional q) := by
  intro c hc
  rw [ReadsAt, Parser.optional, Parser.optional]
  exact rel_elim (hp c hc) (.some ⟨.none, hc, rfl⟩) fun _ _ hrelated =>
    .some ⟨.some hrelated.1, hrelated.2.1.mono hle, hrelated.2.2⟩

theorem reads_ofOption {x : Option α} {y : Option β} (h : Option.Rel A x y) :
    t.Reads m m A (Parser.ofOption x) (Parser.ofOption y) := by
  cases h with
  | some hrelated => exact .ret hrelated
  | none => exact reads_failure

/-! ## Repetition -/

theorem reads_collect {step : Parser (Option α)} {step' : Parser (Option β)}
    (h : t.Reads m m (Option.Rel A) step step') (bound : List Char) :
    t.Reads m m (List.Forall₂ A) (Parser.collect step bound) (Parser.collect step' bound) := by
  induction bound with
  | nil =>
    refine h.bind ?_
    rintro _ _ (hab | _)
    · exact .ret (.cons hab .nil)
    · exact .ret .nil
  | cons d bound ih =>
    refine h.bind ?_
    rintro _ _ (hab | _)
    · exact ih.bind fun hrest => .ret (.cons hab hrest)
    · exact .ret .nil

theorem reads_many {step : Parser (Option α)} {step' : Parser (Option β)}
    (h : t.Reads m m (Option.Rel A) step step') :
    t.Reads m m (List.Forall₂ A) (Parser.many step) (Parser.many step') := by
  refine .get fun c _ => ?_
  exact reads_collect h c.rest

theorem reads_extend {step : α → Parser (Option α)} {step' : β → Parser (Option β)}
    (h : ∀ a b, A a b → t.Reads m m (Option.Rel A) (step a) (step' b)) (bound : List Char) {a : α}
    {b : β} (hab : A a b) :
    t.Reads m m A (Parser.extend step bound a) (Parser.extend step' bound b) := by
  induction bound generalizing a b with
  | nil =>
    refine (h a b hab).bind ?_
    rintro _ _ (hnext | _)
    · exact .ret hnext
    · exact .ret hab
  | cons d bound ih =>
    refine (h a b hab).bind ?_
    rintro _ _ (hnext | _)
    · exact ih hnext
    · exact .ret hab

theorem reads_iterate {step : α → Parser (Option α)} {step' : β → Parser (Option β)}
    (h : ∀ a b, A a b → t.Reads m m (Option.Rel A) (step a) (step' b)) {a : α} {b : β}
    (hab : A a b) : t.Reads m m A (Parser.iterate step a) (Parser.iterate step' b) := by
  refine .get fun c _ => ?_
  exact reads_extend h c.rest hab

/-! ## Nodes -/

section
variable {P : Node → Prop} {start start' : Nat} {children children' : List Node} {kind : Kind}

/-- A new node from one place to another that promises nothing but its span. -/
theorem copy_node {stop stop' : Nat} (hkind : isPlain kind = true) (hstart : t.At start start')
    (hstop : t.At stop stop') (hchildren : t.Copies P children children') :
    t.Fresh { kind, start, stop, children } { kind, start := start', stop := stop'
                                              children := children' } := by
  obtain ⟨hall, rfl⟩ := hchildren
  refine ⟨rfl, ?_, ?_⟩
  · exact Node.sound_of_isPlain hkind hstart.1 hstop.1 (.inl rfl) fun child hchild =>
      (hall child hchild).2
  · rw [Node.moved_eq, hstart.2, hstop.2]

/-- A new node of a given kind over given parts. -/
def Built (kind : Kind) (children : List Node) (node : Node) : Prop :=
  node.kind = kind ∧ node.named = true ∧ node.field = none ∧ node.children = children

/-- A new node whose promise follows wherever it ends. -/
theorem reads_built_of (hstart : t.At start start') (hchildren : t.Copies P children children')
    (hproper : ∀ stop, Mark t.text stop → Proper t.text ⟨kind, start, stop, true, false, none,
      children⟩) :
    t.Reads m m (t.Copy (Built kind children)) (Parser.node kind start children)
      (Parser.node kind start' children') := by
  refine reads_position.bind ?_
  rintro stop _ ⟨hmark, rfl⟩
  obtain ⟨hall, rfl⟩ := hchildren
  obtain ⟨-, rfl⟩ := hstart
  refine .ret ⟨⟨rfl, rfl, rfl, rfl⟩, Node.sound_iff.mpr ⟨hproper stop hmark,
    fun child hchild => (hall child hchild).2⟩, ?_⟩
  rw [Node.moved_eq]

theorem reads_built (hkind : isPlain kind = true) (hstart : t.At start start')
    (hchildren : t.Copies P children children') :
    t.Reads m m (t.Copy (Built kind children)) (Parser.node kind start children)
      (Parser.node kind start' children') :=
  reads_built_of hstart hchildren fun _ hmark =>
    proper_of_isPlain hkind hstart.1 hmark (.inl rfl)

theorem Copy.fresh {a b : Node} (h : t.Copy (Built kind children) a b) : t.Fresh a b :=
  h.mono fun _ hnode => hnode.2.2.1

theorem reads_node_of (hstart : t.At start start') (hchildren : t.Copies P children children')
    (hproper : ∀ stop, Mark t.text stop → Proper t.text ⟨kind, start, stop, true, false, none,
      children⟩) :
    t.Reads m m t.Fresh (Parser.node kind start children) (Parser.node kind start' children') :=
  (reads_built_of hstart hchildren hproper).mono fun _ _ hnode => hnode.fresh

/-- A new node that promises nothing but its span. -/
theorem reads_node (hkind : isPlain kind = true) (hstart : t.At start start')
    (hchildren : t.Copies P children children') :
    t.Reads m m t.Fresh (Parser.node kind start children) (Parser.node kind start' children') :=
  (reads_built hkind hstart hchildren).mono fun _ _ hnode => hnode.fresh

end

end

end Suffix

end NotebookCell.Script
