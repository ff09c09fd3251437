import NotebookCell.Proofs.Ending.Gap
import NotebookCell.Proofs.Reading.Span
import NotebookCell.Proofs.Script.Operand

/-!
# Parsers before two ends

What a parser reads of a text in front of one end it also reads in front of the other
(`Ending.Follows`). The reading in front of the line break leads: only where it succeeds the other one
is asked. It may also run out of text, or stop in front of a line comment that runs up to the break;
then nothing is said of the other one, but from there the leading one gets nowhere else.

A `Follows` is built like the parser it is about, with one lemma for each way of putting parsers
together. Repetitions are bounded by the text that is left, which is longer in one of the readings, so
along with the places the lemmas count how much is left.
-/

namespace NotebookCell.Script.Ending

open NotebookCell.Tree NotebookCell.Script.Parser

/-- The text is over behind an operand, or up to a line comment. -/
def Over (c : Cursor) : Prop := Gone c ∨ Spent c

/-- At most the closing parenthesis is left, or a line comment in front of it. -/
def Late (c : Cursor) : Prop := Lost c ∨ Spent c

/-- One way of being over is a special case of another. -/
class Within (H H' : Cursor → Prop) : Prop where
  imp : ∀ c, H c → H' c

/-- Related places have the same offset. -/
class Level (S : Cursor → Cursor → Prop) : Prop where
  pos : ∀ c d, S c d → d.pos = c.pos

instance (H : Cursor → Prop) : Within H H := ⟨fun _ h => h⟩

instance : Within Gone Lost := ⟨fun _ h => .inl h⟩

instance : Within Gone Over := ⟨fun _ h => .inl h⟩

instance : Within Gone Late := ⟨fun _ h => .inl (.inl h)⟩

instance : Within Lost Late := ⟨fun _ h => .inl h⟩

instance : Within Over Late := ⟨fun _ h => h.imp_left .inl⟩

instance (e : Ending) (m : Nat) : Level (e.Same m) := ⟨fun _ _ h => h.pos⟩

instance (e : Ending) (m : Nat) : Level (e.Token m) := ⟨fun _ _ h => h.pos⟩

section
variable {α β : Type} {G H H' K : Cursor → Prop} {R R' : Cursor → Cursor → Prop}
  {S : α → Cursor → Cursor → Prop} {S' : Cursor → Cursor → Prop} {T : β → Cursor → Cursor → Prop}
  {p q p' q' : Parser α} {c d : Cursor}

/-- Whatever the first parser yields at `c` the second one yields at `d`, and they stop at related
places, unless the first one stops where `H` holds. -/
def FollowsAt (H : Cursor → Prop) (S : α → Cursor → Cursor → Prop) (c d : Cursor)
    (p q : Parser α) : Prop :=
  ∀ a c', p c = some (a, c') → H c' ∨ ∃ d', q d = some (a, d') ∧ S a c' d'

/-- Between related places the parser follows itself; and from where `G` holds it only gets to where
`H` holds. -/
structure Follows (G H : Cursor → Prop) (R : Cursor → Cursor → Prop)
    (S : α → Cursor → Cursor → Prop) (p : Parser α) : Prop where
  same : ∀ c d, R c d → FollowsAt H S c d p p
  beyond : ∀ c, G c → GivesAt c (fun _ => H) p

/-! ## Putting parsers together -/

theorem FollowsAt.bind {f g : α → Parser β} (hp : FollowsAt H S c d p q)
    (hf : ∀ a c' d', S a c' d' → FollowsAt K T c' d' (f a) (g a))
    (hover : ∀ a c', H c' → GivesAt c' (fun _ => K) (f a)) :
    FollowsAt K T c d (p >>= f) (q >>= g) := by
  intro b c'' h
  obtain ⟨a, c', hfirst, hrest⟩ := exists_of_bind h
  rcases hp a c' hfirst with hend | ⟨d', hd', hsame⟩
  · exact .inl (hover a c' hend b c'' hrest)
  · rw [bind_of_eq hd']
    exact hf a c' d' hsame b c'' hrest

theorem Follows.bindAt {G' : Cursor → Prop} [Within G G'] {f : α → Parser β} (hp : Follows G' H R S p)
    (hf : ∀ a, Follows H K (S a) T (f a)) : Follows G K R T (p >>= f) where
  same c d h := (hp.same c d h).bind (fun a => (hf a).same) fun a => (hf a).beyond
  beyond c h := (hp.beyond c (Within.imp c h)).bind fun a => (hf a).beyond

theorem Follows.bind {G' : Cursor → Prop} [Within G G'] {f : α → Parser β}
    (hp : Follows G' H R (fun _ => S') p) (hf : ∀ a, Follows H K S' T (f a)) :
    Follows G K R T (p >>= f) :=
  hp.bindAt hf

theorem Follows.imp {G' : Cursor → Prop} {S'' : α → Cursor → Cursor → Prop} (h : Follows G H R S p)
    (hG : ∀ c, G' c → G c) (hH : ∀ c, H c → H' c) (hR : ∀ c d, R' c d → R c d)
    (hS : ∀ a c d, S a c d → S'' a c d) : Follows G' H' R' S'' p where
  same c d hcd a c' hp := (h.same c d (hR c d hcd) a c' hp).imp (hH c') fun hfound => by
    obtain ⟨d', hd', hsame⟩ := hfound
    exact ⟨d', hd', hS a c' d' hsame⟩
  beyond c hc a c' hp := hH c' (h.beyond c (hG c hc) a c' hp)

theorem Follows.from (h : Follows G H R S p) (hR : ∀ c d, R' c d → R c d) : Follows G H R' S p :=
  h.imp (fun _ => id) (fun _ => id) hR fun _ _ _ => id

/-- Less may be said of where the text is over. -/
theorem Follows.within {G' : Cursor → Prop} [Within G' G] [Within H H'] (h : Follows G H R S p) :
    Follows G' H' R S p :=
  h.imp Within.imp Within.imp (fun _ _ => id) fun _ _ _ => id

theorem FollowsAt.pure {a : α} (h : S a c d) : FollowsAt H S c d (pure a) (pure a) := by
  intro b c' hb
  cases hb
  exact .inr ⟨d, rfl, h⟩

/-- The last value decides what is said of the place. -/
theorem follows_return {a : α} [Within G H] (h : ∀ c d, R c d → S a c d) : Follows G H R S (pure a) where
  same c d hcd := .pure (h c d hcd)
  beyond c hc b c' hb := by
    cases hb
    exact Within.imp c hc

theorem follows_pure [Within G H] (a : α) : Follows G H S' (fun _ => S') (pure a) :=
  follows_return fun _ _ h => h

theorem followsAt_failure : FollowsAt H S c d failure q := fun _ _ h => nomatch h

theorem follows_failure : Follows G H R S failure := ⟨fun _ _ _ => followsAt_failure, fun _ _ =>
  givesAt_failure⟩

theorem FollowsAt.refused (h : p c = none) : FollowsAt H S c d p q := by
  intro a c' hp
  cases h.symm.trans hp

theorem FollowsAt.ite {b : Prop} [Decidable b] (hp : b → FollowsAt H S c d p q)
    (hp' : ¬b → FollowsAt H S c d p' q') :
    FollowsAt H S c d (if b then p else p') (if b then q else q') := by
  by_cases h : b
  · rw [if_pos h, if_pos h]
    exact hp h
  · rw [if_neg h, if_neg h]
    exact hp' h

theorem orElse_of_eq {found : α × Cursor} (h : q d = some found) (q' : Parser α) :
    (q <|> q') d = some found := by
  show (q d).orElse (fun _ => q' d) = some found
  rw [h]
  rfl

theorem orElse_of_refused (h : q d = none) (q' : Parser α) : (q <|> q') d = q' d := by
  show (q d).orElse (fun _ => q' d) = q' d
  rw [h]
  rfl

/-- Of two readings the second one counts only where the first one refuses. -/
theorem FollowsAt.orElse (hp : FollowsAt H S c d p q) (hp' : FollowsAt H S c d p' q')
    (honly : ∀ found, q' d = some found → q d = none) :
    FollowsAt H S c d (p <|> p') (q <|> q') := by
  intro a c' h
  rcases exists_of_orElse h with h | h
  · rcases hp a c' h with hend | ⟨d', hd', hsame⟩
    · exact .inl hend
    · exact .inr ⟨d', orElse_of_eq hd' q', hsame⟩
  · rcases hp' a c' h with hend | ⟨d', hd', hsame⟩
    · exact .inl hend
    · exact .inr ⟨d', (orElse_of_refused (honly _ hd') q').trans hd', hsame⟩

/-- Only the first of two readings counts where the second one refuses. -/
theorem FollowsAt.first (hp : FollowsAt H S c d p q) (hrefused : p' c = none) :
    FollowsAt H S c d (p <|> p') (q <|> q') := by
  intro a c' h
  rcases exists_of_orElse h with h | h
  · rcases hp a c' h with hend | ⟨d', hd', hsame⟩
    · exact .inl hend
    · exact .inr ⟨d', orElse_of_eq hd' q', hsame⟩
  · cases hrefused.symm.trans h

theorem Follows.ite {b : Prop} [Decidable b] (hp : b → Follows G H R S p)
    (hp' : ¬b → Follows G H R S p') : Follows G H R S (if b then p else p') := by
  by_cases h : b
  · rw [if_pos h]
    exact hp h
  · rw [if_neg h]
    exact hp' h

theorem Follows.guard {condition : Bool} (hp : condition = true → Follows G H R S p) :
    Follows G H R S (require condition >>= fun _ => p) := by
  cases condition
  · exact follows_failure
  · exact hp rfl

theorem FollowsAt.set {c' d' : Cursor} {f g : PUnit → Parser α} (h : FollowsAt H S c' d' (f ()) (g ())) :
    FollowsAt H S c d (set c' >>= f) (set d' >>= g) := h

theorem Follows.start [Level R] {f : Nat → Parser α} (hf : ∀ start, Follows G H R S (f start)) :
    Follows G H R S (position >>= f) where
  same c d h := by
    show FollowsAt H S c d (f c.pos) (f d.pos)
    rw [Level.pos c d h]
    exact (hf c.pos).same c d h
  beyond c h := givesAt_position ((hf c.pos).beyond c h)

theorem follows_node [Level S'] [Within G H] (kind : Kind) (start : Nat) (children : List Node) :
    Follows G H S' (fun _ => S') (node kind start children) :=
  .start fun _ => follows_pure _

theorem Follows.value {a : β} {f : β → Parser α} (h : Follows G H R S (f a)) :
    Follows G H R S (pure a >>= f) := h

/-- A node that is not the last thing read. -/
theorem Follows.part [Level R] {kind : Kind} {start : Nat} {children : List Node} {f : Node → Parser α}
    (hf : ∀ part, Follows G H R S (f part)) : Follows G H R S (node kind start children >>= f) where
  same c d h := by
    show FollowsAt H S c d (f { kind, start, stop := c.pos, children })
      (f { kind, start, stop := d.pos, children })
    rw [Level.pos c d h]
    exact (hf _).same c d h
  beyond c h := (hf { kind, start, stop := c.pos, children }).beyond c h

/-- A test at both places with the same answer. -/
theorem Follows.test {t : Cursor → Bool} (ht : ∀ c d, R c d → t d = t c)
    (hp : Follows G H R S p) (hp' : Follows G H R S p') :
    Follows G H R S (get >>= fun c => if t c then p else p') where
  same c d h := by
    show FollowsAt H S c d (if t c then p else p') (if t d then p else p')
    rw [ht c d h]
    exact .ite (fun _ => hp.same c d h) fun _ => hp'.same c d h
  beyond c h := givesAt_get (.ite (hp.beyond c h) (hp'.beyond c h))

/-- Two tests at both places, one after the other. -/
theorem Follows.test₂ {t t' : Cursor → Bool} {p'' : Parser α} (ht : ∀ c d, R c d → t d = t c)
    (ht' : ∀ c d, R c d → t' d = t' c) (hp : Follows G H R S p) (hp' : Follows G H R S p')
    (hp'' : Follows G H R S p'') :
    Follows G H R S (get >>= fun c => if t c then p else if t' c then p' else p'') where
  same c d h := by
    show FollowsAt H S c d (if t c then p else if t' c then p' else p'')
      (if t d then p else if t' d then p' else p'')
    rw [ht c d h, ht' c d h]
    exact .ite (fun _ => hp.same c d h) fun _ => .ite (fun _ => hp'.same c d h) fun _ => hp''.same c d h
  beyond c h := givesAt_get (.ite (hp.beyond c h) (.ite (hp'.beyond c h) (hp''.beyond c h)))

/-- A test at both places that has to be passed. -/
theorem Follows.must {t : Cursor → Bool} (ht : ∀ c d, R c d → t d = t c) (hp : Follows G H R S p) :
    Follows G H R S (get >>= fun c => require (t c) >>= fun _ => p) where
  same c d h := by
    show FollowsAt H S c d (require (t c) >>= fun _ => p) (require (t d) >>= fun _ => p)
    rw [ht c d h]
    cases t c
    · exact followsAt_failure
    · exact hp.same c d h
  beyond c h := by
    refine givesAt_get ?_
    cases t c
    · exact givesAt_failure
    · exact hp.beyond c h

end

variable {e : Ending} {α β : Type} {H : Cursor → Prop} {c d : Cursor} {m n : Nat}

/-! ## Repetition -/

/-- That both cursors are in front of a token may be forgotten. -/
theorem Follows.plain {G : Cursor → Prop} {R : Cursor → Cursor → Prop} {p : Parser α}
    (h : Follows G H R (fun _ => e.Token m) p) : Follows G H R (fun _ => e.Same m) p :=
  h.imp (fun _ => id) (fun _ => id) (fun _ _ => id) fun _ _ _ => Token.toSame

/-- Relations between places of the text that bound how much of it is left. -/
structure Place (e : Ending) (R : Nat → Cursor → Cursor → Prop) : Prop where
  same : ∀ {m c d}, R m c d → e.Same m c d
  tight : ∀ {m c d}, R m c d → R (c.rest.length + 1) c d
  mono : ∀ {m k c d}, R m c d → m ≤ k → R k c d

theorem place_same (e : Ending) : e.Place e.Same where
  same h := h
  tight h := ⟨h.left, h.pos, Nat.lt_succ_self _⟩
  mono h hle := h.mono hle

theorem place_token (e : Ending) : e.Place e.Token where
  same h := h.toSame
  tight h := ⟨⟨h.left, h.pos, Nat.lt_succ_self _⟩, h.blank⟩
  mono h hle := h.mono hle

/-- Where a step yields something, it has read something. -/
def Stepwise (R : Nat → Cursor → Cursor → Prop) (n : Nat) : Option α → Cursor → Cursor → Prop
  | some _ => R n
  | none => R (n + 1)

section
variable {R : Nat → Cursor → Cursor → Prop}

theorem exists_of_extend {step : α → Parser (Option α)} {bound : List Char} {c c' : Cursor} {a b : α}
    (h : extend step bound a c = some (b, c')) :
    (b = a ∧ step a c = some (none, c')) ∨
      ∃ a' c₁, step a c = some (some a', c₁) ∧
        ((bound = [] ∧ b = a' ∧ c' = c₁) ∨
          ∃ first rest, bound = first :: rest ∧ extend step rest a' c₁ = some (b, c')) := by
  cases hstep : step a c with
  | none =>
    rw [extend_of_refused hstep] at h
    cases h
  | some result =>
    obtain ⟨item, c₁⟩ := result
    cases item with
    | none =>
      rw [extend_of_none hstep] at h
      cases h
      exact .inl ⟨rfl, rfl⟩
    | some a' =>
      cases bound with
      | nil =>
        replace h : (step a c).bind (fun found => some (found.1.getD a, found.2)) = some (b, c') := h
        rw [hstep] at h
        cases h
        exact .inr ⟨a', c₁, rfl, .inl ⟨rfl, rfl, rfl⟩⟩
      | cons first rest =>
        rw [extend_of_some hstep] at h
        exact .inr ⟨a', c₁, rfl, .inr ⟨first, rest, rfl, h⟩⟩

theorem over_extend {step : α → Parser (Option α)}
    (hstep : ∀ a c, H c → GivesAt c (fun _ => H) (step a)) (bound : List Char) (a : α) (hc : H c) :
    GivesAt c (fun _ => H) (extend step bound a) := by
  induction bound generalizing c a with
  | nil =>
    refine (hstep a c hc).bind fun found c' hc' _ c'' h => ?_
    cases h
    exact hc'
  | cons x bound ih =>
    intro b c' h
    rcases exists_of_extend h with ⟨-, hlast⟩ | ⟨a', c₁, hfirst, hrest⟩
    · exact hstep a c hc _ _ hlast
    · have hc₁ := hstep a c hc _ _ hfirst
      rcases hrest with ⟨hnil, -⟩ | ⟨_, _, hcons, hrest⟩
      · cases hnil
      · cases hcons
        exact ih a' hc₁ _ _ hrest

theorem followsAt_extend (hR : e.Place R) {step : α → Parser (Option α)}
    (hstep : ∀ a n, Follows H H (R (n + 1)) (Stepwise R n) (step a)) {bound bound' : List Char} (a : α)
    (hbound : c.rest.length ≤ bound.length) (hbound' : d.rest.length ≤ bound'.length)
    (h : R m c d) :
    FollowsAt H (fun _ => R m) c d (extend step bound a) (extend step bound' a) := by
  induction bound generalizing m c d bound' a with
  | nil =>
    have htwo := (hR.same h).two_le.1
    rw [List.length_nil] at hbound
    omega
  | cons x bound ih =>
    cases bound' with
    | nil =>
      have hone := (hR.same h).two_le.2
      rw [List.length_nil] at hbound'
      omega
    | cons y bound' =>
      intro b c' hfound
      have hlt := (hR.same h).lt
      have hfollows := (hstep a c.rest.length).same c d (hR.tight h)
      rcases exists_of_extend hfound with ⟨rfl, hlast⟩ | ⟨a', c₁, hfirst, hrest⟩
      · rcases hfollows _ _ hlast with hend | ⟨d', hd', hsame⟩
        · exact .inl hend
        · exact .inr ⟨d', extend_of_none hd' _, hR.mono hsame hlt⟩
      · rcases hrest with ⟨hnil, -⟩ | ⟨_, _, hcons, hrest⟩
        · cases hnil
        cases hcons
        rcases hfollows _ _ hfirst with hend | ⟨d₁, hd₁, hsame⟩
        · exact .inl (over_extend (fun a c => (hstep a 0).beyond c) _ a' hend _ _ hrest)
        · have hsame₁ : R c.rest.length c₁ d₁ := hsame
          have hlt₁ := (hR.same hsame₁).lt
          have hlength := (hR.same h).length_eq
          have hlength₁ := (hR.same hsame₁).length_eq
          rw [List.length_cons] at hbound hbound'
          rw [extend_of_some hd₁]
          have hmore : FollowsAt H (fun _ => R c.rest.length) c₁ d₁ (extend step bound a')
              (extend step bound' a') := ih a' (by omega) (by omega) hsame₁
          rcases hmore _ _ hrest with hend | ⟨d', hd', hsame'⟩
          · exact .inl hend
          · exact .inr ⟨d', hd', hR.mono hsame' hlt.le⟩

theorem follows_iterate (hR : e.Place R) {step : α → Parser (Option α)}
    (hstep : ∀ a n, Follows H H (R (n + 1)) (Stepwise R n) (step a)) (a : α) :
    Follows H H (R m) (fun _ => R m) (iterate step a) where
  same _ _ h := followsAt_extend hR hstep a le_rfl le_rfl h
  beyond c h := over_extend (fun a c => (hstep a 0).beyond c) c.rest a h
/-- A step that adds what another one yields to a list. -/
def gathering (step : Parser (Option α)) (items : List α) : Parser (Option (List α)) := do
  return (← step).map fun a => items ++ [a]

theorem extend_gathering (step : Parser (Option α)) (bound : List Char) (items : List α)
    (c : Cursor) : extend (gathering step) bound items c =
      (collect step bound c).map fun found => (items ++ found.1, found.2) := by
  induction bound generalizing items c with
  | nil =>
    show ((step c).bind fun found => some (found.1.map fun a => items ++ [a], found.2)).bind
        (fun found => some (found.1.getD items, found.2)) =
      ((step c).bind fun found => some (found.1.toList, found.2)).map _
    rcases step c with _ | ⟨_ | a, c'⟩ <;> simp
  | cons d bound ih =>
    rcases hstep : step c with _ | ⟨_ | a, c'⟩
    · rw [collect_of_refused hstep, extend_of_refused (bind_of_refused hstep _), Option.map_none]
    · rw [collect_of_none hstep, extend_of_none (bind_of_eq hstep _), Option.map_some,
        List.append_nil]
    · have hadd : gathering step items c = some (some (items ++ [a]), c') := bind_of_eq hstep _
      rw [collect_of_some hstep, extend_of_some hadd, ih]
      simp [Option.map_map, Function.comp_def]

theorem many_eq_iterate (step : Parser (Option α)) : many step = iterate (gathering step) [] := by
  funext c
  refine .trans ?_ (extend_gathering step c.rest [] c).symm
  show collect step c.rest c = _
  simp

theorem follows_many (hR : e.Place R) {step : Parser (Option α)}
    (hstep : ∀ n, Follows H H (R (n + 1)) (Stepwise R n) step) :
    Follows H H (R m) (fun _ => R m) (many step) := by
  rw [many_eq_iterate]
  refine follows_iterate hR (fun items n => (hstep n).bindAt fun found => follows_return ?_) []
  cases found <;> exact fun _ _ h => h

end

end NotebookCell.Script.Ending
