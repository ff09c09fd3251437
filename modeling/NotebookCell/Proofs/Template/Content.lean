import NotebookCell.Template.Literal

/-!
# The parts of a template

Literal text and holes alternate and leave no character out (`Parts`). The default reader of literal
text is told apart by runs of backslashes: inside a stretch of text each `${` stands behind an odd
run, and the stretch ends at one behind an even run or with the source.
-/

namespace NotebookCell.Template

open NotebookCell.Tree NotebookCell.Text NotebookCell.Script

/-! ## Runs of backslashes -/

/-- The number of backslashes directly before an offset. -/
def slashesBefore (source : List Char) (pos : Nat) : Nat :=
  ((source.take pos).reverse.takeWhile (· == '\\')).length

/-- The last character before an offset that is no backslash. -/
def beforeSlashes? (source : List Char) (pos : Nat) : Option Char :=
  ((source.take pos).reverse.dropWhile (· == '\\')).head?

/-- Whether `${` stands at an offset. -/
def opensAt (source : List Char) (pos : Nat) : Bool := "$\x7b".toList.isPrefixOf (source.drop pos)

section
variable {source rest : List Char} {pos : Nat} {c : Char} (h : source.drop pos = c :: rest)
include h

/-- The text from the next offset on. -/
theorem drop_succ_of_drop :
    source.drop (pos + 1) = rest := by
  rw [← List.tail_drop, h, List.tail_cons]

/-- The character at an offset. -/
theorem getElem?_of_drop :
    source[pos]? = some c := by
  rw [← List.head?_drop, h, List.head?_cons]

theorem take_succ_of_drop :
    (source.take (pos + 1)).reverse = c :: (source.take pos).reverse := by
  rw [List.take_add_one, getElem?_of_drop h]
  simp

theorem slashesBefore_succ :
    slashesBefore source (pos + 1) = if c = '\\' then slashesBefore source pos + 1 else 0 := by
  rw [slashesBefore, take_succ_of_drop h, List.takeWhile_cons]
  by_cases hc : c = '\\' <;> simp [hc, slashesBefore]

theorem beforeSlashes?_succ :
    beforeSlashes? source (pos + 1) = if c = '\\' then beforeSlashes? source pos else some c := by
  rw [beforeSlashes?, take_succ_of_drop h, List.dropWhile_cons]
  by_cases hc : c = '\\' <;> simp [hc, beforeSlashes?]

end

/-! ## Literal text -/

/-- A stretch of literal text read from where a run of backslashes is even: a `${` inside it stands
behind an odd run, and one behind an even run ends it if the source does not. -/
structure Stretch (source : List Char) (start stop : Nat) : Prop where
  ordered : start ≤ stop
  inside : stop ≤ source.length
  odd_of_opens : ∀ pos, start ≤ pos → pos < stop → opensAt source pos = true →
    slashesBefore source pos % 2 = 1
  opens : stop < source.length → opensAt source stop = true ∧ slashesBefore source stop % 2 = 0

/-- Text in front of a stretch that opens no hole belongs to it. -/
theorem Stretch.cons {source : List Char} {start next stop : Nat} (h : Stretch source next stop)
    (hnext : start ≤ next) (hodd : ∀ pos, start ≤ pos → pos < next → opensAt source pos = true →
      slashesBefore source pos % 2 = 1) : Stretch source start stop := by
  refine ⟨Nat.le_trans hnext h.ordered, h.inside, ?_, h.opens⟩
  intro pos hlow hhigh hopens
  by_cases hpos : pos < next
  · exact hodd pos hlow hpos hopens
  · exact h.odd_of_opens pos (by omega) hhigh hopens

/-- At the end of the source there is an empty stretch. -/
theorem stretch_at_end {source : List Char} {pos : Nat} (h : pos = source.length) :
    Stretch source pos pos :=
  ⟨Nat.le_refl _, Nat.le_of_eq h, fun p _ _ _ => by omega, fun hlt => by omega⟩

theorem length_of_drop {source rest : List Char} {pos : Nat} {c : Char}
    (h : source.drop pos = c :: rest) : pos < source.length := by
  have hlength := congrArg List.length h
  rw [List.length_drop, List.length_cons] at hlength
  omega

/-- The reader of literal text finds a stretch. It takes backslashes in pairs, so wherever it stands
the run before it is even. -/
theorem stretch_literalEnd {source text : List Char} {pos : Nat} (htext : source.drop pos = text)
    (hpos : pos ≤ source.length) (heven : slashesBefore source pos % 2 = 0) :
    Stretch source pos (literalEnd pos text) := by
  fun_induction literalEnd pos text with
  | case1 pos =>
    have hlength : source.length ≤ pos := List.drop_eq_nil_iff.mp htext
    exact stretch_at_end (by omega)
  | case2 pos c rest ih =>
    have hnext := drop_succ_of_drop htext
    have hafter := drop_succ_of_drop hnext
    have hone := slashesBefore_succ htext
    have htwo := slashesBefore_succ hnext
    rw [if_pos rfl] at hone
    have hstretch := ih hafter (length_of_drop hnext) (by rw [htwo, hone]; split <;> omega)
    refine hstretch.cons (by omega) ?_
    intro p hlow hhigh hopens
    by_cases hp : p = pos
    · rw [opensAt, hp, htext] at hopens
      simp at hopens
    · have hp' : p = pos + 1 := by omega
      rw [hp', hone]
      omega
  | case3 pos rest =>
    refine ⟨Nat.le_refl _, hpos, fun p _ _ _ => by omega, fun _ => ⟨?_, heven⟩⟩
    rw [opensAt, htext]
    simp
  | case4 pos c rest hslash hopen ih =>
    have hnext := drop_succ_of_drop htext
    have hone := slashesBefore_succ htext
    have hlength := length_of_drop htext
    have hnot : ∀ p, pos ≤ p → p < pos + 1 → opensAt source p = true →
        slashesBefore source p % 2 = 1 := by
      intro p hlow hhigh hopens
      have hp : p = pos := by omega
      rw [opensAt, hp, htext] at hopens
      cases rest with
      | nil => simp at hopens
      | cons d rest =>
        simp at hopens
        exact absurd (hopens.2 ▸ rfl) (hopen rest hopens.1.symm)
    cases rest with
    | nil =>
      have hend : source.length ≤ pos + 1 := List.drop_eq_nil_iff.mp hnext
      rw [literalEnd]
      exact (stretch_at_end (by omega)).cons (by omega) hnot
    | cons d rest =>
      have hc : c ≠ '\\' := fun hc => hslash d rest hc rfl
      rw [if_neg hc] at hone
      exact (ih hnext hlength (by omega)).cons (by omega) hnot

/-- Literal text ends inside the source. -/
theorem literalEnd_le (pos : Nat) (text : List Char) : literalEnd pos text ≤ pos + text.length := by
  fun_induction literalEnd pos text <;> simp only [List.length_cons, List.length_nil] <;> omega

theorem le_literalEnd (pos : Nat) (text : List Char) : pos ≤ literalEnd pos text := by
  fun_induction literalEnd pos text <;> omega

theorem le_readLiteral {source : List Char} {pos : Nat} (hpos : pos ≤ source.length) :
    pos ≤ readLiteral source pos := by
  unfold readLiteral
  split
  · exact hpos
  · exact le_literalEnd _ _

theorem readLiteral_le (source : List Char) (pos : Nat) :
    readLiteral source pos ≤ source.length := by
  unfold readLiteral
  split
  · exact Nat.le_refl _
  · have hle := literalEnd_le pos (source.drop pos)
    rw [List.length_drop] at hle
    omega

theorem stretch_readLiteral {source : List Char} {pos : Nat} (hpos : pos ≤ source.length)
    (heven : slashesBefore source pos % 2 = 0) : Stretch source pos (readLiteral source pos) := by
  unfold readLiteral
  split
  · next hend =>
    have hpos' : pos = source.length := by omega
    rw [hpos']
    exact stretch_at_end rfl
  · exact stretch_literalEnd rfl hpos heven

/-! ## Holes -/

/-- The braces found are closing braces of the text. -/
theorem brace_of_mem_bracesFrom {source text : List Char} {pos stop : Nat}
    (htext : source.drop pos = text) (h : stop ∈ bracesFrom pos text) :
    pos ≤ stop ∧ source[stop]? = some '\x7d' := by
  induction text generalizing pos with
  | nil => cases h
  | cons c rest ih =>
    have hrest := ih (drop_succ_of_drop htext)
    rw [bracesFrom] at h
    split at h
    · next hbrace =>
      rcases List.mem_cons.mp h with rfl | h
      · exact ⟨Nat.le_refl _, by rw [getElem?_of_drop htext, beq_iff_eq.mp hbrace]⟩
      · exact ⟨by have := (hrest h).1; omega, (hrest h).2⟩
    · exact ⟨by have := (hrest h).1; omega, (hrest h).2⟩

/-- A hole that is closed ends at one of the braces tried, and holds one complete expression. -/
theorem closeHole_eq_ok {verdict : List Char → Verdict} {source : List Char} {start : Nat}
    {first : Option Problem} {stops : List Nat} {hole : Hole}
    (h : closeHole verdict source start first stops = .ok hole) :
    hole.start = start ∧ hole.stop ∈ stops ∧
      verdict (slice source start hole.stop) = .complete := by
  induction stops generalizing first with
  | nil => cases h
  | cons stop stops ih =>
    rw [closeHole] at h
    split at h
    · next hverdict =>
      cases h
      exact ⟨rfl, List.mem_cons_self .., hverdict⟩
    · obtain ⟨hstart, hstop, hverdict⟩ := ih h
      exact ⟨hstart, List.mem_cons_of_mem _ hstop, hverdict⟩
    · obtain ⟨hstart, hstop, hverdict⟩ := ih h
      exact ⟨hstart, List.mem_cons_of_mem _ hstop, hverdict⟩

/-- A hole that is read starts where it was opened, ends before a closing brace and holds one
complete expression. -/
theorem readHole_eq_ok {verdict : List Char → Verdict} {source : List Char} {start : Nat}
    {hole : Hole} (h : readHole verdict source start = .ok hole) :
    hole.start = start ∧ start ≤ hole.stop ∧ source[hole.stop]? = some '\x7d' ∧
      verdict (slice source start hole.stop) = .complete := by
  unfold readHole at h
  split at h
  · cases h
  · next stop stops hbraces =>
    split at h
    · cases h
    · obtain ⟨hstart, hstop, hverdict⟩ := closeHole_eq_ok h
      rw [← hbraces] at hstop
      obtain ⟨hle, hbrace⟩ := brace_of_mem_bracesFrom rfl hstop
      exact ⟨hstart, hle, hbrace, hverdict⟩

/-! ## Templates -/

/-- The text of a hole. -/
def Hole.text (source : List Char) (hole : Hole) : List Char := slice source hole.start hole.stop

/-- The text of a stretch of literal text. -/
def Quasi.text (source : List Char) (quasi : Quasi) : List Char :=
  slice source quasi.start quasi.stop

/-- The reader of literal text goes forward and stays in the source. -/
def LiteralReader.StaysIn (reader : LiteralReader) (source : List Char) : Prop :=
  ∀ pos ≤ source.length, pos ≤ reader source pos ∧ reader source pos ≤ source.length

theorem staysIn_readLiteral (source : List Char) : LiteralReader.StaysIn readLiteral source :=
  fun pos hpos => ⟨le_readLiteral hpos, readLiteral_le source pos⟩

/-- The parts of a template from an offset on: literal text up to the end of the source, or up to a
hole with more parts behind its closing brace. -/
inductive Parts (reader : LiteralReader) (verdict : List Char → Verdict) (source : List Char) :
    Nat → Content → Prop
  | last {pos : Nat} (hend : reader source pos = source.length) :
    Parts reader verdict source pos ⟨[⟨pos, reader source pos, true⟩], []⟩
  | hole {pos : Nat} {hole : Hole} {rest : Content} (hopens : opensAt source (reader source pos))
    (hstart : hole.start = reader source pos + 2) (hstop : hole.start ≤ hole.stop)
    (hbrace : source[hole.stop]? = some '\x7d')
    (hcomplete : verdict (hole.text source) = .complete)
    (hrest : Parts reader verdict source (hole.stop + 1) rest) :
    Parts reader verdict source pos
      ⟨⟨pos, reader source pos, false⟩ :: rest.quasis, hole :: rest.holes⟩

/-- What is read of a template are its parts. -/
theorem parts_of_readFrom {reader : LiteralReader} {verdict : List Char → Verdict}
    {source : List Char} {bound pos : Nat} {content : Content}
    (hreader : ∀ pos, pos ≤ source.length → reader source pos ≤ source.length)
    (hpos : pos ≤ source.length) (h : readFrom reader verdict source bound pos = .ok content) :
    Parts reader verdict source pos content := by
  induction bound generalizing pos content with
  | zero =>
    unfold readFrom at h
    dsimp only at h
    split at h
    · next hend =>
      cases h
      exact .last (Nat.le_antisymm (hreader pos hpos) hend)
    · cases h
  | succ bound ih =>
    unfold readFrom at h
    dsimp only at h
    split at h
    · next hend =>
      cases h
      exact .last (Nat.le_antisymm (hreader pos hpos) hend)
    · split at h
      · next bound' tail hbound hdrop =>
        cases hbound
        simp only [bind, Except.bind, pure, Except.pure] at h
        split at h
        · cases h
        · next hole hhole =>
          obtain ⟨hstart, hle, hbrace, hverdict⟩ := readHole_eq_ok hhole
          have hlt : hole.stop < source.length := (List.getElem?_eq_some_iff.mp hbrace).1
          split at h
          · cases h
          · next rest hrest =>
            cases h
            refine .hole ?_ hstart (hstart ▸ hle) hbrace ?_ (ih hlt hrest)
            · rw [opensAt, hdrop]
              simp
            · rw [Hole.text, hstart, hverdict]
      · cases h

/-- The content of a template cell are its parts. -/
theorem parts_of_parse {source : List Char} {content : Content} (h : parse source = .ok content) :
    Parts readLiteral judge source 0 content :=
  parts_of_readFrom (fun pos _ => readLiteral_le source pos) (Nat.zero_le _) h

/-- The holes of a template are complete. -/
theorem Parts.complete {reader : LiteralReader} {verdict : List Char → Verdict} {source : List Char}
    {pos : Nat} {content : Content} (h : Parts reader verdict source pos content) :
    ∀ hole ∈ content.holes, verdict (hole.text source) = .complete := by
  induction h with
  | last _ => exact List.forall_mem_nil _
  | hole _ _ _ _ hcomplete _ ih => exact List.forall_mem_cons.mpr ⟨hcomplete, ih⟩

/-- The stretches of literal text lie in the source, in order and apart from each other. -/
theorem Parts.quasis_ordered {reader : LiteralReader} {verdict : List Char → Verdict}
    {source : List Char} {pos : Nat} {content : Content}
    (hparts : Parts reader verdict source pos content) (hpos : pos ≤ source.length)
    (hreader : reader.StaysIn source) :
    (∀ quasi ∈ content.quasis, pos ≤ quasi.start ∧ quasi.stop ≤ source.length) ∧
      content.quasis.Pairwise (·.stop ≤ ·.start) := by
  induction hparts with
  | @last pos hend =>
    refine ⟨?_, List.pairwise_singleton ..⟩
    intro quasi hquasi
    rw [List.mem_singleton.mp hquasi]
    exact ⟨Nat.le_refl _, (hreader pos hpos).2⟩
  | @hole pos hole rest hopens hstart hstop hbrace hcomplete hrest ih =>
    have hlt : hole.stop < source.length := (List.getElem?_eq_some_iff.mp hbrace).1
    obtain ⟨hinside, hpairwise⟩ := ih hlt
    obtain ⟨hlow, hhigh⟩ := hreader pos hpos
    refine ⟨?_, List.pairwise_cons.mpr ⟨?_, hpairwise⟩⟩
    · intro quasi hquasi
      rcases List.mem_cons.mp hquasi with rfl | hquasi
      · exact ⟨Nat.le_refl _, hhigh⟩
      · obtain ⟨hbehind, hle⟩ := hinside quasi hquasi
        exact ⟨by omega, hle⟩
    · intro quasi hquasi
      have hbehind := (hinside quasi hquasi).1
      dsimp only
      omega

/-- An offset that no stretch of literal text covers. -/
def Outside (quasis : List Quasi) (pos : Nat) : Prop :=
  ∀ quasi ∈ quasis, quasi.start ≤ pos → quasi.stop ≤ pos

theorem Outside.cons {quasis : List Quasi} {pos : Nat} (h : Outside quasis pos) {first : Quasi}
    (hfirst : first.stop ≤ pos) : Outside (first :: quasis) pos :=
  List.forall_mem_cons.mpr ⟨fun _ => hfirst, h⟩

/-- In front of its parts a template has no literal text. -/
theorem Parts.outside {reader : LiteralReader} {verdict : List Char → Verdict} {source : List Char}
    {start pos : Nat} {content : Content} (hparts : Parts reader verdict source start content)
    (hstart : start ≤ source.length) (hreader : reader.StaysIn source) (h : pos < start) :
    Outside content.quasis pos := by
  intro quasi hquasi hle
  have hbehind := ((hparts.quasis_ordered hstart hreader).1 quasi hquasi).1
  omega

/-- Behind a character that is no backslash there is no run. -/
theorem slashesBefore_of_getElem? {source : List Char} {pos : Nat} {c : Char}
    (h : source[pos]? = some c) (hc : c ≠ '\\') : slashesBefore source (pos + 1) = 0 := by
  obtain ⟨hlt, hget⟩ := List.getElem?_eq_some_iff.mp h
  rw [slashesBefore_succ (List.drop_eq_getElem_cons hlt), hget, if_neg hc]

end NotebookCell.Template
