import NotebookCell.Proofs.Script.Cell
import NotebookCell.Proofs.Template.Cooked

/-!
# A template read without loss

Reading a template cuts its source into literal text and holes, and nothing else: the pieces, with the
marks of the holes between them, are the source again (`Content.Tiles`). The loop that reads them takes
one hole each turn and ends for every source (`Reading`), whatever reads the literal text, if only it
stays between the offset it is given and the end of the source.

* `Parts.tiles`: the parts of a template tile its source;
* `reading_readFrom`: the bound on the number of holes is never reached;
* `lossless_of_parseWith`: both, for any reader of literal text.
-/

namespace NotebookCell.Template

open NotebookCell.Text NotebookCell.Script

theorem findFrom?_between {mark text : List Char} {pos stop : Nat}
    (h : findFrom? mark pos text = some stop) : pos ≤ stop ∧ stop ≤ pos + text.length := by
  induction text generalizing pos with
  | nil =>
    rw [findFrom?] at h
    split at h
    · cases h
      exact ⟨Nat.le_refl _, Nat.le_refl _⟩
    · cases h
  | cons c rest ih =>
    rw [findFrom?] at h
    split at h
    · cases h
      exact ⟨Nat.le_refl _, Nat.le_add_right _ _⟩
    · obtain ⟨hlow, hhigh⟩ := ih h
      rw [List.length_cons]
      omega

theorem staysIn_readUntil (mark source : List Char) :
    LiteralReader.StaysIn (readUntil mark) source := by
  intro pos hpos
  rw [readUntil, if_neg (by omega)]
  cases hfound : findFrom? mark pos (source.drop pos) with
  | none => exact ⟨hpos, Nat.le_refl _⟩
  | some stop =>
    obtain ⟨hlow, hhigh⟩ := findFrom?_between hfound
    rw [List.length_drop] at hhigh
    exact ⟨hlow, by rw [Option.getD_some]; omega⟩

/-! ## Tiles -/

/-- Literal text and holes put together again, each hole in its braces. -/
def joined (source : List Char) : List Quasi → List Hole → List Char
  | [], _ => []
  | quasi :: _, [] => quasi.text source
  | quasi :: quasis, hole :: holes =>
    quasi.text source ++ "$\x7b".toList ++ hole.text source ++ "\x7d".toList ++
      joined source quasis holes

/-- The parts of a template follow on each other from an offset of the source to its end. -/
structure Content.Tiles (source : List Char) (pos : Nat) (content : Content) : Prop where
  length_eq : content.quasis.length = content.holes.length + 1
  first : content.quasis.head?.map (·.start) = some pos
  last : content.quasis.getLast?.map (·.stop) = some source.length
  ordered : ∀ quasi ∈ content.quasis, quasi.start ≤ quasi.stop
  between : ∀ (i : Nat) (quasi : Quasi) (hole : Hole) (next : Quasi),
    content.quasis[i]? = some quasi → content.holes[i]? = some hole →
      content.quasis[i + 1]? = some next →
    opensAt source quasi.stop = true ∧ hole.start = quasi.stop + 2 ∧ hole.start ≤ hole.stop ∧
      source[hole.stop]? = some '\x7d' ∧ next.start = hole.stop + 1
  tail_iff : ∀ (i : Nat) (quasi : Quasi), content.quasis[i]? = some quasi →
    (quasi.tail = true ↔ i = content.holes.length)
  joined_eq : joined source content.quasis content.holes = source.drop pos

theorem drop_eq_slice_append (source : List Char) {start stop : Nat} (h : start ≤ stop) :
    source.drop start = slice source start stop ++ source.drop stop := by
  have hstop : source.drop stop = (source.drop start).drop (stop - start) := by
    rw [List.drop_drop, Nat.add_sub_cancel' h]
  rw [slice, hstop, List.take_append_drop]

/-- Literal text up to the end of the source tiles what is left of it. -/
theorem tiles_last {source : List Char} {pos : Nat} (hpos : pos ≤ source.length) :
    Content.Tiles source pos ⟨[⟨pos, source.length, true⟩], []⟩ where
  length_eq := rfl
  first := rfl
  last := rfl
  ordered := by
    intro quasi hquasi
    rw [List.mem_singleton.mp hquasi]
    exact hpos
  between := by
    intro i quasi hole next _ hhole
    cases hhole
  tail_iff := by
    intro i quasi hquasi
    cases i with
    | zero =>
      cases hquasi
      exact ⟨fun _ => rfl, fun _ => rfl⟩
    | succ i => cases hquasi
  joined_eq := by
    show slice source pos source.length = _
    rw [drop_eq_slice_append source hpos, List.drop_length, List.append_nil]

/-- Literal text and a hole in front of tiles. -/
theorem Content.Tiles.cons {source : List Char} {pos stop : Nat} {hole : Hole} {rest : Content}
    (h : rest.Tiles source (hole.stop + 1)) (hpos : pos ≤ stop) (hopens : opensAt source stop = true)
    (hstart : hole.start = stop + 2) (hstop : hole.start ≤ hole.stop)
    (hbrace : source[hole.stop]? = some '\x7d') :
    Content.Tiles source pos ⟨⟨pos, stop, false⟩ :: rest.quasis, hole :: rest.holes⟩ := by
  obtain ⟨next, quasis, hquasis⟩ : ∃ next quasis, rest.quasis = next :: quasis :=
    List.exists_cons_of_length_eq_add_one h.length_eq
  have hnext : next.start = hole.stop + 1 := by
    have hfirst := h.first
    rw [hquasis] at hfirst
    exact Option.some.inj hfirst
  refine ⟨?_, rfl, ?_, ?_, ?_, ?_, ?_⟩
  · rw [List.length_cons, List.length_cons, h.length_eq]
  · rw [← h.last, hquasis, List.getLast?_cons_cons]
  · rw [List.forall_mem_cons]
    exact ⟨hpos, h.ordered⟩
  · intro i quasi other following hquasi hother hfollowing
    cases i with
    | zero =>
      rw [List.getElem?_cons_succ, hquasis] at hfollowing
      cases hquasi
      cases hother
      cases hfollowing
      exact ⟨hopens, hstart, hstop, hbrace, hnext⟩
    | succ i => exact h.between i quasi other following hquasi hother hfollowing
  · intro i quasi hquasi
    cases i with
    | zero =>
      cases hquasi
      simp
    | succ i =>
      rw [List.length_cons, Nat.add_right_cancel_iff]
      exact h.tail_iff i quasi hquasi
  · have hhole : source.drop hole.stop = '\x7d' :: source.drop (hole.stop + 1) := by
      obtain ⟨hlt, hget⟩ := List.getElem?_eq_some_iff.mp hbrace
      rw [List.drop_eq_getElem_cons hlt, hget]
    have hmark : source.drop stop = '$' :: '\x7b' :: source.drop hole.start := by
      obtain ⟨behind, hdrop⟩ := drop_of_opensAt hopens
      rw [hdrop, hstart, ← drop_succ_of_drop (drop_succ_of_drop hdrop)]
    show slice source pos stop ++ "$\x7b".toList ++ slice source hole.start hole.stop ++
      "\x7d".toList ++ joined source rest.quasis rest.holes = _
    rw [h.joined_eq, drop_eq_slice_append source hpos, hmark, drop_eq_slice_append source hstop,
      hhole]
    simp

/-- The parts of a template tile its source. -/
theorem Parts.tiles {reader : LiteralReader} {verdict : List Char → Verdict} {source : List Char}
    {pos : Nat} {content : Content} (h : Parts reader verdict source pos content)
    (hreader : reader.StaysIn source) (hpos : pos ≤ source.length) : content.Tiles source pos := by
  induction h with
  | @last pos hend =>
    rw [hend]
    exact tiles_last hpos
  | @hole pos hole rest hopens hstart hstop hbrace _ _ ih =>
    have hlt : hole.stop < source.length := (List.getElem?_eq_some_iff.mp hbrace).1
    exact (ih hlt).cons (hreader pos hpos).1 hopens hstart hstop hbrace

/-! ## The loop -/

/-- The loop that reads a template, from an offset to its answer. A turn ends the loop or takes it
behind the next hole. No number of turns is given, only that they come to an end. -/
inductive Reading (reader : LiteralReader) (verdict : List Char → Verdict) (source : List Char) :
    Nat → Except Problem Content → Prop
  | last {pos : Nat} (hend : source.length ≤ reader source pos) :
    Reading reader verdict source pos (.ok ⟨[⟨pos, reader source pos, true⟩], []⟩)
  | stray {pos : Nat} (hend : reader source pos < source.length)
    (hopens : opensAt source (reader source pos) = false) :
    Reading reader verdict source pos
      (.error (.fault ((Cause.unexpected
        (String.ofList ((source.drop (reader source pos)).take 1))).fault source
          (reader source pos))))
  | refused {pos : Nat} {problem : Problem} (hend : reader source pos < source.length)
    (hopens : opensAt source (reader source pos) = true)
    (hhole : readHole verdict source (reader source pos + 2) = .error problem) :
    Reading reader verdict source pos (.error problem)
  | hole {pos : Nat} {hole : Hole} {answer : Except Problem Content}
    (hend : reader source pos < source.length)
    (hopens : opensAt source (reader source pos) = true)
    (hhole : readHole verdict source (reader source pos + 2) = .ok hole)
    (hrest : Reading reader verdict source (hole.stop + 1) answer) :
    Reading reader verdict source pos (answer.map fun rest =>
      ⟨⟨pos, reader source pos, false⟩ :: rest.quasis, hole :: rest.holes⟩)

section
variable {reader : LiteralReader} {verdict : List Char → Verdict} {source : List Char} {pos : Nat}

theorem readFrom_last (h : source.length ≤ reader source pos) (bound : Nat) :
    readFrom reader verdict source bound pos = .ok ⟨[⟨pos, reader source pos, true⟩], []⟩ := by
  rw [readFrom.eq_def]
  exact if_pos h

theorem readFrom_stray (h : reader source pos < source.length)
    (hopens : opensAt source (reader source pos) = false) (bound : Nat) :
    readFrom reader verdict source bound pos =
      .error (.fault ((Cause.unexpected
        (String.ofList ((source.drop (reader source pos)).take 1))).fault source
          (reader source pos))) := by
  rw [readFrom.eq_def]
  dsimp only
  rw [if_neg (by omega)]
  split
  · next rest hdrop =>
    rw [opensAt, hdrop] at hopens
    cases hopens
  · rfl

theorem readFrom_hole (h : reader source pos < source.length)
    (hopens : opensAt source (reader source pos) = true) (bound : Nat) :
    readFrom reader verdict source (bound + 1) pos =
      match readHole verdict source (reader source pos + 2) with
      | .error problem => .error problem
      | .ok hole => (readFrom reader verdict source bound (hole.stop + 1)).map fun rest =>
          ⟨⟨pos, reader source pos, false⟩ :: rest.quasis, hole :: rest.holes⟩ := by
  obtain ⟨behind, hdrop⟩ := drop_of_opensAt hopens
  rw [readFrom.eq_def]
  dsimp only
  rw [if_neg (by omega), hdrop]
  cases readHole verdict source (reader source pos + 2) <;> rfl

/-- The loop answers what reading with a bound answers: every hole takes characters of its own, so that
a bound as large as the number of characters that are left is never reached. -/
theorem reading_readFrom (hreader : reader.StaysIn source) (bound : Nat)
    (hpos : pos ≤ source.length) (hbound : source.length ≤ pos + bound) :
    Reading reader verdict source pos (readFrom reader verdict source bound pos) := by
  induction bound generalizing pos with
  | zero =>
    have hend : source.length ≤ reader source pos := Nat.le_trans hbound (hreader pos hpos).1
    rw [readFrom_last hend]
    exact .last hend
  | succ bound ih =>
    by_cases hend : source.length ≤ reader source pos
    · rw [readFrom_last hend]
      exact .last hend
    have hlt : reader source pos < source.length := Nat.lt_of_not_le hend
    cases hopens : opensAt source (reader source pos) with
    | false =>
      rw [readFrom_stray hlt hopens]
      exact .stray hlt hopens
    | true =>
      rw [readFrom_hole hlt hopens]
      cases hhole : readHole verdict source (reader source pos + 2) with
      | error problem => exact .refused hlt hopens hhole
      | ok hole =>
        obtain ⟨-, hle, hbrace, -⟩ := readHole_eq_ok hhole
        have hinside : hole.stop < source.length := (List.getElem?_eq_some_iff.mp hbrace).1
        have hforward := (hreader pos hpos).1
        exact .hole hlt hopens hhole (ih hinside (by omega))

end

/-- Whatever reads the literal text of a template, if it goes forward and stays in the source: the loop
ends for every source, and where it accepts the source, the parts that it gives tile it. -/
theorem lossless_of_parseWith (reader : LiteralReader) (source : List Char)
    (hreader : reader = readLiteral ∨ reader.StaysIn source) :
    Reading reader judge source 0 (parseWith reader source) ∧
      ∀ content, parseWith reader source = .ok content → content.Tiles source 0 := by
  have hstays : reader.StaysIn source := by
    rcases hreader with rfl | hstays
    · exact staysIn_readLiteral source
    · exact hstays
  refine ⟨reading_readFrom hstays source.length (Nat.zero_le _) (by omega), ?_⟩
  intro content hcontent
  have hparts : Parts reader judge source 0 content :=
    parts_of_readFrom (fun pos hpos => (hstays pos hpos).2) (Nat.zero_le _) hcontent
  exact hparts.tiles hstays (Nat.zero_le _)

/-- A reader that takes no notice of backslashes finds two holes that meet, the second one behind the
brace of a string. -/
theorem lossless_of_parseWith_adjacent :
    let source := "\\$\x7ba\x7d$\x7b'\x7d'\x7d".toList
    let reader := readUntil "$\x7b".toList
    reader.StaysIn source ∧
      parseWith reader source =
        .ok ⟨[⟨0, 1, false⟩, ⟨5, 5, false⟩, ⟨11, 11, true⟩], [⟨3, 4⟩, ⟨7, 10⟩]⟩ ∧
      Reading reader judge source 0 (parseWith reader source) ∧
      Content.Tiles source 0
        ⟨[⟨0, 1, false⟩, ⟨5, 5, false⟩, ⟨11, 11, true⟩], [⟨3, 4⟩, ⟨7, 10⟩]⟩ := by
  intro source reader
  have hstays : reader.StaysIn source := staysIn_readUntil _ _
  have hparsed : (parseWith reader source).toOption =
      some ⟨[⟨0, 1, false⟩, ⟨5, 5, false⟩, ⟨11, 11, true⟩], [⟨3, 4⟩, ⟨7, 10⟩]⟩ := by
    decide +kernel
  have hcontent := eq_ok_of_toOption hparsed
  obtain ⟨hloop, htiles⟩ := lossless_of_parseWith reader source (.inr hstays)
  exact ⟨hstays, hcontent, hloop, htiles _ hcontent⟩

end NotebookCell.Template
