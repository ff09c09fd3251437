import Mathlib.Data.List.Induction
import NotebookCell.Editing.Buffer

/-!
# The text of a buffer, offset by offset

Flattening a buffer walks over its edits. Here the same text is read off the offsets of the source:
in front of each character stand the values recorded there, those on the left first, and a character
inside a recorded range is gone (`text_eq_weave`). No recorded value is lost, also where the
characters around it are.
-/

namespace NotebookCell.Editing

/-- A text from offset `pos` on with `before` written in front of each offset, the end included,
and without the characters that are gone. -/
def weave (before : Nat → List Char) (gone : Nat → Bool) (pos : Nat) : List Char → List Char
  | [] => before pos
  | c :: rest => before pos ++ (if gone pos then [] else [c]) ++ weave before gone (pos + 1) rest

/-- Whether the edit replaces the character at an offset. -/
def Edit.covers (edit : Edit) (pos : Nat) : Bool := edit.start ≤ pos && pos < edit.stop

/-- Whether the edit is applied at an offset, on a side. -/
def Edit.isAt (pos : Nat) (side : Side) (edit : Edit) : Bool := edit.start == pos && edit.side == side

/-- Whether an edit of the log replaces the character at an offset. -/
def isCovered (log : List Edit) (pos : Nat) : Bool := log.any (·.covers pos)

/-- The values a log writes on one side of an offset, in the order of their recording. -/
def valuesOn (side : Side) (log : List Edit) (pos : Nat) : List Char :=
  (log.filter (Edit.isAt pos side)).flatMap Edit.value

/-- The values a log writes at an offset: those on the left, then those on the right. -/
def insertedAt (log : List Edit) (pos : Nat) : List Char :=
  valuesOn .left log pos ++ valuesOn .right log pos

theorem valuesOn_append (side : Side) (log log' : List Edit) (pos : Nat) :
    valuesOn side (log ++ log') pos = valuesOn side log pos ++ valuesOn side log' pos := by
  simp [valuesOn]

theorem valuesOn_flatMap {α : Type} (side : Side) (edits : α → List Edit) (items : List α)
    (pos : Nat) : valuesOn side (items.flatMap edits) pos =
      items.flatMap fun item => valuesOn side (edits item) pos := by
  induction items with
  | nil => rfl
  | cons item items ih => rw [List.flatMap_cons, List.flatMap_cons, valuesOn_append, ih]

/-- Nothing is written where all values are empty. -/
theorem valuesOn_of_empty {log : List Edit} (h : ∀ edit ∈ log, edit.value = []) (side : Side)
    (pos : Nat) : valuesOn side log pos = [] := by
  rw [valuesOn, List.flatMap_eq_nil_iff]
  intro edit hedit
  exact h edit (List.mem_filter.mp hedit).1

theorem isCovered_append (log log' : List Edit) (pos : Nat) :
    isCovered (log ++ log') pos = (isCovered log pos || isCovered log' pos) :=
  List.any_append

/-- Empty ranges cover no character. -/
theorem isCovered_of_empty {log : List Edit} (h : ∀ edit ∈ log, edit.start = edit.stop)
    (pos : Nat) : isCovered log pos = false := by
  rw [isCovered, List.any_eq_false]
  intro edit hedit
  have hempty := h edit hedit
  simp only [Edit.covers, Bool.and_eq_true, decide_eq_true_eq]
  omega

/-! ## Weaving -/

section
variable {before before' : Nat → List Char} {gone gone' : Nat → Bool} {pos : Nat}
  {text rest value : List Char}

theorem add_length_cons (pos : Nat) (c : Char) (text : List Char) :
    pos + (c :: text).length = pos + 1 + text.length := by
  rw [List.length_cons]
  omega

/-- Only the offsets that the text reaches matter. -/
theorem weave_congr (hbefore : ∀ p, pos ≤ p → p ≤ pos + text.length → before p = before' p)
    (hgone : ∀ p, pos ≤ p → p < pos + text.length → gone p = gone' p) :
    weave before gone pos text = weave before' gone' pos text := by
  induction text generalizing pos with
  | nil => exact hbefore pos (Nat.le_refl _) (Nat.le_add_right _ _)
  | cons c rest ih =>
    rw [add_length_cons] at hbefore hgone
    rw [weave, weave, hbefore pos (by omega) (by omega), hgone pos (by omega) (by omega)]
    congr 1
    apply ih
    · intro p hlow hhigh
      exact hbefore p (by omega) hhigh
    · intro p hlow hhigh
      exact hgone p (by omega) hhigh

/-- Text at the start in front of which nothing is written is kept or gone as a whole. -/
theorem weave_uniform {away : Bool} (hbefore : ∀ p, pos ≤ p → p < pos + text.length → before p = [])
    (hgone : ∀ p, pos ≤ p → p < pos + text.length → gone p = away) :
    weave before gone pos (text ++ rest) =
      bif away then weave before gone (pos + text.length) rest
      else text ++ weave before gone (pos + text.length) rest := by
  induction text generalizing pos with
  | nil => cases away <;> rfl
  | cons c text ih =>
    rw [add_length_cons] at hbefore hgone ⊢
    rw [List.cons_append, weave, hbefore pos (by omega) (by omega), hgone pos (by omega) (by omega),
      ih (fun p hlow hhigh => hbefore p (by omega) hhigh)
        (fun p hlow hhigh => hgone p (by omega) hhigh)]
    cases away <;> rfl

/-- Text that is gone at the start leaves nothing. -/
theorem weave_gone_append (hbefore : ∀ p, pos ≤ p → p < pos + text.length → before p = [])
    (hgone : ∀ p, pos ≤ p → p < pos + text.length → gone p = true) :
    weave before gone pos (text ++ rest) = weave before gone (pos + text.length) rest :=
  weave_uniform hbefore hgone

/-- Text in front of which nothing is written stays at the start. -/
theorem weave_kept_append (hbefore : ∀ p, pos ≤ p → p < pos + text.length → before p = [])
    (hgone : ∀ p, pos ≤ p → p < pos + text.length → gone p = false) :
    weave before gone pos (text ++ rest) = text ++ weave before gone (pos + text.length) rest :=
  weave_uniform hbefore hgone

/-- Where nothing is written and nothing is gone the text stays as it is. -/
theorem weave_of_nothing (hbefore : ∀ p, pos ≤ p → p ≤ pos + text.length → before p = [])
    (hgone : ∀ p, pos ≤ p → p < pos + text.length → gone p = false) :
    weave before gone pos text = text := by
  have hkept := @weave_kept_append before gone pos text []
    (fun p hlow hhigh => hbefore p hlow (Nat.le_of_lt hhigh)) hgone
  rwa [weave, hbefore _ (Nat.le_add_right _ _) (Nat.le_refl _), List.append_nil] at hkept

/-- Text that is gone at the end leaves nothing. What is written in front of it stays. -/
theorem weave_append_gone
    (hbefore : ∀ p, pos + text.length < p → p ≤ pos + text.length + rest.length → before p = [])
    (hgone : ∀ p, pos + text.length ≤ p → p < pos + text.length + rest.length → gone p = true) :
    weave before gone pos (text ++ rest) = weave before gone pos text := by
  induction text generalizing pos with
  | nil =>
    rw [List.length_nil, Nat.add_zero] at hbefore hgone
    cases rest with
    | nil => rfl
    | cons c rest =>
      rw [add_length_cons] at hbefore hgone
      have hrest := @weave_gone_append before gone (pos + 1) rest []
        (fun p hlow hhigh => hbefore p (by omega) (by omega))
        (fun p hlow hhigh => hgone p (by omega) hhigh)
      rw [List.append_nil, weave, hbefore _ (by omega) (Nat.le_refl _)] at hrest
      rw [List.nil_append, weave, weave, hgone pos (Nat.le_refl _) (by omega), hrest]
      simp
  | cons c text ih =>
    rw [add_length_cons] at hbefore hgone
    rw [List.cons_append, weave, weave, ih hbefore hgone]

/-- What is added in front of the first offset comes first. -/
theorem weave_cons_value (hfirst : before pos = value ++ before' pos)
    (hbefore : ∀ p, pos < p → before p = before' p) (hgone : ∀ p, pos ≤ p → gone p = gone' p) :
    weave before gone pos text = value ++ weave before' gone' pos text := by
  cases text with
  | nil => exact hfirst
  | cons c rest =>
    have hrest : weave before gone (pos + 1) rest = weave before' gone' (pos + 1) rest := by
      apply weave_congr
      · intro p hlow _
        exact hbefore p (by omega)
      · intro p hlow _
        exact hgone p (by omega)
    rw [weave, weave, hfirst, hgone pos (Nat.le_refl _), hrest]
    simp only [List.append_assoc]

/-- What is added at the end comes last. -/
theorem weave_append_value
    (hlast : before (pos + text.length) = before' (pos + text.length) ++ value)
    (hbefore : ∀ p, pos ≤ p → p < pos + text.length → before p = before' p) :
    weave before gone pos text = weave before' gone pos text ++ value := by
  induction text generalizing pos with
  | nil => exact hlast
  | cons c rest ih =>
    rw [add_length_cons] at hlast hbefore
    rw [weave, weave, hbefore pos (Nat.le_refl _) (by omega), ih hlast]
    · simp only [List.append_assoc]
    · intro p hlow hhigh
      exact hbefore p (by omega) hhigh

/-- Two texts one behind the other are woven one by one. -/
theorem weave_append {first second : Nat → List Char}
    (hfirst : ∀ p, pos + text.length < p → first p = [])
    (hsecond : ∀ p, p < pos + text.length → second p = []) :
    weave (fun p => first p ++ second p) gone pos (text ++ rest) =
      weave first gone pos text ++ weave second gone (pos + text.length) rest := by
  induction text generalizing pos with
  | nil =>
    apply weave_cons_value
    · rfl
    · intro p hp
      rw [hfirst p hp, List.nil_append]
    · exact fun _ _ => rfl
  | cons c text ih =>
    rw [add_length_cons] at hfirst hsecond ⊢
    rw [List.cons_append, weave, weave, ih hfirst hsecond, hsecond pos (by omega)]
    simp only [List.append_nil, List.append_assoc]

/-- Text behind the last offset at which something is written stays at the end. -/
theorem weave_append_kept (hbefore : ∀ p, pos + text.length < p → before p = [])
    (hgone : ∀ p, gone p = false) :
    weave before gone pos (text ++ rest) = weave before gone pos text ++ rest := by
  have hnothing : before = fun p => before p ++ [] := by simp
  have hrest : weave (fun _ => []) gone (pos + text.length) rest = rest :=
    weave_of_nothing (fun _ _ _ => rfl) fun p _ _ => hgone p
  rw [hnothing, weave_append hbefore fun _ _ => rfl, hrest, ← hnothing]

end

/-- Weaving from one offset of the source up to another where nothing is written between them: the
characters from `index` on are kept, those before it are gone. -/
theorem weave_skip {before : Nat → List Char} {gone : Nat → Bool} {source : List Char}
    {pos stop : Nat} (index : Nat) (hpos : pos ≤ stop) (hstop : stop ≤ source.length)
    (hbefore : ∀ p, pos ≤ p → p < stop → before p = [])
    (hgone : ∀ p, pos ≤ p → p < stop → gone p = decide (p < index)) :
    weave before gone pos (source.drop pos) =
      (source.take stop).drop (max pos index) ++ weave before gone stop (source.drop stop) := by
  -- by the number of characters between `pos` and `stop`
  obtain ⟨count, rfl⟩ := Nat.exists_eq_add_of_le hpos
  clear hpos
  induction count generalizing pos with
  | zero =>
    have hnone : (source.take (pos + 0)).drop (max pos index) = [] := by
      apply List.drop_of_length_le
      rw [List.length_take]
      omega
    rw [hnone]
    rfl
  | succ count ih =>
    have hlt : pos < source.length := by omega
    have hstep := @ih (pos + 1) (by omega)
      (fun p hlow hhigh => hbefore p (by omega) (by omega))
      (fun p hlow hhigh => hgone p (by omega) (by omega))
    have hsum : pos + 1 + count = pos + (count + 1) := by omega
    rw [hsum] at hstep
    rw [List.drop_eq_getElem_cons hlt, weave, hbefore pos (by omega) (by omega),
      hgone pos (by omega) (by omega), hstep]
    by_cases hindex : pos < index
    · have hmax : max (pos + 1) index = max pos index := by omega
      simp only [hindex, hmax, decide_true, if_true, List.nil_append]
    · have hmax : max pos index = pos := by omega
      have hmax' : max (pos + 1) index = pos + 1 := by omega
      have hcut : (source.take (pos + (count + 1))).drop pos =
          source[pos] :: (source.take (pos + (count + 1))).drop (pos + 1) := by
        rw [List.drop_eq_getElem_cons (by rw [List.length_take]; omega), List.getElem_take]
      simp [hindex, hmax, hmax', hcut]

/-! ## Applying edits in order -/

/-- The values that edits write at an offset, in their own order. -/
def valuesAt (edits : List Edit) (pos : Nat) : List Char :=
  (edits.filter (·.start == pos)).flatMap Edit.value

/-- Nothing is written where no edit starts. -/
theorem valuesAt_eq_nil {edits : List Edit} {pos : Nat} (h : ∀ edit ∈ edits, edit.start ≠ pos) :
    valuesAt edits pos = [] := by
  rw [valuesAt, List.filter_eq_nil_iff.mpr]
  · rfl
  · intro edit hedit
    simpa using h edit hedit

/-- No character is covered in front of the first edit. -/
theorem isCovered_eq_false {edits : List Edit} {pos : Nat} (h : ∀ edit ∈ edits, pos < edit.start) :
    isCovered edits pos = false := by
  rw [isCovered, List.any_eq_false]
  intro edit hedit
  have hlt := h edit hedit
  simp only [Edit.covers, Bool.and_eq_true, decide_eq_true_eq]
  omega

/-- Edits in the order of their offsets, applied from `index` on, weave their values into the
source from any offset `pos` at or before `index` that no edit lies in front of. -/
theorem applyFrom_eq_weave {source : List Char} {edits : List Edit} (pos index : Nat)
    (hsorted : edits.Pairwise fun edit other => edit.start ≤ other.start)
    (hinside : ∀ edit ∈ edits, edit.start ≤ edit.stop ∧ edit.stop ≤ source.length)
    (hfrom : ∀ edit ∈ edits, pos ≤ edit.start) (hpos : pos ≤ index)
    (hindex : index ≤ source.length) :
    Buffer.applyFrom index (source.drop index) edits =
      weave (valuesAt edits) (fun p => p < index || isCovered edits p) pos (source.drop pos) := by
  induction edits generalizing pos index with
  | nil =>
    rw [Buffer.applyFrom, weave_skip index (Nat.le_trans hpos hindex) (Nat.le_refl _)]
    · have hmax : max pos index = index := by omega
      simp [weave, valuesAt, hmax]
    · intro p _ _
      rfl
    · intro p _ _
      simp [isCovered]
  | cons edit edits ih =>
    obtain ⟨hhead, htail⟩ := List.pairwise_cons.mp hsorted
    obtain ⟨hstart, hstop⟩ := hinside edit (List.mem_cons_self ..)
    have hlow := hfrom edit (List.mem_cons_self ..)
    have hlate : ∀ p, p < edit.start → ∀ other ∈ edit :: edits, p < other.start := by
      intro p hp other hother
      rcases List.mem_cons.mp hother with rfl | hother
      · exact hp
      · exact Nat.lt_of_lt_of_le hp (hhead other hother)
    have hrest := @ih edit.start (max (max index edit.start) edit.stop) htail
      (fun other hother => hinside other (List.mem_cons_of_mem _ hother)) hhead (by omega) (by omega)
    -- up to the edit nothing is written, and only what was consumed before is gone
    rw [weave_skip index hlow (by omega)]
    · have hreach : index + (edit.start - index) = max index edit.start := by omega
      have hconsumed : index + (edit.start - index + (edit.stop - max index edit.start)) =
          max (max index edit.start) edit.stop := by omega
      have htake : (source.drop index).take (edit.start - index) =
          (source.take edit.start).drop (max pos index) := by
        have hmax : max pos index = index := by omega
        rw [hmax, List.drop_take]
      rw [Buffer.applyFrom, List.drop_drop, List.drop_drop, hreach, hconsumed, hrest, htake,
        List.append_assoc]
      congr 1
      -- at the edit its value comes first, and from there on the two texts agree
      symm
      apply weave_cons_value
      · simp [valuesAt]
      · intro p hp
        have hne : edit.start ≠ p := by omega
        simp [valuesAt, hne]
      · intro p hp
        have hgone : decide (p < max (max index edit.start) edit.stop) =
            (decide (p < index) || edit.covers p) := by
          rw [Bool.eq_iff_iff, Edit.covers]
          simp only [Bool.or_eq_true, Bool.and_eq_true, decide_eq_true_eq]
          omega
        rw [hgone, Bool.or_assoc]
        rfl
    · intro p _ hp
      exact valuesAt_eq_nil fun other hother => by have := hlate p hp other hother; omega
    · intro p _ hp
      rw [isCovered_eq_false (hlate p hp), Bool.or_false]

/-! ## Recording -/

/-- One edit is applied no later than the other, or the other no later than it. -/
theorem Edit.precedes_of_not {edit other : Edit} (h : ¬other.precedes edit = true) :
    edit.precedes other = true := by
  unfold precedes at h ⊢
  simp only [Bool.or_eq_true, Bool.and_eq_true, decide_eq_true_eq, beq_iff_eq] at h ⊢
  cases hside : edit.side <;> cases hother : other.side <;> simp [hside, hother] at h ⊢ <;> omega

theorem Edit.precedes_trans {edit other last : Edit} (h : edit.precedes other = true)
    (h' : other.precedes last = true) : edit.precedes last = true := by
  unfold precedes at h h' ⊢
  simp only [Bool.or_eq_true, Bool.and_eq_true, decide_eq_true_eq, beq_iff_eq] at h h' ⊢
  grind

/-- Edits of one offset and side precede each other. -/
theorem Edit.precedes_of_isAt {edit other : Edit} {pos : Nat} {side : Side}
    (h : isAt pos side edit = true) (h' : isAt pos side other = true) :
    edit.precedes other = true := by
  unfold isAt at h h'
  unfold precedes
  simp only [Bool.and_eq_true, beq_iff_eq] at h h'
  cases side <;> simp [h, h']

/-- Recording an edit adds it and keeps the others. -/
theorem Edit.insertInto_perm (edit : Edit) (edits : List Edit) :
    (edit.insertInto edits).Perm (edit :: edits) := by
  induction edits with
  | nil => exact .refl _
  | cons other edits ih =>
    rw [insertInto]
    split
    · exact (ih.cons other).trans (.swap ..)
    · exact .refl _

/-- Recording an edit keeps the order of application. -/
theorem Edit.insertInto_sorted (edit : Edit) {edits : List Edit}
    (h : edits.Pairwise (·.precedes ·)) : (edit.insertInto edits).Pairwise (·.precedes ·) := by
  induction edits with
  | nil => exact List.pairwise_singleton ..
  | cons other edits ih =>
    obtain ⟨hhead, htail⟩ := List.pairwise_cons.mp h
    rw [insertInto]
    split
    · next hbefore =>
      refine List.pairwise_cons.mpr ⟨?_, ih htail⟩
      intro last hlast
      rcases List.mem_cons.mp ((edit.insertInto_perm edits).mem_iff.mp hlast) with rfl | hlast
      · exact hbefore
      · exact hhead last hlast
    · next hbehind =>
      have hfirst := precedes_of_not hbehind
      refine List.pairwise_cons.mpr ⟨?_, h⟩
      intro last hlast
      rcases List.mem_cons.mp hlast with rfl | hlast
      · exact hfirst
      · exact precedes_trans hfirst (hhead last hlast)

/-- An edit goes behind those recorded before it at its offset, on its side. -/
theorem Edit.filter_insertInto (edit : Edit) {edits : List Edit} (pos : Nat) (side : Side)
    (h : edits.Pairwise (·.precedes ·)) :
    (edit.insertInto edits).filter (isAt pos side) =
      edits.filter (isAt pos side) ++ [edit].filter (isAt pos side) := by
  induction edits with
  | nil => rfl
  | cons other edits ih =>
    obtain ⟨hhead, htail⟩ := List.pairwise_cons.mp h
    rw [insertInto]
    split
    · rw [List.filter_cons, List.filter_cons, ih htail]
      split <;> rfl
    · next hbehind =>
      by_cases hat : isAt pos side edit
      · -- no edit of its offset and side stands behind one that it precedes strictly
        have hnone : (other :: edits).filter (isAt pos side) = [] := by
          rw [List.filter_eq_nil_iff]
          intro last hlast hlastAt
          have hlate := precedes_of_isAt hlastAt hat
          rcases List.mem_cons.mp hlast with rfl | hlast
          · exact hbehind hlate
          · exact hbehind (precedes_trans (hhead last hlast) hlate)
        rw [List.filter_cons, if_pos hat, hnone]
        simp [hat]
      · rw [List.filter_cons, if_neg hat]
        simp [hat]

/-- The edits of a log in the order of their application. -/
def ordered (log : List Edit) : List Edit := log.foldl (fun edits edit => edit.insertInto edits) []

theorem ordered_append_singleton (log : List Edit) (edit : Edit) :
    ordered (log ++ [edit]) = edit.insertInto (ordered log) := by
  simp [ordered]

/-- Ordering a log loses no edit. -/
theorem ordered_perm (log : List Edit) : (ordered log).Perm log := by
  induction log using List.reverseRecOn with
  | nil => exact .refl _
  | append_singleton log edit ih =>
    rw [ordered_append_singleton]
    exact (edit.insertInto_perm _).trans ((ih.cons edit).trans (List.perm_append_singleton ..).symm)

theorem ordered_sorted (log : List Edit) : (ordered log).Pairwise (·.precedes ·) := by
  induction log using List.reverseRecOn with
  | nil => exact .nil
  | append_singleton log edit ih =>
    rw [ordered_append_singleton]
    exact edit.insertInto_sorted ih

/-- Ordering keeps the edits of one offset and side as they were recorded. -/
theorem filter_ordered (log : List Edit) (pos : Nat) (side : Side) :
    (ordered log).filter (Edit.isAt pos side) = log.filter (Edit.isAt pos side) := by
  induction log using List.reverseRecOn with
  | nil => rfl
  | append_singleton log edit ih =>
    rw [ordered_append_singleton, edit.filter_insertInto pos side (ordered_sorted log), ih,
      List.filter_append]

/-- In the order of application the edits at an offset are those on the left and then those on the
right. -/
theorem filter_start_eq {edits : List Edit} (pos : Nat) (h : edits.Pairwise (·.precedes ·)) :
    edits.filter (·.start == pos) =
      edits.filter (Edit.isAt pos .left) ++ edits.filter (Edit.isAt pos .right) := by
  induction edits with
  | nil => rfl
  | cons edit edits ih =>
    obtain ⟨hhead, htail⟩ := List.pairwise_cons.mp h
    have hrest := ih htail
    by_cases hstart : edit.start = pos
    · cases hside : edit.side with
      | left => simp [Edit.isAt, hstart, hside, hrest]
      | right =>
        -- behind an edit on the right there is none on the left
        have hnone : edits.filter (Edit.isAt pos .left) = [] := by
          rw [List.filter_eq_nil_iff]
          intro other hother hat
          have hlate := hhead other hother
          simp only [Edit.isAt, Bool.and_eq_true, beq_iff_eq] at hat
          simp [Edit.precedes, hstart, hside, hat] at hlate
        rw [hnone, List.nil_append] at hrest
        simp [Edit.isAt, hstart, hside, hrest]
        simpa [Edit.isAt] using hnone
    · simp [Edit.isAt, hstart, hrest]

/-- What an ordered log writes at an offset. -/
theorem valuesAt_ordered (log : List Edit) (pos : Nat) :
    valuesAt (ordered log) pos = insertedAt log pos := by
  rw [valuesAt, filter_start_eq pos (ordered_sorted log), filter_ordered, filter_ordered,
    List.flatMap_append, insertedAt, valuesOn, valuesOn]

theorem isCovered_ordered (log : List Edit) (pos : Nat) :
    isCovered (ordered log) pos = isCovered log pos :=
  (ordered_perm log).any_eq

/-! ## Running operations -/

/-- The edits that an operation on a source asks for. -/
def Operation.edits (source : List Char) : Operation → List Edit
  | .replace side start stop value => [⟨side, start.toNat, stop.toNat, value⟩]
  | .trim =>
    ((Buffer.margins source).filter fun (start, stop) => start != stop).map
      fun (start, stop) => ⟨.right, start, stop, []⟩

/-- Insertions at one offset write their values there, one behind the other. -/
theorem valuesOn_insertions (source : List Char) (side side' : Side) (offset : Nat)
    (texts : List (List Char)) (pos : Nat) :
    valuesOn side ((texts.map fun text => Operation.replace side' offset offset text).flatMap
      (Operation.edits source)) pos =
        if side' = side ∧ offset = pos then texts.flatten else [] := by
  induction texts with
  | nil => simp [valuesOn]
  | cons text texts ih =>
    rw [List.map_cons, List.flatMap_cons, valuesOn_append, ih]
    by_cases hside : side' = side <;> by_cases hoffset : offset = pos <;>
      simp [valuesOn, Operation.edits, Edit.isAt, hside, hoffset]

/-- The buffer holds the edits of a log, all inside the source. -/
structure Recorded (buffer : Buffer) (source : List Char) (log : List Edit) : Prop where
  source_eq : buffer.source = source
  edits_eq : buffer.edits = ordered log
  inside : ∀ edit ∈ log, edit.start ≤ edit.stop ∧ edit.stop ≤ source.length

theorem recorded_ofSource (source : List Char) : Recorded (.ofSource source) source [] :=
  ⟨rfl, rfl, by simp⟩

/-- Recording an edit adds it to the log. -/
theorem Recorded.record {buffer buffer' : Buffer} {source : List Char} {log : List Edit}
    {side : Side} {start stop : Int} {value : List Char} (h : Recorded buffer source log)
    (hrecord : buffer.record side start stop value = .ok buffer') :
    Recorded buffer' source (log ++ [⟨side, start.toNat, stop.toNat, value⟩]) := by
  unfold Buffer.record at hrecord
  split at hrecord
  · cases hrecord
  next hin =>
    simp only [h.source_eq, Bool.or_eq_true, decide_eq_true_eq] at hin
    have hinside : ∀ edit ∈ log ++ [⟨side, start.toNat, stop.toNat, value⟩],
        edit.start ≤ edit.stop ∧ edit.stop ≤ source.length := by
      intro edit hedit
      rcases List.mem_append.mp hedit with hedit | hedit
      · exact h.inside edit hedit
      · rw [List.mem_singleton.mp hedit]
        dsimp only
        omega
    have hedits := h.edits_eq
    dsimp only at hrecord
    split at hrecord
    · cases hrecord
      exact ⟨h.source_eq, by rw [ordered_append_singleton, ← hedits], hinside⟩
    · split at hrecord
      · cases hrecord
      · cases hrecord
        exact ⟨h.source_eq, by rw [ordered_append_singleton, ← hedits], hinside⟩

/-- Deleting ranges adds one edit for each. -/
theorem Recorded.deleteAll {buffer buffer' : Buffer} {source : List Char} {log : List Edit}
    {ranges : List (Nat × Nat)} (h : Recorded buffer source log)
    (hdelete : buffer.deleteAll ranges = (buffer', none)) :
    Recorded buffer' source
      (log ++ ranges.map fun (start, stop) => ⟨.right, start, stop, []⟩) := by
  induction ranges generalizing buffer log with
  | nil =>
    rw [Buffer.deleteAll, Prod.mk.injEq] at hdelete
    rw [← hdelete.1, List.map_nil, List.append_nil]
    exact h
  | cons range ranges ih =>
    obtain ⟨start, stop⟩ := range
    rw [Buffer.deleteAll] at hdelete
    split at hdelete
    · next buffer₁ hrecord =>
      have hnext := ih (h.record hrecord) hdelete
      rw [List.append_assoc] at hnext
      exact hnext
    · cases hdelete

/-- An operation that is not refused adds the edits it asks for. -/
theorem Recorded.run {buffer buffer' : Buffer} {source : List Char} {log : List Edit}
    {operation : Operation} (h : Recorded buffer source log)
    (hrun : buffer.run operation = (buffer', none)) :
    Recorded buffer' source (log ++ operation.edits source) := by
  cases operation with
  | replace side start stop value =>
    rw [Buffer.run] at hrun
    split at hrun
    · next buffer₁ hrecord =>
      cases hrun
      exact h.record hrecord
    · cases hrun
  | trim =>
    rw [Buffer.run, Buffer.trim, h.source_eq] at hrun
    exact h.deleteAll hrun

/-- So does a run of operations. -/
theorem Recorded.runAll {buffer buffer' : Buffer} {source : List Char} {log : List Edit}
    {operations : List Operation} (h : Recorded buffer source log)
    (hrun : buffer.runAll operations = .ok buffer') :
    Recorded buffer' source (log ++ operations.flatMap (Operation.edits source)) := by
  induction operations generalizing buffer log with
  | nil =>
    cases hrun
    rw [List.flatMap_nil, List.append_nil]
    exact h
  | cons operation operations ih =>
    rw [Buffer.runAll] at hrun
    split at hrun
    · next buffer₁ hfirst =>
      have hnext := ih (h.run hfirst) hrun
      rw [List.append_assoc] at hnext
      exact hnext
    · cases hrun

/-- The text of a buffer, offset by offset. -/
theorem Recorded.text_eq {buffer : Buffer} {source : List Char} {log : List Edit}
    (h : Recorded buffer source log) :
    buffer.text = weave (insertedAt log) (isCovered log) 0 source := by
  have hsorted : (ordered log).Pairwise fun edit other => edit.start ≤ other.start := by
    refine (ordered_sorted log).imp ?_
    intro edit other hbefore
    simp only [Edit.precedes, Bool.or_eq_true, Bool.and_eq_true, decide_eq_true_eq,
      beq_iff_eq] at hbefore
    omega
  have hinside : ∀ edit ∈ ordered log, edit.start ≤ edit.stop ∧ edit.stop ≤ source.length :=
    fun edit hedit => h.inside edit ((ordered_perm log).mem_iff.mp hedit)
  have hflat := applyFrom_eq_weave 0 0 hsorted hinside
    (fun _ _ => Nat.zero_le _) (Nat.le_refl _) (Nat.zero_le _)
  rw [List.drop_zero] at hflat
  rw [Buffer.text, h.source_eq, h.edits_eq, hflat]
  apply weave_congr
  · intro pos _ _
    exact valuesAt_ordered log pos
  · intro pos _ _
    simp [isCovered_ordered]

/-- Operations that are all accepted weave the edits they ask for into the source. -/
theorem text_eq_weave {source : List Char} {operations : List Operation} {buffer : Buffer}
    (h : (Buffer.ofSource source).runAll operations = .ok buffer) :
    buffer.text = weave (insertedAt (operations.flatMap (Operation.edits source)))
      (isCovered (operations.flatMap (Operation.edits source))) 0 source :=
  ((recorded_ofSource source).runAll h).text_eq

/-- Whether an operation inserts inside a source. -/
def Operation.Inserts (source : List Char) (operation : Operation) : Prop :=
  ∃ side value, ∃ pos : Nat, pos ≤ source.length ∧ operation = .replace side pos pos value

/-- Insertions cover no character. -/
theorem isCovered_of_inserts {source : List Char} {operations : List Operation}
    (h : ∀ operation ∈ operations, operation.Inserts source) (pos : Nat) :
    isCovered (operations.flatMap (Operation.edits source)) pos = false := by
  apply isCovered_of_empty
  intro edit hedit
  obtain ⟨operation, hoperation, hedit⟩ := List.mem_flatMap.mp hedit
  obtain ⟨side, value, offset, -, rfl⟩ := h operation hoperation
  rw [List.mem_singleton.mp hedit]

/-- Insertions inside the source are never refused. -/
theorem exists_runAll_of_inserts {buffer : Buffer} {operations : List Operation}
    (h : ∀ operation ∈ operations, operation.Inserts buffer.source) :
    ∃ buffer', buffer.runAll operations = .ok buffer' := by
  induction operations generalizing buffer with
  | nil => exact ⟨buffer, rfl⟩
  | cons operation operations ih =>
    obtain ⟨side, value, pos, hpos, rfl⟩ := h operation (List.mem_cons_self ..)
    have hrecord : buffer.record side pos pos value =
        .ok { buffer with edits := (⟨side, pos, pos, value⟩ : Edit).insertInto buffer.edits } := by
      unfold Buffer.record
      rw [if_neg (by simp; omega)]
      simp [Edit.isInsertion]
    rw [Buffer.runAll, Buffer.run, hrecord]
    exact ih fun other hother => h other (List.mem_cons_of_mem _ hother)

end NotebookCell.Editing
