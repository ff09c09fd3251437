import Mathlib.Data.List.Basic
import NotebookCell.Proofs.Editing.Trim

/-!
# Any run of operations

A buffer goes on behind an operation that it refuses, with whatever it holds by then. The log of such
a run is told from the source and the operations alone: an edit is recorded if its range lies in the
source and no character of it is covered by an edit recorded before (`admits`). The text of the buffer
is then read off the offsets of the source, one after the other (`textOfLog`).

* `Logged.record`: a buffer records what its log admits, and refuses the rest;
* `Logged.run`, `Logged.runEach`: the log of one operation, and of a run of them;
* `text_runEach`: the text behind any run;
* `Logged.exists_runAll`, `Logged.apart_of_runAll`: nothing is refused where no two ranges meet.
-/

namespace NotebookCell.Editing

open NotebookCell.Text

/-! ## The log of a run -/

/-- Runs operations one after the other, also behind one that is refused. -/
def Buffer.runEach (buffer : Buffer) (operations : List Operation) : Buffer :=
  operations.foldl (fun buffer operation => (buffer.run operation).1) buffer

/-- Whether a range can be recorded behind a log: it lies in the source, and no character of it is
covered. -/
def admits (source : List Char) (log : List Edit) (start stop : Int) : Bool :=
  0 ≤ start && start ≤ stop && stop ≤ source.length &&
    (List.range source.length).all fun pos => !(start ≤ pos && pos < stop && isCovered log pos)

/-- The log with one more edit, if it admits the range. -/
def logEdit (source : List Char) (log : List Edit) (side : Side) (start stop : Int)
    (value : List Char) : List Edit :=
  if admits source log start stop then log ++ [⟨side, start.toNat, stop.toNat, value⟩] else log

/-- The log with ranges deleted one after the other, up to the first that it does not admit. -/
def logDeletions (source : List Char) (log : List Edit) : List (Nat × Nat) → List Edit
  | [] => log
  | (start, stop) :: ranges =>
    if admits source log start stop then
      logDeletions source (log ++ [⟨.right, start, stop, []⟩]) ranges
    else log

/-- The white space at the start of a source and at its end, where there is any. -/
def whiteEnds (source : List Char) : List (Nat × Nat) :=
  [(0, leading source), (leading source + (trim source).length, source.length)].filter
    fun (start, stop) => start != stop

/-- The log behind one more operation. -/
def Operation.logged (source : List Char) (log : List Edit) : Operation → List Edit
  | .replace side start stop value => logEdit source log side start stop value
  | .trim => logDeletions source log (whiteEnds source)

/-- The edits that a run of operations records, in the order of their recording. -/
def logOf (source : List Char) (operations : List Operation) : List Edit :=
  operations.foldl (Operation.logged source) []

/-- The text that a log makes of a source: at each offset the values on the left, those on the right,
and the character of the source unless it is covered. -/
def textOfLog (source : List Char) (log : List Edit) : List Char :=
  (List.range (source.length + 1)).flatMap fun pos =>
    valuesOn .left log pos ++ valuesOn .right log pos ++
      if isCovered log pos then [] else source[pos]?.toList

/-- Weaving goes through the offsets one by one. -/
theorem weave_eq_flatMap (before : Nat → List Char) (gone : Nat → Bool) (pos : Nat)
    (text : List Char) :
    weave before gone pos text = (List.range (text.length + 1)).flatMap fun index =>
      before (pos + index) ++ if gone (pos + index) then [] else text[index]?.toList := by
  induction text generalizing pos with
  | nil => simp [weave]
  | cons c rest ih =>
    have hrest : ((List.range (rest.length + 1)).flatMap fun index => before (pos + 1 + index) ++
        if gone (pos + 1 + index) then [] else rest[index]?.toList) =
        (List.range (rest.length + 1)).flatMap fun index => before (pos + (index + 1)) ++
          if gone (pos + (index + 1)) then [] else (c :: rest)[index + 1]?.toList := by
      apply List.flatMap_congr
      intro index _
      rw [Nat.add_right_comm, Nat.add_assoc, List.getElem?_cons_succ]
    rw [weave, ih, hrest, List.length_cons]
    conv_rhs => rw [List.range_succ_eq_map, List.flatMap_cons, List.flatMap_map]
    rfl

/-! ## What a buffer admits -/

/-- The buffer holds the edits of a log, and its ranges are those that replace characters. -/
structure Logged (buffer : Buffer) (source : List Char) (log : List Edit) : Prop
    extends Recorded buffer source log where
  ranges_eq : buffer.ranges = log.filter fun edit => !edit.isInsertion

theorem logged_ofSource (source : List Char) : Logged (.ofSource source) source [] :=
  ⟨recorded_ofSource source, rfl⟩

theorem admits_iff {source : List Char} {log : List Edit} {start stop : Int} :
    admits source log start stop = true ↔ 0 ≤ start ∧ start ≤ stop ∧ stop ≤ source.length ∧
      ∀ pos : Nat, start ≤ pos → pos < stop → isCovered log pos = false := by
  simp only [admits, Bool.and_eq_true, decide_eq_true_eq, List.all_eq_true, List.mem_range,
    Bool.not_eq_true', Bool.and_eq_false_iff, decide_eq_false_iff_not, and_assoc]
  refine and_congr_right fun hstart => and_congr_right fun hle => and_congr_right fun hstop => ?_
  constructor
  · intro h pos hlow hhigh
    rcases h pos (by omega) with (h | h) | h
    · exact absurd hlow h
    · exact absurd hhigh h
    · exact h
  · intro h pos hpos
    by_cases hrange : start ≤ (pos : Int) ∧ (pos : Int) < stop
    · exact .inr (h pos hrange.1 hrange.2)
    · exact .inl (by omega)

/-- Two ranges with characters in them meet where one of them covers a character of the other. -/
theorem Edit.meets_iff {edit : Edit} {start stop : Nat} (hedit : edit.start < edit.stop)
    (hlt : start < stop) :
    edit.meets start stop = true ↔ ∃ pos, start ≤ pos ∧ pos < stop ∧ edit.covers pos = true := by
  simp only [Edit.meets, Edit.covers, Bool.and_eq_true, decide_eq_true_eq]
  constructor
  · intro h
    exact ⟨max start edit.start, by omega, by omega, by omega, by omega⟩
  · rintro ⟨pos, hlow, hhigh, hstart, hstop⟩
    omega

/-- No recorded range meets another one exactly if none of its characters is covered. -/
theorem Logged.find?_eq_none_iff {buffer : Buffer} {source : List Char} {log : List Edit}
    (h : Logged buffer source log) {start stop : Nat} (hlt : start < stop) :
    buffer.ranges.find? (·.meets start stop) = none ↔
      ∀ pos, start ≤ pos → pos < stop → isCovered log pos = false := by
  rw [h.ranges_eq, List.find?_eq_none]
  constructor
  · intro hnone pos hlow hhigh
    rw [isCovered, List.any_eq_false]
    intro edit hedit hcovers
    have hstrict : edit.start < edit.stop := by
      simp only [Edit.covers, Bool.and_eq_true, decide_eq_true_eq] at hcovers
      omega
    have hrange : edit ∈ log.filter fun edit => !edit.isInsertion := by
      simp only [List.mem_filter, Edit.isInsertion, Bool.not_eq_true', beq_eq_false_iff_ne]
      exact ⟨hedit, by omega⟩
    exact hnone edit hrange ((Edit.meets_iff hstrict hlt).mpr ⟨pos, hlow, hhigh, hcovers⟩)
  · intro hfree edit hedit hmeets
    obtain ⟨hmem, hrange⟩ := List.mem_filter.mp hedit
    have hle := (h.inside edit hmem).1
    simp only [Edit.isInsertion, Bool.not_eq_true', beq_eq_false_iff_ne] at hrange
    obtain ⟨pos, hlow, hhigh, hcovers⟩ := (Edit.meets_iff (by omega) hlt).mp hmeets
    have hnot := List.any_eq_false.mp (hfree pos hlow hhigh) edit hmem
    exact hnot hcovers

/-- An edit that is recorded joins the ranges if it replaces characters. -/
theorem ranges_of_record {buffer buffer' : Buffer} {side : Side} {start stop : Int}
    {value : List Char} (h : buffer.record side start stop value = .ok buffer') :
    buffer'.ranges = buffer.ranges ++
      [⟨side, start.toNat, stop.toNat, value⟩].filter fun edit => !edit.isInsertion := by
  unfold Buffer.record at h
  split at h
  · cases h
  dsimp only at h
  split at h
  · next hinsertion =>
    cases h
    simp [hinsertion]
  · next hrange =>
    split at h
    · cases h
    · cases h
      simp [hrange]

/-- An edit is recorded exactly if the log admits its range. -/
theorem Logged.exists_record_iff {buffer : Buffer} {source : List Char} {log : List Edit}
    (h : Logged buffer source log) (side : Side) (start stop : Int) (value : List Char) :
    (∃ buffer', buffer.record side start stop value = .ok buffer') ↔
      admits source log start stop = true := by
  rw [admits_iff]
  unfold Buffer.record
  rw [h.source_eq]
  split
  · next houtside =>
    simp only [Bool.or_eq_true, decide_eq_true_eq] at houtside
    constructor
    · rintro ⟨buffer', hok⟩
      cases hok
    · omega
  next hinside =>
  simp only [Bool.or_eq_true, decide_eq_true_eq] at hinside
  dsimp only
  split
  · -- an insertion has no character that could be covered
    next hinsertion =>
    simp only [Edit.isInsertion, beq_iff_eq] at hinsertion
    exact ⟨fun _ => ⟨by omega, by omega, by omega, fun pos => by omega⟩, fun _ => ⟨_, rfl⟩⟩
  · next hrange =>
    simp only [Edit.isInsertion, beq_iff_eq] at hrange
    have hfind := h.find?_eq_none_iff (by omega : start.toNat < stop.toNat)
    split
    · next other hmeets =>
      constructor
      · rintro ⟨buffer', hok⟩
        cases hok
      · intro hadmitted
        have hnone := hfind.mpr fun pos hlow hhigh =>
          hadmitted.2.2.2 pos (by omega) (by omega)
        rw [hmeets] at hnone
        cases hnone
    · next hnone =>
      have hfree := hfind.mp hnone
      exact ⟨fun _ => ⟨by omega, by omega, by omega,
        fun pos hlow hhigh => hfree pos (by omega) (by omega)⟩, fun _ => ⟨_, rfl⟩⟩

/-- A buffer records what its log admits, and refuses what it does not. -/
theorem Logged.record {buffer : Buffer} {source : List Char} {log : List Edit}
    (h : Logged buffer source log) (side : Side) (start stop : Int) (value : List Char) :
    if admits source log start stop then
      ∃ buffer', buffer.record side start stop value = .ok buffer' ∧
        Logged buffer' source (log ++ [⟨side, start.toNat, stop.toNat, value⟩])
    else ∃ refusal, buffer.record side start stop value = .error refusal := by
  have hiff := h.exists_record_iff side start stop value
  split
  · next hadmitted =>
    obtain ⟨buffer', hok⟩ := hiff.mpr hadmitted
    refine ⟨buffer', hok, h.toRecorded.record hok, ?_⟩
    rw [ranges_of_record hok, h.ranges_eq, List.filter_append]
  · next hrefused =>
    cases hrecord : buffer.record side start stop value with
    | ok buffer' => exact absurd (hiff.mp ⟨buffer', hrecord⟩) hrefused
    | error refusal => exact ⟨refusal, rfl⟩

/-! ## Running operations -/

/-- Deleting ranges records them up to the first that is not admitted. -/
theorem Logged.deleteAll {buffer : Buffer} {source : List Char} {log : List Edit}
    (h : Logged buffer source log) (ranges : List (Nat × Nat)) :
    Logged (buffer.deleteAll ranges).1 source (logDeletions source log ranges) := by
  induction ranges generalizing buffer log with
  | nil => exact h
  | cons range ranges ih =>
    obtain ⟨start, stop⟩ := range
    have hrecord := h.record .right start stop []
    rw [Buffer.deleteAll, logDeletions]
    split at hrecord
    · next hadmitted =>
      obtain ⟨buffer', hok, hlogged⟩ := hrecord
      rw [hok, if_pos hadmitted]
      exact ih hlogged
    · next hrefused =>
      obtain ⟨refusal, herror⟩ := hrecord
      rw [herror, if_neg hrefused]
      exact h

/-- Trimming deletes the white space at the two ends. -/
theorem filter_margins (source : List Char) :
    ((Buffer.margins source).filter fun (start, stop) => start != stop) = whiteEnds source := by
  rw [Buffer.margins, whiteEnds]
  by_cases hblank : leading source = source.length
  · have hempty : trim source = [] := by
      have hle := leading_add_length_trim_le source
      exact List.eq_nil_of_length_eq_zero (by omega)
    have hall : (source.length - (trimStart source).length == source.length) = true :=
      beq_iff_eq.mpr hblank
    rw [if_pos hall, hblank, hempty]
    simp [List.filter_cons]
  · have hall : ¬(source.length - (trimStart source).length == source.length) = true :=
      fun h => hblank (beq_iff_eq.mp h)
    rw [if_neg hall, length_trimEnd hblank, leading]

theorem Logged.run {buffer : Buffer} {source : List Char} {log : List Edit}
    (h : Logged buffer source log) (operation : Operation) :
    Logged (buffer.run operation).1 source (operation.logged source log) := by
  cases operation with
  | replace side start stop value =>
    have hrecord := h.record side start stop value
    rw [Buffer.run, Operation.logged, logEdit]
    split at hrecord
    · next hadmitted =>
      obtain ⟨buffer', hok, hlogged⟩ := hrecord
      rw [hok, if_pos hadmitted]
      exact hlogged
    · next hrefused =>
      obtain ⟨refusal, herror⟩ := hrecord
      rw [herror, if_neg hrefused]
      exact h
  | trim =>
    rw [Buffer.run, Buffer.trim, h.source_eq, filter_margins]
    exact h.deleteAll _

theorem Logged.runEach {buffer : Buffer} {source : List Char} {log : List Edit}
    (h : Logged buffer source log) (operations : List Operation) :
    Logged (buffer.runEach operations) source (operations.foldl (Operation.logged source) log) := by
  induction operations generalizing buffer log with
  | nil => exact h
  | cons operation operations ih => exact ih (h.run operation)

/-- Behind any run of operations, refused ones among them, the source is as it was, the buffer holds
the edits that were recorded, and its text is that of the log: no value is lost, also inside of
deleted ranges, and every character that no range covers stands there once. -/
theorem text_runEach (source : List Char) (operations : List Operation) :
    ((Buffer.ofSource source).runEach operations).source = source ∧
      ((Buffer.ofSource source).runEach operations).edits.Perm (logOf source operations) ∧
      ((Buffer.ofSource source).runEach operations).text =
        textOfLog source (logOf source operations) := by
  have hlogged := (logged_ofSource source).runEach operations
  rw [← logOf] at hlogged
  refine ⟨hlogged.source_eq, ?_, ?_⟩
  · rw [hlogged.edits_eq]
    exact ordered_perm _
  · rw [hlogged.text_eq, weave_eq_flatMap, textOfLog]
    simp only [Nat.zero_add, insertedAt]

/-- A run in which a trim is cut short, an overlap is refused and an insertion stands in a range that
is deleted. -/
example :
    ((Buffer.ofSource " ab ".toList).runEach [.delete 2 4, .trim, .insertRight 3 "x".toList,
      .delete 1 3, .insertLeft 2 "y".toList]).text = "ayx".toList := by decide

/-! ## Runs in which nothing is refused -/

theorem runAll_append (buffer : Buffer) (operations others : List Operation) :
    buffer.runAll (operations ++ others) =
      (buffer.runAll operations).bind fun buffer' => buffer'.runAll others := by
  induction operations generalizing buffer with
  | nil => rfl
  | cons operation operations ih =>
    rw [List.cons_append, Buffer.runAll, Buffer.runAll]
    split
    · exact ih _
    · rfl

/-- No character is covered by both edits. -/
def Edit.Apart (first second : Edit) : Prop := ∀ pos, first.covers pos = true → second.covers pos = false

/-- Whether an operation replaces a range of a source. -/
def Operation.Placed (source : List Char) (operation : Operation) : Prop :=
  ∃ side value, ∃ start stop : Nat, operation = .replace side start stop value ∧ start ≤ stop ∧
    stop ≤ source.length

/-- Ranges in the source that do not meet are not refused. -/
theorem Logged.exists_runAll {buffer : Buffer} {source : List Char} {log : List Edit}
    {operations : List Operation} (h : Logged buffer source log)
    (hplaced : ∀ operation ∈ operations, operation.Placed source)
    (hapart : (log ++ operations.flatMap (Operation.edits source)).Pairwise Edit.Apart) :
    ∃ buffer', buffer.runAll operations = .ok buffer' ∧
      Logged buffer' source (log ++ operations.flatMap (Operation.edits source)) := by
  induction operations generalizing buffer log with
  | nil =>
    rw [List.flatMap_nil, List.append_nil]
    exact ⟨buffer, rfl, h⟩
  | cons operation operations ih =>
    obtain ⟨⟨side, value, start, stop, rfl, hle, hstop⟩, hothers⟩ := List.forall_mem_cons.mp hplaced
    have hedits : log ++ (Operation.replace side start stop value :: operations).flatMap
        (Operation.edits source) = log ++ [⟨side, start, stop, value⟩] ++
          operations.flatMap (Operation.edits source) := by
      rw [List.flatMap_cons, ← List.append_assoc]
      rfl
    rw [hedits] at hapart ⊢
    have hadmitted : admits source log start stop = true := by
      refine admits_iff.mpr ⟨by omega, by omega, by omega, fun pos hlow hhigh => ?_⟩
      rw [isCovered, List.any_eq_false]
      intro edit hedit hcovers
      have hnot := (List.pairwise_append.mp (List.pairwise_append.mp hapart).1).2.2 edit hedit _
        (List.mem_singleton_self _) pos hcovers
      rw [Edit.covers, Bool.and_eq_false_iff, decide_eq_false_iff_not, decide_eq_false_iff_not] at hnot
      dsimp only at hnot
      omega
    have hrecord := h.record side start stop value
    rw [if_pos hadmitted] at hrecord
    obtain ⟨buffer', hok, hlogged⟩ := hrecord
    rw [Buffer.runAll, Buffer.run, hok]
    exact ih hlogged hothers hapart

/-- Ranges that are not refused do not meet. -/
theorem Logged.apart_of_runAll {buffer buffer' : Buffer} {source : List Char} {log : List Edit}
    {operations : List Operation} (h : Logged buffer source log)
    (hplaced : ∀ operation ∈ operations, operation.Placed source) (hlog : log.Pairwise Edit.Apart)
    (hrun : buffer.runAll operations = .ok buffer') :
    (log ++ operations.flatMap (Operation.edits source)).Pairwise Edit.Apart := by
  induction operations generalizing buffer log with
  | nil => rwa [List.flatMap_nil, List.append_nil]
  | cons operation operations ih =>
    obtain ⟨⟨side, value, start, stop, rfl, hle, hstop⟩, hothers⟩ := List.forall_mem_cons.mp hplaced
    rw [Buffer.runAll, Buffer.run] at hrun
    have hrecord := h.record side start stop value
    split at hrecord
    · next hadmitted =>
      obtain ⟨next, hok, hlogged⟩ := hrecord
      rw [hok] at hrun
      have hnext : (log ++ [(⟨side, start, stop, value⟩ : Edit)]).Pairwise Edit.Apart := by
        refine List.pairwise_append.mpr ⟨hlog, List.pairwise_singleton _ _, fun edit hedit last hlast => ?_⟩
        intro pos hcovers
        rw [List.mem_singleton.mp hlast, Bool.eq_false_iff]
        intro hboth
        rw [Edit.covers, Bool.and_eq_true, decide_eq_true_eq, decide_eq_true_eq] at hboth
        have hfree := (admits_iff.mp hadmitted).2.2.2 pos (by dsimp only at hboth; omega)
          (by dsimp only at hboth; omega)
        exact absurd hcovers (List.any_eq_false.mp hfree edit hedit)
      have hrest := ih hlogged hothers hnext hrun
      rw [List.flatMap_cons, ← List.append_assoc]
      exact hrest
    · obtain ⟨refusal, herror⟩ := hrecord
      rw [herror] at hrun
      cases hrun

theorem Operation.Inserts.placed {source : List Char} {operation : Operation}
    (h : operation.Inserts source) : operation.Placed source := by
  obtain ⟨side, value, pos, hpos, rfl⟩ := h
  exact ⟨side, value, pos, pos, rfl, Nat.le_refl _, hpos⟩

/-- Insertions cover no character, so they meet nothing. -/
theorem covers_of_inserts {source : List Char} {operations : List Operation}
    (h : ∀ operation ∈ operations, operation.Inserts source) :
    ∀ edit ∈ operations.flatMap (Operation.edits source), ∀ pos, edit.covers pos = false :=
  fun edit hedit pos => Bool.eq_false_iff.mpr
    (List.any_eq_false.mp (isCovered_of_inserts h pos) edit hedit)

/-- Edits that cover nothing between two logs do not count. -/
theorem apart_append_iff {log free more : List Edit} (hlog : log.Pairwise Edit.Apart)
    (hfree : ∀ edit ∈ free, ∀ pos, edit.covers pos = false) (hmore : more.Pairwise Edit.Apart) :
    (log ++ (free ++ more)).Pairwise Edit.Apart ↔
      ∀ pos, isCovered more pos = true → isCovered log pos = false := by
  constructor
  · intro happart pos hcovered
    obtain ⟨second, hsecond, hpos⟩ := List.any_eq_true.mp hcovered
    rw [isCovered, List.any_eq_false]
    intro first hfirst hcovers
    have hnot := (List.pairwise_append.mp happart).2.2 first hfirst second
      (List.mem_append_right _ hsecond) pos hcovers
    rw [hpos] at hnot
    cases hnot
  · intro hcovered
    refine List.pairwise_append.mpr ⟨hlog, List.pairwise_append.mpr ⟨?_, hmore, ?_⟩, ?_⟩
    · exact List.pairwise_of_forall_mem_list fun _ _ second hsecond pos _ => hfree second hsecond pos
    · intro first hfirst second _ pos hpos
      rw [hfree first hfirst pos] at hpos
      cases hpos
    · intro first hfirst second hsecond pos hpos
      rcases List.mem_append.mp hsecond with hsecond | hsecond
      · exact hfree second hsecond pos
      · rw [Bool.eq_false_iff]
        intro hcovers
        have hfirst' := List.any_eq_false.mp
          (hcovered pos (List.any_eq_true.mpr ⟨second, hsecond, hcovers⟩)) first hfirst
        exact hfirst' hpos

/-- Deletions one after the other are accepted if deleting all of the ranges is. -/
theorem runAll_deletions (buffer : Buffer) (ranges : List (Nat × Nat)) :
    buffer.runAll (ranges.map fun range => .delete range.1 range.2) =
      match buffer.deleteAll ranges with
      | (buffer', none) => .ok buffer'
      | (_, some refusal) => .error refusal := by
  induction ranges generalizing buffer with
  | nil => rfl
  | cons range ranges ih =>
    obtain ⟨start, stop⟩ := range
    rw [List.map_cons, Buffer.runAll, Operation.delete, Buffer.run, Buffer.deleteAll]
    cases buffer.record .right start stop [] with
    | ok buffer' => exact ih buffer'
    | error refusal => rfl

theorem edits_trim (source : List Char) :
    ((whiteEnds source).map fun range => Operation.delete range.1 range.2).flatMap
      (Operation.edits source) = Operation.edits source .trim := by
  rw [Operation.edits, filter_margins, List.flatMap_map]
  exact (List.map_eq_flatMap ..).symm

theorem apart_trim (source : List Char) : (Operation.edits source .trim).Pairwise Edit.Apart := by
  rw [Operation.edits, filter_margins, whiteEnds, List.pairwise_map]
  refine List.Pairwise.filter _ (List.pairwise_pair.mpr fun pos hfirst => ?_)
  rw [Edit.covers, Bool.and_eq_true, decide_eq_true_eq, decide_eq_true_eq] at hfirst
  rw [Edit.covers, decide_eq_false (by dsimp only at hfirst ⊢; omega), Bool.false_and]

/-- White space at the ends lies in the source. -/
theorem placed_of_mem_whiteEnds {source : List Char} {operation : Operation}
    (h : operation ∈ (whiteEnds source).map fun range => Operation.delete range.1 range.2) :
    operation.Placed source := by
  have hle := leading_add_length_trim_le source
  obtain ⟨⟨start, stop⟩, hrange, rfl⟩ := List.mem_map.mp h
  refine ⟨.right, [], start, stop, rfl, ?_⟩
  have hends := (List.mem_filter.mp hrange).1
  simp only [List.mem_cons, Prod.mk.injEq, List.not_mem_nil, or_false] at hends
  omega

/-- The white space at the ends of a source can always be deleted. -/
theorem exists_run_trim (source : List Char) :
    ∃ buffer, (Buffer.ofSource source).run .trim = (buffer, none) ∧
      Logged buffer source (Operation.edits source .trim) := by
  have hapart := apart_trim source
  rw [← edits_trim, ← List.nil_append (List.flatMap _ _)] at hapart
  obtain ⟨buffer, hrun, hlogged⟩ :=
    (logged_ofSource source).exists_runAll (fun _ => placed_of_mem_whiteEnds) hapart
  rw [List.nil_append, edits_trim] at hlogged
  refine ⟨buffer, ?_, hlogged⟩
  rw [Buffer.run, Buffer.trim]
  show (Buffer.ofSource source).deleteAll ((Buffer.margins source).filter _) = _
  rw [filter_margins]
  rw [runAll_deletions] at hrun
  split at hrun
  · next hall =>
    cases hrun
    exact hall
  · cases hrun

end NotebookCell.Editing
