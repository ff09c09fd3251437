import Mathlib.Data.List.Perm.Basic
import NotebookCell.Proofs.Editing.Run

/-!
# What a buffer accepts

Behind any run of operations a buffer is sound: its edits lie in the source in the order of their
application, and its ranges are the edits that replace characters, no two of them the same one
(`Buffer.Sound`). So whether an edit is accepted is told from the ranges, and whether a whole run is
accepted from the edits it asks for, in whatever order they come.

* `Buffer.Sound.record`, `Buffer.Sound.run`, `Buffer.Sound.runEach`: operations keep a buffer sound;
* `exists_runAll_iff`: a run is accepted if all its ranges lie in the source and no two of them meet;
* `runAll_reordered`: the order of a run does not matter beyond each offset and side.
-/

namespace NotebookCell.Editing

/-! ## What holds behind any run -/

/-- No character is in both ranges. -/
def Edit.Disjoint (first second : Edit) : Prop := first.stop ≤ second.start ∨ second.stop ≤ first.start

/-- The edits of a buffer lie in its source, by offset and with the left before the right, and its
ranges are those that replace characters. No two ranges have a character in common. -/
structure Buffer.Sound (buffer : Buffer) : Prop where
  inside : ∀ edit ∈ buffer.edits, edit.start ≤ edit.stop ∧ edit.stop ≤ buffer.source.length
  sorted : buffer.edits.Pairwise fun first second => first.start < second.start ∨
    first.start = second.start ∧ (first.side = .left ∨ second.side = .right)
  ranges_perm : buffer.ranges.Perm (buffer.edits.filter fun edit => !edit.isInsertion)
  disjoint : buffer.ranges.Pairwise Edit.Disjoint

theorem Edit.precedes_iff {first second : Edit} : first.precedes second = true ↔
    first.start < second.start ∨
      first.start = second.start ∧ (first.side = .left ∨ second.side = .right) := by
  rw [Edit.precedes, Bool.or_eq_true, Bool.and_eq_true, Bool.or_eq_true, decide_eq_true_eq,
    beq_iff_eq, beq_iff_eq, beq_iff_eq]

/-- A range does not meet another one exactly if they are disjoint, or one of them is empty. -/
theorem Edit.disjoint_of_not_meets {edit : Edit} {other : Edit}
    (h : ¬other.meets edit.start edit.stop = true) : other.Disjoint edit := by
  rw [Edit.meets, Bool.and_eq_true, decide_eq_true_eq, decide_eq_true_eq] at h
  unfold Edit.Disjoint
  omega

/-- What recording an edit does to a buffer: the edit lies in the source and goes to its place, and if
it replaces characters it joins the ranges, none of which it meets. -/
theorem Buffer.record_eq_ok {buffer buffer' : Buffer} {side : Side} {start stop : Int}
    {value : List Char} (h : buffer.record side start stop value = .ok buffer') :
    ∃ edit : Edit, edit = ⟨side, start.toNat, stop.toNat, value⟩ ∧
      (0 ≤ start ∧ start ≤ stop ∧ stop ≤ buffer.source.length) ∧
      (edit.isInsertion = false → ∀ other ∈ buffer.ranges, other.Disjoint edit) ∧
      buffer' = { buffer with
        edits := edit.insertInto buffer.edits
        ranges := buffer.ranges ++ [edit].filter fun edit => !edit.isInsertion } := by
  refine ⟨_, rfl, ?_⟩
  unfold Buffer.record at h
  split at h
  · cases h
  next hinside =>
  simp only [Bool.or_eq_true, decide_eq_true_eq] at hinside
  refine ⟨by omega, ?_⟩
  dsimp only at h
  split at h
  · next hinsertion =>
    cases h
    refine ⟨fun hrange => ?_, by simp [hinsertion]⟩
    rw [hinsertion] at hrange
    cases hrange
  · next hrange =>
    split at h
    · cases h
    · next hnone =>
      cases h
      refine ⟨fun _ other hother => ?_, by simp [hrange]⟩
      exact Edit.disjoint_of_not_meets (List.find?_eq_none.mp hnone other hother)

namespace Buffer.Sound

variable {buffer buffer' : Buffer}

theorem ofSource (source : List Char) : (Buffer.ofSource source).Sound :=
  ⟨List.forall_mem_nil _, .nil, .nil, .nil⟩

theorem record {side : Side} {start stop : Int} {value : List Char} (h : buffer.Sound)
    (hrecord : buffer.record side start stop value = .ok buffer') : buffer'.Sound := by
  obtain ⟨edit, hedit, hbounds, hdisjoint, rfl⟩ := Buffer.record_eq_ok hrecord
  have hperm := edit.insertInto_perm buffer.edits
  refine ⟨?_, ?_, ?_, ?_⟩
  · intro other hother
    rcases List.mem_cons.mp (hperm.mem_iff.mp hother) with rfl | hother
    · rw [hedit]
      dsimp only
      omega
    · exact h.inside other hother
  · have hsorted : buffer.edits.Pairwise (·.precedes ·) :=
      h.sorted.imp fun hbefore => Edit.precedes_iff.mpr hbefore
    exact (edit.insertInto_sorted hsorted).imp fun hbefore => Edit.precedes_iff.mp hbefore
  · have hranges : (buffer.ranges ++ [edit].filter fun edit => !edit.isInsertion).Perm
        ((edit :: buffer.edits).filter fun edit => !edit.isInsertion) := by
      have hcons := List.filter_append (p := fun edit => !edit.isInsertion) [edit] buffer.edits
      rw [List.singleton_append] at hcons
      rw [hcons]
      exact List.perm_append_comm.trans (h.ranges_perm.append_left _)
    exact hranges.trans (hperm.filter _).symm
  · refine List.pairwise_append.mpr ⟨h.disjoint, (List.pairwise_singleton _ edit).filter _, ?_⟩
    intro other hother last hlast
    obtain ⟨hlast, hrange⟩ := List.mem_filter.mp hlast
    obtain rfl := List.mem_singleton.mp hlast
    exact hdisjoint ((Bool.not_eq_true' _).mp hrange) other hother

/-- Deleting ranges one after the other keeps a buffer sound, also where it ends early. -/
theorem deleteAll (h : buffer.Sound) (ranges : List (Nat × Nat)) :
    (buffer.deleteAll ranges).1.Sound := by
  induction ranges generalizing buffer with
  | nil => exact h
  | cons range ranges ih =>
    obtain ⟨start, stop⟩ := range
    rw [Buffer.deleteAll]
    split
    · next hrecord => exact ih (h.record hrecord)
    · exact h

/-- So does every operation, accepted or not. -/
theorem run (h : buffer.Sound) (operation : Operation) : (buffer.run operation).1.Sound := by
  cases operation with
  | replace side start stop value =>
    rw [Buffer.run]
    split
    · next hrecord => exact h.record hrecord
    · exact h
  | trim => exact h.deleteAll _

theorem runEach (h : buffer.Sound) (operations : List Operation) :
    (buffer.runEach operations).Sound := by
  induction operations generalizing buffer with
  | nil => exact h
  | cons operation operations ih => exact ih (h.run operation)

/-- A range has a character. -/
theorem start_lt_stop (h : buffer.Sound) {range : Edit} (hrange : range ∈ buffer.ranges) :
    range.start < range.stop := by
  obtain ⟨hedit, hkind⟩ := List.mem_filter.mp (h.ranges_perm.mem_iff.mp hrange)
  have hle := (h.inside range hedit).1
  simp only [Edit.isInsertion, Bool.not_eq_true', beq_eq_false_iff_ne] at hkind
  omega

/-- An edit is refused exactly if its range is reversed or leaves the source, or if it has a character in
common with a range. -/
theorem record_eq_error_iff (h : buffer.Sound) (side : Side) (start stop : Int) (value : List Char) :
    (∃ refusal, buffer.record side start stop value = .error refusal) ↔
      start < 0 ∨ buffer.source.length < stop ∨ stop < start ∨
        ∃ range ∈ buffer.ranges, ∃ pos : Nat, start ≤ pos ∧ pos < stop ∧ range.covers pos = true := by
  constructor
  · rintro ⟨refusal, hrefused⟩
    unfold Buffer.record at hrefused
    split at hrefused
    · next houtside =>
      simp only [Bool.or_eq_true, decide_eq_true_eq] at houtside
      omega
    next hinside =>
    simp only [Bool.or_eq_true, decide_eq_true_eq] at hinside
    dsimp only at hrefused
    split at hrefused
    · cases hrefused
    · next hrange =>
      split at hrefused
      · next other hfound =>
        have hother := List.mem_of_find?_eq_some hfound
        have hstrict := h.start_lt_stop hother
        simp only [Edit.isInsertion, beq_iff_eq] at hrange
        have hmeets := List.find?_some hfound
        obtain ⟨pos, hlow, hhigh, hcovers⟩ := (Edit.meets_iff hstrict (by omega)).mp hmeets
        exact .inr (.inr (.inr ⟨other, hother, pos, by omega, by omega, hcovers⟩))
      · cases hrefused
  · intro hrefused
    cases hrecord : buffer.record side start stop value with
    | error refusal => exact ⟨refusal, rfl⟩
    | ok buffer' =>
      obtain ⟨edit, rfl, hbounds, hdisjoint, -⟩ := Buffer.record_eq_ok hrecord
      obtain hlow | hhigh | hreversed | ⟨range, hrange, pos, hfirst, hlast, hcovers⟩ := hrefused
      · omega
      · omega
      · omega
      · rw [Edit.covers, Bool.and_eq_true, decide_eq_true_eq, decide_eq_true_eq] at hcovers
        have happart := hdisjoint (beq_false_of_ne (by dsimp only; omega)) range hrange
        unfold Edit.Disjoint at happart
        dsimp only at happart
        omega

end Buffer.Sound

theorem source_runEach (source : List Char) (operations : List Operation) :
    ((Buffer.ofSource source).runEach operations).source = source :=
  ((logged_ofSource source).runEach operations).source_eq

/-- Behind any run of operations, refused ones among them, a buffer is sound and holds the edits that
were recorded. An edit is then refused exactly if its range is reversed or leaves the source, or if it replaces a character that a range
replaces already; and a refused edit leaves the buffer as it is. -/
theorem sound_runEach (source : List Char) (operations : List Operation) :
    let buffer := (Buffer.ofSource source).runEach operations
    buffer.source = source ∧ buffer.Sound ∧ buffer.edits.Perm (logOf source operations) ∧
      ∀ (side : Side) (start stop : Int) (value : List Char),
        ((buffer.run (.replace side start stop value)).2.isSome = true ↔
          start < 0 ∨ source.length < stop ∨ stop < start ∨
            ∃ range ∈ buffer.ranges, ∃ pos : Nat,
              start ≤ pos ∧ pos < stop ∧ range.start ≤ pos ∧ pos < range.stop) ∧
        ((buffer.run (.replace side start stop value)).2.isSome = true →
          (buffer.run (.replace side start stop value)).1 = buffer) := by
  intro buffer
  have hsource : buffer.source = source := source_runEach source operations
  have hsound : buffer.Sound := (Buffer.Sound.ofSource source).runEach operations
  have hlog : buffer.edits.Perm (logOf source operations) := by
    rw [((logged_ofSource source).runEach operations).edits_eq]
    exact ordered_perm _
  refine ⟨hsource, hsound, hlog, fun side start stop value => ?_⟩
  have hrefused := hsound.record_eq_error_iff side start stop value
  simp only [hsource, Edit.covers, Bool.and_eq_true, decide_eq_true_eq] at hrefused
  rw [← hrefused, Buffer.run]
  cases hrecord : buffer.record side start stop value with
  | ok buffer' => simp
  | error refusal => simp

/-! ## Runs that are accepted -/

/-- An operation, or the deletions that trimming stands for. -/
def Operation.spelledOut (source : List Char) : Operation → List Operation
  | .trim => (whiteEnds source).map fun range => .delete range.1 range.2
  | .replace side start stop value => [.replace side start stop value]

theorem edits_spelledOut (source : List Char) (operation : Operation) :
    (operation.spelledOut source).flatMap (Operation.edits source) = operation.edits source := by
  cases operation with
  | replace side start stop value => rfl
  | trim => exact edits_trim source

/-- Trimming is deleting the white space at the ends. -/
theorem Logged.runAll_spelledOut {buffer : Buffer} {source : List Char} {log : List Edit}
    (h : Logged buffer source log) (operations : List Operation) :
    buffer.runAll (operations.flatMap (Operation.spelledOut source)) = buffer.runAll operations := by
  induction operations generalizing buffer log with
  | nil => rfl
  | cons operation operations ih =>
    have hnext := h.run operation
    have hone : buffer.runAll (operation.spelledOut source) = buffer.runAll [operation] := by
      cases operation with
      | replace side start stop value => rfl
      | trim =>
        have htrim : buffer.run .trim = buffer.deleteAll (whiteEnds source) := by
          rw [Buffer.run, Buffer.trim, h.source_eq, filter_margins]
        rw [Buffer.runAll, htrim]
        exact runAll_deletions buffer (whiteEnds source)
    rw [List.flatMap_cons, runAll_append, hone, ← runAll_append, List.singleton_append,
      Buffer.runAll, Buffer.runAll]
    rcases hrun : buffer.run operation with ⟨buffer', refusal⟩
    rw [hrun] at hnext
    cases refusal with
    | none => exact ih hnext
    | some refusal => rfl

/-- What is accepted lies in the source. -/
theorem Logged.placed_of_runAll {buffer buffer' : Buffer} {source : List Char} {log : List Edit}
    {operations : List Operation} (h : Logged buffer source log)
    (hrun : buffer.runAll operations = .ok buffer') :
    ∀ operation ∈ operations, operation = .trim ∨ operation.Placed source := by
  induction operations generalizing buffer log with
  | nil => exact List.forall_mem_nil _
  | cons operation operations ih =>
    have hnext := h.run operation
    rw [Buffer.runAll] at hrun
    split at hrun
    · next next hfirst =>
      rw [hfirst] at hnext
      refine List.forall_mem_cons.mpr ⟨?_, ih hnext hrun⟩
      cases operation with
      | trim => exact .inl rfl
      | replace side start stop value =>
        right
        rw [Buffer.run] at hfirst
        split at hfirst
        · next hrecord =>
          obtain ⟨_, -, hbounds, -⟩ := Buffer.record_eq_ok hrecord
          rw [h.source_eq] at hbounds
          refine ⟨side, value, start.toNat, stop.toNat, ?_, by omega, by omega⟩
          rw [Int.toNat_of_nonneg (by omega), Int.toNat_of_nonneg (by omega)]
        · cases hfirst
    · cases hrun

/-- A run is accepted exactly if what it replaces lies in the source and no character of it is replaced
twice. -/
theorem exists_runAll_iff (source : List Char) (operations : List Operation) :
    (∃ buffer, (Buffer.ofSource source).runAll operations = .ok buffer) ↔
      (∀ operation ∈ operations, operation = .trim ∨ operation.Placed source) ∧
        (operations.flatMap (Operation.edits source)).Pairwise Edit.Apart := by
  have hlogged := logged_ofSource source
  have hedits : (operations.flatMap (Operation.spelledOut source)).flatMap (Operation.edits source) =
      operations.flatMap (Operation.edits source) := by
    rw [List.flatMap_assoc]
    simp only [edits_spelledOut]
  have hspelled : (∀ operation ∈ operations, operation = .trim ∨ operation.Placed source) →
      ∀ operation ∈ operations.flatMap (Operation.spelledOut source), operation.Placed source := by
    intro hplaced operation hoperation
    obtain ⟨whole, hwhole, hpart⟩ := List.mem_flatMap.mp hoperation
    cases whole with
    | trim => exact placed_of_mem_whiteEnds hpart
    | replace side start stop value =>
      obtain rfl := List.mem_singleton.mp hpart
      exact (hplaced _ hwhole).resolve_left fun htrim => by cases htrim
  constructor
  · rintro ⟨buffer, hrun⟩
    have hplaced := hlogged.placed_of_runAll hrun
    rw [← hlogged.runAll_spelledOut] at hrun
    have hapart := hlogged.apart_of_runAll (hspelled hplaced) .nil hrun
    rw [List.nil_append, hedits] at hapart
    exact ⟨hplaced, hapart⟩
  · rintro ⟨hplaced, hapart⟩
    rw [← hedits, ← List.nil_append (List.flatMap _ _)] at hapart
    obtain ⟨buffer, hrun, -⟩ := hlogged.exists_runAll (hspelled hplaced) hapart
    rw [hlogged.runAll_spelledOut] at hrun
    exact ⟨buffer, hrun⟩

/-! ## The order of a run -/

/-- Whether an operation records an edit on a side of an offset. Trimming does not count, since it
writes nothing. -/
def Operation.startsAt (side : Side) (start : Int) : Operation → Bool
  | .replace side' start' _ _ => side' == side && start' == start
  | .trim => false

theorem Edit.Apart.symm {first second : Edit} (h : first.Apart second) : second.Apart first := by
  intro pos hsecond
  rw [Bool.eq_false_iff]
  intro hfirst
  rw [h pos hfirst] at hsecond
  cases hsecond

/-- The values on a side of an offset are those of the operations that start there. -/
theorem valuesOn_edits {source : List Char} {operations : List Operation}
    (hplaced : ∀ operation ∈ operations, operation = .trim ∨ operation.Placed source) (side : Side)
    (pos : Nat) :
    valuesOn side (operations.flatMap (Operation.edits source)) pos =
      (operations.filter (·.startsAt side pos)).flatMap fun operation =>
        valuesOn side (operation.edits source) pos := by
  rw [valuesOn_flatMap]
  induction operations with
  | nil => rfl
  | cons operation operations ih =>
    obtain ⟨hfirst, hrest⟩ := List.forall_mem_cons.mp hplaced
    rw [List.flatMap_cons, ih hrest, List.filter_cons]
    split
    · rfl
    · next hoff =>
      have hnone : valuesOn side (operation.edits source) pos = [] := by
        obtain rfl | ⟨side', value, start, stop, rfl, -⟩ := hfirst
        · apply valuesOn_of_empty
          intro edit hedit
          obtain ⟨range, -, rfl⟩ := List.mem_map.mp hedit
          rfl
        · have hat : Edit.isAt pos side ⟨side', start, stop, value⟩ = false := by
            rw [Bool.eq_false_iff]
            intro hat
            simp only [Edit.isAt, Bool.and_eq_true, beq_iff_eq] at hat
            exact hoff (by simp [Operation.startsAt, hat])
          simp [valuesOn, Operation.edits, hat]
      rw [hnone, List.nil_append]

/-- The order of the operations of a run does not matter, but for those on the same side of the same
offset; a trim may stand anywhere. All of one run are accepted if all of the other are, and the text is
then the same. -/
theorem runAll_reordered {source : List Char} {operations others : List Operation}
    (hperm : operations.Perm others)
    (horder : ∀ side start, operations.filter (·.startsAt side start) =
      others.filter (·.startsAt side start)) :
    ((∃ buffer, (Buffer.ofSource source).runAll operations = .ok buffer) ↔
      ∃ buffer, (Buffer.ofSource source).runAll others = .ok buffer) ∧
    ∀ buffer buffer', (Buffer.ofSource source).runAll operations = .ok buffer →
      (Buffer.ofSource source).runAll others = .ok buffer' → buffer.text = buffer'.text := by
  have hedits := hperm.flatMap_right (Operation.edits source)
  constructor
  · rw [exists_runAll_iff, exists_runAll_iff]
    apply and_congr
    · simp only [hperm.mem_iff]
    · exact hedits.pairwise_iff Edit.Apart.symm
  · intro buffer buffer' hrun hrun'
    have hplaced := (logged_ofSource source).placed_of_runAll hrun
    have hplaced' := (logged_ofSource source).placed_of_runAll hrun'
    rw [text_eq_weave hrun, text_eq_weave hrun']
    apply weave_congr
    · intro pos _ _
      rw [insertedAt, insertedAt, valuesOn_edits hplaced, valuesOn_edits hplaced,
        valuesOn_edits hplaced', valuesOn_edits hplaced', horder, horder]
    · intro pos _ _
      exact hedits.any_eq

/-- A trim that moves from the front to the end, and insertions at one offset on both sides. -/
theorem runAll_reordered_trim :
    let operations : List Operation := [.trim, .insertLeft 1 "x".toList, .insertRight 1 "y".toList,
      .delete 1 2, .insertLeft 1 "z".toList]
    let others : List Operation := [.insertRight 1 "y".toList, .delete 1 2, .insertLeft 1 "x".toList,
      .insertLeft 1 "z".toList, .trim]
    operations.Perm others ∧
      (∀ side start, operations.filter (·.startsAt side start) =
        others.filter (·.startsAt side start)) ∧
      ∃ buffer, (Buffer.ofSource " ab ".toList).runAll others = .ok buffer ∧
        buffer.text = "xzyb".toList := by
  intro operations others
  have hperm : operations.Perm others := by decide
  have horder : ∀ side start, operations.filter (·.startsAt side start) =
      others.filter (·.startsAt side start) := by
    intro side start
    by_cases hstart : 1 = start <;> cases side <;>
      simp [operations, others, Operation.startsAt, Operation.insertLeft, Operation.insertRight,
        Operation.delete, hstart]
  obtain ⟨buffer, hrun, htext⟩ : ∃ buffer,
      (Buffer.ofSource " ab ".toList).runAll operations = .ok buffer ∧
        buffer.text = "xzyb".toList := ⟨_, rfl, rfl⟩
  obtain ⟨haccepted, hsame⟩ := @runAll_reordered " ab ".toList _ _ hperm horder
  obtain ⟨buffer', hrun'⟩ := haccepted.mp ⟨buffer, hrun⟩
  exact ⟨hperm, horder, buffer', hrun', (hsame buffer buffer' hrun hrun').symm.trans htext⟩

end NotebookCell.Editing
