import NotebookCell.Command.Run
import NotebookCell.Proofs.Body.Refusal

/-!
# Commands over files

A command goes through its files one after the other. What becomes of a file depends on the cell in it
alone: the function, the message about it or the breakdown of the whole command. The number of a file
goes into the id of its cell, whether the files before it failed or not.

* `crashes_iff`: when a cell breaks the whole command;
* `transpileFiles_of_cell`: what one file does to a batch;
* `transpileFiles_eq_ok`, `transpileFiles_eq_error`: whole batches;
* `transpile_prints_numbered_units`: what `transpile` prints and how it exits;
* `exit_eq_zero_iff`: a command over files exits with zero if the cells of all of them are transpiled.
-/

namespace NotebookCell.Command

/-! ## The cell in a file -/

/-- The source and the mode of the cell in a file, if the file can be read and has a mode. -/
def cellIn? (explicit : Option String) (lookUp : String → Entry) (file : String) :
    Option (String × Mode) :=
  match lookUp file with
  | .file bytes =>
    match decode? bytes, modeOf? explicit (Path.normalise file) with
    | some source, some mode => some (source, mode)
    | _, _ => none
  | _ => none

/-- The cell in a file becomes a function. -/
def Transpiles (batch : BatchOptions) (lookUp : String → Entry) (file : String) : Prop :=
  ∃ source mode function, cellIn? batch.mode lookUp file = some (source, mode) ∧
    transpile source mode.name batch.options = .ok function

/-- The cell in a file does not become a function. -/
def Fails (batch : BatchOptions) (lookUp : String → Entry) (file : String) : Prop :=
  ∃ source mode failure, cellIn? batch.mode lookUp file = some (source, mode) ∧
    transpile source mode.name batch.options = .error failure

/-- The cell in a file fails in a way that ends every command: its edits do not fit together, an import
statement lacks a part, or the log cannot write what is wrong with it. -/
def Crashes (batch : BatchOptions) (lookUp : String → Entry) (file : String) : Prop :=
  ∃ source mode failure, cellIn? batch.mode lookUp file = some (source, mode) ∧
    transpile source mode.name batch.options = .error failure ∧
    ∀ problem, failure = .problem problem → batch.log.writes (Path.normalise file) problem = false

/-- A file ends the command. -/
def Stops (batch : BatchOptions) (lookUp : String → Entry) (file : String) : Prop :=
  Crashes batch lookUp file ∨ (batch.keepGoing = false ∧ Fails batch lookUp file)

/-- The transpiled cell when a file is all that a command is given. -/
def unitAlone? (batch : BatchOptions) (lookUp : String → Entry) (file : String) : Option CellUnit :=
  match transpileFiles batch lookUp {} [file] with
  | .ok results => results.units.head?
  | .error _ => none

/-- A transpiled cell with the id for the number of its file. -/
def CellUnit.numbered (unit : CellUnit) (number : Nat) : CellUnit :=
  { unit with id := "cell-" ++ toString number }

/-- The transpiled cells of files, each numbered by the place of its file. -/
def numberedUnits (batch : BatchOptions) (lookUp : String → Entry) (start : Nat)
    (files : List String) : List CellUnit :=
  (files.zipIdx start).filterMap fun (file, number) =>
    (unitAlone? batch lookUp file).map (·.numbered number)

/-! ## One file -/

section
variable {batch : BatchOptions} {lookUp : String → Entry} {counter : IdCounter} {file source : String}
  {files : List String} {mode : Mode}

theorem cellIn?_eq_some {explicit : Option String} (h : cellIn? explicit lookUp file = some (source, mode)) :
    ∃ bytes, lookUp file = .file bytes ∧ decode? bytes = some source ∧
      modeOf? explicit (Path.normalise file) = some mode := by
  rw [cellIn?] at h
  split at h
  · next bytes hbytes =>
    split at h
    · next hsource hmode =>
      cases h
      exact ⟨bytes, hbytes, hsource, hmode⟩
    · cases h
  · cases h

/-- What a file with a cell does to a batch. -/
theorem transpileFiles_of_cell (h : cellIn? batch.mode lookUp file = some (source, mode)) :
    transpileFiles batch lookUp counter (file :: files) =
      match transpile source mode.name batch.options with
      | .ok function => (transpileFiles batch lookUp (counter.next none).2 files).map fun rest =>
        { rest with
          units := ⟨(counter.next none).1, Path.normalise file, mode, function⟩ :: rest.units }
      | .error (.problem problem) =>
        if !batch.log.writes (Path.normalise file) problem then .error (.ofCrash .unwritable)
        else if batch.keepGoing then
          (transpileFiles batch lookUp (counter.next none).2 files).map fun rest =>
            { rest with notes := note (Path.normalise file) problem :: rest.notes }
        else .error { exit := 1, notes := [note (Path.normalise file) problem] }
      | .error (.refusal _) => .error (.ofCrash .refusal)
      | .error (.imports defect) => .error (.ofCrash (.imports defect)) := by
  obtain ⟨bytes, hbytes, hsource, hmode⟩ := cellIn?_eq_some h
  rw [transpileFiles, hbytes]
  dsimp only
  rw [hsource]
  dsimp only
  rw [hmode]
  dsimp only
  cases transpile source mode.name batch.options with
  | ok function =>
    dsimp only
    cases transpileFiles batch lookUp (counter.next none).2 files <;> rfl
  | error failure =>
    cases failure with
    | problem problem =>
      dsimp only
      cases batch.log.writes (Path.normalise file) problem with
      | false => rfl
      | true =>
        cases batch.keepGoing with
        | true => cases transpileFiles batch lookUp (counter.next none).2 files <;> rfl
        | false => rfl
    | refusal refusal => rfl
    | imports defect => rfl

/-- A file without a cell ends the command. -/
theorem transpileFiles_of_none (counter : IdCounter) (files : List String)
    (h : cellIn? batch.mode lookUp file = none) :
    ∃ outcome, transpileFiles batch lookUp counter (file :: files) = .error outcome ∧
      outcome.exit ≠ 0 := by
  rw [transpileFiles]
  cases hentry : lookUp file with
  | missing => exact ⟨.misuse, rfl, by decide⟩
  | directory => exact ⟨.misuse, rfl, by decide⟩
  | file bytes =>
    dsimp only
    rw [cellIn?, hentry] at h
    dsimp only at h
    cases hsource : decode? bytes with
    | none => exact ⟨.ofCrash .undecodable, rfl, by decide⟩
    | some source =>
      cases hmode : modeOf? batch.mode (Path.normalise file) with
      | none => exact ⟨.misuse, rfl, by decide⟩
      | some mode =>
        rw [hsource, hmode] at h
        cases h

/-- What becomes of a file that is all that a command is given. -/
theorem unitAlone?_eq (h : cellIn? batch.mode lookUp file = some (source, mode)) :
    unitAlone? batch lookUp file =
      match transpile source mode.name batch.options with
      | .ok function => some ⟨"cell-1", Path.normalise file, mode, function⟩
      | .error _ => none := by
  rw [unitAlone?, transpileFiles_of_cell h]
  cases transpile source mode.name batch.options with
  | ok function => rfl
  | error failure =>
    cases failure with
    | problem problem =>
      dsimp only
      cases batch.log.writes (Path.normalise file) problem <;> cases batch.keepGoing <;> rfl
    | refusal refusal => rfl
    | imports defect => rfl

theorem Transpiles.not_fails (h : Transpiles batch lookUp file) : ¬ Fails batch lookUp file := by
  obtain ⟨source, mode, function, hcell, hfunction⟩ := h
  rintro ⟨source', mode', failure, hcell', hfailure⟩
  rw [hcell] at hcell'
  cases hcell'
  rw [hfunction] at hfailure
  cases hfailure

/-- A cell breaks the whole command where an import statement of its script reaches into the white space
around the script, and where the log cannot write what is wrong with it. -/
theorem crashes_iff {source : String} {mode : Mode}
    (hcell : cellIn? batch.mode lookUp file = some (source, mode)) :
    Crashes batch lookUp file ↔
      (mode.name ≠ Mode.ojs.name ∧ ∃ script cell,
        scriptOf source.toList mode.name batch.options = .ok script ∧
        Script.parseCell script = .ok cell ∧ Scope.yields cell.body = [] ∧
        ∃ pos, isImport cell pos = true ∧
          Editing.isCovered (Editing.Operation.edits script .trim) pos = true) ∨
      ∃ problem, transpile source mode.name batch.options = .error (.problem problem) ∧
        batch.log.writes (Path.normalise file) problem = false := by
  rw [← exists_failure_iff]
  constructor
  · rintro ⟨_, _, failure, hcell', hfailure, hlog⟩
    cases hcell.symm.trans hcell'
    cases failure with
    | problem problem => exact .inr ⟨problem, hfailure, hlog problem rfl⟩
    | refusal refusal => exact .inl ⟨_, hfailure, fun _ => Failure.noConfusion⟩
    | imports defect => exact .inl ⟨_, hfailure, fun _ => Failure.noConfusion⟩
  · rintro (⟨failure, hfailure, hother⟩ | ⟨problem, hfailure, hlog⟩)
    · exact ⟨source, mode, failure, hcell, hfailure, fun problem h => absurd h (hother problem)⟩
    · refine ⟨source, mode, _, hcell, hfailure, fun other h => ?_⟩
      cases h
      exact hlog

theorem Crashes.fails (h : Crashes batch lookUp file) : Fails batch lookUp file := by
  obtain ⟨source, mode, failure, hcell, hfailure, -⟩ := h
  exact ⟨source, mode, failure, hcell, hfailure⟩

end

/-! ## Ids -/

/-- The counter of a command after some files. -/
def counterAfter (count : Nat) : IdCounter := { count := count }

theorem next_counterAfter (count : Nat) :
    (counterAfter count).next none = ("cell-" ++ toString (count + 1), counterAfter (count + 1)) := rfl

/-! ## Batches -/

section
variable {batch : BatchOptions} {lookUp : String → Entry} {files : List String}

/-- Where no file ends the command, the transpiled cells are numbered by their files, and there are
messages about the cells that failed. -/
theorem transpileFiles_eq_ok (count : Nat)
    (hread : ∀ file ∈ files, (cellIn? batch.mode lookUp file).isSome)
    (hgoes : ∀ file ∈ files, ¬ Stops batch lookUp file) :
    ∃ results, transpileFiles batch lookUp (counterAfter count) files = .ok results ∧
      results.units = numberedUnits batch lookUp (count + 1) files ∧
      (results.notes = [] ↔ ∀ file ∈ files, ¬ Fails batch lookUp file) := by
  induction files generalizing count with
  | nil => exact ⟨{}, rfl, rfl, fun _ _ h => (nomatch h), fun _ => rfl⟩
  | cons file files ih =>
    obtain ⟨results, hrest, hunits, hnotes⟩ := ih (count + 1)
      (fun other hother => hread other (List.mem_cons_of_mem _ hother))
      (fun other hother => hgoes other (List.mem_cons_of_mem _ hother))
    obtain ⟨⟨source, mode⟩, hcell⟩ := Option.isSome_iff_exists.mp (hread file List.mem_cons_self)
    have hfirst := hgoes file List.mem_cons_self
    have halone := unitAlone?_eq hcell
    rw [transpileFiles_of_cell hcell, next_counterAfter]
    rw [numberedUnits, List.zipIdx_cons, List.filterMap_cons, ← numberedUnits]
    cases hresult : transpile source mode.name batch.options with
    | ok function =>
      rw [hresult] at halone
      dsimp only at halone ⊢
      rw [hrest, halone]
      have hok : ¬ Fails batch lookUp file :=
        Transpiles.not_fails ⟨source, mode, function, hcell, hresult⟩
      refine ⟨_, rfl, ?_, ?_⟩
      · rw [← hunits]
        rfl
      · rw [List.forall_mem_cons]
        exact ⟨fun h => ⟨hok, hnotes.mp h⟩, fun h => hnotes.mpr h.2⟩
    | error failure =>
      have hfails : Fails batch lookUp file := ⟨source, mode, failure, hcell, hresult⟩
      rw [hresult] at halone
      cases failure with
      | refusal refusal =>
        exact absurd (.inl ⟨source, mode, _, hcell, hresult, fun _ h => (nomatch h)⟩) hfirst
      | imports defect =>
        exact absurd (.inl ⟨source, mode, _, hcell, hresult, fun _ h => (nomatch h)⟩) hfirst
      | problem problem =>
        have hkeeps : batch.keepGoing = true :=
          eq_true_of_ne_false fun hends => hfirst (.inr ⟨hends, hfails⟩)
        have hwrites : batch.log.writes (Path.normalise file) problem = true := by
          refine eq_true_of_ne_false fun hlog => hfirst (.inl ⟨source, mode, _, hcell, hresult, ?_⟩)
          intro other h
          cases h
          exact hlog
        dsimp only at halone ⊢
        rw [hwrites, hkeeps, if_neg Bool.noConfusion, if_pos rfl, hrest, halone]
        refine ⟨_, rfl, hunits, ?_⟩
        constructor
        · exact fun h => (nomatch h)
        · exact fun h => absurd hfails (h file List.mem_cons_self)

/-- A file that ends the command leaves nothing of the batch. -/
theorem transpileFiles_eq_error (counter : IdCounter)
    (hread : ∀ file ∈ files, (cellIn? batch.mode lookUp file).isSome)
    (hstops : ∃ file ∈ files, Stops batch lookUp file) :
    ∃ outcome, transpileFiles batch lookUp counter files = .error outcome ∧
      outcome.exit = 1 ∧ outcome.stdout = "" := by
  induction files generalizing counter with
  | nil =>
    obtain ⟨file, hfile, -⟩ := hstops
    cases hfile
  | cons file files ih =>
    obtain ⟨⟨source, mode⟩, hcell⟩ := Option.isSome_iff_exists.mp (hread file List.mem_cons_self)
    have hrest : ¬ Stops batch lookUp file →
        ∃ outcome, transpileFiles batch lookUp (counter.next none).2 files = .error outcome ∧
          outcome.exit = 1 ∧ outcome.stdout = "" := by
      intro hfirst
      refine ih _ (fun other hother => hread other (List.mem_cons_of_mem _ hother)) ?_
      obtain ⟨other, hother, hstop⟩ := hstops
      rcases List.mem_cons.mp hother with rfl | hother
      · exact absurd hstop hfirst
      · exact ⟨other, hother, hstop⟩
    rw [transpileFiles_of_cell hcell]
    cases hresult : transpile source mode.name batch.options with
    | ok function =>
      have hok := Transpiles.not_fails ⟨source, mode, function, hcell, hresult⟩
      obtain ⟨outcome, herror, hexit, hstdout⟩ := hrest fun hstop =>
        hok (hstop.elim Crashes.fails And.right)
      dsimp only
      rw [herror]
      exact ⟨outcome, rfl, hexit, hstdout⟩
    | error failure =>
      cases failure with
      | refusal refusal => exact ⟨_, rfl, rfl, rfl⟩
      | imports defect => exact ⟨_, rfl, rfl, rfl⟩
      | problem problem =>
        dsimp only
        cases hwrites : batch.log.writes (Path.normalise file) problem with
        | false => exact ⟨_, rfl, rfl, rfl⟩
        | true =>
          cases hkeeps : batch.keepGoing with
          | false => exact ⟨_, rfl, rfl, rfl⟩
          | true =>
            have hfirst : ¬ Stops batch lookUp file := by
              rintro (⟨source', mode', failure, hcell', hfailure, hlog⟩ | ⟨hends, -⟩)
              · rw [hcell] at hcell'
                cases hcell'
                rw [hresult] at hfailure
                cases hfailure
                cases hwrites.symm.trans (hlog problem rfl)
              · rw [hkeeps] at hends
                cases hends
            obtain ⟨outcome, herror, hexit, hstdout⟩ := hrest hfirst
            rw [herror]
            exact ⟨outcome, rfl, hexit, hstdout⟩

/-- A batch has no messages if the cells of all files are transpiled, and every other batch is cut off
with an exit code that is not zero. -/
theorem transpileFiles_clean (batch : BatchOptions) (lookUp : String → Entry) (counter : IdCounter)
    (files : List String) :
    match transpileFiles batch lookUp counter files with
    | .ok results => results.notes = [] ↔ ∀ file ∈ files, Transpiles batch lookUp file
    | .error outcome => outcome.exit ≠ 0 ∧ ¬ ∀ file ∈ files, Transpiles batch lookUp file := by
  induction files generalizing counter with
  | nil => exact ⟨fun _ _ h => (nomatch h), fun _ => rfl⟩
  | cons file files ih =>
    have hrest := ih (counter.next none).2
    simp only [List.forall_mem_cons]
    cases hcell : cellIn? batch.mode lookUp file with
    | none =>
      obtain ⟨outcome, herror, hexit⟩ := transpileFiles_of_none counter files hcell
      rw [herror]
      refine ⟨hexit, fun h => ?_⟩
      obtain ⟨source, mode, function, hsome, -⟩ := h.1
      rw [hcell] at hsome
      cases hsome
    | some cell =>
      obtain ⟨source, mode⟩ := cell
      rw [transpileFiles_of_cell hcell]
      cases hresult : transpile source mode.name batch.options with
      | ok function =>
        have hok : Transpiles batch lookUp file := ⟨source, mode, function, hcell, hresult⟩
        dsimp only
        cases htail : transpileFiles batch lookUp (counter.next none).2 files with
        | ok results =>
          rw [htail] at hrest
          exact ⟨fun h => ⟨hok, hrest.mp h⟩, fun h => hrest.mpr h.2⟩
        | error outcome =>
          rw [htail] at hrest
          exact ⟨hrest.1, fun h => hrest.2 h.2⟩
      | error failure =>
        have hfails : ¬ Transpiles batch lookUp file :=
          fun h => h.not_fails ⟨source, mode, failure, hcell, hresult⟩
        cases failure with
        | refusal refusal => exact ⟨by decide, fun h => hfails h.1⟩
        | imports defect => exact ⟨Nat.one_ne_zero, fun h => hfails h.1⟩
        | problem problem =>
          dsimp only
          cases batch.log.writes (Path.normalise file) problem with
          | false => exact ⟨Nat.one_ne_zero, fun h => hfails h.1⟩
          | true =>
            cases batch.keepGoing with
            | false => exact ⟨Nat.one_ne_zero, fun h => hfails h.1⟩
            | true =>
              rw [if_neg Bool.noConfusion, if_pos rfl]
              cases htail : transpileFiles batch lookUp (counter.next none).2 files with
              | ok results => exact ⟨fun h => (nomatch h), fun h => absurd h.1 hfails⟩
              | error outcome =>
                rw [htail] at hrest
                exact ⟨hrest.1, fun h => hfails h.1⟩

end

/-! ## Commands -/

/-- What `transpile` is asked for. -/
def requestedBatch (environment : String → Option String) (arguments : Arguments) (log : Log) :
    BatchOptions where
  log
  options := (Settings.read environment).options
    (arguments.choice? "--resolve-files" "--no-resolve-files")
    (arguments.choice? "--resolve-local-imports" "--no-resolve-local-imports")
  mode := arguments.value? "--mode"
  keepGoing := arguments.has "--keep-going"

/-- What `check` is asked for. -/
def checkedBatch (environment : String → Option String) (arguments : Arguments) (log : Log) :
    BatchOptions where
  log
  options := (Settings.read environment).options none none
  mode := arguments.value? "--mode"

/-- What is printed for transpiled cells. -/
def printed (units : List CellUnit) : String :=
  String.ofList ((Text.Json.list (units.map (·.json))).render 0 ++ ['\n'])

theorem run_transpile (environment : String → Option String) (lookUp : String → Entry)
    (arguments : Arguments) (log : Log) :
    run environment lookUp (.transpile arguments) log =
      overFiles (Settings.read environment) lookUp arguments (requestedBatch environment arguments log)
        fun results => printed results.units := rfl

theorem run_check (environment : String → Option String) (lookUp : String → Entry)
    (arguments : Arguments) (log : Log) :
    run environment lookUp (.check arguments) log =
      overFiles (Settings.read environment) lookUp arguments (checkedBatch environment arguments log)
        fun results => lines (results.units.map (·.report)) := rfl

/-- A path leads to a file. -/
def isFile (lookUp : String → Entry) (path : String) : Bool :=
  match lookUp path with
  | .file _ => true
  | _ => false

section
variable {settings : Settings} {lookUp : String → Entry} {arguments : Arguments} {batch : BatchOptions}
  {finish : Batch → String}

theorem isFile_of_isSome {explicit : Option String} {file : String}
    (h : (cellIn? explicit lookUp file).isSome) : isFile lookUp file = true := by
  obtain ⟨⟨source, mode⟩, hcell⟩ := Option.isSome_iff_exists.mp h
  obtain ⟨bytes, hbytes, -⟩ := cellIn?_eq_some hcell
  rw [isFile, hbytes]

theorem overFiles_eq : overFiles settings lookUp arguments batch finish =
    if !arguments.files.all (isFile lookUp) then .misuse
    else if !hasLogLevel settings (arguments.value? "--log-level") then .ofCrash .unknownLevel
    else
      match transpileFiles batch lookUp {} arguments.files with
      | .error outcome => outcome
      | .ok results =>
        { exit := if results.notes.isEmpty then 0 else 1
          stdout := finish results
          notes := results.notes } := rfl

theorem exit_of_notes (notes : List String) :
    (if notes.isEmpty then 0 else 1) = 0 ↔ notes = [] := by
  cases notes <;> simp

/-- A command over files exits with zero if all are files, the level of logging exists and the cells of
all files are transpiled. -/
theorem exit_eq_zero_iff :
    (overFiles settings lookUp arguments batch finish).exit = 0 ↔
      arguments.files.all (isFile lookUp) = true ∧
      hasLogLevel settings (arguments.value? "--log-level") = true ∧
      ∀ file ∈ arguments.files, Transpiles batch lookUp file := by
  rw [overFiles_eq]
  cases arguments.files.all (isFile lookUp) with
  | false => exact ⟨fun h => (nomatch h), fun h => (nomatch h.1)⟩
  | true =>
    cases hasLogLevel settings (arguments.value? "--log-level") with
    | false => exact ⟨fun h => (nomatch h), fun h => (nomatch h.2.1)⟩
    | true =>
      have hclean := transpileFiles_clean batch lookUp {} arguments.files
      rw [if_neg Bool.noConfusion, if_neg Bool.noConfusion]
      cases hbatch : transpileFiles batch lookUp {} arguments.files with
      | error outcome =>
        rw [hbatch] at hclean
        exact ⟨fun h => absurd h hclean.1, fun h => absurd h.2.2 hclean.2⟩
      | ok results =>
        rw [hbatch] at hclean
        dsimp only at hclean ⊢
        rw [exit_of_notes, hclean]
        exact ⟨fun h => ⟨rfl, rfl, h⟩, fun h => h.2.2⟩

theorem overFiles_of_read (hread : ∀ file ∈ arguments.files, (cellIn? batch.mode lookUp file).isSome)
    (hlevel : hasLogLevel settings (arguments.value? "--log-level") = true) :
    overFiles settings lookUp arguments batch finish =
      match transpileFiles batch lookUp {} arguments.files with
      | .error outcome => outcome
      | .ok results =>
        { exit := if results.notes.isEmpty then 0 else 1
          stdout := finish results
          notes := results.notes } := by
  have hfiles : arguments.files.all (isFile lookUp) = true :=
    List.all_eq_true.mpr fun file hfile => isFile_of_isSome (hread file hfile)
  rw [overFiles_eq, hfiles, hlevel]
  rfl

theorem overFiles_of_stops (hread : ∀ file ∈ arguments.files, (cellIn? batch.mode lookUp file).isSome)
    (hlevel : hasLogLevel settings (arguments.value? "--log-level") = true)
    (hstops : ∃ file ∈ arguments.files, Stops batch lookUp file) :
    (overFiles settings lookUp arguments batch finish).stdout = "" ∧
      (overFiles settings lookUp arguments batch finish).exit = 1 := by
  obtain ⟨outcome, herror, hexit, hstdout⟩ := transpileFiles_eq_error {} hread hstops
  rw [overFiles_of_read hread hlevel, herror]
  exact ⟨hstdout, hexit⟩

theorem overFiles_of_goes (finish : Batch → String)
    (hread : ∀ file ∈ arguments.files, (cellIn? batch.mode lookUp file).isSome)
    (hlevel : hasLogLevel settings (arguments.value? "--log-level") = true)
    (hgoes : ∀ file ∈ arguments.files, ¬ Stops batch lookUp file) :
    (∃ results, results.units = numberedUnits batch lookUp 1 arguments.files ∧
      (overFiles settings lookUp arguments batch finish).stdout = finish results) ∧
    ((overFiles settings lookUp arguments batch finish).exit = 0 ∧
        (∀ file ∈ arguments.files, ¬ Fails batch lookUp file) ∨
      (overFiles settings lookUp arguments batch finish).exit = 1 ∧
        ∃ file ∈ arguments.files, Fails batch lookUp file) := by
  obtain ⟨results, hok, hunits, hnotes⟩ := transpileFiles_eq_ok 0 hread hgoes
  rw [overFiles_of_read hread hlevel, show ({} : IdCounter) = counterAfter 0 from rfl, hok]
  refine ⟨⟨results, hunits, rfl⟩, ?_⟩
  by_cases hclean : results.notes = []
  · exact .inl ⟨(exit_of_notes _).mpr hclean, hnotes.mp hclean⟩
  · refine .inr ⟨if_neg fun h => hclean (List.isEmpty_iff.mp h), ?_⟩
    rw [hnotes] at hclean
    obtain ⟨file, hfile⟩ := Classical.not_forall.mp hclean
    obtain ⟨hmem, hfails⟩ := Classical.not_imp.mp hfile
    exact ⟨file, hmem, Classical.not_not.mp hfails⟩

end

open Classical in
/-- What `transpile` prints and how it exits, for files that all have a cell and whatever the log can
write. A cell that crashes the command takes the cells of all other files with it; this happens only
where an import statement reaches into the white space around the script, and where the log cannot write
what is wrong with the cell. Otherwise the transpiled cells are printed in the order of the
files, each as if its file were alone and with the number of the file in its id, unless some cell fails
and the command is not to keep going. -/
theorem transpile_prints_numbered_units (environment : String → Option String)
    (lookUp : String → Entry) (arguments : Arguments) (log : Log)
    (hread : ∀ file ∈ arguments.files,
      (cellIn? (arguments.value? "--mode") lookUp file).isSome = true)
    (hlevel : hasLogLevel (Settings.read environment) (arguments.value? "--log-level") = true) :
    let batch := requestedBatch environment arguments log
    let outcome := run environment lookUp (.transpile arguments) log
    ((∃ file ∈ arguments.files, Crashes batch lookUp file) →
      outcome.stdout = "" ∧ outcome.exit = 1) ∧
    ((∀ file ∈ arguments.files, ¬ Crashes batch lookUp file) →
      (arguments.has "--keep-going" = true →
        outcome.stdout = printed (numberedUnits batch lookUp 1 arguments.files) ∧
          outcome.exit = if ∃ file ∈ arguments.files, Fails batch lookUp file then 1 else 0) ∧
      (arguments.has "--keep-going" = false →
        (∀ file ∈ arguments.files, ¬ Fails batch lookUp file) →
          outcome.stdout = printed (numberedUnits batch lookUp 1 arguments.files) ∧
            outcome.exit = 0) ∧
      (arguments.has "--keep-going" = false →
        (∃ file ∈ arguments.files, Fails batch lookUp file) →
          outcome.stdout = "" ∧ outcome.exit = 1)) ∧
    ∀ file ∈ arguments.files, ∃ source mode,
      cellIn? (arguments.value? "--mode") lookUp file = some (source, mode) ∧
      (Crashes batch lookUp file ↔
        (mode.name ≠ Mode.ojs.name ∧ ∃ script cell,
          scriptOf source.toList mode.name batch.options = .ok script ∧
          Script.parseCell script = .ok cell ∧ Scope.yields cell.body = [] ∧
          ∃ pos, isImport cell pos = true ∧
            Editing.isCovered (Editing.Operation.edits script .trim) pos = true) ∨
        ∃ problem, transpile source mode.name batch.options = .error (.problem problem) ∧
          log.writes (Path.normalise file) problem = false) ∧
      unitAlone? batch lookUp file =
        match transpile source mode.name batch.options with
        | .ok function => some ⟨"cell-1", Path.normalise file, mode, function⟩
        | .error _ => none := by
  intro batch outcome
  have hgoing : (∀ file ∈ arguments.files, ¬ Stops batch lookUp file) →
      outcome.stdout = printed (numberedUnits batch lookUp 1 arguments.files) ∧
        outcome.exit = if ∃ file ∈ arguments.files, Fails batch lookUp file then 1 else 0 := by
    intro hgoes
    obtain ⟨⟨results, hunits, hstdout⟩, hexit⟩ := overFiles_of_goes (printed ·.units) hread hlevel hgoes
    refine ⟨by rw [← hunits]; exact hstdout, ?_⟩
    rcases hexit with ⟨hexit, hfine⟩ | ⟨hexit, hfails⟩
    · rw [if_neg fun ⟨file, hfile, hfails⟩ => hfine file hfile hfails]
      exact hexit
    · rw [if_pos hfails]
      exact hexit
  have hstopping : (∃ file ∈ arguments.files, Stops batch lookUp file) →
      outcome.stdout = "" ∧ outcome.exit = 1 := overFiles_of_stops hread hlevel
  refine ⟨?_, fun hcalm => ⟨?_, ?_, ?_⟩, ?_⟩
  · rintro ⟨file, hfile, hcrash⟩
    exact hstopping ⟨file, hfile, .inl hcrash⟩
  · intro hkeeps
    refine hgoing fun file hfile hstops => ?_
    rcases hstops with hcrash | ⟨hends, -⟩
    · exact hcalm file hfile hcrash
    · exact absurd hends (by rw [show batch.keepGoing = true from hkeeps]; exact Bool.noConfusion)
  · intro hends hfine
    have hresult := hgoing fun file hfile hstops =>
      hfine file hfile (hstops.elim Crashes.fails And.right)
    rw [if_neg fun ⟨file, hfile, hfails⟩ => hfine file hfile hfails] at hresult
    exact hresult
  · rintro hends ⟨file, hfile, hfails⟩
    exact hstopping ⟨file, hfile, .inr ⟨hends, hfails⟩⟩
  · intro file hfile
    obtain ⟨⟨source, mode⟩, hcell⟩ := Option.isSome_iff_exists.mp (hread file hfile)
    exact ⟨source, mode, hcell, crashes_iff hcell, unitAlone?_eq hcell⟩

/-- Files without a script around one with a script: its cell has the number of its file. With a log that
cannot write about the others nothing is printed. -/
theorem transpile_prints_numbered_units_between :
    let lookUp : String → Entry := fun path => .file (if path == "good" then "1" else "]").toUTF8
    let blocked : Log := ⟨fun _ _ => false⟩
    let arguments : Arguments :=
      { options := [("--keep-going", ""), ("--mode", "js")], files := ["bad", "good", "bad"] }
    let batch := requestedBatch (fun _ => none) arguments {}
    let outcome := run (fun _ => none) lookUp (.transpile arguments)
    let outcome' := run (fun _ => none) lookUp (.transpile arguments) blocked
    (∀ file ∈ arguments.files,
      (cellIn? (arguments.value? "--mode") lookUp file).isSome = true) ∧
    hasLogLevel (Settings.read fun _ => none) (arguments.value? "--log-level") = true ∧
    outcome.stdout = printed (numberedUnits batch lookUp 1 arguments.files) ∧
    outcome.exit = 1 ∧
    (numberedUnits batch lookUp 1 arguments.files).map (·.id) = ["cell-2"] ∧
    outcome'.stdout = "" ∧ outcome'.exit = 1 := by
  intro lookUp blocked arguments batch outcome outcome'
  have hread : ∀ file ∈ arguments.files,
      (cellIn? (arguments.value? "--mode") lookUp file).isSome = true := by decide +kernel
  have hlevel : hasLogLevel (Settings.read fun _ => none)
      (arguments.value? "--log-level") = true := by decide +kernel
  have hbad : cellIn? (some "js") lookUp "bad" = some ("]", .js) := by decide +kernel
  have hgood : cellIn? (some "js") lookUp "good" = some ("1", .js) := by decide +kernel
  obtain ⟨problem, hfailure⟩ : ∃ problem, transpile "]" "js" batch.options = .error (.problem problem) := by
    have hparsed : (Script.parseCell "]".toList).toOption.isNone = true := by decide +kernel
    rw [show transpile "]" "js" batch.options = transpileScript "]".toList batch.options from rfl,
      transpileScript]
    cases hcell : Script.parseCell "]".toList with
    | ok cell =>
      rw [hcell] at hparsed
      cases hparsed
    | error problem => exact ⟨problem, rfl⟩
  have hfunction : ∃ function, transpile "1" "js" batch.options = .ok function := by
    have heval : (transpile "1" "js" batch.options).toOption.isSome = true := by decide +kernel
    obtain ⟨function, hsome⟩ := Option.isSome_iff_exists.mp heval
    exact ⟨function, eq_ok_of_toOption hsome⟩
  obtain ⟨function, hfunction⟩ := hfunction
  have hcalm : ∀ file ∈ arguments.files, ¬ Crashes batch lookUp file := by
    have hbad' : ¬ Crashes batch lookUp "bad" := by
      rintro ⟨_, _, failure, hcell, hfailure', hlog⟩
      cases hbad.symm.trans hcell
      cases hfailure.symm.trans hfailure'
      cases hlog _ rfl
    have hgood' : ¬ Crashes batch lookUp "good" := fun hcrash =>
      Transpiles.not_fails ⟨"1", .js, function, hgood, hfunction⟩ hcrash.fails
    simp only [arguments, List.forall_mem_cons]
    exact ⟨hbad', hgood', hbad', List.forall_mem_nil _⟩
  have hfails : ∃ file ∈ arguments.files, Fails batch lookUp file :=
    ⟨"bad", List.mem_cons_self, "]", .js, _, hbad, hfailure⟩
  obtain ⟨-, hrun, -⟩ := transpile_prints_numbered_units (fun _ => none) lookUp arguments {} hread hlevel
  obtain ⟨hcrash, -⟩ :=
    transpile_prints_numbered_units (fun _ => none) lookUp arguments blocked hread hlevel
  obtain ⟨hstdout, hexit⟩ := (hrun hcalm).1 rfl
  rw [if_pos hfails] at hexit
  refine ⟨hread, hlevel, hstdout, hexit, ?_, ?_⟩
  · have hbadAlone : unitAlone? batch lookUp "bad" = none := by
      rw [unitAlone?_eq hbad, show Mode.js.name = "js" from rfl, hfailure]
    have hgoodAlone : unitAlone? batch lookUp "good" =
        some ⟨"cell-1", Path.normalise "good", .js, function⟩ := by
      rw [unitAlone?_eq hgood, show Mode.js.name = "js" from rfl, hfunction]
    simp only [numberedUnits, arguments, List.zipIdx_cons, List.zipIdx_nil, List.filterMap_cons,
      hbadAlone, hgoodAlone]
    rfl
  · exact hcrash ⟨"bad", List.mem_cons_self, "]", .js, _, hbad, hfailure, fun _ _ => rfl⟩

end NotebookCell.Command
