import NotebookCell.Proofs.Command.Batch

/-!
# Commands and the resolution of addresses

What is resolved has no say in which cells are transpiled. So `check` succeeds on the very files that
`transpile` succeeds on, though the two come to their options by different routes.

* `error_of_transpile`, `alike_of_transpile`: sources of any mode but the notebook dialect;
* `transpiles_congr`: files;
* `resolution_changes_wrappers`: trees, sources and commands together.
-/

namespace NotebookCell

/-! ## Sources -/

section
variable {source mode : String} {first second : Options}

theorem scriptOf_congr (source : List Char) (mode : String) (htags : first.tags = second.tags) :
    scriptOf source mode first = scriptOf source mode second := by
  have htag : ∀ other : Mode, first.tagFor other = second.tagFor other := by
    intro other
    funext tag
    rw [Options.tagFor, Options.tagFor, htags]
  rw [scriptOf, scriptOf]
  simp only [htag]

/-- A source fails alike, whatever is resolved. -/
theorem error_of_transpile (hmode : mode ≠ Mode.ojs.name) (htags : first.tags = second.tags)
    {failure : Failure} (h : transpile source mode first = .error failure) :
    transpile source mode second = .error failure := by
  rw [transpile_eq hmode] at h ⊢
  rw [← scriptOf_congr source.toList mode htags]
  split at h
  · exact error_of_transpileScript first second h
  · exact h

theorem alike_of_transpile (hmode : mode ≠ Mode.ojs.name) (htags : first.tags = second.tags)
    {function function' : CellFunction} (h : transpile source mode first = .ok function)
    (h' : transpile source mode second = .ok function') :
    ∃ script cell, scriptOf source.toList mode first = .ok script ∧
      Script.parseCell script = .ok cell ∧
      AlikeBesideWrappers cell first second function function' := by
  rw [transpile_eq hmode] at h h'
  rw [← scriptOf_congr source.toList mode htags] at h'
  split at h
  · next script hscript =>
    rw [hscript] at h'
    obtain ⟨cell, hcell, halike⟩ := alike_of_transpileScript h h'
    exact ⟨script, cell, hscript, hcell, halike⟩
  · cases h

end

namespace Command

/-! ## Files -/

/-- Which cells are transpiled depends on the mode, the tags and the transpiler of the dialect only. -/
theorem transpiles_congr {batch batch' : BatchOptions} {lookUp : String → Entry} {file : String}
    (h : Transpiles batch lookUp file) (hmode : batch.mode = batch'.mode)
    (htags : batch.options.tags = batch'.options.tags)
    (hdelegate : batch.options.delegate = batch'.options.delegate) :
    Transpiles batch' lookUp file := by
  obtain ⟨source, mode, function, hcell, hfunction⟩ := h
  rw [hmode] at hcell
  by_cases hojs : mode.name = Mode.ojs.name
  · refine ⟨source, mode, function, hcell, ?_⟩
    rw [transpile, if_pos (by simpa using hojs)] at hfunction ⊢
    rw [← hdelegate]
    exact hfunction
  · cases hresult : transpile source mode.name batch'.options with
    | ok function' => exact ⟨source, mode, function', hcell, hresult⟩
    | error failure =>
      rw [error_of_transpile hojs htags.symm hresult] at hfunction
      cases hfunction

theorem exit_check_iff {environment : String → Option String} {lookUp : String → Entry}
    {checked made : Arguments} (hfiles : made.files = checked.files)
    (hmode : made.value? "--mode" = checked.value? "--mode")
    (hlevel : made.value? "--log-level" = checked.value? "--log-level") (log : Log) :
    (run environment lookUp (.check checked) log).exit = 0 ↔
      (run environment lookUp (.transpile made) log).exit = 0 := by
  rw [run_check, run_transpile, exit_eq_zero_iff, exit_eq_zero_iff, hfiles, hlevel]
  have hcongr : (∀ file ∈ checked.files, Transpiles (checkedBatch environment checked log) lookUp file) ↔
      ∀ file ∈ checked.files, Transpiles (requestedBatch environment made log) lookUp file :=
    ⟨fun h file hfile => transpiles_congr (h file hfile) hmode.symm rfl rfl,
      fun h file hfile => transpiles_congr (h file hfile) hmode rfl rfl⟩
  rw [hcongr]

end Command

/-! ## The whole -/

/-- What is resolved changes nothing but the pieces that make addresses: not whether and how a tree of
any shape or a source fails, not the inputs, outputs and display of its function, and not the rest of
the body. So `check` exits with zero exactly where `transpile` does, whatever flags it is given. -/
theorem resolution_changes_wrappers :
    (∀ (cell : Script.Cell) (shift : Int), cell.offsets = .ofSource cell.source shift →
      ∀ first second : Options,
        (∀ failure, cellFunction cell first = .error failure ↔
          cellFunction cell second = .error failure) ∧
        ∀ function function', cellFunction cell first = .ok function →
          cellFunction cell second = .ok function' →
          AlikeBesideWrappers cell first second function function') ∧
    (∀ source mode : String, mode ≠ Mode.ojs.name →
      ∀ first second : Options, first.tags = second.tags →
        (∀ failure, transpile source mode first = .error failure ↔
          transpile source mode second = .error failure) ∧
        ∀ function function', transpile source mode first = .ok function →
          transpile source mode second = .ok function' →
          ∃ script cell, scriptOf source.toList mode first = .ok script ∧
            Script.parseCell script = .ok cell ∧
            AlikeBesideWrappers cell first second function function') ∧
    ∀ (environment : String → Option String) (lookUp : String → Command.Entry)
      (checked made : Command.Arguments), made.files = checked.files →
      made.value? "--mode" = checked.value? "--mode" →
      made.value? "--log-level" = checked.value? "--log-level" →
      ∀ log, ((Command.run environment lookUp (.check checked) log).exit = 0 ↔
        (Command.run environment lookUp (.transpile made) log).exit = 0) := by
  refine ⟨?trees, ?sources, ?commands⟩
  case trees =>
    intro cell shift hoffsets first second
    have hsource : cell.offsets.source = cell.source := by
      rw [hoffsets]
      rfl
    refine ⟨fun failure => ⟨?_, ?_⟩, fun function function' h h' => ?_⟩
    · exact error_of_cellFunction hoffsets first second
    · exact error_of_cellFunction hoffsets second first
    · exact alike_of_cellFunction hsource h h'
  case sources =>
    intro source mode hmode first second htags
    refine ⟨fun failure => ⟨?_, ?_⟩, fun function function' h h' => ?_⟩
    · exact error_of_transpile hmode htags
    · exact error_of_transpile hmode htags.symm
    · exact alike_of_transpile hmode htags h h'
  case commands =>
    intro environment lookUp checked made hfiles hmode hlevel log
    exact Command.exit_check_iff hfiles hmode hlevel log

/-- A tree whose import statement names no module, a source with addresses of both kinds, and a command
over two files. -/
theorem resolution_changes_wrappers_addresses :
    let first : Options := { resolveLocalImports := true, resolveFiles := true }
    let source := "import a from './m'\na(FileAttachment('f'))"
    let damaged : Script.Cell :=
      { source := "import".toList
        text := "import".toList
        body := { kind := .program, start := 0, stop := 6
                  children := [{ kind := .importStatement, start := 0, stop := 6 }] }
        isExpression := false
        offsets := .ofSource "import".toList 0
        references := []
        declarations := []
        isAsync := false
        isGenerator := false }
    (∃ failure, cellFunction damaged first = .error failure ∧
      cellFunction damaged {} = .error failure) ∧
    (∃ function function' script cell, transpile source "js" first = .ok function ∧
      transpile source "js" {} = .ok function' ∧
      function.body = "async (FileAttachment) => \x7b\nconst \x7bdefault: a\x7d = await import(" ++
        "new URL('./m', document.baseURI).href);\na(FileAttachment(" ++
        "new URL('f', import.meta.url).href))\nreturn \x7ba\x7d;\n\x7d" ∧
      function'.body = "async (FileAttachment) => \x7b\nconst \x7bdefault: a\x7d = await import(" ++
        "'./m');\na(FileAttachment('f'))\nreturn \x7ba\x7d;\n\x7d" ∧
      scriptOf source.toList "js" first = .ok script ∧ Script.parseCell script = .ok cell ∧
      AlikeBesideWrappers cell first {} function function') ∧
    (Command.run (fun _ => none) (fun _ => .file "1".toUTF8)
      (.check { options := [("--mode", "js")], files := ["a", "b"] })).exit = 0 := by
  intro first source damaged
  obtain ⟨htrees, hsources, hcommands⟩ := resolution_changes_wrappers
  refine ⟨?_, ?_, ?_⟩
  · have hdamaged : (cellFunction damaged first).toOption.isNone = true := by decide +kernel
    cases hfailure : cellFunction damaged first with
    | ok function =>
      rw [hfailure] at hdamaged
      cases hdamaged
    | error failure =>
      exact ⟨failure, rfl, ((htrees damaged 0 rfl first {}).1 failure).mp hfailure⟩
  · have hfunction : (transpile source "js" first).toOption.map (·.body) = some
        ("async (FileAttachment) => \x7b\nconst \x7bdefault: a\x7d = await import(" ++
        "new URL('./m', document.baseURI).href);\na(FileAttachment(" ++
        "new URL('f', import.meta.url).href))\nreturn \x7ba\x7d;\n\x7d") := by
      decide +kernel
    have hfunction' : (transpile source "js" {}).toOption.map (·.body) = some
        ("async (FileAttachment) => \x7b\nconst \x7bdefault: a\x7d = await import(" ++
        "'./m');\na(FileAttachment('f'))\nreturn \x7ba\x7d;\n\x7d") := by
      decide +kernel
    obtain ⟨function, hfirst, hbody⟩ := Option.map_eq_some_iff.mp hfunction
    obtain ⟨function', hsecond, hbody'⟩ := Option.map_eq_some_iff.mp hfunction'
    have hok := eq_ok_of_toOption hfirst
    have hok' := eq_ok_of_toOption hsecond
    obtain ⟨script, cell, hscript, hcell, halike⟩ :=
      (hsources source "js" (by decide) first {} rfl).2 function function' hok hok'
    exact ⟨function, function', script, cell, hok, hok', hbody, hbody', hscript, hcell, halike⟩
  · have htranspile : (Command.run (fun _ => none) (fun _ => .file "1".toUTF8)
        (.transpile { options := [("--resolve-files", ""), ("--mode", "js")]
                      files := ["a", "b"] })).exit = 0 := by decide +kernel
    refine (hcommands _ _ _ { options := [("--resolve-files", ""), ("--mode", "js")]
                              files := ["a", "b"] } rfl ?_ ?_ {}).mpr htranspile
    · decide
    · decide

end NotebookCell
