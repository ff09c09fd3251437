import NotebookCell.Proofs.Scope.Tagged
import NotebookCell.Proofs.Template.Closing
import NotebookCell.Proofs.Template.Embedded

/-!
# Inputs of template cells

A template cell with the usual tag of its mode becomes the call of the tag on a template literal. Its
inputs are the free names of the tag and of the holes, each hole read on its own, and it has no
outputs.

There are three ways in which the text of a cell can still reach beyond its place, and the statement
excludes or corrects them:

* raw embedding lets a backtick behind an odd run of backslashes end the literal, as in `` \`+x// ``;
* a hole may read otherwise with text behind it, as `/*x/`, which is a regular expression on its own
  and the start of a comment before `} */`: the holes have to be self-contained;
* a variable in the static block of a class escapes from its hole and hides the name in all others.
-/

namespace NotebookCell

open NotebookCell.Tree NotebookCell.Script NotebookCell.Scope NotebookCell.Template

/-! ## The usual tags -/

/-- The usual tags read as operands. -/
theorem readsTag_of_mode {mode : Mode} {tag : String} (h : mode.tag? = some tag) :
    ∃ callee, ReadsTag tag.toList callee := by
  cases mode with
  | js => cases h
  | ojs => cases h
  | md => cases h; exact ⟨_, readsTag_name (by decide)⟩
  | html => cases h; exact ⟨_, readsTag_name (by decide)⟩
  | dot => cases h; exact ⟨_, readsTag_name (by decide)⟩
  | tex =>
    cases h
    exact ⟨_, @readsTag_member "tex".toList "block".toList (by decide) (by decide)⟩
  | sql =>
    cases h
    exact ⟨_, @readsTag_call "__sql".toList "db".toList "Inputs".toList "table".toList (by decide)
      (by decide) (by decide) (by decide)⟩

/-- The usual tags declare nothing. -/
theorem escapingNamesOf_tag {mode : Mode} {tag : String} (h : mode.tag? = some tag) :
    escapingNamesOf tag.toList = [] := by
  cases mode <;> cases h <;> decide +kernel

/-- The script that a template cell with the usual tag stands for. -/
theorem scriptOf_template {mode : Mode} {tag : String} {options : Options} {source : List Char}
    {script : List Char} (htag : mode.tag? = some tag) (hdefault : options.tags.lookup mode.name = none)
    (h : scriptOf source mode.name options = .ok script) :
    Template.transpile source tag.toList mode.embedding = .ok script := by
  have hname : Mode.ofName? mode.name = some mode := by cases mode <;> rfl
  have htagFor : options.tagFor mode tag = tag := by
    rw [Options.tagFor, hdefault]
    rfl
  have hmode : mode ≠ .js := by
    rintro rfl
    cases htag
  rw [scriptOf, hname] at h
  split at h
  · next hnone => cases hnone
  · next hjs => exact absurd (Option.some.inj hjs) hmode
  next hsome =>
  cases hsome
  rw [htag] at h
  dsimp only at h
  rw [htagFor] at h
  split at h
  · next htext =>
    cases h
    exact htext
  · cases h
  · cases h

/-! ## Inputs and outputs -/

/-- The holes that embedding adds read alike, and they name and declare nothing. -/
theorem rawHoles_silent (source : List Char) :
    ∀ hole ∈ rawHoles source, ReadsAlike hole ∧ freeNamesOf hole = [] ∧ escapingNamesOf hole = [] := by
  intro hole hhole
  rw [rawHoles] at hhole
  split at hhole
  · rw [List.mem_singleton.mp hhole]
    exact ⟨readsAlike_of_isSelfContained (by decide +kernel) (by decide +kernel), by decide +kernel,
      by decide +kernel⟩
  · cases hhole

/-- The names that a tagged template has as a cell. -/
theorem inputs_tagged {tag body : List Char} {callee : Nat → Node} {holes : List (List Char)}
    {cell : Script.Cell} (htag : ReadsTag tag callee) (hbody : LiteralText holes body)
    (hread : ∀ hole ∈ holes, ReadsAlike hole) (h : parseCell (taggedText tag body) = .ok cell) :
    outputs cell = [] ∧
      inputs cell = (((tag :: holes).flatMap freeNamesOf).filter fun name =>
        !((tag :: holes).flatMap escapingNamesOf).contains name).eraseDups := by
  obtain ⟨ok, hsteps⟩ := exists_steps hbody hread
  obtain ⟨node, htagged, hcell⟩ := parseCell_tagged htag hsteps h
  obtain ⟨parsed, hparsed, hcallee⟩ := htag.parseExpression
  have hnames := freeNames_tagged hparsed (hcallee ▸ alike_enclosed htag body) htagged
  have hdeclarations := hcell.declarations_eq
  rw [if_pos rfl] at hdeclarations
  constructor
  · rw [outputs, distinctNames, hdeclarations]
    rfl
  · rw [inputs, distinctNames, List.map_map, hcell.references_eq, ← hnames]
    congr 2
    funext site
    show nameIn cell.text site.node = nameIn (enclose (taggedText tag body)) site.node
    rw [hcell.text_eq]

/-- The holes of a template as they are embedded. -/
def embeddedHoles (embedding : Embedding) (source : List Char) (content : Content) :
    List (List Char) :=
  content.holes.map (Hole.text source) ++ if embedding = .raw then rawHoles source else []

/-- Embedded content stays between its backticks. -/
theorem literalText_embedded {embedding : Embedding} {source : List Char} {content : Content}
    (hparse : Template.parse source = .ok content)
    (hticks : embedding = .raw → content.TicksEven source) :
    LiteralText (embeddedHoles embedding source content) (embedded embedding source content) := by
  cases embedding with
  | cooked =>
    rw [embeddedHoles, if_neg (by decide), List.append_nil]
    exact literalText_cooked hparse
  | raw =>
    rw [embeddedHoles, if_pos rfl]
    exact literalText_raw hparse (hticks rfl)

/-- Embedding adds no names: those of the embedded holes are those of the holes, for a reading of
names that gives none for the holes that are added. -/
theorem flatMap_embeddedHoles {names : List Char → List String} (embedding : Embedding)
    (source : List Char) (content : Content) (hsilent : ∀ hole ∈ rawHoles source, names hole = []) :
    (embeddedHoles embedding source content).flatMap names =
      content.holes.flatMap fun hole => names (hole.text source) := by
  have hadded : (if embedding = .raw then rawHoles source else []).flatMap names = [] := by
    rw [List.flatMap_eq_nil_iff]
    intro hole hhole
    split at hhole
    · exact hsilent hole hhole
    · cases hhole
  rw [embeddedHoles, List.flatMap_append, hadded, List.append_nil, List.flatMap_map]

/-- The embedded holes read alike if those of the template are self-contained. -/
theorem readsAlike_embeddedHoles {embedding : Embedding} {source : List Char} {content : Content}
    (hparse : Template.parse source = .ok content)
    (h : ∀ hole ∈ content.holes, isSelfContained (hole.text source) = true) :
    ∀ hole ∈ embeddedHoles embedding source content, ReadsAlike hole := by
  intro hole hhole
  rw [embeddedHoles, List.mem_append] at hhole
  rcases hhole with hhole | hhole
  · obtain ⟨own, hown, rfl⟩ := List.mem_map.mp hhole
    exact readsAlike_of_isSelfContained ((parts_of_parse hparse).complete own hown) (h own hown)
  · split at hhole
    · exact (rawHoles_silent source hole hhole).1
    · cases hhole

/-- An accepted template cell is an accepted script: the tag on the embedded content. -/
theorem transpileScript_of_template {source : String} {mode : Mode} {tag : String}
    {options : Options} {function : CellFunction} (htag : mode.tag? = some tag)
    (hdefault : options.tags.lookup mode.name = none) (hsource : source.toList ≠ [])
    (h : NotebookCell.transpile source mode.name options = .ok function) :
    ∃ content, Template.parse source.toList = .ok content ∧
      transpileScript (taggedText tag.toList (embedded mode.embedding source.toList content)) options =
        .ok function := by
  have hmode : ¬ (mode.name == Mode.ojs.name) = true := by
    cases mode <;> cases htag <;> decide
  rw [NotebookCell.transpile, if_neg hmode] at h
  simp only [bind, Except.bind] at h
  split at h
  · cases h
  next script hscript =>
  obtain ⟨content, hparse, rfl⟩ := transpile_eq_ok hsource (scriptOf_template htag hdefault hscript)
  refine ⟨content, hparse, ?_⟩
  rw [taggedText, ← h, List.append_assoc, List.append_assoc, List.singleton_append]

/-- Literal text never becomes code. A template cell with the usual tag of its mode that is accepted
and not empty has no outputs, and its inputs are the free names of the tag and then those of each hole,
read on its own, each name once and without the names that escape from a hole. This is so if each hole
is self-contained, and if in a raw mode no backtick of the literal text stands behind an odd run of
backslashes. -/
theorem inputs_of_template {source : String} {mode : Mode} {tag : String} {options : Options}
    {function : CellFunction} (htag : mode.tag? = some tag)
    (hdefault : options.tags.lookup mode.name = none) (hsource : source.toList ≠ [])
    (h : NotebookCell.transpile source mode.name options = .ok function) :
    ∃ content, Template.parse source.toList = .ok content ∧
      ((mode.embedding = .raw → content.TicksEven source.toList) →
        (∀ hole ∈ content.holes, isSelfContained (hole.text source.toList) = true) →
        function.outputs = [] ∧
          function.inputs = ((freeNamesOf tag.toList ++
              content.holes.flatMap fun hole => freeNamesOf (hole.text source.toList)).filter fun name =>
            !(content.holes.flatMap fun hole =>
              escapingNamesOf (hole.text source.toList)).contains name).eraseDups) := by
  obtain ⟨content, hparse, hfunction⟩ := transpileScript_of_template htag hdefault hsource h
  refine ⟨content, hparse, fun hticks hself => ?_⟩
  obtain ⟨callee, hcallee⟩ := readsTag_of_mode htag
  obtain ⟨cell, -, hcell, -, -, -, hinputs, houtputs⟩ := transpileScript_eq_ok hfunction
  obtain ⟨hnone, hnames⟩ := inputs_tagged hcallee (literalText_embedded hparse hticks)
    (readsAlike_embeddedHoles hparse hself) hcell
  have hsilent := rawHoles_silent source.toList
  refine ⟨houtputs.trans hnone, ?_⟩
  rw [hinputs, hnames, List.flatMap_cons, List.flatMap_cons, escapingNamesOf_tag htag, List.nil_append,
    flatMap_embeddedHoles _ _ _ fun hole hhole => (hsilent hole hhole).2.1,
    flatMap_embeddedHoles _ _ _ fun hole hhole => (hsilent hole hhole).2.2]

/-- A cell with backticks, a run of backslashes before a hole, a name in its literal text and a
backslash at its end. -/
theorem inputs_of_template_page :
    let source := "A \x60tick\x60, $\x7bx\x7d and \\\\$\x7bplot(x, d.sum)\x7d, y; \\"
    ∃ function, NotebookCell.transpile source Mode.md.name {} = .ok function ∧
      function.outputs = [] ∧ function.inputs = ["md", "x", "plot", "d"] := by
  intro source
  let content : Content :=
    ⟨[⟨0, 10, false⟩, ⟨14, 21, false⟩, ⟨38, 44, true⟩], [⟨12, 13⟩, ⟨23, 37⟩]⟩
  have haccepted : (NotebookCell.transpile source Mode.md.name {}).toOption.isSome = true := by
    decide +kernel
  have hcontent : (Template.parse source.toList).toOption = some content := by decide +kernel
  have hticks : content.TicksEven source.toList := by decide +kernel
  have hself : ∀ hole ∈ content.holes, isSelfContained (hole.text source.toList) = true := by
    decide +kernel
  obtain ⟨function, hfunction⟩ := Option.isSome_iff_exists.mp haccepted
  have hok := eq_ok_of_toOption hfunction
  obtain ⟨read, hparse, hnames⟩ := inputs_of_template rfl rfl (by decide) hok
  obtain rfl : content = read := Except.ok.inj ((eq_ok_of_toOption hcontent).symm.trans hparse)
  obtain ⟨houtputs, hinputs⟩ := hnames (fun _ => hticks) hself
  refine ⟨function, hok, houtputs, hinputs.trans ?_⟩
  decide +kernel

-- The backtick ends the literal, and `x` behind it is code.
example : (NotebookCell.transpile "\\\x60+x//" Mode.md.name {}).toOption.map CellFunction.inputs =
    some ["md", "x"] := by decide +kernel

-- On its own the hole is the regular expression `/*x/`, but here its comment goes on up to `*/`.
example : (NotebookCell.transpile "$\x7b/*x/\x7d */ y\x7d" Mode.tex.name {}).toOption.map
    CellFunction.inputs = some ["tex", "y"] := by decide +kernel

-- The second hole has `x` free, but the first one declares it for the whole cell.
example : (NotebookCell.transpile "$\x7bclass\x7bstatic\x7bvar x\x7d\x7d\x7d$\x7bx\x7d"
    Mode.tex.name {}).toOption.map CellFunction.inputs = some ["tex"] := by decide +kernel

end NotebookCell
