import NotebookCell.Proofs.Body.Emission
import NotebookCell.Proofs.Body.Prelude
import NotebookCell.Proofs.Reading.Place

/-!
# What the imports of a cell bind

What the import statements of a program declare is told by their trees (`declaredImports`), and what
the statement in place of them binds is told by its text (`readPrelude`).

`prelude_binds_imports`: the two agree name by name, except that a default name beside a namespace is
bound to nothing.
-/

namespace NotebookCell.Body

open NotebookCell.Tree NotebookCell.Text NotebookCell.Editing NotebookCell.Script NotebookCell.Scope

/-! ## Declared names -/

section
variable (name : Node → String)

/-- The text of a child in a given role. -/
def childName (node : Node) (field : Field) : List Char :=
  (node.child? field).elim [] fun child => (name child).toList

/-- The name that an import specifier introduces, and what it stands for. -/
def specifierExport? (specifier : Node) : Option (Node × Export) :=
  (specifierLocal? specifier).map (·, .named (childName name specifier .name))

/-- The names that a part of an import clause introduces, and what they stand for. -/
def partExports (part : Node) : List (Node × Export) :=
  match part.kind with
  | .identifier => [(part, .named "default".toList)]
  | .namespaceImport => (part.namedChildren.filter (·.kind == .identifier)).map (·, .whole)
  | .namedImports => part.namedChildren.filterMap (specifierExport? name)
  | _ => []

/-- The names that an import statement introduces, and what they stand for. -/
def statementExports (statement : Node) : List (Node × Export) :=
  (statement.namedChildren.filter (·.kind == .importClause)).flatMap fun clause =>
    clause.namedChildren.flatMap (partExports name)

/-- The module that an import statement names. -/
def originOf (resolve : Bool) (statement : Node) : Origin :=
  let specifier := childName name statement .source
  ⟨specifier, resolve && isLocalSpecifier specifier⟩

/-- What an import statement declares. -/
def declaredImports (resolve : Bool) (statement : Node) : List Import :=
  (statementExports name statement).map fun (id, exported) =>
    ⟨(name id).toList, exported, originOf name resolve statement⟩

end

/-- What is left of the imports of one statement: where a name stands for the whole module, no other
name is bound. -/
def boundImports (imports : List Import) : List Import :=
  if imports.any (·.exported == .whole) then imports.filter (·.exported == .whole) else imports

/-! ## Import statements -/

section
variable {source : List Char} {node : Node}

theorem textIn_of_lexeme {form : List Char → List Char → Prop} (h : Lexeme form source node) :
    node.textIn (.ofSource source 0) = (nameIn source node).toList := by
  obtain ⟨before, lexeme, behind, rfl, hstart, hstop, -⟩ := h
  have hfirst : (Offsets.ofSource (before ++ (lexeme ++ behind)) 0).char node.start =
      before.length := Offsets.char_ofSource rfl (by omega)
  have hlast : (Offsets.ofSource (before ++ (lexeme ++ behind)) 0).char node.stop =
      (before ++ lexeme).length :=
    Offsets.char_ofSource (List.append_assoc _ _ _).symm (by rw [byteLength_append]; omega)
  rw [nameIn_of_lexeme hstart hstop, String.toList_ofList, Node.textIn, Offsets.slice, hfirst,
    hlast, List.length_append, Nat.add_sub_cancel_left]
  show ((before ++ (lexeme ++ behind)).drop before.length).take lexeme.length = lexeme
  rw [List.drop_left, List.take_left]

theorem isWord_of_wordAt (h : WordAt source node) : IsWord (nameIn source node).toList := by
  obtain ⟨before, lexeme, behind, rfl, hstart, hstop, hne, hword⟩ := h
  rw [nameIn_of_lexeme hstart hstop, String.toList_ofList]
  exact ⟨hne, behind, hword⟩

theorem isQuoted_of_stringAt (h : StringAt source node) : IsQuoted (nameIn source node).toList := by
  obtain ⟨before, lexeme, behind, rfl, hstart, hstop, pos, string, stop, hstring⟩ := h
  rw [nameIn_of_lexeme hstart hstop, String.toList_ofList]
  exact ⟨behind, pos, string, stop, hstring⟩

theorem isWord_default : IsWord "default".toList := ⟨by decide, [], by decide⟩

theorem isKey_of_isExportedName (h : IsExportedName source node) :
    node.textIn (.ofSource source 0) = (nameIn source node).toList ∧
      (IsWord (nameIn source node).toList ∨ IsQuoted (nameIn source node).toList) := by
  rcases h with ⟨-, hword⟩ | ⟨-, hstring⟩ | ⟨-, hdefault⟩
  · exact ⟨textIn_of_lexeme hword, .inl (isWord_of_wordAt hword)⟩
  · exact ⟨textIn_of_lexeme hstring, .inr (isQuoted_of_stringAt hstring)⟩
  · refine ⟨textIn_of_lexeme hdefault, .inl ?_⟩
    obtain ⟨before, lexeme, behind, rfl, hstart, hstop, rfl⟩ := hdefault
    rw [nameIn_of_lexeme hstart hstop, String.toList_ofList]
    exact isWord_default

/-- A name and what it stands for. -/
def binding (name : Node → String) (found : Node × Export) : List Char × Export :=
  ((name found.1).toList, found.2)

theorem wordAt_of_isExportedName (h : IsExportedName source node) (hkind : node.kind = .identifier) :
    WordAt source node := by
  rcases h with ⟨-, hword⟩ | ⟨hstring, -⟩ | ⟨hdefault, -⟩
  · exact hword
  · cases hkind.symm.trans hstring
  · cases hkind.symm.trans hdefault

theorem ReadsBefore.renamed {key id : List Char} (hkey : IsWord key ∨ IsQuoted key)
    (hid : IsWord id) :
    ReadsBefore patternMember endsMember (if id == key then key else key ++ ": ".toList ++ id)
      (id, .named key) := by
  split
  · next heq =>
    obtain rfl := beq_iff_eq.mp heq
    exact hid.member
  · exact hkey.elim (·.member_renamed hid) (·.member_renamed hid)

/-- The first child in a role, behind comments. -/
theorem find?_of_gap {gap rest : List Node} (hgap : ∀ remark ∈ gap, IsGap remark) (field : Field) :
    (gap ++ rest).find? (·.field == some field) = rest.find? (·.field == some field) := by
  have hnone : gap.find? (·.field == some field) = none := by
    rw [List.find?_eq_none]
    intro remark hremark
    rw [(hgap remark hremark).2]
    exact Bool.false_ne_true
  rw [List.find?_append, hnone, Option.none_or]

theorem childName_of_child? {name : Node → String} {field : Field} {child : Node}
    (h : node.child? field = some child) : childName name node field = (name child).toList := by
  rw [childName, h]
  rfl

theorem readsBefore_specifier (h : IsSpecifier source node) :
    ∃ member found, specifierMember (nameIn source) (.ofSource source 0) node = .ok member ∧
      specifierExport? (nameIn source) node = some found ∧ found.2 ≠ .whole ∧
      ReadsBefore patternMember endsMember member (binding (nameIn source) found) := by
  obtain ⟨hkind, -, -, imported, rest, hchildren, hfield, hexported, hrest⟩ := h
  obtain ⟨htext, hkey⟩ := isKey_of_isExportedName hexported
  have hname : node.child? .name = some imported := by
    rw [Node.child?, hchildren, List.find?_cons_of_pos (by rw [hfield]; rfl)]
  have hlocal : node.child? .localName = rest.find? (·.field == some .localName) := by
    rw [Node.child?, hchildren, List.find?_cons_of_neg (by rw [hfield]; exact Bool.false_ne_true)]
  rcases hrest with ⟨rfl, hidentifier⟩ | ⟨gap, id, rfl, hgap, hid, hidentifier, -, hword⟩
  · rw [List.find?_nil] at hlocal
    refine ⟨(nameIn source imported).toList, (imported, .named (nameIn source imported).toList),
      ?_, ?_, Export.noConfusion, ?_⟩
    · rw [specifierMember, hname]
      dsimp only
      rw [hlocal, htext]
    · rw [specifierExport?, specifierLocal?, hkind, hlocal, hname, childName_of_child? hname]
      simp [Option.filter, hidentifier]
    · exact (isWord_of_wordAt (wordAt_of_isExportedName hexported hidentifier)).member
  · rw [find?_of_gap hgap, List.find?_cons_of_pos (by rw [hid]; rfl)] at hlocal
    refine ⟨_, (id, .named (nameIn source imported).toList), ?_, ?_, Export.noConfusion,
      ReadsBefore.renamed hkey (isWord_of_wordAt hword)⟩
    · rw [specifierMember, hname]
      dsimp only
      rw [hlocal, htext]
    · rw [specifierExport?, specifierLocal?, hkind, hlocal, hname, childName_of_child? hname]
      simp [Option.filter, hidentifier]

theorem kind_ne_of_isGap {kind : Kind} (h : IsGap node) (hkind : kind ≠ .comment)
    (hhtml : kind ≠ .htmlComment) : (node.kind == kind) = false := by
  obtain ⟨hremark, -⟩ := h
  rw [Node.isRemark, Bool.or_eq_true, beq_iff_eq, beq_iff_eq] at hremark
  rw [beq_eq_false_iff_ne]
  rintro rfl
  exact hremark.elim hkind hhtml

/-- Comments add nothing to named imports, and the specifiers are read as they are declared. -/
theorem readsBefore_specifiers {children : List Node}
    (h : ∀ child ∈ children, IsGap child ∨ IsSpecifier source child) :
    ∃ members, ((children.filter (·.named)).filter (·.kind == .importSpecifier)).mapM
        (specifierMember (nameIn source) (.ofSource source 0)) = .ok members ∧
      (∀ found ∈ (children.filter (·.named)).filterMap (specifierExport? (nameIn source)),
        found.2 ≠ .whole) ∧
      List.Forall₂ (ReadsBefore patternMember endsMember) members
        (((children.filter (·.named)).filterMap (specifierExport? (nameIn source))).map
          (binding (nameIn source))) := by
  induction children with
  | nil => exact ⟨[], rfl, by simp, .nil⟩
  | cons child children ih =>
    obtain ⟨members, hmembers, hwhole, hread⟩ := ih fun node hnode => h node (.tail _ hnode)
    rcases h child (.head _) with hgap | hspecifier
    · have hkind : (child.kind == .importSpecifier) = false :=
        kind_ne_of_isGap hgap Kind.noConfusion Kind.noConfusion
      have hnone : specifierExport? (nameIn source) child = none := by
        rw [specifierExport?, specifierLocal?, bne, hkind]
        rfl
      refine ⟨members, ?_, ?_, ?_⟩
      all_goals
        by_cases hnamed : child.named = true
        · simpa only [List.filter_cons_of_pos hnamed, List.filter_cons, hkind,
            List.filterMap_cons_none hnone, if_neg Bool.false_ne_true]
        · simpa only [List.filter_cons_of_neg hnamed]
    · obtain ⟨member, found, hmember, hfound, hne, hreads⟩ := readsBefore_specifier hspecifier
      have hnamed := hspecifier.2.1
      have hkind := hspecifier.1
      refine ⟨member :: members, ?_, ?_, ?_⟩
      · rw [List.filter_cons_of_pos hnamed, List.filter_cons_of_pos (by rw [hkind]; rfl),
          List.mapM_cons, hmember, hmembers]
        rfl
      · rw [List.filter_cons_of_pos hnamed, List.filterMap_cons_some hfound]
        exact List.forall_mem_cons.mpr ⟨hne, hwhole⟩
      · rw [List.filter_cons_of_pos hnamed, List.filterMap_cons_some hfound, List.map_cons]
        exact .cons hreads hread

/-! ### Clauses -/

/-- Where names stand for the whole module, they are all that is bound. -/
def boundExports (found : List (Node × Export)) : List (Node × Export) :=
  if found.any (·.2 == .whole) then found.filter (·.2 == .whole) else found

theorem boundExports_of_ne {found : List (Node × Export)} (h : ∀ pair ∈ found, pair.2 ≠ .whole) :
    boundExports found = found := by
  rw [boundExports, if_neg]
  rw [Bool.not_eq_true, List.any_eq_false]
  intro pair hpair
  rw [beq_iff_eq]
  exact h pair hpair

/-- The pattern of an import clause. -/
def clausePattern (name : Node → String) (offsets : Offsets) (clause : Node) :
    Except ImportDefect (List Char) :=
  match clause.namedChildren.find? (·.kind == .namespaceImport) with
  | some part =>
    match part.namedChildren.find? (·.kind == .identifier) with
    | some id => .ok (name id).toList
    | none => .error .noNamespaceName
  | none => do
    let members ← clause.namedChildren.mapM (clauseMembers name offsets)
    return '\x7b' :: commaSeparated members.flatten ++ ['\x7d']

/-- A part of an import clause that is no namespace. -/
def IsPlainPart (source : List Char) (part : Node) : Prop :=
  IsGap part ∨ IsLocalName source part ∨
    part.kind = .namedImports ∧ ∀ child ∈ part.children, IsGap child ∨ IsSpecifier source child

/-- A part of an import clause that names all of a module. -/
def IsNamespace (source : List Char) (part : Node) : Prop :=
  part.named = true ∧ part.kind = .namespaceImport ∧ ∃ gap id, part.children = gap ++ [id] ∧
    (∀ remark ∈ gap, IsGap remark) ∧ IsLocalName source id

/-- A namespace stands at the end of a clause, and only a default name can be in front of it. -/
theorem parts_of_isImportClause (h : IsImportClause source node) :
    ∃ front last, node.children = front ++ last ∧ (∀ part ∈ front, IsPlainPart source part) ∧
      (last = [] ∨ ∃ part, last = [part] ∧ IsNamespace source part ∧
        ∀ part ∈ front, IsGap part ∨ IsLocalName source part) := by
  obtain ⟨-, -, -, hparts⟩ := h
  have hnames : ∀ {names front}, node.children = front ++ [names] →
      (∀ part ∈ front, IsGap part ∨ IsLocalName source part) → IsImportedNames source names →
      ∃ front last, node.children = front ++ last ∧ (∀ part ∈ front, IsPlainPart source part) ∧
        (last = [] ∨ ∃ part, last = [part] ∧ IsNamespace source part ∧
          ∀ part ∈ front, IsGap part ∨ IsLocalName source part) := by
    rintro names front hchildren hfront ⟨hnamed, -, hnamespace | hspecifiers⟩
    · obtain ⟨hkind, gap, id, hgap⟩ := hnamespace
      refine ⟨front, [names], hchildren, fun part hpart => (hfront part hpart).imp_right .inl,
        .inr ⟨names, rfl, ?_, hfront⟩⟩
      exact ⟨hnamed, hkind, gap, id, hgap.1, hgap.2.1, hgap.2.2.2⟩
    · refine ⟨front ++ [names], [], by rw [List.append_nil, hchildren], ?_, .inl rfl⟩
      rw [List.forall_mem_append]
      exact ⟨fun part hpart => (hfront part hpart).imp_right .inl,
        List.forall_mem_singleton.mpr (.inr (.inr hspecifiers))⟩
  rcases hparts with ⟨names, hchildren, himported⟩ | ⟨id, hchildren, -, hid⟩ |
    ⟨id, gap, names, hchildren, -, hid, hgap, himported⟩
  · exact hnames hchildren (List.forall_mem_nil _) himported
  · exact ⟨[id], [], hchildren, List.forall_mem_singleton.mpr (.inr (.inl hid)), .inl rfl⟩
  · refine hnames hchildren ?_ himported
    rw [List.forall_mem_append, List.forall_mem_singleton]
    exact ⟨.inr hid, fun remark hremark => .inl (hgap remark hremark)⟩

theorem readsBefore_part {part : Node} (h : IsPlainPart source part) :
    ∃ members, clauseMembers (nameIn source) (.ofSource source 0) part = .ok members ∧
      (∀ found ∈ partExports (nameIn source) part, found.2 ≠ .whole) ∧
      List.Forall₂ (ReadsBefore patternMember endsMember) members
        ((partExports (nameIn source) part).map (binding (nameIn source))) := by
  rcases h with hgap | ⟨hkind, -, hword⟩ | ⟨hkind, hchildren⟩
  · have hkind : part.kind = .comment ∨ part.kind = .htmlComment := by
      simpa [Node.isRemark] using hgap.1
    refine ⟨[], ?_, ?_, ?_⟩
    all_goals rcases hkind with hkind | hkind <;> simp [clauseMembers, partExports, hkind]
  · have hmember : ("default: " ++ nameIn source part).toList =
        "default".toList ++ ": ".toList ++ (nameIn source part).toList := by
      rw [String.toList_append]
      rfl
    refine ⟨[("default: " ++ nameIn source part).toList], by rw [clauseMembers, hkind], ?_, ?_⟩
    · simp [partExports, hkind]
    · rw [partExports, hkind, hmember]
      exact .cons (isWord_default.member_renamed (isWord_of_wordAt hword)) .nil
  · rw [clauseMembers, partExports, hkind]
    exact readsBefore_specifiers hchildren

theorem readsBefore_parts {parts : List Node} (h : ∀ part ∈ parts, IsPlainPart source part) :
    ∃ members, (parts.filter (·.named)).mapM
        (clauseMembers (nameIn source) (.ofSource source 0)) = .ok members ∧
      (∀ found ∈ (parts.filter (·.named)).flatMap (partExports (nameIn source)),
        found.2 ≠ .whole) ∧
      List.Forall₂ (ReadsBefore patternMember endsMember) members.flatten
        (((parts.filter (·.named)).flatMap (partExports (nameIn source))).map
          (binding (nameIn source))) := by
  induction parts with
  | nil => exact ⟨[], rfl, by simp, .nil⟩
  | cons part parts ih =>
    obtain ⟨members, hmembers, hwhole, hread⟩ := ih fun node hnode => h node (.tail _ hnode)
    obtain ⟨own, hown, hownWhole, hownRead⟩ := readsBefore_part (h part (.head _))
    by_cases hnamed : part.named = true
    · refine ⟨own :: members, ?_, ?_, ?_⟩
      · rw [List.filter_cons_of_pos hnamed, List.mapM_cons, hown, hmembers]
        rfl
      · rw [List.filter_cons_of_pos hnamed, List.flatMap_cons, List.forall_mem_append]
        exact ⟨hownWhole, hwhole⟩
      · rw [List.filter_cons_of_pos hnamed, List.flatMap_cons, List.map_append, List.flatten_cons]
        exact List.rel_append hownRead hread
    · rw [List.filter_cons_of_neg hnamed]
      exact ⟨members, hmembers, hwhole, hread⟩

theorem kind_ne_of_isPlainPart {part : Node} (h : IsPlainPart source part) :
    (part.kind == .namespaceImport) = false := by
  rcases h with hgap | ⟨hkind, -⟩ | ⟨hkind, -⟩
  · exact kind_ne_of_isGap hgap Kind.noConfusion Kind.noConfusion
  · rw [hkind]
    rfl
  · rw [hkind]
    rfl

theorem find?_namespace {parts rest : List Node} (h : ∀ part ∈ parts, IsPlainPart source part) :
    (parts.filter (·.named) ++ rest).find? (·.kind == .namespaceImport) =
      rest.find? (·.kind == .namespaceImport) := by
  have hnone : (parts.filter (·.named)).find? (·.kind == .namespaceImport) = none := by
    rw [List.find?_eq_none]
    intro part hpart
    rw [kind_ne_of_isPlainPart (h part (List.mem_of_mem_filter hpart))]
    exact Bool.false_ne_true
  rw [List.find?_append, hnone, Option.none_or]

/-- The name of a namespace is its only identifier. -/
theorem identifiers_of_isNamespace {part : Node} (h : IsNamespace source part) :
    ∃ id, part.namedChildren.filter (·.kind == .identifier) = [id] ∧ WordAt source id := by
  obtain ⟨-, -, gap, id, hchildren, hgap, hkind, hnamed, hword⟩ := h
  refine ⟨id, ?_, hword⟩
  have hnone : (gap.filter (·.named)).filter (·.kind == .identifier) = [] := by
    rw [List.filter_eq_nil_iff]
    intro remark hremark
    rw [kind_ne_of_isGap (hgap remark (List.mem_of_mem_filter hremark)) Kind.noConfusion
      Kind.noConfusion]
    exact Bool.false_ne_true
  rw [Node.namedChildren, hchildren, List.filter_append, List.filter_append, hnone, List.nil_append,
    List.filter_cons_of_pos hnamed, List.filter_nil, List.filter_cons_of_pos (by rw [hkind]; rfl),
    List.filter_nil]

theorem partExports_of_isNamespace {part id : Node} (h : IsNamespace source part)
    (hid : part.namedChildren.filter (·.kind == .identifier) = [id]) :
    partExports (nameIn source) part = [(id, .whole)] := by
  rw [partExports, h.2.1, hid]
  rfl

theorem boundExports_append_whole {found : List (Node × Export)}
    (h : ∀ pair ∈ found, pair.2 ≠ .whole) (id : Node) :
    boundExports (found ++ [(id, .whole)]) = [(id, .whole)] := by
  have hnone : found.filter (·.2 == .whole) = [] := by
    rw [List.filter_eq_nil_iff]
    intro pair hpair
    rw [beq_iff_eq]
    exact h pair hpair
  rw [boundExports, if_pos (by simp), List.filter_append, hnone]
  rfl

/-- A clause has a pattern that is read as what the clause declares. -/
theorem readsBefore_clause (h : IsImportClause source node) :
    ∃ pattern, clausePattern (nameIn source) (.ofSource source 0) node = .ok pattern ∧
      ReadsBefore modulePattern endsPattern pattern
        ((boundExports (node.namedChildren.flatMap (partExports (nameIn source)))).map
          (binding (nameIn source))) := by
  obtain ⟨front, last, hchildren, hfront, hlast⟩ := parts_of_isImportClause h
  obtain ⟨members, hmembers, hwhole, hread⟩ := readsBefore_parts hfront
  rw [clausePattern, Node.namedChildren, hchildren, List.filter_append, find?_namespace hfront]
  rcases hlast with rfl | ⟨part, rfl, hpart, -⟩
  · rw [List.filter_nil, List.append_nil, List.find?_nil, boundExports_of_ne hwhole]
    dsimp only
    rw [hmembers]
    exact ⟨_, rfl, readsBefore_members hread⟩
  · obtain ⟨id, hidentifiers, hword⟩ := identifiers_of_isNamespace hpart
    have hexports := partExports_of_isNamespace hpart hidentifiers
    rw [List.filter_cons_of_pos hpart.1, List.filter_nil,
      List.find?_cons_of_pos (by rw [hpart.2.1]; rfl)]
    dsimp only
    rw [← List.head?_filter, hidentifiers]
    refine ⟨(nameIn source id).toList, rfl, ?_⟩
    rw [List.flatMap_append, List.flatMap_singleton, hexports, boundExports_append_whole hwhole]
    exact (isWord_of_wordAt hword).namespace

theorem default_of_mem_partExports {part : Node} (h : IsGap part ∨ IsLocalName source part)
    {found : Node × Export} (hfound : found ∈ partExports (nameIn source) part) :
    found.2 = .named "default".toList := by
  rw [partExports] at hfound
  rcases h with hgap | ⟨hkind, -⟩
  · have hkind : part.kind = .comment ∨ part.kind = .htmlComment := by
      simpa [Node.isRemark] using hgap.1
    rcases hkind with hkind | hkind <;> rw [hkind] at hfound <;> cases hfound
  · rw [hkind] at hfound
    rw [List.mem_singleton.mp hfound]

/-- What a clause declares and is not bound is a default. -/
theorem default_or_bound_of_clause (h : IsImportClause source node) {found : Node × Export}
    (hfound : found ∈ node.namedChildren.flatMap (partExports (nameIn source))) :
    found.2 = .named "default".toList ∨
      found ∈ boundExports (node.namedChildren.flatMap (partExports (nameIn source))) := by
  obtain ⟨front, last, hchildren, hfront, hlast⟩ := parts_of_isImportClause h
  obtain ⟨-, -, hwhole, -⟩ := readsBefore_parts hfront
  rw [Node.namedChildren, hchildren, List.filter_append, List.flatMap_append] at hfound ⊢
  rcases hlast with rfl | ⟨part, rfl, hpart, hdefaults⟩
  · rw [List.filter_nil, List.flatMap_nil, List.append_nil] at hfound ⊢
    rw [boundExports_of_ne hwhole]
    exact .inr hfound
  · obtain ⟨id, hidentifiers, -⟩ := identifiers_of_isNamespace hpart
    rw [List.filter_cons_of_pos hpart.1, List.filter_nil, List.flatMap_singleton,
      partExports_of_isNamespace hpart hidentifiers] at hfound ⊢
    rw [boundExports_append_whole hwhole]
    refine (List.mem_append.mp hfound).imp_left fun hdefault => ?_
    obtain ⟨part, hmem, hexport⟩ := List.mem_flatMap.mp hdefault
    exact default_of_mem_partExports (hdefaults part (List.mem_of_mem_filter hmem)) hexport

/-! ### Statements -/

theorem filter_importClause_of_ne {nodes : List Node} (h : ∀ node ∈ nodes, node.kind ≠ .importClause) :
    (nodes.filter (·.named)).filter (·.kind == .importClause) = [] := by
  rw [List.filter_eq_nil_iff]
  intro node hnode
  rw [beq_iff_eq]
  exact h node (List.mem_of_mem_filter hnode)

/-- An import statement has at most one clause. -/
theorem importClauses_of_isImport (h : IsImport source node) :
    node.namedChildren.filter (·.kind == .importClause) = [] ∨
      ∃ clause, node.namedChildren.filter (·.kind == .importClause) = [clause] ∧
        IsImportClause source clause := by
  obtain ⟨lead, clause, origin, trail, hchildren, hlead, hclause, horigin, -, -, htrail⟩ := h
  have hgap : ∀ {gap : List Node}, (∀ remark ∈ gap, IsGap remark) →
      (gap.filter (·.named)).filter (·.kind == .importClause) = [] := by
    intro gap hgap
    apply filter_importClause_of_ne
    intro remark hremark
    exact beq_eq_false_iff_ne.mp
      (kind_ne_of_isGap (hgap remark hremark) Kind.noConfusion Kind.noConfusion)
  have horigin' : ([origin].filter (·.named)).filter (·.kind == .importClause) = [] := by
    apply filter_importClause_of_ne
    rw [List.forall_mem_singleton, horigin]
    exact Kind.noConfusion
  have hfilter : node.namedChildren.filter (·.kind == .importClause) =
      (clause.filter (·.named)).filter (·.kind == .importClause) := by
    rw [Node.namedChildren, hchildren]
    simp only [List.filter_append, hgap hlead, horigin', filter_importClause_of_ne htrail,
      List.nil_append, List.append_nil]
  rw [hfilter]
  rcases hclause with rfl | ⟨part, gap, rfl, hpart, hremarks⟩
  · exact .inl rfl
  · refine .inr ⟨part, ?_, hpart⟩
    rw [List.filter_cons_of_pos hpart.2.1, List.filter_cons_of_pos (by rw [hpart.1]; rfl),
      hgap hremarks]

theorem origin_of_isImport (h : IsImport source node) :
    ∃ origin, node.child? .source = some origin ∧ StringAt source origin := by
  obtain ⟨lead, clause, origin, trail, hchildren, hlead, hclause, -, hfield, hstring, -⟩ := h
  refine ⟨origin, ?_, hstring⟩
  have hfound : ([origin] ++ trail).find? (·.field == some .source) = some origin :=
    List.find?_cons_of_pos (by rw [hfield]; rfl)
  have hskip : (clause ++ ([origin] ++ trail)).find? (·.field == some .source) =
      ([origin] ++ trail).find? (·.field == some .source) := by
    rcases hclause with rfl | ⟨part, gap, rfl, hpart, hremarks⟩
    · rfl
    · rw [List.cons_append, List.find?_cons_of_neg (by rw [hpart.2.2.1]; exact Bool.false_ne_true),
        find?_of_gap hremarks]
  rw [Node.child?, hchildren, List.append_assoc, List.append_assoc, find?_of_gap hlead, hskip, hfound]

theorem importPattern_of_clauses {name : Node → String} {offsets : Offsets} :
    importPattern name offsets node =
      match (node.namedChildren.filter (·.kind == .importClause)).head? with
      | none => .ok ['\x7b', '\x7d']
      | some clause => clausePattern name offsets clause := by
  rw [importPattern, List.head?_filter]
  cases node.namedChildren.find? (·.kind == .importClause) with
  | none => rfl
  | some clause =>
    dsimp only
    rw [clausePattern]
    cases clause.namedChildren.find? (·.kind == .namespaceImport) with
    | none => rfl
    | some part =>
      dsimp only
      cases part.namedChildren.find? (·.kind == .identifier) <;> rfl

/-- The names of an import statement, in the form in which they are read back. -/
theorem boundImports_declaredImports (name : Node → String) (resolve : Bool) (statement : Node) :
    boundImports (declaredImports name resolve statement) =
      importsFrom ((boundExports (statementExports name statement)).map (binding name))
        (originOf name resolve statement) := by
  rw [boundImports, boundExports, declaredImports, importsFrom, List.any_map, List.filter_map,
    List.map_map]
  simp only [Function.comp_def]
  split <;> rfl

/-- What is written for an import statement is read as what the statement declares. -/
theorem readsImport_of_isImport (h : IsImport source node) (resolve : Bool) :
    ∃ pattern call value, importPattern (nameIn source) (.ofSource source 0) node = .ok pattern ∧
      importCall (.ofSource source 0) resolve node = .ok call ∧
      ReadsImport (pattern, call) value ∧
      importsFrom value.1 value.2 = boundImports (declaredImports (nameIn source) resolve node) := by
  obtain ⟨origin, horigin, hstring⟩ := origin_of_isImport h
  have hcall : importCall (.ofSource source 0) resolve node =
      .ok ("import(".toList ++ resolveSpecifier resolve (nameIn source origin).toList ++ [')']) := by
    rw [importCall, horigin]
    dsimp only
    rw [textIn_of_lexeme hstring]
  have hvalue : originOf (nameIn source) resolve node = ⟨(nameIn source origin).toList,
      resolve && isLocalSpecifier (nameIn source origin).toList⟩ := by
    rw [originOf, childName_of_child? horigin]
  have hpattern : ∃ pattern, importPattern (nameIn source) (.ofSource source 0) node = .ok pattern ∧
      ReadsBefore modulePattern endsPattern pattern
        ((boundExports (statementExports (nameIn source) node)).map (binding (nameIn source))) := by
    rw [importPattern_of_clauses, statementExports]
    rcases importClauses_of_isImport h with hnone | ⟨clause, hclauses, hclause⟩
    · rw [hnone]
      exact ⟨_, rfl, readsBefore_members .nil⟩
    · rw [hclauses, List.flatMap_singleton]
      exact readsBefore_clause hclause
  obtain ⟨pattern, hpattern, hread⟩ := hpattern
  refine ⟨pattern, _, (_, originOf (nameIn source) resolve node), hpattern, hcall, ⟨hread, ?_⟩, ?_⟩
  · rw [hvalue]
    exact (isQuoted_of_stringAt hstring).yields_call resolve
  · rw [boundImports_declaredImports]

theorem fst_partExports (name : Node → String) (part : Node) :
    (partExports name part).map (·.1) = clauseLocals part := by
  have hspecifier : ∀ specifier, (specifierExport? name specifier).map (·.1) =
      specifierLocal? specifier := by
    intro specifier
    rw [specifierExport?, Option.map_map]
    exact Option.map_id'
  by_cases hidentifier : part.kind = .identifier
  · simp only [partExports, clauseLocals, hidentifier, List.map_cons, List.map_nil]
  by_cases hnamespace : part.kind = .namespaceImport
  · simp only [partExports, clauseLocals, hnamespace, List.map_map]
    exact List.map_id' _
  by_cases hnames : part.kind = .namedImports
  · simp only [partExports, clauseLocals, hnames, List.map_filterMap, hspecifier]
  have hexports : partExports name part = [] := by
    unfold partExports
    split <;> first | contradiction | rfl
  have hlocals : clauseLocals part = [] := by
    unfold clauseLocals
    split <;> first | contradiction | rfl
  rw [hexports, hlocals, List.map_nil]

/-- An import statement declares the names that it introduces. -/
theorem name_declaredImports (name : Node → String) (resolve : Bool) (statement : Node) :
    (declaredImports name resolve statement).map (·.name) =
      (importLocals statement).map fun id => (name id).toList := by
  rw [declaredImports, statementExports, importLocals, List.map_map, List.map_flatMap,
    List.map_flatMap]
  congr 1
  funext clause
  rw [List.map_flatMap, List.map_flatMap]
  congr 1
  funext part
  rw [← fst_partExports name part, List.map_map]
  rfl

/-- What an import statement declares and is not bound is a default. -/
theorem default_or_bound (h : IsImport source node) (resolve : Bool) {declared : Import}
    (hdeclared : declared ∈ declaredImports (nameIn source) resolve node) :
    declared.exported = .named "default".toList ∨
      declared ∈ boundImports (declaredImports (nameIn source) resolve node) := by
  obtain ⟨found, hfound, rfl⟩ := List.mem_map.mp hdeclared
  have hexport : found.2 = .named "default".toList ∨
      found ∈ boundExports (statementExports (nameIn source) node) := by
    rw [statementExports] at hfound ⊢
    rcases importClauses_of_isImport h with hnone | ⟨clause, hclauses, hclause⟩
    · rw [hnone] at hfound
      cases hfound
    · rw [hclauses, List.flatMap_singleton] at hfound ⊢
      exact default_or_bound_of_clause hclause hfound
  refine hexport.imp_right fun hbound => ?_
  rw [boundImports_declaredImports, importsFrom, List.map_map]
  exact List.mem_map_of_mem hbound

/-! ### Lists of statements -/

theorem planImports_of_ok {name : Node → String} {offsets : Offsets} {resolve : Bool}
    {found : List (List Char × List Char)} {statements : List Node}
    {imports : List (List Char × List Char)}
    (h : List.Forall₂ (fun statement texts => importPattern name offsets statement = .ok texts.1 ∧
      importCall offsets resolve statement = .ok texts.2) statements imports)
    (hne : found ++ imports ≠ []) :
    planImports name offsets resolve found statements =
      ⟨statements.map (removal offsets) ++ [.insertLeft 0 (prelude (found ++ imports))], none⟩ := by
  induction h generalizing found with
  | nil =>
    rw [planImports, if_neg (by simpa using hne), List.append_nil]
    rfl
  | @cons statement texts statements imports htexts h ih =>
    have hne' : (found ++ [texts]) ++ imports ≠ [] := by simp
    have hrest := ih hne'
    rw [planImports, htexts.1, htexts.2]
    dsimp only
    rw [hrest, List.append_assoc]
    rfl

theorem readsImports_of_isImport {statements : List Node}
    (h : ∀ statement ∈ statements, IsImport source statement) (resolve : Bool) :
    ∃ imports values,
      List.Forall₂ (fun statement texts =>
        importPattern (nameIn source) (.ofSource source 0) statement = .ok texts.1 ∧
          importCall (.ofSource source 0) resolve statement = .ok texts.2) statements imports ∧
      List.Forall₂ ReadsImport imports values ∧
      (values.flatMap fun value => importsFrom value.1 value.2) = statements.flatMap fun statement =>
        boundImports (declaredImports (nameIn source) resolve statement) := by
  induction statements with
  | nil => exact ⟨[], [], .nil, .nil, rfl⟩
  | cons statement statements ih =>
    obtain ⟨imports, values, hplanned, hread, hvalues⟩ := ih fun node hnode => h node (.tail _ hnode)
    obtain ⟨pattern, call, value, hpattern, hcall, hown, hvalue⟩ :=
      readsImport_of_isImport (h statement (.head _)) resolve
    refine ⟨(pattern, call) :: imports, value :: values, .cons ⟨hpattern, hcall⟩ hplanned,
      .cons hown hread, ?_⟩
    rw [List.flatMap_cons, List.flatMap_cons, hvalue, hvalues]

end

/-! ## Cells -/

/-- The import statements of a program are well formed. -/
theorem isImport_of_mem_topImports {source : List Char} {program statement : Node}
    (hsound : program.Sound source) (h : statement ∈ topImports program) :
    IsImport source statement := by
  rw [topImports, List.mem_filter, beq_iff_eq] at h
  have hshape := (hsound.children _ (List.mem_of_mem_filter h.1)).proper.2.2.2
  rw [h.2] at hshape
  exact hshape

end NotebookCell.Body

namespace NotebookCell

open NotebookCell.Tree NotebookCell.Editing NotebookCell.Body

/-- The import statements of a program, in any number, are replaced by one statement in front of it.
That statement binds the names of the import statements, one for one, to the exports and the modules
they stand for, and nothing else; but a default name beside a namespace is not bound. -/
theorem prelude_binds_imports {source : List Char} {cell : Script.Cell}
    (hcell : Script.parseCell source = .ok cell) (hprogram : cell.isExpression = false)
    (resolve : Bool) {statements : List Node} (hne : statements ≠ [])
    (hstatements : ∀ statement ∈ statements, statement ∈ topImports cell.body) :
    (∃ text, planImports cell.name cell.offsets resolve [] statements =
        ⟨statements.map (removal cell.offsets) ++ [.insertLeft 0 text], none⟩ ∧
      ∀ rest pos, ∃ stop, readPrelude ⟨text ++ rest, pos⟩ =
        some (statements.flatMap fun statement =>
          boundImports (declaredImports cell.name resolve statement), ⟨rest, stop⟩)) ∧
    ∀ statement ∈ statements,
      (declaredImports cell.name resolve statement).map (·.name) =
        (Scope.importLocals statement).map (fun id => (cell.name id).toList) ∧
      ∀ declared ∈ declaredImports cell.name resolve statement,
        declared.exported = .named "default".toList ∨
          declared ∈ boundImports (declaredImports cell.name resolve statement) := by
  obtain ⟨_, -, hexpression⟩ | ⟨program, -, hparsed, hanalysed⟩ := Script.parseCell_eq_ok hcell
  · cases hprogram.symm.trans hexpression.isExpression_eq
  have hname : cell.name = Script.nameIn source := by
    funext node
    rw [Script.Cell.name, hanalysed.text_eq]
  rw [hname, hanalysed.offsets_eq]
  have himports : ∀ statement ∈ statements, Script.IsImport source statement := by
    intro statement hmem
    have htop := hstatements statement hmem
    rw [hanalysed.body_eq] at htop
    exact isImport_of_mem_topImports
      (Script.sound_of_parse? (Script.cellProgram_eq_ok hparsed).1) htop
  refine ⟨?_, fun statement hmem => ⟨name_declaredImports _ resolve statement,
    fun _ => default_or_bound (himports statement hmem) resolve⟩⟩
  obtain ⟨imports, values, hplanned, hread, hvalues⟩ := readsImports_of_isImport himports resolve
  refine ⟨prelude imports, planImports_of_ok hplanned ?_, ?_⟩
  · rintro rfl
    cases hplanned
    exact hne rfl
  · rw [← hvalues]
    refine yields_prelude hread ?_
    rintro rfl
    cases hplanned
    exact hne rfl

/-- Named, default and namespace imports of two modules; of the second only the namespace is bound. -/
theorem prelude_binds_imports_mixed :
    let source := "import d, \x7ba as b, 'x y' as c\x7d from \"m\"\nimport e, * as ns from './n'\nd(ns)".toList
    ∃ cell text, Script.parseCell source = .ok cell ∧
      planImports cell.name cell.offsets true [] (topImports cell.body) =
        ⟨(topImports cell.body).map (removal cell.offsets) ++ [.insertLeft 0 text], none⟩ ∧
      ∃ stop, readPrelude ⟨text, 0⟩ = some
        ([⟨"d".toList, .named "default".toList, ⟨"\"m\"".toList, false⟩⟩,
          ⟨"b".toList, .named "a".toList, ⟨"\"m\"".toList, false⟩⟩,
          ⟨"c".toList, .named "'x y'".toList, ⟨"\"m\"".toList, false⟩⟩,
          ⟨"ns".toList, .whole, ⟨"'./n'".toList, true⟩⟩], ⟨[], stop⟩) := by
  intro source
  have hfacts : (Script.parseCell source).toOption.map (fun cell =>
      (cell.isExpression, (topImports cell.body).isEmpty,
        (topImports cell.body).flatMap fun statement =>
          boundImports (declaredImports cell.name true statement))) =
      some (false, false,
        [⟨"d".toList, .named "default".toList, ⟨"\"m\"".toList, false⟩⟩,
          ⟨"b".toList, .named "a".toList, ⟨"\"m\"".toList, false⟩⟩,
          ⟨"c".toList, .named "'x y'".toList, ⟨"\"m\"".toList, false⟩⟩,
          ⟨"ns".toList, .whole, ⟨"'./n'".toList, true⟩⟩]) := by decide +kernel
  obtain ⟨cell, hoption, hcellFacts⟩ := Option.map_eq_some_iff.mp hfacts
  have hcell := eq_ok_of_toOption hoption
  obtain ⟨hprogram, hnonempty, hbound⟩ : _ ∧ _ ∧ _ := by simpa only [Prod.mk.injEq] using hcellFacts
  obtain ⟨⟨text, hplan, hread⟩, -⟩ := prelude_binds_imports hcell hprogram true
    (List.isEmpty_eq_false_iff.mp hnonempty) fun _ h => h
  obtain ⟨stop, hstop⟩ := hread [] 0
  rw [List.append_nil, hbound] at hstop
  exact ⟨cell, text, hcell, hplan, stop, hstop⟩

end NotebookCell
