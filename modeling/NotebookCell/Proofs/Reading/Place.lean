import NotebookCell.Proofs.Reading.Program
import NotebookCell.Proofs.Scope.Target
import NotebookCell.Proofs.Script.Cell
import NotebookCell.Proofs.Script.Tagged
import NotebookCell.Proofs.Tree.Pruning

/-!
# Where the nodes of a cell stand

A sound tree counts bytes of the text that was parsed, and a cell counts characters of its source.
At the start of a character the way from one to the other is exact (`Offsets.char_ofSource`), so the
name that a node covers begins in the source where the node starts, even if the source was parsed
inside parentheses (`Frame.begins`).
-/

namespace NotebookCell.Text

open NotebookCell.Script (byteLength byteLength_append)

/-! ## Bytes and characters -/

theorem ownersFrom_append (index : Nat) (before behind : List Char) :
    ownersFrom index (before ++ behind) =
      ownersFrom index before ++ ownersFrom (index + before.length) behind := by
  induction before generalizing index with
  | nil => rfl
  | cons c before ih =>
    rw [List.cons_append, ownersFrom, ownersFrom, ih, List.append_assoc, List.length_cons,
      Nat.add_assoc, Nat.add_comm 1]

theorem length_ownersFrom (index : Nat) (text : List Char) :
    (ownersFrom index text).length = byteLength text := by
  induction text generalizing index with
  | nil => rfl
  | cons c text ih => rw [ownersFrom, List.length_append, List.length_replicate, ih, byteLength]

theorem byteLength_of_single {text : List Char} (h : ∀ c ∈ text, c.utf8Size = 1) :
    byteLength text = text.length := by
  induction text with
  | nil => rfl
  | cons c text ih =>
    rw [byteLength, h c List.mem_cons_self, ih fun d hd => h d (List.mem_cons_of_mem c hd),
      List.length_cons, Nat.add_comm]

/-- The first byte behind some characters belongs to the next one, or to the end. -/
theorem getElem?_owners (before behind : List Char) :
    (ownersFrom 0 (before ++ behind) ++ [(before ++ behind).length])[byteLength before]? =
      some before.length := by
  rw [ownersFrom_append, List.append_assoc, List.getElem?_append_right (by
    rw [length_ownersFrom]), length_ownersFrom, Nat.sub_self, Nat.zero_add]
  cases behind with
  | nil => rw [List.append_nil]; rfl
  | cons c behind =>
    obtain ⟨size, hsize⟩ := Nat.exists_eq_add_of_lt c.utf8Size_pos
    rw [ownersFrom, hsize, Nat.zero_add, List.replicate_succ]
    rfl

/-- A byte at the start of a character is the offset of that character. -/
theorem Offsets.char_ofSource {source before behind : List Char} (h : source = before ++ behind)
    {shift byte : Int} (hbyte : byte = shift + byteLength before) :
    (Offsets.ofSource source shift).char byte = before.length := by
  have hdiff : byte - shift = (byteLength before : Int) := by omega
  subst h
  unfold Offsets.char
  rw [Offsets.ofSource]
  dsimp only
  rw [hdiff]
  split
  · next hnone =>
    split at hnone
    · next hsingle =>
      have hbefore : byteLength before = before.length := by
        refine byteLength_of_single fun c hc => ?_
        have hsize := List.all_eq_true.mp hsingle c (List.mem_append_left _ hc)
        exact beq_iff_eq.mp hsize
      rw [clamp, hbefore, Int.toNat_natCast, List.length_append]
      omega
    · cases hnone
  · next owners howners =>
    split at howners
    · cases howners
    · cases howners
      have hlast : (ownersFrom 0 (before ++ behind) ++ [(before ++ behind).length]).length - 1 =
          byteLength before + byteLength behind := by
        rw [List.length_append, length_ownersFrom, byteLength_append]
        rfl
      rw [clamp, Int.toNat_natCast, Array.getD_eq_getD_getElem?, List.getElem?_toArray,
        List.size_toArray, hlast, Nat.min_eq_left (Nat.le_add_right _ _), getElem?_owners]
      rfl

theorem byteSlice_go_all {start stop pos : Nat} (text : List Char) (hstart : start ≤ pos)
    (hstop : pos + byteLength text ≤ stop) : byteSlice.go start stop text pos = text := by
  induction text generalizing pos with
  | nil => rfl
  | cons c text ih =>
    have hc := c.utf8Size_pos
    rw [byteLength] at hstop
    rw [byteSlice.go, if_neg (by omega), if_pos hstart, ih (by omega) (by omega)]

end NotebookCell.Text

namespace NotebookCell.Script

open NotebookCell.Tree NotebookCell.Text NotebookCell.Scope

/-! ## Fragments -/

/-- The name at a node is the text that it covers. -/
theorem nameIn_of_lexeme {before lexeme behind : List Char} {node : Node}
    (hstart : byteLength before = node.start)
    (hstop : byteLength before + byteLength lexeme = node.stop) :
    nameIn (before ++ (lexeme ++ behind)) node = String.ofList lexeme := by
  have hslice : byteSlice (before ++ (lexeme ++ behind)) (byteLength before + 0)
      (byteLength before + byteLength lexeme) = byteSlice lexeme 0 (byteLength lexeme) :=
    byteSlice_within before lexeme behind (Nat.le_refl _)
  rw [nameIn, ← hstart, ← hstop]
  exact congrArg String.ofList
    (hslice.trans (byteSlice_go_all lexeme (Nat.le_refl 0) (Nat.le_of_eq (Nat.zero_add _))))

/-- A word of a script begins where a node starts. -/
def IsFragment (text : List Char) (node : Node) (word : String) : Prop :=
  BeginsAt word text node ∧ word ≠ "" ∧ ∀ c ∈ word.toList, isNameText c = true

theorem isFragment_of_nameAt {text : List Char} {node : Node} (h : NameAt text node) :
    IsFragment text node (nameIn text node) := by
  obtain ⟨before, lexeme, behind, rfl, hstart, hstop, hne, hname⟩ := h
  rw [nameIn_of_lexeme hstart hstop]
  refine ⟨⟨before, behind, ?_, hstart⟩, ?_, ?_⟩
  · rw [String.toList_ofList]
  · intro hempty
    exact hne (by rw [← @String.toList_ofList lexeme, hempty]; rfl)
  · rwa [String.toList_ofList]

/-- A text that was parsed for a source, and the way from one to the other: the source itself, or
the source in parentheses. -/
inductive Frame (source : List Char) : List Char → Offsets → Prop
  | bare : Frame source source (.ofSource source 0)
  | enclosed : Frame source (enclose source) (.ofSource source 1)

/-- Names in an enclosed source are in the source. -/
theorem exists_of_enclose {source before word behind : List Char} (hne : word ≠ [])
    (hword : ∀ c ∈ word, isNameText c = true)
    (h : enclose source = before ++ (word ++ behind)) :
    ∃ front behind', before = '(' :: front ∧ source = front ++ (word ++ behind') := by
  obtain ⟨first, rest, rfl⟩ := List.exists_cons_of_ne_nil hne
  have hfirst := hword first List.mem_cons_self
  cases before with
  | nil =>
    obtain ⟨rfl, -⟩ := List.cons.inj h
    exact absurd hfirst (by decide)
  | cons opening front =>
    obtain ⟨rfl, hsource⟩ := List.cons.inj h
    rcases List.append_eq_append_iff.mp hsource with ⟨between, -, hend⟩ | ⟨tail, rfl, htail⟩
    · -- the name would begin behind the source
      have hmem : first ∈ ['\n', ')'] := by
        rw [hend]
        exact List.mem_append_right _ List.mem_cons_self
      simp only [List.mem_cons, List.not_mem_nil, or_false] at hmem
      rcases hmem with rfl | rfl <;> exact absurd hfirst (by decide)
    · rcases List.append_eq_append_iff.mp htail with ⟨more, rfl, -⟩ | ⟨beyond, hbeyond, hend⟩
      · exact ⟨front, more, rfl, rfl⟩
      · cases beyond with
        | nil =>
          rw [List.append_nil] at hbeyond
          exact ⟨front, [], rfl, by rw [List.append_nil, hbeyond]⟩
        | cons last beyond =>
          -- the name would reach over the end of the source
          obtain ⟨rfl, -⟩ := List.cons.inj hend
          have hlast := hword '\n' (by rw [hbeyond]; exact List.mem_append_right _ List.mem_cons_self)
          exact absurd hlast (by decide)

/-- A fragment of the text that was parsed begins in the source where its node starts there. -/
theorem Frame.begins {source text : List Char} {offsets : Offsets} (h : Frame source text offsets)
    {node : Node} {word : String} (hword : IsFragment text node word) :
    ∃ behind, source.drop (node.startIn offsets) = word.toList ++ behind := by
  obtain ⟨⟨before, behind, htext, hstart⟩, hne, hname⟩ := hword
  have hne' : word.toList ≠ [] := fun hnil => hne (String.toList_eq_nil_iff.mp hnil)
  cases h with
  | bare =>
    refine ⟨behind, ?_⟩
    rw [Node.startIn, Offsets.char_ofSource htext (by omega), htext, List.drop_left]
  | enclosed =>
    obtain ⟨front, behind', rfl, hsource⟩ := exists_of_enclose hne' hname htext
    refine ⟨behind', ?_⟩
    rw [byteLength] at hstart
    rw [Node.startIn, Offsets.char_ofSource hsource, hsource, List.drop_left]
    rw [← hstart]
    rfl

/-! ## Nodes of a sound tree -/

variable {text : List Char}

theorem sound_of_mem_children {site child : Site} (h : site.node.Sound text)
    (hchild : child ∈ site.children) : child.node.Sound text := by
  obtain ⟨node, index, hnode, rfl⟩ := Site.exists_of_mem_children hchild
  exact h.children node (List.mem_of_getElem? hnode)

theorem sound_of_mem_sites {root : Node} (h : root.Sound text) {site : Site}
    (hsite : site ∈ root.sites) : site.node.Sound text := by
  refine Node.sites_induction (P := fun site => site.node.Sound text) h ?_ site hsite
  intro upper _ child hchild hupper
  exact sound_of_mem_children hupper (Site.mem_children_of_mem_namedChildren hchild)

theorem sound_of_mem_walk {root node : Node} (h : root.Sound text) {skip : Node → Bool}
    (hnode : node ∈ root.walk skip) : node.Sound text := by
  rw [Node.walk_eq_filter] at hnode
  obtain ⟨site, hsite, rfl⟩ := List.mem_map.mp hnode
  exact sound_of_mem_sites h (List.mem_of_mem_filter hsite)

theorem sound_of_child? {node child : Node} (h : node.Sound text) {field : Field}
    (hchild : node.child? field = some child) : child.Sound text :=
  h.children child (List.mem_of_find?_eq_some hchild)

theorem sound_of_site_child? {site child : Site} (h : site.node.Sound text) {field : Field}
    (hchild : site.child? field = some child) : child.node.Sound text :=
  sound_of_mem_children h (List.mem_of_find?_eq_some hchild)

theorem nameAt_of_writes {site leaf : Site} (hleaf : Writes site leaf)
    (h : site.node.Sound text) : NameAt text leaf.node := by
  induction hleaf with
  | here hkind =>
    rcases isLeafKind_iff.mp hkind with hkind | hkind | hkind | hkind
    · exact nameAt_of_isNameKind h.proper (by rw [hkind]; rfl)
    · exact nameAt_of_isNameKind h.proper (by rw [hkind]; rfl)
    · exact nameAt_of_isNameKind h.proper (by rw [hkind]; rfl)
    · exact nameAt_of_undefinedWord h.proper hkind
  | value _ hchild _ ih => exact ih (sound_of_site_child? h hchild)
  | left _ hchild _ ih => exact ih (sound_of_site_child? h hchild)
  | part _ hchild _ ih =>
    exact ih (sound_of_mem_children h (Site.mem_children_of_mem_namedChildren hchild))

/-- The places that an assignment writes to are names. -/
theorem nameAt_of_mem_leaves {node : Node} {path : List Nat} (h : node.Sound text) :
    ∀ leaf ∈ leaves node path, NameAt text leaf.1 := by
  intro entry hentry
  obtain ⟨leaf, hleaf, rfl⟩ := (@mem_leaves_iff ⟨node, path, []⟩ entry).mp hentry
  exact nameAt_of_writes hleaf h

mutual

/-- What a pattern declares are names. -/
theorem nameAt_of_mem_bindings {node : Node} (h : node.Sound text) :
    ∀ binding ∈ bindings node, NameAt text binding := by
  match node with
  | ⟨kind, start, stop, named, missing, field, children⟩ =>
    have hchildren := h.children
    rw [bindings.eq_def]
    dsimp only
    split
    case h_1 | h_2 =>
      intro binding hbinding
      rw [List.mem_singleton.mp hbinding]
      exact nameAt_of_isNameKind h.proper rfl
    case h_3 | h_4 | h_5 => exact nameAt_of_mem_bindingsAs hchildren
    case h_10 => exact fun _ hbinding => (nomatch hbinding)
    all_goals exact nameAt_of_mem_bindingsAll hchildren

theorem nameAt_of_mem_bindingsAs {field : Field} {nodes : List Node}
    (h : ∀ node ∈ nodes, node.Sound text) :
    ∀ binding ∈ bindingsAs field nodes, NameAt text binding := by
  match nodes with
  | [] => exact fun _ hbinding => (nomatch hbinding)
  | node :: nodes =>
    rw [bindingsAs]
    split
    · exact nameAt_of_mem_bindings (h node List.mem_cons_self)
    · exact nameAt_of_mem_bindingsAs fun other hother => h other (List.mem_cons_of_mem node hother)

theorem nameAt_of_mem_bindingsAll {nodes : List Node} (h : ∀ node ∈ nodes, node.Sound text) :
    ∀ binding ∈ bindingsAll nodes, NameAt text binding := by
  match nodes with
  | [] => exact fun _ hbinding => (nomatch hbinding)
  | node :: nodes =>
    rw [bindingsAll]
    intro binding hbinding
    rcases List.mem_append.mp hbinding with hbinding | hbinding
    · split at hbinding
      · exact nameAt_of_mem_bindings (h node List.mem_cons_self) binding hbinding
      · cases hbinding
    · exact nameAt_of_mem_bindingsAll
        (fun other hother => h other (List.mem_cons_of_mem node hother)) binding hbinding

end

end NotebookCell.Script
