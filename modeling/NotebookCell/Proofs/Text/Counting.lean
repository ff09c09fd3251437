import Mathlib.Data.Nat.Count
import NotebookCell.Proofs.Reading.Place
import NotebookCell.Proofs.Tree.Order

/-!
# Byte offsets count characters

`Offsets` looks a byte up in a table of owners, or takes it for a character where all characters are
single bytes. Both ways count: the offset of a byte is the number of characters whose encoding ends at
or before it, and a byte outside of the source is taken for its nearest end.

* `exists_split`: a byte of a text lies in one of its characters;
* `getElem?_owners_eq`: the table of owners counts;
* `Offsets.char_eq_tabled`: without a table the answers are the same;
* `textIn_eq_nameIn`: a node between characters has one text, in the source and in what was parsed.
-/

namespace NotebookCell.Text

open NotebookCell.Script (byteLength byteLength_append)

/-! ## Characters and their bytes -/

theorem utf8ByteSize_ofList (text : List Char) :
    (String.ofList text).utf8ByteSize = byteLength text := by
  induction text with
  | nil => rfl
  | cons c text ih =>
    have hsplit : String.ofList (c :: text) = String.singleton c ++ String.ofList text := by
      rw [String.singleton_eq_ofList, ← String.ofList_append]
      rfl
    rw [hsplit, String.utf8ByteSize_append, String.utf8ByteSize_singleton, ih, byteLength]

/-- A byte of a text lies in one of its characters. -/
theorem exists_split {text : List Char} {byte : Nat} (h : byte < byteLength text) :
    ∃ before c behind, text = before ++ c :: behind ∧ byteLength before ≤ byte ∧
      byte < byteLength before + c.utf8Size := by
  induction text generalizing byte with
  | nil =>
    unfold byteLength at h
    omega
  | cons c text ih =>
    rw [byteLength] at h
    by_cases hfirst : byte < c.utf8Size
    · exact ⟨[], c, text, rfl, Nat.zero_le _, by rw [byteLength]; omega⟩
    · obtain ⟨before, d, behind, htext, hlower, hupper⟩ :=
        @ih (byte - c.utf8Size) (by omega)
      refine ⟨c :: before, d, behind, by rw [htext]; rfl, ?_, ?_⟩
      · rw [byteLength]
        omega
      · rw [byteLength]
        omega

/-- The number of characters of a text whose encoding ends at or before a byte offset. -/
def charactersBy (text : List Char) (byte : Int) : Nat :=
  Nat.count (fun index => ((String.ofList (text.take (index + 1))).utf8ByteSize : Int) ≤ byte)
    text.length

theorem charactersBy_le (text : List Char) (byte : Int) : charactersBy text byte ≤ text.length :=
  Nat.count_le _

/-- In front of a byte of a character all characters before that one have ended, and no other. -/
theorem charactersBy_of_split {before behind : List Char} {c : Char} {byte : Nat}
    (hlower : byteLength before ≤ byte) (hupper : byte < byteLength before + c.utf8Size) :
    charactersBy (before ++ c :: behind) byte = before.length := by
  unfold charactersBy
  rw [List.length_append, Nat.count_add]
  have hbefore : Nat.count (fun index =>
      ((String.ofList ((before ++ c :: behind).take (index + 1))).utf8ByteSize : Int) ≤ byte)
      before.length = before.length := by
    rw [Nat.count_iff_forall]
    intro index hindex
    -- a part of what stands before the character
    have hparts := byteLength_append (before.take (index + 1)) (before.drop (index + 1))
    rw [List.take_append_drop] at hparts
    rw [utf8ByteSize_ofList, List.take_append_of_le_length (by omega)]
    omega
  have hbehind : Nat.count (fun index => ((String.ofList
      ((before ++ c :: behind).take (before.length + index + 1))).utf8ByteSize : Int) ≤ byte)
      (c :: behind).length = 0 := by
    rw [Nat.count_iff_forall_not]
    intro index _
    -- the character itself has not ended yet
    rw [utf8ByteSize_ofList, Nat.add_assoc, List.take_length_add_append, List.take_succ_cons,
      byteLength_append, byteLength]
    omega
  rw [hbefore, hbehind, Nat.add_zero]

/-- Behind a text all of its characters have ended. -/
theorem charactersBy_of_le {text : List Char} {byte : Nat} (h : byteLength text ≤ byte) :
    charactersBy text byte = text.length := by
  unfold charactersBy
  rw [Nat.count_iff_forall]
  intro index _
  have hparts := byteLength_append (text.take (index + 1)) (text.drop (index + 1))
  rw [List.take_append_drop] at hparts
  rw [utf8ByteSize_ofList]
  omega

/-! ## The table of owners -/

/-- Each byte of a character has its place in the table of owners. -/
theorem getElem?_owners_of_split {before behind : List Char} {c : Char} {byte : Nat}
    (hlower : byteLength before ≤ byte) (hupper : byte < byteLength before + c.utf8Size) :
    (ownersFrom 0 (before ++ c :: behind) ++ [(before ++ c :: behind).length])[byte]? =
      some before.length := by
  have hlength := length_ownersFrom 0 before
  rw [ownersFrom_append, ownersFrom, List.append_assoc, List.append_assoc,
    List.getElem?_append_right (by omega), hlength,
    List.getElem?_append_left (by rw [List.length_replicate]; omega),
    List.getElem?_replicate_of_lt (by omega), Nat.zero_add]

/-- The table of owners counts the characters that end before a byte. -/
theorem getElem?_owners_eq {text : List Char} {byte : Nat} (h : byte ≤ byteLength text) :
    (ownersFrom 0 text ++ [text.length])[byte]? = some (charactersBy text byte) := by
  by_cases hinside : byte < byteLength text
  · obtain ⟨before, c, behind, rfl, hlower, hupper⟩ := exists_split hinside
    rw [getElem?_owners_of_split hlower hupper, charactersBy_of_split hlower hupper]
  · have hend : byte = byteLength text := by omega
    have howner := getElem?_owners text []
    rw [List.append_nil] at howner
    rw [hend, howner, charactersBy_of_le (Nat.le_refl _)]

/-- Where all characters are single bytes, as many have ended as there are bytes. -/
theorem charactersBy_of_single {text : List Char} (hsingle : ∀ c ∈ text, c.utf8Size = 1) {byte : Nat}
    (h : byte ≤ byteLength text) : charactersBy text byte = byte := by
  by_cases hinside : byte < byteLength text
  · obtain ⟨before, c, behind, rfl, hlower, hupper⟩ := exists_split hinside
    have hbefore := byteLength_of_single fun d hd => hsingle d (List.mem_append_left _ hd)
    have hc := hsingle c (List.mem_append_right _ List.mem_cons_self)
    rw [charactersBy_of_split hlower hupper]
    omega
  · rw [charactersBy_of_le (by omega), ← byteLength_of_single hsingle]
    omega

namespace Offsets

/-- The offsets of a source with a table, also where all characters are single bytes. -/
def tabled (source : List Char) (shift : Int) : Offsets :=
  ⟨source, shift, some (ownersFrom 0 source ++ [source.length]).toArray⟩

theorem char_tabled (source : List Char) (shift byte : Int) :
    (tabled source shift).char byte =
      charactersBy source (clamp (byteLength source) (byte - shift)) := by
  have hsize : (ownersFrom 0 source ++ [source.length]).toArray.size - 1 = byteLength source := by
    rw [List.size_toArray, List.length_append, length_ownersFrom]
    rfl
  have hinside : clamp (byteLength source) (byte - shift) ≤ byteLength source := Nat.min_le_right _ _
  show (ownersFrom 0 source ++ [source.length]).toArray.getD (clamp _ (byte - shift)) 0 = _
  rw [hsize, Array.getD_eq_getD_getElem?, List.getElem?_toArray, getElem?_owners_eq hinside,
    Option.getD_some]

/-- A text of single bytes needs no table. -/
theorem char_eq_tabled (source : List Char) (shift byte : Int) :
    (ofSource source shift).char byte = (tabled source shift).char byte := by
  by_cases hall : (source.all fun c => c.utf8Size == 1) = true
  · have hsingle : ∀ c ∈ source, c.utf8Size = 1 := fun c hc =>
      beq_iff_eq.mp (List.all_eq_true.mp hall c hc)
    have hnone : (ofSource source shift).char byte = clamp source.length (byte - shift) := by
      unfold char ofSource
      rw [if_pos hall]
    have hinside : clamp (byteLength source) (byte - shift) ≤ byteLength source :=
      Nat.min_le_right _ _
    rw [hnone, char_tabled, charactersBy_of_single hsingle hinside, byteLength_of_single hsingle]
  · unfold tabled ofSource
    rw [if_neg hall]

/-- The offset of a byte is the number of characters that end at or before it. -/
theorem char_eq_charactersBy (source : List Char) (shift byte : Int) :
    (ofSource source shift).char byte = charactersBy source
      (min (max (byte - shift) 0) (String.ofList source).utf8ByteSize) := by
  have hclamp : (clamp (byteLength source) (byte - shift) : Int) =
      min (max (byte - shift) 0) (String.ofList source).utf8ByteSize := by
    rw [utf8ByteSize_ofList]
    unfold clamp
    omega
  rw [char_eq_tabled, char_tabled, hclamp]

/-- A byte inside of a character belongs to it. -/
theorem char_of_split {source before behind : List Char} {c : Char}
    (hsource : source = before ++ c :: behind) {shift : Int} {offset : Nat}
    (hoffset : offset < c.utf8Size) :
    (ofSource source shift).char (shift + byteLength before + offset) = before.length := by
  have hlength := byteLength_append before (c :: behind)
  rw [byteLength, ← hsource] at hlength
  have hclamp : clamp (byteLength source) (shift + byteLength before + offset - shift) =
      byteLength before + offset := by
    unfold clamp
    omega
  rw [char_eq_tabled, char_tabled, hclamp, hsource]
  exact charactersBy_of_split (Nat.le_add_right _ _) (by omega)

end Offsets

/-- Nothing lies between two offsets in the wrong order. -/
theorem byteSlice_of_le {start stop : Nat} (h : stop ≤ start) (text : List Char) :
    byteSlice text start stop = [] := by
  have hgo (pos : Nat) : byteSlice.go start stop text pos = [] := by
    induction text generalizing pos with
    | nil => rfl
    | cons c text ih =>
      rw [byteSlice.go, ih]
      by_cases hstop : stop ≤ pos
      · rw [if_pos hstop]
      · rw [if_neg hstop, if_neg (by omega)]
  exact hgo 0

end NotebookCell.Text

namespace NotebookCell.Script

open NotebookCell.Tree NotebookCell.Text

/-! ## Texts of nodes -/

/-- A node whose span begins and ends between characters of the source has one text, in the source and
in the text around it that was parsed. -/
theorem textIn_eq_nameIn {source : List Char} {node : Node} {start stop : Nat}
    (hstart : Mark source start) (hstop : Mark source stop) (front back : List Char)
    (hnode : node.start = byteLength front + start) (hnode' : node.stop = byteLength front + stop) :
    String.ofList (node.textIn (.ofSource source (byteLength front))) =
      nameIn (front ++ (source ++ back)) node := by
  obtain ⟨before, behind, hbefore, rfl⟩ := hstart
  obtain ⟨before', behind', hbefore', rfl⟩ := hstop
  have hfirst : (Offsets.ofSource source (byteLength front)).char node.start = before.length :=
    Offsets.char_ofSource hbefore (by omega)
  have hlast : (Offsets.ofSource source (byteLength front)).char node.stop = before'.length :=
    Offsets.char_ofSource hbefore' (by omega)
  have htext : node.textIn (.ofSource source (byteLength front)) =
      (source.drop before.length).take (before'.length - before.length) := by
    unfold Node.textIn Offsets.slice
    rw [hfirst, hlast]
    rfl
  have hpart : before <+: source := ⟨behind, hbefore.symm⟩
  have hpart' : before' <+: source := ⟨behind', hbefore'.symm⟩
  rw [htext]
  by_cases hle : before.length ≤ before'.length
  · obtain ⟨lexeme, rfl⟩ := List.prefix_of_prefix_length_le hpart hpart' hle
    have hparsed : front ++ (source ++ back) = (front ++ before) ++ (lexeme ++ (behind' ++ back)) := by
      rw [hbefore']
      simp only [List.append_assoc]
    rw [hparsed, nameIn_of_lexeme]
    · rw [hbefore', List.append_assoc, List.drop_left, List.length_append, Nat.add_sub_cancel_left,
        List.take_left]
    · rw [byteLength_append]
      omega
    · rw [byteLength_append] at hnode' ⊢
      omega
  · -- the span ends in front of its start
    obtain ⟨lexeme, rfl⟩ := List.prefix_of_prefix_length_le hpart' hpart (by omega)
    unfold nameIn
    rw [byteSlice_of_le (by rw [hnode, hnode', byteLength_append]; omega),
      Nat.sub_eq_zero_of_le (by omega), List.take_zero]

/-- Byte offsets are turned into character offsets by counting the characters that have ended, in front
of the source, inside of it and behind it. So the start of a character leads to that character and so
does each byte inside of it, a later byte leads to no earlier character, no offset leaves the source, and
a table of owners gives the same answers as the shorter way for single bytes. A node between characters
has one text in the source and in what was parsed, the source itself or the source in parentheses. -/
theorem char_counts_characters (source : List Char) (shift : Int) :
    (∀ byte, (Offsets.ofSource source shift).char byte =
      charactersBy source (min (max (byte - shift) 0) (String.ofList source).utf8ByteSize)) ∧
    (∀ before behind, source = before ++ behind → (Offsets.ofSource source shift).char
      (shift + (String.ofList before).utf8ByteSize) = before.length) ∧
    (∀ before c behind, source = before ++ c :: behind → ∀ offset : Nat, offset < c.utf8Size →
      (Offsets.ofSource source shift).char
        (shift + (String.ofList before).utf8ByteSize + offset) = before.length) ∧
    (∀ byte byte', byte ≤ byte' →
      (Offsets.ofSource source shift).char byte ≤ (Offsets.ofSource source shift).char byte') ∧
    (∀ byte, (Offsets.ofSource source shift).char byte ≤ source.length) ∧
    (∀ byte, (Offsets.ofSource source shift).char byte = (Offsets.tabled source shift).char byte) ∧
    (∀ (node : Node) (start stop : Nat), Mark source start → Mark source stop →
      (node.start = start → node.stop = stop →
        String.ofList (node.textIn (.ofSource source 0)) = nameIn source node) ∧
      (node.start = 1 + start → node.stop = 1 + stop →
        String.ofList (node.textIn (.ofSource source 1)) = nameIn (enclose source) node)) := by
  refine ⟨Offsets.char_eq_charactersBy source shift, ?_, ?_, ?_, ?_,
    Offsets.char_eq_tabled source shift, ?_⟩
  · intro before behind hsource
    rw [utf8ByteSize_ofList]
    exact Offsets.char_ofSource hsource rfl
  · intro before c behind hsource offset hoffset
    rw [utf8ByteSize_ofList]
    exact Offsets.char_of_split hsource hoffset
  · intro byte byte' hle
    exact Offsets.char_mono source shift hle
  · intro byte
    rw [Offsets.char_eq_charactersBy]
    exact charactersBy_le _ _
  · intro node start stop hstart hstop
    constructor
    · intro hnode hnode'
      -- nothing stands around a plain source
      have hfirst : node.start = byteLength [] + start := by rw [hnode, byteLength, Nat.zero_add]
      have hlast : node.stop = byteLength [] + stop := by rw [hnode', byteLength, Nat.zero_add]
      have htext := textIn_eq_nameIn hstart hstop [] [] hfirst hlast
      rwa [List.append_nil] at htext
    · intro hnode hnode'
      exact textIn_eq_nameIn hstart hstop ['('] ['\n', ')'] hnode hnode'

/-- Offsets in front of, inside and behind a source with characters of two and four bytes, and the text
of a node that is one of them. -/
theorem char_counts_characters_wide :
    let offsets := Offsets.ofSource ['é', '😀', 'x'] 1
    let node : Node := { kind := .identifier, start := 3, stop := 7 }
    ([-1, 1, 2, 3, 6, 7, 8, 12].map offsets.char) = [0, 0, 0, 1, 1, 2, 3, 3] ∧
      offsets.char (1 + (String.ofList ['é']).utf8ByteSize) = ['é'].length ∧
      offsets.char (1 + (String.ofList ['é']).utf8ByteSize + 3) = ['é'].length ∧
      offsets.char 6 ≤ offsets.char 7 ∧
      String.ofList (node.textIn offsets) = nameIn (enclose ['é', '😀', 'x']) node := by
  intro offsets node
  have hwide := char_counts_characters ['é', '😀', 'x'] 1
  have hstart : Mark ['é', '😀', 'x'] 2 := ⟨['é'], ['😀', 'x'], rfl, rfl⟩
  have hstop : Mark ['é', '😀', 'x'] 6 := ⟨['é', '😀'], ['x'], rfl, rfl⟩
  refine ⟨by decide +kernel, hwide.2.1 ['é'] ['😀', 'x'] rfl, ?_, ?_, ?_⟩
  · exact hwide.2.2.1 ['é'] '😀' ['x'] rfl 3 (by decide)
  · exact hwide.2.2.2.1 6 7 (by decide)
  · exact (hwide.2.2.2.2.2.2 node 2 6 hstart hstop).2 rfl rfl

end NotebookCell.Script
