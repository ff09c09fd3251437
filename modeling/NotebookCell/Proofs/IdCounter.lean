import Mathlib.Data.List.DropRight
import Mathlib.Data.List.Nodup
import NotebookCell.IdCounter

/-!
# Ids are unique

An id is a stem, perhaps a label, and a number, with hyphens between them, and stem and label may have
hyphens and digits of their own. A number that is not negative is written without a hyphen, so that it
is what stands behind the last one: it can be read back from the id (`number_next`), whatever stands in
front of it. The numbers of a run count upwards (`map_number_ids`), so no id comes twice.
-/

namespace NotebookCell.IdCounter

/-- The ids for labels one after the other. -/
def ids (counter : IdCounter) : List (Option String) → List String
  | [] => []
  | label :: labels => (counter.next label).1 :: ids (counter.next label).2 labels

/-- The number behind the last hyphen of an id. -/
def number (id : String) : Nat :=
  Nat.ofDigitChars 10 (id.toList.rtakeWhile (· != '-')) 0

theorem hyphen_notMem_toDigits (n : Nat) : '-' ∉ Nat.toDigits 10 n := by
  intro hmem
  have hdigit := Nat.isDigit_of_mem_toDigits (by omega) (by omega) hmem
  exact absurd hdigit (by decide)

/-- Digits behind a hyphen are what stands behind the last hyphen. -/
theorem rtakeWhile_append_hyphen (text : List Char) (n : Nat) :
    (text ++ '-' :: Nat.toDigits 10 n).rtakeWhile (· != '-') = Nat.toDigits 10 n := by
  show ((text ++ '-' :: Nat.toDigits 10 n).reverse.takeWhile (· != '-')).reverse = _
  have hdigits : ∀ c ∈ (Nat.toDigits 10 n).reverse, (c != '-') = true := by
    intro c hc
    have hne : c ≠ '-' := fun heq => hyphen_notMem_toDigits n (heq ▸ List.mem_reverse.mp hc)
    simpa using hne
  rw [List.reverse_append, List.reverse_cons, List.append_assoc,
    List.takeWhile_append_of_pos hdigits]
  simp

/-- However an id begins, it ends with a hyphen and its number. -/
theorem next_eq_append (counter : IdCounter) (label : Option String) :
    ∃ text, (counter.next label).1.toList = text ++ '-' :: (toString (counter.count + 1)).toList := by
  unfold next
  dsimp only
  split
  · exact ⟨counter.stem.toList, by simp⟩
  · exact ⟨counter.stem.toList, by simp⟩
  · next label _ => exact ⟨counter.stem.toList ++ '-' :: label.toList, by simp⟩

theorem count_next (counter : IdCounter) (label : Option String) :
    (counter.next label).2.count = counter.count + 1 := rfl

/-- The number can be read back from an id, if the counter was not negative. -/
theorem number_next (counter : IdCounter) (hcount : 0 ≤ counter.count) (label : Option String) :
    number (counter.next label).1 = counter.count.toNat + 1 := by
  obtain ⟨text, htext⟩ := counter.next_eq_append label
  have hnat : counter.count + 1 = ((counter.count.toNat + 1 : Nat) : Int) := by omega
  have hdigits : (toString (counter.count + 1)).toList =
      Nat.toDigits 10 (counter.count.toNat + 1) := by
    rw [hnat]
    show (Nat.repr _).toList = _
    exact Nat.toList_repr
  unfold number
  rw [htext, hdigits, rtakeWhile_append_hyphen, Nat.ofDigitChars_ten_toDigits]

/-- The ids of a run are numbered one after the other, from the first number that is free. -/
theorem map_number_ids (counter : IdCounter) (hcount : 0 ≤ counter.count)
    (labels : List (Option String)) :
    (counter.ids labels).map number = List.range' (counter.count.toNat + 1) labels.length := by
  induction labels generalizing counter with
  | nil => rfl
  | cons label labels ih =>
    have hnext : 0 ≤ (counter.next label).2.count := by
      rw [count_next]
      omega
    have htoNat : (counter.next label).2.count.toNat = counter.count.toNat + 1 := by
      rw [count_next]
      omega
    unfold ids
    rw [List.map_cons, number_next counter hcount, ih _ hnext, htoNat, List.length_cons,
      List.range'_succ]

/-- The ids that a counter gives out are pairwise distinct, whatever its stem and the labels are. -/
theorem nodup_ids (counter : IdCounter) (hcount : 0 ≤ counter.count)
    (labels : List (Option String)) : (counter.ids labels).Nodup := by
  apply List.Nodup.of_map number
  rw [map_number_ids counter hcount]
  exact List.nodup_range'

/-- Labels that are absent, empty, or look like the end of another id. -/
theorem nodup_ids_hyphens :
    (0 ≤ (⟨"cell-1", 8⟩ : IdCounter).count ∧
      (⟨"cell-1", 8⟩ : IdCounter).ids [some "1-9", none, some "", some "-", some "1-9-13", none] =
        ["cell-1-1-9-9", "cell-1-10", "cell-1-11", "cell-1---12", "cell-1-1-9-13-13", "cell-1-14"]) ∧
      ((⟨"cell-1", 8⟩ : IdCounter).ids
        [some "1-9", none, some "", some "-", some "1-9-13", none]).Nodup :=
  ⟨⟨by decide, by decide +kernel⟩, nodup_ids ⟨"cell-1", 8⟩ (by decide) _⟩

/-- Below zero a sign takes part: a label that ends in a hyphen makes up for it. -/
example : ¬ ((⟨"cell", -3⟩ : IdCounter).ids [some "a", none, none, none, some "a-"]).Nodup := by
  decide +kernel

end NotebookCell.IdCounter
