import NotebookCell.Proofs.Editing.Run
import NotebookCell.Proofs.Script.Cell
import NotebookCell.Proofs.Script.Literal
import NotebookCell.Proofs.Template.Lossless
import Mathlib.Data.Nat.Init

/-!
# Raw content

Raw embedding puts one backslash in front of each backtick and leaves all other text as it is. The
backslash is itself escaped if an odd run of backslashes stands before the backtick, and then the
backtick ends the literal. Nothing else can go wrong: where each backtick stands behind an even run the
raw strings of the literal are the literal text with these backslashes, and where one does not the
literal ends too early.

* `literalText_escapeTicks`, `endsEarly_escapeTicks`: literal text with its backticks escaped stays
  between backticks, or ends at the first backtick behind an odd run;
* `embedded_raw`: what is embedded, string by string and hole by hole;
* `strings_raw_embedding`: the strings and holes of the literal, and when it has them.
-/

namespace NotebookCell.Template

open NotebookCell.Editing NotebookCell.Script

/-! ## Raw strings -/

/-- A raw string has escapes as they are written. -/
def rawEscape (c : Char) : Option (List Char) := some ['\\', c]

/-- Strings with holes between them. -/
def interleave : (texts holes : List (List Char)) → List Char
  | [], _ => []
  | text :: _, [] => text
  | text :: texts, hole :: holes =>
    text ++ '$' :: '\x7b' :: (hole ++ '\x7d' :: interleave texts holes)

/-- A backtick ends the literal before the end of the text, behind some of the holes. -/
def EndsEarly (holes : List (List Char)) (text : List Char) : Prop :=
  ∃ used front rest, used <+: holes ∧ text = front ++ '\x60' :: rest ∧ LiteralText used front

section
variable {holes : List (List Char)} {run rest : List Char}

/-- Text without holes in front of more text. -/
theorem LiteralText.append_of_nil (hrun : LiteralText [] run) (hrest : LiteralText holes rest)
    (hbrace : rest.head? ≠ some '\x7b') : LiteralText holes (run ++ rest) := by
  generalize hnone : ([] : List (List Char)) = none at hrun
  induction hrun with
  | nil => exact hrest
  | escape _ ih => exact .escape (ih hnone)
  | @dollar _ run hopen _ ih =>
    refine .dollar ?_ (ih hnone)
    cases run with
    | nil => exact hbrace
    | cons c run => exact hopen
  | ordinary hc _ ih => exact .ordinary hc (ih hnone)
  | hole => cases hnone

/-- Text without holes is a raw string as it is. -/
theorem strings_of_literalText (hrun : LiteralText [] run) (hbrace : rest.head? ≠ some '\x7b') :
    strings rawEscape holes [] (run ++ rest) =
      (strings rawEscape holes [] rest).map (pushText run) := by
  have hpush (text text' : List Char) :
      ((strings rawEscape holes [] rest).map (pushText text')).map (pushText text) =
        (strings rawEscape holes [] rest).map (pushText (text ++ text')) := by
    rw [Option.map_map]
    congr 1
    funext found
    exact pushText_append _ _ _
  generalize hnone : ([] : List (List Char)) = none at hrun
  induction hrun with
  | nil =>
    rw [pushText_nil, Option.map_id]
    rfl
  | @escape _ c run _ ih =>
    rw [List.cons_append, List.cons_append, strings_escape rfl, ih hnone, hpush]
    rfl
  | @dollar _ run hopen _ ih =>
    have hopen' : (run ++ rest).head? ≠ some '\x7b' := by
      cases run with
      | nil => exact hbrace
      | cons c run => exact hopen
    rw [List.cons_append, strings_plain (by decide) (by decide) (fun _ => hopen'), ih hnone, hpush]
    rfl
  | @ordinary _ c run hc _ ih =>
    simp only [isOrdinary, Bool.and_eq_true, bne_iff_ne] at hc
    rw [List.cons_append, strings_plain hc.1.2 hc.1.1 (fun hdollar => absurd hdollar hc.2), ih hnone,
      hpush]
    rfl
  | hole => cases hnone

/-- A literal that ends early has not the strings of the whole text. -/
theorem strings_of_endsEarly {escape : Char → Option (List Char)} {text : List Char}
    (h : EndsEarly holes text) : strings escape holes [] text = none := by
  obtain ⟨used, front, rest, ⟨others, rfl⟩, rfl, hfront⟩ := h
  induction hfront with
  | nil => cases others <;> rfl
  | @escape used c front _ ih =>
    rw [List.cons_append, List.cons_append, strings, ih]
    cases escape c <;> rfl
  | @dollar used front hopen _ ih =>
    have hopen' : (front ++ '\x60' :: rest).head? ≠ some '\x7b' := by
      cases front with
      | nil => simp
      | cons c front => exact hopen
    rw [List.cons_append, strings_plain (by decide) (by decide) (fun _ => hopen'), ih]
    rfl
  | @ordinary used c front hc _ ih =>
    simp only [isOrdinary, Bool.and_eq_true, bne_iff_ne] at hc
    rw [List.cons_append, strings_plain hc.1.2 hc.1.1 (fun hdollar => absurd hdollar hc.2), ih]
    rfl
  | @hole used hole front _ ih =>
    rw [List.cons_append, List.cons_append, List.cons_append, List.append_assoc, List.cons_append,
      strings_hole, ih]
    rfl

/-- Strings that stay between backticks are read back. -/
theorem strings_interleave {texts : List (List Char)} (hlength : texts.length = holes.length + 1)
    (htexts : ∀ text ∈ texts, LiteralText [] text) :
    strings rawEscape holes [] (interleave texts holes) = some texts := by
  induction holes generalizing texts with
  | nil =>
    obtain ⟨text, rfl⟩ := List.length_eq_one_iff.mp hlength
    have hread := @strings_of_literalText [] text [] (htexts text (List.mem_singleton_self _)) (by simp)
    rw [List.append_nil] at hread
    rw [interleave, hread]
    simp [strings, pushText]
  | cons hole holes ih =>
    obtain ⟨text, texts, rfl⟩ := List.exists_cons_of_length_eq_add_one hlength
    obtain ⟨htext, hothers⟩ := List.forall_mem_cons.mp htexts
    rw [interleave, strings_of_literalText htext (by simp), strings_hole,
      ih (Nat.add_right_cancel hlength) hothers]
    simp [pushText]

/-- A string that ends the literal ends the whole early. -/
theorem endsEarly_interleave {texts : List (List Char)} (hlength : texts.length = holes.length + 1)
    (htexts : ∀ text ∈ texts, LiteralText [] text ∨ EndsEarly [] text)
    (hends : ∃ text ∈ texts, EndsEarly [] text) : EndsEarly holes (interleave texts holes) := by
  have hfirst {text behind : List Char} {holes : List (List Char)} (h : EndsEarly [] text) :
      EndsEarly holes (text ++ behind) := by
    obtain ⟨used, front, rest, hused, rfl, hfront⟩ := h
    refine ⟨used, front, rest ++ behind, ?_, by simp, hfront⟩
    rw [List.prefix_nil.mp hused]
    exact List.nil_prefix
  induction holes generalizing texts with
  | nil =>
    obtain ⟨text, rfl⟩ := List.length_eq_one_iff.mp hlength
    obtain ⟨other, hother, hearly⟩ := hends
    rw [List.mem_singleton.mp hother] at hearly
    exact hearly
  | cons hole holes ih =>
    obtain ⟨text, texts, rfl⟩ := List.exists_cons_of_length_eq_add_one hlength
    obtain ⟨htext, hothers⟩ := List.forall_mem_cons.mp htexts
    rw [interleave]
    rcases htext with htext | htext
    · by_cases hearly : EndsEarly [] text
      · exact hfirst hearly
      -- the first string is passed over, and so is the hole behind it
      obtain ⟨other, hother, hlate⟩ := hends
      rcases List.mem_cons.mp hother with rfl | hother
      · exact absurd hlate hearly
      obtain ⟨used, front, rest, hused, hbody, hfront⟩ :=
        ih (Nat.add_right_cancel hlength) hothers ⟨other, hother, hlate⟩
      refine ⟨hole :: used, text ++ '$' :: '\x7b' :: (hole ++ '\x7d' :: front), rest, ?_, ?_, ?_⟩
      · exact List.cons_prefix_cons.mpr ⟨rfl, hused⟩
      · rw [hbody]
        simp
      · exact LiteralText.append_of_nil htext (.hole hfront) (by simp)
    · exact hfirst htext

end

/-! ## Backticks behind backslashes -/

/-- A text with a backslash in front of each backtick. -/
def escapeTicks (text : List Char) : List Char :=
  text.flatMap fun c => if c == '\x60' then ['\\', c] else [c]

theorem head?_of_head?_escapeTicks {text : List Char} {c : Char} (hslash : c ≠ '\\')
    (h : (escapeTicks text).head? = some c) : text.head? = some c := by
  cases text with
  | nil => exact h
  | cons d text =>
    rw [escapeTicks, List.flatMap_cons] at h
    split at h
    · exact absurd (Option.some.inj h).symm hslash
    · exact h

section
variable {source : List Char} {start stop pos : Nat}

/-- What stands at an offset of a stretch where the run of backslashes is even: a plain character, a
backtick, or a backslash with the character that it takes with it. -/
inductive Token (source : List Char) (pos stop : Nat) : Prop
  | plain {c : Char} (hget : source[pos]? = some c) (hslash : c ≠ '\\') (htick : c ≠ '\x60')
    (hslice : slice source pos stop = c :: slice source (pos + 1) stop)
    (hopen : c = '$' → (slice source (pos + 1) stop).head? ≠ some '\x7b')
    (heven : slashesBefore source (pos + 1) % 2 = 0)
  | tick (hslice : slice source pos stop = '\x60' :: slice source (pos + 1) stop)
    (heven : slashesBefore source (pos + 1) % 2 = 0)
  | pair {c : Char} (hget : source[pos]? = some '\\') (hnext : source[pos + 1]? = some c)
    (hin : pos + 1 < stop)
    (hslice : slice source pos stop = '\\' :: c :: slice source (pos + 1 + 1) stop)
    (hodd : slashesBefore source (pos + 1) % 2 = 1)
    (heven : slashesBefore source (pos + 1 + 1) % 2 = 0)

theorem token_of_stretch (hlow : start ≤ pos) (hlt : pos < stop) (hinside : stop ≤ source.length)
    (hodd : ∀ p, start ≤ p → p < stop → opensAt source p = true → slashesBefore source p % 2 = 1)
    (heven : slashesBefore source pos % 2 = 0) (hstop : slashesBefore source stop % 2 = 0) :
    Token source pos stop := by
  obtain ⟨c, rest, hdrop⟩ : ∃ c rest, source.drop pos = c :: rest :=
    ⟨_, _, List.drop_eq_getElem_cons (Nat.lt_of_lt_of_le hlt hinside)⟩
  have hget := getElem?_of_drop hdrop
  have hnext := slashesBefore_succ hdrop
  by_cases hslash : c = '\\'
  · subst hslash
    rw [if_pos rfl] at hnext
    -- the run is even at the end of the stretch, so the backslash is not its last character
    have hin : pos + 1 < stop := by
      by_contra hend
      have heq : pos + 1 = stop := by omega
      rw [heq] at hnext
      omega
    obtain ⟨d, rest', hdrop'⟩ : ∃ d rest, source.drop (pos + 1) = d :: rest :=
      ⟨_, _, List.drop_eq_getElem_cons (Nat.lt_of_lt_of_le hin hinside)⟩
    have heven' : slashesBefore source (pos + 1 + 1) % 2 = 0 := by
      rw [slashesBefore_succ hdrop', hnext]
      split <;> omega
    refine .pair hget (getElem?_of_drop hdrop') hin ?_ (by omega) heven'
    rw [slice_cons hdrop hlt, slice_cons hdrop' hin]
  rw [if_neg hslash] at hnext
  by_cases htick : c = '\x60'
  · subst htick
    exact .tick (slice_cons hdrop hlt) (by omega)
  refine .plain hget hslash htick (slice_cons hdrop hlt) ?_ (by omega)
  rintro rfl hbrace
  -- a brace behind the dollar sign would open a hole
  have hin : pos + 1 < stop := by
    by_contra hend
    rw [slice, show stop - (pos + 1) = 0 by omega, List.take_zero] at hbrace
    cases hbrace
  obtain ⟨d, rest', hdrop'⟩ : ∃ d rest, source.drop (pos + 1) = d :: rest :=
    ⟨_, _, List.drop_eq_getElem_cons (Nat.lt_of_lt_of_le hin hinside)⟩
  rw [slice_cons hdrop' hin, List.head?_cons] at hbrace
  have hopens : opensAt source pos = true := by
    rw [opensAt, hdrop, ← drop_succ_of_drop hdrop, hdrop', Option.some.inj hbrace]
    simp
  have hrun := hodd pos hlow hlt hopens
  omega

theorem escapeTicks_cons (c : Char) (text : List Char) :
    escapeTicks (c :: text) = (if c == '\x60' then ['\\', c] else [c]) ++ escapeTicks text :=
  List.flatMap_cons

theorem escapeTicks_of_ne {c : Char} (htick : c ≠ '\x60') (text : List Char) :
    escapeTicks (c :: text) = c :: escapeTicks text := by
  rw [escapeTicks_cons, if_neg (fun h => htick (beq_iff_eq.mp h))]
  rfl

/-- A plain character in front of literal text. -/
theorem literalText_plain {c : Char} {front : List Char} (hslash : c ≠ '\\') (htick : c ≠ '\x60')
    (hopen : c = '$' → front.head? ≠ some '\x7b') (hfront : LiteralText [] front) :
    LiteralText [] (c :: front) := by
  by_cases hdollar : c = '$'
  · subst hdollar
    exact .dollar (hopen rfl) hfront
  · refine .ordinary ?_ hfront
    simp [isOrdinary, hslash, htick, hdollar]

/-- Literal text with its backticks escaped stays between backticks, if no backtick stands behind an
odd run of backslashes. -/
theorem literalText_escapeTicks (hlow : start ≤ pos) (hinside : stop ≤ source.length)
    (hodd : ∀ p, start ≤ p → p < stop → opensAt source p = true → slashesBefore source p % 2 = 1)
    (hticks : ∀ p, start ≤ p → p < stop → source[p]? = some '\x60' →
      slashesBefore source p % 2 = 0)
    (heven : slashesBefore source pos % 2 = 0) (hstop : slashesBefore source stop % 2 = 0) :
    LiteralText [] (escapeTicks (slice source pos stop)) := by
  -- by the number of characters left in the stretch; a backslash takes the next one with it
  obtain ⟨count, hcount⟩ : ∃ count, stop - pos = count := ⟨_, rfl⟩
  induction count using Nat.strongRecOn generalizing pos with
  | ind count ih =>
  rcases Nat.lt_or_ge pos stop with hlt | hge
  · cases token_of_stretch hlow hlt hinside hodd heven hstop with
    | @plain c _ hslash htick hslice hopen heven' =>
      rw [hslice, escapeTicks_of_ne htick]
      refine literalText_plain hslash htick ?_ (ih (stop - (pos + 1)) (by omega) (by omega) heven' rfl)
      exact fun hdollar hbrace => hopen hdollar (head?_of_head?_escapeTicks (by decide) hbrace)
    | tick hslice heven' =>
      rw [hslice, escapeTicks_cons]
      exact .escape (ih (stop - (pos + 1)) (by omega) (by omega) heven' rfl)
    | @pair c _ hnext hin hslice hrun heven' =>
      have htick : c ≠ '\x60' := by
        rintro rfl
        have := hticks (pos + 1) (by omega) hin hnext
        omega
      rw [hslice, escapeTicks_of_ne (by decide), escapeTicks_of_ne htick]
      exact .escape (ih (stop - (pos + 1 + 1)) (by omega) (by omega) heven' rfl)
  · rw [slice, Nat.sub_eq_zero_of_le hge, List.take_zero]
    exact .nil

/-- Literal text with its backticks escaped ends a literal at a backtick behind an odd run. -/
theorem endsEarly_escapeTicks (hlow : start ≤ pos) (hinside : stop ≤ source.length)
    (hodd : ∀ p, start ≤ p → p < stop → opensAt source p = true → slashesBefore source p % 2 = 1)
    (htick : ∃ p, pos ≤ p ∧ p < stop ∧ source[p]? = some '\x60' ∧ slashesBefore source p % 2 = 1)
    (heven : slashesBefore source pos % 2 = 0) (hstop : slashesBefore source stop % 2 = 0) :
    EndsEarly [] (escapeTicks (slice source pos stop)) := by
  obtain ⟨p, hp, hpstop, hpget, hpodd⟩ := htick
  -- by the number of characters left in the stretch, up to the first backtick behind an odd run
  obtain ⟨count, hcount⟩ : ∃ count, stop - pos = count := ⟨_, rfl⟩
  induction count using Nat.strongRecOn generalizing pos with
  | ind count ih =>
  have hne : p ≠ pos := by
    rintro rfl
    omega
  cases token_of_stretch hlow (by omega) hinside hodd heven hstop with
  | @plain c _ hslash htick hslice hopen heven' =>
    obtain ⟨used, front, rest, hused, hfront, hliteral⟩ :=
      ih (stop - (pos + 1)) (by omega) (by omega) heven' (by omega) rfl
    obtain rfl := List.prefix_nil.mp hused
    refine ⟨[], c :: front, rest, List.nil_prefix, ?_, ?_⟩
    · rw [hslice, escapeTicks_of_ne htick, hfront]
      rfl
    · refine literalText_plain hslash htick ?_ hliteral
      intro hdollar hbrace
      refine hopen hdollar (head?_of_head?_escapeTicks (by decide) ?_)
      obtain ⟨tail, rfl⟩ := List.head?_eq_some_iff.mp hbrace
      rw [hfront]
      rfl
  | tick hslice heven' =>
    obtain ⟨used, front, rest, hused, hfront, hliteral⟩ :=
      ih (stop - (pos + 1)) (by omega) (by omega) heven' (by omega) rfl
    refine ⟨used, '\\' :: '\x60' :: front, rest, hused, ?_, .escape hliteral⟩
    rw [hslice, escapeTicks_cons, hfront]
    rfl
  | @pair c hget hnext hin hslice hrun heven' =>
    by_cases htick : c = '\x60'
    · -- the backslash that is put in front of the backtick is taken by the one before it
      subst htick
      refine ⟨[], ['\\', '\\'], escapeTicks (slice source (pos + 1 + 1) stop), List.nil_prefix, ?_,
        .escape .nil⟩
      rw [hslice, escapeTicks_of_ne (by decide), escapeTicks_cons]
      rfl
    · have hne' : p ≠ pos + 1 := by
        rintro rfl
        exact htick (Option.some.inj (hnext.symm.trans hpget))
      obtain ⟨used, front, rest, hused, hfront, hliteral⟩ :=
        ih (stop - (pos + 1 + 1)) (by omega) (by omega) heven' (by omega) rfl
      refine ⟨used, '\\' :: c :: front, rest, hused, ?_, .escape hliteral⟩
      rw [hslice, escapeTicks_of_ne (by decide), escapeTicks_of_ne htick, hfront]
      rfl

end

/-! ## What raw embedding writes -/

/-- Whether a backtick stands at an offset. -/
def isBacktick (source : List Char) (pos : Nat) : Bool := source[pos]? == some '\x60'

/-- Whether the character at an offset is a backslash that has to move into a hole. -/
def isTerminal (source : List Char) (pos : Nat) : Bool :=
  slashesBefore source source.length % 2 == 1 && pos + 1 == source.length

section
variable {source : List Char} {quasis : List Quasi}

theorem slashesBefore_length (source : List Char) :
    slashesBefore source source.length = (source.reverse.takeWhile (· == '\\')).length := by
  rw [slashesBefore, List.take_length]

theorem slashesBefore_length_le (source : List Char) :
    slashesBefore source source.length ≤ source.length := by
  have hrun := (List.takeWhile_prefix (l := source.reverse) (· == '\\')).length_le
  rw [List.length_reverse] at hrun
  rw [slashesBefore_length]
  exact hrun

/-- The edits that move a last backslash into a hole. -/
theorem edits_interpolateTerminalBackslash :
    (interpolateTerminalBackslash source).flatMap (Operation.edits source) =
      if slashesBefore source source.length % 2 = 1 then
        [⟨.right, source.length - 1, source.length, backslashHole⟩] else [] := by
  rw [interpolateTerminalBackslash, ← slashesBefore_length]
  by_cases hodd : slashesBefore source source.length % 2 = 1
  · have hstart : ((source.length : Int) - 1).toNat = source.length - 1 := by omega
    rw [if_pos (beq_iff_eq.mpr hodd), if_pos hodd, List.flatMap_singleton, Operation.edits, hstart]
    rfl
  · rw [if_neg (fun h => hodd (beq_iff_eq.mp h)), if_neg hodd, List.flatMap_nil]

theorem valuesOn_escapeLog_raw (pos : Nat) :
    valuesOn .right (escapeLog .raw source quasis) pos =
      escapesAt (isBacktick source) quasis pos ++
        if isTerminal source pos then backslashHole else [] := by
  have hticks : valuesOn .right ((quasis.flatMap (escapeBackticks source)).flatMap
      (Operation.edits source)) pos = escapesAt (isBacktick source) quasis pos := by
    rw [List.flatMap_assoc, valuesOn_flatMap, escapesAt]
    congr 1
    funext quasi
    rw [escapeBackticks, valuesOn_escapeAt, if_pos rfl, backticks_eq_filter rfl,
      flatMap_range'_filter]
    have hrange : (quasi.start ≤ pos ∧ pos < quasi.start + (quasi.stop - quasi.start) ∧
        isBacktick source pos = true) ↔
        (quasi.start ≤ pos ∧ pos < quasi.stop ∧ isBacktick source pos = true) :=
      and_congr_right fun hlow => and_congr_left' (by omega)
    exact if_congr hrange rfl rfl
  have hlength := slashesBefore_length_le source
  rw [escapeLog, escape, List.flatMap_append, valuesOn_append, hticks,
    edits_interpolateTerminalBackslash, isTerminal]
  congr 1
  by_cases hodd : slashesBefore source source.length % 2 = 1
  · rw [if_pos hodd, beq_iff_eq.mpr hodd, Bool.true_and]
    by_cases hpos : pos + 1 = source.length
    · have hstart : source.length - 1 = pos := by omega
      simp [valuesOn, Edit.isAt, hpos, hstart]
    · have hstart : source.length - 1 ≠ pos := by omega
      simp [valuesOn, Edit.isAt, hpos, hstart]
  · rw [if_neg hodd, beq_eq_false_iff_ne.mpr hodd]
    rfl

theorem isCovered_escapeLog_raw (pos : Nat) :
    isCovered (escapeLog .raw source quasis) pos = isTerminal source pos := by
  have hticks : isCovered ((quasis.flatMap (escapeBackticks source)).flatMap
      (Operation.edits source)) pos = false := by
    apply isCovered_of_empty
    intro edit hedit
    obtain ⟨operation, hoperation, hedit⟩ := List.mem_flatMap.mp hedit
    obtain ⟨quasi, -, hoperation⟩ := List.mem_flatMap.mp hoperation
    obtain ⟨offset, -, rfl⟩ := List.mem_map.mp hoperation
    rw [List.mem_singleton.mp hedit]
  have hlength := slashesBefore_length_le source
  rw [escapeLog, escape, List.flatMap_append, isCovered_append, hticks, Bool.false_or,
    edits_interpolateTerminalBackslash, isTerminal]
  by_cases hodd : slashesBefore source source.length % 2 = 1
  · rw [if_pos hodd, beq_iff_eq.mpr hodd, Bool.true_and, Bool.eq_iff_iff, isCovered,
      List.any_cons, List.any_nil, Bool.or_false, Edit.covers, Bool.and_eq_true,
      decide_eq_true_iff, decide_eq_true_iff, beq_iff_eq]
    dsimp only
    omega
  · rw [if_neg hodd, beq_eq_false_iff_ne.mpr hodd]
    rfl

end

/-! ## Strings and holes -/

/-- No backtick of the literal text stands behind an odd run of backslashes. -/
def Content.TicksEven (source : List Char) (content : Content) : Prop :=
  ∀ quasi ∈ content.quasis, ∀ pos, quasi.start ≤ pos → pos < quasi.stop →
    source[pos]? = some '\x60' → slashesBefore source pos % 2 = 0

instance (source : List Char) (content : Content) : Decidable (content.TicksEven source) :=
  inferInstanceAs (Decidable (∀ quasi ∈ content.quasis, ∀ pos, quasi.start ≤ pos → pos < quasi.stop →
    source[pos]? = some '\x60' → slashesBefore source pos % 2 = 0))

/-- The holes of raw content: a backslash at the end may add one. -/
def rawHoles (source : List Char) : List (List Char) :=
  if slashesBefore source source.length % 2 = 1 then [backslashText] else []

/-- Literal text, without a last backslash that moves into a hole. -/
def Quasi.kept (source : List Char) (quasi : Quasi) : List Char :=
  if slashesBefore source source.length % 2 = 1 ∧ quasi.tail = true then
    (quasi.text source).dropLast
  else quasi.text source

/-- The raw strings of embedded content: literal text with a backslash in front of each backtick, and
nothing behind the hole of a last backslash. -/
def Content.rawStrings (source : List Char) (content : Content) : List (List Char) :=
  (content.quasis.map fun quasi => escapeTicks (quasi.kept source)) ++
    if slashesBefore source source.length % 2 = 1 then [[]] else []

section
variable {source : List Char} {content : Content} {pos : Nat}

/-- Each piece of literal text is a stretch that starts behind an even run of backslashes. Only the
last one goes to the end of the source. -/
theorem Parts.stretch (hparts : Parts readLiteral judge source pos content)
    (hpos : pos ≤ source.length) (heven : slashesBefore source pos % 2 = 0) :
    ∀ quasi ∈ content.quasis, Stretch source quasi.start quasi.stop ∧
      slashesBefore source quasi.start % 2 = 0 ∧
      (quasi.tail = true ↔ quasi.stop = source.length) := by
  induction hparts with
  | last hend =>
    intro quasi hquasi
    rw [List.mem_singleton.mp hquasi]
    exact ⟨stretch_readLiteral hpos heven, heven, fun _ => hend, fun _ => rfl⟩
  | @hole pos hole rest hopens hstart hstop hbrace hcomplete hrest ih =>
    have hlt : hole.stop < source.length := (List.getElem?_eq_some_iff.mp hbrace).1
    rw [List.forall_mem_cons]
    refine ⟨⟨stretch_readLiteral hpos heven, heven, ?_⟩,
      ih hlt (by rw [slashesBefore_of_getElem? hbrace (by decide)])⟩
    dsimp only
    constructor
    · intro htail
      cases htail
    · omega

theorem dropLast_slice {start : Nat} (hstart : start < source.length) :
    (slice source start source.length).dropLast = slice source start (source.length - 1) := by
  rw [slice, slice, List.take_of_length_le (by rw [List.length_drop]), List.dropLast_eq_take,
    List.length_drop]
  congr 1
  omega

/-- The last of an odd run at the end of the source is a backslash behind an even run. -/
theorem terminal_of_odd (hodd : slashesBefore source source.length % 2 = 1) :
    source.length - 1 + 1 = source.length ∧ source.drop (source.length - 1) = ['\\'] ∧
      slashesBefore source (source.length - 1) % 2 = 0 := by
  have hlength := slashesBefore_length_le source
  obtain ⟨c, rest, hdrop⟩ : ∃ c rest, source.drop (source.length - 1) = c :: rest :=
    ⟨_, _, List.drop_eq_getElem_cons (by omega)⟩
  have hsucc : source.length - 1 + 1 = source.length := by omega
  have hrun := slashesBefore_succ hdrop
  have hafter := drop_succ_of_drop hdrop
  rw [hsucc, List.drop_length] at hafter
  rw [hsucc] at hrun
  split at hrun
  · next hslash =>
    rw [hdrop, ← hafter, hslash]
    exact ⟨hsucc, rfl, by omega⟩
  · omega

/-- What is kept of literal text is a stretch of it that ends behind an even run of backslashes and
has all its backticks. -/
theorem Quasi.exists_kept_eq {quasi : Quasi} (hstretch : Stretch source quasi.start quasi.stop)
    (heven : slashesBefore source quasi.start % 2 = 0)
    (htail : quasi.tail = true ↔ quasi.stop = source.length) :
    ∃ stop ≤ quasi.stop, quasi.kept source = slice source quasi.start stop ∧
      slashesBefore source stop % 2 = 0 ∧
      ∀ p, p < quasi.stop → source[p]? = some '\x60' → p < stop := by
  rw [kept]
  split
  · next hlast =>
    obtain ⟨hsucc, hdrop, hslash⟩ := terminal_of_odd hlast.1
    have hend := htail.mp hlast.2
    have hne : quasi.start ≠ source.length := by
      intro heq
      rw [heq] at heven
      omega
    have hordered := hstretch.ordered
    refine ⟨source.length - 1, by omega, ?_, hslash, ?_⟩
    · rw [text, hend]
      exact dropLast_slice (by omega)
    · intro p hp htick
      have hne : p ≠ source.length - 1 := by
        rintro rfl
        rw [getElem?_of_drop hdrop] at htick
        cases htick
      omega
  · next hlast =>
    refine ⟨quasi.stop, Nat.le_refl _, rfl, ?_, fun p hp _ => hp⟩
    rcases Nat.lt_or_eq_of_le hstretch.inside with hlt | hend
    · exact (hstretch.opens hlt).2
    · rw [hend]
      by_contra hodd
      exact hlast ⟨by omega, htail.mpr hend⟩

/-- A raw string stays between backticks if its backticks stand behind even runs, and ends the
literal if one of them does not. -/
theorem literalText_kept {quasi : Quasi} (hstretch : Stretch source quasi.start quasi.stop)
    (heven : slashesBefore source quasi.start % 2 = 0)
    (htail : quasi.tail = true ↔ quasi.stop = source.length) :
    ((∀ p, quasi.start ≤ p → p < quasi.stop → source[p]? = some '\x60' →
        slashesBefore source p % 2 = 0) → LiteralText [] (escapeTicks (quasi.kept source))) ∧
      ((∃ p, quasi.start ≤ p ∧ p < quasi.stop ∧ source[p]? = some '\x60' ∧
        slashesBefore source p % 2 = 1) → EndsEarly [] (escapeTicks (quasi.kept source))) := by
  obtain ⟨stop, hle, hkept, hstop, hall⟩ := quasi.exists_kept_eq hstretch heven htail
  have hinside := Nat.le_trans hle hstretch.inside
  have hopens : ∀ p, quasi.start ≤ p → p < stop → opensAt source p = true →
      slashesBefore source p % 2 = 1 :=
    fun p hlow hhigh => hstretch.odd_of_opens p hlow (by omega)
  rw [hkept]
  constructor
  · intro hticks
    exact literalText_escapeTicks (Nat.le_refl _) hinside hopens
      (fun p hlow hhigh => hticks p hlow (by omega)) heven hstop
  · rintro ⟨p, hlow, hhigh, htick, hrun⟩
    exact endsEarly_escapeTicks (Nat.le_refl _) hinside hopens
      ⟨p, hlow, hall p hhigh htick, htick, hrun⟩ heven hstop

/-! ## What is embedded -/

section
variable {before : Nat → List Char} {gone : Nat → Bool}

/-- Only a last character can move into a hole. -/
theorem isTerminal_of_ne (h : pos + 1 ≠ source.length) : isTerminal source pos = false := by
  rw [isTerminal, beq_eq_false_iff_ne.mpr h, Bool.and_false]

/-- A stretch where a backslash is written in front of each backtick and nothing is left out. -/
theorem weave_ticks {stop : Nat} (hhigh : pos ≤ stop) (hinside : stop ≤ source.length)
    (h : ∀ p, pos ≤ p → p < stop →
      before p = (if isBacktick source p then ['\\'] else []) ∧ gone p = false) :
    weave before gone pos (source.drop pos) =
      escapeTicks (slice source pos stop) ++ weave before gone stop (source.drop stop) := by
  obtain ⟨count, hcount⟩ : ∃ count, stop - pos = count := ⟨_, rfl⟩
  induction count generalizing pos with
  | zero =>
    obtain rfl : pos = stop := by omega
    rw [slice, Nat.sub_self, List.take_zero]
    rfl
  | succ count ih =>
    have hlt : pos < stop := by omega
    obtain ⟨c, rest, hdrop⟩ : ∃ c rest, source.drop pos = c :: rest :=
      ⟨_, _, List.drop_eq_getElem_cons (Nat.lt_of_lt_of_le hlt hinside)⟩
    have hnext := @ih (pos + 1) (by omega) (fun p hlow => h p (by omega)) (by omega)
    obtain ⟨hbefore, hgone⟩ := h pos (Nat.le_refl _) hlt
    rw [hdrop, weave, hbefore, hgone, isBacktick, getElem?_of_drop hdrop, ← drop_succ_of_drop hdrop,
      hnext, slice_cons hdrop hlt, escapeTicks_cons]
    by_cases htick : c = '\x60' <;> simp [htick]

theorem rawStrings_hole (stop : Nat) (hole : Hole) (rest : Content) :
    Content.rawStrings source ⟨⟨pos, stop, false⟩ :: rest.quasis, hole :: rest.holes⟩ =
      escapeTicks (slice source pos stop) :: rest.rawStrings source := by
  rw [Content.rawStrings, List.map_cons, Quasi.kept, if_neg (fun h => Bool.false_ne_true h.2)]
  rfl

/-- What is written for literal text up to the end of the source: its raw string, and behind it the hole
of a last backslash that would escape the closing backtick. -/
theorem weave_last (hpos : pos ≤ source.length) (heven : slashesBefore source pos % 2 = 0)
    (hlast : ∀ p, isTerminal source p = true → before p = backslashHole ∧ gone p = true)
    (hinside : ∀ p, pos ≤ p → p < source.length → isTerminal source p = false →
      before p = (if isBacktick source p then ['\\'] else []) ∧ gone p = false)
    (hend : before source.length = []) :
    weave before gone pos (source.drop pos) = interleave
      (Content.rawStrings source ⟨[⟨pos, source.length, true⟩], []⟩) (rawHoles source) := by
  rw [rawHoles, Content.rawStrings, List.map_singleton, Quasi.kept, Quasi.text]
  by_cases hodd : slashesBefore source source.length % 2 = 1
  · obtain ⟨hsucc, hdrop, -⟩ := terminal_of_odd hodd
    have hlt : pos < source.length := by
      rcases Nat.eq_or_lt_of_le hpos with rfl | hlt
      · omega
      · exact hlt
    obtain ⟨hbefore, hgone⟩ := hlast (source.length - 1) (by
      rw [isTerminal, hsucc, beq_self_eq_true, beq_iff_eq.mpr hodd]
      rfl)
    have hhole : weave before gone (source.length - 1) (source.drop (source.length - 1)) =
        '$' :: '\x7b' :: (backslashText ++ '\x7d' :: []) := by
      rw [hdrop, weave, weave, hsucc, hbefore, hgone, hend]
      rfl
    rw [weave_ticks (by omega) (Nat.sub_le _ 1) (fun p hlow hhigh => hinside p hlow (by omega)
      (isTerminal_of_ne (by omega))), hhole, if_pos ⟨hodd, rfl⟩, if_pos hodd, if_pos hodd]
    dsimp only
    rw [dropLast_slice hlt]
    rfl
  · have hstays : ∀ p, isTerminal source p = false := by
      intro p
      rw [isTerminal, beq_eq_false_iff_ne.mpr hodd, Bool.false_and]
    rw [weave_ticks hpos (Nat.le_refl _) (fun p hlow hhigh => hinside p hlow hhigh (hstays p)),
      List.drop_length, weave, hend, if_neg (fun h => hodd h.1), if_neg hodd, if_neg hodd,
      List.append_nil]
    rfl

/-- What is written for the parts of a template are its raw strings with its holes between them. -/
theorem weave_parts (hparts : Parts readLiteral judge source pos content)
    (hpos : pos ≤ source.length) (heven : slashesBefore source pos % 2 = 0)
    (hlast : ∀ p, isTerminal source p = true → before p = backslashHole ∧ gone p = true)
    (hinside : ∀ quasi ∈ content.quasis, ∀ p, quasi.start ≤ p → p < quasi.stop →
      isTerminal source p = false →
      before p = (if isBacktick source p then ['\\'] else []) ∧ gone p = false)
    (houtside : ∀ p, pos ≤ p → Outside content.quasis p → isTerminal source p = false →
      before p = [] ∧ gone p = false) :
    weave before gone pos (source.drop pos) = interleave (content.rawStrings source)
      (content.holes.map (Hole.text source) ++ rawHoles source) := by
  induction hparts with
  | @last pos hend =>
    rw [hend] at hinside houtside ⊢
    have hnone := houtside source.length hpos
      (List.forall_mem_singleton.mpr fun _ => Nat.le_refl _) (isTerminal_of_ne (by omega))
    exact weave_last hpos heven hlast (hinside _ (List.mem_singleton_self _)) hnone.1
  | @hole pos hole rest hopens hstart hstop hbrace hcomplete hrest ih =>
    have hstretch := stretch_readLiteral hpos heven
    have hle := hstretch.ordered
    have hlt : hole.stop < source.length := (List.getElem?_eq_some_iff.mp hbrace).1
    have hbehind := slashesBefore_of_getElem? hbrace (by decide)
    -- nothing is written from the end of the literal text up to the closing brace, which is no backslash
    have hnone : ∀ p, readLiteral source pos ≤ p → p < hole.stop + 1 →
        before p = [] ∧ gone p = false := by
      intro p hlow hhigh
      refine houtside p (Nat.le_trans hle hlow)
        ((hrest.outside hlt (staysIn_readLiteral source) hhigh).cons hlow) ?_
      by_cases hend : p + 1 = source.length
      · obtain rfl : p = hole.stop := by omega
        rw [isTerminal, ← hend, hbehind]
        rfl
      · exact isTerminal_of_ne hend
    have hnext := ih hlt (by rw [hbehind])
      (fun quasi hquasi => hinside quasi (List.mem_cons_of_mem _ hquasi))
      (fun p hp hout => houtside p (by omega) (hout.cons (by dsimp only; omega)))
    have hwritten := weave_hole hopens (by omega) hbrace (fun p hlow hhigh => (hnone p hlow hhigh).1)
      (fun p hlow hhigh => (hnone p hlow hhigh).2)
    rw [← hstart] at hwritten
    rw [weave_ticks hle hstretch.inside (fun p hlow hhigh => hinside _ List.mem_cons_self p hlow hhigh
      (isTerminal_of_ne (by omega))), hwritten, hnext, rawStrings_hole]
    rfl

end

end

/-- What raw embedding puts between the backticks. -/
theorem embedded_raw {source : List Char} {content : Content}
    (hparse : parse source = .ok content) :
    embedded .raw source content = interleave (content.rawStrings source)
      (content.holes.map (Hole.text source) ++ rawHoles source) := by
  have hparts := parts_of_parse hparse
  have hordered := (hparts.quasis_ordered (Nat.zero_le _) (staysIn_readLiteral source)).2
  have hcovered : isCovered (escapeLog .raw source content.quasis) = isTerminal source :=
    funext isCovered_escapeLog_raw
  rw [embedded, hcovered]
  refine weave_parts hparts (Nat.zero_le _) rfl ?_ ?_ ?_
  · intro pos hlast
    have htick : isBacktick source pos = false := by
      rw [isTerminal, Bool.and_eq_true, beq_iff_eq, beq_iff_eq] at hlast
      obtain ⟨hsucc, hdrop, -⟩ := terminal_of_odd hlast.1
      obtain rfl : pos = source.length - 1 := by omega
      rw [isBacktick, getElem?_of_drop hdrop]
      rfl
    rw [valuesOn_escapeLog_raw, escapesAt_of_not htick, hlast]
    exact ⟨rfl, rfl⟩
  · intro quasi hquasi pos hlow hhigh hstays
    rw [valuesOn_escapeLog_raw, escapesAt_inside hordered hquasi hlow hhigh, hstays,
      if_neg Bool.false_ne_true, List.append_nil]
    exact ⟨rfl, rfl⟩
  · intro pos _ hout hstays
    rw [valuesOn_escapeLog_raw, escapesAt_outside hout, hstays]
    exact ⟨rfl, rfl⟩

/-! ## Whole cells -/

section
variable {source : List Char} {content : Content}

theorem length_rawStrings (hparse : parse source = .ok content) :
    (content.rawStrings source).length =
      (content.holes.map (Hole.text source) ++ rawHoles source).length + 1 := by
  have htiles := (parts_of_parse hparse).tiles (staysIn_readLiteral source) (Nat.zero_le _)
  rw [Content.rawStrings, rawHoles, List.length_append, List.length_append, List.length_map,
    List.length_map, htiles.length_eq]
  split <;> simp only [List.length_cons, List.length_nil]

/-- The strings and holes of raw content are read back if its backticks stand behind even runs of
backslashes. -/
theorem strings_embedded_raw (hparse : parse source = .ok content)
    (hticks : content.TicksEven source) :
    strings rawEscape (content.holes.map (Hole.text source) ++ rawHoles source) []
      (embedded .raw source content) = some (content.rawStrings source) := by
  have hstretch := (parts_of_parse hparse).stretch (Nat.zero_le _) rfl
  rw [embedded_raw hparse]
  refine strings_interleave (length_rawStrings hparse) ?_
  intro text htext
  rcases List.mem_append.mp htext with htext | htext
  · obtain ⟨quasi, hquasi, rfl⟩ := List.mem_map.mp htext
    obtain ⟨hquasiStretch, heven, htail⟩ := hstretch quasi hquasi
    exact (literalText_kept hquasiStretch heven htail).1 (hticks quasi hquasi)
  · split at htext
    · rw [List.mem_singleton.mp htext]
      exact .nil
    · cases htext

/-- Raw content ends early if one of its backticks stands behind an odd run of backslashes. -/
theorem endsEarly_embedded_raw (hparse : parse source = .ok content)
    (hticks : ¬ content.TicksEven source) :
    EndsEarly (content.holes.map (Hole.text source) ++ rawHoles source)
      (embedded .raw source content) := by
  have hstretch := (parts_of_parse hparse).stretch (Nat.zero_le _) rfl
  rw [embedded_raw hparse]
  refine endsEarly_interleave (length_rawStrings hparse) ?_ ?_
  · intro text htext
    rcases List.mem_append.mp htext with htext | htext
    · obtain ⟨quasi, hquasi, rfl⟩ := List.mem_map.mp htext
      obtain ⟨hquasiStretch, heven, htail⟩ := hstretch quasi hquasi
      obtain ⟨hliteral, hearly⟩ := literalText_kept hquasiStretch heven htail
      by_cases hodd : ∃ p, quasi.start ≤ p ∧ p < quasi.stop ∧ source[p]? = some '\x60' ∧
          slashesBefore source p % 2 = 1
      · exact .inr (hearly hodd)
      · refine .inl (hliteral fun p hlow hhigh htick => ?_)
        by_contra hrun
        exact hodd ⟨p, hlow, hhigh, htick, by omega⟩
    · split at htext
      · rw [List.mem_singleton.mp htext]
        exact .inl .nil
      · cases htext
  · rw [Content.TicksEven] at hticks
    push Not at hticks
    obtain ⟨quasi, hquasi, p, hlow, hhigh, htick, hrun⟩ := hticks
    obtain ⟨hquasiStretch, heven, htail⟩ := hstretch quasi hquasi
    refine ⟨escapeTicks (quasi.kept source), List.mem_append_left _ (List.mem_map_of_mem hquasi), ?_⟩
    exact (literalText_kept hquasiStretch heven htail).2 ⟨p, hlow, hhigh, htick, by omega⟩

/-- A backslash at the end is the only thing in a template that is replaced. -/
theorem terminal_apart (source : List Char) :
    (∀ operation ∈ interpolateTerminalBackslash source, operation.Placed source) ∧
      ((interpolateTerminalBackslash source).flatMap (Operation.edits source)).Pairwise Edit.Apart := by
  rw [interpolateTerminalBackslash]
  split
  · next hodd =>
    have hsome : source ≠ [] := by
      rintro rfl
      cases hodd
    have hlength := List.length_pos_iff.mpr hsome
    refine ⟨List.forall_mem_singleton.mpr ⟨.right, backslashHole, source.length - 1, source.length, ?_,
      Nat.sub_le _ _, Nat.le_refl _⟩, List.pairwise_singleton _ _⟩
    rw [Int.natCast_sub hlength]
    rfl
  · exact ⟨List.forall_mem_nil _, .nil⟩

/-- The edits of a template fit together. -/
theorem exists_runAll_embed (tag : List Char) (embedding : Embedding)
    (hparse : parse source = .ok content) :
    ∃ buffer, (Buffer.ofSource source).runAll (embed source tag embedding content) = .ok buffer := by
  have hquasis := quasis_of_parse hparse
  cases embedding with
  | cooked => exact exists_runAll_of_inserts (inserts_of_mem_embed tag hquasis)
  | raw =>
    have hescapes : ∀ operation ∈ content.quasis.flatMap (escapeBackticks source),
        operation.Inserts source := by
      intro operation hoperation
      obtain ⟨quasi, hquasi, hoperation⟩ := List.mem_flatMap.mp hoperation
      obtain ⟨hfresh, hstop⟩ := hquasis quasi hquasi
      exact inserts_of_mem_quasi hfresh hstop (List.mem_append_left _ hoperation)
    obtain ⟨hplaced, hapart⟩ := terminal_apart source
    have hquotes : ∀ operation ∈ quotes source tag, operation.Inserts source := inserts_of_mem_quotes
    have hbehind := (apart_append_iff hapart (covers_of_inserts hquotes) .nil).mpr fun _ hcovered =>
      absurd hcovered Bool.false_ne_true
    have hwhole := (apart_append_iff .nil (covers_of_inserts hescapes) hbehind).mpr fun _ _ => rfl
    rw [List.append_nil, ← List.flatMap_append, ← List.flatMap_append] at hwhole
    have hall := List.forall_mem_append.mpr ⟨fun operation hmem => (hescapes operation hmem).placed,
      List.forall_mem_append.mpr ⟨hplaced, fun operation hmem => (hquotes operation hmem).placed⟩⟩
    obtain ⟨buffer, hrun, -⟩ := (logged_ofSource source).exists_runAll hall hwhole
    refine ⟨buffer, ?_⟩
    rw [embed, escape, List.append_assoc]
    exact hrun

/-- Raw content that is read and not empty always becomes a literal. -/
theorem transpile_raw_eq_ok (tag : List Char) (hsource : source ≠ [])
    (hparse : parse source = .ok content) :
    transpile source tag .raw =
      .ok (tag ++ ['\x60'] ++ embedded .raw source content ++ ['\x60']) := by
  obtain ⟨buffer, hrun⟩ := exists_runAll_embed tag .raw hparse
  rw [transpile, if_neg (by simpa using hsource), hparse]
  dsimp only
  rw [hrun]
  dsimp only
  rw [text_of_embed hrun]

end

/-- Raw embedding is exact under one condition. Content that is read and not empty always becomes a
literal behind its tag. Reading the inside of the literal meets the holes of the content, with a hole
for a last backslash that would escape the closing backtick, and between them the literal text with one
backslash in front of each backtick, if and only if no backtick of the literal text stands behind an
odd run of backslashes. Otherwise one of these backticks ends the literal early. -/
theorem strings_raw_embedding {source tag : List Char} {content : Content} (hsource : source ≠ [])
    (hparse : parse source = .ok content) :
    ∃ body, transpile source tag .raw = .ok (tag ++ ['\x60'] ++ body ++ ['\x60']) ∧
      (strings rawEscape (content.holes.map (Hole.text source) ++ rawHoles source) [] body =
          some (content.rawStrings source) ↔ content.TicksEven source) ∧
      (¬ content.TicksEven source →
        EndsEarly (content.holes.map (Hole.text source) ++ rawHoles source) body) := by
  refine ⟨embedded .raw source content, transpile_raw_eq_ok tag hsource hparse,
    ⟨fun hread => ?_, strings_embedded_raw hparse⟩, endsEarly_embedded_raw hparse⟩
  by_contra hticks
  rw [strings_of_endsEarly (endsEarly_embedded_raw hparse hticks)] at hread
  cases hread

/-- Raw content with a hole, backticks behind even runs and a last backslash, and raw content with a
backtick behind an odd run. -/
theorem strings_raw_embedding_runs :
    (∃ content body, parse "\x60\\\\\x60$\x7bx\x7db\\".toList = .ok content ∧
      transpile "\x60\\\\\x60$\x7bx\x7db\\".toList "md".toList .raw =
        .ok ("md".toList ++ ['\x60'] ++ body ++ ['\x60']) ∧
      strings rawEscape ["x".toList, "'\\\\'".toList] [] body =
        some ["\\\x60\\\\\\\x60".toList, "b".toList, []]) ∧
    ∃ content body, parse "a\\\x60b".toList = .ok content ∧
      transpile "a\\\x60b".toList "md".toList .raw =
        .ok ("md".toList ++ ['\x60'] ++ body ++ ['\x60']) ∧
      ¬ content.TicksEven "a\\\x60b".toList ∧ EndsEarly [] body := by
  constructor
  · have hparse : parse "\x60\\\\\x60$\x7bx\x7db\\".toList =
        .ok ⟨[⟨0, 4, false⟩, ⟨8, 10, true⟩], [⟨6, 7⟩]⟩ := by decide +kernel
    obtain ⟨body, htranspile, hstrings, -⟩ := strings_raw_embedding (by decide) hparse
    exact ⟨_, body, hparse, htranspile, hstrings.mpr (by decide)⟩
  · have hparse : parse "a\\\x60b".toList = .ok ⟨[⟨0, 4, true⟩], []⟩ := by decide +kernel
    have hodd : ¬ Content.TicksEven "a\\\x60b".toList ⟨[⟨0, 4, true⟩], []⟩ := by decide
    obtain ⟨body, htranspile, -, hearly⟩ := strings_raw_embedding (by decide) hparse
    exact ⟨_, body, hparse, htranspile, hodd, hearly hodd⟩

end NotebookCell.Template
