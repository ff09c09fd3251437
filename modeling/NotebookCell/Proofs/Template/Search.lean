import Mathlib.Data.Nat.Find
import Mathlib.Order.Bounds.Basic
import NotebookCell.Proofs.Template.Content

/-!
# The search for the end of a hole

A hole ends at one of the closing braces behind its start, and they are tried from left to right. The
search stops at the first brace before which the text is one expression. If there is none, it tells
what is wrong with the leftmost text that is no expression at all, at its place in the whole source.
All of this holds whatever reads expressions.

* `mem_bracesFrom_iff`, `pairwise_bracesFrom`: the braces that are tried, in order;
* `closeHole_eq_ok_iff`, `closeHole_of_none`: what the search finds, and what it tells if it finds
  nothing;
* `readHole_search`: the answer for every source and every start of a hole.
-/

namespace NotebookCell.Template

open NotebookCell.Text NotebookCell.Script

/-! ## Braces -/

/-- A closing brace stands at or behind the start of a hole. -/
def IsBrace (source : List Char) (start stop : Nat) : Prop :=
  start ≤ stop ∧ source[stop]? = some '\x7d'

theorem le_of_mem_bracesFrom {text : List Char} {pos stop : Nat} (h : stop ∈ bracesFrom pos text) :
    pos ≤ stop := by
  induction text generalizing pos with
  | nil => cases h
  | cons c rest ih =>
    rw [bracesFrom] at h
    split at h
    · rcases List.mem_cons.mp h with rfl | h
      · exact Nat.le_refl _
      · exact Nat.le_of_succ_le (ih h)
    · exact Nat.le_of_succ_le (ih h)

theorem pairwise_bracesFrom (pos : Nat) (text : List Char) :
    (bracesFrom pos text).Pairwise (· < ·) := by
  induction text generalizing pos with
  | nil => exact .nil
  | cons c rest ih =>
    rw [bracesFrom]
    split
    · exact List.pairwise_cons.mpr ⟨fun stop hstop => le_of_mem_bracesFrom hstop, ih _⟩
    · exact ih _

/-- The braces that are tried are all those at or behind the start. -/
theorem mem_bracesFrom_iff {source : List Char} {start stop : Nat} :
    stop ∈ bracesFrom start (source.drop start) ↔ IsBrace source start stop := by
  refine ⟨brace_of_mem_bracesFrom rfl, ?_⟩
  rintro ⟨hle, hbrace⟩
  obtain ⟨count, rfl⟩ := Nat.exists_eq_add_of_le hle
  clear hle
  induction count generalizing start with
  | zero =>
    obtain ⟨hlt, hget⟩ := List.getElem?_eq_some_iff.mp hbrace
    have hdrop := List.drop_eq_getElem_cons hlt
    rw [hget] at hdrop
    rw [Nat.add_zero] at hdrop ⊢
    rw [hdrop, bracesFrom]
    exact List.mem_cons_self
  | succ count ih =>
    have hlt : start < source.length := by
      have := (List.getElem?_eq_some_iff.mp hbrace).1
      omega
    have hsum : start + 1 + count = start + (count + 1) := by omega
    have hrest := @ih (start + 1) (by rw [hsum]; exact hbrace)
    rw [hsum] at hrest
    rw [List.drop_eq_getElem_cons hlt, bracesFrom]
    split
    · exact List.mem_cons_of_mem _ hrest
    · exact hrest

/-! ## The search -/

section
variable {verdict : List Char → Verdict} {source : List Char} {start : Nat} {first : Option Problem}
  {stops : List Nat}

/-- The hole ends at the first brace before which the text is complete. -/
theorem closeHole_eq_ok_iff (hsorted : stops.Pairwise (· < ·)) {hole : Hole} :
    closeHole verdict source start first stops = .ok hole ↔ hole.start = start ∧
      IsLeast {stop | stop ∈ stops ∧ verdict (slice source start stop) = .complete} hole.stop := by
  induction stops generalizing first with
  | nil =>
    constructor
    · intro h
      cases h
    · rintro ⟨-, ⟨hnone, -⟩, -⟩
      cases hnone
  | cons stop stops ih =>
    obtain ⟨hbehind, hsorted⟩ := List.pairwise_cons.mp hsorted
    -- a brace that is passed over does not change the least one
    have hskip (hne : verdict (slice source start stop) ≠ .complete) :
        {other | other ∈ stop :: stops ∧ verdict (slice source start other) = .complete} =
          {other | other ∈ stops ∧ verdict (slice source start other) = .complete} := by
      ext other
      constructor
      · rintro ⟨hmem, hother⟩
        rcases List.mem_cons.mp hmem with rfl | hmem
        · exact absurd hother hne
        · exact ⟨hmem, hother⟩
      · rintro ⟨hmem, hother⟩
        exact ⟨List.mem_cons_of_mem _ hmem, hother⟩
    rw [closeHole]
    split
    · next hcomplete =>
      have hleast : IsLeast
          {other | other ∈ stop :: stops ∧ verdict (slice source start other) = .complete} stop := by
        refine ⟨⟨List.mem_cons_self, hcomplete⟩, ?_⟩
        rintro other ⟨hother, -⟩
        rcases List.mem_cons.mp hother with rfl | hother
        · exact Nat.le_refl _
        · exact Nat.le_of_lt (hbehind other hother)
      constructor
      · intro h
        cases h
        exact ⟨rfl, hleast⟩
      · rintro ⟨rfl, hother⟩
        rw [hleast.unique hother]
    · next hswallows =>
      rw [ih hsorted, hskip (by rw [hswallows]; exact Verdict.noConfusion)]
    · next problem hproblem =>
      rw [ih hsorted, hskip (by rw [hproblem]; exact Verdict.noConfusion)]

/-- The problem that a verdict is about, if there is one. -/
def Verdict.problem? : Verdict → Option Problem
  | .problem found => some found
  | _ => none

/-- Without an end the search tells the first problem, or that the template is not terminated. -/
theorem closeHole_of_none
    (hnone : ∀ stop ∈ stops, verdict (slice source start stop) ≠ .complete) :
    closeHole verdict source start first stops =
      .error ((first <|> (stops.findSome? fun stop =>
        (verdict (slice source start stop)).problem?).map (relocate source start)).getD
          (.fault (Cause.unterminatedTemplate.fault source (start - 2 : Int)))) := by
  induction stops generalizing first with
  | nil => cases first <;> rfl
  | cons stop stops ih =>
    obtain ⟨hstop, hothers⟩ := List.forall_mem_cons.mp hnone
    rw [closeHole, List.findSome?_cons]
    split
    · next hcomplete => exact absurd hcomplete hstop
    · next hswallows =>
      rw [ih hothers, hswallows]
      rfl
    · next problem hproblem =>
      rw [ih hothers, hproblem]
      cases first <;> rfl

/-- What a sorted list gives first stands at the least place where it gives something. -/
theorem findSome?_of_isLeast {β : Type} {f : Nat → Option β} (hsorted : stops.Pairwise (· < ·))
    {stop : Nat} {value : β} (hvalue : f stop = some value)
    (hleast : IsLeast {other | other ∈ stops ∧ (f other).isSome = true} stop) :
    stops.findSome? f = some value := by
  induction stops with
  | nil => cases hleast.1.1
  | cons other stops ih =>
    obtain ⟨hbehind, hsorted⟩ := List.pairwise_cons.mp hsorted
    rw [List.findSome?_cons]
    cases hother : f other with
    | some early =>
      have hle : stop ≤ other := hleast.2 ⟨List.mem_cons_self, by rw [hother]; rfl⟩
      rcases List.mem_cons.mp hleast.1.1 with rfl | hmem
      · rw [← hvalue, hother]
      · exact absurd (hbehind stop hmem) (Nat.not_lt.mpr hle)
    | none =>
      refine ih hsorted ⟨⟨?_, hleast.1.2⟩, fun late hlate => hleast.2 ⟨?_, hlate.2⟩⟩
      · rcases List.mem_cons.mp hleast.1.1 with rfl | hmem
        · rw [hvalue] at hother
          cases hother
        · exact hmem
      · exact List.mem_cons_of_mem _ hlate.1

end

/-! ## Reading expressions -/

section
variable (read : List Char → Except Problem ParsedExpression)

/-- Judges a text by a reader of expressions. -/
def judgeWith (text : List Char) : Verdict :=
  match read text with
  | .error problem => .problem problem
  | .ok parsed =>
    if endsInLineComment parsed.root parsed.offsets then .swallowsBrace else .complete

/-- A text is one expression, and none of its line comments reaches its end. -/
def IsWhole (text : List Char) : Prop :=
  ∃ parsed, read text = .ok parsed ∧ endsInLineComment parsed.root parsed.offsets = false

/-- The faults of a reader point into the text that it reads. -/
def PointsInside : Prop :=
  ∀ text fault, read text = .error (.fault fault) →
    ∃ pos : Nat, fault.pos = some (pos : Int) ∧ pos ≤ text.length

end

section
variable {read : List Char → Except Problem ParsedExpression} {text : List Char}

theorem judgeWith_eq_complete_iff : judgeWith read text = .complete ↔ IsWhole read text := by
  rw [judgeWith, IsWhole]
  cases read text with
  | error problem => simp
  | ok parsed => cases hends : endsInLineComment parsed.root parsed.offsets <;> simp [hends]

theorem problem?_judgeWith {problem : Problem} :
    (judgeWith read text).problem? = some problem ↔ read text = .error problem := by
  rw [judgeWith]
  cases read text with
  | error other => simp [Verdict.problem?]
  | ok parsed =>
    cases hends : endsInLineComment parsed.root parsed.offsets <;> simp [hends, Verdict.problem?]

end

/-- A text that is not one expression is refused at its start. -/
theorem pointsInside_parseExpression : PointsInside parseExpression := by
  intro text fault h
  rw [parseExpression] at h
  split at h
  · cases h
  · split at h
    · cases h
    · cases h
      exact ⟨0, rfl, Nat.zero_le _⟩

/-! ## The answer -/

section
variable {verdict : List Char → Verdict} {source : List Char} {start : Nat}

/-- The first brace is the first one that is tried. -/
theorem exists_bracesFrom_eq {first : Nat}
    (hfirst : IsLeast {stop | IsBrace source start stop} first) :
    ∃ stops, bracesFrom start (source.drop start) = first :: stops := by
  have hmem : first ∈ bracesFrom start (source.drop start) := mem_bracesFrom_iff.mpr hfirst.1
  have hsorted := pairwise_bracesFrom start (source.drop start)
  cases hbraces : bracesFrom start (source.drop start) with
  | nil =>
    rw [hbraces] at hmem
    cases hmem
  | cons stop stops =>
    have hle : first ≤ stop :=
      hfirst.2 (mem_bracesFrom_iff.mp (by rw [hbraces]; exact List.mem_cons_self))
    rw [hbraces] at hmem hsorted
    rcases List.mem_cons.mp hmem with rfl | hmem
    · exact ⟨stops, rfl⟩
    · exact absurd ((List.pairwise_cons.mp hsorted).1 first hmem) (Nat.not_lt.mpr hle)

theorem readHole_of_no_brace (hnone : ∀ stop, ¬ IsBrace source start stop) :
    readHole verdict source start =
      .error (.fault (Cause.unterminatedTemplate.fault source (start - 2 : Int))) := by
  have hempty : bracesFrom start (source.drop start) = [] :=
    List.eq_nil_iff_forall_not_mem.mpr fun stop hstop => hnone stop (mem_bracesFrom_iff.mp hstop)
  rw [readHole, hempty]

theorem readHole_of_blank {first : Nat} (hfirst : IsLeast {stop | IsBrace source start stop} first)
    (hblank : trim (slice source start first) = []) :
    readHole verdict source start =
      .error (.fault ((Cause.unexpected "\x7d").fault source first)) := by
  obtain ⟨stops, hbraces⟩ := exists_bracesFrom_eq hfirst
  rw [readHole, hbraces]
  dsimp only
  rw [hblank]
  rfl

theorem readHole_of_not_blank {first : Nat}
    (hfirst : IsLeast {stop | IsBrace source start stop} first)
    (hblank : trim (slice source start first) ≠ []) :
    readHole verdict source start =
      closeHole verdict source start none (bracesFrom start (source.drop start)) := by
  obtain ⟨stops, hbraces⟩ := exists_bracesFrom_eq hfirst
  rw [readHole, hbraces]
  dsimp only
  rw [if_neg (by simpa using hblank)]

end

section
variable {read : List Char → Except Problem ParsedExpression} {source : List Char} {start : Nat}

/-- Where there is a brace of some kind there is a first one. -/
theorem exists_isLeast {P : Nat → Prop} (h : ∃ stop, P stop) :
    ∃ first, IsLeast {stop | P stop} first := by
  classical
  exact ⟨Nat.find h, Nat.find_spec h, fun stop hstop => Nat.find_min' h hstop⟩

theorem readHole_eq_ok_iff {hole : Hole} :
    readHole (judgeWith read) source start = .ok hole ↔ hole.start = start ∧
      (∃ first, IsLeast {stop | IsBrace source start stop} first ∧
        trim (slice source start first) ≠ []) ∧
      IsLeast {stop | IsBrace source start stop ∧ IsWhole read (slice source start stop)}
        hole.stop := by
  have hcandidates : {stop | stop ∈ bracesFrom start (source.drop start) ∧
      judgeWith read (slice source start stop) = .complete} =
      {stop | IsBrace source start stop ∧ IsWhole read (slice source start stop)} :=
    Set.ext fun stop => and_congr mem_bracesFrom_iff judgeWith_eq_complete_iff
  have hclose := @closeHole_eq_ok_iff (judgeWith read) source start none _
    (pairwise_bracesFrom start (source.drop start)) hole
  rw [hcandidates] at hclose
  constructor
  · intro h
    by_cases hbrace : ∃ stop, IsBrace source start stop
    swap
    · rw [readHole_of_no_brace (not_exists.mp hbrace)] at h
      cases h
    obtain ⟨first, hfirst⟩ := exists_isLeast hbrace
    by_cases hblank : trim (slice source start first) = []
    · rw [readHole_of_blank hfirst hblank] at h
      cases h
    · rw [readHole_of_not_blank hfirst hblank, hclose] at h
      exact ⟨h.1, ⟨first, hfirst, hblank⟩, h.2⟩
  · rintro ⟨hstart, ⟨first, hfirst, hblank⟩, hleast⟩
    rw [readHole_of_not_blank hfirst hblank, hclose]
    exact ⟨hstart, hleast⟩

section
variable {first : Nat} (hfirst : IsLeast {stop | IsBrace source start stop} first)
  (hblank : trim (slice source start first) ≠ [])
  (hnone : ∀ stop, IsBrace source start stop → ¬ IsWhole read (slice source start stop))
include hfirst hblank hnone

/-- Without an end the answer is the problem with the leftmost text that is no expression. -/
theorem readHole_of_none :
    readHole (judgeWith read) source start =
      .error (((bracesFrom start (source.drop start)).findSome? fun stop =>
        (judgeWith read (slice source start stop)).problem?).map (relocate source start) |>.getD
          (.fault (Cause.unterminatedTemplate.fault source (start - 2 : Int)))) := by
  rw [readHole_of_not_blank hfirst hblank, closeHole_of_none]
  · rfl
  · intro stop hstop hcomplete
    exact hnone stop (mem_bracesFrom_iff.mp hstop) (judgeWith_eq_complete_iff.mp hcomplete)

theorem readHole_of_leftmost {stop : Nat} {problem : Problem}
    (hstop : IsLeast {stop | IsBrace source start stop ∧
      ∃ problem, read (slice source start stop) = .error problem} stop)
    (hproblem : read (slice source start stop) = .error problem) :
    readHole (judgeWith read) source start = .error (relocate source start problem) := by
  have hrefused : {stop | stop ∈ bracesFrom start (source.drop start) ∧
      (judgeWith read (slice source start stop)).problem?.isSome = true} =
      {stop | IsBrace source start stop ∧
        ∃ problem, read (slice source start stop) = .error problem} := by
    refine Set.ext fun stop => and_congr mem_bracesFrom_iff ?_
    rw [Option.isSome_iff_exists]
    exact exists_congr fun problem => problem?_judgeWith
  rw [← hrefused] at hstop
  rw [readHole_of_none hfirst hblank hnone,
    findSome?_of_isLeast (pairwise_bracesFrom _ _) (problem?_judgeWith.mpr hproblem) hstop]
  rfl

theorem readHole_of_comments
    (hall : ∀ stop, IsBrace source start stop →
      ∃ parsed, read (slice source start stop) = .ok parsed) :
    readHole (judgeWith read) source start =
      .error (.fault (Cause.unterminatedTemplate.fault source (start - 2 : Int))) := by
  have hfind : ((bracesFrom start (source.drop start)).findSome? fun stop =>
      (judgeWith read (slice source start stop)).problem?) = none := by
    rw [List.findSome?_eq_none_iff]
    intro stop hstop
    obtain ⟨parsed, hparsed⟩ := hall stop (mem_bracesFrom_iff.mp hstop)
    rw [Option.eq_none_iff_forall_ne_some]
    intro problem hproblem
    rw [problem?_judgeWith, hparsed] at hproblem
    cases hproblem
  rw [readHole_of_none hfirst hblank hnone, hfind]
  rfl

end

/-- A fault is placed between the opening of the hole and the end of the source. -/
theorem pos_of_readHole (hread : PointsInside read) (hstart : start ≤ source.length + 2)
    {fault : Fault} (h : readHole (judgeWith read) source start = .error (.fault fault)) :
    ∃ pos, fault.pos = some pos ∧ start - 2 ≤ pos ∧ pos ≤ source.length := by
  have hopening : ∃ pos, some (start - 2 : Int) = some pos ∧ start - 2 ≤ pos ∧
      pos ≤ source.length := ⟨_, rfl, Int.le_refl _, by omega⟩
  by_cases hbrace : ∃ stop, IsBrace source start stop
  swap
  · rw [readHole_of_no_brace (not_exists.mp hbrace)] at h
    cases h
    exact hopening
  obtain ⟨first, hfirst⟩ := exists_isLeast hbrace
  have hlt {stop : Nat} (hstop : IsBrace source start stop) : stop < source.length :=
    (List.getElem?_eq_some_iff.mp hstop.2).1
  by_cases hblank : trim (slice source start first) = []
  · rw [readHole_of_blank hfirst hblank] at h
    cases h
    have hle := hfirst.1.1
    have hend := hlt hfirst.1
    exact ⟨_, rfl, by omega, by omega⟩
  have hnone : ∀ stop, IsBrace source start stop → ¬ IsWhole read (slice source start stop) := by
    intro stop hstop hwhole
    obtain ⟨least, hleast⟩ := @exists_isLeast (fun stop => IsBrace source start stop ∧
      IsWhole read (slice source start stop)) ⟨stop, hstop, hwhole⟩
    have hok := (@readHole_eq_ok_iff read source start ⟨start, least⟩).mpr
      ⟨rfl, ⟨first, hfirst, hblank⟩, hleast⟩
    rw [hok] at h
    cases h
  rw [readHole_of_none hfirst hblank hnone] at h
  cases hfind : (bracesFrom start (source.drop start)).findSome? fun stop =>
      (judgeWith read (slice source start stop)).problem? with
  | none =>
    rw [hfind] at h
    cases h
    exact hopening
  | some problem =>
    obtain ⟨stop, hstop, hproblem⟩ := List.exists_of_findSome?_eq_some hfind
    rw [problem?_judgeWith] at hproblem
    have hbrace := mem_bracesFrom_iff.mp hstop
    have hend := hlt hbrace
    have hle := hbrace.1
    rw [hfind] at h
    cases problem with
    | ungrammatical => cases h
    | fault inner =>
      cases h
      obtain ⟨pos, hpos, hinside⟩ := hread _ _ hproblem
      have hlength : (slice source start stop).length ≤ stop - start := List.length_take_le ..
      refine ⟨start + inner.pos.getD 0, rfl, ?_, ?_⟩
      · rw [hpos, Option.getD_some]
        omega
      · rw [hpos, Option.getD_some]
        omega

end

/-- The answer to the search for the end of a hole, whatever reads expressions. A hole is found
exactly if the text before the first brace is not blank, and it ends at the first brace before which
there is one expression with no line comment at its end. Otherwise the template is not terminated, if
there is no brace or if every text before a brace is an expression with a line comment at its end; or
the first brace is unexpected, if the text before it is blank; or the problem is that of the leftmost
text that is no expression, at its place in the source. All these places are between the opening of
the hole and the end of the source, if those of the reader are inside of its text, as they are for the
reader of this library. -/
theorem readHole_search (read : List Char → Except Problem ParsedExpression) (source : List Char)
    (start : Nat) :
    (∀ hole, readHole (judgeWith read) source start = .ok hole ↔ hole.start = start ∧
      (∃ first, IsLeast {stop | IsBrace source start stop} first ∧
        trim (slice source start first) ≠ []) ∧
      IsLeast {stop | IsBrace source start stop ∧ IsWhole read (slice source start stop)}
        hole.stop) ∧
    ((∀ stop, ¬ IsBrace source start stop) →
      readHole (judgeWith read) source start =
        .error (.fault (.located .parse "Unterminated template" source (start - 2)))) ∧
    (∀ first, IsLeast {stop | IsBrace source start stop} first →
      trim (slice source start first) = [] →
      readHole (judgeWith read) source start =
        .error (.fault (.located .parse "Unexpected token '\x7d'" source first))) ∧
    (∀ first, IsLeast {stop | IsBrace source start stop} first →
      trim (slice source start first) ≠ [] →
      (∀ stop, IsBrace source start stop → ¬ IsWhole read (slice source start stop)) →
      ((∀ stop, IsBrace source start stop → ∃ parsed, read (slice source start stop) = .ok parsed) →
        readHole (judgeWith read) source start =
          .error (.fault (.located .parse "Unterminated template" source (start - 2)))) ∧
      ∀ stop, IsLeast {stop | IsBrace source start stop ∧
          ∃ problem, read (slice source start stop) = .error problem} stop →
        (∀ fault, read (slice source start stop) = .error (.fault fault) →
          readHole (judgeWith read) source start =
            .error (.fault (.located .parse fault.message source (start + fault.pos.getD 0)))) ∧
        (read (slice source start stop) = .error .ungrammatical →
          readHole (judgeWith read) source start = .error .ungrammatical)) ∧
    (PointsInside read → start ≤ source.length + 2 → ∀ fault,
      readHole (judgeWith read) source start = .error (.fault fault) →
        ∃ pos, fault.pos = some pos ∧ start - 2 ≤ pos ∧ pos ≤ source.length) ∧
    judgeWith parseExpression = judge ∧ PointsInside parseExpression := by
  refine ⟨fun hole => readHole_eq_ok_iff, readHole_of_no_brace,
    fun first hfirst hblank => readHole_of_blank hfirst hblank, ?_,
    fun hread hstart fault hfault => pos_of_readHole hread hstart hfault, rfl,
    pointsInside_parseExpression⟩
  intro first hfirst hblank hnone
  refine ⟨fun hall => readHole_of_comments hfirst hblank hnone hall, fun stop hstop => ⟨?_, ?_⟩⟩
  · intro fault hfault
    exact readHole_of_leftmost hfirst hblank hnone hstop hfault
  · intro hgrammar
    exact readHole_of_leftmost hfirst hblank hnone hstop hgrammar

/-- A hole that ends at its second brace, and one that holds two expressions. -/
theorem readHole_search_braces :
    (readHole judge "$\x7b\x7ba: 1\x7d.a\x7d".toList 2 = .ok ⟨2, 10⟩ ∧
      IsLeast {stop | IsBrace "$\x7b\x7ba: 1\x7d.a\x7d".toList 2 stop ∧
        IsWhole parseExpression (slice "$\x7b\x7ba: 1\x7d.a\x7d".toList 2 stop)} 10) ∧
    ∃ fault, readHole judge "$\x7ba); (b\x7d".toList 2 = .error (.fault fault) ∧
      fault.message = "Expected a single expression" ∧
      ∃ pos, fault.pos = some pos ∧ ((2 : Nat) : Int) - 2 ≤ pos ∧
        pos ≤ "$\x7ba); (b\x7d".toList.length := by
  constructor
  · have hfound : readHole judge "$\x7b\x7ba: 1\x7d.a\x7d".toList 2 = .ok ⟨2, 10⟩ := by
      decide +kernel
    exact ⟨hfound, (((readHole_search parseExpression _ 2).1 _).mp hfound).2.2⟩
  · have hfault : readHole judge "$\x7ba); (b\x7d".toList 2 =
        .error (.fault ⟨.parse, "Expected a single expression", some 2, some 1, some 2⟩) := by
      decide +kernel
    exact ⟨_, hfault, rfl, (readHole_search parseExpression _ 2).2.2.2.2.1
      pointsInside_parseExpression (by decide) _ hfault⟩

end NotebookCell.Template
