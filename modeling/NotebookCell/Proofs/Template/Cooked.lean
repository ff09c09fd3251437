import NotebookCell.Proofs.Editing.Text
import NotebookCell.Proofs.Template.Content
import NotebookCell.Template.Escape

/-!
# Reading an embedded template back

A template literal is read left to right: a backslash takes the next character with it, a backtick
ends the literal and `${` opens a hole. `strings` reads the inside of a literal whose holes are known
and gives the strings between them. Content that is embedded cooked reads back as its own literal
text, without the backslashes that only keep a hole from opening.
-/

namespace NotebookCell.Template

open NotebookCell.Editing

/-! ## Reading template literals -/

/-- Adds text in front of the first of some strings. -/
def pushText (text : List Char) : List (List Char) → List (List Char)
  | [] => []
  | first :: others => (text ++ first) :: others

/-- The strings of the inside of a template literal whose holes hold the texts `holes`, with each
escape read by `escape`. `pending` is what is still to come of the hole being read. There are none if
a backtick stands unescaped, if an escape cannot be read, or if the holes are others. -/
def strings (escape : Char → Option (List Char)) :
    (holes : List (List Char)) → (pending : List Char) → List Char → Option (List (List Char))
  | [], [], [] => some [[]]
  | _, _, [] => none
  | holes, expected :: pending, c :: rest =>
    if c == expected then strings escape holes pending rest else none
  | holes, [], '\\' :: c :: rest =>
    match escape c with
    | some text => (strings escape holes [] rest).map (pushText text)
    | none => none
  | hole :: holes, [], '$' :: '\x7b' :: rest =>
    (strings escape holes (hole ++ ['\x7d']) rest).map ([] :: ·)
  | [], [], '$' :: '\x7b' :: _ => none
  | holes, [], c :: rest =>
    if c == '\x60' || c == '\\' then none
    else (strings escape holes [] rest).map (pushText [c])

/-- The characters that stand for themselves behind a backslash. -/
def cookedEscape (c : Char) : Option (List Char) :=
  if c == '\\' || c == '\x60' || c == '\x7b' || c == '$' then some [c] else none

section
variable {escape : Char → Option (List Char)} {holes : List (List Char)}

theorem pushText_append (text text' : List Char) (found : List (List Char)) :
    pushText text (pushText text' found) = pushText (text ++ text') found := by
  cases found with
  | nil => rfl
  | cons first others => simp [pushText]

theorem pushText_nil : pushText [] = id := by
  funext found
  cases found <;> rfl

theorem strings_escape {c : Char} {text rest : List Char} (h : escape c = some text) :
    strings escape holes [] ('\\' :: c :: rest) =
      (strings escape holes [] rest).map (pushText text) := by
  simp [strings, h]

/-- A character that starts no escape and no hole stands for itself. -/
theorem strings_plain {c : Char} {rest : List Char} (hslash : c ≠ '\\') (htick : c ≠ '\x60')
    (hopen : c = '$' → rest.head? ≠ some '\x7b') :
    strings escape holes [] (c :: rest) = (strings escape holes [] rest).map (pushText [c]) := by
  rw [strings.eq_def]
  grind

/-- The text of a hole is passed over. -/
theorem strings_pending (pending rest : List Char) :
    strings escape holes pending (pending ++ rest) = strings escape holes [] rest := by
  induction pending with
  | nil => rfl
  | cons c pending ih => simp [strings, ih]

/-- A hole separates two strings. -/
theorem strings_hole (hole rest : List Char) :
    strings escape (hole :: holes) [] ('$' :: '\x7b' :: (hole ++ '\x7d' :: rest)) =
      (strings escape holes [] rest).map ([] :: ·) := by
  have hpending : strings escape holes (hole ++ ['\x7d']) (hole ++ '\x7d' :: rest) =
      strings escape holes [] rest := by
    rw [← strings_pending (hole ++ ['\x7d']) rest, List.append_assoc]
    rfl
  rw [strings, hpending]

end

/-! ## Protected backslashes -/

/-- Whether the backslash at an offset keeps a hole from opening: it ends a run of backslashes
between a dollar sign and a brace, or it is the last of an odd run before `${`. -/
def isProtected (source : List Char) (pos : Nat) : Bool :=
  source[pos]? == some '\\' &&
    ((source[pos + 1]? == some '\x7b' && beforeSlashes? source pos == some '$') ||
      (opensAt source (pos + 1) && slashesBefore source pos % 2 == 0))

/-- Whether a backslash is put in front of the character at an offset. -/
def isEscaped (source : List Char) (pos : Nat) : Bool :=
  source[pos]? == some '\x60' || (source[pos]? == some '\\' && !isProtected source pos)

/-- Literal text without its protected backslashes. -/
def Quasi.cooked (source : List Char) (quasi : Quasi) : List Char :=
  weave (fun _ => []) (isProtected source) quasi.start (quasi.text source)

/-- Neither backslashes nor a dollar sign with backslashes stand directly before the offset. -/
structure Fresh (source : List Char) (pos : Nat) : Prop where
  slashes : slashesBefore source pos = 0
  dollar : beforeSlashes? source pos ≠ some '$'

theorem fresh_zero (source : List Char) : Fresh source 0 :=
  ⟨rfl, by simp [beforeSlashes?]⟩

theorem fresh_of_brace {source : List Char} {pos : Nat} (h : source[pos]? = some '\x7d') :
    Fresh source (pos + 1) := by
  obtain ⟨hlt, hget⟩ := List.getElem?_eq_some_iff.mp h
  have hdrop := List.drop_eq_getElem_cons hlt
  rw [hget] at hdrop
  refine ⟨slashesBefore_of_getElem? h (by decide), ?_⟩
  rw [beforeSlashes?_succ hdrop, if_neg (by decide)]
  decide

theorem backticks_nil (count pos : Nat) : backticks count pos [] = [] := by
  cases count <;> rfl

theorem backslashes_nil (count pos : Nat) (dollar odd : Bool) :
    backslashes count pos dollar odd [] = [] := by
  cases count <;> rfl

/-- The backticks to escape. -/
theorem backticks_eq_filter {source text : List Char} {count pos : Nat}
    (htext : source.drop pos = text) :
    backticks count pos text =
      (List.range' pos count).filter fun p => source[p]? == some '\x60' := by
  induction count generalizing pos text with
  | zero => rfl
  | succ count ih =>
    rw [List.range'_succ, List.filter_cons]
    cases text with
    | nil =>
      have hlength : source.length ≤ pos := List.drop_eq_nil_iff.mp htext
      rw [backticks_nil, ← ih (List.drop_eq_nil_iff.mpr (Nat.le_succ_of_le hlength)),
        List.getElem?_eq_none hlength, backticks_nil]
      rfl
    | cons c rest =>
      rw [backticks, ih (drop_succ_of_drop htext), getElem?_of_drop htext]
      by_cases hc : c = '\x60' <;> simp [hc]

/-- The backslashes to double are those that are not protected: the flags say what stands before the
offset. -/
theorem backslashes_eq_filter {source text : List Char} {count pos : Nat} {dollar odd : Bool}
    (htext : source.drop pos = text) (hdollar : dollar = (beforeSlashes? source pos == some '$'))
    (hodd : odd = (slashesBefore source pos % 2 == 1)) :
    backslashes count pos dollar odd text = (List.range' pos count).filter fun p =>
      source[p]? == some '\\' && !isProtected source p := by
  induction count generalizing pos text dollar odd with
  | zero => rfl
  | succ count ih =>
    rw [List.range'_succ, List.filter_cons]
    cases text with
    | nil =>
      have hlength : source.length ≤ pos := List.drop_eq_nil_iff.mp htext
      rw [backslashes_nil, ← ih (List.drop_eq_nil_iff.mpr (Nat.le_succ_of_le hlength)) rfl rfl,
        List.getElem?_eq_none hlength, backslashes_nil]
      rfl
    | cons c rest =>
      have hnext := drop_succ_of_drop htext
      have hget := getElem?_of_drop htext
      have hbefore := beforeSlashes?_succ htext
      have hslashes := slashesBefore_succ htext
      rw [backslashes, hget]
      split
      · next hc =>
        rw [beq_iff_eq] at hc
        rw [hc, if_neg (by decide)] at hbefore hslashes
        rw [ih hnext (by rw [hbefore]; rfl) (by rw [hslashes]; rfl), hc]
        rfl
      split
      · next hc =>
        rw [beq_iff_eq] at hc
        rw [hc, if_pos rfl] at hbefore hslashes
        have hprotected : isProtected source pos =
            ((dollar && rest.head? == some '\x7b') || (!odd && "$\x7b".toList.isPrefixOf rest)) := by
          have hhead : source[pos + 1]? = rest.head? := by rw [← hnext, List.head?_drop]
          have heven : (slashesBefore source pos % 2 == 0) = !odd := by
            rw [hodd]
            rcases Nat.mod_two_eq_zero_or_one (slashesBefore source pos) with h | h <;> simp [h]
          rw [isProtected, hget, hc, hhead, opensAt, hnext, heven, ← hdollar]
          simp [Bool.and_comm]
        have hodd' : (!odd) = (slashesBefore source (pos + 1) % 2 == 1) := by
          rw [hodd, hslashes]
          rcases Nat.mod_two_eq_zero_or_one (slashesBefore source pos) with h | h <;>
            simp [h, Nat.add_mod]
        rw [ih hnext (by rw [hdollar, hbefore]) hodd', ← hprotected, hc]
        cases isProtected source pos <;> simp
      · next hdollarSign hslash =>
        rw [beq_iff_eq] at hdollarSign hslash
        rw [if_neg hslash] at hbefore hslashes
        rw [ih hnext (by simp [hbefore, hdollarSign]) (by rw [hslashes]; rfl)]
        simp [hslash]

/-! ## What is written where -/

/-- A value written at the offsets of a range that pass a test. -/
theorem flatMap_range'_filter (test : Nat → Bool) (value : List Char) (start count pos : Nat) :
    (((List.range' start count).filter test).filter (· == pos)).flatMap (fun _ => value) =
      if start ≤ pos ∧ pos < start + count ∧ test pos = true then value else [] := by
  have hnodup : ((List.range' start count).filter test).Nodup :=
    (List.nodup_range' 1).filter test
  have hmem : pos ∈ (List.range' start count).filter test ↔
      start ≤ pos ∧ pos < start + count ∧ test pos = true := by
    rw [List.mem_filter, List.mem_range'_1, and_assoc]
  rw [List.filter_beq, hnodup.count]
  by_cases hin : start ≤ pos ∧ pos < start + count ∧ test pos = true
  · rw [if_pos hin, if_pos (hmem.mpr hin)]
    exact List.append_nil _
  · rw [if_neg hin, if_neg (fun h => hin (hmem.mp h))]
    rfl

theorem valuesOn_escapeAt (side : Side) (source : List Char) (offsets : List Nat) (pos : Nat) :
    valuesOn side ((escapeAt offsets).flatMap (Operation.edits source)) pos =
      if side = .right then (offsets.filter (· == pos)).flatMap (fun _ => ['\\']) else [] := by
  induction offsets with
  | nil => cases side <;> rfl
  | cons offset offsets ih =>
    have hone : (escapeAt (offset :: offsets)).flatMap (Operation.edits source) =
        ⟨.right, offset, offset, ['\\']⟩ :: (escapeAt offsets).flatMap (Operation.edits source) := rfl
    rw [hone, ← List.singleton_append, valuesOn_append, ih]
    by_cases hoffset : offset = pos <;> cases side <;> simp [valuesOn, Edit.isAt, hoffset]

/-- The edits of one stretch of text put a backslash in front of each character to escape. -/
theorem valuesOn_quasi {source : List Char} {quasi : Quasi} (hfresh : Fresh source quasi.start)
    (side : Side) (pos : Nat) :
    valuesOn side ((escapeBackticks source quasi ++ escapeBackslashes source quasi).flatMap
      (Operation.edits source)) pos =
      if side = .right ∧ quasi.start ≤ pos ∧ pos < quasi.stop ∧ isEscaped source pos = true then
        ['\\'] else [] := by
  rw [List.flatMap_append, valuesOn_append, escapeBackticks, escapeBackslashes, valuesOn_escapeAt,
    valuesOn_escapeAt, backticks_eq_filter rfl,
    backslashes_eq_filter rfl (by simp [hfresh.dollar]) (by rw [hfresh.slashes]; rfl),
    flatMap_range'_filter, flatMap_range'_filter]
  cases side with
  | left => simp
  | right =>
    have hrange : quasi.start ≤ pos → (pos < quasi.start + (quasi.stop - quasi.start) ↔
        pos < quasi.stop) := by omega
    by_cases hlow : quasi.start ≤ pos
    · by_cases htick : source[pos]? = some '\x60' <;> simp [hlow, hrange hlow, isEscaped, htick]
    · simp [hlow]

/-- The backslashes written at an offset that passes a test, for stretches of text. -/
def escapesAt (test : Nat → Bool) (quasis : List Quasi) (pos : Nat) : List Char :=
  quasis.flatMap fun quasi =>
    if quasi.start ≤ pos ∧ pos < quasi.stop ∧ test pos = true then ['\\'] else []

/-- Outside the stretches nothing is written. -/
theorem escapesAt_outside {test : Nat → Bool} {quasis : List Quasi} {pos : Nat}
    (h : Outside quasis pos) : escapesAt test quasis pos = [] := by
  rw [escapesAt, List.flatMap_eq_nil_iff]
  intro quasi hquasi
  have hout := h quasi hquasi
  rw [if_neg (by omega)]

theorem escapesAt_of_not {test : Nat → Bool} {quasis : List Quasi} {pos : Nat}
    (h : test pos = false) : escapesAt test quasis pos = [] := by
  rw [escapesAt, List.flatMap_eq_nil_iff]
  intro quasi _
  rw [if_neg (by simp [h])]

/-- Inside a stretch a backslash is written where the character needs one. -/
theorem escapesAt_inside {test : Nat → Bool} {quasis : List Quasi} {pos : Nat} {quasi : Quasi}
    (hordered : quasis.Pairwise (·.stop ≤ ·.start)) (hquasi : quasi ∈ quasis)
    (hlow : quasi.start ≤ pos) (hhigh : pos < quasi.stop) :
    escapesAt test quasis pos = if test pos then ['\\'] else [] := by
  induction quasis with
  | nil => cases hquasi
  | cons first others ih =>
    obtain ⟨hhead, htail⟩ := List.pairwise_cons.mp hordered
    rw [escapesAt, List.flatMap_cons]
    rcases List.mem_cons.mp hquasi with rfl | hquasi
    · have hnone : escapesAt test others pos = [] := by
        apply escapesAt_outside
        intro other hother hstart
        have hbehind := hhead other hother
        omega
      rw [escapesAt] at hnone
      rw [hnone, List.append_nil]
      simp [hlow, hhigh]
    · have hbehind := hhead quasi hquasi
      rw [if_neg (by omega)]
      exact ih htail hquasi

/-! ## Reading back -/

section
variable {before : Nat → List Char} {holes : List (List Char)} {source : List Char}

/-- The source from an offset on with what is written in front of its characters. -/
def writtenFrom (before : Nat → List Char) (source : List Char) (pos : Nat) : List Char :=
  weave before (fun _ => false) pos (source.drop pos)

/-- The text between two offsets without its protected backslashes. -/
def unprotected (source : List Char) (start stop : Nat) : List Char :=
  weave (fun _ => []) (isProtected source) start (slice source start stop)

theorem writtenFrom_cons (before : Nat → List Char) {pos : Nat} {c : Char} {rest : List Char}
    (h : source.drop pos = c :: rest) :
    writtenFrom before source pos = before pos ++ c :: writtenFrom before source (pos + 1) := by
  rw [writtenFrom, writtenFrom, h, drop_succ_of_drop h, weave]
  simp

/-- A brace comes first only if it is the next character of the source. -/
theorem drop_of_head?_brace {pos : Nat} (hbefore : before pos = [] ∨ before pos = ['\\'])
    (h : (writtenFrom before source pos).head? = some '\x7b') :
    ∃ rest, source.drop pos = '\x7b' :: rest := by
  cases hdrop : source.drop pos with
  | nil =>
    rw [writtenFrom, hdrop, weave] at h
    rcases hbefore with hbefore | hbefore <;> simp [hbefore] at h
  | cons c rest =>
    rw [writtenFrom_cons before hdrop] at h
    rcases hbefore with hbefore | hbefore
    · rw [hbefore, List.nil_append, List.head?_cons, Option.some.injEq] at h
      exact ⟨rest, by rw [h]⟩
    · simp [hbefore] at h

theorem slice_cons {start stop : Nat} {c : Char} {rest : List Char}
    (h : source.drop start = c :: rest) (hlt : start < stop) :
    slice source start stop = c :: slice source (start + 1) stop := by
  obtain ⟨count, rfl⟩ := Nat.exists_eq_add_of_lt hlt
  have hcount : start + count + 1 - start = count + 1 := by omega
  have hcount' : start + count + 1 - (start + 1) = count := by omega
  rw [slice, slice, h, drop_succ_of_drop h, hcount, hcount', List.take_succ_cons]

theorem unprotected_cons {start stop : Nat} {c : Char} {rest : List Char}
    (h : source.drop start = c :: rest) (hlt : start < stop) :
    unprotected source start stop =
      (if isProtected source start then [] else [c]) ++ unprotected source (start + 1) stop := by
  rw [unprotected, unprotected, slice_cons h hlt, weave, List.nil_append]

/-- Where `${` stands. -/
theorem drop_of_opensAt {pos : Nat} (h : opensAt source pos = true) :
    ∃ rest, source.drop pos = '$' :: '\x7b' :: rest := by
  obtain ⟨rest, hrest⟩ := List.isPrefixOf_iff_prefix.mp h
  exact ⟨rest, hrest.symm⟩

/-- A protected backslash stands before a brace or a dollar sign of the same stretch. -/
theorem next_of_isProtected {start stop pos : Nat} (hstretch : Stretch source start stop)
    (hpos : pos < stop) (h : isProtected source pos = true) :
    pos + 1 < stop ∧
      ∃ c rest, source.drop (pos + 1) = c :: rest ∧ (c = '\x7b' ∨ c = '$') := by
  simp only [isProtected, Bool.and_eq_true, Bool.or_eq_true, beq_iff_eq] at h
  obtain ⟨hslash, ⟨hbrace, -⟩ | ⟨hopens, heven⟩⟩ := h
  · obtain ⟨hlt, hget⟩ := List.getElem?_eq_some_iff.mp hbrace
    have hdrop := List.drop_eq_getElem_cons hlt
    rw [hget] at hdrop
    refine ⟨?_, _, _, hdrop, .inl rfl⟩
    by_contra hend
    -- at the end of the stretch stands a dollar sign
    have hstop : stop = pos + 1 := by omega
    obtain ⟨rest, hrest⟩ := drop_of_opensAt (hstretch.opens (hstop ▸ hlt)).1
    rw [hstop, hdrop] at hrest
    simp at hrest
  · obtain ⟨rest, hdrop⟩ := drop_of_opensAt hopens
    refine ⟨?_, _, _, hdrop, .inr rfl⟩
    by_contra hend
    -- at the end of the stretch the run is even
    have hstop : stop = pos + 1 := by omega
    have hstopEven := (hstretch.opens (hstop ▸ length_of_drop hdrop)).2
    obtain ⟨hlt, hget⟩ := List.getElem?_eq_some_iff.mp hslash
    rw [hstop, slashesBefore_succ (List.drop_eq_getElem_cons hlt), hget, if_pos rfl] at hstopEven
    omega

/-- Inside a stretch a `${` stands behind a protected backslash. -/
theorem isProtected_of_opensAt {start stop pos : Nat} (hstretch : Stretch source start stop)
    (hfresh : Fresh source start) (hlow : start ≤ pos) (hhigh : pos < stop)
    (h : opensAt source pos = true) : ∃ p, p + 1 = pos ∧ start ≤ p ∧ isProtected source p = true := by
  have hodd := hstretch.odd_of_opens pos hlow hhigh h
  have hne : pos ≠ start := by
    intro heq
    rw [heq, hfresh.slashes] at hodd
    omega
  obtain ⟨p, rfl⟩ : ∃ p, pos = p + 1 := ⟨pos - 1, by omega⟩
  refine ⟨p, rfl, by omega, ?_⟩
  have hlt : p < source.length := by
    have := hstretch.inside
    omega
  have hdrop := List.drop_eq_getElem_cons hlt
  rw [slashesBefore_succ hdrop] at hodd
  split at hodd
  · next hslash =>
    have heven : slashesBefore source p % 2 = 0 := by omega
    simp [isProtected, getElem?_of_drop hdrop, hslash, h, heven]
  · omega

/-- Reading can go on at an offset: no protected backslash stands directly before it. -/
def Aligned (source : List Char) (start pos : Nat) : Prop :=
  ∀ p, p + 1 = pos → start ≤ p → isProtected source p = false

theorem aligned_succ {start pos : Nat} (h : isProtected source pos = false) :
    Aligned source start (pos + 1) := by
  intro p hp _
  rw [Nat.add_right_cancel hp, h]

theorem isProtected_eq_false {pos : Nat} {c : Char} {rest : List Char}
    (h : source.drop pos = c :: rest) (hc : c ≠ '\\') : isProtected source pos = false := by
  simp [isProtected, getElem?_of_drop h, hc]

theorem isEscaped_eq_false {pos : Nat} {c : Char} {rest : List Char}
    (h : source.drop pos = c :: rest) (hc : c ≠ '\\') (hc' : c ≠ '\x60') :
    isEscaped source pos = false := by
  simp [isEscaped, getElem?_of_drop h, hc, hc']

/-- Where reading can go on, a dollar sign has no brace written behind it. -/
theorem head?_writtenFrom_ne_brace {start stop pos : Nat} {rest : List Char}
    (hstretch : Stretch source start stop) (hfresh : Fresh source start) (hlow : start ≤ pos)
    (hhigh : pos < stop)
    (hbefore : ∀ p, start ≤ p → p < stop → before p = if isEscaped source p then ['\\'] else [])
    (hstop : before stop = []) (haligned : Aligned source start pos)
    (hdrop : source.drop pos = '$' :: rest) :
    (writtenFrom before source (pos + 1)).head? ≠ some '\x7b' := by
  intro hbrace
  have hnext : before (pos + 1) = [] ∨ before (pos + 1) = ['\\'] := by
    rcases Nat.lt_or_eq_of_le (Nat.succ_le_of_lt hhigh) with hin | hin
    · rw [hbefore (pos + 1) (by omega) hin]
      split <;> simp
    · left
      rw [← hstop, ← hin]
  obtain ⟨rest', hdrop'⟩ := drop_of_head?_brace hnext hbrace
  have hopens : opensAt source pos = true := by
    rw [opensAt, hdrop, ← drop_succ_of_drop hdrop, hdrop']
    simp
  -- the literal text goes over an opening only behind a protected backslash, and reading would have
  -- taken the two together
  obtain ⟨p, hp, hstart, hprotected⟩ := isProtected_of_opensAt hstretch hfresh hlow hhigh hopens
  rw [haligned p hp hstart] at hprotected
  cases hprotected

/-- One step of reading inside a stretch: an escape that was written, a protected backslash with the
character it protects, or a plain character. -/
theorem strings_step {start stop pos : Nat} (hstretch : Stretch source start stop)
    (hfresh : Fresh source start) (hlow : start ≤ pos) (hhigh : pos < stop)
    (hbefore : ∀ p, start ≤ p → p < stop → before p = if isEscaped source p then ['\\'] else [])
    (hstop : before stop = []) (haligned : Aligned source start pos) :
    ∃ next text, pos < next ∧ next ≤ stop ∧ Aligned source start next ∧
      strings cookedEscape holes [] (writtenFrom before source pos) =
        (strings cookedEscape holes [] (writtenFrom before source next)).map (pushText text) ∧
      unprotected source pos stop = text ++ unprotected source next stop := by
  have hlt : pos < source.length := Nat.lt_of_lt_of_le hhigh hstretch.inside
  obtain ⟨c, rest, hdrop⟩ : ∃ c rest, source.drop pos = c :: rest :=
    ⟨_, _, List.drop_eq_getElem_cons hlt⟩
  have hwritten := writtenFrom_cons before hdrop
  have hkept := unprotected_cons hdrop hhigh
  rw [hbefore pos hlow hhigh] at hwritten
  have hget := getElem?_of_drop hdrop
  by_cases hescaped : isEscaped source pos = true
  · -- the character is a backtick or a backslash, with one more backslash in front of it
    obtain ⟨hprotected, hc⟩ : isProtected source pos = false ∧ cookedEscape c = some [c] := by
      simp only [isEscaped, hget, Bool.or_eq_true, Bool.and_eq_true, beq_iff_eq,
        Option.some.injEq, Bool.not_eq_true'] at hescaped
      rcases hescaped with rfl | ⟨rfl, hprotected⟩
      · exact ⟨isProtected_eq_false hdrop (by decide), rfl⟩
      · exact ⟨hprotected, rfl⟩
    rw [if_pos hescaped, List.singleton_append] at hwritten
    rw [hprotected, if_neg Bool.false_ne_true] at hkept
    exact ⟨pos + 1, [c], by omega, by omega, aligned_succ hprotected,
      by rw [hwritten, strings_escape hc], hkept⟩
  rw [if_neg hescaped, List.nil_append] at hwritten
  by_cases hprotected : isProtected source pos = true
  · -- the backslash goes together with the next character
    obtain ⟨hnext, d, rest', hdrop', hd⟩ := next_of_isProtected hstretch hhigh hprotected
    obtain ⟨hslash, htick, hescape⟩ : d ≠ '\\' ∧ d ≠ '\x60' ∧ cookedEscape d = some [d] := by
      rcases hd with rfl | rfl <;> decide
    have hc : c = '\\' := by
      simp only [isProtected, hget, Bool.and_eq_true, beq_iff_eq, Option.some.injEq] at hprotected
      exact hprotected.1
    have hplain := isProtected_eq_false hdrop' hslash
    have hwritten' := writtenFrom_cons before hdrop'
    have hkept' := unprotected_cons hdrop' hnext
    rw [hbefore (pos + 1) (by omega) hnext, isEscaped_eq_false hdrop' hslash htick,
      if_neg Bool.false_ne_true, List.nil_append] at hwritten'
    rw [hplain, if_neg Bool.false_ne_true] at hkept'
    rw [if_pos hprotected, List.nil_append, hkept'] at hkept
    exact ⟨pos + 1 + 1, [d], by omega, by omega, aligned_succ hplain,
      by rw [hwritten, hwritten', hc, strings_escape hescape], hkept⟩
  · -- the character is plain
    rw [if_neg hprotected] at hkept
    have hslash : c ≠ '\\' := by
      rintro rfl
      simp [isEscaped, hget, hprotected] at hescaped
    have htick : c ≠ '\x60' := by
      rintro rfl
      simp [isEscaped, hget] at hescaped
    have hopen : c = '$' → (writtenFrom before source (pos + 1)).head? ≠ some '\x7b' := by
      rintro rfl
      exact head?_writtenFrom_ne_brace hstretch hfresh hlow hhigh hbefore hstop haligned hdrop
    exact ⟨pos + 1, [c], by omega, by omega, aligned_succ (Bool.not_eq_true _ ▸ hprotected),
      by rw [hwritten, strings_plain hslash htick hopen], hkept⟩

/-- From any offset where reading can go on, the strings of what is written start with the rest of
the stretch without its protected backslashes. -/
theorem strings_stretch {start stop pos : Nat} (hstretch : Stretch source start stop)
    (hfresh : Fresh source start) (hlow : start ≤ pos) (hhigh : pos ≤ stop)
    (hbefore : ∀ p, start ≤ p → p < stop → before p = if isEscaped source p then ['\\'] else [])
    (hstop : before stop = []) (haligned : Aligned source start pos) :
    strings cookedEscape holes [] (writtenFrom before source pos) =
      (strings cookedEscape holes [] (writtenFrom before source stop)).map
        (pushText (unprotected source pos stop)) := by
  -- by the number of characters left in the stretch
  obtain ⟨count, hcount⟩ : ∃ count, stop - pos = count := ⟨_, rfl⟩
  induction count using Nat.strongRecOn generalizing pos with
  | ind count ih =>
  rcases Nat.eq_or_lt_of_le hhigh with rfl | hlt
  · have hnone : unprotected source pos pos = [] := by simp [unprotected, slice, weave]
    rw [hnone, pushText_nil, Option.map_id, id]
  · obtain ⟨next, text, hnext, hle, halign, hstrings, hkept⟩ :=
      strings_step hstretch hfresh hlow hlt hbefore hstop haligned
    rw [hstrings, ih (stop - next) (by omega) (by omega) hle halign rfl, hkept, Option.map_map]
    congr 1
    funext found
    exact pushText_append _ _ _

/-- Where nothing is written or left out a hole is copied as it stands. -/
theorem weave_hole {gone : Nat → Bool} {pos stop : Nat} (hopens : opensAt source pos = true)
    (hstop : pos + 2 ≤ stop) (hbrace : source[stop]? = some '\x7d')
    (hbefore : ∀ p, pos ≤ p → p < stop + 1 → before p = [])
    (hgone : ∀ p, pos ≤ p → p < stop + 1 → gone p = false) :
    weave before gone pos (source.drop pos) =
      '$' :: '\x7b' :: (slice source (pos + 2) stop ++
        '\x7d' :: weave before gone (stop + 1) (source.drop (stop + 1))) := by
  obtain ⟨rest, hdrop⟩ := drop_of_opensAt hopens
  have hlt : stop < source.length := (List.getElem?_eq_some_iff.mp hbrace).1
  have htwo := drop_succ_of_drop (drop_succ_of_drop hdrop)
  rw [weave_skip 0 (by omega) hlt hbefore (fun p hlow hhigh => by simp [hgone p hlow hhigh])]
  have hcut : (source.take (stop + 1)).drop (max pos 0) =
      '$' :: '\x7b' :: (slice source (pos + 2) stop ++ ['\x7d']) := by
    have hcount : stop + 1 - pos = stop - (pos + 2) + 1 + 1 + 1 := by omega
    have hlast : rest[stop - (pos + 2)]? = some '\x7d' := by
      rw [← htwo, List.getElem?_drop, ← hbrace]
      congr 1
      omega
    rw [Nat.max_zero, List.drop_take, hdrop, hcount, List.take_succ_cons, List.take_succ_cons,
      List.take_add_one, hlast, slice, htwo]
    rfl
  rw [hcut]
  simp

/-- What is written for the parts of a template reads back, part by part. -/
theorem strings_parts {pos : Nat} {content : Content}
    (hparts : Parts readLiteral judge source pos content) (hpos : pos ≤ source.length)
    (hfresh : Fresh source pos)
    (hinside : ∀ quasi ∈ content.quasis, ∀ p, quasi.start ≤ p → p < quasi.stop →
      before p = if isEscaped source p then ['\\'] else [])
    (houtside : ∀ p, pos ≤ p → Outside content.quasis p → before p = []) :
    strings cookedEscape (content.holes.map (Hole.text source)) [] (writtenFrom before source pos) =
      some (content.quasis.map (Quasi.cooked source)) := by
  induction hparts with
  | @last pos hend =>
    have hstretch := stretch_readLiteral hpos (by rw [hfresh.slashes])
    have hnone : before (readLiteral source pos) = [] := by
      apply houtside _ hstretch.ordered
      intro quasi hquasi _
      exact Nat.le_of_eq (congrArg Quasi.stop (List.mem_singleton.mp hquasi))
    rw [strings_stretch hstretch hfresh (Nat.le_refl _) hstretch.ordered
      (hinside _ (List.mem_singleton_self _)) hnone (fun p hp hle => by omega)]
    have hempty : writtenFrom before source (readLiteral source pos) = [] := by
      rw [writtenFrom, hend, List.drop_length, weave, ← hend, hnone]
    rw [hempty]
    simp [strings, pushText, Quasi.cooked, unprotected, Quasi.text]
  | @hole pos hole rest hopens hstart hstop hbrace hcomplete hrest ih =>
    have hstretch := stretch_readLiteral hpos (by rw [hfresh.slashes])
    have hlt : hole.stop < source.length := (List.getElem?_eq_some_iff.mp hbrace).1
    have hle := hstretch.ordered
    -- nothing is written from the end of the literal text up to the closing brace
    have hnone : ∀ p, readLiteral source pos ≤ p → p < hole.stop + 1 → before p = [] :=
      fun p hlow hhigh => houtside p (Nat.le_trans hle hlow)
        ((hrest.outside hlt (staysIn_readLiteral source) hhigh).cons hlow)
    have hnext := ih hlt (fresh_of_brace hbrace)
      (fun quasi hquasi => hinside quasi (List.mem_cons_of_mem _ hquasi))
      (fun p hp hout => houtside p (by omega) (hout.cons (by dsimp only; omega)))
    rw [strings_stretch hstretch hfresh (Nat.le_refl _) hstretch.ordered
      (hinside _ (List.mem_cons_self ..)) (hnone _ (Nat.le_refl _) (by omega))
      (fun p hp hle => by omega), writtenFrom,
      weave_hole hopens (by omega) hbrace hnone (fun _ _ _ => rfl), ← hstart, ← writtenFrom]
    have hread := @strings_hole cookedEscape (rest.holes.map (Hole.text source))
      (hole.text source) (writtenFrom before source (hole.stop + 1))
    rw [List.map_cons, show slice source hole.start hole.stop = hole.text source from rfl, hread,
      hnext]
    simp [pushText, Quasi.cooked, unprotected, Quasi.text]

/-- The stretches of literal text start where nothing special stands before. -/
theorem Parts.fresh {reader : LiteralReader} {verdict : List Char → Verdict} {pos : Nat}
    {content : Content} (hparts : Parts reader verdict source pos content)
    (hfresh : Fresh source pos) : ∀ quasi ∈ content.quasis, Fresh source quasi.start := by
  induction hparts with
  | @last pos hend =>
    intro quasi hquasi
    rw [List.mem_singleton.mp hquasi]
    exact hfresh
  | @hole pos hole rest hopens hstart hstop hbrace hcomplete hrest ih =>
    intro quasi hquasi
    rcases List.mem_cons.mp hquasi with rfl | hquasi
    · exact hfresh
    · exact ih (fresh_of_brace hbrace) quasi hquasi

end

/-! ## Whole cells -/

/-- Escapes are insertions inside the stretch they belong to. -/
theorem inserts_of_mem_quasi {source : List Char} {quasi : Quasi} {operation : Operation}
    (hfresh : Fresh source quasi.start) (hstop : quasi.stop ≤ source.length)
    (h : operation ∈ escapeBackticks source quasi ++ escapeBackslashes source quasi) :
    operation.Inserts source := by
  have hrange : ∀ test : Nat → Bool, ∀ offset,
      offset ∈ (List.range' quasi.start (quasi.stop - quasi.start)).filter test →
      offset ≤ source.length := by
    intro test offset hoffset
    have hin := List.mem_range'_1.mp (List.mem_filter.mp hoffset).1
    omega
  rw [escapeBackticks, escapeBackslashes, backticks_eq_filter rfl,
    backslashes_eq_filter rfl (by simp [hfresh.dollar]) (by rw [hfresh.slashes]; rfl),
    List.mem_append, escapeAt, escapeAt, List.mem_map, List.mem_map] at h
  rcases h with ⟨offset, hoffset, rfl⟩ | ⟨offset, hoffset, rfl⟩
  · exact ⟨.right, _, offset, hrange _ offset hoffset, rfl⟩
  · exact ⟨.right, _, offset, hrange _ offset hoffset, rfl⟩

/-- Escapes are written on the right of an offset. -/
theorem side_of_mem_escape {embedding : Embedding} {source : List Char} {quasis : List Quasi}
    {operation : Operation} (h : operation ∈ escape embedding source quasis) :
    ∃ start stop value, operation = .replace .right start stop value := by
  have hescape : ∀ offsets, operation ∈ escapeAt offsets →
      ∃ start stop value, operation = .replace .right start stop value := by
    intro offsets hoffsets
    obtain ⟨offset, -, rfl⟩ := List.mem_map.mp hoffsets
    exact ⟨_, _, _, rfl⟩
  cases embedding with
  | cooked =>
    obtain ⟨quasi, -, hquasi⟩ := List.mem_flatMap.mp h
    rcases List.mem_append.mp hquasi with hticks | hslashes
    · exact hescape _ hticks
    · exact hescape _ hslashes
  | raw =>
    rcases List.mem_append.mp h with hticks | hlast
    · obtain ⟨quasi, -, hquasi⟩ := List.mem_flatMap.mp hticks
      exact hescape _ hquasi
    · rw [interpolateTerminalBackslash] at hlast
      split at hlast
      · exact ⟨_, _, _, List.mem_singleton.mp hlast⟩
      · cases hlast

/-- The edits that escape literal text, in the order of their recording. -/
def escapeLog (embedding : Embedding) (source : List Char) (quasis : List Quasi) : List Edit :=
  (escape embedding source quasis).flatMap (Operation.edits source)

/-- The content with its escapes, as it is embedded between backticks. -/
def embedded (embedding : Embedding) (source : List Char) (content : Content) : List Char :=
  weave (valuesOn .right (escapeLog embedding source content.quasis))
    (isCovered (escapeLog embedding source content.quasis)) 0 source

theorem valuesOn_left_escapeLog (embedding : Embedding) (source : List Char) (quasis : List Quasi)
    (pos : Nat) : valuesOn .left (escapeLog embedding source quasis) pos = [] := by
  rw [escapeLog, valuesOn_flatMap, List.flatMap_eq_nil_iff]
  intro operation hoperation
  obtain ⟨start, stop, value, rfl⟩ := side_of_mem_escape hoperation
  simp [valuesOn, Operation.edits, Edit.isAt]

section
variable {embedding : Embedding} {source tag : List Char} {content : Content}

/-- The tag and a backtick at the start, and a backtick at the end. -/
def quotes (source tag : List Char) : List Operation :=
  [.insertLeft 0 tag, .insertLeft 0 ['\x60'], .insertRight source.length ['\x60']]

theorem inserts_of_mem_quotes : ∀ operation ∈ quotes source tag, operation.Inserts source := by
  intro operation hoperation
  simp only [quotes, List.mem_cons, List.not_mem_nil, or_false] at hoperation
  rcases hoperation with rfl | rfl | rfl
  · exact ⟨.left, tag, 0, Nat.zero_le _, rfl⟩
  · exact ⟨.left, _, 0, Nat.zero_le _, rfl⟩
  · exact ⟨.right, _, source.length, Nat.le_refl _, rfl⟩

theorem edits_embed : (embed source tag embedding content).flatMap (Operation.edits source) =
    escapeLog embedding source content.quasis ++
      (quotes source tag).flatMap (Operation.edits source) := by
  rw [embed, List.flatMap_append]
  rfl

/-- What embedding writes: the tag and a backtick at the start, escapes, and a backtick at the end. -/
theorem insertedAt_embed (pos : Nat) :
    insertedAt ((embed source tag embedding content).flatMap (Operation.edits source)) pos =
      (if pos = 0 then tag ++ ['\x60'] else []) ++
        (valuesOn .right (escapeLog embedding source content.quasis) pos ++
          if pos = source.length then ['\x60'] else []) := by
  have htag : valuesOn .left ((quotes source tag).flatMap (Operation.edits source)) pos =
        if pos = 0 then tag ++ ['\x60'] else [] := by
    by_cases hpos : pos = 0
    · simp [quotes, valuesOn, Operation.edits, Operation.insertLeft, Operation.insertRight,
        Edit.isAt, hpos]
    · have hpos' : 0 ≠ pos := fun h => hpos h.symm
      simp [quotes, valuesOn, Operation.edits, Operation.insertLeft, Operation.insertRight,
        Edit.isAt, hpos, hpos']
  have hclose : valuesOn .right ((quotes source tag).flatMap (Operation.edits source)) pos =
        if pos = source.length then ['\x60'] else [] := by
    by_cases hpos : pos = source.length
    · simp [quotes, valuesOn, Operation.edits, Operation.insertLeft, Operation.insertRight,
        Edit.isAt, hpos]
    · have hpos' : source.length ≠ pos := fun h => hpos h.symm
      simp [quotes, valuesOn, Operation.edits, Operation.insertLeft, Operation.insertRight,
        Edit.isAt, hpos, hpos']
  rw [insertedAt, edits_embed, valuesOn_append, valuesOn_append, valuesOn_left_escapeLog, htag,
    hclose, List.nil_append]

/-- An embedded text is the tag, a backtick, the content with its escapes and a backtick. -/
theorem text_of_embed {buffer : Buffer}
    (hrun : (Buffer.ofSource source).runAll (embed source tag embedding content) = .ok buffer) :
    buffer.text = tag ++ ['\x60'] ++ embedded embedding source content ++ ['\x60'] := by
  have hcovered : ∀ pos,
      isCovered ((embed source tag embedding content).flatMap (Operation.edits source)) pos =
        isCovered (escapeLog embedding source content.quasis) pos := by
    intro pos
    rw [edits_embed, isCovered_append, isCovered_of_inserts inserts_of_mem_quotes, Bool.or_false]
  -- the tag and the first backtick come before all else
  have hfirst : buffer.text = tag ++ ['\x60'] ++ weave (fun pos =>
      valuesOn .right (escapeLog embedding source content.quasis) pos ++
        if pos = source.length then ['\x60'] else [])
      (isCovered (escapeLog embedding source content.quasis)) 0 source := by
    rw [text_eq_weave hrun]
    apply weave_cons_value
    · rw [insertedAt_embed, if_pos rfl]
    · intro pos hpos
      rw [insertedAt_embed, if_neg (by omega), List.nil_append]
    · intro pos _
      exact hcovered pos
  rw [hfirst, List.append_assoc _ _ ['\x60']]
  congr 1
  -- and the last backtick behind it
  apply weave_append_value
  · rw [Nat.zero_add, if_pos rfl]
  · intro pos _ hpos
    rw [if_neg (by omega), List.append_nil]

end

/-- Embedding only inserts. -/
theorem inserts_of_mem_embed {source : List Char} (tag : List Char) {content : Content}
    (hquasis : ∀ quasi ∈ content.quasis,
      Fresh source quasi.start ∧ quasi.stop ≤ source.length) :
    ∀ operation ∈ embed source tag .cooked content, operation.Inserts source := by
  intro operation hoperation
  rw [embed, List.mem_append] at hoperation
  rcases hoperation with hoperation | hoperation
  · obtain ⟨quasi, hquasi, hoperation⟩ := List.mem_flatMap.mp hoperation
    obtain ⟨hfresh, hstop⟩ := hquasis quasi hquasi
    exact inserts_of_mem_quasi hfresh hstop hoperation
  · exact inserts_of_mem_quotes operation hoperation

/-- The stretches of literal text of a source lie in it and start afresh. -/
theorem quasis_of_parse {source : List Char} {content : Content}
    (hparse : parse source = .ok content) :
    ∀ quasi ∈ content.quasis, Fresh source quasi.start ∧ quasi.stop ≤ source.length := by
  have hparts := parts_of_parse hparse
  have hbounds := (hparts.quasis_ordered (Nat.zero_le _)
    (staysIn_readLiteral source)).1
  exact fun quasi hquasi => ⟨hparts.fresh (fresh_zero source) quasi hquasi, (hbounds quasi hquasi).2⟩

/-- Cooked content is written with a backslash in front of each character that needs one. -/
theorem embedded_cooked {source : List Char} {content : Content}
    (hparse : parse source = .ok content) :
    embedded .cooked source content =
      writtenFrom (escapesAt (isEscaped source) content.quasis) source 0 := by
  have hquasis := quasis_of_parse hparse
  apply weave_congr
  · intro pos _ _
    rw [escapeLog, escape, List.flatMap_assoc, valuesOn_flatMap, escapesAt, List.flatMap_def,
      List.flatMap_def]
    congr 1
    apply List.map_congr_left
    intro quasi hquasi
    rw [valuesOn_quasi (hquasis quasi hquasi).1]
    simp
  · intro pos _ _
    apply isCovered_of_inserts
    intro operation hoperation
    exact inserts_of_mem_embed [] hquasis operation (List.mem_append_left _ hoperation)

/-- The literal is the tag, a backtick, the content with its escapes and a backtick. -/
theorem transpile_cooked_eq_ok {source : List Char} (tag : List Char) {content : Content}
    (hsource : source ≠ []) (hparse : parse source = .ok content) :
    transpile source tag .cooked = .ok (tag ++ ['\x60'] ++
      writtenFrom (escapesAt (isEscaped source) content.quasis) source 0 ++ ['\x60']) := by
  obtain ⟨buffer, hrun⟩ : ∃ buffer, (Buffer.ofSource source).runAll
      (embed source tag .cooked content) = .ok buffer :=
    exists_runAll_of_inserts (inserts_of_mem_embed tag (quasis_of_parse hparse))
  rw [transpile, if_neg (by simpa using hsource), hparse]
  dsimp only
  rw [hrun]
  dsimp only
  rw [text_of_embed hrun, embedded_cooked hparse]

/-- A literal that is made has the tag, a backtick, the content with its escapes and a backtick. -/
theorem transpile_eq_ok {embedding : Embedding} {source tag text : List Char} (hsource : source ≠ [])
    (h : transpile source tag embedding = .ok text) :
    ∃ content, parse source = .ok content ∧
      text = tag ++ ['\x60'] ++ embedded embedding source content ++ ['\x60'] := by
  rw [transpile, if_neg (by simpa using hsource)] at h
  split at h
  · cases h
  next content hparse =>
  split at h
  · next buffer hrun =>
    cases h
    exact ⟨content, hparse, text_of_embed hrun⟩
  · cases h

/-- The content with its escapes reads back. -/
theorem strings_escapesAt {source : List Char} {content : Content}
    (hparse : parse source = .ok content) :
    strings cookedEscape (content.holes.map (Hole.text source)) []
      (writtenFrom (escapesAt (isEscaped source) content.quasis) source 0) =
        some (content.quasis.map (Quasi.cooked source)) := by
  have hordered := ((parts_of_parse hparse).quasis_ordered (Nat.zero_le _)
    (staysIn_readLiteral source)).2
  refine strings_parts (parts_of_parse hparse) (Nat.zero_le _) (fresh_zero source) ?_ ?_
  · intro quasi hquasi pos hlow hhigh
    exact escapesAt_inside hordered hquasi hlow hhigh
  · intro pos _ hout
    exact escapesAt_outside hout

/-- Cooked embedding is exact. Content that is read and not empty always becomes a literal behind its
tag. Reading the inside of the literal meets no unescaped backtick, no other escapes than those of a
backslash, a backtick, a brace and a dollar sign, and the holes of the content with nothing between
them but its literal text, of which only protected backslashes are missing. -/
theorem strings_cooked_embedding {source tag : List Char} {content : Content}
    (hsource : source ≠ []) (hparse : parse source = .ok content) :
    ∃ body, transpile source tag .cooked = .ok (tag ++ ['\x60'] ++ body ++ ['\x60']) ∧
      strings cookedEscape (content.holes.map (Hole.text source)) [] body =
        some (content.quasis.map (Quasi.cooked source)) ∧
      ∀ quasi ∈ content.quasis,
        (∀ pos, quasi.start ≤ pos → pos < quasi.stop → isProtected source pos = false) →
        quasi.cooked source = quasi.text source := by
  refine ⟨writtenFrom (escapesAt (isEscaped source) content.quasis) source 0,
    transpile_cooked_eq_ok tag hsource hparse, strings_escapesAt hparse, ?_⟩
  intro quasi hquasi hnone
  apply weave_of_nothing
  · intro pos _ _
    rfl
  · intro pos hlow hhigh
    have hlength : (quasi.text source).length ≤ quasi.stop - quasi.start :=
      List.length_take_le ..
    exact hnone pos hlow (by omega)

/-- Runs of backslashes of every kind, with a hole between two of them: before a hole, before an
escaped opening, between a dollar sign and a brace, before a backtick and at the end. -/
theorem strings_cooked_embedding_runs :
    ∃ content body, parse "a\\\\$\x7bx\x7d\\\\\\$\x7b $\\\x7b\\\x60\\".toList = .ok content ∧
      transpile "a\\\\$\x7bx\x7d\\\\\\$\x7b $\\\x7b\\\x60\\".toList "md".toList .cooked =
        .ok ("md".toList ++ ['\x60'] ++ body ++ ['\x60']) ∧
      strings cookedEscape ["x".toList] [] body =
        some ["a\\\\".toList, "\\\\$\x7b $\x7b\\\x60\\".toList] := by
  have hparse : parse "a\\\\$\x7bx\x7d\\\\\\$\x7b $\\\x7b\\\x60\\".toList =
      .ok ⟨[⟨0, 3, false⟩, ⟨7, 19, true⟩], [⟨5, 6⟩]⟩ := by decide +kernel
  obtain ⟨body, htranspile, hstrings, -⟩ := strings_cooked_embedding (by decide) hparse
  exact ⟨_, body, hparse, htranspile, hstrings⟩

end NotebookCell.Template
