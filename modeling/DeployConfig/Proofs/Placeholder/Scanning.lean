import DeployConfig.Placeholder.Scanner
import DeployConfig.Proofs.Placeholder.Grammar

/-!
# The scanner finds the leftmost placeholder

The scanner gives a candidate up where it breaks off, and never goes back. This module shows that
nothing is lost by that. Every state has an answer (`State.answer`): what its candidate turns out to
be or, failing that, the first placeholder of the text that is left. A step keeps the answer
(`answer_step`): the characters that a step passes over hold no `$`, so no placeholder starts among
them, and where the scanner stops early there is no brace left that could close one. So a run ends
with the answer of its start (`run_eq_answer`), which is what trying every place in turn finds
(`find?_eq_leftmost?`).

Together with the grammar this describes the search completely: `find?_eq_some_iff` for the pieces
of a text, `Span.find?_spec` for byte offsets.
-/

set_option autoImplicit false

namespace DeployConfig

open Written

/-! ## Trying every place -/

namespace Occurrence

/-- A text starts with some placeholder. -/
def Starts (text : List Char) : Prop :=
  ∃ written after, WellFormed text written after

/-- A placeholder stands in a text, and none starts before it. -/
structure IsFirst (text : List Char) (found : Occurrence) : Prop where
  split : text = found.before ++ (found.written.characters ++ found.after)
  wellFormed : WellFormed (found.written.characters ++ found.after) found.written found.after
  first : ∀ front back, text = front ++ back → front.length < found.before.length → ¬ Starts back

theorem not_starts_iff {text : List Char} : ¬ Starts text ↔ atStart? text = none := by
  constructor
  · intro none
    cases read : atStart? text with
    | none => rfl
    | some found => exact absurd ⟨_, _, atStart?_eq_some_iff.mp read⟩ none
  · rintro none ⟨written, after, wellFormed⟩
    rw [atStart?_eq_some_iff.mpr wellFormed] at none
    cases none

theorem leftmost?_eq_none_iff {text : List Char} :
    leftmost? text = none ↔ ∀ front back, text = front ++ back → ¬ Starts back := by
  induction text with
  | nil =>
    refine iff_of_true rfl fun front back split => not_starts_iff.mpr ?_
    rw [(List.append_eq_nil_iff.mp split.symm).2]
    rfl
  | cons c rest ih =>
    rw [leftmost?]
    cases read : atStart? (c :: rest) with
    | some found =>
      refine iff_of_false (by simp) fun none => ?_
      rw [not_starts_iff.mp (none [] (c :: rest) rfl)] at read
      cases read
    | none =>
      simp only [Option.map_eq_none_iff]
      rw [ih]
      constructor
      · intro later front back split
        cases front with
        | nil =>
          rw [List.nil_append] at split
          exact not_starts_iff.mpr (split ▸ read)
        | cons d front => exact later front back (List.cons.inj split).2
      · exact fun none front back split => none (c :: front) back (by rw [split, List.cons_append])

/-- Behind a character that starts no placeholder, the first placeholder stays the same. -/
theorem isFirst_behind_iff {c : Char} {rest : List Char} {found : Occurrence}
    (none : ¬ Starts (c :: rest)) :
    IsFirst (c :: rest) (behind [c] found) ↔ IsFirst rest found := by
  constructor
  · rintro ⟨split, wellFormed, first⟩
    refine ⟨(List.cons.inj split).2, wellFormed, fun front back here shorter => ?_⟩
    exact first (c :: front) back (by rw [here, List.cons_append]) (by simpa [behind] using shorter)
  · rintro ⟨split, wellFormed, first⟩
    refine ⟨by rw [split]; rfl, wellFormed, fun front back here shorter => ?_⟩
    cases front with
    | nil =>
      rw [List.nil_append] at here
      exact here ▸ none
    | cons d front =>
      exact first front back (List.cons.inj here).2 (by simpa [behind] using shorter)

/-- **Trying every place finds the placeholder before which none starts.** -/
theorem leftmost?_eq_some_iff {text : List Char} {found : Occurrence} :
    leftmost? text = some found ↔ IsFirst text found := by
  induction text generalizing found with
  | nil =>
    refine iff_of_false (by simp [leftmost?]) fun ⟨split, _, _⟩ => ?_
    simp [characters] at split
  | cons c rest ih =>
    rw [leftmost?]
    obtain ⟨before, written, after⟩ := found
    cases read : atStart? (c :: rest) with
    | some here =>
      have wellFormed := atStart?_eq_some_iff.mp read
      simp only [Option.some.injEq, Occurrence.mk.injEq]
      constructor
      · rintro ⟨rfl, rfl, rfl⟩
        exact ⟨wellFormed.characters, wellFormed.characters ▸ wellFormed,
          fun _ _ _ shorter => absurd shorter (Nat.not_lt_zero _)⟩
      · rintro ⟨split, found, first⟩
        cases before with
        | nil =>
          rw [split, List.nil_append, atStart?_eq_some_iff.mpr found] at read
          cases read
          exact ⟨rfl, rfl, rfl⟩
        | cons d before =>
          exact absurd ⟨_, _, wellFormed⟩ (first [] _ rfl (by simp))
    | none =>
      have none := not_starts_iff.mpr read
      simp only [Option.map_eq_some_iff]
      constructor
      · rintro ⟨found, later, same⟩
        exact same ▸ (isFirst_behind_iff none).mpr (ih.mp later)
      · intro found
        cases before with
        | nil =>
          have split := found.split
          rw [List.nil_append] at split
          exact absurd ⟨_, _, split ▸ found.wellFormed⟩ none
        | cons d before =>
          obtain ⟨rfl, _⟩ := List.cons.inj found.split
          exact ⟨⟨before, written, after⟩, ih.mpr ((isFirst_behind_iff none).mp found), rfl⟩

/-! ## What a search may pass over -/

/-- A placeholder starts with `${`. -/
theorem atStart?_eq_none {c : Char} {rest : List Char}
    (plain : ∀ inside, c = '$' → rest ≠ '{' :: inside) : atStart? (c :: rest) = none := by
  unfold atStart?
  split
  · next inside same =>
    obtain ⟨rfl, rfl⟩ := List.cons.inj same
    exact absurd rfl (plain inside rfl)
  · rfl

theorem leftmost?_cons {c : Char} {rest : List Char}
    (plain : ∀ inside, c = '$' → rest ≠ '{' :: inside) :
    leftmost? (c :: rest) = (leftmost? rest).map (behind [c]) := by
  rw [leftmost?, atStart?_eq_none plain]

theorem leftmost?_append {front rest : List Char} (plain : '$' ∉ front) :
    leftmost? (front ++ rest) = (leftmost? rest).map (behind front) := by
  induction front with
  | nil =>
    rw [List.nil_append]
    cases leftmost? rest <;> rfl
  | cons c front ih =>
    have other : c ≠ '$' := fun same => plain (same ▸ List.mem_cons_self)
    rw [List.cons_append, leftmost?_cons fun _ same => absurd same other,
      ih fun member => plain (List.mem_cons_of_mem _ member), Option.map_map]
    rfl

/-- Every placeholder is closed by a brace. -/
theorem leftmost?_eq_none {text : List Char} (unclosed : '}' ∉ text) : leftmost? text = none := by
  refine leftmost?_eq_none_iff.mpr fun front back split => ?_
  rintro ⟨written, after, wellFormed⟩
  refine unclosed ?_
  rw [split, wellFormed.characters]
  simp [characters]

end Occurrence

/-! ## What a state will find -/

namespace Scanner

/-- The first placeholder behind a place, in the whole text. -/
def Place.search (place : Place) : Option Occurrence :=
  (Occurrence.leftmost? place.rest).map (Occurrence.behind place.front)

/-- A candidate that has been read to its end. -/
def Place.candidate (start : Place) (read : Option (Written × List Char)) : Option Occurrence :=
  read.map fun (written, after) => ⟨start.front, written, after⟩

/-- Reads the rest of a candidate of which only a type may have been read. -/
def readBehindType : Option (List Char) → List Char → Option (Written × List Char)
  | none => readInside
  | some configType => readComponent (some configType)

/-- What a state will find: its candidate if that can be read to the end, or else the first
placeholder behind the place it has come to. -/
def State.answer : State → Option Occurrence
  | .seeking place => place.search
  | .inIdentifier start configType place =>
    (start.candidate (readBehindType configType place.rest)).or place.search
  | .inEnvironment start configType component place =>
    (start.candidate (Written.readEnvironment configType component ('[' :: place.rest))).or
      place.search
  | .inKey start configType component environment place =>
    (start.candidate (Written.readKey configType component environment place.rest)).or place.search
  | .inFallback start configType component environment key place =>
    (start.candidate ((closeDefault place.rest).map fun (fallback, after) =>
      (⟨configType, component, environment, key, some fallback⟩, after))).or place.search

/-- What is found after a move. -/
def Move.answer : Move → Option Occurrence
  | .goOn next => next.answer
  | .stop found => found

/-! ## Passing over characters -/

theorem Place.search_eq_none {place : Place} (unclosed : '}' ∉ place.rest) :
    place.search = none := by
  rw [Place.search, Occurrence.leftmost?_eq_none unclosed, Option.map_none]

/-- A character that does not open a candidate may be passed over. -/
theorem Place.search_cons {place : Place} {c : Char} {rest : List Char}
    (here : place.rest = c :: rest) (plain : ∀ inside, c = '$' → rest ≠ '{' :: inside) :
    place.search = Place.search ⟨c :: place.passed, rest⟩ := by
  rw [Place.search, here, Occurrence.leftmost?_cons plain, Option.map_map, Place.search]
  congr 1
  funext found
  simp [Occurrence.behind, Place.front]

/-- An opening starts a candidate. If nothing comes of it, the search goes on behind the opening. -/
theorem Place.search_opening {place : Place} {inside : List Char}
    (here : place.rest = '$' :: '{' :: inside) :
    place.search =
      (place.candidate (readInside inside)).or
        (Place.search ⟨'{' :: '$' :: place.passed, inside⟩) := by
  have reads : atStart? ('$' :: '{' :: inside) = readInside inside := rfl
  rw [Place.search, here, Occurrence.leftmost?, reads]
  cases readInside inside with
  | some found => simp [Place.candidate, Occurrence.behind]
  | none =>
    simp only [Place.candidate, Option.map_none, Option.none_or]
    rw [Occurrence.leftmost?_cons fun _ same => absurd same (by decide), Place.search,
      Option.map_map, Option.map_map]
    congr 1
    funext found
    simp [Occurrence.behind, Place.front]

/-- A run without `$` may be passed over. -/
theorem Place.search_behindRun {member : Char → Bool} (plain : member '$' = false)
    (place : Place) : (place.behindRun member).search = place.search := by
  have absent : '$' ∉ place.rest.takeWhile member := fun found => by
    rw [List.mem_takeWhile_imp found] at plain
    cases plain
  symm
  calc place.search
      = (Occurrence.leftmost? (place.rest.takeWhile member ++ place.rest.dropWhile member)).map
          (Occurrence.behind place.front) := by
        rw [List.takeWhile_append_dropWhile, Place.search]
    _ = ((Occurrence.leftmost? (place.rest.dropWhile member)).map
          (Occurrence.behind (place.rest.takeWhile member))).map
          (Occurrence.behind place.front) := by
        rw [Occurrence.leftmost?_append absent]
    _ = (place.behindRun member).search := by
        rw [Option.map_map, Place.search]
        congr 1
        funext found
        simp [Occurrence.behind, Place.front, Place.behindRun]

/-! ## A step keeps the answer -/

theorem answer_readOpening (place : Place) : (readOpening place).answer = place.search := by
  unfold readOpening
  split
  · next ends =>
    rw [Place.search_eq_none (by rw [ends]; exact List.not_mem_nil)]
    rfl
  · next inside here => exact (Place.search_opening here).symm
  · next c rest other here =>
    exact (Place.search_cons here fun inside dollar brace => other inside dollar brace).symm

/-- What can be read behind a type is decided by what ends the run of identifier characters. -/
theorem readBehindType_eq (configType : Option (List Char)) (text : List Char) :
    readBehindType configType text =
      if (text.takeWhile isIdentifierChar).isEmpty then none
      else
        match configType, text.dropWhile isIdentifierChar with
        | none, ':' :: ':' :: rest => readComponent (some (text.takeWhile isIdentifierChar)) rest
        | configType, behind =>
          Written.readEnvironment configType (text.takeWhile isIdentifierChar) behind := by
  cases configType with
  | none =>
    rw [readBehindType, readInside]
    split
    · next rest ends => simp only [ends]
    · next other =>
      rw [readComponent]
      split
      · rfl
      · split
        · next rest _ ends => exact absurd ends (other rest)
        · rfl
  | some name => rw [readBehindType, readComponent]

/-- An environment or a key is announced by its punctuation. -/
theorem readEnvironment_eq_none {configType : Option (List Char)} {component text : List Char}
    (bracket : ∀ rest, text ≠ '[' :: rest) (sign : ∀ rest, text ≠ '@' :: rest) :
    Written.readEnvironment configType component text = none := by
  unfold Written.readEnvironment
  split
  · next rest => exact absurd rfl (sign rest)
  · next rest => exact absurd rfl (bracket rest)
  · rfl

theorem answer_readIdentifier (start : Place) (configType : Option (List Char)) (place : Place) :
    (readIdentifier start configType place).answer =
      (start.candidate (readBehindType configType place.rest)).or place.search := by
  have tail : place.rest.dropWhile isIdentifierChar = (place.behindRun isIdentifierChar).rest := rfl
  rw [← Place.search_behindRun (by decide : isIdentifierChar '$' = false) place, readBehindType_eq,
    tail, readIdentifier]
  generalize place.behindRun isIdentifierChar = behind
  generalize place.rest.takeWhile isIdentifierChar = segment
  split
  · next ends =>
    rw [Place.search_eq_none (by rw [ends]; exact List.not_mem_nil), ends]
    cases segment <;> cases configType <;> rfl
  · next rest ends =>
    have passing : behind.search = Place.search ⟨':' :: ':' :: behind.passed, rest⟩ := by
      rw [Place.search_cons ends fun _ same => absurd same (by decide),
        Place.search_cons rfl fun _ same => absurd same (by decide)]
    cases configType with
    | some name =>
      rw [ends]
      cases segment <;> rfl
    | none =>
      rw [passing, ends]
      cases segment with
      | nil => exact passing
      | cons c segment => rfl
  · next rest ends =>
    rw [Place.search_cons ends fun _ same => absurd same (by decide), ends]
    cases segment with
    | nil => exact Place.search_cons ends fun _ same => absurd same (by decide)
    | cons c segment => cases configType <;> rfl
  · next rest ends =>
    rw [Place.search_cons ends fun _ same => absurd same (by decide), ends]
    cases segment with
    | nil => exact Place.search_cons ends fun _ same => absurd same (by decide)
    | cons c segment => cases configType <;> rfl
  · next colons bracket sign =>
    cases segment with
    | nil => rfl
    | cons c segment =>
      have none : Written.readEnvironment configType (c :: segment) behind.rest = none :=
        readEnvironment_eq_none bracket sign
      split
      · rfl
      · split
        · next ends => exact absurd ends (colons _)
        · rw [none]
          rfl

theorem answer_readEnvironment (start : Place) (configType : Option (List Char))
    (component : List Char) (place : Place) :
    (readEnvironment start configType component place).answer =
      (start.candidate (Written.readEnvironment configType component ('[' :: place.rest))).or
        place.search := by
  have tail : place.rest.dropWhile isIdentifierChar = (place.behindRun isIdentifierChar).rest := rfl
  rw [← Place.search_behindRun (by decide : isIdentifierChar '$' = false) place,
    Written.readEnvironment, tail, readEnvironment]
  generalize place.behindRun isIdentifierChar = behind
  generalize place.rest.takeWhile isIdentifierChar = segment
  split
  · next ends =>
    rw [Place.search_eq_none (by rw [ends]; exact List.not_mem_nil), ends]
    cases segment <;> rfl
  · next rest ends =>
    have passing : behind.search = Place.search ⟨'@' :: ']' :: behind.passed, rest⟩ := by
      rw [Place.search_cons ends fun _ same => absurd same (by decide),
        Place.search_cons rfl fun _ same => absurd same (by decide)]
    rw [passing, ends]
    cases segment with
    | nil => exact passing
    | cons c segment => rfl
  · next other =>
    cases segment with
    | nil => rfl
    | cons c segment =>
      split
      · rfl
      · split
        · next rest ends => exact absurd ends (other rest)
        · rfl

theorem answer_readKey (start : Place) (configType : Option (List Char)) (component : List Char)
    (environment : Option (List Char)) (place : Place) :
    (readKey start configType component environment place).answer =
      (start.candidate (Written.readKey configType component environment place.rest)).or
        place.search := by
  have tail : place.rest.dropWhile isKeyChar = (place.behindRun isKeyChar).rest := rfl
  rw [← Place.search_behindRun (by decide : isKeyChar '$' = false) place, Written.readKey, tail,
    readKey]
  generalize place.behindRun isKeyChar = behind
  generalize place.rest.takeWhile isKeyChar = segment
  split
  · next ends =>
    rw [Place.search_eq_none (by rw [ends]; exact List.not_mem_nil), ends]
    cases segment <;> rfl
  · next stop rest ends =>
    cases segment with
    | nil => rfl
    | cons c segment =>
      by_cases colon : stop = ':'
      · subst colon
        rw [Place.search_cons ends fun _ same => absurd same (by decide), ends]
        rfl
      · by_cases brace : stop = '}'
        · subst brace
          rw [ends]
          rfl
        · rw [if_neg (by simp), if_neg (by simpa using colon), if_neg (by simpa using brace), ends]
          simp [colon, brace, Place.candidate, Move.answer, State.answer]

theorem answer_readFallback (start : Place) (configType : Option (List Char))
    (component : List Char) (environment : Option (List Char)) (key : List Char) (place : Place) :
    (readFallback start configType component environment key place).answer =
      (start.candidate ((closeDefault place.rest).map fun (fallback, after) =>
        (⟨configType, component, environment, key, some fallback⟩, after))).or place.search := by
  unfold readFallback
  cases closed : closeDefault place.rest with
  | none => exact (Place.search_eq_none (closeDefault_eq_none_iff.mp closed)).symm
  | some found => rfl

/-- **A step keeps the answer.** -/
theorem answer_step (state : State) : state.step.answer = state.answer := by
  cases state with
  | seeking place => exact answer_readOpening place
  | inIdentifier start configType place => exact answer_readIdentifier start configType place
  | inEnvironment start configType component place =>
    exact answer_readEnvironment start configType component place
  | inKey start configType component environment place =>
    exact answer_readKey start configType component environment place
  | inFallback start configType component environment key place =>
    exact answer_readFallback start configType component environment key place

/-- **A run ends with the answer of the state it starts in.** -/
theorem run_eq_answer (state : State) : state.run = state.answer := by
  induction state using State.run.induct with
  | case1 state next moved _ ih =>
    rw [State.run_of_goOn moved, ih, ← answer_step state, moved, Move.answer]
  | case2 state found moved =>
    rw [State.run_of_stop moved, ← answer_step state, moved, Move.answer]

end Scanner

namespace Occurrence

/-- **One pass finds what trying every place finds.** -/
theorem find?_eq_leftmost? (text : List Char) : find? text = leftmost? text := by
  rw [find?, Scanner.run_eq_answer, Scanner.State.answer, Scanner.Place.search]
  cases leftmost? text <;> rfl

/-- The search finds a placeholder exactly when it is the first one. -/
theorem find?_eq_some_iff {text : List Char} {found : Occurrence} :
    find? text = some found ↔ IsFirst text found := by
  rw [find?_eq_leftmost?, leftmost?_eq_some_iff]

/-- The search finds nothing exactly when no placeholder starts anywhere. -/
theorem find?_eq_none_iff {text : List Char} :
    find? text = none ↔ ∀ front back, text = front ++ back → ¬ Starts back := by
  rw [find?_eq_leftmost?, leftmost?_eq_none_iff]

/-! ## The text of a placeholder -/

/-- A text that is written as a placeholder holds it and nothing else, if its pieces are fit for
it. -/
theorem find?_characters_iff {written : Written} :
    find? written.characters = some ⟨[], written, []⟩ ↔
      WellFormed written.characters written [] := by
  rw [find?_eq_some_iff]
  constructor
  · rintro ⟨_, wellFormed, _⟩
    rwa [List.append_nil] at wellFormed
  · intro wellFormed
    refine ⟨by simp, by rwa [List.append_nil], fun _ _ _ shorter => ?_⟩
    exact absurd shorter (Nat.not_lt_zero _)

/-- Behind characters that open nothing, a placeholder that starts is the first one. -/
theorem find?_append_of_wellFormed {front rest after : List Char} {written : Written}
    (plain : '$' ∉ front) (wellFormed : WellFormed rest written after) :
    find? (front ++ rest) = some ⟨front, written, after⟩ := by
  have here : leftmost? rest = some ⟨[], written, after⟩ := by
    refine leftmost?_eq_some_iff.mpr
      ⟨wellFormed.characters, wellFormed.characters ▸ wellFormed, fun _ _ _ shorter => ?_⟩
    exact absurd shorter (Nat.not_lt_zero _)
  rw [find?_eq_leftmost?, leftmost?_append plain, here]
  simp [behind]

/-- Characters that open nothing hold no placeholder. -/
theorem find?_eq_none_of_plain {text : List Char} (plain : '$' ∉ text) : find? text = none := by
  have passed : leftmost? (text ++ []) = _ := leftmost?_append plain
  rw [List.append_nil] at passed
  rw [find?_eq_leftmost?, passed]
  rfl

/-- Whatever follows the text of a placeholder, a placeholder starts there. Its default may be
another one. -/
theorem starts_characters_append {written : Written}
    (wellFormed : WellFormed written.characters written []) (after : List Char) :
    Starts (written.characters ++ after) := by
  obtain ⟨configType, component, environment, key, fallback⟩ := written
  obtain ⟨_, typed, named, placed, keyed, _⟩ := wellFormed
  cases fallback with
  | none => exact ⟨_, after, rfl, typed, named, placed, keyed, nofun⟩
  | some inner =>
    cases closed : closeDefault (inner ++ '}' :: after) with
    | none => exact absurd (by simp) (closeDefault_eq_none_iff.mp closed)
    | some found =>
      obtain ⟨fallback, behind⟩ := found
      obtain ⟨split, closes⟩ := closeDefault_eq_some_iff.mp closed
      refine ⟨⟨configType, component, environment, key, some fallback⟩, behind, ?_, typed, named,
        placed, keyed, fun _ same => Option.some.inj same ▸ closes⟩
      simp only [characters_append, ending, Option.map_some, Option.getD_some, List.cons_append,
        split]

/-- A text without placeholders does not hold the text of one. -/
theorem not_infix_of_find?_eq_none {text : List Char} {written : Written}
    (wellFormed : WellFormed written.characters written []) (none : find? text = none) :
    ¬ written.characters <:+: text := by
  rintro ⟨front, after, split⟩
  rw [List.append_assoc] at split
  exact find?_eq_none_iff.mp none front _ split.symm (starts_characters_append wellFormed after)

end Occurrence

/-! ## Bytes of a text -/

namespace Span

/-- A span marks a placeholder in a text: the placeholder starts at its first byte, has its pieces,
and ends in front of the byte where it stops. -/
def Marks (span : Span) (text : List Char) : Prop :=
  ∃ front rest after, text = front ++ rest ∧ WellFormed rest span.written after ∧
    span.start = Text.byteSize front ∧
    span.stop = Text.byteSize (front ++ span.written.characters)

/-- The span of a placeholder that was found behind some text. -/
def ofOccurrence (front : List Char) (found : Occurrence) : Span where
  start := Text.byteSize (front ++ found.before)
  stop := Text.byteSize (front ++ found.before ++ found.written.characters)
  written := found.written

/-- From the end of a front part on, the search finds what it finds in the rest. -/
theorem find?_append (front rest : List Char) :
    find? (front ++ rest) (Text.byteSize front) =
      (Occurrence.find? rest).map (ofOccurrence front) := by
  simp only [find?, Text.dropBytes?_append, Option.bind_eq_bind, Option.bind_some]
  cases Occurrence.find? rest with
  | none => rfl
  | some found => simp [ofOccurrence, Text.byteSize_append, Nat.add_assoc]

/-- From its first byte on all of a text is searched. -/
theorem find?_zero (text : List Char) :
    find? text 0 = (Occurrence.find? text).map (ofOccurrence []) :=
  find?_append [] text

theorem find?_of_not_isBoundary {text : List Char} {offset : Nat}
    (inside : ¬ Text.IsBoundary text offset) : find? text offset = none := by
  rw [find?, Text.dropBytes?_eq_none_iff.mpr inside]
  rfl

/-- The span that is found is that of the first placeholder of the rest. -/
theorem find?_eq_some_iff {text : List Char} {offset : Nat} {span : Span} :
    find? text offset = some span ↔
      ∃ front rest found, text = front ++ rest ∧ Text.byteSize front = offset ∧
        Occurrence.IsFirst rest found ∧ ofOccurrence front found = span := by
  constructor
  · intro finds
    by_cases boundary : Text.IsBoundary text offset
    · obtain ⟨front, rest, rfl, rfl⟩ := boundary
      rw [find?_append] at finds
      obtain ⟨found, first, covers⟩ := Option.map_eq_some_iff.mp finds
      exact ⟨front, rest, found, rfl, rfl, Occurrence.find?_eq_some_iff.mp first, covers⟩
    · rw [find?_of_not_isBoundary boundary] at finds
      cases finds
  · rintro ⟨front, rest, found, rfl, rfl, first, rfl⟩
    rw [find?_append, Occurrence.find?_eq_some_iff.mpr first]
    rfl

/-- A marked placeholder that does not start before the end of `front` starts in what follows. -/
theorem Marks.behind {span : Span} {front rest : List Char} (marks : span.Marks (front ++ rest))
    (later : Text.byteSize front ≤ span.start) :
    ∃ before after, rest = before ++ (span.written.characters ++ after) ∧
      WellFormed (span.written.characters ++ after) span.written after ∧
      span = ofOccurrence front ⟨before, span.written, after⟩ := by
  obtain ⟨passed, suffix, after, split, wellFormed, starts, stops⟩ := marks
  have short : front.length ≤ passed.length := by
    refine Nat.le_of_not_lt fun longer => ?_
    have less := Text.byteSize_lt_of_length_lt split.symm longer
    rw [← starts] at less
    exact absurd less (Nat.not_lt.mpr later)
  obtain ⟨before, rfl⟩ : front <+: passed :=
    List.prefix_of_prefix_length_le ⟨rest, rfl⟩ ⟨suffix, split.symm⟩ short
  have same : rest = before ++ suffix := by
    rw [List.append_assoc] at split
    exact List.append_cancel_left split
  refine ⟨before, after, by rw [same, ← wellFormed.characters],
    wellFormed.characters ▸ wellFormed, ?_⟩
  rw [ofOccurrence, ← starts, ← stops]

theorem marks_ofOccurrence {front rest : List Char} {found : Occurrence}
    (first : Occurrence.IsFirst rest found) : (ofOccurrence front found).Marks (front ++ rest) := by
  refine ⟨front ++ found.before, _, found.after, ?_, first.wellFormed, rfl, rfl⟩
  rw [first.split, List.append_assoc]

/-- The first placeholder of a rest is the marked one that starts first. -/
theorem isFirst_iff {front rest : List Char} {span : Span} :
    (∃ found, Occurrence.IsFirst rest found ∧ ofOccurrence front found = span) ↔
      span.Marks (front ++ rest) ∧ Text.byteSize front ≤ span.start ∧
        ∀ other : Span, other.Marks (front ++ rest) → Text.byteSize front ≤ other.start →
          span.start ≤ other.start := by
  constructor
  · rintro ⟨found, first, rfl⟩
    refine ⟨marks_ofOccurrence first, ?_, fun other marks later => ?_⟩
    · simp [ofOccurrence, Text.byteSize_append]
    · obtain ⟨before, after, split, wellFormed, same⟩ := marks.behind later
      rw [same]
      refine Nat.le_of_not_lt fun earlier => ?_
      simp only [ofOccurrence, Text.byteSize_append] at earlier
      have shorter : before.length < found.before.length :=
        Text.length_lt_of_byteSize_lt (split.symm.trans first.split) (by omega)
      exact first.first before _ split shorter ⟨_, _, wellFormed⟩
  · rintro ⟨marks, later, least⟩
    obtain ⟨before, after, split, wellFormed, same⟩ := marks.behind later
    refine ⟨⟨before, span.written, after⟩, ⟨split, wellFormed, ?_⟩, same.symm⟩
    rintro passed suffix here shorter ⟨written, behind, starts⟩
    have other : (⟨Text.byteSize (front ++ passed),
        Text.byteSize (front ++ passed ++ written.characters), written⟩ : Span).Marks
          (front ++ rest) :=
      ⟨front ++ passed, suffix, behind, by rw [here, List.append_assoc], starts, rfl, rfl⟩
    have notLess := least _ other (by simp [Text.byteSize_append])
    have less := Text.byteSize_lt_of_length_lt (here.symm.trans split) shorter
    rw [same] at notLess
    simp only [ofOccurrence, Text.byteSize_append] at notLess
    omega

/-- **The search from a byte offset.** It fails exactly when the offset is no character boundary or
no placeholder starts at or behind it, and otherwise gives the placeholder that starts first. -/
theorem find?_spec (text : List Char) (offset : Nat) :
    (find? text offset = none ↔
      ¬ Text.IsBoundary text offset ∨ ∀ span : Span, span.Marks text → span.start < offset) ∧
    ∀ span : Span, find? text offset = some span ↔
      Text.IsBoundary text offset ∧ span.Marks text ∧ offset ≤ span.start ∧
        ∀ other : Span, other.Marks text → offset ≤ other.start → span.start ≤ other.start := by
  by_cases boundary : Text.IsBoundary text offset
  · obtain ⟨front, rest, rfl, rfl⟩ := boundary
    have boundary : Text.IsBoundary (front ++ rest) (Text.byteSize front) := ⟨front, rest, rfl, rfl⟩
    have finds : ∀ span, find? (front ++ rest) (Text.byteSize front) = some span ↔
        span.Marks (front ++ rest) ∧ Text.byteSize front ≤ span.start ∧
          ∀ other : Span, other.Marks (front ++ rest) → Text.byteSize front ≤ other.start →
            span.start ≤ other.start := by
      intro span
      rw [← isFirst_iff, find?_append, Option.map_eq_some_iff]
      simp only [Occurrence.find?_eq_some_iff]
    refine ⟨?_, fun span => by rw [finds, and_iff_right boundary]⟩
    rw [or_iff_right (not_not_intro boundary)]
    constructor
    · intro none span marks
      refine Nat.lt_of_not_le fun later => ?_
      obtain ⟨before, after, split, wellFormed, _⟩ := marks.behind later
      rw [find?_append, Option.map_eq_none_iff, Occurrence.find?_eq_none_iff] at none
      exact none before _ split ⟨_, _, wellFormed⟩
    · intro all
      cases found : find? (front ++ rest) (Text.byteSize front) with
      | none => rfl
      | some span =>
        obtain ⟨marks, later, _⟩ := (finds span).mp found
        exact absurd (all span marks) (Nat.not_lt.mpr later)
  · rw [find?_of_not_isBoundary boundary]
    simp [boundary]

end Span

end DeployConfig
