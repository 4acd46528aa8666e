import DeployConfig.Placeholder.Written
import DeployConfig.Text.ByteOffset

/-!
# Searching a text for placeholders

A text is searched in one pass from left to right. The scanner goes on to the next `${` and reads a
candidate piece by piece; it stops when one is complete. A candidate that turns out to be none is
given up at the character that does not fit, and the search goes on from that character, so that
nothing is read twice. When the text ends inside a candidate, or a default is nowhere closed, there
is no placeholder at all.

The scanner is a machine: `State` tells which piece is read next and keeps those that have been
read, and `State.step` reads one piece. Every step leaves less to be read (`left_lt_of_step`), so
`State.run` comes to an end.
-/

set_option autoImplicit false

namespace DeployConfig

namespace Scanner

/-- A place in a text. -/
structure Place where
  /-- The characters before the place, latest first. -/
  passed : List Char
  rest : List Char

namespace Place

/-- The place behind the longest run of characters of a class. -/
def behindRun (place : Place) (member : Char → Bool) : Place where
  passed := (place.rest.takeWhile member).reverse ++ place.passed
  rest := place.rest.dropWhile member

/-- The characters of the text before the place. -/
def front (place : Place) : List Char :=
  place.passed.reverse

end Place

/-- What is read next. The pieces of a candidate are kept as they are read; `start` is the place of
its `${`. -/
inductive State where
  /-- The opening of a candidate. -/
  | seeking (place : Place)
  /-- A type, if none was read yet, or a component. -/
  | inIdentifier (start : Place) (configType : Option (List Char)) (place : Place)
  /-- The environment behind an opening bracket. -/
  | inEnvironment (start : Place) (configType : Option (List Char)) (component : List Char)
    (place : Place)
  | inKey (start : Place) (configType : Option (List Char)) (component : List Char)
    (environment : Option (List Char)) (place : Place)
  /-- The default behind a colon. -/
  | inFallback (start : Place) (configType : Option (List Char)) (component : List Char)
    (environment : Option (List Char)) (key : List Char) (place : Place)

/-- What the scanner does after a piece. -/
inductive Move where
  | goOn (state : State)
  | stop (found : Option Occurrence)

/-! ## Reading one piece -/

/-- Looks for an opening. -/
def readOpening (place : Place) : Move :=
  match place.rest with
  | [] => .stop none
  | '$' :: '{' :: rest => .goOn (.inIdentifier place none ⟨'{' :: '$' :: place.passed, rest⟩)
  | c :: rest => .goOn (.seeking ⟨c :: place.passed, rest⟩)

/-- Reads a type or a component. Two colons make it a type, and there is only one of them. -/
def readIdentifier (start : Place) (configType : Option (List Char)) (place : Place) : Move :=
  let segment := place.rest.takeWhile isIdentifierChar
  let place := place.behindRun isIdentifierChar
  match place.rest with
  | [] => .stop none
  | ':' :: ':' :: rest =>
    if configType.isSome || segment.isEmpty then .goOn (.seeking place)
    else .goOn (.inIdentifier start (some segment) ⟨':' :: ':' :: place.passed, rest⟩)
  | '[' :: rest =>
    if segment.isEmpty then .goOn (.seeking place)
    else .goOn (.inEnvironment start configType segment ⟨'[' :: place.passed, rest⟩)
  | '@' :: rest =>
    if segment.isEmpty then .goOn (.seeking place)
    else .goOn (.inKey start configType segment none ⟨'@' :: place.passed, rest⟩)
  | _ => .goOn (.seeking place)

/-- Reads an environment, which the characters `]@` end. -/
def readEnvironment (start : Place) (configType : Option (List Char)) (component : List Char)
    (place : Place) : Move :=
  let segment := place.rest.takeWhile isIdentifierChar
  let place := place.behindRun isIdentifierChar
  match place.rest with
  | [] => .stop none
  | ']' :: '@' :: rest =>
    if segment.isEmpty then .goOn (.seeking place)
    else .goOn (.inKey start configType component (some segment) ⟨'@' :: ']' :: place.passed, rest⟩)
  | _ => .goOn (.seeking place)

/-- Reads a key, which a brace or a colon ends. -/
def readKey (start : Place) (configType : Option (List Char)) (component : List Char)
    (environment : Option (List Char)) (place : Place) : Move :=
  let segment := place.rest.takeWhile isKeyChar
  let place := place.behindRun isKeyChar
  match place.rest with
  | [] => .stop none
  | c :: rest =>
    if segment.isEmpty then .goOn (.seeking place)
    else if c == ':' then
      .goOn (.inFallback start configType component environment segment ⟨':' :: place.passed, rest⟩)
    else if c == '}' then
      .stop (some ⟨start.front, ⟨configType, component, environment, segment, none⟩, rest⟩)
    else .goOn (.seeking place)

/-- Reads a default up to the brace that closes it. -/
def readFallback (start : Place) (configType : Option (List Char)) (component : List Char)
    (environment : Option (List Char)) (key : List Char) (place : Place) : Move :=
  .stop <| (Written.closeDefault place.rest).map fun (fallback, after) =>
    ⟨start.front, ⟨configType, component, environment, key, some fallback⟩, after⟩

/-! ## The machine -/

namespace State

/-- Reads the next piece. -/
def step : State → Move
  | .seeking place => readOpening place
  | .inIdentifier start configType place => readIdentifier start configType place
  | .inEnvironment start configType component place =>
    readEnvironment start configType component place
  | .inKey start configType component environment place =>
    readKey start configType component environment place
  | .inFallback start configType component environment key place =>
    readFallback start configType component environment key place

/-- Where the scanner stands. -/
def place : State → Place
  | .seeking place => place
  | .inIdentifier _ _ place => place
  | .inEnvironment _ _ _ place => place
  | .inKey _ _ _ _ place => place
  | .inFallback _ _ _ _ _ place => place

/-- A bound on the steps that are left. A step that gives a candidate up may read nothing, but then
an opening is looked for, which does. -/
def left : State → Nat
  | .seeking place => 2 * place.rest.length
  | state => 2 * state.place.rest.length + 1

end State

/-- Behind a run there is no more than before it. -/
theorem Place.length_behindRun_le (place : Place) (member : Char → Bool) :
    (place.behindRun member).rest.length ≤ place.rest.length :=
  (List.dropWhile_suffix member).length_le

/-- Behind a run and one more character there is less than before the run. -/
theorem Place.length_lt_of_behindRun {place : Place} {member : Char → Bool} {c : Char}
    {rest : List Char} (ends : (place.behindRun member).rest = c :: rest) :
    rest.length < place.rest.length := by
  have shorter := place.length_behindRun_le member
  rw [ends] at shorter
  exact shorter

/-- Reading a character leaves fewer steps. -/
theorem left_lt_of_shorter {state next : State}
    (shorter : next.place.rest.length < state.place.rest.length) : next.left < state.left := by
  have lower : 2 * state.place.rest.length ≤ state.left := by
    cases state <;> simp only [State.left, State.place] <;> omega
  have upper : next.left ≤ 2 * next.place.rest.length + 1 := by
    cases next <;> simp only [State.left, State.place] <;> omega
  omega

/-- Giving a candidate up leaves fewer steps. -/
theorem left_lt_of_seeking {state : State} {place : Place}
    (candidate : state.left = 2 * state.place.rest.length + 1)
    (notLonger : place.rest.length ≤ state.place.rest.length) :
    (State.seeking place).left < state.left := by
  rw [candidate, State.left]
  omega

/-- Every step leaves fewer steps. -/
theorem left_lt_of_step {state next : State} (moved : state.step = .goOn next) :
    next.left < state.left := by
  cases state with
  | seeking place =>
    simp only [State.step, readOpening] at moved
    split at moved
    · cases moved
    · next ends =>
      cases moved
      refine left_lt_of_shorter ?_
      simp only [State.place, ends, List.length_cons]
      omega
    · next ends =>
      cases moved
      refine left_lt_of_shorter ?_
      simp only [State.place, ends, List.length_cons]
      omega
  | inIdentifier start configType place =>
    have notLonger := place.length_behindRun_le isIdentifierChar
    simp only [State.step, readIdentifier] at moved
    split at moved
    · cases moved
    · next ends =>
      split at moved
      · cases moved
        exact left_lt_of_seeking rfl notLonger
      · cases moved
        exact left_lt_of_shorter (Nat.lt_of_succ_lt (Place.length_lt_of_behindRun ends))
    · next ends =>
      split at moved
      · cases moved
        exact left_lt_of_seeking rfl notLonger
      · cases moved
        exact left_lt_of_shorter (Place.length_lt_of_behindRun ends)
    · next ends =>
      split at moved
      · cases moved
        exact left_lt_of_seeking rfl notLonger
      · cases moved
        exact left_lt_of_shorter (Place.length_lt_of_behindRun ends)
    · cases moved
      exact left_lt_of_seeking rfl notLonger
  | inEnvironment start configType component place =>
    have notLonger := place.length_behindRun_le isIdentifierChar
    simp only [State.step, readEnvironment] at moved
    split at moved
    · cases moved
    · next ends =>
      split at moved
      · cases moved
        exact left_lt_of_seeking rfl notLonger
      · cases moved
        exact left_lt_of_shorter (Nat.lt_of_succ_lt (Place.length_lt_of_behindRun ends))
    · cases moved
      exact left_lt_of_seeking rfl notLonger
  | inKey start configType component environment place =>
    have notLonger := place.length_behindRun_le isKeyChar
    simp only [State.step, readKey] at moved
    split at moved
    · cases moved
    · next ends =>
      split at moved
      · cases moved
        exact left_lt_of_seeking rfl notLonger
      · split at moved
        · cases moved
          exact left_lt_of_shorter (Place.length_lt_of_behindRun ends)
        · split at moved <;> cases moved
          exact left_lt_of_seeking rfl notLonger
  | inFallback start configType component environment key place =>
    simp only [State.step, readFallback] at moved
    cases moved

/-- Runs the scanner until it stops. -/
def State.run (state : State) : Option Occurrence :=
  match moved : state.step with
  | .goOn next =>
    have := left_lt_of_step moved
    next.run
  | .stop found => found
  termination_by state.left

theorem State.run_of_goOn {state next : State} (moved : state.step = .goOn next) :
    state.run = next.run := by
  rw [State.run]
  split
  · next other reached =>
    rw [moved] at reached
    cases reached
    rfl
  · next found reached =>
    rw [moved] at reached
    cases reached

theorem State.run_of_stop {state : State} {found : Option Occurrence}
    (moved : state.step = .stop found) : state.run = found := by
  rw [State.run]
  split
  · next other reached =>
    rw [moved] at reached
    cases reached
  · next other reached =>
    rw [moved] at reached
    cases reached
    rfl

end Scanner

/-- The first placeholder of a text. -/
def Occurrence.find? (text : List Char) : Option Occurrence :=
  (Scanner.State.seeking ⟨[], text⟩).run

/-- A placeholder and the bytes of a text that it takes up. -/
structure Span where
  start : Nat
  stop : Nat
  written : Written
deriving DecidableEq, Repr

/-- The first placeholder that starts at or behind byte `offset` of a text. There is none when the
offset lies inside a character or past the end. -/
def Span.find? (text : List Char) (offset : Nat) : Option Span := do
  let rest ← Text.dropBytes? offset text
  let found ← Occurrence.find? rest
  let start := offset + Text.byteSize found.before
  return ⟨start, start + Text.byteSize found.written.characters, found.written⟩

end DeployConfig
