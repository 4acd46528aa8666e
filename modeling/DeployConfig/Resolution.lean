import DeployConfig.Resolution.Step

/-!
# Resolution

A text is resolved by replacing its first placeholder by what that stands for, over and over, until
it holds none. What a placeholder stands for is the resolved text that a step finds for it. After
each replacement the search starts again at the beginning of the text, because the new piece may
close a placeholder that was opened before it.

Replacing need not come to an end: pieces of placeholders in the values may make up new ones
forever. So a resolution gets a number of steps, counted along each path, and ends unfinished when
they are used up. What one more step does is said by `fill_succ`.
-/

set_option autoImplicit false

namespace DeployConfig.Resolution

/-- The steps of a resolution for a user. A text takes one for each placeholder that is replaced in
it and for each text it is nested in, so texts whose placeholders multiply still come to an end;
what takes more goes on growing for as long as anyone would wait. -/
def standardSteps : Nat := 4194304

/-- Refuses a text that is nested too deep. -/
def checkDepth (rules : Rules) (root : Placed) (frame : Frame) :
    Traced Event ResolutionError Unit :=
  match rules.depthLimit with
  | some limit =>
    if limit < frame.depth then .fail (.tooDeep limit frame.property root) else .pure ()
  | none => .pure ()

/-- Enters the text that stands for a placeholder of a text. -/
def enter (rules : Rules) (world : World) (root : Placed) (frame : Frame) (written : Written) :
    Traced Event ResolutionError Frame := do
  let placeholder := Placeholder.ofWritten written frame.property.environment
  .note (.met frame placeholder)
  let (cause, inner) ← next rules world root frame placeholder
  .note (.entered cause inner)
  checkDepth rules root inner
  return inner

/-- Resolves a text that stands in `frame`, after the events `sofar`, and puts its own events in
front of them. Events are listed latest first, so that none is listed anew by the texts around
it. -/
def fillOn (rules : Rules) (world : World) (root : Placed) :
    Nat → Frame → List Char → List Event → List Event × Outcome ResolutionError (List Char)
  | 0, _, _, sofar => (sofar, .unfinished)
  | steps + 1, frame, text, sofar =>
    match Occurrence.find? text with
    | none => (sofar, .done text)
    | some found =>
      let entered := enter rules world root frame found.written
      let sofar := entered.log.reverseAux sofar
      match entered.outcome with
      | .failed error => (sofar, .failed error)
      | .unfinished => (sofar, .unfinished)
      | .done inner =>
        match fillOn rules world root steps inner inner.property.value.toList sofar with
        | (sofar, .failed error) => (sofar, .failed error)
        | (sofar, .unfinished) => (sofar, .unfinished)
        | (sofar, .done value) =>
          fillOn rules world root steps frame (found.before ++ (value ++ found.after)) sofar

/-- Resolves a text that stands in `frame`: the first placeholder is replaced by its resolved text,
over and over (`fill_succ`). -/
def fill (rules : Rules) (world : World) (root : Placed) (steps : Nat) (frame : Frame)
    (text : List Char) : Traced Event ResolutionError (List Char) :=
  let (events, outcome) := fillOn rules world root steps frame text []
  ⟨events.reverse, outcome⟩

/-! ## Steps and their events -/

/-- What has happened so far neither changes the outcome of a resolution nor the events it adds. -/
theorem fillOn_eq (rules : Rules) (world : World) (root : Placed) (steps : Nat) (frame : Frame)
    (text : List Char) (sofar : List Event) :
    fillOn rules world root steps frame text sofar =
      ((fill rules world root steps frame text).log.reverse ++ sofar,
        (fill rules world root steps frame text).outcome) := by
  induction steps generalizing frame text sofar with
  | zero => simp [fill, fillOn]
  | succ steps ih =>
    simp only [fill, List.reverse_reverse] at ih ⊢
    unfold fillOn
    cases Occurrence.find? text with
    | none => simp
    | some found =>
      simp only [List.reverseAux_eq, List.append_nil]
      cases (enter rules world root frame found.written).outcome with
      | failed error => simp
      | unfinished => simp
      | done inner =>
        simp only
        rw [ih inner inner.property.value.toList
            ((enter rules world root frame found.written).log.reverse ++ sofar),
          ih inner inner.property.value.toList
            (enter rules world root frame found.written).log.reverse]
        cases (fillOn rules world root steps inner inner.property.value.toList []).2 with
        | failed error => simp
        | unfinished => simp
        | done value =>
          simp only
          rw [ih frame (found.before ++ (value ++ found.after)),
            ih frame (found.before ++ (value ++ found.after)) (_ ++ List.reverse _)]
          simp

/-- Without steps a resolution is unfinished. -/
theorem fill_zero (rules : Rules) (world : World) (root : Placed) (frame : Frame)
    (text : List Char) : fill rules world root 0 frame text = .unfinished := rfl

/-- With one more step a text without placeholders is resolved, and of any other the first
placeholder is replaced before the rest goes on. -/
theorem fill_succ (rules : Rules) (world : World) (root : Placed) (steps : Nat) (frame : Frame)
    (text : List Char) :
    fill rules world root (steps + 1) frame text =
      match Occurrence.find? text with
      | none => .pure text
      | some found =>
        (enter rules world root frame found.written).bind fun inner =>
          (fill rules world root steps inner inner.property.value.toList).bind fun value =>
            fill rules world root steps frame (found.before ++ (value ++ found.after)) := by
  rw [fill, fillOn]
  cases Occurrence.find? text with
  | none => rfl
  | some found =>
    simp only [fillOn_eq, List.reverseAux_eq, List.append_nil, Traced.bind]
    cases (enter rules world root frame found.written).outcome with
    | failed error => simp
    | unfinished => simp
    | done inner =>
      simp only
      cases (fill rules world root steps inner inner.property.value.toList).outcome with
      | failed error => simp
      | unfinished => simp
      | done value => simp

/-- Resolves the value of the property of a frame. -/
def expand (rules : Rules) (world : World) (root : Placed) (steps : Nat) (frame : Frame) :
    Traced Event ResolutionError (List Char) := do
  checkDepth rules root frame
  fill rules world root steps frame frame.property.value.toList

/-- The frame of a property that a resolution starts with. -/
def Frame.top (property : Property) (configType : String) : Frame :=
  ⟨property, configType, [], 0⟩

/-- Resolves the value of a property for a root. -/
def resolve (world : World) (steps : Nat) (property : Property) (root : Placed)
    (configType : String) : Traced Event ResolutionError String := do
  let value ← expand .standard world root steps (.top property configType)
  return String.ofList value

/-- The key of a property that holds a value given by the user. -/
def valueKey : String := "<value>"

/-- The property that holds a value given by the user, as if the component had declared it. -/
def valueProperty (value : String) (placed : Placed) : Property :=
  ⟨valueKey, value, placed.environment, true, .special placed.component "value"⟩

/-- Resolves a value as if a component had declared it. -/
def resolveValue (world : World) (steps : Nat) (value : String) (placed : Placed)
    (configType : String) : Traced Event ResolutionError String :=
  resolve world steps (valueProperty value placed) placed configType

end DeployConfig.Resolution
