import DeployConfig.Proofs.Layer.Transience
import DeployConfig.Proofs.Resolution.Runs

/-!
# Resolutions do not see what is transient

A resolution makes some of its properties transient and takes over others as they are, but it never
asks whether one is. So a resolution among hidden properties is the hidden form of the resolution:
it goes through the same events, puts the same questions and takes the same answers, and it ends
with the same value or the same error (`resolve_hidden`). This is shown for each kind of step, and
then along the run.

Therefore resolutions agree, whatever is transient, in any two worlds whose hidden forms are equal
(`resolve_agrees`).
-/

set_option autoImplicit false

namespace DeployConfig

/-! ## Runs told in another way -/

namespace Traced

variable {event ε α β : Type}

/-- The computation with its events, its error and its value changed. -/
def retold (events : event → event) (errors : ε → ε) (values : α → α)
    (run : Traced event ε α) : Traced event ε α where
  log := run.log.map events
  outcome :=
    match run.outcome with
    | .done value => .done (values value)
    | .failed error => .failed (errors error)
    | .unfinished => .unfinished

theorem outcome_retold_eq_done_iff {events : event → event} {errors : ε → ε}
    {run : Traced event ε α} {value : α} :
    (run.retold events errors id).outcome = .done value ↔ run.outcome = .done value := by
  obtain ⟨log, outcome⟩ := run
  cases outcome <;> simp [retold]

theorem note_eq_retold (events : event → event) (errors : ε → ε) (happened : event) :
    note (events happened) = (note happened).retold events errors id := rfl

/-- What is changed step by step is changed as a whole. -/
theorem bind_eq_retold {events : event → event} {errors : ε → ε} {values : α → α} {ends : β → β}
    {first other : Traced event ε α} {next again : α → Traced event ε β}
    (here : other = first.retold events errors values)
    (later : ∀ value, again (values value) = (next value).retold events errors ends) :
    bind other again = (bind first next).retold events errors ends := by
  subst here
  obtain ⟨log, outcome⟩ := first
  cases outcome with
  | done value => simp [bind, retold, later]
  | failed error => rfl
  | unfinished => rfl

/-- What is restated without regard to the change is changed as before. -/
theorem restate_retold {δ : Type} {events : event → event} {errors : ε → ε} {values : α → α}
    {restated : δ → ε} (same : ∀ error, errors (restated error) = restated error)
    {run : Traced event δ α} :
    (run.retold events id values).restate id restated =
      (run.restate id restated).retold events errors values := by
  obtain ⟨log, outcome⟩ := run
  cases outcome with
  | done value => rfl
  | failed error => simp [restate, retold, Outcome.mapError, same]
  | unfinished => rfl

end Traced

/-! ## Hidden forms -/

/-- The error with its property as a transient one. -/
def ResolutionError.hidden : ResolutionError → ResolutionError
  | .unresolved placeholder property root => .unresolved placeholder property.hidden root
  | .cyclic chain property root => .cyclic chain property.hidden root
  | .unsupportedConfigType name configured => .unsupportedConfigType name configured
  | .tooDeep limit property root => .tooDeep limit property.hidden root
  | .lookup placeholder cause => .lookup placeholder cause

/-- The answers with every property transient. -/
def Answerer.hidden (answerer : Answerer) : Answerer := fun query =>
  (answerer query).map (·.map Property.hidden)

/-- The world in which every answer is transient. -/
def World.hidden (world : World) : World :=
  { world with answerers := world.answerers.map Answerer.hidden }

namespace Resolution

/-- The place of the text with its property as a transient one. -/
def Frame.hidden (frame : Frame) : Frame :=
  { frame with property := frame.property.hidden }

/-- The event with its property, if it has one, as a transient one. -/
def Event.hidden : Event → Event
  | .met frame placeholder => .met frame.hidden placeholder
  | .entered cause frame => .entered cause frame.hidden
  | .located name environment => .located name environment
  | .asked configType query => .asked configType query

variable {rules : Rules} {world : World} {root : Placed} {frame : Frame}
  {placeholder : Placeholder}

/-! ## Asking -/

theorem toPlaced_hidden (world : World) (candidate : Candidate) :
    candidate.toPlaced world.hidden =
      (candidate.toPlaced world).retold Event.hidden id id := by
  cases candidate with
  | placed known => rfl
  | referred name environment =>
    have same : world.hidden.locate = world.locate := rfl
    simp only [Candidate.toPlaced, Bind.bind, Traced.bind, Traced.note, same]
    cases world.locate name environment <;> rfl

theorem ask_hidden (world : World) (configType key : String) (answerer : Answerer)
    (candidate : Candidate) :
    candidate.ask world.hidden configType answerer.hidden key =
      (candidate.ask world configType answerer key).retold Event.hidden id
        (·.map Property.hidden) := by
  refine Traced.bind_eq_retold (toPlaced_hidden world candidate) fun placed => ?_
  simp only [Bind.bind, Traced.bind, Traced.note, Traced.retold, Traced.ofExcept, Answerer.hidden,
    id]
  cases answerer ⟨placed.component, key, placed.environment⟩ <;> rfl

/-- **The same candidate answers**, and with the same property. -/
theorem askInTurn_hidden (world : World) (configType key : String) (answerer : Answerer)
    (inTurn : List Candidate) :
    askInTurn world.hidden configType answerer.hidden key inTurn =
      (askInTurn world configType answerer key inTurn).retold Event.hidden id
        (·.map Property.hidden) := by
  induction inTurn with
  | nil => rfl
  | cons candidate rest ih =>
    refine Traced.bind_eq_retold (ask_hidden world configType key answerer candidate) ?_
    intro answer
    cases answer with
    | some property => rfl
    | none => exact ih

/-! ## Steps -/

theorem get?_answerers_hidden (world : World) (configType : String) :
    world.hidden.answerers.get? configType =
      (world.answerers.get? configType).map Answerer.hidden :=
  Dictionary.get?_map _ _ _

theorem contains_answerers_hidden (world : World) (configType : String) :
    world.hidden.answerers.contains configType = world.answerers.contains configType := by
  rw [Dictionary.contains, get?_answerers_hidden, Option.isSome_map]
  rfl

theorem configTypes_hidden (world : World) : world.hidden.configTypes = world.configTypes :=
  List.map_map

/-- **The same text stands for a placeholder**: it is handed over, overridden, refused as a cycle or
replaced by its default as before. -/
theorem next_hidden (rules : Rules) (world : World) (root : Placed) (frame : Frame)
    (placeholder : Placeholder) :
    next rules world.hidden root frame.hidden placeholder =
      (next rules world root frame placeholder).retold Event.hidden ResolutionError.hidden
        fun result => (result.1, result.2.hidden) := by
  have ownType : frame.hidden.otherConfigType? placeholder =
      frame.otherConfigType? placeholder := rfl
  cases own : frame.otherConfigType? placeholder with
  | some other =>
    rw [next_of_other own, next_of_other (ownType.trans own), contains_answerers_hidden,
      configTypes_hidden]
    split <;> rfl
  | none =>
    have sameType : frame.hidden.configType = frame.configType := rfl
    simp only [next, own, ownType, sameType, get?_answerers_hidden, configTypes_hidden]
    cases world.answerers.get? frame.configType with
    | none => rfl
    | some answerer =>
      simp only [Option.map_some]
      -- The candidates are the same, and a failure does not show a property.
      have plain : ∀ cause, (ResolutionError.lookup (frame.named placeholder) cause).hidden =
          .lookup (frame.named placeholder) cause := fun _ => rfl
      refine Traced.bind_eq_retold ((congrArg (Traced.restate id _) (askInTurn_hidden ..)).trans
        (Traced.restate_retold plain)) ?_
      intro answer
      cases answer with
      | some property =>
        have expands : frame.hidden.expands (frame.hidden.named placeholder) =
            frame.expands (frame.named placeholder) := rfl
        simp only [Option.map_some, expands]
        split <;> rfl
      | none => cases placeholder.fallback <;> rfl

theorem checkDepth_hidden (rules : Rules) (root : Placed) (frame : Frame) :
    checkDepth rules root frame.hidden =
      (checkDepth rules root frame).retold Event.hidden ResolutionError.hidden id := by
  unfold checkDepth
  have sameDepth : frame.hidden.depth = frame.depth := rfl
  rw [sameDepth]
  split
  · split <;> rfl
  · rfl

theorem enter_hidden (rules : Rules) (world : World) (root : Placed) (frame : Frame)
    (written : Written) :
    enter rules world.hidden root frame.hidden written =
      (enter rules world root frame written).retold Event.hidden ResolutionError.hidden
        Frame.hidden := by
  simp only [enter]
  have met := Traced.note_eq_retold Event.hidden ResolutionError.hidden
    (.met frame (.ofWritten written frame.property.environment))
  refine Traced.bind_eq_retold met fun _ => ?_
  refine Traced.bind_eq_retold (next_hidden rules world root frame _) fun result => ?_
  obtain ⟨cause, inner⟩ := result
  have entered := Traced.note_eq_retold Event.hidden ResolutionError.hidden (.entered cause inner)
  refine Traced.bind_eq_retold entered fun _ => ?_
  exact Traced.bind_eq_retold (checkDepth_hidden rules root inner) fun _ => rfl

/-! ## Runs -/

/-- **A run among hidden properties is the hidden form of the run.** -/
theorem fill_hidden (rules : Rules) (world : World) (root : Placed) (steps : Nat) (frame : Frame)
    (text : List Char) :
    fill rules world.hidden root steps frame.hidden text =
      (fill rules world root steps frame text).retold Event.hidden ResolutionError.hidden id := by
  induction steps generalizing frame text with
  | zero => rfl
  | succ steps ih =>
    cases first : Occurrence.find? text with
    | none =>
      rw [fill_of_find?_eq_none first, fill_of_find?_eq_none first]
      rfl
    | some found =>
      rw [fill_of_find?_eq_some first, fill_of_find?_eq_some first]
      refine Traced.bind_eq_retold (enter_hidden rules world root frame _) fun inner => ?_
      refine Traced.bind_eq_retold (ih inner inner.property.value.toList) fun value => ?_
      exact ih frame (found.before ++ (value ++ found.after))

theorem resolve_hidden (world : World) (steps : Nat) (property : Property) (root : Placed)
    (configType : String) :
    resolve world.hidden steps property.hidden root configType =
      (resolve world steps property root configType).retold Event.hidden ResolutionError.hidden
        id := by
  rw [resolve, resolve, expand_top, expand_top]
  exact Traced.bind_eq_retold
    (fill_hidden .standard world root steps (.top property configType) _) fun _ => rfl

/-- **Resolutions agree, whatever is transient.** In worlds that differ in nothing else, properties
that differ in nothing else are resolved in the same way. -/
theorem resolve_agrees {one other : World} (worlds : one.hidden = other.hidden)
    {property property' : Property} (properties : property.hidden = property'.hidden)
    (steps : Nat) (root : Placed) (configType : String) :
    (resolve one steps property root configType).retold Event.hidden ResolutionError.hidden id =
      (resolve other steps property' root configType).retold Event.hidden
        ResolutionError.hidden id := by
  rw [← resolve_hidden, ← resolve_hidden, worlds, properties]

end Resolution

end DeployConfig
