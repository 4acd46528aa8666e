import DeployConfig.Proofs.Layer.Assembly
import Mathlib.Data.List.Forall2

/-!
# Transient declarations in layers

Whether a declaration is transient does not matter to a walk through layers. Let two loaders have
the same layers, but for the declarations that are transient there (`Loader.Agrees`). Then the walks
go the same way and list the same for each key, again but for what is transient
(`Performs.exists_agreeing`), and so the properties in force agree as well
(`Performs.assembled_agrees`). In particular a declaration that is transient wins over an earlier
one that is not, and the other way round.

Layers need to agree key by key only. In a file the transient declarations stand in a table of their
own, so a declaration that becomes transient changes its place among those of other keys.

Two properties agree when their hidden forms, in which both are transient, are equal.
-/

set_option autoImplicit false

namespace DeployConfig

/-! ## What declarations have in common -/

/-- The property as a transient one. -/
def Property.hidden (property : Property) : Property :=
  { property with transient := true }

/-- Ends with the same error, or with values that are related. -/
inductive SameEnd {ε α : Type} (related : α → α → Prop) : Except ε α → Except ε α → Prop where
  | failed (error : ε) : SameEnd related (.error error) (.error error)
  | given {one other : α} (same : related one other) : SameEnd related (.ok one) (.ok other)

/-- What is listed for a key, in order, whatever is transient. -/
def listedFor (key : String) (properties : List Property) : List Property :=
  (properties.filter (·.key = key)).map Property.hidden

theorem listedFor_append (key : String) (front behind : List Property) :
    listedFor key (front ++ behind) = listedFor key front ++ listedFor key behind := by
  rw [listedFor, List.filter_append, List.map_append]
  rfl

namespace Layer

/-- The values that a layer declares for a key, in order. -/
def valuesFor (layer : Layer) (key : String) : List String :=
  (layer.entries.filter (·.key = key)).map (·.value)

/-- Layers that declare the same for each key, whatever is transient. -/
structure Agrees (one other : Layer) : Prop where
  origin : one.origin = other.origin
  includes : one.includes = other.includes
  values : ∀ key, one.valuesFor key = other.valuesFor key

/-- What a layer lists for a key hangs on its origin and on the values for the key. -/
theorem listedFor_entries (layer : Layer) (component : Component) (environment key : String) :
    listedFor key (layer.entries.map (layer.property component environment)) =
      (layer.valuesFor key).map fun value =>
        (layer.property component environment ⟨key, value, true⟩) := by
  rw [listedFor, List.filter_map, List.map_map, valuesFor, List.map_map]
  refine List.map_congr_left fun entry member => ?_
  obtain rfl : entry.key = key := of_decide_eq_true (List.mem_filter.mp member).2
  rfl

theorem Agrees.listedFor_entries {one other : Layer} (agrees : one.Agrees other)
    (component : Component) (environment key : String) :
    listedFor key (one.entries.map (one.property component environment)) =
      listedFor key (other.entries.map (other.property component environment)) := by
  rw [Layer.listedFor_entries, Layer.listedFor_entries, agrees.values]
  simp only [Layer.property, agrees.origin]

end Layer

/-- Loaders that have the same layers everywhere, whatever is transient. -/
def Loader.Agrees (one other : Loader) : Prop :=
  ∀ type environment,
    SameEnd (List.Forall₂ Layer.Agrees) (one type environment) (other type environment)

namespace Assembly

variable {one other : Loader} {tasks tasks' : List Task} {started loaded : List (String × String)}
  {result : Except SupplyError (List Property)} {component : Component} {environment : String}

/-! ## Walks that go the same way -/

/-- Tasks for layers that agree. -/
inductive Task.Agrees : Task → Task → Prop where
  | expand (component : Component) (environment : String) :
      Agrees (.expand component environment) (.expand component environment)
  | emit (component : Component) (environment : String) {layer layer' : Layer}
      (same : layer.Agrees layer') :
      Agrees (.emit component environment layer) (.emit component environment layer')

theorem tasksOf_agrees {layer layer' : Layer} (same : layer.Agrees layer') :
    List.Forall₂ Task.Agrees (tasksOf component environment layer)
      (tasksOf component environment layer') := by
  refine List.rel_append ?_ (.cons (.emit component environment same) .nil)
  rw [same.includes, List.forall₂_map_left_iff, List.forall₂_map_right_iff, List.forall₂_same]
  exact fun included _ => .expand (.ofType included.type) (included.environment.getD environment)

/-- Lists of properties that hold the same for each key, whatever is transient. -/
def ListAlike (emitted emitted' : List Property) : Prop :=
  ∀ key, listedFor key emitted = listedFor key emitted'

/-- **Walks through layers that agree load the same pairs and list the same.** -/
theorem Performs.exists_agreeing (agrees : one.Agrees other)
    (performs : Performs one tasks started loaded result)
    (alike : List.Forall₂ Task.Agrees tasks tasks') :
    ∃ result', Performs other tasks' started loaded result' ∧
      SameEnd ListAlike result result' := by
  induction performs generalizing tasks' with
  | done =>
    cases alike
    exact ⟨_, .done, .given fun _ => rfl⟩
  | skip again rest ih =>
    obtain _ | ⟨⟨⟩, behind⟩ := alike
    obtain ⟨result', performs, same⟩ := ih behind
    exact ⟨result', .skip again performs, same⟩
  | @fail component environment tasks started error fresh fails =>
    obtain _ | ⟨⟨⟩, behind⟩ := alike
    have same := agrees component.type environment
    rw [fails] at same
    generalize loads : other component.type environment = answer at same
    cases same
    exact ⟨_, .fail fresh loads, .failed error⟩
  | @expand component environment tasks started loaded layers result fresh loads rest ih =>
    obtain _ | ⟨⟨⟩, behind⟩ := alike
    have same := agrees component.type environment
    rw [loads] at same
    generalize loads' : other component.type environment = answer at same
    cases same with
    | given same =>
      obtain ⟨result', performs, ends⟩ :=
        ih (List.rel_append (List.rel_flatMap same fun _ _ => tasksOf_agrees) behind)
      exact ⟨result', .expand fresh loads' performs, ends⟩
  | @emit component environment layer tasks started loaded result rest ih =>
    obtain _ | ⟨here, behind⟩ := alike
    obtain _ | ⟨_, _, same⟩ := here
    obtain ⟨result', performs, ends⟩ := ih behind
    refine ⟨_, .emit performs, ?_⟩
    cases ends with
    | failed error => exact .failed error
    | given alike =>
      refine .given fun key => ?_
      rw [listedFor_append, listedFor_append, same.listedFor_entries, alike key]

/-! ## What is in force -/

/-- The property in force for a key is the last one that is listed for it, whatever is transient. -/
theorem hidden_get?_inForce (emitted : List Property) (key : String) :
    ((inForce emitted).get? key).map Property.hidden = (listedFor key emitted).getLast? := by
  rw [get?_inForce, ← List.head?_filter, List.filter_reverse, List.head?_reverse, listedFor,
    List.getLast?_map]

/-- Property maps that have the same properties, whatever is transient. -/
def MapAlike (properties properties' : PropertyMap) : Prop :=
  properties.map Property.hidden = properties'.map Property.hidden

theorem ListAlike.inForce {emitted emitted' : List Property} (alike : ListAlike emitted emitted') :
    MapAlike (inForce emitted) (inForce emitted') := by
  apply Dictionary.ext_get?
  intro key
  rw [Dictionary.get?_map, Dictionary.get?_map, hidden_get?_inForce, hidden_get?_inForce, alike key]

/-- **The properties of a component are the same, whatever is transient**, in loaders that agree. -/
theorem Performs.assembled_agrees (agrees : one.Agrees other)
    (performs : Performs one [.expand component environment] [] loaded result) :
    SameEnd MapAlike (Assembly.assembled one component environment)
      (Assembly.assembled other component environment) := by
  obtain ⟨result', performs', ends⟩ :=
    performs.exists_agreeing agrees (.cons (.expand component environment) .nil)
  rw [performs.assembled, performs'.assembled]
  cases ends with
  | failed error => exact .failed error
  | given alike => exact .given alike.inForce

end Assembly

end DeployConfig
