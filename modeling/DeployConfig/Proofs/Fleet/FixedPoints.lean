import DeployConfig.Proofs.Fleet.Values
import DeployConfig.Proofs.Resolution.EntryPoints

/-!
# Resolved texts are left alone

A resolution goes on until the search for placeholders finds none, so what it ends with is finished:
the search finds nothing there, from whatever offset it starts (`Finished.find?_eq_none`). That the
pieces of a text are finished would not be enough, because one piece may open a placeholder which
another one closes; but the search is made in the whole text, each time a piece has been put in.

A finished text is resolved without asking anyone (`Finished.resolve`), so resolving it again, in
whatever place, gives it back. The main result is `resolved_spec`.
-/

set_option autoImplicit false

namespace DeployConfig

/-- A text in which the search from the start finds no placeholder. -/
def Finished (text : String) : Prop :=
  Span.find? text.toList 0 = none

namespace Finished

variable {text : String} {world : World} {fleet : Fleet} {steps : Nat}

theorem iff_occurrence : Finished text ↔ Occurrence.find? text.toList = none := by
  rw [Finished, Span.find?_zero, Option.map_eq_none_iff]

/-- In a finished text the search finds nothing from any offset. -/
theorem find?_eq_none (finished : Finished text) (offset : Nat) :
    Span.find? text.toList offset = none := by
  refine Option.eq_none_iff_forall_ne_some.mpr fun span finds => ?_
  obtain ⟨front, rest, found, split, _, first, _⟩ := Span.find?_eq_some_iff.mp finds
  have nowhere := Occurrence.find?_eq_none_iff.mp (iff_occurrence.mp finished)
  refine nowhere (front ++ found.before) _ ?_ ⟨_, _, first.wellFormed⟩
  rw [split, first.split, List.append_assoc]

/-- A finished text is resolved at once, and nobody is asked. -/
theorem resolve (finished : Finished text) (steps : Nat) {property : Property}
    (holds : property.value = text) (root : Placed) (configType : String) :
    Resolution.resolve world (steps + 1) property root configType = .pure text := by
  subst holds
  rw [Resolution.resolve, Resolution.expand_top,
    Resolution.fill_of_find?_eq_none (iff_occurrence.mp finished)]
  exact congrArg Traced.pure (String.ofList_toList)

/-- What a text is resolved to is finished. -/
theorem of_resolve {property : Property} {root : Placed} {configType value : String}
    (done : (Resolution.resolve world steps property root configType).outcome = .done value) :
    Finished value :=
  iff_occurrence.mpr (Resolution.find?_of_done (Resolution.outcome_resolve_eq_done_iff.mp done))

/-- A user gets a finished text back, if the reference means a component. -/
theorem resolveValue (finished : Finished text) (steps : Nat)
    {reference environment : String} {component : Component}
    (located : fleet.sources.environments.component reference environment = .ok component)
    (configType : String) :
    (fleet.resolveValue (steps + 1) text reference environment configType).outcome =
      .done text := by
  refine Traced.outcome_bind_eq_done_iff.mpr ⟨component, ?_, ?_⟩
  · rw [located]
    rfl
  · rw [Fleet.resolving, Traced.outcome_restate_eq_done_iff, Resolution.resolveValue,
      finished.resolve steps rfl]
    rfl

/-- What a user gets for a value is finished. -/
theorem of_resolveValue {given reference environment configType value : String}
    (done : (fleet.resolveValue steps given reference environment configType).outcome =
      .done value) : Finished value := by
  obtain ⟨component, _, resolved⟩ := Traced.outcome_bind_eq_done_iff.mp done
  rw [Fleet.resolving, Traced.outcome_restate_eq_done_iff] at resolved
  exact of_resolve resolved

section Configurations

variable {root : Placed} {configType key : String} {built : Configuration}
  {shown : Dictionary String}

/-- The values of a configuration are finished. -/
theorem of_configuration (done : (fleet.configuration steps root).outcome = .done built)
    (kept : built.values.get? configType = some shown) {value : String}
    (held : shown.get? key = some value) : Finished value := by
  obtain ⟨_, _, each, others⟩ := Fleet.get?_of_configuration done
  have known : configType ∈ fleet.configTypes := by
    refine Decidable.of_not_not fun unknown => ?_
    rw [others configType unknown] at kept
    cases kept
  obtain ⟨_, same, values⟩ := each configType known
  cases kept.symm.trans same
  obtain ⟨_, resolved, hidden⟩ := Fleet.get?_of_values values
  -- A key has a value only if a property is shown under it.
  obtain ⟨property, shows⟩ : ∃ property, fleet.Shows root configType key property := by
    refine Classical.byContradiction fun nobody => ?_
    rw [hidden key (not_exists.mp nobody)] at held
    cases held
  obtain ⟨_, here, done⟩ := resolved key property shows
  cases held.symm.trans here
  exact of_resolve done

/-- A finished value is in the configuration as it was declared. -/
theorem configuration (finished : Finished text)
    (done : (fleet.configuration steps root).outcome = .done built)
    (known : configType ∈ fleet.configTypes) {property : Property}
    (shows : fleet.Shows root configType key property) (holds : property.value = text) :
    ∃ shown, built.values.get? configType = some shown ∧ shown.get? key = some text := by
  obtain ⟨_, _, each, _⟩ := Fleet.get?_of_configuration done
  obtain ⟨shown, kept, values⟩ := each configType known
  obtain ⟨_, resolved, _⟩ := Fleet.get?_of_values values
  obtain ⟨value, held, done⟩ := resolved key property shows
  refine ⟨shown, kept, ?_⟩
  cases steps with
  | zero =>
    rw [Resolution.outcome_resolve_eq_done_iff] at done
    cases done
  | succ steps =>
    rw [finished.resolve steps holds] at done
    cases done
    exact held

end Configurations

end Finished

namespace Fleet

/-- **Resolved texts are fixed points.** Whatever the world, what a text is resolved to is finished:
a text nested in others or the text of a property, the value of a user, and each value of a
configuration. In a finished text the search finds no placeholder from any offset, and the text is
resolved to itself, by any rules and as the value of any property, for any root and any config
type, be it configured or not; nobody is asked for it. A user gets it back wherever the reference
means a component, and a configuration shows it as it was declared. -/
theorem resolved_spec (world : World) (fleet : Fleet) :
    (∀ rules root steps frame text value,
      (Resolution.fill rules world root steps frame text).outcome = .done value →
        Finished (String.ofList value)) ∧
    (∀ steps property root configType value,
      (Resolution.resolve world steps property root configType).outcome = .done value →
        Finished value) ∧
    (∀ steps given placed configType value,
      (Resolution.resolveValue world steps given placed configType).outcome = .done value →
        Finished value) ∧
    (∀ steps given reference environment configType value,
      (fleet.resolveValue steps given reference environment configType).outcome = .done value →
        Finished value) ∧
    (∀ steps root configuration configType shown key value,
      (fleet.configuration steps root).outcome = .done configuration →
        configuration.values.get? configType = some shown → shown.get? key = some value →
          Finished value) ∧
    ∀ text, Finished text →
      (∀ offset, Span.find? text.toList offset = none) ∧
      (∀ rules root steps frame,
        Resolution.fill rules world root (steps + 1) frame text.toList = .pure text.toList) ∧
      (∀ steps property root configType, property.value = text →
        Resolution.resolve world (steps + 1) property root configType = .pure text) ∧
      (∀ steps placed configType,
        Resolution.resolveValue world (steps + 1) text placed configType = .pure text) ∧
      (∀ steps reference environment configType component,
        fleet.sources.environments.component reference environment = .ok component →
          (fleet.resolveValue (steps + 1) text reference environment configType).outcome =
            .done text) ∧
      ∀ steps root configuration configType key property,
        (fleet.configuration steps root).outcome = .done configuration →
          configType ∈ fleet.configTypes → fleet.Shows root configType key property →
            property.value = text →
              ∃ shown, configuration.values.get? configType = some shown ∧
                shown.get? key = some text := by
  refine ⟨?_, ?_, ?_, ?_, ?_, ?_⟩
  · intro rules root steps frame text value done
    rw [Finished.iff_occurrence, String.toList_ofList]
    exact Resolution.find?_of_done done
  · intro steps property root configType value done
    exact .of_resolve done
  · intro steps given placed configType value done
    exact .of_resolve done
  · intro steps given reference environment configType value done
    exact .of_resolveValue done
  · intro steps root configuration configType shown key value done kept held
    exact .of_configuration done kept held
  · intro text finished
    refine ⟨finished.find?_eq_none, ?_, ?_, ?_, ?_, ?_⟩
    · intro rules root steps frame
      exact Resolution.fill_of_find?_eq_none (Finished.iff_occurrence.mp finished)
    · intro steps property root configType holds
      exact finished.resolve steps holds root configType
    · intro steps placed configType
      exact finished.resolve steps rfl placed configType
    · intro steps reference environment configType component located
      exact finished.resolveValue steps located configType
    · intro steps root configuration configType key property done known shows holds
      exact finished.configuration done known shows holds

/-- The default is finished, but what it is put into is not: with the pieces around it the default
makes up another placeholder. -/
example :
    Finished "this@port" ∧
    (shopFleet.resolveValue 4 "$\x7b$\x7bthis@half:this@port\x7d\x7d" "shop" "dev" "app").outcome =
      .done "80" :=
  ⟨by cbv, by cbv⟩

end Fleet

end DeployConfig
