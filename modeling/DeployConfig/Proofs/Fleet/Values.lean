import DeployConfig.Fleet
import Mathlib.Data.List.Basic

/-!
# What a configuration holds

The configuration of a component is gathered: for each config type the properties that are not
transient are resolved one by one, each value is put under its key, and what comes of a config type
is put under the name of the type. Gathering is done if something comes of every item, and where the
keys tell the items apart, each key has what came of its item (`Traced.get?_of_gather`). So a
configuration is described key by key, by the properties that are shown in it
(`Fleet.get?_of_values`, `Fleet.get?_of_configuration`).
-/

set_option autoImplicit false

namespace DeployConfig

/-! ## Dictionaries of lists -/

namespace Dictionary

variable {α : Type} {entries : List (String × α)} {key : String} {value : α}

theorem mem_of_get?_ofList (held : (ofList entries).get? key = some value) :
    (key, value) ∈ entries := by
  rw [get?_ofList] at held
  obtain ⟨front, behind, split, _⟩ := List.lookup_eq_some_iff.mp held
  rw [← List.mem_reverse, split]
  exact List.mem_append_right _ List.mem_cons_self

theorem get?_ofList_eq_none_iff :
    (ofList entries).get? key = none ↔ key ∉ entries.map (·.1) := by
  simp only [get?_ofList, List.lookup_eq_none_iff, List.mem_reverse, bne_iff_ne,
    List.mem_map, not_exists, not_and]
  constructor
  · intro differs entry member same
    exact differs entry member same.symm
  · intro differs entry member same
    exact differs entry member same.symm

end Dictionary

/-! ## Gathering -/

namespace Traced

variable {event ε α β : Type} {key : α → String} {run : α → Traced event ε β} {items : List α}

/-- What comes of an item, with the key of the item. -/
def keyed (key : α → String) (run : α → Traced event ε β) (item : α) :
    Traced event ε (String × β) := do
  let result ← run item
  return (key item, result)

theorem outcome_keyed_eq_done_iff {item : α} {entry : String × β} :
    (keyed key run item).outcome = .done entry ↔
      ∃ result, (run item).outcome = .done result ∧ entry = (key item, result) := by
  refine outcome_bind_eq_done_iff.trans (exists_congr fun result => and_congr_right fun _ => ?_)
  exact ⟨fun same => (Outcome.done.inj same).symm, fun same => congrArg Outcome.done same.symm⟩

/-- Puts what comes of each item under its key. -/
def gather (key : α → String) (run : α → Traced event ε β) (items : List α) :
    Traced event ε (Dictionary β) := do
  let entries ← items.mapM (keyed key run)
  return .ofList entries

/-- Where going through items is done, it has been done for each of them. -/
theorem results_of_mapM {entries : List (String × β)}
    (done : (items.mapM (keyed key run)).outcome = .done entries) :
    ∃ results : List (α × β), results.map (·.1) = items ∧
      (∀ pair ∈ results, (run pair.1).outcome = .done pair.2) ∧
      entries = results.map fun pair => (key pair.1, pair.2) := by
  induction items generalizing entries with
  | nil =>
    cases done
    exact ⟨[], rfl, List.forall_mem_nil _, rfl⟩
  | cons item rest ih =>
    rw [List.mapM_cons] at done
    obtain ⟨first, here, done⟩ := outcome_bind_eq_done_iff.mp done
    obtain ⟨result, ran, rfl⟩ := outcome_keyed_eq_done_iff.mp here
    obtain ⟨others, later, kept⟩ := outcome_bind_eq_done_iff.mp done
    cases kept
    obtain ⟨results, rfl, each, rfl⟩ := ih later
    exact ⟨(item, result) :: results, rfl, List.forall_mem_cons.mpr ⟨ran, each⟩, rfl⟩

/-- Going through items is done if it is done for each of them. -/
theorem exists_mapM (each : ∀ item ∈ items, ∃ result, (run item).outcome = .done result) :
    ∃ entries, (items.mapM (keyed key run)).outcome = .done entries := by
  induction items with
  | nil => exact ⟨[], rfl⟩
  | cons item rest ih =>
    obtain ⟨⟨result, ran⟩, behind⟩ := List.forall_mem_cons.mp each
    have first : (keyed key run item).outcome = .done (key item, result) :=
      outcome_keyed_eq_done_iff.mpr ⟨result, ran, rfl⟩
    obtain ⟨entries, later⟩ := ih behind
    rw [List.mapM_cons]
    exact ⟨_, outcome_bind_eq_done_iff.mpr
      ⟨_, first, outcome_bind_eq_done_iff.mpr ⟨entries, later, rfl⟩⟩⟩

/-- **What is gathered.** Where the keys tell the items apart, each item has what came of it under
its key, and no other key has anything. -/
theorem get?_of_gather
    (apart : ∀ item ∈ items, ∀ other ∈ items, key item = key other → item = other)
    {dictionary : Dictionary β} (done : (gather key run items).outcome = .done dictionary) :
    (∀ item ∈ items, ∃ result,
      dictionary.get? (key item) = some result ∧ (run item).outcome = .done result) ∧
    ∀ name ∉ items.map key, dictionary.get? name = none := by
  obtain ⟨entries, all, kept⟩ := outcome_bind_eq_done_iff.mp done
  cases kept
  obtain ⟨results, beside, each, rfl⟩ := results_of_mapM all
  have names : (results.map fun pair => (key pair.1, pair.2)).map (·.1) = items.map key := by
    rw [← beside, List.map_map, List.map_map]
    rfl
  refine ⟨?_, ?_⟩
  · intro item member
    cases held : (Dictionary.ofList
        (results.map fun pair => (key pair.1, pair.2))).get? (key item) with
    | none =>
      rw [Dictionary.get?_ofList_eq_none_iff, names] at held
      exact absurd (List.mem_map_of_mem member) held
    | some result =>
      obtain ⟨pair, among, same⟩ := List.mem_map.mp (Dictionary.mem_of_get?_ofList held)
      obtain ⟨named, rfl⟩ := Prod.mk.inj same
      have known : pair.1 ∈ items := beside ▸ List.mem_map_of_mem among
      rw [apart item member pair.1 known named.symm]
      exact ⟨pair.2, rfl, each pair among⟩
  · intro name absent
    rw [Dictionary.get?_ofList_eq_none_iff, names]
    exact absent

/-- Gathering is done if something comes of every item. -/
theorem exists_gather (each : ∀ item ∈ items, ∃ result, (run item).outcome = .done result) :
    ∃ dictionary, (gather key run items).outcome = .done dictionary := by
  obtain ⟨entries, all⟩ := exists_mapM each
  exact ⟨_, outcome_bind_eq_done_iff.mpr ⟨entries, all, rfl⟩⟩

end Traced

/-! ## Configurations -/

namespace Fleet

variable {fleet : Fleet} {steps : Nat} {root : Placed} {configType key : String}
  {property : Property} {properties : PropertyMap}

/-- A property is shown under a key in the configuration of a component: it is in force for the
component, and it is not transient. -/
def Shows (fleet : Fleet) (root : Placed) (configType key : String) (property : Property) :
    Prop :=
  ∃ properties,
    fleet.sources.properties ⟨root.component, root.environment, configType⟩ = .ok properties ∧
      properties.get? key = some property ∧ property.transient = false

/-- The properties that are shown are the listed ones that are not transient. -/
theorem shows_iff_mem
    (supplied : fleet.sources.properties ⟨root.component, root.environment, configType⟩ =
      .ok properties) :
    fleet.Shows root configType key property ↔
      (key, property) ∈ properties.entries.filter (!·.2.transient) := by
  rw [List.mem_filter, ← Dictionary.get?_eq_some]
  simp [Shows, supplied]

/-- The values of a config type are gathered from the properties that are shown. -/
theorem outcome_values
    (supplied : fleet.sources.properties ⟨root.component, root.environment, configType⟩ =
      .ok properties) :
    (fleet.values steps root configType).outcome =
      (Traced.gather (·.1) (fun item => fleet.resolving (.property root item.1)
          (Resolution.resolve fleet.world steps item.2 root configType))
        (properties.entries.filter (!·.2.transient))).outcome := by
  simp only [Fleet.values, Fleet.properties, supplied]
  rfl

/-- **The values of a config type** are those of the properties that are shown, under their keys. -/
theorem get?_of_values {shown : Dictionary String}
    (done : (fleet.values steps root configType).outcome = .done shown) :
    (∃ properties, fleet.sources.properties
      ⟨root.component, root.environment, configType⟩ = .ok properties) ∧
    (∀ key property, fleet.Shows root configType key property →
      ∃ value, shown.get? key = some value ∧
        (Resolution.resolve fleet.world steps property root configType).outcome = .done value) ∧
    ∀ key, (∀ property, ¬ fleet.Shows root configType key property) → shown.get? key = none := by
  cases supplied : fleet.sources.properties ⟨root.component, root.environment, configType⟩ with
  | error error =>
    simp only [Fleet.values, Fleet.properties, supplied] at done
    cases done
  | ok properties =>
    have apart : ∀ item ∈ properties.entries.filter (!·.2.transient),
        ∀ other ∈ properties.entries.filter (!·.2.transient),
          item.1 = other.1 → item = other := by
      intro item member other among same
      have here := Dictionary.get?_eq_some.mpr (List.mem_filter.mp member).1
      have there := Dictionary.get?_eq_some.mpr (List.mem_filter.mp among).1
      rw [same, there] at here
      exact Prod.ext same (Option.some.inj here).symm
    rw [outcome_values supplied] at done
    obtain ⟨held, absent⟩ := Traced.get?_of_gather apart done
    simp only [resolving, Traced.outcome_restate_eq_done_iff] at held
    refine ⟨⟨properties, rfl⟩, ?_, ?_⟩
    · intro key property shows
      exact held (key, property) ((shows_iff_mem supplied).mp shows)
    · intro key nobody
      refine absent key fun listed => ?_
      obtain ⟨⟨_, property⟩, member, rfl⟩ := List.mem_map.mp listed
      exact nobody property ((shows_iff_mem supplied).mpr member)

/-- The values of a config type can be had if every property that is shown can be resolved. -/
theorem exists_values
    (supplied : fleet.sources.properties ⟨root.component, root.environment, configType⟩ =
      .ok properties)
    (each : ∀ key property, fleet.Shows root configType key property →
      ∃ value, (Resolution.resolve fleet.world steps property root configType).outcome =
        .done value) :
    ∃ shown, (fleet.values steps root configType).outcome = .done shown := by
  rw [outcome_values supplied]
  refine Traced.exists_gather fun item member => ?_
  obtain ⟨value, done⟩ := each item.1 item.2 ((shows_iff_mem supplied).mpr member)
  exact ⟨value, Traced.outcome_restate_eq_done_iff.mpr done⟩

/-- A configuration is gathered from the values of the config types. -/
theorem configuration_eq (fleet : Fleet) (steps : Nat) (root : Placed) :
    fleet.configuration steps root = (do
      let shown ← Traced.gather id (fleet.values steps root) fleet.configTypes
      return ⟨root.component, root.environment, shown⟩) := by
  simp only [Fleet.configuration, Traced.gather, bind_assoc, pure_bind]
  rfl

/-- **A configuration** is that of the component in the environment. It holds the values of every
config type of the fleet under its name. -/
theorem get?_of_configuration {built : Configuration}
    (done : (fleet.configuration steps root).outcome = .done built) :
    built.component = root.component ∧ built.environment = root.environment ∧
    (∀ configType ∈ fleet.configTypes, ∃ shown,
      built.values.get? configType = some shown ∧
        (fleet.values steps root configType).outcome = .done shown) ∧
    ∀ configType ∉ fleet.configTypes, built.values.get? configType = none := by
  rw [configuration_eq] at done
  obtain ⟨values, gathered, kept⟩ := Traced.outcome_bind_eq_done_iff.mp done
  cases kept
  obtain ⟨held, absent⟩ := Traced.get?_of_gather (fun _ _ _ _ same => same) gathered
  rw [List.map_id'] at absent
  exact ⟨rfl, rfl, held, absent⟩

/-- A configuration can be had if the values of every config type can. -/
theorem exists_configuration
    (each : ∀ configType ∈ fleet.configTypes, ∃ shown,
      (fleet.values steps root configType).outcome = .done shown) :
    ∃ built, (fleet.configuration steps root).outcome = .done built := by
  obtain ⟨values, gathered⟩ : ∃ values,
      (Traced.gather id (fleet.values steps root) fleet.configTypes).outcome = .done values :=
    Traced.exists_gather each
  rw [configuration_eq]
  exact ⟨_, Traced.outcome_bind_eq_done_iff.mpr ⟨values, gathered, rfl⟩⟩

end Fleet

end DeployConfig
