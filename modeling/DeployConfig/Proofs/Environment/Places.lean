import DeployConfig.Informant
import DeployConfig.Proofs.Environment.Inclusions

/-!
# Places of components

A component is looked up by its name, in one group after the other and from the front of each. That
the names of all components are different is made sure of when an environment is made, for the
names that are left after everything has been included, excluded and appended. So the first
component that is found is the only one, and a look-up leads back to the place that the component
was taken from (`Environment.locate_of_nodup`), even when groups share a name.

Whatever else is told of a component in its environment is told of this place. The main result is
`places_spec`.
-/

set_option autoImplicit false

namespace DeployConfig

/-! ## Looking places up -/

namespace Environment

variable {environment : Environment} {group : Group} {component : Component} {name : String}
  {index : Nat}

/-- Among different names a component is the first that has its own. -/
theorem findIdx?_of_nodup {components : List Component}
    (distinct : (components.map (·.name)).Nodup) (here : components[index]? = some component) :
    components.findIdx? (·.name == component.name) = some index := by
  induction components generalizing index with
  | nil => cases here
  | cons head rest ih =>
    obtain ⟨fresh, others⟩ : head.name ∉ rest.map (·.name) ∧ (rest.map (·.name)).Nodup :=
      List.nodup_cons.mp distinct
    cases index with
    | zero =>
      cases here
      simp [List.findIdx?_cons]
    | succ index =>
      have later : rest[index]? = some component := here
      have differs : head.name ≠ component.name := by
        intro same
        have again : component.name ∈ rest.map (·.name) :=
          List.mem_map_of_mem (List.mem_of_getElem? later)
        exact fresh (same ▸ again)
      simp [List.findIdx?_cons, differs, ih others later]

theorem locateIn_of_nodup (distinct : (group.components.map (·.name)).Nodup)
    (here : group.components[index]? = some component) :
    locateIn group component.name = some ⟨group, index, component⟩ := by
  simp [locateIn, findIdx?_of_nodup distinct here, here]

/-- In a group no place is found exactly when no component of it has the name. -/
theorem locateIn_eq_none_iff :
    locateIn group name = none ↔ name ∉ group.components.map (·.name) := by
  rw [← Option.map_eq_none_iff (f := Position.component), map_component_locateIn,
    List.find?_eq_none]
  simp

/-- No place is found exactly when no component has the name. -/
theorem locate_eq_none_iff :
    environment.locate name = none ↔ name ∉ environment.components.map (·.name) := by
  rw [← componentNamed_eq_none_iff, componentNamed, Option.map_eq_none_iff]

/-- **A look-up leads back to the place of a component**, if all names are different. -/
theorem locate_of_nodup (distinct : (environment.components.map (·.name)).Nodup)
    (member : group ∈ environment.groups) (here : group.components[index]? = some component) :
    environment.locate component.name = some ⟨group, index, component⟩ := by
  obtain ⟨front, behind, split⟩ := List.append_of_mem member
  rw [components, split, List.flatMap_append, List.flatMap_cons, List.map_append,
    List.map_append] at distinct
  have own : (group.components.map (·.name)).Nodup :=
    (List.nodup_append.mp (List.nodup_append.mp distinct).2.1).1
  have named : component.name ∈ group.components.map (·.name) :=
    List.mem_map_of_mem (List.mem_of_getElem? here)
  -- The name stands in this group, so no group before it has the name.
  have nowhere : front.findSome? (fun before => locateIn before component.name) = none := by
    rw [List.findSome?_eq_none_iff]
    intro before earlier
    rw [locateIn_eq_none_iff]
    intro again
    obtain ⟨other, among, same⟩ := List.mem_map.mp again
    have inFront : component.name ∈ (front.flatMap (·.components)).map (·.name) := by
      rw [← same]
      exact List.mem_map_of_mem (List.mem_flatMap.mpr ⟨before, earlier, among⟩)
    exact List.disjoint_of_nodup_append distinct inFront (List.mem_append_left _ named)
  rw [locate, split, List.findSome?_append, nowhere, Option.none_or, List.findSome?_cons,
    locateIn_of_nodup own here]

end Environment

/-! ## Environments that can be had -/

/-- An environment has the name that it is asked for by. -/
theorem EnvironmentIndex.name_of_environment_eq_ok {index : EnvironmentIndex} {name : String}
    {environment : Environment} (loads : index.environment name = .ok environment) :
    environment.name = name := by
  obtain ⟨passed, last, way⟩ := exists_way index [] name
  have gives := way.gives_iff.mpr loads
  cases gives with
  | whole fresh held read bottom distinct => rfl

namespace EnvironmentCatalog

variable {catalog : EnvironmentCatalog} {tree : FileTree} {name : String}
  {environment : Environment}

/-- An environment of a catalog is made by the index that the catalog knows. -/
theorem exists_index_of_environment_eq_ok
    (loads : (catalog.environments tree).environment name = .ok environment) :
    ∃ index, catalog.current tree = .ok index ∧ index.environment name = .ok environment := by
  rw [environments, Environments.environment_ofIndex] at loads
  cases current : catalog.current tree with
  | error error =>
    rw [current] at loads
    cases loads
  | ok index =>
    rw [current] at loads
    exact ⟨index, rfl, loads⟩

/-- The components of an environment of a catalog have different names. -/
theorem nodup_of_environment_eq_ok
    (loads : (catalog.environments tree).environment name = .ok environment) :
    (environment.components.map (·.name)).Nodup := by
  obtain ⟨index, _, made⟩ := exists_index_of_environment_eq_ok loads
  exact EnvironmentIndex.nodup_of_environment_eq_ok made

theorem name_of_environment_eq_ok
    (loads : (catalog.environments tree).environment name = .ok environment) :
    environment.name = name := by
  obtain ⟨index, _, made⟩ := exists_index_of_environment_eq_ok loads
  exact EnvironmentIndex.name_of_environment_eq_ok made

end EnvironmentCatalog

/-! ## What is told of a place -/

namespace Informant

variable {environments : Environments} {environment : Environment} {component : Component}
  {key name : String} {position : Position}

/-- The keys with answers that no property of a group or an environment gives. -/
def placeKeys : List String :=
  [orderKey, environmentKey, groupKey, ipKey, portOffsetKey]

/-- The answer that tells `value` for a key of a component in the environment `name`. -/
def told (component : Component) (name key value : String) : Property :=
  ⟨key, value, name, false, .special component s!"environment {name}"⟩

/-- Any other key has the value of a property: that of the group, or else of the environment. -/
theorem descriptorValue?_of_plain (plain : key ∉ placeKeys) :
    descriptorValue? environment position key =
      (position.group.properties.get? key).or (environment.properties.get? key) := by
  simp only [placeKeys, List.mem_cons, List.not_mem_nil, or_false, not_or] at plain
  obtain ⟨order, own, group, ip, offset⟩ := plain
  simp only [descriptorValue?, beq_iff_eq, order, own, group, ip, offset, if_false]

theorem describe_of_located (loads : environments.environment name = .ok environment)
    (named : environment.name = name)
    (located : environment.locate component.name = some position) (key : String) :
    describe environments ⟨component, key, name⟩ =
      .ok ((descriptorValue? environment position key).map (told component name key)) := by
  simp only [describe, loads, located]
  rw [named]
  rfl

theorem describe_of_not_located (loads : environments.environment name = .ok environment)
    (nowhere : environment.locate component.name = none) (key : String) :
    describe environments ⟨component, key, name⟩ = .ok none := by
  simp only [describe, loads, nowhere]

end Informant

namespace EnvironmentCatalog

open Informant

variable {catalog : EnvironmentCatalog} {tree : FileTree} {name : String}
  {environment : Environment}

/-- **An environment that can be had tells each of its components by its name.**

* No two components of all its groups have the same name.
* The component at an index of a group is found there, and nowhere else: a look-up gives the group,
  the index and the component, a reference by its name means it, and its order, the name of its
  group and the name of the environment are told accordingly. For any other key that is not fixed
  the property of the group is told, and only without one the property of the environment.
* Of a name that no component has nothing is told. -/
theorem places_spec (loads : (catalog.environments tree).environment name = .ok environment) :
    let environments := catalog.environments tree
    (environment.components.map (·.name)).Nodup ∧
    (∀ group ∈ environment.groups, ∀ index component,
      group.components[index]? = some component →
      environment.locate component.name = some ⟨group, index, component⟩ ∧
      environments.component component.name name = .ok component ∧
      describe environments ⟨component, orderKey, name⟩ =
        .ok (some (told component name orderKey (toString index))) ∧
      describe environments ⟨component, groupKey, name⟩ =
        .ok (some (told component name groupKey group.name)) ∧
      describe environments ⟨component, environmentKey, name⟩ =
        .ok (some (told component name environmentKey name)) ∧
      ∀ key ∉ placeKeys, describe environments ⟨component, key, name⟩ =
        .ok (((group.properties.get? key).or (environment.properties.get? key)).map
          (told component name key))) ∧
    ∀ component : Component, component.name ∉ environment.components.map (·.name) →
      ∀ key, describe environments ⟨component, key, name⟩ = .ok none := by
  intro environments
  have distinct := nodup_of_environment_eq_ok loads
  have named := name_of_environment_eq_ok loads
  refine ⟨distinct, ?_, ?_⟩
  · intro group member index component here
    have located := Environment.locate_of_nodup distinct member here
    have tells := describe_of_located loads named located
    refine ⟨located, ?_, tells orderKey, tells groupKey, ?_, ?_⟩
    · rw [Environments.component, loads]
      simp [Environment.componentNamed, located]
    · rw [tells environmentKey]
      show Except.ok (some (told component name environmentKey environment.name)) = _
      rw [named]
    · intro key plain
      rw [tells key, descriptorValue?_of_plain plain]
  · intro component absent key
    exact describe_of_not_located loads (Environment.locate_eq_none_iff.mpr absent) key

/-! ## Two groups of one name

In the following catalog the environment `dev` has two groups that are called `data`. -/

/-- A definition with two groups of one name. -/
def twinDefinition : Environment.Definition where
  groups := [
    { name := "data", components := ["cache", "replica:postgres"] },
    { name := "data", components := ["main", "spare:postgres"] }]

/-- A catalog in memory with this definition. -/
def twinCatalog : EnvironmentCatalog :=
  .ofIndex ⟨Dictionary.empty.insert "dev" ⟨"<memory:dev>", .ok twinDefinition⟩⟩

theorem names_twin :
    (twinDefinition.toEnvironment "dev").components.map (·.name) =
      ["cache", "replica", "main", "spare"] := by
  cbv

theorem loads_twin :
    (twinCatalog.environments .empty).environment "dev" =
      .ok (twinDefinition.toEnvironment "dev") := by
  refine (Environments.environment_ofIndex _ _).trans ?_
  refine (EnvironmentIndex.Way.stops List.not_mem_nil ?_).gives_iff.mp
    (.whole List.not_mem_nil rfl rfl rfl ?_)
  · rintro definition ⟨⟩
    rfl
  · show ((twinDefinition.toEnvironment "dev").components.map (·.name)).Nodup
    rw [names_twin]
    decide

/-- The last component of the second group is found there. -/
theorem locate_twin :
    (twinCatalog.environments .empty).environment "dev" =
        .ok (twinDefinition.toEnvironment "dev") ∧
      (((twinDefinition.toEnvironment "dev").locate "spare").map fun position =>
        (position.group.name, position.index, position.component)) =
          some ("data", 1, ⟨"spare", "postgres"⟩) := by
  refine ⟨loads_twin, ?_⟩
  obtain ⟨_, places, _⟩ := places_spec loads_twin
  have member : Group.mk "data" none [⟨"main", "main"⟩, ⟨"spare", "postgres"⟩] .empty ∈
      (twinDefinition.toEnvironment "dev").groups := by
    refine List.mem_cons_of_mem _ (List.mem_singleton.mpr ?_)
    cbv
  rw [(places _ member 1 ⟨"spare", "postgres"⟩ rfl).1]
  rfl

end EnvironmentCatalog

end DeployConfig
