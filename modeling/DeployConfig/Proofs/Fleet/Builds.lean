import DeployConfig.Proofs.Environment.Places
import DeployConfig.Proofs.Fleet.Sessions
import Mathlib

/-!
# Configurations of an environment

The configurations of the components of an environment are made one by one, and each end, whether
it is a configuration or an error, is kept beside its component. So what is made is a list of
components in the order of the environment together with the end that each of them has by itself
(`outcome_attemptEach_eq_done_iff`), and asking for some of the components gives a part of what all
of them give. Components are told by their names, which are different in an environment that can be
had, so each of them is there once.

With what is known of requests it follows that none of this hangs on what a project was asked for
before. The main result is `configurations_spec`.
-/

set_option autoImplicit false

namespace DeployConfig

/-! ## Keeping the ends of computations -/

namespace Traced

variable {event ε δ α β : Type}

/-- Runs a computation for each item, and keeps its end beside the item. -/
def attemptEach (run : α → Traced event ε β) (items : List α) :
    Traced event δ (List (α × Except ε β)) :=
  items.mapM fun item => do
    let result ← (run item).attempt
    return (item, result)

theorem outcome_attempt_eq_done_iff {run : Traced event ε α} {result : Except ε α} :
    (run.attempt : Traced event δ _).outcome = .done result ↔
      run.outcome = .ofExcept result := by
  obtain ⟨log, outcome⟩ := run
  cases outcome <;> cases result <;> simp [attempt, Outcome.ofExcept]

theorem outcome_attempt_eq_unfinished_iff {run : Traced event ε α} :
    (run.attempt : Traced event δ _).outcome = .unfinished ↔ run.outcome = .unfinished := by
  obtain ⟨log, outcome⟩ := run
  cases outcome <;> simp [attempt]

theorem unfinished_or_attempt_eq_done (run : Traced event ε α) :
    run.outcome = .unfinished ∨
      ∃ result, (run.attempt : Traced event δ _).outcome = .done result := by
  obtain ⟨log, outcome⟩ := run
  cases outcome <;> simp [attempt]

variable {run : α → Traced event ε β}

theorem attemptEach_cons (item : α) (rest : List α) :
    (attemptEach run (item :: rest) : Traced event δ _) =
      (run item).attempt.bind fun result =>
        (attemptEach run rest).bind fun ends => pure ((item, result) :: ends) := by
  rw [attemptEach, List.mapM_cons]
  exact bind_assoc _ _ _

/-- The ends that are kept are those that the computations have by themselves, in the order of the
items. -/
theorem outcome_attemptEach_eq_done_iff {items : List α} {ends : List (α × Except ε β)} :
    (attemptEach run items : Traced event δ _).outcome = .done ends ↔
      ends.map (·.1) = items ∧ ∀ pair ∈ ends, (run pair.1).outcome = .ofExcept pair.2 := by
  induction items generalizing ends with
  | nil =>
    have nothing : (attemptEach run [] : Traced event δ _).outcome = .done [] := rfl
    rw [nothing]
    constructor
    · rintro ⟨⟩
      exact ⟨rfl, List.forall_mem_nil _⟩
    · rintro ⟨none, _⟩
      rw [List.map_eq_nil_iff.mp none]
  | cons item rest ih =>
    rw [attemptEach_cons, outcome_bind_eq_done_iff]
    constructor
    · rintro ⟨result, attempted, gone⟩
      obtain ⟨others, behind, kept⟩ := outcome_bind_eq_done_iff.mp gone
      cases kept
      obtain ⟨items, alone⟩ := ih.mp behind
      refine ⟨by rw [List.map_cons, items], List.forall_mem_cons.mpr ⟨?_, alone⟩⟩
      exact outcome_attempt_eq_done_iff.mp attempted
    · rintro ⟨items, alone⟩
      cases ends with
      | nil => cases items
      | cons pair others =>
        obtain ⟨first, result⟩ := pair
        obtain ⟨rfl, behind⟩ := List.cons.inj items
        obtain ⟨here, later⟩ := List.forall_mem_cons.mp alone
        refine ⟨result, outcome_attempt_eq_done_iff.mpr here, ?_⟩
        exact outcome_bind_eq_done_iff.mpr ⟨others, ih.mpr ⟨behind, later⟩, rfl⟩

/-- Keeping the ends of computations does not come to an end when one of them does not. -/
theorem outcome_attemptEach_eq_unfinished_iff {items : List α} :
    (attemptEach run items : Traced event δ _).outcome = .unfinished ↔
      ∃ item ∈ items, (run item).outcome = .unfinished := by
  induction items with
  | nil =>
    have nothing : (attemptEach run [] : Traced event δ _).outcome = .done [] := rfl
    simp [nothing]
  | cons item rest ih =>
    rw [attemptEach_cons, outcome_bind_eq_unfinished_iff, outcome_attempt_eq_unfinished_iff,
      List.exists_mem_cons_iff]
    constructor
    · rintro (here | ⟨result, attempted, gone⟩)
      · exact .inl here
      · rcases outcome_bind_eq_unfinished_iff.mp gone with later | ⟨others, _, kept⟩
        · exact .inr (ih.mp later)
        · cases kept
    · rintro (here | later)
      · exact .inl here
      · rcases unfinished_or_attempt_eq_done (δ := δ) (run item) with here | ⟨result, attempted⟩
        · exact .inl here
        · refine .inr ⟨result, attempted, ?_⟩
          exact outcome_bind_eq_unfinished_iff.mpr (.inl (ih.mpr later))

end Traced

namespace Fleet

variable {fleet : Fleet} {steps : Nat} {name : String} {only : List String}
  {environment : Environment}

/-- The names that a look-up does not know are those that no component has. -/
theorem filter_isNone_componentNamed (environment : Environment) (only : List String) :
    only.filter (fun wanted => (environment.componentNamed wanted).isNone) =
      only.filter (· ∉ environment.components.map (·.name)) := by
  apply List.filter_congr
  intro wanted _
  rw [Bool.eq_iff_iff, Option.isNone_iff_eq_none, Environment.componentNamed_eq_none_iff,
    decide_eq_true_iff]

/-- Names that no component has are reported; otherwise the ends of the chosen components are
kept. -/
theorem outcome_configurations (fleet : Fleet) (steps : Nat) (only : List String)
    (loads : fleet.sources.environments.environment name = .ok environment) :
    (fleet.configurations steps name only).outcome =
      if only.filter (· ∉ environment.components.map (·.name)) = [] then
        (Traced.attemptEach (fun component => fleet.configuration steps ⟨component, name⟩)
          (environment.components.filter fun component =>
            only.isEmpty || only.contains component.name) : Run _).outcome
      else
        .failed (.unknownComponents name
          (only.filter (· ∉ environment.components.map (·.name)))) := by
  rw [← filter_isNone_componentNamed, configurations, loads]
  refine (Traced.outcome_bind_of_done rfl).trans ?_
  cases only.filter fun wanted => (environment.componentNamed wanted).isNone <;> rfl

/-- What is made of some components is a part of what is made of all. -/
theorem outcome_configurations_of_full
    {full : List (Component × Except ConfigurationError Configuration)}
    (loads : fleet.sources.environments.environment name = .ok environment)
    (known : only.filter (· ∉ environment.components.map (·.name)) = [])
    (all : (fleet.configurations steps name []).outcome = .done full) :
    (fleet.configurations steps name only).outcome =
      .done (full.filter fun pair => only.isEmpty || only.contains pair.1.name) := by
  rw [outcome_configurations fleet steps [] loads, List.filter_nil, if_pos rfl,
    Traced.outcome_attemptEach_eq_done_iff] at all
  obtain ⟨everything, alone⟩ := all
  rw [outcome_configurations fleet steps only loads, if_pos known,
    Traced.outcome_attemptEach_eq_done_iff]
  constructor
  · have whole : full.map (·.1) = environment.components := by simpa using everything
    rw [← whole, List.filter_map]
    rfl
  · intro pair member
    exact alone pair (List.mem_of_mem_filter member)

end Fleet

/-! ## The configurations of an environment -/

namespace Project

variable {project : Project} {tree : FileTree} {name : String} {environment : Environment}

/-- **Asking for some components gives a part of what all components give, whatever was asked for
before.** A project is asked for the configurations of an environment that it has, after any other
requests.

* Component names are different, so each component is there once.
* A component has the configuration, or the error, that it has by itself and at first.
* If names are given that no component has, then exactly these are reported, in order and as often
  as they are given.
* Otherwise the configurations are those of the named components, or of all when no names are given,
  in the order of the environment. They come to no end only if one of these does not.
* They are a part of the configurations of all components, if those come to an end. -/
theorem configurations_spec (requests : List Request) (steps : Nat) (only : List String)
    (loads : (project.fleet tree).sources.environments.environment name = .ok environment) :
    let fleet := project.fleet tree
    let later := (project.after tree requests).fleet tree
    let unknown := only.filter (· ∉ environment.components.map (·.name))
    let chosen := environment.components.filter fun component =>
      only.isEmpty || only.contains component.name
    (environment.components.map (·.name)).Nodup ∧
    (∀ root, (later.configuration steps root).outcome = (fleet.configuration steps root).outcome) ∧
    (unknown ≠ [] → (later.configurations steps name only).outcome =
      .failed (.unknownComponents name unknown)) ∧
    (unknown = [] →
      (∀ built, (later.configurations steps name only).outcome = .done built ↔
        built.map (·.1) = chosen ∧
        ∀ pair ∈ built,
          (fleet.configuration steps ⟨pair.1, name⟩).outcome = .ofExcept pair.2) ∧
      ((later.configurations steps name only).outcome = .unfinished ↔
        ∃ component ∈ chosen,
          (fleet.configuration steps ⟨component, name⟩).outcome = .unfinished) ∧
      ∀ full, (fleet.configurations steps name []).outcome = .done full →
        (later.configurations steps name only).outcome =
          .done (full.filter fun pair => only.isEmpty || only.contains pair.1.name)) := by
  intro fleet later unknown chosen
  have same : later = fleet := project.fleet_after tree requests
  rw [same]
  refine ⟨EnvironmentCatalog.nodup_of_environment_eq_ok loads, fun _ => rfl, ?_, ?_⟩
  · intro some
    rw [Fleet.outcome_configurations fleet steps only loads, if_neg some]
  · intro none
    refine ⟨?_, ?_, ?_⟩
    · intro built
      rw [Fleet.outcome_configurations fleet steps only loads, if_pos none]
      exact Traced.outcome_attemptEach_eq_done_iff
    · rw [Fleet.outcome_configurations fleet steps only loads, if_pos none]
      exact Traced.outcome_attemptEach_eq_unfinished_iff
    · intro full all
      exact Fleet.outcome_configurations_of_full loads none all

/-! ## An environment with two components

In the following project the environment `dev` has the components `api` and `worker`. The address
of the worker refers to the port of `api`, and `api` itself has a property that nobody answers. -/

/-- A definition with two components. -/
def pairDefinition : Environment.Definition where
  groups := [{ name := "g", components := ["api:web", "worker"] }]

/-- The index with this definition. -/
def pairIndex : EnvironmentIndex :=
  ⟨Dictionary.empty.insert "dev" ⟨"<memory:dev>", .ok pairDefinition⟩⟩

/-- The declarations of both component types. -/
def pairDeclarations : Declarations where
  batches := [
    ⟨"app", "web", none, ⟨none, [], [⟨"port", "80", false⟩,
      ⟨"user", "$\x7bthis@owner\x7d", false⟩]⟩⟩,
    ⟨"app", "worker", none, ⟨none, [], [⟨"url", "http:$\x7bapi@port\x7d", false⟩]⟩⟩]

/-- A project in memory with this index and these declarations. -/
def pairProject : Project :=
  inMemory pairIndex pairDeclarations

/-- The component of the first type. -/
def pairApi : Placed := ⟨⟨"api", "web"⟩, "dev"⟩

/-- The component of the second type. -/
def pairWorker : Placed := ⟨.ofType "worker", "dev"⟩

/-- The property that nobody answers. -/
def pairUser : Property :=
  ⟨"user", "$\x7bthis@owner\x7d", "dev", false, .special pairApi.component "memory"⟩

/-- What comes of the worker. -/
def pairEnd : Component × Except ConfigurationError Configuration :=
  (pairWorker.component, .ok ⟨pairWorker.component, pairWorker.environment,
    Dictionary.empty.insert "app" (Dictionary.empty.insert "url" "http:80")⟩)

/-- What comes of all components of the environment. -/
def pairEnds : List (Component × Except ConfigurationError Configuration) :=
  [(pairApi.component, .error (.property pairApi pairUser.key
    (.unresolved ⟨none, "api", "dev", false, "owner", none⟩ pairUser pairApi))), pairEnd]

theorem names_pair :
    (pairDefinition.toEnvironment "dev").components.map (·.name) = ["api", "worker"] := by
  decide +kernel

theorem loads_pair :
    (pairProject.fleet .empty).sources.environments.environment "dev" =
      .ok (pairDefinition.toEnvironment "dev") := by
  refine (Environments.environment_ofIndex _ _).trans ?_
  refine (EnvironmentIndex.Way.stops List.not_mem_nil ?_).gives_iff.mp
    (.whole List.not_mem_nil rfl rfl rfl ?_)
  · rintro definition ⟨⟩
    rfl
  · show ((pairDefinition.toEnvironment "dev").components.map (·.name)).Nodup
    rw [names_pair]
    decide

theorem ends_pair :
    ((pairProject.fleet .empty).configurations 8 "dev" []).outcome = .done pairEnds := by
  obtain ⟨system, exported, directory, same⟩ := fleet_inMemory pairIndex pairDeclarations
  rw [pairProject, same]
  cbv

/-- Names that no component has are reported, also after other requests. The configuration of the
worker alone is the one it has among those of all components, and nothing shows there of the error
of the other one. -/
theorem configurations_pair :
    (pairProject.fleet .empty).sources.environments.environment "dev" =
        .ok (pairDefinition.toEnvironment "dev") ∧
      (((pairProject.after .empty [.configurations 8 "dev" [], .environments]).fleet
        .empty).configurations 8 "dev" ["db", "api", "db"]).outcome =
          .failed (.unknownComponents "dev" ["db", "db"]) ∧
      ((pairProject.fleet .empty).configurations 8 "dev" []).outcome = .done pairEnds ∧
      (((pairProject.after .empty [.configurations 8 "dev" [], .environments]).fleet
        .empty).configurations 8 "dev" ["worker"]).outcome = .done [pairEnd] := by
  refine ⟨loads_pair, ?_, ends_pair, ?_⟩
  · obtain ⟨_, _, reports, _⟩ := configurations_spec
      [.configurations 8 "dev" [], .environments] 8 ["db", "api", "db"] loads_pair
    have unknown : ["db", "api", "db"].filter
        (· ∉ (pairDefinition.toEnvironment "dev").components.map (·.name)) = ["db", "db"] := by
      rw [names_pair]
      decide
    rw [unknown] at reports
    exact reports (by simp)
  · obtain ⟨_, _, _, chooses⟩ := configurations_spec
      [.configurations 8 "dev" [], .environments] 8 ["worker"] loads_pair
    have known : ["worker"].filter
        (· ∉ (pairDefinition.toEnvironment "dev").components.map (·.name)) = [] := by
      rw [names_pair]
      decide
    obtain ⟨_, _, partOf⟩ := chooses known
    exact partOf pairEnds ends_pair

end Project

end DeployConfig
