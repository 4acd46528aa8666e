import DeployConfig.Project
import DeployConfig.Proofs.Memo

/-!
# Requests to a project

The sources of a project keep what they gave, so a project is another one after each request. While
the files stay as they are this does not show. Whatever a request has consulted, the sources give
afterwards what they gave before (`Stores.sources_consult`): the catalog and the directories keep
what they have read, and the supply keeps the answer that it would read again
(`Supply.properties_giving`). By induction on what a request consults, and then on the requests, a
project has the same fleet after any requests as at first. This is the main result, `fleet_after`.

The fleet of a project in memory is told by its index and its declarations (`fleet_inMemory`).
-/

set_option autoImplicit false

namespace DeployConfig

/-! ## What a supply gives -/

/-- Components are compared by name and type. -/
instance Component.lawfulBEq : LawfulBEq Component where
  rfl := by
    intro component
    show (component.name == component.name && component.type == component.type) = true
    simp
  eq_of_beq := by
    rintro ⟨name, type⟩ ⟨otherName, otherType⟩ same
    have both : (name == otherName && type == otherType) = true := same
    simpa using both

/-- Requests for properties are compared by all that they ask for. -/
instance SupplyKey.lawfulBEq : LawfulBEq SupplyKey where
  rfl := by
    intro key
    show (key.component == key.component &&
      (key.environment == key.environment && key.configType == key.configType)) = true
    simp
  eq_of_beq := by
    rintro ⟨component, environment, configType⟩ ⟨component', environment', configType'⟩ same
    have all : (component == component' &&
      (environment == environment' && configType == configType')) = true := same
    simpa using all

namespace Supply

/-- A supply gives what it has given, or else what it reads. -/
theorem properties_eq_getD (supply : Supply) (files : LayerFiles) (key : SupplyKey) :
    supply.properties files key = (supply.kept.find? key).getD (supply.load files key) :=
  Memo.outcome_request _ _ _

/-- A supply that has given what it gives goes on to give the same. -/
theorem properties_giving (supply : Supply) (files : LayerFiles) (key other : SupplyKey) :
    (supply.giving key (supply.properties files key)).properties files other =
      supply.properties files other := by
  have reads : (supply.giving key (supply.properties files key)).load files other =
      supply.load files other := rfl
  rw [properties_eq_getD, reads, giving, Memo.find?_request, Memo.outcome_request]
  by_cases same : other = key
  · subst same
    rw [beq_self_eq_true, if_pos rfl, Option.getD_some, properties_eq_getD]
    cases supply.kept.find? other <;> rfl
  · have differs : (other == key) = false := by simpa using same
    rw [differs, if_neg Bool.false_ne_true]
    exact (supply.properties_eq_getD files other).symm

end Supply

/-! ## What the sources give -/

/-- Sources that give the same of every kind are the same. -/
theorem Sources.eq_of_fields {first second : Sources}
    (environments : first.environments = second.environments)
    (directory : first.directory = second.directory)
    (properties : first.properties = second.properties) : first = second := by
  cases first
  cases second
  cases environments
  cases directory
  cases properties
  rfl

/-- The directories that have been found are not looked for again. -/
theorem ComponentDirectories.used_used (directories : ComponentDirectories) (tree : FileTree) :
    (directories.used tree).used tree = directories.used tree := rfl

namespace Stores

variable {first second stores : Stores} {tree : FileTree}

/-- The sources of stores are decided by what the catalog, the directories and the supply give. -/
theorem sources_congr (catalog : first.catalog.current tree = second.catalog.current tree)
    (directories : first.directories.used tree = second.directories.used tree)
    (supply : ∀ key,
      first.supply.properties (.of tree (second.directories.used tree)) key =
        second.supply.properties (.of tree (second.directories.used tree)) key) :
    first.sources tree = second.sources tree := by
  apply Sources.eq_of_fields
  · simp only [sources, EnvironmentCatalog.environments, catalog]
  · simp only [sources, directories]
  · funext key
    rw [properties_sources, properties_sources, directories, supply]

/-- **What is consulted gives afterwards what it gave before.** -/
theorem sources_consult (stores : Stores) (tree : FileTree) (consulted : Consulted) :
    (stores.consult tree (stores.sources tree) consulted).sources tree = stores.sources tree := by
  cases consulted with
  | environments => exact sources_congr (by simp [consult]) rfl (fun _ => rfl)
  | directories => exact sources_congr rfl rfl (fun _ => rfl)
  | properties key =>
    refine sources_congr rfl ?_ ?_
    · simp only [consult]
      split
      · exact stores.directories.used_used tree
      · rfl
    · intro other
      simp only [consult, properties_sources]
      exact stores.supply.properties_giving _ key other

/-- Whatever has been consulted, the sources give what they gave before. -/
theorem sources_settled (stores : Stores) (tree : FileTree) (consulted : List Consulted) :
    (stores.settled tree consulted).sources tree = stores.sources tree := by
  -- All of a request is consulted in the sources of its start, which stay those of the stores.
  have onward : ∀ sofar : Stores, sofar.sources tree = stores.sources tree →
      (consulted.foldl (consult tree (stores.sources tree)) sofar).sources tree =
        stores.sources tree := by
    induction consulted with
    | nil =>
      intro sofar same
      exact same
    | cons first rest ih =>
      intro sofar same
      apply ih
      rw [← same]
      exact sofar.sources_consult tree first
  exact onward stores rfl

end Stores

/-! ## Requests -/

namespace Project

/-- The fleet of a project does not change with what is consulted. -/
theorem fleet_settled (project : Project) (tree : FileTree) (consulted : List Consulted) :
    (project.settled tree consulted).fleet tree = project.fleet tree := by
  have same := project.stores.sources_settled tree consulted
  simp only [fleet, settled, same]
  rfl

/-- What a project is asked for, each with its step budget. -/
inductive Request where
  /-- An environment, the names of all of them, or the component that a reference means in one. -/
  | environments
  /-- The resolved form of a value. -/
  | value (steps : Nat) (written reference environment configType : String)
  /-- The configuration of a component. -/
  | configuration (steps : Nat) (root : Placed)
  /-- The configurations of components of an environment. -/
  | configurations (steps : Nat) (environment : String) (only : List String)

/-- What a request consults in a fleet. -/
def Request.consults (fleet : Fleet) : Request → List Consulted
  | .environments => [.environments]
  | .value steps written reference environment configType =>
    (fleet.resolveValue steps written reference environment configType).log
  | .configuration steps root => (fleet.configuration steps root).log
  | .configurations steps environment only => (fleet.configurations steps environment only).log

/-- A project after a request. -/
def afterOne (tree : FileTree) (project : Project) (request : Request) : Project :=
  project.settled tree (request.consults (project.fleet tree))

/-- A project after several requests, one after the other. -/
def after (project : Project) (tree : FileTree) (requests : List Request) : Project :=
  requests.foldl (afterOne tree) project

/-- **A project has the same fleet after any requests as at first**, while the files do not
change. -/
theorem fleet_after (project : Project) (tree : FileTree) (requests : List Request) :
    (project.after tree requests).fleet tree = project.fleet tree := by
  unfold after
  induction requests generalizing project with
  | nil => rfl
  | cons request rest ih =>
    rw [List.foldl_cons, ih]
    exact project.fleet_settled tree _

/-! ## Projects in memory -/

/-- A project in memory, with one config type. -/
def inMemory (index : EnvironmentIndex) (declarations : Declarations) : Project where
  root := ⟨"/cfg"⟩
  destination := ⟨"/out"⟩
  settings := { configTypes := [⟨"app", none⟩] }
  host := ⟨⟨[]⟩, ⟨"/"⟩, "x86_64"⟩
  stores := {
    catalog := .ofIndex index
    directories := .below ⟨"/cfg/components"⟩
    supply := .of (.declared declarations) }

/-- The fleet of such a project, whatever the host tells and wherever files are. -/
def memoryFleet (system exported : Dictionary String) (directory : String → Path)
    (index : EnvironmentIndex) (declarations : Declarations) : Fleet where
  configTypes := ["app"]
  informants := .ofList [("app",
    [.reserved Host.systemName system false, .reserved Host.variablesName exported false,
      .identity ⟨"/cfg"⟩ ⟨"/out"⟩, .descriptor, .properties "app"])]
  protectedKeys := fixedKeys
  sources :=
    { environments := .ofIndex (.ok index)
      directory
      properties := fun key =>
        declarations.properties key.component key.environment key.configType }

theorem fleet_inMemory (index : EnvironmentIndex) (declarations : Declarations) :
    ∃ system exported directory,
      (inMemory index declarations).fleet .empty =
        memoryFleet system exported directory index declarations := by
  have sources : ((inMemory index declarations).fleet .empty).sources =
      ⟨.ofIndex (.ok index), ((inMemory index declarations).fleet .empty).sources.directory,
        fun key => declarations.properties key.component key.environment key.configType⟩ :=
    Sources.eq_of_fields rfl rfl (funext fun key => Stores.properties_sources _ _ key)
  exact ⟨_, _, _, congrArg (Fleet.mk _ _ _) sources⟩

end Project

end DeployConfig
