import DeployConfig.Informant
import DeployConfig.Proofs.Environment.Inclusions

/-!
# Environments that count as missing

In an environment that does not exist a reference means a type, and nothing is known of the place of
a component. Whether an environment counts as missing is decided by the way of its inclusions: it
does when the way leads out of the index, to a name that no definition has
(`environment_eq_notFound_iff`). That may be the name of the environment, or the name of another one
that it includes over any number of definitions. Every other failure of an environment is passed on
by everything that asks for it.

This needs that no definition in an index stands for a missing environment. It holds for the indexes
that catalogs have (`Made.indexes_current`), because a definition in memory is there, and a file
either holds a definition or is reported under its own path. The main result is `component_spec`.
-/

set_option autoImplicit false

namespace DeployConfig

/-! ## The indexes of catalogs -/

/-- An entry holds a definition or tells why it is broken; it never stands for a missing
environment. -/
def Registered.Definite (entry : Registered) : Prop :=
  ∀ missing available, entry.definition ≠ .error (.notFound missing available)

namespace EnvironmentIndex

/-- All entries of an index are definite. -/
def Definite (index : EnvironmentIndex) : Prop :=
  ∀ name entry, index.registered.get? name = some entry → entry.Definite

/-- What comes of registering: an index that is definite, unless two definitions share a name. -/
inductive Indexes : Except EnvironmentError EnvironmentIndex → Prop where
  | ok {index : EnvironmentIndex} (definite : index.Definite) : Indexes (.ok index)
  | twice (name first second : String) : Indexes (.error (.duplicateDefinition name first second))

theorem definite_empty : empty.Definite := by
  intro name entry held
  cases held

/-- One more name for a definite entry keeps an index definite. -/
theorem Definite.addName {index : EnvironmentIndex} {entry : Registered}
    (definite : index.Definite) (here : entry.Definite) (name : String) :
    Indexes (addName entry index name) := by
  unfold EnvironmentIndex.addName
  split
  · exact .twice _ _ _
  · refine .ok ?_
    intro other found held
    rw [Dictionary.get?_insert] at held
    split at held
    · cases held
      exact here
    · exact definite other found held

/-- If each step leads from a definite index to a definite one, then several steps do. -/
theorem Definite.foldlM {α : Type} {index : EnvironmentIndex}
    {step : EnvironmentIndex → α → Except EnvironmentError EnvironmentIndex}
    (definite : index.Definite)
    (keeps : ∀ before : EnvironmentIndex, before.Definite → ∀ item, Indexes (step before item))
    (items : List α) : Indexes (items.foldlM step index) := by
  induction items generalizing index with
  | nil => exact .ok definite
  | cons item rest ih =>
    rw [List.foldlM_cons]
    have first : Indexes (step index item) := keeps index definite item
    generalize step index item = made at first
    cases first with
    | ok definite => exact ih definite
    | twice name first second => exact .twice name first second

theorem Definite.register {index : EnvironmentIndex} {entry : Registered}
    (definite : index.Definite) (here : entry.Definite) (name : String) :
    Indexes (index.register name entry) :=
  definite.foldlM (fun _ before other => before.addName here other) _

end EnvironmentIndex

namespace EnvironmentCatalog

open EnvironmentIndex

/-- What a file holds is definite: a file that cannot be read is reported under its path. -/
theorem definite_readFile (tree : FileTree) (path : Path) : (readFile tree path).Definite := by
  intro missing available
  unfold readFile
  dsimp only
  split
  · simp
  · split <;> simp

theorem indexes_readDirectory (tree : FileTree) (directory : Path) :
    Indexes (readDirectory tree directory) := by
  refine definite_empty.foldlM ?_ _
  intro before definite path
  split
  · exact definite.register (definite_readFile tree path) _
  · exact .ok definite

/-- The indexes with definitions in memory. -/
inductive Declared : EnvironmentIndex → Prop where
  | empty : Declared .empty
  | register {index next : EnvironmentIndex} {name origin : String}
      {definition : Environment.Definition} (before : Declared index)
      (registered : index.register name ⟨origin, .ok definition⟩ = .ok next) : Declared next

theorem Declared.definite {index : EnvironmentIndex} (declared : Declared index) :
    index.Definite := by
  induction declared with
  | empty => exact definite_empty
  | @register index next name origin definition before registered ih =>
    have made : Indexes (index.register name ⟨origin, .ok definition⟩) :=
      ih.register (by intro missing available; simp) name
    rw [registered] at made
    cases made with
    | ok definite => exact definite

/-- The catalogs that there are: with definitions in memory or in the files of a directory, and
asked for environments any number of times. -/
inductive Made : EnvironmentCatalog → Prop where
  | memory {index : EnvironmentIndex} (declared : Declared index) : Made (.ofIndex index)
  | directory (path : Path) : Made (.ofDirectory path)
  | used {catalog : EnvironmentCatalog} (before : Made catalog) (tree : FileTree) :
      Made (catalog.used tree)

variable {catalog : EnvironmentCatalog}

/-- Whatever a catalog knows is definite, unless two definitions share a name. -/
theorem Made.indexes_current (made : catalog.Made) (tree : FileTree) :
    Indexes (catalog.current tree) := by
  induction made generalizing tree with
  | memory declared => exact .ok declared.definite
  | directory path => exact indexes_readDirectory tree path
  | used before earlier ih =>
    rw [current_used]
    exact ih earlier

end EnvironmentCatalog

/-! ## Ways out of an index -/

namespace EnvironmentIndex

variable {index : EnvironmentIndex} {name missing : String}

/-- The inclusions lead from `name` to a name that no definition has, which may be `name`. -/
def LeadsOut (index : EnvironmentIndex) (name missing : String) : Prop :=
  ∃ passed, index.Way [] name passed missing ∧ missing ∉ index.names

/-- **An environment counts as missing exactly when its inclusions lead out of the index.** -/
theorem Definite.environment_eq_notFound_iff (definite : index.Definite)
    {available : List String} :
    index.environment name = .error (.notFound missing available) ↔
      index.LeadsOut name missing ∧ available = index.names := by
  obtain ⟨passed, last, way⟩ := exists_way index [] name
  rw [← way.gives_iff]
  constructor
  · intro gives
    cases gives with
    | missing fresh absent =>
      refine ⟨⟨passed, way, ?_⟩, rfl⟩
      simp [names, Dictionary.mem_keys, absent]
    | broken fresh held fails => exact absurd fails (definite _ _ held _ _)
  · rintro ⟨⟨others, led, out⟩, rfl⟩
    obtain ⟨rfl, rfl⟩ := way.unique led
    refine .missing ?_ ?_
    · intro before
      exact out (way.mem_names before)
    · simpa [names, Dictionary.mem_keys] using out

end EnvironmentIndex

/-! ## References and places -/

section Answers

variable {environments : Environments} {query : Query} {name : String}

/-- In an environment that counts as missing every reference means a type. -/
theorem Environments.component_of_notFound {missing : String} {available : List String}
    (fails : environments.environment name = .error (.notFound missing available))
    (reference : String) : environments.component reference name = .ok (.ofType reference) := by
  rw [component, fails]

/-- In an environment that counts as missing nothing is known of the place of a component. -/
theorem Informant.describe_of_notFound {missing : String} {available : List String}
    (fails : environments.environment query.environment = .error (.notFound missing available)) :
    describe environments query = .ok none := by
  rw [describe, fails]

/-- Any other failure of an environment is the failure of each reference in it. -/
theorem Environments.component_of_error {error : EnvironmentError}
    (fails : environments.environment name = .error error)
    (broken : ∀ missing available, error ≠ .notFound missing available) (reference : String) :
    environments.component reference name = .error error := by
  rw [component, fails]
  cases error with
  | notFound missing available => exact absurd rfl (broken missing available)
  | _ => rfl

/-- Any other failure of an environment is the failure of each question for a place in it. -/
theorem Informant.describe_of_error {error : EnvironmentError}
    (fails : environments.environment query.environment = .error error)
    (broken : ∀ missing available, error ≠ .notFound missing available) :
    describe environments query = .error (.environment error) := by
  rw [describe, fails]
  cases error with
  | notFound missing available => exact absurd rfl (broken missing available)
  | _ => rfl

/-- Where a reference means a component, the environment is there or counts as missing. -/
theorem Environments.of_component_eq_ok {reference : String} {found : Component}
    (means : environments.component reference name = .ok found) :
    (∃ environment, environments.environment name = .ok environment ∧
      (environment.componentNamed reference = some found ∨
        environment.componentNamed reference = none ∧ found = .ofType reference)) ∨
    ∃ missing available, environments.environment name = .error (.notFound missing available) ∧
      found = .ofType reference := by
  unfold component at means
  split at means
  · next environment loads =>
    refine .inl ⟨environment, loads, ?_⟩
    cases named : environment.componentNamed reference with
    | none =>
      rw [named] at means
      cases means
      exact .inr ⟨rfl, rfl⟩
    | some component =>
      rw [named] at means
      cases means
      exact .inl rfl
  · next missing available fails =>
    cases means
    exact .inr ⟨missing, available, fails, rfl⟩
  · cases means

end Answers

namespace EnvironmentCatalog

open EnvironmentIndex

variable {catalog : EnvironmentCatalog} {tree : FileTree} {name missing : String}

/-- The environments of a catalog are those that its index makes. -/
theorem environment_of_current {index : EnvironmentIndex}
    (current : catalog.current tree = .ok index) (name : String) :
    (catalog.environments tree).environment name = index.environment name := by
  rw [environments, Environments.environment_ofIndex, current]
  rfl

/-- An environment of a catalog counts as missing exactly when its inclusions lead out of the
index. -/
theorem Made.environment_eq_notFound_iff (made : catalog.Made) {available : List String} :
    (catalog.environments tree).environment name = .error (.notFound missing available) ↔
      ∃ index, catalog.current tree = .ok index ∧ index.LeadsOut name missing ∧
        available = index.names := by
  have known : Indexes (catalog.current tree) := made.indexes_current tree
  rw [environments, Environments.environment_ofIndex]
  generalize catalog.current tree = current at known
  cases known with
  | @ok index definite =>
    refine definite.environment_eq_notFound_iff.trans ?_
    constructor
    · intro out
      exact ⟨index, rfl, out⟩
    · rintro ⟨_, ⟨⟩, out⟩
      exact out
  | twice shared first second =>
    constructor
    · intro fails
      cases fails
    · rintro ⟨_, ⟨⟩, _⟩

/-- **References mean types, and places are unknown, only where inclusions lead out of the index.**
Where they do, an environment counts as missing, also when it is another one that is missing which
it includes over any number of definitions. Any other failure of an environment is the failure of
each reference in it and of each question for a place in it. So a reference means a type for one of
two reasons: the inclusions lead out of the index, or the environment has no component of that
name. -/
theorem component_spec (made : catalog.Made) (tree : FileTree) (reference : String)
    (query : Query) :
    let environments := catalog.environments tree
    let name := query.environment
    (∀ index missing, catalog.current tree = .ok index → index.LeadsOut name missing →
      environments.environment name = .error (.notFound missing index.names) ∧
      environments.component reference name = .ok (.ofType reference) ∧
      Informant.describe environments query = .ok none) ∧
    (∀ error, environments.environment name = .error error →
      (∀ index missing, catalog.current tree = .ok index → ¬ index.LeadsOut name missing) →
      environments.component reference name = .error error ∧
      Informant.describe environments query = .error (.environment error)) ∧
    (∀ found, environments.component reference name = .ok found →
      (∃ environment, environments.environment name = .ok environment ∧
        (environment.componentNamed reference = some found ∨
          environment.componentNamed reference = none ∧ found = .ofType reference)) ∨
      ∃ index missing, catalog.current tree = .ok index ∧ index.LeadsOut name missing ∧
        found = .ofType reference) := by
  intro environments name
  refine ⟨?_, ?_, ?_⟩
  · intro index missing current out
    have fails : environments.environment name = .error (.notFound missing index.names) :=
      made.environment_eq_notFound_iff.mpr ⟨index, current, out, rfl⟩
    exact ⟨fails, Environments.component_of_notFound fails reference,
      Informant.describe_of_notFound fails⟩
  · intro error fails stays
    have broken : ∀ missing available, error ≠ .notFound missing available := by
      rintro missing available rfl
      obtain ⟨index, current, out, _⟩ := made.environment_eq_notFound_iff.mp fails
      exact stays index missing current out
    exact ⟨Environments.component_of_error fails broken reference,
      Informant.describe_of_error fails broken⟩
  · intro found means
    rcases Environments.of_component_eq_ok means with there | ⟨missing, available, fails, rfl⟩
    · exact .inl there
    · obtain ⟨index, current, out, _⟩ := made.environment_eq_notFound_iff.mp fails
      exact .inr ⟨index, missing, current, out, rfl⟩

/-! ## An environment without its base

In the following index `dev` includes `base`, which no definition has, and `loop` includes
itself. -/

/-- The definition of an environment that includes another one. -/
def including (environment : String) : Environment.Definition where
  inclusion := some { environment }
  groups := [{ name := "g", components := ["api:web"] }]

/-- An index with these definitions. -/
def faulty : EnvironmentIndex :=
  ⟨(Dictionary.empty.insert "dev" ⟨"<memory:dev>", .ok (including "base")⟩).insert "loop"
    ⟨"<memory:loop>", .ok (including "loop")⟩⟩

theorem declared_faulty : Declared faulty := by
  have first : EnvironmentIndex.empty.register "dev" ⟨"<memory:dev>", .ok (including "base")⟩ =
      .ok ⟨Dictionary.empty.insert "dev" ⟨"<memory:dev>", .ok (including "base")⟩⟩ := rfl
  have second : register ⟨Dictionary.empty.insert "dev" ⟨"<memory:dev>", .ok (including "base")⟩⟩
      "loop" ⟨"<memory:loop>", .ok (including "loop")⟩ = .ok faulty := rfl
  exact .register (.register .empty first) second

theorem way_dev : faulty.Way [] "dev" [("dev", including "base")] "base" :=
  .includes (List.not_mem_nil) rfl rfl (.stops (by decide) (by intro definition found; cases found))

theorem way_loop : faulty.Way [] "loop" [("loop", including "loop")] "loop" :=
  .includes (List.not_mem_nil) rfl rfl (.again (by decide))

/-- What includes itself is a cycle for a reference, too. -/
theorem component_loop :
    (EnvironmentCatalog.ofIndex faulty).Made ∧
      ((EnvironmentCatalog.ofIndex faulty).environments .empty).component "api" "loop" =
        .error (.includeCycle ["loop", "loop"]) := by
  have made : (EnvironmentCatalog.ofIndex faulty).Made := .memory declared_faulty
  have cycle : faulty.environment "loop" = .error (.includeCycle ["loop", "loop"]) :=
    way_loop.gives_iff.mp (.cycle (by decide))
  obtain ⟨_, broken, _⟩ := component_spec made .empty "api" ⟨.ofType "api", ipKey, "loop"⟩
  refine ⟨made, (broken _ ?_ ?_).1⟩
  · exact (environment_of_current rfl "loop").trans cycle
  · rintro index missing ⟨⟩ ⟨passed, way, out⟩
    obtain ⟨_, rfl⟩ := way_loop.unique way
    exact out (by decide)

/-- A reference in `dev` means a type, although `dev` has a definition and cannot be had. -/
theorem component_dev :
    "dev" ∈ faulty.names ∧
      ((EnvironmentCatalog.ofIndex faulty).environments .empty).environment "dev" =
        .error (.notFound "base" ["dev", "loop"]) ∧
      ((EnvironmentCatalog.ofIndex faulty).environments .empty).component "api" "dev" =
        .ok (.ofType "api") ∧
      Informant.describe ((EnvironmentCatalog.ofIndex faulty).environments .empty)
        ⟨.ofType "api", ipKey, "dev"⟩ = .ok none := by
  have missing : ((EnvironmentCatalog.ofIndex faulty).environments .empty).environment "dev" =
      .error (.notFound "base" ["dev", "loop"]) := by
    rw [environment_of_current rfl "dev"]
    exact way_dev.gives_iff.mp (.missing (by decide) rfl)
  exact ⟨by decide, missing, Environments.component_of_notFound missing "api",
    Informant.describe_of_notFound missing⟩

end EnvironmentCatalog

end DeployConfig
