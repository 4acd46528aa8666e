import DeployConfig.Proofs.Fleet.Sessions
import DeployConfig.Proofs.Fleet.Values
import DeployConfig.Proofs.Resolution.Transience
import DeployConfig.Proofs.Supply.Includes
import Mathlib

/-!
# What is transient decides only what is shown

Let two projects differ in nothing but the declarations that are transient (`Project.Agrees`). Their
supplies go through layers that agree, so the properties they give agree; so do the answers of all
informants, and the worlds in which values are resolved. Hence every resolution is the same in both,
but for the marks of the properties it goes through, and what a configuration shows for a key is
decided by the declaration that wins for it: whether it is shown by its mark, and with which value
by everything else. The main result is `configuration_transience`.
-/

set_option autoImplicit false

namespace DeployConfig

/-! ## Declarations -/

/-- Batches that are declared for the same, with layers that agree. -/
structure Declarations.Batch.Agrees (one other : Declarations.Batch) : Prop where
  configType : one.configType = other.configType
  type : one.type = other.type
  environment : one.environment = other.environment
  layer : one.layer.Agrees other.layer

/-- Batches are chosen by what they are declared for. -/
theorem Declarations.Batch.Agrees.filter (chosen : Declarations.Batch → Bool)
    (same : ∀ batch batch', batch.Agrees batch' → chosen batch = chosen batch')
    {batches batches' : List Declarations.Batch}
    (agrees : List.Forall₂ Declarations.Batch.Agrees batches batches') :
    List.Forall₂ Declarations.Batch.Agrees (batches.filter chosen) (batches'.filter chosen) :=
  List.rel_filter (fun batch batch' alike => Bool.eq_iff_iff.mp (same batch batch' alike)) agrees

/-- Declarations that agree batch by batch have layers that agree. -/
theorem Declarations.layers_agrees {one other : Declarations}
    (agrees : List.Forall₂ Declarations.Batch.Agrees one.batches other.batches)
    (configType type environment : String) :
    List.Forall₂ Layer.Agrees (one.layers configType type environment)
      (other.layers configType type environment) := by
  have own := Declarations.Batch.Agrees.filter
    (fun batch => batch.configType == configType && batch.type == type)
    (fun batch batch' same => by rw [same.configType, same.type]) agrees
  have shared := Declarations.Batch.Agrees.filter (·.environment.isNone)
    (fun batch batch' same => by rw [same.environment]) own
  have specific := Declarations.Batch.Agrees.filter (·.environment == some environment)
    (fun batch batch' same => by rw [same.environment]) own
  rw [layers, layers, List.forall₂_map_left_iff, List.forall₂_map_right_iff]
  exact (List.rel_append shared specific).imp fun _ _ same => same.layer

/-! ## Answers -/

/-- Sources that give the same, whatever is transient. -/
structure Sources.Agrees (one other : Sources) : Prop where
  environments : one.environments = other.environments
  directory : one.directory = other.directory
  properties : ∀ request,
    SameEnd Assembly.MapAlike (one.properties request) (other.properties request)

namespace Sources.Agrees

variable {one other : Sources}

/-- An informant gives the same answer, whatever is transient. -/
theorem answer (agrees : one.Agrees other) (query : Query) (informant : Informant) :
    (informant.answer one query).map (·.map Property.hidden) =
      (informant.answer other query).map (·.map Property.hidden) := by
  cases informant with
  | reserved name values escapesBackslashes => rfl
  | identity root destination =>
    simp only [Informant.answer, Informant.identityValue?, agrees.directory]
  | descriptor => simp only [Informant.answer, agrees.environments]
  | properties configType =>
    have same := agrees.properties ⟨query.component, query.environment, configType⟩
    simp only [Informant.answer]
    generalize one.properties ⟨query.component, query.environment, configType⟩ = given at same
    generalize other.properties ⟨query.component, query.environment, configType⟩ = given' at same
    cases same with
    | failed error => rfl
    | given alike =>
      have held := congrArg (·.get? query.key) alike
      simp only [Dictionary.get?_map] at held
      simp only [Except.map, held]

/-- The same informant answers first, whatever is transient. -/
theorem firstAnswer (agrees : one.Agrees other) (query : Query) (inTurn : List Informant) :
    (Informant.firstAnswer one query inTurn).map (·.map Property.hidden) =
      (Informant.firstAnswer other query inTurn).map (·.map Property.hidden) := by
  induction inTurn with
  | nil => rfl
  | cons informant rest ih =>
    have same := agrees.answer query informant
    simp only [Informant.firstAnswer]
    generalize informant.answer one query = answer at same
    generalize informant.answer other query = answer' at same
    -- Both fail alike, both decline or both answer alike.
    rcases answer with error | _ | property <;> rcases answer' with error' | _ | property' <;>
      first | exact same | exact ih | cases same

/-- Values are resolved in the same world, whatever is transient. -/
theorem hidden_ofInformants (agrees : one.Agrees other) (informants : Dictionary (List Informant))
    (protectedKeys : List String) :
    (World.ofInformants one informants protectedKeys).hidden =
      (World.ofInformants other informants protectedKeys).hidden := by
  have answerers : ((World.ofInformants one informants protectedKeys).answerers.map
      Answerer.hidden) =
        (World.ofInformants other informants protectedKeys).answerers.map Answerer.hidden := by
    apply Dictionary.ext_get?
    intro configType
    simp only [World.ofInformants, Dictionary.get?_map]
    cases informants.get? configType with
    | none => rfl
    | some inTurn => exact congrArg some (funext fun query => agrees.firstAnswer query inTurn)
  rw [World.hidden, World.hidden, answerers]
  simp only [World.ofInformants, agrees.environments]

end Sources.Agrees

/-! ## Configurations -/

/-- Whether a dictionary is the part of another one that has exactly the chosen keys. -/
def Dictionary.IsPart (part whole : Dictionary String) (chosen : String → Prop) : Prop :=
  ∀ key,
    (chosen key → ∃ value, whole.get? key = some value ∧ part.get? key = some value) ∧
    (¬ chosen key → part.get? key = none)

/-- Fleets that differ in nothing but what is transient. -/
structure Fleet.Agrees (one other : Fleet) : Prop where
  configTypes : one.configTypes = other.configTypes
  informants : one.informants = other.informants
  protectedKeys : one.protectedKeys = other.protectedKeys
  sources : one.sources.Agrees other.sources

namespace Fleet.Agrees

variable {one other : Fleet} {steps : Nat} {root : Placed} {configType key : String}

/-- The worlds of the fleets have the same hidden form. -/
theorem world (agrees : one.Agrees other) : one.world.hidden = other.world.hidden := by
  rw [Fleet.world, Fleet.world, ← agrees.informants, ← agrees.protectedKeys]
  exact agrees.sources.hidden_ofInformants _ _

/-- **Every resolution is the same**, but for what is transient. -/
theorem resolve (agrees : one.Agrees other) {property property' : Property}
    (same : property.hidden = property'.hidden) (steps : Nat) (root : Placed)
    (configType : String) :
    (Resolution.resolve one.world steps property root configType).retold Resolution.Event.hidden
        ResolutionError.hidden id =
      (Resolution.resolve other.world steps property' root configType).retold
        Resolution.Event.hidden ResolutionError.hidden id :=
  Resolution.resolve_agrees agrees.world same steps root configType

/-- What is shown for a key in both fleets is the same, but for what is transient. -/
theorem hidden_of_shows (agrees : one.Agrees other) {property property' : Property}
    (shows : one.Shows root configType key property)
    (shows' : other.Shows root configType key property') :
    property.hidden = property'.hidden := by
  obtain ⟨properties, supplied, held, _⟩ := shows
  obtain ⟨properties', supplied', held', _⟩ := shows'
  have same := agrees.sources.properties ⟨root.component, root.environment, configType⟩
  rw [supplied, supplied'] at same
  obtain _ | alike := same
  have hidden := congrArg (·.get? key) alike
  simpa [Dictionary.get?_map, held, held'] using hidden

/-- What is resolved for a key in the one fleet is resolved for it in the other. -/
theorem resolve_of_shows (agrees : one.Agrees other) {property property' : Property}
    (shows : one.Shows root configType key property)
    (shows' : other.Shows root configType key property') {value : String}
    (done : (Resolution.resolve one.world steps property root configType).outcome =
      .done value) :
    (Resolution.resolve other.world steps property' root configType).outcome = .done value := by
  have same := agrees.resolve (agrees.hidden_of_shows shows shows') steps root configType
  rw [← Traced.outcome_retold_eq_done_iff] at done ⊢
  rw [← same]
  exact done

/-- If the other fleet shows no other keys, then it has the same values for those that it shows. -/
theorem exists_values (agrees : one.Agrees other) {shown : Dictionary String}
    (done : (one.values steps root configType).outcome = .done shown)
    (fewer : ∀ key, (∃ property', other.Shows root configType key property') →
      ∃ value, shown.get? key = some value) :
    ∃ shown', (other.values steps root configType).outcome = .done shown' ∧
      shown'.IsPart shown fun key => ∃ property', other.Shows root configType key property' := by
  obtain ⟨⟨properties, supplied⟩, held, hidden⟩ := Fleet.get?_of_values done
  -- The value that the one fleet has for a key is that of the other one as well.
  have resolves : ∀ key property', other.Shows root configType key property' →
      ∃ value, shown.get? key = some value ∧
        (Resolution.resolve other.world steps property' root configType).outcome =
          .done value := by
    intro key property' shows'
    obtain ⟨value, here⟩ := fewer key ⟨property', shows'⟩
    obtain ⟨property, shows⟩ : ∃ property, one.Shows root configType key property := by
      refine Classical.byContradiction fun nobody => ?_
      rw [hidden key (not_exists.mp nobody)] at here
      cases here
    obtain ⟨value, here, resolved⟩ := held key property shows
    exact ⟨value, here, agrees.resolve_of_shows shows shows' resolved⟩
  obtain ⟨properties', supplied'⟩ : ∃ properties', other.sources.properties
      ⟨root.component, root.environment, configType⟩ = .ok properties' := by
    have same := agrees.sources.properties ⟨root.component, root.environment, configType⟩
    rw [supplied] at same
    generalize other.sources.properties ⟨root.component, root.environment, configType⟩ = given
      at same
    obtain _ | _ := same
    exact ⟨_, rfl⟩
  obtain ⟨shown', done'⟩ : ∃ shown', (other.values steps root configType).outcome =
      .done shown' :=
    Fleet.exists_values supplied' fun key property' shows' =>
      (resolves key property' shows').imp fun _ both => both.2
  obtain ⟨_, held', absent⟩ := Fleet.get?_of_values done'
  refine ⟨shown', done', fun key => ⟨?_, fun nobody => absent key (not_exists.mp nobody)⟩⟩
  rintro ⟨property', shows'⟩
  obtain ⟨value, here, resolved⟩ := resolves key property' shows'
  obtain ⟨value', here', resolved'⟩ := held' key property' shows'
  rw [resolved] at resolved'
  cases resolved'
  exact ⟨value, here, here'⟩

/-- If the other fleet shows no other keys, then it has a configuration of the component as well,
with the same values for the keys that it shows. -/
theorem exists_configuration (agrees : one.Agrees other) {built : Configuration}
    (done : (one.configuration steps root).outcome = .done built)
    (fewer : ∀ configType shown key, built.values.get? configType = some shown →
      (∃ property', other.Shows root configType key property') →
        ∃ value, shown.get? key = some value) :
    ∃ built', (other.configuration steps root).outcome = .done built' ∧
      built'.component = built.component ∧ built'.environment = built.environment ∧
      (∀ configType ∉ one.configTypes, built'.values.get? configType = none) ∧
      ∀ configType ∈ one.configTypes, ∃ shown shown',
        built.values.get? configType = some shown ∧
        built'.values.get? configType = some shown' ∧
        shown'.IsPart shown fun key =>
          ∃ property', other.Shows root configType key property' := by
  obtain ⟨component, environment, held, _⟩ := Fleet.get?_of_configuration done
  have valued : ∀ configType ∈ one.configTypes, ∃ shown shown',
      built.values.get? configType = some shown ∧
      (other.values steps root configType).outcome = .done shown' ∧
      shown'.IsPart shown fun key =>
        ∃ property', other.Shows root configType key property' := by
    intro configType known
    obtain ⟨shown, kept, values⟩ := held configType known
    obtain ⟨shown', values', same⟩ :=
      agrees.exists_values values fun key => fewer configType shown key kept
    exact ⟨shown, shown', kept, values', same⟩
  obtain ⟨built', done'⟩ : ∃ built', (other.configuration steps root).outcome = .done built' := by
    refine Fleet.exists_configuration fun configType known => ?_
    obtain ⟨_, shown', _, values', _⟩ := valued configType (agrees.configTypes ▸ known)
    exact ⟨shown', values'⟩
  obtain ⟨component', environment', held', absent'⟩ := Fleet.get?_of_configuration done'
  refine ⟨built', done', component'.trans component.symm, environment'.trans environment.symm,
    fun configType unknown => absent' configType (agrees.configTypes ▸ unknown), ?_⟩
  intro configType known
  obtain ⟨shown, shown', kept, values', same⟩ := valued configType known
  obtain ⟨again, kept', values''⟩ := held' configType (agrees.configTypes ▸ known)
  rw [values'] at values''
  cases values''
  exact ⟨shown, shown', kept, kept', same⟩

end Fleet.Agrees

/-! ## Projects -/

namespace Project

/-- The layers of component types for a config type. -/
def loader (project : Project) (tree : FileTree) (configType : String) : Loader :=
  project.stores.supply.loader (.of tree (project.stores.directories.used tree)) configType

/-- The declaration that wins for a key of a component: the last one for the key on the walk through
the layers of the component and of all that they include. -/
def Wins (project : Project) (tree : FileTree) (root : Placed) (configType key : String)
    (property : Property) : Prop :=
  ∃ loaded emitted,
    Assembly.Performs (project.loader tree configType)
      [.expand root.component root.environment] [] loaded (.ok emitted) ∧
    Assembly.LastFor key property emitted

/-- Whether the declaration that wins for a key is not transient. -/
def Prints (project : Project) (tree : FileTree) (root : Placed) (configType key : String) :
    Prop :=
  ∃ property, project.Wins tree root configType key property ∧ property.transient = false

/-- Projects, each with its files, that differ in nothing but the declarations that are transient.
Neither has been asked for properties yet. -/
structure Agrees (one : Project) (tree : FileTree) (other : Project) (tree' : FileTree) :
    Prop where
  root : one.root = other.root
  destination : one.destination = other.destination
  settings : one.settings = other.settings
  host : one.host = other.host
  catalog : one.stores.catalog.current tree = other.stores.catalog.current tree'
  directory : one.stores.directories.directory tree = other.stores.directories.directory tree'
  kept : one.stores.supply.kept = .empty
  kept' : other.stores.supply.kept = .empty
  layers : ∀ configType, (one.loader tree configType).Agrees (other.loader tree' configType)

variable {project one other : Project} {tree tree' : FileTree} {root : Placed}
  {configType key : String} {property : Property}

/-- A project that has not been asked for properties yet gives what its layers assemble to. -/
theorem properties_fleet (fresh : project.stores.supply.kept = .empty) (tree : FileTree)
    (request : SupplyKey) :
    (project.fleet tree).sources.properties request =
      Assembly.assembled (project.loader tree request.configType) request.component
        request.environment := by
  refine (project.stores.properties_sources tree request).trans ?_
  rw [Supply.properties_eq_getD, fresh, Memo.find?_empty, Option.getD_none, Supply.load_eq]
  rfl

/-- Every walk through the layers of a project comes to an end. -/
theorem exists_performs (project : Project) (tree : FileTree) (configType : String)
    (component : Component) (environment : String) :
    ∃ loaded result, Assembly.Performs (project.loader tree configType)
      [.expand component environment] [] loaded result := by
  obtain ⟨known, only⟩ := project.stores.supply.exists_includesOnly tree
    (project.stores.directories.used tree) configType
  obtain ⟨loaded, result, performs, _⟩ := only.assembled component environment
  exact ⟨loaded, result, performs⟩

/-- What is shown is the declaration that wins, if it is not transient. -/
theorem shows_iff (fresh : project.stores.supply.kept = .empty) :
    (project.fleet tree).Shows root configType key property ↔
      project.Wins tree root configType key property ∧ property.transient = false := by
  obtain ⟨loaded, result, performs⟩ :=
    project.exists_performs tree configType root.component root.environment
  rw [Fleet.Shows, properties_fleet fresh, performs.assembled]
  constructor
  · rintro ⟨properties, supplied, held, plain⟩
    cases result with
    | error error => cases supplied
    | ok emitted =>
      cases supplied
      exact ⟨⟨loaded, emitted, performs, Assembly.get?_inForce_iff.mp held⟩, plain⟩
  · rintro ⟨⟨_, emitted, again, last⟩, plain⟩
    obtain ⟨_, rfl⟩ := performs.unique again
    exact ⟨_, rfl, Assembly.get?_inForce_iff.mpr last, plain⟩

theorem Agrees.fleet (agrees : one.Agrees tree other tree') :
    (one.fleet tree).Agrees (other.fleet tree') where
  configTypes := congrArg (fun settings => settings.configTypes.map (·.name)) agrees.settings
  informants := by
    simp only [Project.fleet, informants, agrees.settings, agrees.host, agrees.root,
      agrees.destination]
  protectedKeys := by
    simp only [Project.fleet, agrees.settings]
  sources :=
    { environments := congrArg Environments.ofIndex agrees.catalog
      directory := agrees.directory
      properties := by
        intro request
        rw [properties_fleet agrees.kept, properties_fleet agrees.kept']
        obtain ⟨loaded, result, performs⟩ := one.exists_performs tree request.configType
          request.component request.environment
        exact performs.assembled_agrees (agrees.layers request.configType) }

/-- **What is transient decides only what is shown.** Two projects differ in nothing but the
declarations that are transient, and each has been asked for whatever it may be.

* Properties that differ in nothing else are resolved in the same way: the runs put the same
  questions, take the same answers and refuse the same cycles, and end with the same value or the
  same error, but for the marks of the properties that they go through.
* Suppose that the one project has a configuration of a component, in which every key is shown whose
  winning declaration is not transient in the other project. Then the other project has a
  configuration, too. For each config type it shows exactly these keys, with the same values. -/
theorem configuration_transience (agrees : one.Agrees tree other tree')
    (requests requests' : List Request) :
    let fleet := (one.after tree requests).fleet tree
    let fleet' := (other.after tree' requests').fleet tree'
    (∀ steps property property' root configType, property.hidden = property'.hidden →
      (Resolution.resolve fleet.world steps property root configType).retold
          Resolution.Event.hidden ResolutionError.hidden id =
        (Resolution.resolve fleet'.world steps property' root configType).retold
          Resolution.Event.hidden ResolutionError.hidden id) ∧
    ∀ steps root built, (fleet.configuration steps root).outcome = .done built →
      (∀ configType shown key, built.values.get? configType = some shown →
        other.Prints tree' root configType key → ∃ value, shown.get? key = some value) →
      ∃ built', (fleet'.configuration steps root).outcome = .done built' ∧
        built'.component = built.component ∧ built'.environment = built.environment ∧
        (∀ configType ∉ fleet.configTypes, built'.values.get? configType = none) ∧
        ∀ configType ∈ fleet.configTypes, ∃ shown shown',
          built.values.get? configType = some shown ∧
          built'.values.get? configType = some shown' ∧
          shown'.IsPart shown (other.Prints tree' root configType) := by
  intro fleet fleet'
  have same : fleet.Agrees fleet' := by
    rw [show fleet = one.fleet tree from one.fleet_after tree requests,
      show fleet' = other.fleet tree' from other.fleet_after tree' requests']
    exact agrees.fleet
  have prints (root : Placed) (configType : String) :
      other.Prints tree' root configType = fun key =>
        ∃ property', fleet'.Shows root configType key property' := by
    rw [show fleet' = other.fleet tree' from other.fleet_after tree' requests']
    exact funext fun key => propext (exists_congr fun _ => (shows_iff agrees.kept').symm)
  refine ⟨fun steps _ _ root configType hidden => same.resolve hidden steps root configType, ?_⟩
  intro steps root built done fewer
  simp only [prints] at fewer ⊢
  exact same.exists_configuration done fewer

/-! ## A port that is not shown

In the following projects the type `web` includes `commons` and declares another port than that. Its
address refers to the port. -/

/-- The declarations of both types. -/
def portDeclarations (transient : Bool) : Declarations where
  batches := [
    ⟨"app", "commons", none, ⟨none, [], [⟨"port", "1", false⟩]⟩⟩,
    ⟨"app", "web", none, ⟨none, [⟨"commons", none⟩],
      [⟨"port", "80", transient⟩, ⟨"url", "http:$\x7bthis@port\x7d", false⟩]⟩⟩]

/-- A project in memory with these declarations. -/
def portProject (transient : Bool) : Project where
  root := ⟨"/cfg"⟩
  destination := ⟨"/out"⟩
  settings := { configTypes := [⟨"app", none⟩] }
  host := ⟨⟨[]⟩, ⟨"/"⟩, "x86_64"⟩
  stores := {
    catalog := .ofIndex ⟨.empty⟩
    directories := .below ⟨"/cfg/components"⟩
    supply := .of (.declared (portDeclarations transient)) }

/-- A component of this type. -/
def portRoot : Placed := ⟨.ofType "web", "dev"⟩

theorem agrees_portDeclarations :
    List.Forall₂ Declarations.Batch.Agrees (portDeclarations false).batches
      (portDeclarations true).batches := by
  refine .cons ⟨rfl, rfl, rfl, rfl, rfl, fun _ => rfl⟩ (.cons ⟨rfl, rfl, rfl, rfl, rfl, ?_⟩ .nil)
  intro key
  simp only [Layer.valuesFor, List.filter_cons, List.filter_nil]
  split <;> split <;> rfl

theorem agrees_port : (portProject false).Agrees .empty (portProject true) .empty where
  root := rfl
  destination := rfl
  settings := rfl
  host := rfl
  catalog := rfl
  directory := rfl
  kept := rfl
  kept' := rfl
  layers := fun configType type environment =>
    .given (Declarations.layers_agrees agrees_portDeclarations configType type environment)

/-- The port and the address of the component. -/
theorem assembled_port (transient : Bool) :
    Assembly.assembled ((portProject transient).loader .empty "app") portRoot.component
        portRoot.environment =
      .ok ((Dictionary.empty.insert "port"
          ⟨"port", "80", "dev", transient, .special (.ofType "web") "memory"⟩).insert "url"
        ⟨"url", "http:$\x7bthis@port\x7d", "dev", false, .special (.ofType "web") "memory"⟩) := by
  cbv

/-- Only the address is shown if the port is transient. -/
theorem prints_port (key : String) :
    (portProject true).Prints .empty portRoot "app" key ↔ key = "url" := by
  have fresh : (portProject true).stores.supply.kept = .empty := rfl
  simp only [Prints, ← shows_iff fresh, Fleet.Shows, properties_fleet fresh, assembled_port]
  constructor
  · rintro ⟨property, _, ⟨⟩, held, plain⟩
    rw [Dictionary.get?_insert, Dictionary.get?_insert] at held
    split at held
    · next address => exact address
    · split at held
      · cases held
        cases plain
      · cases held
  · rintro rfl
    exact ⟨_, _, rfl, Dictionary.get?_insert _ _ _ _, rfl⟩

/-- The configuration with the port. -/
def portConfiguration : Configuration where
  component := portRoot.component
  environment := portRoot.environment
  values := Dictionary.empty.insert "app"
    ((Dictionary.empty.insert "port" "80").insert "url" "http:80")

/-- The address is the same without the port. -/
theorem configuration_port :
    (portProject false).Agrees .empty (portProject true) .empty ∧
    ∃ built shown,
      ((((portProject true).after .empty [.environments]).fleet .empty).configuration 4
        portRoot).outcome = .done built ∧
      built.values.get? "app" = some shown ∧ shown.get? "url" = some "http:80" ∧
      shown.get? "port" = none := by
  refine ⟨agrees_port, ?_⟩
  have done : (((portProject false).fleet .empty).configuration 4 portRoot).outcome =
      .done portConfiguration := by
    obtain ⟨system, exported, directory, same⟩ := fleet_inMemory ⟨.empty⟩ (portDeclarations false)
    rw [show portProject false = inMemory ⟨.empty⟩ (portDeclarations false) from rfl, same]
    cbv
  have fewer : ∀ configType shown key,
      portConfiguration.values.get? configType = some shown →
        (portProject true).Prints .empty portRoot configType key →
          ∃ value, shown.get? key = some value := by
    intro configType shown key kept prints
    rw [portConfiguration, Dictionary.get?_insert] at kept
    split at kept
    · next app =>
      subst app
      cases kept
      rw [(prints_port key).mp prints]
      exact ⟨_, Dictionary.get?_insert _ _ _ _⟩
    · cases kept
  obtain ⟨built', done', _, _, _, values⟩ :=
    (configuration_transience agrees_port [] [.environments]).2 4 portRoot portConfiguration done
      fewer
  obtain ⟨shown, shown', kept, kept', same⟩ := values "app" List.mem_cons_self
  obtain ⟨value, here, here'⟩ := (same "url").1 ((prints_port "url").mpr rfl)
  refine ⟨built', shown', done', kept', ?_, (same "port").2 ?_⟩
  · cases kept
    cases here
    exact here'
  · rw [prints_port]
    decide

end Project

end DeployConfig
