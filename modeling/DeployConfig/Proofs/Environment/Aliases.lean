import DeployConfig.Proofs.Environment.Places
import DeployConfig.Proofs.Environment.Registration
import DeployConfig.Proofs.Environment.Snapshots

/-!
# Aliases

A definition is found under its name and under each of its aliases, so inclusions may lead to it in
several ways, and a cycle is only noticed when a name comes up again, not when a definition does.
Still it does not matter by which of its names an environment is asked for. A definition that comes
up twice on a way includes the same environment both times, so the way runs into a name that it has
passed (`Way.not_mem_of_same`). A way that does not is therefore the same from both names, but for
its first step (`environment_of_same`). The main result is `aliases_spec`.
-/

set_option autoImplicit false

namespace DeployConfig.EnvironmentIndex

variable {index : EnvironmentIndex} {path : List String} {name other last : String}
  {passed : List (String × Environment.Definition)} {definition : Environment.Definition}

/-! ## Names of one definition -/

theorem exists_entry_of_definition (found : index.definition name = .ok definition) :
    ∃ entry, index.registered.get? name = some entry ∧ entry.definition = .ok definition := by
  cases held : index.registered.get? name with
  | none =>
    rw [definition_of_none held] at found
    cases found
  | some entry => exact ⟨entry, rfl, (definition_of_some held).symm.trans found⟩

/-- In an index that was made by registering definitions, an alias stands for the definition that
lists it. -/
theorem Built.definition_alias (built : index.Built)
    (found : index.definition name = .ok definition) (listed : other ∈ definition.aliases) :
    index.definition other = .ok definition := by
  obtain ⟨items, made⟩ := built
  obtain ⟨entry, held, read⟩ := exists_entry_of_definition found
  obtain ⟨item, member, _, rfl⟩ := (registered_iff_of_registerAll made).mp held
  have aliases : Registered.aliases item.2 = definition.aliases := by
    rw [Registered.aliases, read]
  have here : index.registered.get? other = some item.2 :=
    (registered_iff_of_registerAll made).mpr
      ⟨item, member, List.mem_cons_of_mem _ (aliases ▸ listed), rfl⟩
  exact (definition_of_some here).trans read

/-! ## Ways from two names of one definition -/

/-- A name that is passed has the definition that it is passed with, and this includes the
environment from which the way goes on. -/
theorem Way.goes_on {before behind : List (String × Environment.Definition)} {on : String}
    (way : index.Way path name (before ++ (on, definition) :: behind) last) :
    index.definition on = .ok definition ∧ ∃ inclusion, definition.inclusion = some inclusion ∧
      index.Way (path ++ before.map (·.1) ++ [on]) inclusion.environment behind last := by
  induction before generalizing path name with
  | nil =>
    cases way with
    | includes fresh found included rest =>
      refine ⟨found, _, included, ?_⟩
      simpa using rest
  | cons head before ih =>
    cases way with
    | includes fresh found included rest =>
      simpa using ih rest

/-- A way has passed its start when it has passed any name. -/
theorem Way.start_mem {before behind : List (String × Environment.Definition)} {on : String}
    (way : index.Way path name (before ++ (on, definition) :: behind) last) :
    name ∈ before.map (·.1) ++ [on] := by
  cases before with
  | nil =>
    cases way with
    | includes _ _ _ _ => exact List.mem_singleton_self name
  | cons head before =>
    cases way with
    | includes _ _ _ _ => exact List.mem_cons_self

/-- A way that starts at a name that was passed ends there. -/
theorem Way.last_of_mem (way : index.Way path name passed last) (member : name ∈ path) :
    last = name := by
  cases way with
  | again _ => rfl
  | stops fresh _ => exact absurd member fresh
  | includes fresh _ _ _ => exact absurd member fresh

/-- What is passed on a way was not passed before it. -/
theorem Way.fresh_of_mem (way : index.Way path name passed last) {on : String}
    (member : on ∈ passed.map (·.1)) : on ∉ path := by
  induction way with
  | again _ => cases member
  | stops _ _ => cases member
  | includes fresh found included rest ih =>
    rcases List.mem_cons.mp member with rfl | later
    · exact fresh
    · exact fun before => ih later (List.mem_append_left _ before)

/-- A way that does not end at a name it has passed is the same way when other names were passed
before it, if it meets none of them. -/
theorem Way.of_path {others : List String} (way : index.Way path name passed last)
    (ends : last ∉ path ++ passed.map (·.1))
    (apart : ∀ on ∈ passed.map (·.1) ++ [last], on ∉ others) :
    index.Way others name passed last := by
  induction way generalizing others with
  | again member => exact absurd (List.mem_append_left _ member) ends
  | stops _ nothing => exact .stops (apart _ (by simp)) nothing
  | @includes path name definition inclusion passed last fresh found included rest ih =>
    refine .includes (apart _ (by simp)) found included (ih (by simpa using ends) ?_)
    intro on member
    have elsewhere : on ∉ others := apart on (List.mem_cons_of_mem _ member)
    have different : on ≠ name := by
      rintro rfl
      rcases List.mem_append.mp member with before | here
      · exact rest.fresh_of_mem before (by simp)
      · obtain rfl := List.mem_singleton.mp here
        exact ends (by simp)
    simp [elsewhere, different]

/-- **A way that comes to an end does not come back to the definition that it starts from**, under
whatever name. -/
theorem Way.not_mem_of_same {rest : List (String × Environment.Definition)}
    (way : index.Way [] name ((name, definition) :: rest) last)
    (ends : last ∉ name :: rest.map (·.1)) (same : index.definition other = .ok definition) :
    other ∉ rest.map (·.1) ++ [last] := by
  have leads := way.ends.resolve_left ends
  cases way with
  | @includes _ _ _ inclusion _ _ fresh found included onward =>
    intro member
    rcases List.mem_append.mp member with passed | here
    · -- From the second name of the definition the way would go on to where it has been.
      obtain ⟨⟨_, again⟩, there, rfl⟩ := List.mem_map.mp passed
      obtain ⟨before, behind, rfl⟩ := List.append_of_mem there
      obtain ⟨found', inclusion', included', further⟩ := onward.goes_on
      rw [same] at found'
      cases found'
      rw [included] at included'
      cases included'
      have start := onward.start_mem
      obtain rfl := further.last_of_mem
        (List.append_assoc .. ▸ List.mem_append_right _ start)
      refine ends (List.mem_cons_of_mem _ ?_)
      rw [List.map_append, List.map_cons, List.append_cons]
      exact List.mem_append_left _ start
    · obtain rfl := List.mem_singleton.mp here
      rw [leads.2 definition same] at included
      cases included

/-! ## Environments under two names -/

/-- The environment is the same but for its name. -/
theorem laidOn_cons (name other : String) (definition base : Environment.Definition)
    (rest : List (String × Environment.Definition)) :
    laidOn other ((other, definition) :: rest) base =
      { laidOn name ((name, definition) :: rest) base with name := other } := by
  simp [laidOn, Environment.Definition.toEnvironment]

/-- **An environment can be had under every name of its definition**, and it is the same but for the
name. -/
theorem environment_of_same {environment : Environment}
    (found : index.definition name = .ok definition)
    (same : index.definition other = .ok definition)
    (loads : index.environment name = .ok environment) :
    index.environment other = .ok { environment with name := other } := by
  obtain ⟨passed, last, way⟩ := exists_way index [] name
  have gives := way.gives_iff.mpr loads
  cases gives with
  | whole fresh held read bottom distinct =>
    have whole := way
    cases way with
    | again member => cases member
    | stops _ _ =>
      have base := (definition_of_some held).trans read
      rw [found] at base
      cases base
      obtain ⟨entry, there, again⟩ := exists_entry_of_definition same
      have way : index.Way [] other [] other := by
        refine .stops List.not_mem_nil fun definition stands => ?_
        rw [same] at stands
        cases stands
        exact bottom
      have gives : index.Gives other [] other (.ok (laidOn other [] definition)) :=
        .whole List.not_mem_nil there again bottom distinct
      exact gives.environment_eq way
    | @includes _ _ _ _ rest _ start here included onward =>
      rw [found] at here
      cases here
      have apart := whole.not_mem_of_same fresh same
      have way : index.Way [] other ((other, definition) :: rest) last := by
        refine .includes List.not_mem_nil same included (onward.of_path fresh fun on member => ?_)
        rw [List.nil_append, List.mem_singleton]
        rintro rfl
        exact apart member
      have fresh' : last ∉ ((other, definition) :: rest).map (·.1) := by
        rw [List.map_cons, List.mem_cons, not_or]
        refine ⟨?_, fun passed => fresh (List.mem_cons_of_mem _ passed)⟩
        rintro rfl
        exact apart (by simp)
      rw [← laidOn_cons]
      refine (Gives.whole fresh' held read bottom ?_).environment_eq way
      rw [laidOn_cons name]
      exact distinct

/-! ## Asking a repository -/

section Runs

open EnvironmentRepository

/-- What a repository answers in a run is what the index of its catalog makes. -/
theorem eq_environment_of_mem_run {catalog : EnvironmentCatalog} {tree : FileTree}
    {steps : List Step} {given : Except EnvironmentError Environment}
    (current : catalog.current (atFirstRequest tree steps) = .ok index)
    (answered : (.environment name, .environment given) ∈ (of catalog).run tree steps) :
    given = index.environment name := by
  rw [run_of, List.mem_map] at answered
  obtain ⟨request, _, same⟩ := answered
  cases same
  exact EnvironmentCatalog.environment_of_current current name

/-- **Aliases are transparent.** In an index that was made by registering definitions, the
environment under an alias of a definition can be had exactly when the one under its name can, or
the one under any other name that the definition is found under, and both are equal except that each
has the name it is asked for by. This holds wherever their inclusions lead, also if they lead back
to the definition. So it holds of the answers in each run of a repository with this index, in
whatever order the two are asked for. -/
theorem aliases_spec (built : index.Built) (found : index.definition name = .ok definition)
    (listed : other ∈ definition.aliases) :
    ((∃ environment, index.environment other = .ok environment) ↔
      ∃ environment, index.environment name = .ok environment) ∧
    (∀ environment, index.environment name = .ok environment →
      environment.name = name ∧
        index.environment other = .ok { environment with name := other }) ∧
    (∀ (catalog : EnvironmentCatalog) (tree : FileTree) (steps : List Step),
      catalog.current (atFirstRequest tree steps) = .ok index →
      ∀ given second, (.environment name, .environment given) ∈ (of catalog).run tree steps →
        (.environment other, .environment second) ∈ (of catalog).run tree steps →
        ((∃ environment, second = .ok environment) ↔ ∃ environment, given = .ok environment) ∧
        ∀ environment, given = .ok environment →
          second = .ok { environment with name := other }) := by
  have same := built.definition_alias found listed
  have both : (∃ environment, index.environment other = .ok environment) ↔
      ∃ environment, index.environment name = .ok environment := by
    constructor
    · rintro ⟨_, loads⟩
      exact ⟨_, environment_of_same same found loads⟩
    · rintro ⟨_, loads⟩
      exact ⟨_, environment_of_same found same loads⟩
  refine ⟨both, ?_, ?_⟩
  · intro environment loads
    exact ⟨name_of_environment_eq_ok loads, environment_of_same found same loads⟩
  · intro catalog tree steps current given second first behind
    obtain rfl := eq_environment_of_mem_run current first
    obtain rfl := eq_environment_of_mem_run current behind
    exact ⟨both, fun _ loads => environment_of_same found same loads⟩

/-! ## Inclusion by an alias

In the following index `dev`, which has the alias `d`, includes `base` by its alias `b`. -/

/-- The definition of `dev`. -/
def devDefinition : Environment.Definition where
  aliases := ["d"]
  inclusion := some { environment := "b" }
  groups := [{ name := "g", components := ["api:web"] }]

/-- The definition of `base`. -/
def baseDefinition : Environment.Definition where
  aliases := ["b"]
  portOffset := some 100

/-- Both definitions, to be registered. -/
def aliasedItems : List (String × Registered) :=
  [("base", ⟨"<memory:base>", .ok baseDefinition⟩), ("dev", ⟨"<memory:dev>", .ok devDefinition⟩)]

/-- The index that is made of them. -/
def aliased : EnvironmentIndex := ⟨Dictionary.empty.insertAll (postingsOf aliasedItems)⟩

theorem built_aliased : aliased.Built :=
  ⟨aliasedItems, registerAll_eq_ok_iff.mpr ⟨by decide, rfl⟩⟩

theorem loads_aliased :
    aliased.environment "dev" =
      .ok (laidOn "dev" [("dev", devDefinition)] baseDefinition) := by
  have way : aliased.Way [] "dev" [("dev", devDefinition)] "b" := by
    refine .includes List.not_mem_nil rfl rfl (.stops (by decide) ?_)
    intro definition found
    cases found
    rfl
  exact way.gives_iff.mp (.whole (by decide) rfl rfl rfl (by decide))

/-- Requests for `d` and for `dev`. -/
def bothSteps : List Step := [.request (.environment "d"), .request (.environment "dev")]

theorem run_aliased :
    (of (.ofIndex aliased)).run .empty bothSteps =
      [(.environment "d", .environment (aliased.environment "d")),
        (.environment "dev", .environment (aliased.environment "dev"))] := by
  have answered : ∀ asked : String,
      ((EnvironmentCatalog.ofIndex aliased).environments .empty).environment asked =
        aliased.environment asked := EnvironmentCatalog.environment_of_current rfl
  rw [run_of, ← answered, ← answered]
  rfl

/-- Under its alias `dev` is the same environment with another name, also in a run in which the
alias comes first. -/
theorem environment_alias_dev :
    aliased.Built ∧ aliased.definition "dev" = .ok devDefinition ∧ "d" ∈ devDefinition.aliases ∧
      ∃ environment second, environment.portOffset = some 100 ∧
        aliased.environment "dev" = .ok environment ∧ environment.name = "dev" ∧
        aliased.environment "d" = .ok { environment with name := "d" } ∧
        (EnvironmentCatalog.ofIndex aliased).current (atFirstRequest .empty bothSteps) =
          .ok aliased ∧
        (.environment "dev", .environment (.ok environment)) ∈
          (of (.ofIndex aliased)).run .empty bothSteps ∧
        (.environment "d", .environment second) ∈
          (of (.ofIndex aliased)).run .empty bothSteps ∧
        second = .ok { environment with name := "d" } := by
  have found : aliased.definition "dev" = .ok devDefinition := rfl
  have listed : "d" ∈ devDefinition.aliases := by decide
  obtain ⟨_, renamed, inRun⟩ := aliases_spec built_aliased found listed
  obtain ⟨named, loads⟩ := renamed _ loads_aliased
  have first : (.environment "dev", .environment (aliased.environment "dev")) ∈
      (of (.ofIndex aliased)).run .empty bothSteps := by
    rw [run_aliased]
    exact List.mem_cons_of_mem _ List.mem_cons_self
  have second : (.environment "d", .environment (aliased.environment "d")) ∈
      (of (.ofIndex aliased)).run .empty bothSteps := by
    rw [run_aliased]
    exact List.mem_cons_self
  obtain ⟨_, same⟩ := inRun (.ofIndex aliased) .empty bothSteps rfl _ _ first second
  exact ⟨built_aliased, found, listed, _, _, rfl, loads_aliased, named, loads, rfl,
    loads_aliased ▸ first, second, same _ loads_aliased⟩

end Runs

end DeployConfig.EnvironmentIndex
