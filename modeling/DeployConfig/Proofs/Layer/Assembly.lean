import DeployConfig.Layer.Assembly
import Mathlib.Data.List.Induction
import Mathlib.Data.List.Nodup

/-!
# The order of included layers

A walk through layers goes wherever includes lead, and includes may lead back to where the walk has
been. This module says in which order it goes. `Performs` lists what a walk does one task after the
other: a pair of type and environment is expanded into its layers, each with its includes in front
of it, and the entries of a layer are listed. A pair that was started before is skipped, so that
none is loaded twice (`Performs.nodup`).

If the includes lead to finitely many pairs only, whatever circles there are among them, then a walk
comes to an end, because every pair that is expanded leaves fewer to be started
(`exists_performs`). What it has listed by then decides which properties are in force: the last one
for each key (`get?_inForce_iff`). The main result is `assemble_spec`.
-/

set_option autoImplicit false

namespace DeployConfig

/-- The pairs of type and environment that the includes of layers lead to from these pairs are
among them. -/
def Loader.ClosedOn (load : Loader) (pairs : List (String × String)) : Prop :=
  ∀ type environment layers, (type, environment) ∈ pairs → load type environment = .ok layers →
    ∀ layer ∈ layers, ∀ other ∈ layer.includes,
      (other.type, other.environment.getD environment) ∈ pairs

namespace Assembly

variable {load : Loader} {pairs started loaded : List (String × String)}
  {component requested : Component} {environment : String} {layer : Layer} {layers : List Layer}
  {result : Except SupplyError (List Property)} {emitted : List Property}

/-! ## Tasks -/

/-- What is to be done on a walk. -/
inductive Task where
  /-- The layers of a component in an environment are gone through, with what they include. -/
  | expand (component : Component) (environment : String)
  /-- The entries of a layer are listed. -/
  | emit (component : Component) (environment : String) (layer : Layer)

/-- What is to be done for a layer: its includes come first. -/
def tasksOf (component : Component) (environment : String) (layer : Layer) : List Task :=
  layer.includes.map (fun other =>
      .expand (.ofType other.type) (other.environment.getD environment)) ++
    [.emit component environment layer]

/-- What holds of the tasks for each include and for the entries of each layer holds of all tasks of
the layers. -/
theorem forall_mem_tasksOf {holds : Task → Prop}
    (included : ∀ layer ∈ layers, ∀ other ∈ layer.includes,
      holds (.expand (.ofType other.type) (other.environment.getD environment)))
    (listed : ∀ layer ∈ layers, holds (.emit component environment layer)) :
    ∀ task ∈ layers.flatMap (tasksOf component environment), holds task := by
  intro task among
  obtain ⟨layer, held, made⟩ := List.mem_flatMap.mp among
  rcases List.mem_append.mp made with fromInclude | fromEntries
  · obtain ⟨other, member, rfl⟩ := List.mem_map.mp fromInclude
    exact included layer held other member
  · rw [List.mem_singleton.mp fromEntries]
    exact listed layer held

/-- What a walk does about tasks when it has started some pairs before: the pairs whose layers it
loads, in order, and the properties that it lists, or the error that stops it. -/
inductive Performs (load : Loader) : List Task → List (String × String) →
    List (String × String) → Except SupplyError (List Property) → Prop where
  | done {started : List (String × String)} : Performs load [] started [] (.ok [])
  /-- A pair that was started is not expanded again. -/
  | skip {component : Component} {environment : String} {tasks : List Task}
      {started loaded : List (String × String)} {result : Except SupplyError (List Property)}
      (again : (component.type, environment) ∈ started)
      (rest : Performs load tasks started loaded result) :
      Performs load (.expand component environment :: tasks) started loaded result
  /-- A pair that cannot be loaded ends the walk. -/
  | fail {component : Component} {environment : String} {tasks : List Task}
      {started : List (String × String)} {error : SupplyError}
      (fresh : (component.type, environment) ∉ started)
      (fails : load component.type environment = .error error) :
      Performs load (.expand component environment :: tasks) started
        [(component.type, environment)] (.error error)
  /-- Any other pair is started, and its layers come before what is left to be done. -/
  | expand {component : Component} {environment : String} {tasks : List Task}
      {started loaded : List (String × String)} {layers : List Layer}
      {result : Except SupplyError (List Property)}
      (fresh : (component.type, environment) ∉ started)
      (loads : load component.type environment = .ok layers)
      (rest : Performs load (layers.flatMap (tasksOf component environment) ++ tasks)
        (started ++ [(component.type, environment)]) loaded result) :
      Performs load (.expand component environment :: tasks) started
        ((component.type, environment) :: loaded) result
  /-- The entries of a layer come before what is listed later. -/
  | emit {component : Component} {environment : String} {layer : Layer} {tasks : List Task}
      {started loaded : List (String × String)} {result : Except SupplyError (List Property)}
      (rest : Performs load tasks started loaded result) :
      Performs load (.emit component environment layer :: tasks) started loaded
        (result.map (layer.entries.map (layer.property component environment) ++ ·))

variable {tasks : List Task}

/-- Tasks are performed in one way only. -/
theorem Performs.unique {others : List (String × String)}
    {other : Except SupplyError (List Property)}
    (performs : Performs load tasks started loaded result)
    (again : Performs load tasks started others other) : others = loaded ∧ other = result := by
  induction performs generalizing others other with
  | done =>
    cases again
    exact ⟨rfl, rfl⟩
  | skip member rest ih =>
    cases again with
    | skip _ rest' => exact ih rest'
    | fail fresh _ => exact absurd member fresh
    | expand fresh _ _ => exact absurd member fresh
  | fail fresh fails =>
    cases again with
    | skip member _ => exact absurd member fresh
    | fail _ fails' =>
      rw [fails] at fails'
      cases fails'
      exact ⟨rfl, rfl⟩
    | expand _ loads _ =>
      rw [fails] at loads
      cases loads
  | expand fresh loads rest ih =>
    cases again with
    | skip member _ => exact absurd member fresh
    | fail _ fails =>
      rw [loads] at fails
      cases fails
    | expand _ loads' rest' =>
      rw [loads] at loads'
      cases loads'
      obtain ⟨rfl, rfl⟩ := ih rest'
      exact ⟨rfl, rfl⟩
  | emit rest ih =>
    cases again with
    | emit rest' =>
      obtain ⟨rfl, rfl⟩ := ih rest'
      exact ⟨rfl, rfl⟩

/-! ## The walk performs its tasks -/

/-- Does one task on a walk. -/
def perform (load : Loader) (sofar : Walk) : Task → ExceptT SupplyError Option Walk
  | .expand component environment => walk load component environment sofar
  | .emit component environment layer =>
    pure { sofar with
      met := sofar.met ++ layer.entries.map (layer.property component environment) }

/-- The layers of a pair are gone through task by task. -/
theorem walk_eq (load : Loader) (component : Component) (environment : String) (sofar : Walk) :
    walk load component environment sofar =
      if (component.type, environment) ∈ sofar.started then pure sofar
      else ExceptT.mk (some (load component.type environment)) >>= fun layers =>
        (layers.flatMap (tasksOf component environment)).foldlM (perform load)
          { sofar with started := sofar.started ++ [(component.type, environment)] } := by
  have inOrder (layers : List Layer) (sofar : Walk) :
      (layers.flatMap (tasksOf component environment)).foldlM (perform load) sofar =
        layers.foldlM (fun sofar layer => do
          let sofar ← layer.includes.foldlM (fun sofar other =>
            walk load (.ofType other.type) (other.environment.getD environment) sofar) sofar
          return { sofar with
            met := sofar.met ++ layer.entries.map (layer.property component environment) })
          sofar := by
    induction layers generalizing sofar with
    | nil => rfl
    | cons layer rest ih =>
      rw [List.flatMap_cons, List.foldlM_append, List.foldlM_cons, tasksOf, List.foldlM_append]
      simp only [List.foldlM_map, ih]
      rfl
  simp only [inOrder]
  rw [walk, Walk.onward]
  simp only [List.contains_iff_mem, walk]

/-- **A walk does what its tasks perform.** -/
theorem Performs.foldlM (performs : Performs load tasks started loaded result)
    (met : List Property) :
    tasks.foldlM (perform load) ⟨started, met⟩ =
      ExceptT.mk (some (result.map fun emitted => ⟨started ++ loaded, met ++ emitted⟩)) := by
  induction performs generalizing met with
  | done =>
    simp only [List.foldlM_nil, Except.map, List.append_nil]
    rfl
  | skip again rest ih =>
    rw [List.foldlM_cons, perform, walk_eq, if_pos again, pure_bind]
    exact ih met
  | fail fresh fails =>
    rw [List.foldlM_cons, perform, walk_eq, if_neg fresh, fails]
    rfl
  | @expand component environment tasks started loaded layers result fresh loads rest ih =>
    rw [List.foldlM_cons, perform, walk_eq, if_neg fresh, loads]
    have entered := ih met
    rw [List.foldlM_append] at entered
    simp only [List.append_assoc, List.cons_append, List.nil_append] at entered
    exact entered
  | @emit component environment layer tasks started loaded result rest ih =>
    rw [List.foldlM_cons, perform, pure_bind, ih]
    cases result with
    | error error => rfl
    | ok emitted => simp only [Except.map, List.append_assoc]

/-- A whole walk starts the pairs that are loaded, in this order. -/
theorem Performs.walk (performs : Performs load [.expand component environment] [] loaded result) :
    walk load component environment ⟨[], []⟩ =
      ExceptT.mk (some (result.map fun emitted => ⟨loaded, emitted⟩)) := by
  have walked := performs.foldlM []
  rw [List.foldlM_cons] at walked
  simpa only [List.foldlM_nil, bind_pure, List.nil_append, perform] using walked

/-- What is in force is what has been listed by the end of the walk. -/
theorem Performs.assemble
    (performs : Performs load [.expand component environment] [] loaded result) :
    assemble load component environment = ExceptT.mk (some (result.map inForce)) := by
  rw [Assembly.assemble, performs.walk]
  cases result with
  | error error => rfl
  | ok emitted => rfl

/-- A walk that comes to an end is not refused. -/
theorem Performs.assembled
    (performs : Performs load [.expand component environment] [] loaded result) :
    assembled load component environment = result.map inForce := by
  rw [Assembly.assembled, performs.assemble]
  rfl

/-! ## Every walk among finitely many pairs comes to an end -/

/-- The pairs that have not been started. -/
def unstarted (pairs started : List (String × String)) : List (String × String) :=
  pairs.filter (· ∉ started)

/-- Starting a pair leaves fewer. -/
theorem length_unstarted_lt {pair : String × String} (known : pair ∈ pairs)
    (fresh : pair ∉ started) :
    (unstarted pairs (started ++ [pair])).length < (unstarted pairs started).length := by
  have narrowed : unstarted pairs (started ++ [pair]) =
      (unstarted pairs started).filter (· ≠ pair) := by
    simp only [unstarted, List.filter_filter, List.mem_append, List.mem_singleton, not_or,
      Bool.decide_and, Bool.and_comm]
  have member : pair ∈ unstarted pairs started := by
    simp [unstarted, known, fresh]
  rw [narrowed]
  exact List.length_filter_lt_length_iff_exists.mpr ⟨pair, member, by simp⟩

/-- Whether a task stays among pairs. -/
def Task.Within (pairs : List (String × String)) : Task → Prop
  | .expand component environment => (component.type, environment) ∈ pairs
  | .emit _ _ _ => True

/-- The tasks of the layers of a pair stay where the pair is. -/
theorem within_of_layers (closed : load.ClosedOn pairs)
    (member : (component.type, environment) ∈ pairs)
    (loads : load component.type environment = .ok layers) :
    ∀ task ∈ layers.flatMap (tasksOf component environment), task.Within pairs :=
  forall_mem_tasksOf (closed component.type environment layers member loads)
    fun _ _ => trivial

/-- **Tasks among finitely many pairs are performed.** The induction is on the pairs that are left
to be started, and for each number of them on the tasks. -/
theorem exists_performs (closed : load.ClosedOn pairs) (tasks : List Task)
    (started : List (String × String)) (within : ∀ task ∈ tasks, task.Within pairs) :
    ∃ loaded result, Performs load tasks started loaded result := by
  induction left : (unstarted pairs started).length using Nat.strongRecOn
    generalizing tasks started with
  | _ left fewer =>
    induction tasks with
    | nil => exact ⟨[], .ok [], .done⟩
    | cons task rest ih =>
      obtain ⟨here, behind⟩ := List.forall_mem_cons.mp within
      cases task with
      | emit component environment layer =>
        obtain ⟨loaded, result, performs⟩ := ih behind
        exact ⟨loaded, _, performs.emit⟩
      | expand component environment =>
        by_cases again : (component.type, environment) ∈ started
        · obtain ⟨loaded, result, performs⟩ := ih behind
          exact ⟨loaded, result, performs.skip again⟩
        · cases loads : load component.type environment with
          | error error => exact ⟨_, _, .fail again loads⟩
          | ok layers =>
            subst left
            obtain ⟨loaded, result, performs⟩ := fewer _ (length_unstarted_lt here again)
              (layers.flatMap (tasksOf component environment) ++ rest) _
              (List.forall_mem_append.mpr ⟨within_of_layers closed here loads, behind⟩) rfl
            exact ⟨_, result, .expand again loads performs⟩

/-! ## What is loaded -/

/-- **No pair is loaded twice**, and none that was started before. -/
theorem Performs.nodup (performs : Performs load tasks started loaded result) :
    loaded.Nodup ∧ ∀ pair ∈ loaded, pair ∉ started := by
  induction performs with
  | done => exact ⟨List.nodup_nil, List.forall_mem_nil _⟩
  | skip again rest ih => exact ih
  | emit rest ih => exact ih
  | fail fresh fails =>
    refine ⟨List.nodup_singleton _, ?_⟩
    intro pair member
    rw [List.mem_singleton.mp member]
    exact fresh
  | expand fresh loads rest ih =>
    obtain ⟨nodup, later⟩ := ih
    refine ⟨List.nodup_cons.mpr ⟨?_, nodup⟩, ?_⟩
    · intro again
      exact later _ again (List.mem_append_right _ (List.mem_singleton_self _))
    · intro pair member
      rcases List.mem_cons.mp member with rfl | behind
      · exact fresh
      · intro before
        exact later pair behind (List.mem_append_left _ before)

/-- Only pairs that includes lead to are loaded. -/
theorem Performs.mem_pairs (performs : Performs load tasks started loaded result)
    (closed : load.ClosedOn pairs) (within : ∀ task ∈ tasks, task.Within pairs) :
    ∀ pair ∈ loaded, pair ∈ pairs := by
  induction performs with
  | done => exact List.forall_mem_nil _
  | skip again rest ih => exact ih (List.forall_mem_cons.mp within).2
  | emit rest ih => exact ih (List.forall_mem_cons.mp within).2
  | fail fresh fails =>
    intro pair member
    rw [List.mem_singleton.mp member]
    exact (List.forall_mem_cons.mp within).1
  | expand fresh loads rest ih =>
    obtain ⟨here, behind⟩ := List.forall_mem_cons.mp within
    intro pair member
    rcases List.mem_cons.mp member with rfl | later
    · exact here
    · exact ih (List.forall_mem_append.mpr ⟨within_of_layers closed here loads, behind⟩) pair later

/-- Nothing hangs on pairs that are not loaded. -/
theorem Performs.of_agree {other : Loader} (performs : Performs load tasks started loaded result)
    (agree : ∀ pair ∈ loaded, other pair.1 pair.2 = load pair.1 pair.2) :
    Performs other tasks started loaded result := by
  induction performs with
  | done => exact .done
  | skip again rest ih => exact .skip again (ih agree)
  | emit rest ih => exact .emit (ih agree)
  | fail fresh fails =>
    refine .fail fresh ?_
    rw [← fails]
    exact agree _ (List.mem_singleton_self _)
  | expand fresh loads rest ih =>
    obtain ⟨here, behind⟩ := List.forall_mem_cons.mp agree
    exact .expand fresh (here.trans loads) (ih behind)

/-! ## Who declares what is listed -/

/-- The component that the layers of a pair are read for: the requested one for the pair that a walk
starts with, and the whole type for any other pair. -/
def readFor (requested : Component) (environment : String) (pair : String × String) : Component :=
  if pair = (requested.type, environment) then requested else .ofType pair.1

/-- An entry of a layer of a pair declares a property: it has the key, the value and the mark of the
entry, the environment of the pair, and the component that the pair is read for. -/
def Declares (load : Loader) (requested : Component) (environment : String)
    (pair : String × String) (property : Property) : Prop :=
  ∃ layers layer entry, load pair.1 pair.2 = .ok layers ∧ layer ∈ layers ∧ entry ∈ layer.entries ∧
    property.key = entry.key ∧ property.value = entry.value ∧
    property.transient = entry.transient ∧ property.environment = pair.2 ∧
    property.component = readFor requested environment pair

theorem component_property (layer : Layer) (component : Component) (environment : String)
    (entry : Layer.Entry) : (layer.property component environment entry).component = component := by
  rw [Layer.property, Property.component]
  cases layer.origin <;> rfl

/-- Whether a task reads the layers of its pair for the right component. A pair that was started is
not read again. -/
def Task.Sound (load : Loader) (requested : Component) (environment : String)
    (started : List (String × String)) : Task → Prop
  | .expand component inner => (component.type, inner) ∈ started ∨
      component = readFor requested environment (component.type, inner)
  | .emit component inner layer => (component.type, inner) ∈ started ∧
      component = readFor requested environment (component.type, inner) ∧
      ∃ layers, load component.type inner = .ok layers ∧ layer ∈ layers

theorem Task.Sound.mono {more : List (String × String)} {task : Task}
    (sound : task.Sound load requested environment started) (subset : started ⊆ more) :
    task.Sound load requested environment more := by
  cases task with
  | expand component inner => exact sound.imp_left fun member => subset member
  | emit component inner layer =>
    obtain ⟨member, right⟩ := sound
    exact ⟨subset member, right⟩

/-- The tasks of the layers of a pair are sound when the walk is on its way. -/
theorem sound_of_layers {inner : String}
    (begun : (requested.type, environment) ∈ started) (member : (component.type, inner) ∈ started)
    (same : component = readFor requested environment (component.type, inner))
    (loads : load component.type inner = .ok layers) :
    ∀ task ∈ layers.flatMap (tasksOf component inner),
      task.Sound load requested environment started := by
  apply forall_mem_tasksOf
  · intro layer held other listed
    by_cases back : (other.type, other.environment.getD inner) = (requested.type, environment)
    · left
      show (other.type, other.environment.getD inner) ∈ started
      rw [back]
      exact begun
    · right
      exact (if_neg back).symm
  · intro layer held
    exact ⟨member, same, layers, loads, held⟩

/-- Every property that is listed is declared by a layer of a pair that was started. -/
theorem Performs.declares (performs : Performs load tasks started loaded (.ok emitted))
    (begun : (requested.type, environment) ∈ started)
    (sound : ∀ task ∈ tasks, task.Sound load requested environment started) :
    ∀ property ∈ emitted, ∃ pair ∈ started ++ loaded,
      Declares load requested environment pair property := by
  generalize ends : Except.ok emitted = result at performs
  induction performs generalizing emitted with
  | done =>
    cases ends
    exact List.forall_mem_nil _
  | skip again rest ih => exact ih begun (List.forall_mem_cons.mp sound).2 ends
  | fail fresh fails => cases ends
  | @expand component inner tasks started loaded layers result fresh loads rest ih =>
    obtain ⟨here, behind⟩ := List.forall_mem_cons.mp sound
    have subset : started ⊆ started ++ [(component.type, inner)] :=
      List.subset_append_left _ _
    have nested := ih (subset begun) (List.forall_mem_append.mpr
      ⟨sound_of_layers (subset begun) (List.mem_append_right _ (List.mem_singleton_self _))
        (here.resolve_left fresh) loads, fun task among => (behind task among).mono subset⟩) ends
    simpa only [List.append_assoc, List.cons_append, List.nil_append] using nested
  | @emit component inner layer tasks started loaded result rest ih =>
    obtain ⟨⟨member, same, layers, loads, held⟩, behind⟩ := List.forall_mem_cons.mp sound
    cases result with
    | error error => cases ends
    | ok later =>
      cases ends
      intro property listed
      rcases List.mem_append.mp listed with here | there
      · obtain ⟨entry, inLayer, rfl⟩ := List.mem_map.mp here
        have declarer := (component_property layer component inner entry).trans same
        exact ⟨(component.type, inner), List.mem_append_left _ member,
          layers, layer, entry, loads, held, inLayer, rfl, rfl, rfl, rfl, declarer⟩
      · exact ih begun behind rfl property there

/-! ## What is in force -/

/-- The last of several properties for a key. -/
def LastFor (key : String) (property : Property) (emitted : List Property) : Prop :=
  ∃ earlier later, emitted = earlier ++ property :: later ∧ property.key = key ∧
    ∀ other ∈ later, other.key ≠ key

variable {key : String} {property : Property}

/-- What is last for a key stays so behind other properties. -/
theorem LastFor.behind (last : LastFor key property emitted) (front : List Property) :
    LastFor key property (front ++ emitted) := by
  obtain ⟨earlier, later, rfl, named, others⟩ := last
  exact ⟨front ++ earlier, later, (List.append_assoc _ _ _).symm, named, others⟩

theorem lastFor_concat_iff (front : List Property) (final : Property) :
    LastFor key property (front ++ [final]) ↔
      (final.key = key ∧ property = final) ∨ (final.key ≠ key ∧ LastFor key property front) := by
  constructor
  · rintro ⟨earlier, later, split, named, others⟩
    rcases List.eq_nil_or_concat later with rfl | ⟨before, last, rfl⟩
    · obtain ⟨rfl, same⟩ := List.append_inj' split rfl
      cases same
      exact .inl ⟨named, rfl⟩
    · rw [List.concat_eq_append, ← List.cons_append, ← List.append_assoc] at split
      obtain ⟨rfl, same⟩ := List.append_inj' split rfl
      cases same
      rw [List.concat_eq_append] at others
      obtain ⟨among, alone⟩ := List.forall_mem_append.mp others
      exact .inr ⟨alone final (List.mem_singleton_self _), earlier, before, rfl, named, among⟩
  · rintro (⟨named, rfl⟩ | ⟨other, earlier, later, rfl, named, others⟩)
    · exact ⟨front, [], rfl, named, List.forall_mem_nil _⟩
    · refine ⟨earlier, later ++ [final], ?_, named, ?_⟩
      · rw [List.append_assoc, List.cons_append]
      · exact List.forall_mem_append.mpr ⟨others, List.forall_mem_singleton.mpr other⟩

theorem get?_inForce (emitted : List Property) (key : String) :
    (inForce emitted).get? key = emitted.reverse.find? (·.key = key) := by
  rw [inForce, Dictionary.get?_ofList, ← List.map_reverse]
  induction emitted.reverse with
  | nil => rfl
  | cons property rest ih =>
    rw [List.map_cons, Dictionary.lookup_cons, List.find?_cons, ih]
    by_cases named : property.key = key
    · simp [named]
    · simp [named, Ne.symm named]

/-- **The last property for a key is in force.** -/
theorem get?_inForce_iff :
    (inForce emitted).get? key = some property ↔ LastFor key property emitted := by
  rw [inForce, Dictionary.get?_ofList]
  induction emitted using List.reverseRecOn with
  | nil =>
    constructor
    · exact nofun
    · rintro ⟨earlier, later, nothing, _⟩
      exact absurd nothing (by simp)
  | append_singleton front final ih =>
    rw [List.map_append, List.reverse_append, List.map_singleton, List.reverse_singleton,
      List.singleton_append, Dictionary.lookup_cons, lastFor_concat_iff]
    by_cases named : key = final.key
    · simp [named, eq_comm]
    · simp [named, ih, Ne.symm named]

/-- What the last task lists comes last. -/
theorem Performs.exists_append {front : List Task}
    (performs : Performs load (front ++ [.emit component environment layer]) started loaded
      (.ok emitted)) :
    ∃ earlier, emitted = earlier ++ layer.entries.map (layer.property component environment) := by
  generalize all : front ++ [Task.emit component environment layer] = tasks at performs
  generalize ends : Except.ok emitted = result at performs
  induction performs generalizing front emitted with
  | done => exact absurd all (by simp)
  | fail fresh fails => cases ends
  | skip again rest ih =>
    cases front with
    | nil => cases all
    | cons task front =>
      cases all
      exact ih rfl ends
  | @expand inner inEnvironment tasks started loaded layers result fresh loads rest ih =>
    cases front with
    | nil => cases all
    | cons task front =>
      cases all
      exact ih (List.append_assoc _ _ _) ends
  | @emit inner inEnvironment other tasks started loaded result rest ih =>
    cases front with
    | nil =>
      cases all
      cases rest
      cases ends
      exact ⟨[], (List.append_nil _).trans (List.nil_append _).symm⟩
    | cons task front =>
      cases all
      cases result with
      | error error => cases ends
      | ok later =>
        cases ends
        obtain ⟨earlier, rfl⟩ := ih rfl rfl
        exact ⟨_, (List.append_assoc _ _ _).symm⟩

/-- A walk fails only because a pair cannot be loaded. -/
theorem Performs.exists_of_error {error : SupplyError}
    (performs : Performs load tasks started loaded (.error error)) :
    ∃ pair ∈ loaded, load pair.1 pair.2 = .error error := by
  generalize ends : Except.error error = result at performs
  induction performs with
  | done => cases ends
  | skip again rest ih => exact ih ends
  | fail fresh fails =>
    cases ends
    exact ⟨_, List.mem_singleton_self _, fails⟩
  | expand fresh loads rest ih =>
    obtain ⟨pair, member, fails⟩ := ih ends
    exact ⟨pair, List.mem_cons_of_mem _ member, fails⟩
  | @emit inner inEnvironment other tasks started loaded result rest ih =>
    cases result with
    | error error =>
      cases ends
      exact ih rfl
    | ok later => cases ends

/-! ## The properties of a component -/

/-- The first thing that a walk does is to load the pair it starts with. -/
theorem Performs.of_start
    (performs : Performs load [.expand component environment] [] loaded (.ok emitted)) :
    ∃ layers later, load component.type environment = .ok layers ∧
      loaded = (component.type, environment) :: later ∧
      Performs load (layers.flatMap (tasksOf component environment))
        [(component.type, environment)] later (.ok emitted) := by
  cases performs with
  | skip again rest => cases again
  | expand fresh loads rest =>
    rw [List.append_nil] at rest
    exact ⟨_, _, loads, rfl, rest⟩

/-- **The properties of a component follow the order of included layers, also when includes lead in
circles.** The pairs that the includes of a component lead to are among `pairs`. Then the walk is
performed in one way, and comes to this end; what is in force of its properties is the result of
`assemble`.

* No pair is loaded twice, only pairs that includes lead to are loaded, and nothing hangs on what a
  loader has for other pairs.
* The walk fails only because a pair cannot be loaded.
* Otherwise the property for each key is the last one that is listed for it.
* Each property that is listed is declared by an entry of a layer of a pair that is loaded: for the
  requested component when it is the pair that the walk starts with, and else for the whole type.
* What the last layer of the start says about a key is in force, whatever is included. -/
theorem assemble_spec (closed : load.ClosedOn pairs)
    (start : (component.type, environment) ∈ pairs) :
    ∃ loaded result,
      (∀ others ends, Performs load [.expand component environment] [] others ends ↔
        others = loaded ∧ ends = result) ∧
      walk load component environment ⟨[], []⟩ =
        ExceptT.mk (some (result.map fun emitted => ⟨loaded, emitted⟩)) ∧
      assemble load component environment = ExceptT.mk (some (result.map inForce)) ∧
      loaded.Nodup ∧ (∀ pair ∈ loaded, pair ∈ pairs) ∧
      (∀ other : Loader, (∀ pair ∈ loaded, other pair.1 pair.2 = load pair.1 pair.2) →
        assemble other component environment = assemble load component environment) ∧
      (∀ error, result = .error error → ∃ pair ∈ loaded, load pair.1 pair.2 = .error error) ∧
      ∀ emitted, result = .ok emitted →
        (∀ key property,
          (inForce emitted).get? key = some property ↔ LastFor key property emitted) ∧
        (∀ property ∈ emitted, ∃ pair ∈ loaded,
          Declares load component environment pair property) ∧
        ∀ layers last, load component.type environment = .ok (layers ++ [last]) →
          ∀ key property,
            LastFor key property (last.entries.map (last.property component environment)) →
            (inForce emitted).get? key = some property := by
  have within : ∀ task ∈ [Task.expand component environment], task.Within pairs :=
    List.forall_mem_singleton.mpr start
  obtain ⟨loaded, result, performs⟩ := exists_performs closed _ [] within
  refine ⟨loaded, result, ?_, performs.walk, performs.assemble, performs.nodup.1,
    performs.mem_pairs closed within, ?_, ?_, ?_⟩
  · intro others ends
    constructor
    · exact performs.unique
    · rintro ⟨rfl, rfl⟩
      exact performs
  · intro other agree
    rw [performs.assemble, (performs.of_agree agree).assemble]
  · rintro error rfl
    exact performs.exists_of_error
  · rintro emitted rfl
    obtain ⟨layers, later, loads, rfl, rest⟩ := performs.of_start
    have begun : (component.type, environment) ∈ [(component.type, environment)] :=
      List.mem_singleton_self _
    refine ⟨fun _ _ => get?_inForce_iff, ?_, ?_⟩
    · exact rest.declares begun (sound_of_layers begun begun (if_pos rfl).symm loads)
    · intro before last ending key property final
      rw [ending] at loads
      cases loads
      have listsLast : ∃ front, (before ++ [last]).flatMap (tasksOf component environment) =
          front ++ [.emit component environment last] := by
        rw [List.flatMap_append, List.flatMap_singleton, tasksOf, ← List.append_assoc]
        exact ⟨_, rfl⟩
      obtain ⟨front, split⟩ := listsLast
      rw [split] at rest
      obtain ⟨earlier, rfl⟩ := rest.exists_append
      exact get?_inForce_iff.mpr (final.behind earlier)

/-! ## Includes in a circle

In the following layers `api` includes `commons`, which includes `api` again and `kafka` in an
environment of its own, and `kafka` includes `commons` there. -/

/-- Layers that include each other. -/
def circle : Loader := fun type _ =>
  .ok (match type with
    | "api" => [⟨none, [⟨"commons", none⟩], [⟨"port", "80", false⟩, ⟨"name", "api", false⟩]⟩]
    | "commons" => [⟨none, [⟨"api", none⟩, ⟨"kafka", some "prod"⟩],
        [⟨"name", "commons", false⟩, ⟨"level", "info", true⟩]⟩]
    | "kafka" => [⟨none, [⟨"commons", none⟩], [⟨"level", "warn", false⟩]⟩]
    | _ => [])

/-- A component with these layers. -/
def circleStart : Component := ⟨"api-1", "api"⟩

/-- The pairs that its includes lead to, in the order in which they are loaded. -/
def circlePairs : List (String × String) :=
  [("api", "dev"), ("commons", "dev"), ("kafka", "prod"), ("commons", "prod"), ("api", "prod")]

theorem closedOn_circlePairs : circle.ClosedOn circlePairs := by
  intro type environment layers member loads
  simp only [circlePairs, List.mem_cons, List.not_mem_nil, or_false, Prod.mk.injEq] at member
  rcases member with ⟨rfl, rfl⟩ | ⟨rfl, rfl⟩ | ⟨rfl, rfl⟩ | ⟨rfl, rfl⟩ | ⟨rfl, rfl⟩ <;>
    cases loads <;> decide

/-- The walk through these layers comes to an end, and the component keeps its own name. -/
theorem assemble_circle :
    circle.ClosedOn circlePairs ∧ (circleStart.type, "dev") ∈ circlePairs ∧
      ∃ properties, assemble circle circleStart "dev" = ExceptT.mk (some (.ok properties)) ∧
        properties.get? "name" =
          some ⟨"name", "api", "dev", false, .special circleStart "memory"⟩ := by
  have start : (circleStart.type, "dev") ∈ circlePairs := List.mem_cons_self
  obtain ⟨loaded, result, _, _, found, _, _, _, fails, lists⟩ :=
    assemble_spec closedOn_circlePairs start
  refine ⟨closedOn_circlePairs, start, ?_⟩
  cases result with
  | error error =>
    obtain ⟨_, _, failing⟩ := fails error rfl
    cases failing
  | ok emitted =>
    refine ⟨inForce emitted, found, ?_⟩
    exact (lists emitted rfl).2.2 [] _ rfl "name" _ ⟨[_], [], rfl, rfl, List.forall_mem_nil _⟩

example : (walk circle circleStart "dev" ⟨[], []⟩).run.map (·.map Walk.started) =
    some (.ok circlePairs) := by
  cbv

end Assembly

end DeployConfig
