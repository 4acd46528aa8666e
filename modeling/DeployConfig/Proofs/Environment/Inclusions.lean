import DeployConfig.Environment.Index
import DeployConfig.Proofs.Environment.Names

/-!
# Where inclusions lead

An environment is made from the definitions on the way that starts at its name and goes on to the
environment that each definition includes. The names may be aliases, may include each other in
circles, and may be those of definitions that could not be read. `Way` says how far the way goes: up
to the first name that was passed before, or else up to a name that leads nowhere. From every name
there is exactly one way (`exists_way`, `Way.unique`), because every name that is passed leaves
fewer names of the index to be passed.

What comes of the environment is decided by the end of the way, and `Gives` has one rule for each
end. The layers are laid on each other from the end of the way up to its start, although the way is
followed from its start (`merge_append_singleton`). The main result is `environment_spec`.
-/

set_option autoImplicit false

namespace DeployConfig

namespace EnvironmentIndex

variable {index other : EnvironmentIndex} {path : List String} {name last : String}
  {passed : List (String × Environment.Definition)}

/-! ## The way along the inclusions -/

/-- The way that inclusions lead from a name when the names of `path` have been passed: the names
that are passed on it, with their definitions, and the name at which it ends. -/
inductive Way (index : EnvironmentIndex) :
    List String → String → List (String × Environment.Definition) → String → Prop where
  /-- A name that has been passed is not passed again. -/
  | again {path : List String} {name : String} (member : name ∈ path) :
      Way index path name [] name
  /-- A name without a definition leads nowhere, and neither does one whose definition includes
  nothing. -/
  | stops {path : List String} {name : String} (fresh : name ∉ path)
      (nothing : ∀ definition, index.definition name = .ok definition →
        definition.inclusion = none) :
      Way index path name [] name
  /-- Any other name leads to the environment that its definition includes. -/
  | includes {path : List String} {name : String} {definition : Environment.Definition}
      {inclusion : Environment.Inclusion} {passed : List (String × Environment.Definition)}
      {last : String} (fresh : name ∉ path) (found : index.definition name = .ok definition)
      (included : definition.inclusion = some inclusion)
      (rest : Way index (path ++ [name]) inclusion.environment passed last) :
      Way index path name ((name, definition) :: passed) last

/-- Inclusions lead in one way only. -/
theorem Way.unique {others : List (String × Environment.Definition)} {target : String}
    (way : index.Way path name passed last) (again : index.Way path name others target) :
    others = passed ∧ target = last := by
  induction way generalizing others target with
  | again member =>
    cases again with
    | again _ => exact ⟨rfl, rfl⟩
    | stops _ _ => exact ⟨rfl, rfl⟩
    | includes fresh _ _ _ => exact absurd member fresh
  | stops fresh nothing =>
    cases again with
    | again _ => exact ⟨rfl, rfl⟩
    | stops _ _ => exact ⟨rfl, rfl⟩
    | includes _ found included _ =>
      rw [nothing _ found] at included
      cases included
  | includes fresh found included rest ih =>
    cases again with
    | again member => exact absurd member fresh
    | stops _ nothing =>
      rw [nothing _ found] at included
      cases included
    | includes _ found' included' rest' =>
      rw [found] at found'
      cases found'
      rw [included] at included'
      cases included'
      obtain ⟨rfl, rfl⟩ := ih rest'
      exact ⟨rfl, rfl⟩

/-- Inclusions lead somewhere from every name. The induction is on the names that are not yet
passed. -/
theorem exists_way (index : EnvironmentIndex) (path : List String) (name : String) :
    ∃ passed last, index.Way path name passed last := by
  by_cases member : name ∈ path
  · exact ⟨[], name, .again member⟩
  cases found : index.definition name with
  | error error => exact ⟨[], name, .stops member (by simp [found])⟩
  | ok definition =>
    cases included : definition.inclusion with
    | none => exact ⟨[], name, .stops member (by simpa [found] using included)⟩
    | some inclusion =>
      have fewer := length_unvisited_lt (mem_names_of_definition found) member
      obtain ⟨passed, last, rest⟩ := exists_way index (path ++ [name]) inclusion.environment
      exact ⟨(name, definition) :: passed, last, .includes member found included rest⟩
  termination_by (index.unvisited path).length

/-- No name is passed twice. -/
theorem Way.nodup (way : index.Way path name passed last) (distinct : path.Nodup) :
    (path ++ passed.map (·.1)).Nodup := by
  induction way with
  | again member => simpa using distinct
  | stops fresh nothing => simpa using distinct
  | @includes path name definition inclusion passed last fresh found included rest ih =>
    have longer : (path ++ [name]).Nodup := by
      rw [← List.concat_eq_append]
      exact (List.nodup_concat path name).mpr ⟨fresh, distinct⟩
    simpa using ih longer

/-- A way ends at a name that was passed before, or at one that leads nowhere. -/
theorem Way.ends (way : index.Way path name passed last) :
    last ∈ path ++ passed.map (·.1) ∨
      last ∉ path ++ passed.map (·.1) ∧
        ∀ definition, index.definition last = .ok definition → definition.inclusion = none := by
  induction way with
  | again member => exact .inl (by simpa using member)
  | stops fresh nothing => exact .inr ⟨by simpa using fresh, nothing⟩
  | includes fresh found included rest ih => simpa using ih

/-- Nothing but the definitions of the names on a way decides where it leads. -/
theorem Way.of_agree (way : index.Way path name passed last)
    (agree : ∀ on ∈ passed.map (·.1) ++ [last], other.definition on = index.definition on) :
    other.Way path name passed last := by
  induction way with
  | again member => exact .again member
  | stops fresh nothing =>
    refine .stops fresh ?_
    rw [agree _ (by simp)]
    exact nothing
  | includes fresh found included rest ih =>
    refine .includes fresh ?_ included (ih ?_)
    · rw [agree _ (by simp)]
      exact found
    · intro on member
      exact agree on (List.mem_cons_of_mem _ member)

/-! ## The chain of definitions -/

theorem chain_of_mem (index : EnvironmentIndex) (member : name ∈ path) :
    index.chain path name = .error (.includeCycle (path ++ [name])) := by
  rw [chain, dif_pos member]

theorem chain_of_error {error : EnvironmentError} (fresh : name ∉ path)
    (fails : index.definition name = .error error) : index.chain path name = .error error := by
  rw [chain, dif_neg fresh]
  split
  · next found =>
    rw [fails] at found
    cases found
    rfl
  · next found =>
    rw [fails] at found
    cases found

theorem chain_of_ok {definition : Environment.Definition} (fresh : name ∉ path)
    (found : index.definition name = .ok definition) :
    index.chain path name =
      match definition.inclusion with
      | none => .ok [definition]
      | some inclusion =>
        (index.chain (path ++ [name]) inclusion.environment).map (definition :: ·) := by
  rw [chain, dif_neg fresh]
  split
  · next found' =>
    rw [found] at found'
    cases found'
  · next found' =>
    rw [found] at found'
    cases found'
    rfl

/-- The chain of definitions follows the way: those that are passed come first, and then what the
end of the way has. -/
theorem Way.chain_eq (way : index.Way path name passed last) :
    index.chain path name =
      (index.chain (path ++ passed.map (·.1)) last).map (passed.map (·.2) ++ ·) := by
  induction way with
  | again member => simp [chain_of_mem index member, Except.map]
  | @stops path name fresh nothing =>
    simp only [List.map_nil, List.append_nil, List.nil_append]
    cases index.chain path name <;> rfl
  | @includes path name definition inclusion passed last fresh found included rest ih =>
    rw [chain_of_ok fresh found, included]
    simp only [ih, List.map_cons, List.append_assoc, List.singleton_append]
    cases index.chain (path ++ name :: passed.map (·.1)) last <;> rfl

/-! ## The layers -/

/-- The environment `name` with the definitions that are passed on a way laid on a base, the last of
them first. -/
def laidOn (name : String) (passed : List (String × Environment.Definition))
    (base : Environment.Definition) : Environment :=
  (passed.reverse.foldl (fun lower layer => layer.2.layeredOver lower) base).toEnvironment name

/-- The definitions of a chain are laid on the last of them, which is at the bottom. -/
theorem merge_append_singleton (layers : List Environment.Definition)
    (base : Environment.Definition) :
    merge (layers ++ [base]) =
      layers.reverse.foldl (fun lower upper => upper.layeredOver lower) base := by
  rw [List.foldl_reverse]
  induction layers with
  | nil => rfl
  | cons definition rest ih =>
    have several : rest ++ [base] ≠ [] := List.append_ne_nil_of_right_ne_nil rest (by simp)
    rw [List.cons_append, merge_cons definition several, ih, List.foldr_cons]

/-- The environment with the definitions of a chain, if its components have different names. -/
def checked (name : String) (definitions : List Environment.Definition) :
    Except EnvironmentError Environment :=
  let environment := (merge definitions).toEnvironment name
  match environment.sharedName? with
  | some component => .error (.duplicateComponent name component)
  | none => .ok environment

theorem checked_append_singleton (name : String)
    (passed : List (String × Environment.Definition)) (base : Environment.Definition) :
    checked name (passed.map (·.2) ++ [base]) =
      match (laidOn name passed base).sharedName? with
      | some component => .error (.duplicateComponent name component)
      | none => .ok (laidOn name passed base) := by
  rw [checked, merge_append_singleton, ← List.map_reverse, List.foldl_map]
  rfl

/-- An environment is made from the definitions that are passed on a way and those of its end. -/
theorem Way.environment_eq (way : index.Way [] name passed last) :
    index.environment name =
      (index.chain (passed.map (·.1)) last).bind fun rest =>
        checked name (passed.map (·.2) ++ rest) := by
  have followed : index.environment name = (index.chain [] name).bind (checked name) := rfl
  rw [followed, way.chain_eq, List.nil_append]
  cases index.chain (passed.map (·.1)) last <;> rfl

/-! ## What comes of an environment -/

/-- What comes of an environment, by the end of the way that its inclusions lead. -/
inductive Gives (index : EnvironmentIndex) (name : String)
    (passed : List (String × Environment.Definition)) (last : String) :
    Except EnvironmentError Environment → Prop where
  /-- A way that ends at a name it has passed is a cycle. -/
  | cycle (again : last ∈ passed.map (·.1)) :
      Gives index name passed last (.error (.includeCycle (passed.map (·.1) ++ [last])))
  /-- Any other way may end at a name that no definition has. -/
  | missing (fresh : last ∉ passed.map (·.1)) (absent : index.registered.get? last = none) :
      Gives index name passed last (.error (.notFound last index.names))
  /-- It may end at a definition that could not be read. -/
  | broken {entry : Registered} {error : EnvironmentError} (fresh : last ∉ passed.map (·.1))
      (held : index.registered.get? last = some entry) (fails : entry.definition = .error error) :
      Gives index name passed last (.error error)
  /-- It may end at a definition that includes nothing. Then the environment has the layers of the
  way, unless components share a name: in that case the first name that is repeated is reported. -/
  | shared {entry : Registered} {base : Environment.Definition} {component : String}
      (fresh : last ∉ passed.map (·.1)) (held : index.registered.get? last = some entry)
      (read : entry.definition = .ok base) (bottom : base.inclusion = none)
      (repeated : FirstRepeated ((laidOn name passed base).components.map (·.name)) component) :
      Gives index name passed last (.error (.duplicateComponent name component))
  | whole {entry : Registered} {base : Environment.Definition}
      (fresh : last ∉ passed.map (·.1)) (held : index.registered.get? last = some entry)
      (read : entry.definition = .ok base) (bottom : base.inclusion = none)
      (distinct : ((laidOn name passed base).components.map (·.name)).Nodup) :
      Gives index name passed last (.ok (laidOn name passed base))

variable {result : Except EnvironmentError Environment}

theorem definition_of_none (absent : index.registered.get? name = none) :
    index.definition name = .error (.notFound name index.names) := by
  simp only [definition, absent]

theorem definition_of_some {entry : Registered} (held : index.registered.get? name = some entry) :
    index.definition name = entry.definition := by
  simp only [definition, held]

/-- What comes of an environment by the end of its way is what the index makes of it. -/
theorem Gives.environment_eq (gives : index.Gives name passed last result)
    (way : index.Way [] name passed last) : index.environment name = result := by
  rw [way.environment_eq]
  cases gives with
  | cycle again =>
    rw [chain_of_mem index again]
    rfl
  | missing fresh absent =>
    rw [chain_of_error fresh (definition_of_none absent)]
    rfl
  | broken fresh held fails =>
    rw [chain_of_error fresh ((definition_of_some held).trans fails)]
    rfl
  | shared fresh held read bottom repeated =>
    rw [chain_of_ok fresh ((definition_of_some held).trans read), bottom]
    refine (checked_append_singleton name passed _).trans ?_
    rw [Environment.sharedName?_eq_some_iff.mpr repeated]
  | whole fresh held read bottom distinct =>
    rw [chain_of_ok fresh ((definition_of_some held).trans read), bottom]
    refine (checked_append_singleton name passed _).trans ?_
    rw [Environment.sharedName?_eq_none_iff.mpr distinct]

/-- Something comes of every environment. -/
theorem Way.exists_gives (way : index.Way [] name passed last) :
    ∃ result, index.Gives name passed last result := by
  rcases way.ends with again | ⟨fresh, nothing⟩
  · exact ⟨_, .cycle again⟩
  cases held : index.registered.get? last with
  | none => exact ⟨_, .missing fresh held⟩
  | some entry =>
    cases read : entry.definition with
    | error error => exact ⟨_, .broken fresh held read⟩
    | ok base =>
      have bottom : base.inclusion = none := nothing base ((definition_of_some held).trans read)
      cases reported : (laidOn name passed base).sharedName? with
      | some component =>
        exact ⟨_, .shared fresh held read bottom
          (Environment.sharedName?_eq_some_iff.mp reported)⟩
      | none =>
        exact ⟨_, .whole fresh held read bottom
          (Environment.sharedName?_eq_none_iff.mp reported)⟩

/-- The end of the way decides what comes of an environment. -/
theorem Way.gives_iff (way : index.Way [] name passed last) :
    index.Gives name passed last result ↔ index.environment name = result := by
  constructor
  · intro gives
    exact gives.environment_eq way
  · rintro rfl
    obtain ⟨result, gives⟩ := way.exists_gives
    rw [gives.environment_eq way]
    exact gives

/-- Components of an environment have different names. -/
theorem nodup_of_environment_eq_ok {environment : Environment}
    (loads : index.environment name = .ok environment) :
    (environment.components.map (·.name)).Nodup := by
  obtain ⟨passed, last, way⟩ := exists_way index [] name
  have gives := way.gives_iff.mpr loads
  cases gives with
  | whole fresh held read bottom distinct => exact distinct

/-! ## What an environment hangs on -/

/-- The names that are passed on a way are names of the index. -/
theorem Way.mem_names (way : index.Way path name passed last) {on : String}
    (member : on ∈ passed.map (·.1)) : on ∈ index.names := by
  induction way with
  | again _ => cases member
  | stops _ _ => cases member
  | includes fresh found included rest ih =>
    rcases List.mem_cons.mp member with rfl | later
    · exact mem_names_of_definition found
    · exact ih later

/-- Two indexes that hold the same under a name of one of them have the same definition there. -/
theorem definition_congr (known : name ∈ index.names)
    (same : other.registered.get? name = index.registered.get? name) :
    other.definition name = index.definition name := by
  obtain ⟨entry, held⟩ := Option.isSome_iff_exists.mp (Dictionary.mem_keys.mp known)
  rw [definition_of_some held, definition_of_some (same.trans held)]

/-- What stands at the end of a way is decided by the definition there. -/
theorem Way.chain_last_congr (way : index.Way path name passed last)
    (same : other.definition last = index.definition last) :
    other.chain (path ++ passed.map (·.1)) last = index.chain (path ++ passed.map (·.1)) last := by
  rcases way.ends with again | ⟨fresh, nothing⟩
  · rw [chain_of_mem other again, chain_of_mem index again]
  cases found : index.definition last with
  | error error => rw [chain_of_error fresh found, chain_of_error fresh (same.trans found)]
  | ok definition =>
    rw [chain_of_ok fresh found, chain_of_ok fresh (same.trans found), nothing _ found]

/-- An environment hangs on nothing but the definitions of the names on its way. -/
theorem Way.environment_congr (way : index.Way [] name passed last)
    (agree : ∀ on ∈ passed.map (·.1) ++ [last], other.definition on = index.definition on) :
    other.environment name = index.environment name := by
  have ends := way.chain_last_congr (agree last (by simp))
  rw [List.nil_append] at ends
  rw [way.environment_eq, (way.of_agree agree).environment_eq, ends]

/-- The names of an index are listed in order. -/
theorem pairwise_names (index : EnvironmentIndex) : index.names.Pairwise (· < ·) :=
  List.pairwise_map.mpr index.registered.ordered

/-- **An environment is made from the definitions along its inclusions, and no way of including
definitions keeps it from coming to an end.** From each name inclusions lead in one way, on which no
name is passed twice. What comes of the environment is said by the end of the way (`Gives`): a cycle
up to the first name that is repeated, a name without a definition together with all names of the
index in order, a definition that could not be read, or all definitions of the way laid on each
other from its end up to its start. Unless the way ends at a name without a definition, nothing
hangs on what other names stand for. -/
theorem environment_spec (index : EnvironmentIndex) (name : String) :
    ∃ passed last,
      (∀ others target, index.Way [] name others target ↔ others = passed ∧ target = last) ∧
      (passed.map (·.1)).Nodup ∧
      (∀ result, index.environment name = result ↔ index.Gives name passed last result) ∧
      (index.names.Pairwise (· < ·) ∧
        ∀ known, known ∈ index.names ↔ ∃ entry, index.registered.get? known = some entry) ∧
      (last ∈ index.names → ∀ other : EnvironmentIndex,
        (∀ on ∈ passed.map (·.1) ++ [last],
          other.registered.get? on = index.registered.get? on) →
        other.environment name = index.environment name) := by
  obtain ⟨passed, last, way⟩ := exists_way index [] name
  refine ⟨passed, last, ?_, way.nodup List.nodup_nil, fun _ => way.gives_iff.symm,
    ⟨index.pairwise_names, ?_⟩, ?_⟩
  · intro others target
    constructor
    · exact way.unique
    · rintro ⟨rfl, rfl⟩
      exact way
  · intro known
    rw [names, Dictionary.mem_keys, Option.isSome_iff_exists]
  · intro known other same
    refine way.environment_congr fun on member => definition_congr ?_ (same on member)
    rcases List.mem_append.mp member with before | here
    · exact way.mem_names before
    · rw [List.mem_singleton.mp here]
      exact known

end EnvironmentIndex

end DeployConfig
