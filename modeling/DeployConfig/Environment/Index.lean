import DeployConfig.Environment.Definition

/-!
# Indexes of definitions

An index holds the definitions of environments under their names and aliases; no two definitions
share one. A definition that could not be read is held under its own name, so that only asking for
that name reports it.

The environment called `name` is made from the chain of definitions that starts at `name` and
follows the inclusions (`chain`), by layering each definition over the ones behind it
(`environment`).
-/

set_option autoImplicit false

namespace DeployConfig

/-- Why an environment cannot be had. -/
inductive EnvironmentError where
  | notFound (name : String) (available : List String)
  | unreadable (path reason : String)
  | malformed (path reason : String)
  | duplicateDefinition (name first second : String)
  | includeCycle (chain : List String)
  | duplicateComponent (environment component : String)
deriving DecidableEq

/-- The message of the error. -/
def EnvironmentError.message : EnvironmentError → String
  | .notFound name available =>
    s!"Environment '{name}' not found. Available environments: [" ++
      ", ".intercalate available ++ "]"
  | .unreadable path reason => s!"Failed to read environment file '{path}': {reason}"
  | .malformed path reason => s!"Error parsing environment file '{path}': {reason}"
  | .duplicateDefinition name first second =>
    s!"Environment '{name}' is defined twice: '{first}' and '{second}'."
  | .includeCycle chain =>
    "Cyclic environment include detected: " ++ " -> ".intercalate chain
  | .duplicateComponent environment component =>
    s!"Component '{component}' is declared more than once in environment '{environment}'."

/-- A definition, or why it could not be read, with the place it comes from. -/
structure Registered where
  origin : String
  definition : Except EnvironmentError Environment.Definition

/-- The definitions by name and alias. -/
structure EnvironmentIndex where
  registered : Dictionary Registered

namespace EnvironmentIndex

/-- The index without definitions. -/
def empty : EnvironmentIndex := ⟨.empty⟩

/-- The names and aliases, in order. -/
def names (index : EnvironmentIndex) : List String :=
  index.registered.keys

/-- Puts a definition under one more name, which must be free. -/
def addName (entry : Registered) (index : EnvironmentIndex) (name : String) :
    Except EnvironmentError EnvironmentIndex :=
  match index.registered.get? name with
  | some held => .error (.duplicateDefinition name held.origin entry.origin)
  | none => .ok ⟨index.registered.insert name entry⟩

/-- The aliases of a definition that could be read. -/
def Registered.aliases (entry : Registered) : List String :=
  match entry.definition with
  | .ok definition => definition.aliases
  | .error _ => []

/-- Puts a definition under its name and its aliases. -/
def register (index : EnvironmentIndex) (name : String) (entry : Registered) :
    Except EnvironmentError EnvironmentIndex :=
  (name :: Registered.aliases entry).foldlM (addName entry) index

/-- The definition under a name or alias. -/
def definition (index : EnvironmentIndex) (name : String) :
    Except EnvironmentError Environment.Definition :=
  match index.registered.get? name with
  | some entry => entry.definition
  | none => .error (.notFound name index.names)

/-- The names that are not yet on a path. -/
def unvisited (index : EnvironmentIndex) (path : List String) : List String :=
  index.names.filter fun name => !path.contains name

/-- A name that has a definition is a name of the index. -/
theorem mem_names_of_definition {index : EnvironmentIndex} {name : String}
    {definition : Environment.Definition} (found : index.definition name = .ok definition) :
    name ∈ index.names := by
  unfold EnvironmentIndex.definition at found
  split at found
  · next entry held => exact Dictionary.mem_keys.mpr (by simp [held])
  · simp at found

/-- Going on to a name of the index that is not on the path leaves fewer names. -/
theorem length_unvisited_lt {index : EnvironmentIndex} {path : List String} {name : String}
    (known : name ∈ index.names) (fresh : name ∉ path) :
    (index.unvisited (path ++ [name])).length < (index.unvisited path).length := by
  have narrowed : index.unvisited (path ++ [name]) =
      (index.unvisited path).filter (· != name) := by
    simp only [unvisited, List.filter_filter]
    congr 1
    funext other
    by_cases here : other ∈ path <;> by_cases same : other = name <;> simp [here, same]
  rw [narrowed]
  have member : name ∈ index.unvisited path := by simp [unvisited, known, fresh]
  exact List.length_filter_lt_length_iff_exists.mpr ⟨name, member, by simp⟩

/-- The definitions on the way from `name` along the inclusions, to be reached by `path`. The last
one includes nothing. -/
def chain (index : EnvironmentIndex) (path : List String) (name : String) :
    Except EnvironmentError (List Environment.Definition) :=
  if revisited : name ∈ path then .error (.includeCycle (path ++ [name]))
  else
    match found : index.definition name with
    | .error error => .error error
    | .ok definition =>
      match definition.inclusion with
      | none => .ok [definition]
      | some inclusion =>
        have _fewer := length_unvisited_lt (mem_names_of_definition found) revisited
        (index.chain (path ++ [name]) inclusion.environment).map (definition :: ·)
  termination_by (index.unvisited path).length

/-- Layers the definitions of a chain, the last one at the bottom. -/
def merge : List Environment.Definition → Environment.Definition
  | [] => {}
  | [definition] => definition
  | definition :: rest => definition.layeredOver (merge rest)

/-- Above the last definition of a chain each one is layered over those behind it. -/
theorem merge_cons (upper : Environment.Definition) {lower : List Environment.Definition}
    (several : lower ≠ []) : merge (upper :: lower) = upper.layeredOver (merge lower) := by
  cases lower with
  | nil => exact absurd rfl several
  | cons next lower => rfl

/-- The environment called `name`. Its components must have different names. -/
def environment (index : EnvironmentIndex) (name : String) :
    Except EnvironmentError Environment := do
  let definitions ← index.chain [] name
  let environment := (merge definitions).toEnvironment name
  match environment.sharedName? with
  | some component => .error (.duplicateComponent name component)
  | none => .ok environment

end EnvironmentIndex

end DeployConfig
