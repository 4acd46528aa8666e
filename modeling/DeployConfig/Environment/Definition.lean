import DeployConfig.Environment.Basic
import DeployConfig.Scalar

/-!
# Definitions of environments

An environment is defined by a document that may start from another environment: it names the
environment it includes, drops groups of it, overrides groups by name and adds new ones. A
definition is layered over the merged definition of the environment it includes by `layeredOver`;
the end of such a chain of layers becomes an environment by `toEnvironment`.
-/

set_option autoImplicit false

namespace DeployConfig

/-- The definition of a group. Over an included group of the same name, `components` replaces the
included ones unless it is empty; `exclude` and `append` change what is then there. -/
structure Group.Definition where
  name : String
  ip : Option String := none
  components : List String := []
  exclude : List String := []
  append : List String := []
  properties : Dictionary Scalar := .empty

/-- The environment that a definition starts from, without some of its groups. -/
structure Environment.Inclusion where
  environment : String
  excludedGroups : List String := []

/-- The definition of an environment. -/
structure Environment.Definition where
  aliases : List String := []
  inclusion : Option Environment.Inclusion := none
  ip : Option String := none
  portOffset : Option Int := none
  properties : Dictionary Scalar := .empty
  groups : List Group.Definition := []

namespace Group.Definition

/-- Adds an entry unless the same text is already listed. -/
def appendEntry (entries : List String) (entry : String) : List String :=
  if entries.contains entry then entries else entries ++ [entry]

/-- The entries of `base` changed by `upper`: replaced if `upper` lists any, then without those
whose component name is excluded, then with the appended ones that are not there yet. -/
def changedEntries (base upper : Group.Definition) : List String :=
  let listed := if upper.components.isEmpty then base.components else upper.components
  let excluded := upper.exclude.map Component.entryName
  let kept := listed.filter fun entry => !excluded.contains (Component.entryName entry)
  upper.append.foldl appendEntry kept

/-- The group `base` overridden by a group of the same name. -/
def changedBy (base upper : Group.Definition) : Group.Definition :=
  { base with
    ip := upper.ip.or base.ip
    components := changedEntries base upper
    properties := upper.properties.layeredOver base.properties }

/-- The group that a definition stands for; without an address of its own it has that of the
environment. -/
def toGroup (definition : Group.Definition) (ip : Option String) : Group where
  name := definition.name
  ip := definition.ip.or ip
  components := definition.components.map Component.ofEntry
  properties := definition.properties.map Scalar.toText

/-- Lays a group over groups: over the first of its name, or behind the last when there is none. -/
def layOver (upper : Group.Definition) : List Group.Definition → List Group.Definition
  | [] => [upper]
  | group :: rest =>
    if group.name == upper.name then group.changedBy upper :: rest
    else group :: layOver upper rest

end Group.Definition

namespace Environment.Definition

/-- Layers a definition over the merged definition of the environment it includes. -/
def layeredOver (upper base : Environment.Definition) : Environment.Definition :=
  let dropped := (upper.inclusion.map (·.excludedGroups)).getD []
  let kept := base.groups.filter fun group => !dropped.contains group.name
  { aliases := upper.aliases
    inclusion := none
    ip := upper.ip.or base.ip
    portOffset := upper.portOffset.or base.portOffset
    properties := upper.properties.layeredOver base.properties
    groups := upper.groups.foldl (fun groups group => group.layOver groups) kept }

/-- The environment that a merged definition stands for. -/
def toEnvironment (definition : Environment.Definition) (name : String) : Environment where
  name := name
  portOffset := definition.portOffset
  groups := definition.groups.map (·.toGroup definition.ip)
  properties := definition.properties.map Scalar.toText

end Environment.Definition

end DeployConfig
