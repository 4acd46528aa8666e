import DeployConfig.Component
import DeployConfig.Dictionary

/-!
# Environments

An environment is an ordered list of groups of components, with properties of its own. A component
is found by its name together with its group and its position there.
-/

set_option autoImplicit false

namespace DeployConfig

/-- A named part of an environment. -/
structure Group where
  name : String
  ip : Option String
  components : List Component
  properties : Dictionary String

/-- An environment that is ready for use. -/
structure Environment where
  name : String
  portOffset : Option Int
  groups : List Group
  properties : Dictionary String

/-- Where a component stands in an environment. -/
structure Position where
  group : Group
  index : Nat
  component : Component

namespace Environment

/-- The position of the component called `name` in a group. -/
def locateIn (group : Group) (name : String) : Option Position := do
  let index ← group.components.findIdx? (·.name == name)
  let component ← group.components[index]?
  return ⟨group, index, component⟩

/-- The position of the component called `name`, in the first group that has one. -/
def locate (environment : Environment) (name : String) : Option Position :=
  environment.groups.findSome? fun group => locateIn group name

/-- The component called `name`. -/
def componentNamed (environment : Environment) (name : String) : Option Component :=
  (environment.locate name).map (·.component)

/-- The components of all groups, in order. -/
def components (environment : Environment) : List Component :=
  environment.groups.flatMap (·.components)

/-- The first name that two components share, if there is one. -/
def sharedName? (environment : Environment) : Option String :=
  go [] (environment.components.map (·.name))
where
  /-- Looks for a name that was seen before. -/
  go (seen : List String) : List String → Option String
    | [] => none
    | name :: rest => if seen.contains name then some name else go (name :: seen) rest

end Environment

end DeployConfig
