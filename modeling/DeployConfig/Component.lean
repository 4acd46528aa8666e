import DeployConfig.Text.Blank

/-!
# Components

A component is a deployable unit: it has a name of its own and a type whose configuration it uses.
A component that is referred to by its type alone carries the type as its name. Groups list their
components as entries `name` or `name:type`.
-/

set_option autoImplicit false

namespace DeployConfig

/-- A deployable unit. -/
structure Component where
  name : String
  type : String
deriving DecidableEq, BEq, Hashable, Repr, Inhabited

namespace Component

/-- The component that stands for a whole type. -/
def ofType (type : String) : Component := ⟨type, type⟩

/-- Whether the component stands for its whole type. -/
def isWholeType (component : Component) : Bool :=
  component.name == component.type

/-- The component listed by a group entry. The first colon separates the name from the type; an
entry without a type, or with a blank one, names a type, and colons at its end are dropped. -/
def ofEntry (entry : String) : Component :=
  let characters := entry.toList
  match Text.cut? (· == ':') characters with
  | some (name, type) =>
    if (Text.trim type).isEmpty then
      ofType (String.ofList (Text.trim (Text.dropWhileEnd (· == ':') characters)))
    else ⟨String.ofList (Text.trim name), String.ofList (Text.trim type)⟩
  | none => ofType (String.ofList (Text.trim (Text.dropWhileEnd (· == ':') characters)))

/-- The name part of a group entry: what stands before the first colon. -/
def entryName (entry : String) : String :=
  let characters := entry.toList
  match Text.cut? (· == ':') characters with
  | some (name, _) => String.ofList (Text.trim name)
  | none => String.ofList (Text.trim characters)

/-- The text of a component, in the form of a group entry. -/
def text (component : Component) : String :=
  if component.isWholeType then component.name else s!"{component.name}:{component.type}"

/-- Order by name and then by type. -/
def le (first second : Component) : Bool :=
  first.name < second.name || (first.name == second.name && first.type ≤ second.type)

end Component

/-- A component together with the environment it is configured for. -/
structure Placed where
  component : Component
  environment : String
deriving DecidableEq, BEq, Repr, Inhabited

/-- The text of a placed component. -/
def Placed.text (placed : Placed) : String :=
  s!"{placed.component.name}[{placed.environment}]"

end DeployConfig
