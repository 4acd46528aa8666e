import DeployConfig.Property

/-!
# Layers of properties

The properties of a component type come in layers: one file, or one batch of declarations, each. A
layer may include other component types; what they declare is laid below its own entries.
-/

set_option autoImplicit false

namespace DeployConfig

/-- A component type that a layer includes, in an environment of its own choice or in that of the
layer. -/
structure Layer.Include where
  type : String
  environment : Option String
deriving DecidableEq, Repr

/-- A declaration of a layer. -/
structure Layer.Entry where
  key : String
  value : String
  transient : Bool
deriving DecidableEq, Repr

/-- One source of properties. `origin` is its file, if it is one. -/
structure Layer where
  origin : Option Path
  includes : List Layer.Include
  entries : List Layer.Entry

namespace Layer

/-- Reads an include: `type` or `type[environment]`, with blanks around it. An entry that ends in a
closing bracket is cut at its first opening bracket. -/
def Include.parse? (entry : String) : Option Include :=
  let characters := Text.trim entry.toList
  match characters.reverse with
  | ']' :: front =>
    match Text.cut? (· == '[') front.reverse with
    | some (type, environment) =>
      if type.isEmpty || environment.isEmpty then none
      else some ⟨String.ofList type, some (String.ofList environment)⟩
    | none => none
  | _ => if characters.isEmpty then none else some ⟨String.ofList characters, none⟩

/-- The property that an entry declares for a component in an environment. -/
def property (layer : Layer) (component : Component) (environment : String) (entry : Entry) :
    Property where
  key := entry.key
  value := entry.value
  environment := environment
  transient := entry.transient
  source :=
    match layer.origin with
    | some path => .file component path none
    | none => .special component "memory"

end Layer

end DeployConfig
