import DeployConfig.Dictionary
import DeployConfig.Layer

/-!
# Assembling the properties of a component

The layers of a component type in an environment are gone through in order. Before the entries of a
layer come those of the types it includes, and so on through their includes; but the layers of one
type in one environment are gone through only once, at the first place that asks for them. Of the
entries listed in this order the last one for each key is in force.

The walk has an outcome when it comes to an end. It need not, if each layer includes yet another
type; but types and environments enter it only through the includes of layers, so it does for a
loader with finitely many layers.
-/

set_option autoImplicit false

namespace DeployConfig

/-- The properties of a component, by key. -/
abbrev PropertyMap := Dictionary Property

/-- Why the properties of a component cannot be had. -/
inductive SupplyError where
  | unreadable (path reason : String)
  | malformed (path reason : String)
  | invalidInclude (path message : String)
  | unknownConfigType (name : String)
  | includesTooDeep (type environment : String)
deriving DecidableEq

/-- The key under which a file lists its includes. -/
def includeKey : String := "_include"

/-- The message of the error. -/
def SupplyError.message : SupplyError → String
  | .unreadable path reason => s!"Failed to read '{path}': {reason}"
  | .malformed path reason => s!"Error parsing TOML in '{path}': {reason}"
  | .invalidInclude path message => s!"Invalid '{includeKey}' entry in '{path}': {message}"
  | .unknownConfigType name => s!"Config type '{name}' is not configured."
  | .includesTooDeep type environment => s!"Includes of '{type}[{environment}]' nest too deep."

/-- Gives the layers of a component type in an environment, lowest first. -/
abbrev Loader := String → String → Except SupplyError (List Layer)

namespace Assembly

/-- How far a walk through layers has come: the pairs of type and environment it has started, each
when its layers were loaded, and the properties in the order they were met. -/
structure Walk where
  started : List (String × String)
  met : List Property

/-- Takes a walk on through the layers of a component in an environment and of everything they
include. There is no outcome if this goes on without end. -/
def Walk.onward (sofar : Walk) (load : Loader) (component : Component) (environment : String) :
    ExceptT SupplyError Option Walk :=
  if sofar.started.contains (component.type, environment) then pure sofar
  else do
    let layers ← ExceptT.mk (some (load component.type environment))
    layers.foldlM (fun sofar layer => do
      let sofar ← layer.includes.foldlM (fun sofar other =>
        sofar |>.onward load (.ofType other.type) (other.environment.getD environment)) sofar
      return { sofar with
        met := sofar.met ++ layer.entries.map (layer.property component environment) })
      { sofar with started := sofar.started ++ [(component.type, environment)] }
partial_fixpoint

/-- Goes through the layers of a component in an environment and of everything they include, after
what was gone through so far. -/
def walk (load : Loader) (component : Component) (environment : String) (sofar : Walk) :
    ExceptT SupplyError Option Walk :=
  sofar.onward load component environment

/-- Of properties in the order they were met, the last one for each key. -/
def inForce (met : List Property) : PropertyMap :=
  .ofList (met.map fun property => (property.key, property))

/-- The properties of a component in an environment: of those met on the walk, the last one for
each key. -/
def assemble (load : Loader) (component : Component) (environment : String) :
    ExceptT SupplyError Option PropertyMap := do
  let walk ← walk load component environment ⟨[], []⟩
  return inForce walk.met

/-- The properties of a component in an environment, or an error if the walk has no end. -/
def assembled (load : Loader) (component : Component) (environment : String) :
    Except SupplyError PropertyMap :=
  (assemble load component environment).run.getD
    (.error (.includesTooDeep component.type environment))

end Assembly

end DeployConfig
