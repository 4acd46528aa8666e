import DeployConfig.Layer.Assembly

/-!
# Declared properties

Properties that are declared directly, batch by batch, for a component type in a config type. A
batch holds for every environment or for one. The layers of an environment are the batches that
hold everywhere, in order, and then its own.
-/

set_option autoImplicit false

namespace DeployConfig

/-- The layers declared for one component type in one config type. -/
structure Declarations.Batch where
  configType : String
  type : String
  environment : Option String
  layer : Layer

/-- All declared layers, in order. -/
structure Declarations where
  batches : List Declarations.Batch

namespace Declarations

/-- No declarations. -/
def empty : Declarations := ⟨[]⟩

/-- Reads the declaration lines of a batch. -/
def readEntries (type : String) (lines : List String) :
    Except DeclarationError (List Layer.Entry) :=
  lines.mapM fun line => do
    let property ← Property.parse line "" (.special (.ofType type) "memory")
    return ⟨property.key, property.value, property.transient⟩

/-- Adds a batch of declaration lines behind the others. -/
def declare (declarations : Declarations) (configType type : String)
    (environment : Option String) (lines : List String) :
    Except DeclarationError Declarations := do
  let entries ← readEntries type lines
  return ⟨declarations.batches ++ [⟨configType, type, environment, none, [], entries⟩]⟩

/-- Makes a component type include another one, below everything declared for it so far. A text
that is no include is left out. -/
def addInclude (declarations : Declarations) (configType type other : String) : Declarations :=
  let layer : Layer := ⟨none, (Layer.Include.parse? other).toList, []⟩
  ⟨⟨configType, type, none, layer⟩ :: declarations.batches⟩

/-- The layers of a component type in an environment. -/
def layers (declarations : Declarations) (configType type environment : String) : List Layer :=
  let own := declarations.batches.filter fun batch =>
    batch.configType == configType && batch.type == type
  let shared := own.filter (·.environment.isNone)
  let specific := own.filter (·.environment == some environment)
  (shared ++ specific).map (·.layer)

/-- The component types that something is declared for. -/
def types (declarations : Declarations) : List String :=
  (declarations.batches.map (·.type)).eraseDups

/-- The config types that something is declared in. -/
def configTypes (declarations : Declarations) : List String :=
  (declarations.batches.map (·.configType)).eraseDups

/-- The properties of a component. -/
def properties (declarations : Declarations) (component : Component)
    (environment configType : String) : Except SupplyError PropertyMap :=
  Assembly.assembled
    (fun type environment => .ok (declarations.layers configType type environment))
    component environment

end Declarations

end DeployConfig
