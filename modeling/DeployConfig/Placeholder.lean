import DeployConfig.Placeholder.Scanner

/-!
# Placeholders

A placeholder refers to a key of a component in an environment. The environment is the one written
in brackets or else the environment of the context that the placeholder stands in; `named` tells
which, so that the placeholder can be written back as it was. Two placeholders are the same
reference when component, environment and key agree, whatever their config type and default.
-/

set_option autoImplicit false

namespace DeployConfig

/-- The name by which a property refers to the component that declared it. -/
def selfName : String := "this"

/-- What a placeholder refers to. -/
structure Reference where
  component : String
  environment : String
  key : String
deriving DecidableEq, Hashable, Repr

/-- A placeholder in the context of an environment. -/
structure Placeholder where
  configType : Option String
  component : String
  environment : String
  /-- Whether the environment is written in brackets. -/
  named : Bool
  key : String
  fallback : Option String
deriving DecidableEq, Repr

namespace Placeholder

/-- The placeholder that is written with these pieces in the context of `environment`. -/
def ofWritten (written : Written) (environment : String) : Placeholder where
  configType := written.configType.map String.ofList
  component := String.ofList written.component
  environment := (written.environment.map String.ofList).getD environment
  named := written.environment.isSome
  key := String.ofList written.key
  fallback := written.fallback.map String.ofList

/-- The first placeholder of a text in the context of `environment`. -/
def first? (text environment : String) : Option Placeholder :=
  (Occurrence.find? text.toList).map fun found => ofWritten found.written environment

/-- The pieces a placeholder is written with. -/
def toWritten (placeholder : Placeholder) : Written where
  configType := placeholder.configType.map String.toList
  component := placeholder.component.toList
  environment := if placeholder.named then some placeholder.environment.toList else none
  key := placeholder.key.toList
  fallback := placeholder.fallback.map String.toList

/-- The text of a placeholder. -/
def text (placeholder : Placeholder) : String :=
  String.ofList placeholder.toWritten.characters

/-- The placeholder with its environment written out. -/
def explicit (placeholder : Placeholder) : Placeholder :=
  { placeholder with named := true }

/-- What the placeholder refers to. -/
def reference (placeholder : Placeholder) : Reference :=
  ⟨placeholder.component, placeholder.environment, placeholder.key⟩

/-- Whether the placeholder refers to the component that declares it. -/
def isSelf (placeholder : Placeholder) : Bool :=
  placeholder.component == selfName

/-- The same placeholder of another component. -/
def withComponent (placeholder : Placeholder) (component : String) : Placeholder :=
  { placeholder with component }

/-- The same placeholder with another config type, or with none. -/
def withConfigType (placeholder : Placeholder) (configType : Option String) : Placeholder :=
  { placeholder with configType }

/-- Writing a placeholder's pieces down gives back the pieces it was read from. -/
theorem toWritten_ofWritten (written : Written) (environment : String) :
    (ofWritten written environment).toWritten = written := by
  obtain ⟨configType, component, environmentName, key, fallback⟩ := written
  cases configType <;> cases environmentName <;> cases fallback <;>
    simp [toWritten, ofWritten, String.toList_ofList]

end Placeholder

end DeployConfig
