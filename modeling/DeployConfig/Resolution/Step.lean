import DeployConfig.Resolution.World
import DeployConfig.Traced

/-!
# One step of a resolution

A step takes one placeholder of a text and finds the text that stands for it, which is resolved in
turn (`next`). There are three ways to it.

* A placeholder of another config type is handed over to that type, with its environment written
  out and with no history.
* A placeholder that somebody answers is replaced by the value of the answer. A reference of a
  component to itself may be overridden: the root is asked before the component, and so is every
  reference that is being expanded, the latest first (`candidates`).
* A placeholder that nobody answers is replaced by its default.
-/

set_option autoImplicit false

namespace DeployConfig.Resolution

/-- Where in a resolution a text stands. -/
structure Frame where
  /-- The property whose value the text is. -/
  property : Property
  configType : String
  /-- The references being expanded in this config type, latest first. -/
  chain : List Placeholder
  /-- How many texts the text is nested in. -/
  depth : Nat

/-- Why a text is resolved in place of a placeholder. -/
inductive Cause where
  | delegated
  | found
  | fallback
deriving DecidableEq

/-- What a resolution goes through. -/
inductive Event where
  /-- A placeholder of a text is taken up. -/
  | met (frame : Frame) (placeholder : Placeholder)
  /-- A text that stands for a placeholder is entered. -/
  | entered (cause : Cause) (frame : Frame)
  /-- A reference is looked up in an environment. -/
  | located (name environment : String)
  /-- A question is put to the answerer of a config type. -/
  | asked (configType : String) (query : Query)

/-- The limits that a resolution is held to. -/
structure Rules where
  /-- How deep texts may be nested, if there is a limit. -/
  depthLimit : Option Nat
  /-- Whether a reference that is being expanded must not be expanded again. -/
  refusesCycles : Bool

/-- The limits of every resolution for a user. -/
def Rules.standard : Rules := ⟨some 64, true⟩

/-! ## Who is asked -/

/-- Somebody who may answer for a key. -/
inductive Candidate where
  | placed (placed : Placed)
  /-- The component that a name means in an environment. -/
  | referred (name environment : String)
deriving DecidableEq

/-- The component that a placeholder refers to, as a candidate. -/
def Candidate.of (placeholder : Placeholder) : Candidate :=
  .referred placeholder.component placeholder.environment

/-- The placeholder with the name of the declaring component in place of a self-reference. -/
def Frame.named (frame : Frame) (placeholder : Placeholder) : Placeholder :=
  if placeholder.isSelf then placeholder.withComponent frame.property.component.name
  else placeholder

/-- Whether a placeholder of a text may be answered by somebody else than the component it refers
to: it is a self-reference, or it refers to the type of the declaring component, in the environment
of the property and with a key that is not protected. -/
def Frame.overridable (frame : Frame) (protectedKeys : List String) (placeholder : Placeholder) :
    Bool :=
  placeholder.isSelf ||
    (placeholder.component == frame.property.component.type &&
      placeholder.environment == frame.property.environment &&
      !protectedKeys.contains placeholder.key)

/-- Who is asked for a placeholder of a text, in order. -/
def candidates (protectedKeys : List String) (root : Placed) (frame : Frame)
    (placeholder : Placeholder) : List Candidate :=
  let referred := [Candidate.of (frame.named placeholder)]
  if frame.overridable protectedKeys placeholder then
    .placed root :: frame.chain.map .of ++ referred
  else referred

/-- The component and environment of a candidate. -/
def Candidate.toPlaced (world : World) : Candidate → Traced Event LookupError Placed
  | .placed known => .pure known
  | .referred name environment => do
    .note (.located name environment)
    match world.locate name environment with
    | .ok component => .pure ⟨component, environment⟩
    | .error error => .fail (.environment error)

/-- What a candidate answers for a key. -/
def Candidate.ask (world : World) (configType : String) (answerer : Answerer) (key : String)
    (candidate : Candidate) : Traced Event LookupError (Option Property) := do
  let placed ← candidate.toPlaced world
  let query : Query := ⟨placed.component, key, placed.environment⟩
  .note (.asked configType query)
  .ofExcept (answerer query)

/-- The first answer of several candidates for a key. -/
def askInTurn (world : World) (configType : String) (answerer : Answerer) (key : String) :
    List Candidate → Traced Event LookupError (Option Property)
  | [] => .pure none
  | candidate :: rest => do
    match ← candidate.ask world configType answerer key with
    | some property => .pure (some property)
    | none => askInTurn world configType answerer key rest

/-! ## What stands for a placeholder -/

/-- The config type that a placeholder is handed over to, if it is another one than that of the
text. -/
def Frame.otherConfigType? (frame : Frame) (placeholder : Placeholder) : Option String :=
  placeholder.configType.filter (· != frame.configType)

/-- The property with a text that is derived from its value. -/
def derived (property : Property) (value : String) : Property :=
  { property with value, transient := true }

/-- The text that a placeholder is handed over as. -/
def Frame.delegate (frame : Frame) (placeholder : Placeholder) (other : String) : Frame where
  property := derived frame.property (placeholder.withConfigType none).explicit.text
  configType := other
  chain := []
  depth := frame.depth + 1

/-- The value of a property that answers a reference. -/
def Frame.expanding (frame : Frame) (reference : Placeholder) (property : Property) : Frame where
  property := property
  configType := frame.configType
  chain := reference :: frame.chain
  depth := frame.depth + 1

/-- The default of a placeholder. -/
def Frame.defaulting (frame : Frame) (fallback : String) : Frame :=
  { frame with property := derived frame.property fallback, depth := frame.depth + 1 }

/-- Whether a reference is being expanded already. -/
def Frame.expands (frame : Frame) (reference : Placeholder) : Bool :=
  frame.chain.any (·.reference == reference.reference)

/-- The text that stands for a placeholder of a text. -/
def next (rules : Rules) (world : World) (root : Placed) (frame : Frame)
    (placeholder : Placeholder) : Traced Event ResolutionError (Cause × Frame) :=
  match frame.otherConfigType? placeholder with
  | some other =>
    if world.answerers.contains other then .pure (.delegated, frame.delegate placeholder other)
    else .fail (.unsupportedConfigType other world.configTypes)
  | none =>
    match world.answerers.get? frame.configType with
    | none => .fail (.unsupportedConfigType frame.configType world.configTypes)
    | some answerer => do
      let reference := frame.named placeholder
      let found ← (askInTurn world frame.configType answerer placeholder.key
        (candidates world.protectedKeys root frame placeholder)).restate id (.lookup reference)
      match found with
      | some property =>
        if rules.refusesCycles && frame.expands reference then
          .fail (.cyclic (reference :: frame.chain).reverse frame.property root)
        else .pure (.found, frame.expanding reference property)
      | none =>
        match placeholder.fallback with
        | some fallback => .pure (.fallback, frame.defaulting fallback)
        | none => .fail (.unresolved reference frame.property root)

end DeployConfig.Resolution
