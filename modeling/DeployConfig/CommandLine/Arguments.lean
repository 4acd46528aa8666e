import DeployConfig.Text.Blank

/-!
# Command line arguments

A command line names a command, `envs`, `build` or `resolve`, with its own arguments; some options
may stand before or behind the name of the command. An option takes its value from the rest of its
word or from the next word, which must not look like an option. Behind a word `--` no word is read
as an option or as a command.
-/

set_option autoImplicit false

namespace DeployConfig.CommandLine

/-- An option. -/
inductive Switch where
  | root
  | destination
  | define
  | component
  | json
  | configType
  | version
  | help
deriving DecidableEq

namespace Switch

/-- The name of an option behind two dashes. -/
def long? : Switch → Option String
  | root => some "root"
  | destination => some "destination"
  | define => none
  | component => some "component"
  | json => some "json"
  | configType => some "config-type"
  | version => some "version"
  | help => some "help"

/-- The letter of an option behind one dash. -/
def short? : Switch → Option Char
  | root => some 'r'
  | destination => some 'd'
  | define => some 'D'
  | component => some 'c'
  | json => none
  | configType => some 't'
  | version => some 'V'
  | help => some 'h'

/-- Whether an option has a value. -/
def takesValue : Switch → Bool
  | json | version | help => false
  | _ => true

/-- Whether an option may be given more than once. -/
def repeats : Switch → Bool
  | define | component => true
  | _ => false

end Switch

/-- A part of the command line: what stands before the name of the command, or the arguments of a
command. -/
inductive Part where
  | front
  | envs
  | build
  | resolve
deriving DecidableEq

namespace Part

/-- The options of a part. -/
def switches : Part → List Switch
  | front => [.root, .destination, .define, .help, .version]
  | envs => [.root, .destination, .define, .help]
  | build => [.root, .destination, .define, .help, .component, .json]
  | resolve => [.root, .destination, .define, .help, .configType]

/-- How many arguments without a name a part has. -/
def places : Part → Nat
  | front | envs => 0
  | build => 1
  | resolve => 3

/-- The arguments of the command of a name. -/
def ofCommand? : String → Option Part
  | "envs" => some envs
  | "build" => some build
  | "resolve" => some resolve
  | _ => none

end Part

/-- Why there is no command to run. -/
inductive Stop where
  | usage (message : String)
  | version
  | help

/-- What the words of a part give. -/
structure Given where
  switches : List (Switch × String) := []
  places : List String := []

namespace Given

/-- Adds an option with its value. -/
def add (given : Given) (switch : Switch) (value : String) : Except Stop Given :=
  if !switch.repeats && given.switches.any (·.1 == switch) then
    .error (.usage "an option is given twice")
  else .ok { given with switches := given.switches ++ [(switch, value)] }

/-- Adds an argument without a name. -/
def addPlace (given : Given) (part : Part) (value : String) : Except Stop Given :=
  if given.places.length < part.places then
    .ok { given with places := given.places ++ [value] }
  else .error (.usage s!"unexpected argument '{value}'")

/-- The values of an option, in order. -/
def values (given : Given) (switch : Switch) : List String :=
  given.switches.filterMap fun entry => if entry.1 == switch then some entry.2 else none

end Given

/-- A word as it is read where an option may stand. -/
inductive Word where
  | escape
  | long (name : List Char) (value : Option (List Char))
  | short (letters : List Char)
  | plain

/-- Reads a word. A single dash is no option. -/
def Word.ofArgument (argument : String) : Word :=
  match argument.toList with
  | ['-', '-'] => .escape
  | '-' :: '-' :: rest =>
    match Text.cut? (· == '=') rest with
    | some (name, value) => .long name (some value)
    | none => .long rest none
  | '-' :: letter :: rest => .short (letter :: rest)
  | _ => .plain

/-- What the words of a part give so far, and the option that waits for its value. -/
structure Progress where
  given : Given
  awaiting : Option Switch

/-- Takes up an option that has no value. -/
def Given.takeBare (given : Given) : Switch → Except Stop Given
  | .version => .error .version
  | .help => .error .help
  | switch => given.add switch ""

/-- Takes up an option that is written out, with the value behind the equals sign. -/
def Given.takeLong (given : Given) (part : Part) (name : List Char) (value : Option (List Char)) :
    Except Stop Progress :=
  match part.switches.find? (·.long? == some (String.ofList name)), value with
  | none, _ => .error (.usage s!"unknown option '--{String.ofList name}'")
  | some switch, some value =>
    if switch.takesValue then
      return ⟨← given.add switch (String.ofList value), none⟩
    else .error (.usage s!"'--{String.ofList name}' takes no value")
  | some switch, none =>
    if switch.takesValue then .ok ⟨given, some switch⟩
    else return ⟨← given.takeBare switch, none⟩

/-- Takes up the letters behind one dash. The first option with a value takes the rest of the word;
an equals sign in front of it is left out. -/
def Given.takeShort (part : Part) : List Char → Given → Except Stop Progress
  | [], given => .ok ⟨given, none⟩
  | letter :: rest, given =>
    match part.switches.find? (·.short? == some letter) with
    | none => .error (.usage s!"unknown option '-{String.ofList [letter]}'")
    | some switch =>
      if switch.takesValue then
        match rest with
        | [] => .ok ⟨given, some switch⟩
        | '=' :: value => return ⟨← given.add switch (String.ofList value), none⟩
        | value => return ⟨← given.add switch (String.ofList value), none⟩
      else do takeShort part rest (← given.takeBare switch)

/-- Reads the words of a part. The front ends at the first word that is no option; the words from
there on are given back. -/
def Given.read (part : Part) : List String → Progress → Except Stop (Given × List String)
  | [], ⟨given, none⟩ => .ok (given, [])
  | [], ⟨_, some _⟩ => .error (.usage "an option lacks its value")
  | word :: rest, ⟨given, awaiting⟩ =>
    match Word.ofArgument word, awaiting with
    | .plain, some switch => do Given.read part rest ⟨← given.add switch word, none⟩
    | _, some _ => .error (.usage "an option lacks its value")
    | .escape, none => do
      return (← rest.foldlM (fun given value => given.addPlace part value) given, [])
    | .long name value, none => do Given.read part rest (← given.takeLong part name value)
    | .short letters, none => do Given.read part rest (← Given.takeShort part letters given)
    | .plain, none =>
      if part == .front then .ok (given, word :: rest)
      else do Given.read part rest ⟨← given.addPlace part word, none⟩

/-- The options of every command. -/
structure Globals where
  root : String
  destination : Option String
  defines : List String

/-- The options of every command, from the front and from the arguments of the command. What is
given behind the name of the command counts. -/
def Globals.ofGiven (front command : Given) : Globals where
  root := ((command.values .root).head?.or (front.values .root).head?).getD "."
  destination := (command.values .destination).head?.or (front.values .destination).head?
  defines :=
    if (command.values .define).isEmpty then front.values .define else command.values .define

/-- A command. -/
inductive Command where
  /-- Lists the environments. -/
  | envs
  /-- Builds an environment, or the named components of it. -/
  | build (environment : String) (components : List String) (json : Bool)
  /-- Resolves a value for a component. -/
  | resolve (environment component value : String) (configType : Option String)

/-- The command of a part. -/
def Command.ofGiven? (part : Part) (given : Given) : Option Command :=
  match part, given.places with
  | .envs, [] => some .envs
  | .build, [environment] =>
    some (.build environment (given.values .component) (!(given.values .json).isEmpty))
  | .resolve, [environment, component, value] =>
    some (.resolve environment component value (given.values .configType).head?)
  | _, _ => none

/-- A command with the options of every command. -/
structure Request where
  globals : Globals
  command : Command

/-- Reads the arguments of the program. -/
def Request.read (arguments : List String) : Except Stop Request := do
  let (front, rest) ← Given.read .front arguments ⟨{}, none⟩
  match rest with
  | [] => .error (.usage "no command is given")
  | name :: rest =>
    match Part.ofCommand? name with
    | none => .error (.usage s!"unknown command '{name}'")
    | some part => do
      let (given, _) ← Given.read part rest ⟨{}, none⟩
      match Command.ofGiven? part given with
      | some command => .ok ⟨.ofGiven front given, command⟩
      | none => .error (.usage "an argument is missing")

end DeployConfig.CommandLine
