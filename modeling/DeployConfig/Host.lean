import DeployConfig.Dictionary
import DeployConfig.Path.Expansion

/-!
# The host

What a program knows of the place it runs in: the variables of its environment, its working
directory and the machine. These facts are the values of two reserved components.
-/

set_option autoImplicit false

namespace DeployConfig

/-- The place a program runs in. -/
structure Host where
  bindings : Variables
  directory : Path
  architecture : String

namespace Host

/-- The reserved component whose values are facts about the host. -/
def systemName : String := "system"

/-- The reserved component whose values are the environment variables. -/
def variablesName : String := "env"

/-- The user's home directory. -/
def home? (host : Host) : Option String :=
  (host.bindings.get "HOME").toOption.filter (· != "")

/-- The name of the user. -/
def userName? (host : Host) : Option String :=
  (host.bindings.get "USER").toOption.or (host.bindings.get "USERNAME").toOption

/-- The facts about the host, by key. -/
def facts (host : Host) : Dictionary String :=
  .ofList <|
    (host.home?.map fun home => ("user.home", home)).toList ++
    [("user.dir", host.directory.text)] ++
    (host.userName?.map fun name => ("user.name", name)).toList ++
    [("os.name", "linux"), ("os.arch", host.architecture), ("file.separator", "/"),
      ("path.separator", ":"), ("line.separator", "\n")]

end Host

end DeployConfig
