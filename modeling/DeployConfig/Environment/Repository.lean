import DeployConfig.Environment.Catalog
import DeployConfig.Memo

/-!
# Repositories of environments

A repository answers questions about the environments of a catalog, and keeps what it has made:
the environment of a name, or the reason why it cannot be had, is worked out when the name is asked
for the first time. Below it the catalog keeps the definitions, which are read from the files at the
first question of any kind. So there are two places where something is kept, and which of them a
question fills hangs on the questions before it.
-/

set_option autoImplicit false

namespace DeployConfig

/-- A catalog, with the environments that were made from it so far. -/
structure EnvironmentRepository where
  catalog : EnvironmentCatalog
  made : Memo String EnvironmentError Environment

namespace EnvironmentRepository

/-- A repository that was not asked yet. -/
def of (catalog : EnvironmentCatalog) : EnvironmentRepository := ⟨catalog, .empty⟩

/-- What a repository is asked for. -/
inductive Request where
  | environment (name : String)
  /-- The names and aliases of all environments. -/
  | names
  /-- The component that a reference means in an environment. -/
  | component (reference name : String)

/-- What a repository answers. -/
inductive Answer where
  | environment (result : Except EnvironmentError Environment)
  | names (result : Except EnvironmentError (List String))
  | component (result : Except EnvironmentError Component)

/-- The environment called `name` when the files are as in `tree`. Only the first request for a name
goes to the catalog. -/
def environment (repository : EnvironmentRepository) (tree : FileTree) (name : String) :
    Except EnvironmentError Environment × EnvironmentRepository :=
  let (served, made) := repository.made.request name fun _ =>
    (repository.catalog.current tree).bind (·.environment name)
  let catalog := if served.loaded then repository.catalog.used tree else repository.catalog
  (served.outcome, ⟨catalog, made⟩)

/-- The names and aliases of all environments. No environment is made for them. -/
def names (repository : EnvironmentRepository) (tree : FileTree) :
    Except EnvironmentError (List String) × EnvironmentRepository :=
  ((repository.catalog.current tree).map (·.names),
    { repository with catalog := repository.catalog.used tree })

/-- The component that a reference means, by what is known of its environment. -/
def meaning (reference : String) :
    Except EnvironmentError Environment → Except EnvironmentError Component
  | .ok environment => .ok ((environment.componentNamed reference).getD (.ofType reference))
  | .error (.notFound _ _) => .ok (.ofType reference)
  | .error error => .error error

/-- The answer to a request when the files are as in `tree`, and the repository after it. -/
def ask (repository : EnvironmentRepository) (tree : FileTree) :
    Request → Answer × EnvironmentRepository
  | .environment name =>
    let (result, repository) := repository.environment tree name
    (.environment result, repository)
  | .names =>
    let (result, repository) := repository.names tree
    (.names result, repository)
  | .component reference name =>
    let (result, repository) := repository.environment tree name
    (.component (meaning reference result), repository)

end EnvironmentRepository

namespace Environments

open EnvironmentRepository

/-- What the environments of one moment answer to a request. -/
def answer (environments : Environments) : Request → Answer
  | .environment name => .environment (environments.environment name)
  | .names => .names environments.names
  | .component reference name => .component (environments.component reference name)

/-- A reference means in an environment what it means by all that is known of the environment. -/
theorem component_eq_meaning (environments : Environments) (reference name : String) :
    environments.component reference name =
      meaning reference (environments.environment name) := by
  rw [component]
  cases environments.environment name with
  | ok environment => rfl
  | error error => cases error <;> rfl

end Environments

end DeployConfig
