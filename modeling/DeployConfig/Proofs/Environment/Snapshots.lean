import DeployConfig.Environment.Repository
import DeployConfig.Proofs.Memo

/-!
# A repository is a snapshot

Two things are kept between the requests to a repository: the definitions that its catalog has read,
and the environments that were made from them. The first request of any kind makes the catalog read,
and from then on the repository has settled (`Settled`): its catalog knows the same definitions
whatever becomes of the files, and what it has made are environments of these definitions. A
repository that was not asked yet, or that has settled, answers by the definitions alone, and is
settled afterwards (`Ready.ask`). By induction on the steps it follows that a run of requests, with
changes of the files between them, gives the answers that a new repository gives for the files of
the first request. This is the main result, `run_spec`.
-/

set_option autoImplicit false

namespace DeployConfig.EnvironmentRepository

variable {repository : EnvironmentRepository} {catalog : EnvironmentCatalog} {tree : FileTree}
  {index : Except EnvironmentError EnvironmentIndex}

/-! ## What is kept -/

/-- A repository has settled for an index, or for the reason why there is none: this is what its
catalog knows whatever becomes of the files, and what all that it has made comes from. -/
structure Settled (repository : EnvironmentRepository)
    (index : Except EnvironmentError EnvironmentIndex) : Prop where
  knows : ∀ later, repository.catalog.current later = index
  keeps : ∀ name result, repository.made.find? name = some result →
    result = index.bind (·.environment name)

/-- A repository is ready for an index when the catalog finds it in the files as they are, and the
repository has made nothing unless it has settled. -/
structure Ready (repository : EnvironmentRepository) (tree : FileTree)
    (index : Except EnvironmentError EnvironmentIndex) : Prop where
  finds : repository.catalog.current tree = index
  settled : ∀ name result, repository.made.find? name = some result → repository.Settled index

theorem Settled.ready (settled : repository.Settled index) (tree : FileTree) :
    repository.Ready tree index :=
  ⟨settled.knows tree, fun _ _ _ => settled⟩

/-- A repository that was not asked yet is ready for what its catalog finds. -/
theorem ready_of (catalog : EnvironmentCatalog) (tree : FileTree) :
    (of catalog).Ready tree (catalog.current tree) :=
  ⟨rfl, fun _ _ kept => nomatch kept⟩

/-! ## One request -/

theorem Ready.names (ready : repository.Ready tree index) :
    (repository.names tree).1 = (Environments.ofIndex index).names ∧
      (repository.names tree).2.Settled index := by
  refine ⟨?_, ⟨?_, ?_⟩⟩
  · rw [EnvironmentRepository.names, ready.finds]
    rfl
  · intro later
    rw [EnvironmentRepository.names, EnvironmentCatalog.current_used, ready.finds]
  · intro name result kept
    exact (ready.settled name result kept).keeps name result kept

/-- An environment that was made before is the one that would be made now. -/
theorem Ready.environment (ready : repository.Ready tree index) (name : String) :
    (repository.environment tree name).1 = (Environments.ofIndex index).environment name ∧
      (repository.environment tree name).2.Settled index := by
  rw [Environments.environment_ofIndex, EnvironmentRepository.environment, ready.finds]
  dsimp only
  cases held : repository.made.find? name with
  | some result =>
    have settled := ready.settled name result held
    rw [Memo.request_of_kept held, if_neg Bool.false_ne_true]
    exact ⟨settled.keeps name result held, settled⟩
  | none =>
    have served := Memo.loaded_request_of_new held fun _ => index.bind (·.environment name)
    rw [served, if_pos rfl]
    refine ⟨rfl, ⟨?_, ?_⟩⟩
    · intro later
      rw [EnvironmentCatalog.current_used, ready.finds]
    · intro other result kept
      rw [Memo.find?_request, served] at kept
      split at kept
      · next same =>
        cases kept
        rw [eq_of_beq same]
      · exact (ready.settled other result kept).keeps other result kept

/-- **A request is answered by the index alone**, and afterwards the repository has settled for
it. -/
theorem Ready.ask (ready : repository.Ready tree index) (request : Request) :
    (repository.ask tree request).1 = (Environments.ofIndex index).answer request ∧
      (repository.ask tree request).2.Settled index := by
  cases request with
  | environment name =>
    obtain ⟨same, settled⟩ := ready.environment name
    exact ⟨congrArg Answer.environment same, settled⟩
  | names =>
    obtain ⟨same, settled⟩ := ready.names
    exact ⟨congrArg Answer.names same, settled⟩
  | component reference name =>
    obtain ⟨same, settled⟩ := ready.environment name
    refine ⟨?_, settled⟩
    show Answer.component (meaning reference (repository.environment tree name).1) = _
    rw [same, Environments.answer, Environments.component_eq_meaning]

/-- A new repository answers like the environments of its catalog. -/
theorem ask_of (catalog : EnvironmentCatalog) (tree : FileTree) (request : Request) :
    ((of catalog).ask tree request).1 = (catalog.environments tree).answer request :=
  ((ready_of catalog tree).ask request).1

/-! ## Many requests -/

/-- A step of a run: a request, or a change of the files, such as that one is written
(`FileTree.write`) or removed (`FileTree.remove`). -/
inductive Step where
  | request (request : Request)
  | change (edit : FileTree → FileTree)

/-- The requests of a run, each with its answer. -/
def run (repository : EnvironmentRepository) (tree : FileTree) :
    List Step → List (Request × Answer)
  | [] => []
  | .request request :: rest =>
    let (answer, repository) := repository.ask tree request
    (request, answer) :: repository.run tree rest
  | .change edit :: rest => repository.run (edit tree) rest

/-- The requests among steps, in order. -/
def requests (steps : List Step) : List Request :=
  steps.filterMap fun
    | .request request => some request
    | .change _ => none

/-- The files when the first request is made. -/
def atFirstRequest (tree : FileTree) : List Step → FileTree
  | .change edit :: rest => atFirstRequest (edit tree) rest
  | _ => tree

/-- A repository that has settled answers every request by its index. -/
theorem Settled.run (settled : repository.Settled index) (tree : FileTree) (steps : List Step) :
    repository.run tree steps =
      (requests steps).map fun request =>
        (request, (Environments.ofIndex index).answer request) := by
  induction steps generalizing repository tree with
  | nil => rfl
  | cons step rest ih =>
    cases step with
    | change edit => exact ih settled (edit tree)
    | request request =>
      obtain ⟨same, after⟩ := (settled.ready tree).ask request
      show (request, (repository.ask tree request).1) ::
        (repository.ask tree request).2.run tree rest = _
      rw [same, ih after]
      rfl

/-- A new repository settles for the files of the first request. -/
theorem run_of (catalog : EnvironmentCatalog) (tree : FileTree) (steps : List Step) :
    (of catalog).run tree steps =
      (requests steps).map fun request =>
        (request, (catalog.environments (atFirstRequest tree steps)).answer request) := by
  induction steps generalizing tree with
  | nil => rfl
  | cons step rest ih =>
    cases step with
    | change edit => exact ih (edit tree)
    | request request =>
      obtain ⟨same, after⟩ := (ready_of catalog tree).ask request
      show (request, ((of catalog).ask tree request).1) ::
        ((of catalog).ask tree request).2.run tree rest = _
      rw [same, after.run]
      rfl

/-- **A repository is a snapshot of the files at its first request.** In a run of requests and
changes of the files, in any order, every answer is the one that a new repository gives to the same
request for the files as they were at the first request. So two runs with the same files at their
first requests give the same answer to the same request, whatever else is asked for before or
afterwards, and whatever becomes of the files. -/
theorem run_spec (catalog : EnvironmentCatalog) (tree : FileTree) (steps : List Step) :
    (of catalog).run tree steps =
        (requests steps).map (fun request =>
          (request, ((of catalog).ask (atFirstRequest tree steps) request).1)) ∧
      ∀ (other : FileTree) (others : List Step),
        atFirstRequest other others = atFirstRequest tree steps →
        ∀ request answer another, (request, answer) ∈ (of catalog).run tree steps →
          (request, another) ∈ (of catalog).run other others → another = answer := by
  refine ⟨?_, ?_⟩
  · rw [run_of]
    simp only [ask_of]
  · intro other others same request answer another here there
    rw [run_of, List.mem_map] at here there
    obtain ⟨_, _, first⟩ := here
    obtain ⟨_, _, second⟩ := there
    cases first
    cases second
    rw [same]

/-- A file that is written before the first request shows, and its removal afterwards does not. -/
example : (of (.ofDirectory ⟨"/envs"⟩)).run .empty
    [.change (·.write ["envs", "dev.json"] "{}".toUTF8), .request .names,
      .change (·.remove ["envs"]), .request .names] =
    [(.names, .names (.ok ["dev"])), (.names, .names (.ok ["dev"]))] := by
  cbv

end DeployConfig.EnvironmentRepository
