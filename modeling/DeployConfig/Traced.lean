/-!
# Computations that keep a log

A traced computation lists the events it went through, in order, and ends in one of three ways:
with a value, with an error of its domain, or unfinished because its step budget ran out. Running
one computation after another joins their logs; an error or an exhausted budget stops the rest but
keeps the log up to that point.
-/

set_option autoImplicit false

namespace DeployConfig

/-- How a computation with a step budget ends. -/
inductive Outcome (ε α : Type) where
  | done (value : α)
  | failed (error : ε)
  | unfinished

/-- A computation's events and its end. -/
structure Traced (event ε α : Type) where
  log : List event
  outcome : Outcome ε α

namespace Outcome

variable {ε δ α : Type}

/-- An outcome whose computation had no budget to exhaust. -/
def ofExcept : Except ε α → Outcome ε α
  | .ok value => .done value
  | .error error => .failed error

/-- Restates the error of an outcome. -/
def mapError (restate : ε → δ) : Outcome ε α → Outcome δ α
  | .done value => .done value
  | .failed error => .failed (restate error)
  | .unfinished => .unfinished

end Outcome

namespace Traced

variable {event other ε δ α β : Type}

/-- Ends at once with a value. -/
def pure (value : α) : Traced event ε α := ⟨[], .done value⟩

/-- Ends at once with an error. -/
def fail (error : ε) : Traced event ε α := ⟨[], .failed error⟩

/-- Ends at once because the budget is used up. -/
def unfinished : Traced event ε α := ⟨[], .unfinished⟩

/-- Lists one event. -/
def note (happened : event) : Traced event ε Unit := ⟨[happened], .done ()⟩

/-- Ends like an `Except` value, without an event. -/
def ofExcept (result : Except ε α) : Traced event ε α := ⟨[], .ofExcept result⟩

/-- Runs `next` on the value of `first`. -/
def bind (first : Traced event ε α) (next : α → Traced event ε β) : Traced event ε β :=
  match first.outcome with
  | .done value =>
    let rest := next value
    ⟨first.log ++ rest.log, rest.outcome⟩
  | .failed error => ⟨first.log, .failed error⟩
  | .unfinished => ⟨first.log, .unfinished⟩

instance : Monad (Traced event ε) where
  pure := Traced.pure
  bind := Traced.bind

/-- Ends with an error as a value, so that the computation goes on. -/
def attempt (run : Traced event ε α) : Traced event δ (Except ε α) :=
  match run.outcome with
  | .done value => ⟨run.log, .done (.ok value)⟩
  | .failed error => ⟨run.log, .done (.error error)⟩
  | .unfinished => ⟨run.log, .unfinished⟩

/-- Restates the error and the events of a computation. -/
def restate (events : List event → List other) (errors : ε → δ) (run : Traced event ε α) :
    Traced other δ α :=
  ⟨events run.log, run.outcome.mapError errors⟩

/-! ## Small laws -/

@[ext] theorem ext {first second : Traced event ε α} (log : first.log = second.log)
    (outcome : first.outcome = second.outcome) : first = second := by
  cases first
  cases second
  cases log
  cases outcome
  rfl

theorem pure_bind (value : α) (next : α → Traced event ε β) :
    bind (pure value) next = next value := rfl

theorem bind_pure (run : Traced event ε α) : bind run pure = run := by
  obtain ⟨log, outcome⟩ := run
  cases outcome <;> simp [bind, pure]

theorem bind_assoc {γ : Type} (first : Traced event ε α) (next : α → Traced event ε β)
    (last : β → Traced event ε γ) :
    bind (bind first next) last = bind first fun value => bind (next value) last := by
  obtain ⟨log, outcome⟩ := first
  cases outcome with
  | done value =>
    cases ended : (next value).outcome <;> simp [bind, ended]
  | failed error => rfl
  | unfinished => rfl

instance : LawfulMonad (Traced event ε) := .mk' _
  (fun run => bind_pure run) (fun _ _ => rfl) (fun first next last => bind_assoc first next last)

/-- The log of one computation after another. -/
theorem log_bind (first : Traced event ε α) (next : α → Traced event ε β) :
    (bind first next).log =
      first.log ++
        match first.outcome with
        | .done value => (next value).log
        | _ => [] := by
  obtain ⟨log, outcome⟩ := first
  cases outcome <;> simp [bind]

theorem mem_log_bind_iff {first : Traced event ε α} {next : α → Traced event ε β}
    {happened : event} :
    happened ∈ (bind first next).log ↔
      happened ∈ first.log ∨
        ∃ value, first.outcome = .done value ∧ happened ∈ (next value).log := by
  obtain ⟨log, outcome⟩ := first
  cases outcome <;> simp [bind]

/-- What holds of all events of one computation after another holds of all events of both. -/
theorem forall_mem_log_bind_iff {first : Traced event ε α} {next : α → Traced event ε β}
    {holds : event → Prop} :
    (∀ happened ∈ (bind first next).log, holds happened) ↔
      (∀ happened ∈ first.log, holds happened) ∧
        ∀ value, first.outcome = .done value → ∀ happened ∈ (next value).log, holds happened := by
  obtain ⟨log, outcome⟩ := first
  cases outcome <;> simp [bind, or_imp, forall_and]

/-! ## How one computation after another ends -/

theorem outcome_bind_eq_done_iff {first : Traced event ε α} {next : α → Traced event ε β}
    {value : β} :
    (bind first next).outcome = .done value ↔
      ∃ middle, first.outcome = .done middle ∧ (next middle).outcome = .done value := by
  obtain ⟨log, outcome⟩ := first
  cases outcome <;> simp [bind]

theorem outcome_bind_eq_failed_iff {first : Traced event ε α} {next : α → Traced event ε β}
    {error : ε} :
    (bind first next).outcome = .failed error ↔
      first.outcome = .failed error ∨
        ∃ middle, first.outcome = .done middle ∧ (next middle).outcome = .failed error := by
  obtain ⟨log, outcome⟩ := first
  cases outcome <;> simp [bind]

theorem outcome_bind_eq_unfinished_iff {first : Traced event ε α} {next : α → Traced event ε β} :
    (bind first next).outcome = .unfinished ↔
      first.outcome = .unfinished ∨
        ∃ middle, first.outcome = .done middle ∧ (next middle).outcome = .unfinished := by
  obtain ⟨log, outcome⟩ := first
  cases outcome <;> simp [bind]

theorem outcome_bind_of_done {first : Traced event ε α} {next : α → Traced event ε β} {value : α}
    (done : first.outcome = .done value) : (bind first next).outcome = (next value).outcome := by
  simp only [bind, done]

/-- Listing an event does not change how a computation ends. -/
theorem outcome_note_bind (happened : event) (next : Unit → Traced event ε β) :
    (bind (note happened) next).outcome = (next ()).outcome := rfl

theorem outcome_bind_congr {first other : Traced event ε α} {next goOn : α → Traced event ε β}
    (same : first.outcome = other.outcome)
    (following : ∀ value, first.outcome = .done value →
      (next value).outcome = (goOn value).outcome) :
    (bind first next).outcome = (bind other goOn).outcome := by
  obtain ⟨log, outcome⟩ := first
  obtain ⟨log', outcome'⟩ := other
  cases same
  cases outcome with
  | done value => exact following value rfl
  | failed error => rfl
  | unfinished => rfl

/-- Restating errors and events does not change a value. -/
theorem outcome_restate_eq_done_iff {events : List event → List other} {errors : ε → δ}
    {run : Traced event ε α} {value : α} :
    (restate events errors run).outcome = .done value ↔ run.outcome = .done value := by
  obtain ⟨log, outcome⟩ := run
  cases outcome <;> simp [restate, Outcome.mapError]

theorem outcome_restate_eq_unfinished_iff {events : List event → List other} {errors : ε → δ}
    {run : Traced event ε α} :
    (restate events errors run).outcome = .unfinished ↔ run.outcome = .unfinished := by
  obtain ⟨log, outcome⟩ := run
  cases outcome <;> simp [restate, Outcome.mapError]

/-- Restating the errors of one computation after another restates them in both. -/
theorem restate_bind (errors : ε → δ) (first : Traced event ε α) (next : α → Traced event ε β) :
    restate id errors (bind first next) =
      bind (restate id errors first) fun value => restate id errors (next value) := by
  obtain ⟨log, outcome⟩ := first
  cases outcome <;> rfl

/-- Only what follows a value matters. -/
theorem bind_congr {first : Traced event ε α} {next other : α → Traced event ε β}
    (same : ∀ value, first.outcome = .done value → next value = other value) :
    bind first next = bind first other := by
  obtain ⟨log, outcome⟩ := first
  cases outcome with
  | done value => simp only [bind, same value rfl]
  | failed error => rfl
  | unfinished => rfl

end Traced

end DeployConfig
