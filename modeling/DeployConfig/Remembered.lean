/-!
# Functions that remember

Some functions take long and are asked for the same few arguments again and again, such as what a
file holds. A remembered function keeps one lazy value for each argument that is expected: it is
worked out when the argument is first asked for, and from then on it is at hand. Any other argument
is worked out each time.

Remembering shows in nothing but the time that an answer takes: a remembered function answers
everything like the function it was made from (`value_of`).
-/

set_option autoImplicit false

namespace DeployConfig

/-- A function with the lazy values that are kept for some of its arguments. -/
structure Remembered (α β : Type) where
  function : α → β
  kept : List (α × Thunk β)
  agrees : ∀ entry ∈ kept, entry.2.get = function entry.1

namespace Remembered

variable {α β : Type}

/-- Remembers a function for the expected arguments. -/
def of (expected : List α) (function : α → β) : Remembered α β where
  function := function
  kept := expected.map fun argument => (argument, Thunk.mk fun _ => function argument)
  agrees := by
    intro entry member
    obtain ⟨argument, _, rfl⟩ := List.mem_map.mp member
    rfl

variable [DecidableEq α]

/-- The value of a remembered function. -/
def value (remembered : Remembered α β) (argument : α) : β :=
  match remembered.kept.find? (·.1 = argument) with
  | some entry => entry.2.get
  | none => remembered.function argument

instance : CoeFun (Remembered α β) fun _ => α → β := ⟨value⟩

/-- A remembered function has the values of the function it keeps them for. -/
theorem value_eq (remembered : Remembered α β) (argument : α) :
    remembered argument = remembered.function argument := by
  unfold value
  split
  · next entry found =>
    have same : entry.1 = argument := by simpa using List.find?_some found
    rw [remembered.agrees entry (List.mem_of_find?_eq_some found), same]
  · rfl

/-- Remembering changes no value, whichever arguments were expected. -/
@[simp] theorem value_of (expected : List α) (function : α → β) (argument : α) :
    of expected function argument = function argument :=
  value_eq _ argument

end Remembered

end DeployConfig
