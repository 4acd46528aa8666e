import DeployConfig.Memo
import Mathlib.Data.List.Basic

/-!
# What a cache serves

A request to a cache is served what is kept for its key, or else what its own loader gives, which is
kept from then on (`Memo.outcome_request`, `Memo.find?_request`). No other key is touched.
-/

set_option autoImplicit false

namespace DeployConfig.Memo

variable {κ ε α : Type} [BEq κ]

/-- Nothing is kept in the cache of which nothing was requested. -/
theorem find?_empty (key : κ) : (empty : Memo κ ε α).find? key = none := rfl

/-- A kept outcome is served without a run of the loader. -/
theorem request_of_kept {cache : Memo κ ε α} {key : κ} {outcome : Except ε α}
    (held : cache.find? key = some outcome) (load : Unit → Except ε α) :
    cache.request key load = (⟨outcome, false⟩, cache) := by
  rw [request, held]

/-- The first request for a key runs its loader. -/
theorem loaded_request_of_new {cache : Memo κ ε α} {key : κ} (new : cache.find? key = none)
    (load : Unit → Except ε α) : (cache.request key load).1 = ⟨load (), true⟩ := by
  rw [request, new]

/-- A request is served what is kept for its key, or else what its own loader gives. -/
theorem outcome_request (cache : Memo κ ε α) (key : κ) (load : Unit → Except ε α) :
    (cache.request key load).1.outcome = (cache.find? key).getD (load ()) := by
  rw [request]
  cases cache.find? key <;> rfl

/-- After a request its key has what the request was served, and all other keys have what they had
before. -/
theorem find?_request [LawfulBEq κ] (cache : Memo κ ε α) (key other : κ)
    (load : Unit → Except ε α) :
    (cache.request key load).2.find? other =
      if other == key then some (cache.request key load).1.outcome else cache.find? other := by
  rw [request]
  by_cases same : other = key
  · subst same
    cases held : cache.find? other with
    | some outcome => simp [held]
    | none =>
      have absent : cache.kept.lookup other = none := held
      simp [find?, List.lookup_append, absent]
  · have differs : (other == key) = false := by simpa using same
    cases held : cache.find? key with
    | some outcome => simp [differs]
    | none => simp [find?, List.lookup_append, List.lookup_cons, differs]

end DeployConfig.Memo
