/-!
# A cache that fills each key once

The outcome of the first request for a key, success or failure, is kept and given to every later
request for that key. A request brings its own loader, which is run only when the key has never
been requested.
-/

set_option autoImplicit false

namespace DeployConfig

/-- The outcomes kept so far, oldest first, one for each requested key. -/
structure Memo (κ ε α : Type) where
  kept : List (κ × Except ε α)

/-- What a request gives back: the outcome, and whether its loader ran. -/
structure Memo.Served (ε α : Type) where
  outcome : Except ε α
  loaded : Bool

namespace Memo

variable {κ ε α : Type} [BEq κ]

/-- The cache of which nothing was requested yet. -/
def empty : Memo κ ε α := ⟨[]⟩

/-- The kept outcome of a key. -/
def find? (cache : Memo κ ε α) (key : κ) : Option (Except ε α) :=
  cache.kept.lookup key

/-- Requests `key`: a kept outcome is served again, otherwise `load` runs and its outcome is
kept. -/
def request (cache : Memo κ ε α) (key : κ) (load : Unit → Except ε α) :
    Served ε α × Memo κ ε α :=
  match cache.find? key with
  | some outcome => (⟨outcome, false⟩, cache)
  | none =>
    let outcome := load ()
    (⟨outcome, true⟩, ⟨cache.kept ++ [(key, outcome)]⟩)

/-- The number of keys requested so far. -/
def size (cache : Memo κ ε α) : Nat :=
  cache.kept.length

/-- Whether nothing was requested yet. -/
def isEmpty (cache : Memo κ ε α) : Bool :=
  cache.size == 0

end Memo

end DeployConfig
