import DeployConfig.Proofs.Memo
import Mathlib.Data.Finset.Card
import Mathlib.Data.Finset.Dedup

/-!
# A cache asked again and again

Requests to a cache come one after the other, each with its own loader. What a request is served is
decided by what is kept for its key (`served_request`), and what is kept for a key after any
requests is decided by the first of them that was for this key (`find?_serve`). So every request is
served what the loader of the first request for its key gives, and only that request runs its loader
(`served_eq_first`). The loader of any other request could be another one
(`serve_exchange`), and what is served for a key would be the same without the requests for other
keys (`served_for`). Each requested key is kept once, hence the size of the cache is the number of
different keys that were requested (`size_serve`).

The main result, `serve_spec`, says this of a cache of which nothing was requested before.
-/

set_option autoImplicit false

namespace DeployConfig.Memo

/-- A request for a key, with the loader that it brings. -/
structure Request (κ ε α : Type) where
  key : κ
  load : Unit → Except ε α

variable {κ ε α : Type}

/-! ## Serving requests in turn -/

section Serving

variable [BEq κ]

/-- Serves requests one after the other: what each of them is served, and the cache after them. -/
def serve (cache : Memo κ ε α) : List (Request κ ε α) → List (Served ε α) × Memo κ ε α
  | [] => ([], cache)
  | request :: later =>
    let (served, cache) := cache.request request.key request.load
    let (others, cache) := cache.serve later
    (served :: others, cache)

/-- The first of some requests that is for a key. -/
def first? (key : κ) (requests : List (Request κ ε α)) : Option (Request κ ε α) :=
  requests.find? (·.key == key)

theorem serve_cons (cache : Memo κ ε α) (request : Request κ ε α)
    (later : List (Request κ ε α)) :
    cache.serve (request :: later) =
      ((cache.request request.key request.load).1 ::
          ((cache.request request.key request.load).2.serve later).1,
        ((cache.request request.key request.load).2.serve later).2) := rfl

theorem serve_append (cache : Memo κ ε α) (earlier later : List (Request κ ε α)) :
    cache.serve (earlier ++ later) =
      ((cache.serve earlier).1 ++ ((cache.serve earlier).2.serve later).1,
        ((cache.serve earlier).2.serve later).2) := by
  induction earlier generalizing cache with
  | nil => rfl
  | cons request earlier ih =>
    rw [List.cons_append, serve_cons, serve_cons, ih]
    rfl

theorem length_serve (cache : Memo κ ε α) (requests : List (Request κ ε α)) :
    (cache.serve requests).1.length = requests.length := by
  induction requests generalizing cache with
  | nil => rfl
  | cons request later ih => rw [serve_cons, List.length_cons, ih, List.length_cons]

/-- A request is served by the cache as it is after the earlier ones. -/
theorem getElem?_serve (cache : Memo κ ε α) (earlier : List (Request κ ε α))
    (request : Request κ ε α) (later : List (Request κ ε α)) :
    (cache.serve (earlier ++ request :: later)).1[earlier.length]? =
      some ((cache.serve earlier).2.request request.key request.load).1 := by
  rw [serve_append, ← cache.length_serve earlier, List.getElem?_append_right (Nat.le_refl _),
    Nat.sub_self]
  rfl

/-- What is served is decided by what is kept for the key. -/
theorem served_request (cache : Memo κ ε α) (key : κ) (load : Unit → Except ε α) :
    (cache.request key load).1 =
      ⟨(cache.find? key).getD (load ()), (cache.find? key).isNone⟩ := by
  cases kept : cache.find? key with
  | some outcome => rw [request_of_kept kept]; rfl
  | none => rw [loaded_request_of_new kept]; rfl

end Serving

/-! ## What is kept -/

section Lawful

variable [BEq κ] [LawfulBEq κ] {cache other : Memo κ ε α} {key : κ}

theorem first?_key_cons (request : Request κ ε α) (later : List (Request κ ε α)) :
    first? request.key (request :: later) = some request :=
  List.find?_cons_of_pos (beq_self_eq_true _)

theorem first?_cons_of_ne {request : Request κ ε α} (other : request.key ≠ key)
    (later : List (Request κ ε α)) : first? key (request :: later) = first? key later :=
  List.find?_cons_of_neg (by simpa using other)

theorem isSome_first?_iff {requests : List (Request κ ε α)} :
    (first? key requests).isSome ↔ key ∈ requests.map Request.key := by
  simp [first?]

/-- **What is kept for a key after some requests** is what was kept before, or else what the loader
of the first request for the key gives. -/
theorem find?_serve (cache : Memo κ ε α) (requests : List (Request κ ε α)) (key : κ) :
    (cache.serve requests).2.find? key =
      (cache.find? key).or ((first? key requests).map (·.load ())) := by
  induction requests generalizing cache with
  | nil => exact (Option.or_none).symm
  | cons request later ih =>
    rw [serve_cons, ih, find?_request, served_request]
    by_cases same : request.key = key
    · subst same
      rw [first?_key_cons, beq_self_eq_true, if_pos rfl, Option.some_or]
      cases cache.find? request.key <;> rfl
    · have apart : (key == request.key) = false := by simpa using Ne.symm same
      rw [first?_cons_of_ne same, apart, if_neg Bool.false_ne_true]

/-- **A request to a new cache is served what the loader of the first request for its key gives**,
and runs its own loader exactly when it is that request. -/
theorem served_eq_first (earlier : List (Request κ ε α)) (request : Request κ ε α)
    (later : List (Request κ ε α)) :
    ∃ first, first? request.key (earlier ++ request :: later) = some first ∧
      ((empty : Memo κ ε α).serve (earlier ++ request :: later)).1[earlier.length]? =
        some ⟨first.load (), (first? request.key earlier).isNone⟩ := by
  have found : first? request.key (earlier ++ request :: later) =
      (first? request.key earlier).or (some request) := by
    rw [first?, List.find?_append]
    exact congrArg _ (first?_key_cons request later)
  rw [getElem?_serve, served_request, find?_serve, find?_empty, Option.none_or, found]
  cases first? request.key earlier with
  | some first => exact ⟨first, rfl, rfl⟩
  | none => exact ⟨request, rfl, rfl⟩

/-- The loader of a request for a key that was requested before does not matter. -/
theorem serve_exchange (cache : Memo κ ε α) {earlier : List (Request κ ε α)}
    {request : Request κ ε α} (later : List (Request κ ε α))
    (again : request.key ∈ earlier.map Request.key) (load : Unit → Except ε α) :
    cache.serve (earlier ++ { request with load } :: later) =
      cache.serve (earlier ++ request :: later) := by
  obtain ⟨outcome, kept⟩ : ∃ outcome, (cache.serve earlier).2.find? request.key = some outcome := by
    obtain ⟨first, isFirst⟩ := Option.isSome_iff_exists.mp (isSome_first?_iff.mpr again)
    rw [find?_serve, isFirst]
    cases cache.find? request.key with
    | some outcome => exact ⟨outcome, rfl⟩
    | none => exact ⟨first.load (), rfl⟩
  rw [serve_append, serve_append, serve_cons, serve_cons, request_of_kept kept,
    request_of_kept kept]

/-- **What is served for a key is decided by the requests for this key alone.** -/
theorem served_for (same : cache.find? key = other.find? key)
    (requests : List (Request κ ε α)) :
    ((requests.zip (cache.serve requests).1).filter (·.1.key == key)).map (·.2) =
      (other.serve (requests.filter (·.key == key))).1 := by
  induction requests generalizing cache other with
  | nil => rfl
  | cons request later ih =>
    rw [serve_cons, List.zip_cons_cons, List.filter_cons, List.filter_cons]
    by_cases here : request.key = key
    · subst here
      have alike : (cache.request request.key request.load).1 =
          (other.request request.key request.load).1 := by
        rw [served_request, served_request, same]
      rw [if_pos (beq_self_eq_true _), if_pos (beq_self_eq_true _), List.map_cons, serve_cons,
        alike]
      congr 1
      refine ih ?_
      rw [find?_request, find?_request, alike, same]
    · have differs : (request.key == key) = false := by simpa using here
      have apart : (key == request.key) = false := by simpa using Ne.symm here
      rw [if_neg (by simp [differs]), if_neg (by simp [differs])]
      refine ih ?_
      rw [find?_request, apart, if_neg Bool.false_ne_true, same]

end Lawful

/-! ## How much is kept -/

section Size

variable [DecidableEq κ]

/-- The keys for which something is kept. -/
def keys (cache : Memo κ ε α) : List κ :=
  cache.kept.map (·.1)

theorem mem_keys_iff (cache : Memo κ ε α) (key : κ) :
    key ∈ cache.keys ↔ (cache.find? key).isSome := by
  rw [keys, find?, List.lookup_isSome_iff, List.mem_map]
  constructor
  · rintro ⟨entry, member, rfl⟩
    exact ⟨entry, member, beq_self_eq_true _⟩
  · rintro ⟨entry, member, same⟩
    exact ⟨entry, member, (eq_of_beq same).symm⟩

theorem nodup_keys_request {cache : Memo κ ε α} (nodup : cache.keys.Nodup) (key : κ)
    (load : Unit → Except ε α) : (cache.request key load).2.keys.Nodup := by
  cases kept : cache.find? key with
  | some outcome => rwa [request_of_kept kept]
  | none =>
    have absent : key ∉ cache.keys := by simp [mem_keys_iff, kept]
    have appended : (cache.request key load).2.keys = cache.keys ++ [key] := by
      simp [request, kept, keys]
    rw [appended]
    exact List.nodup_append.mpr ⟨nodup, List.nodup_singleton key, by
      rintro _ member _ last rfl
      exact absent (List.mem_singleton.mp last ▸ member)⟩

/-- No key is kept twice. -/
theorem nodup_keys_serve {cache : Memo κ ε α} (nodup : cache.keys.Nodup)
    (requests : List (Request κ ε α)) : (cache.serve requests).2.keys.Nodup := by
  induction requests generalizing cache with
  | nil => exact nodup
  | cons request later ih => exact ih (nodup_keys_request nodup request.key request.load)

/-- **The size of a cache is the number of different keys that were requested.** -/
theorem size_serve (requests : List (Request κ ε α)) :
    ((empty : Memo κ ε α).serve requests).2.size =
      (requests.map Request.key).toFinset.card := by
  have fresh : (empty : Memo κ ε α).keys.Nodup := List.nodup_nil
  have nodup := nodup_keys_serve fresh requests
  have same : (empty.serve requests).2.keys.toFinset = (requests.map Request.key).toFinset := by
    ext key
    rw [List.mem_toFinset, List.mem_toFinset, mem_keys_iff, find?_serve, find?_empty,
      Option.none_or, Option.isSome_map, isSome_first?_iff]
  rw [← same, List.toFinset_card_of_nodup nodup, keys, List.length_map, size]

/-- **A cache fills each key once.** In a run of requests to a new cache, each with its own loader,
every request is served the outcome, a failure as well as a value, of the loader of the first
request for its key. That request runs its loader and no other one does, so any other loader could
be replaced by a different one. What is served for a key is what would be served without the
requests for other keys. The size of the cache is the number of different keys that were
requested, whatever came of them. -/
theorem serve_spec (requests : List (Request κ ε α)) :
    let served := ((empty : Memo κ ε α).serve requests).1
    let cache := ((empty : Memo κ ε α).serve requests).2
    served.length = requests.length ∧
    (∀ earlier request later, requests = earlier ++ request :: later →
      ∃ first, first? request.key requests = some first ∧
        served[earlier.length]? =
          some ⟨first.load (), decide (request.key ∉ earlier.map Request.key)⟩) ∧
    (∀ earlier request later load, requests = earlier ++ request :: later →
      request.key ∈ earlier.map Request.key →
        empty.serve (earlier ++ { request with load } :: later) = (served, cache)) ∧
    (∀ key, ((requests.zip served).filter (·.1.key == key)).map (·.2) =
      (empty.serve (requests.filter (·.key == key))).1) ∧
    cache.size = (requests.map Request.key).toFinset.card ∧
    (cache.isEmpty = true ↔ requests = []) := by
  intro served cache
  have counted : cache.size = (requests.map Request.key).toFinset.card := size_serve requests
  refine ⟨length_serve empty requests, ?_, ?_, fun key => served_for rfl requests, counted, ?_⟩
  · rintro earlier request later whole
    obtain ⟨first, isFirst, answered⟩ := served_eq_first earlier request later
    rw [← whole] at isFirst answered
    have ran : (first? request.key earlier).isNone =
        decide (request.key ∉ earlier.map Request.key) := by
      rw [Bool.eq_iff_iff, decide_eq_true_iff, ← isSome_first?_iff, Bool.not_eq_true,
        Option.isSome_eq_false_iff]
    exact ⟨first, isFirst, ran ▸ answered⟩
  · rintro earlier request later load rfl again
    exact serve_exchange empty later again load
  · rw [isEmpty, counted, beq_iff_eq, Finset.card_eq_zero, List.toFinset_eq_empty_iff,
      List.map_eq_nil_iff]

/-- Requests for two keys. The first one fails, and the later ones bring loaders that would give
something else. -/
def reread : List (Request String String Nat) :=
  [⟨"dev", fun _ => .error "broken"⟩, ⟨"prod", fun _ => .ok 1⟩, ⟨"dev", fun _ => .ok 2⟩,
    ⟨"prod", fun _ => .error "late"⟩]

/-- The third request is served the failure of the first one, whatever its loader would give, and
the cache is of size two. -/
theorem serve_reread :
    reread = [⟨"dev", fun _ => .error "broken"⟩, ⟨"prod", fun _ => .ok 1⟩] ++
        ⟨"dev", fun _ => .ok 2⟩ :: [⟨"prod", fun _ => .error "late"⟩] ∧
      ((empty : Memo String String Nat).serve reread).1[2]? = some ⟨.error "broken", false⟩ ∧
      "dev" ∈ ["dev", "prod"] ∧
      (empty : Memo String String Nat).serve
          ([⟨"dev", fun _ => .error "broken"⟩, ⟨"prod", fun _ => .ok 1⟩] ++
            ⟨"dev", fun _ => .ok 5⟩ :: [⟨"prod", fun _ => .error "late"⟩]) =
        empty.serve reread ∧
      ((empty : Memo String String Nat).serve reread).2.size = 2 := by
  obtain ⟨_, firsts, exchange, _, size, _⟩ := serve_spec reread
  have again : "dev" ∈ ["dev", "prod"] := by decide
  refine ⟨rfl, ?_, again, ?_, size⟩
  · obtain ⟨first, isFirst, served⟩ :=
      firsts [⟨"dev", fun _ => .error "broken"⟩, ⟨"prod", fun _ => .ok 1⟩]
        ⟨"dev", fun _ => .ok 2⟩ [⟨"prod", fun _ => .error "late"⟩] rfl
    cases isFirst
    exact served
  · exact exchange [⟨"dev", fun _ => .error "broken"⟩, ⟨"prod", fun _ => .ok 1⟩]
      ⟨"dev", fun _ => .ok 2⟩ [⟨"prod", fun _ => .error "late"⟩] (fun _ => .ok 5) rfl again

end Size

end DeployConfig.Memo
