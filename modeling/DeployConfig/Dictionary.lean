/-!
# Dictionaries in key order

The keyed data of a configuration (properties, environment names, config types) is always shown in
the order of its keys. A dictionary is a list of entries in strictly rising key order, so it has
one form only: two dictionaries that answer every key alike are equal (`ext_get?`).

The order of texts is the order of their code points, which is also the order of their UTF-8
bytes.
-/

set_option autoImplicit false

namespace DeployConfig

/-- A finite map from texts, listed in the order of the keys. -/
structure Dictionary (α : Type) where
  entries : List (String × α)
  ordered : entries.Pairwise fun first second => first.1 < second.1

namespace Dictionary

variable {α β : Type}

/-- Puts `value` under `key` into entries in key order; a value already there is replaced. -/
def insertEntry (key : String) (value : α) : List (String × α) → List (String × α)
  | [] => [(key, value)]
  | entry :: rest =>
    if key < entry.1 then (key, value) :: entry :: rest
    else if key = entry.1 then (key, value) :: rest
    else entry :: insertEntry key value rest

theorem mem_insertEntry {key : String} {value : α} {entry : String × α}
    {entries : List (String × α)} (member : entry ∈ insertEntry key value entries) :
    entry = (key, value) ∨ entry ∈ entries := by
  induction entries with
  | nil => simpa [insertEntry] using member
  | cons head rest ih =>
    unfold insertEntry at member
    split at member
    · simpa using member
    · split at member
      · rcases List.mem_cons.mp member with same | later
        · exact .inl same
        · exact .inr (List.mem_cons_of_mem _ later)
      · rcases List.mem_cons.mp member with same | later
        · exact .inr (same ▸ List.mem_cons_self)
        · exact (ih later).imp_right (List.mem_cons_of_mem _)

theorem ordered_insertEntry {key : String} {value : α} {entries : List (String × α)}
    (ordered : entries.Pairwise fun first second => first.1 < second.1) :
    (insertEntry key value entries).Pairwise fun first second => first.1 < second.1 := by
  induction entries with
  | nil => simp [insertEntry]
  | cons head rest ih =>
    obtain ⟨below, tail⟩ := List.pairwise_cons.mp ordered
    unfold insertEntry
    split
    · next smaller =>
      refine List.pairwise_cons.mpr ⟨fun entry member => ?_, ordered⟩
      rcases List.mem_cons.mp member with rfl | later
      · exact smaller
      · exact String.lt_trans smaller (below entry later)
    · next notSmaller =>
      split
      · next same =>
        exact List.pairwise_cons.mpr ⟨fun entry member => by
          subst same; exact below entry member, tail⟩
      · next different =>
        refine List.pairwise_cons.mpr ⟨fun entry member => ?_, ih tail⟩
        rcases mem_insertEntry member with rfl | earlier
        · exact Std.lt_of_le_of_ne (String.not_lt.mp notSmaller) (Ne.symm different)
        · exact below entry earlier

/-- The dictionary without entries. -/
def empty : Dictionary α := ⟨[], .nil⟩

instance : Inhabited (Dictionary α) := ⟨empty⟩

/-- Puts `value` under `key`, in place of any value already there. -/
def insert (dictionary : Dictionary α) (key : String) (value : α) : Dictionary α :=
  ⟨insertEntry key value dictionary.entries, ordered_insertEntry dictionary.ordered⟩

/-- The value under `key`. -/
def get? (dictionary : Dictionary α) (key : String) : Option α :=
  dictionary.entries.lookup key

/-- The keys, in rising order. -/
def keys (dictionary : Dictionary α) : List String :=
  dictionary.entries.map (·.1)

/-- Whether `key` has a value. -/
def contains (dictionary : Dictionary α) (key : String) : Bool :=
  (dictionary.get? key).isSome

/-- Inserts entries one after the other; of two entries with one key the later is kept. -/
def insertAll (dictionary : Dictionary α) (entries : List (String × α)) : Dictionary α :=
  entries.foldl (fun sofar entry => sofar.insert entry.1 entry.2) dictionary

/-- Whether an entry does not stand above another one, in the order from the highest key down. -/
def falling (first second : String × α) : Bool :=
  second.1 ≤ first.1

/-- The dictionary of a list of entries; of two entries with one key the later is kept. The entries
are inserted from the highest key down, so that each finds its place at the front. -/
def ofList (entries : List (String × α)) : Dictionary α :=
  empty.insertAll (entries.mergeSort falling)

/-- Lays `upper` over `lower`: a key of both has the value it has in `upper`. -/
def layeredOver (upper lower : Dictionary α) : Dictionary α :=
  lower.insertAll upper.entries

/-- Changes every value, keeping the keys. -/
def map (change : α → β) (dictionary : Dictionary α) : Dictionary β :=
  ⟨dictionary.entries.map fun entry => (entry.1, change entry.2),
    List.pairwise_map.mpr dictionary.ordered⟩

/-! ## What the operations do to the value of a key -/

/-- Looking a key up in a list tries the first entry and then the others. -/
theorem lookup_cons (key : String) (head : String × α) (rest : List (String × α)) :
    (head :: rest).lookup key = if key = head.1 then some head.2 else rest.lookup key := by
  obtain ⟨name, value⟩ := head
  by_cases same : key = name
  · subst same
    simp
  · have differs : (key == name) = false := by simpa using same
    simp [List.lookup_cons, differs, same]

theorem lookup_insertEntry (key other : String) (value : α) (entries : List (String × α)) :
    (insertEntry key value entries).lookup other =
      if other = key then some value else entries.lookup other := by
  induction entries with
  | nil => simp only [insertEntry, lookup_cons]
  | cons head rest ih =>
    unfold insertEntry
    split
    · rw [lookup_cons]
    · split
      · next same =>
        rw [lookup_cons, lookup_cons, ← same]
        split <;> rfl
      · next different =>
        rw [lookup_cons, lookup_cons, ih]
        by_cases here : other = head.1
        · subst here
          simp [Ne.symm different]
        · simp [here]

@[simp] theorem get?_empty (key : String) : (empty : Dictionary α).get? key = none := rfl

@[simp] theorem get?_insert (dictionary : Dictionary α) (key other : String) (value : α) :
    (dictionary.insert key value).get? other =
      if other = key then some value else dictionary.get? other :=
  lookup_insertEntry key other value dictionary.entries

theorem get?_insertAll (dictionary : Dictionary α) (entries : List (String × α)) (key : String) :
    (dictionary.insertAll entries).get? key =
      ((entries.reverse.lookup key).or (dictionary.get? key)) := by
  induction entries generalizing dictionary with
  | nil => simp [insertAll]
  | cons head rest ih =>
    have step : dictionary.insertAll (head :: rest) =
        (dictionary.insert head.1 head.2).insertAll rest := rfl
    rw [step, ih, get?_insert, List.reverse_cons, List.lookup_append, lookup_cons]
    by_cases same : key = head.1
    · cases rest.reverse.lookup key <;> simp [same]
    · simp [same]

/-- The value under a key hangs on the entries of that key alone. -/
theorem lookup_filter (key : String) (entries : List (String × α)) :
    (entries.filter (·.1 = key)).lookup key = entries.lookup key := by
  induction entries with
  | nil => rfl
  | cons head rest ih =>
    by_cases same : head.1 = key
    · simp [same, lookup_cons]
    · simp [same, lookup_cons, ih, Ne.symm same]

/-- Sorting leaves the entries of one key in their order. -/
theorem filter_mergeSort_falling (key : String) (entries : List (String × α)) :
    (entries.mergeSort falling).filter (·.1 = key) = entries.filter (·.1 = key) := by
  have kept : (entries.filter (·.1 = key)).Sublist (entries.mergeSort falling) := by
    refine List.sublist_mergeSort (fun first second third => ?_) (fun first second => ?_) ?_
      List.filter_sublist
    · simp only [falling, decide_eq_true_eq]
      exact fun above below => String.le_trans below above
    · simp only [falling, Bool.or_eq_true, decide_eq_true_eq]
      exact String.le_total second.1 first.1
    · refine List.pairwise_of_forall_mem_list fun first here second there => ?_
      have keys : first.1 = key ∧ second.1 = key := by
        simp only [List.mem_filter, decide_eq_true_eq] at here there
        exact ⟨here.2, there.2⟩
      simp [falling, keys.1, keys.2]
  have within := kept.filter (·.1 = key)
  simp only [List.filter_filter, Bool.and_self] at within
  exact (within.eq_of_length ((List.mergeSort_perm entries falling).filter _).length_eq.symm).symm

theorem get?_ofList (entries : List (String × α)) (key : String) :
    (ofList entries).get? key = entries.reverse.lookup key := by
  rw [ofList, get?_insertAll, get?_empty, Option.or_none, ← lookup_filter, List.filter_reverse,
    filter_mergeSort_falling, ← List.filter_reverse, lookup_filter]

theorem lookup_map_snd (change : α → β) (entries : List (String × α)) (key : String) :
    (entries.map fun entry => (entry.1, change entry.2)).lookup key =
      (entries.lookup key).map change := by
  induction entries with
  | nil => rfl
  | cons head rest ih =>
    rw [List.map_cons, lookup_cons, lookup_cons, ih]
    split <;> rfl

@[simp] theorem get?_map (change : α → β) (dictionary : Dictionary α) (key : String) :
    (dictionary.map change).get? key = (dictionary.get? key).map change :=
  lookup_map_snd change dictionary.entries key

theorem nodup_keys (dictionary : Dictionary α) : dictionary.keys.Nodup := by
  refine List.Pairwise.map _ (fun first second less same => ?_) dictionary.ordered
  exact String.lt_irrefl _ (same ▸ less)

theorem lookup_eq_none_of_notMem {key : String} {entries : List (String × α)}
    (absent : key ∉ entries.map (·.1)) : entries.lookup key = none := by
  refine List.lookup_eq_none_iff.mpr fun entry member => ?_
  have differs : key ≠ entry.1 := by
    rintro rfl
    exact absent (List.mem_map.mpr ⟨entry, member, rfl⟩)
  simpa using differs

/-- Where keys are different, a look-up finds a value exactly when the entry is listed. -/
theorem lookup_eq_some_iff_mem {entries : List (String × α)}
    (distinct : (entries.map (·.1)).Nodup) {key : String} {value : α} :
    entries.lookup key = some value ↔ (key, value) ∈ entries := by
  induction entries with
  | nil => simp
  | cons head rest ih =>
    obtain ⟨name, held⟩ := head
    obtain ⟨single, distinct⟩ := List.nodup_cons.mp distinct
    rw [lookup_cons]
    by_cases same : key = name
    · subst same
      have absent : (key, value) ∉ rest := fun later =>
        single (List.mem_map.mpr ⟨(key, value), later, rfl⟩)
      simp [absent, eq_comm]
    · simp [ih distinct, same]

/-- A value is found under a key exactly when the entry is listed. -/
theorem get?_eq_some {dictionary : Dictionary α} {key : String} {value : α} :
    dictionary.get? key = some value ↔ (key, value) ∈ dictionary.entries :=
  lookup_eq_some_iff_mem dictionary.nodup_keys

theorem mem_keys {dictionary : Dictionary α} {key : String} :
    key ∈ dictionary.keys ↔ (dictionary.get? key).isSome = true := by
  simp only [keys, List.mem_map, Option.isSome_iff_exists, get?_eq_some]
  constructor
  · rintro ⟨⟨name, value⟩, member, rfl⟩
    exact ⟨value, member⟩
  · rintro ⟨value, member⟩
    exact ⟨(key, value), member, rfl⟩

/-- Where keys are different, the order of the entries does not matter to a look-up. -/
theorem lookup_reverse {entries : List (String × α)} (distinct : (entries.map (·.1)).Nodup)
    (key : String) : entries.reverse.lookup key = entries.lookup key := by
  induction entries with
  | nil => rfl
  | cons head rest ih =>
    obtain ⟨single, distinct⟩ := List.nodup_cons.mp distinct
    rw [List.reverse_cons, List.lookup_append, ih distinct, lookup_cons, lookup_cons]
    by_cases same : key = head.1
    · rw [lookup_eq_none_of_notMem (same ▸ single), if_pos same]
      simp [same]
    · simp [same]

/-- A value is looked up in the upper dictionary, and then in the lower one. -/
@[simp] theorem get?_layeredOver (upper lower : Dictionary α) (key : String) :
    (upper.layeredOver lower).get? key = (upper.get? key).or (lower.get? key) := by
  rw [layeredOver, get?_insertAll, lookup_reverse upper.nodup_keys]
  rfl

/-- Entries in strictly rising key order are determined by the set of entries. -/
theorem eq_of_mem_iff {first second : List (String × α)}
    (orderedFirst : first.Pairwise fun a b => a.1 < b.1)
    (orderedSecond : second.Pairwise fun a b => a.1 < b.1)
    (same : ∀ entry, entry ∈ first ↔ entry ∈ second) : first = second := by
  induction first generalizing second with
  | nil =>
    cases second with
    | nil => rfl
    | cons head rest => exact absurd ((same head).mpr List.mem_cons_self) (by simp)
  | cons head rest ih =>
    cases second with
    | nil => exact absurd ((same head).mp List.mem_cons_self) (by simp)
    | cons other tail =>
      obtain ⟨belowFirst, tailFirst⟩ := List.pairwise_cons.mp orderedFirst
      obtain ⟨belowSecond, tailSecond⟩ := List.pairwise_cons.mp orderedSecond
      have heads : head = other := by
        rcases List.mem_cons.mp ((same head).mp List.mem_cons_self) with here | later
        · exact here
        · rcases List.mem_cons.mp ((same other).mpr List.mem_cons_self) with here | after
          · exact here.symm
          · exact absurd (belowFirst other after)
              (String.lt_asymm (belowSecond head later))
      subst heads
      congr 1
      refine ih tailFirst tailSecond fun entry => ?_
      have here := same entry
      simp only [List.mem_cons] at here
      constructor
      · intro member
        rcases here.mp (.inr member) with equal | other
        · exact absurd (equal ▸ belowFirst entry member) (String.lt_irrefl _)
        · exact other
      · intro member
        rcases here.mpr (.inr member) with equal | other
        · exact absurd (equal ▸ belowSecond entry member) (String.lt_irrefl _)
        · exact other

/-- Dictionaries that answer every key alike are equal. -/
theorem ext_get? {first second : Dictionary α}
    (same : ∀ key, first.get? key = second.get? key) : first = second := by
  have entries : first.entries = second.entries := by
    refine eq_of_mem_iff first.ordered second.ordered fun ⟨key, value⟩ => ?_
    rw [← get?_eq_some, ← get?_eq_some, same]
  cases first
  cases second
  cases entries
  rfl

end Dictionary

end DeployConfig
