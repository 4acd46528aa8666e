import DeployConfig.Proofs.Environment.Fallback

/-!
# Registering definitions

The definitions of an index are registered one after the other, each under its name and then under
its aliases, and the first name that is taken stops it all. Registering a definition puts it up
under one name after another (`postingsOf`), so that a list of definitions is registered exactly
when no name is put up twice (`registerAll_eq_ok_iff`), whether the two belong to one definition or
to two and whichever is an alias. What is then found under a name is what was put up there
(`registered_iff_of_registerAll`).

Neither of these depends on the order of the definitions. A definition that could not be read is put
up under its own name alone, so that leaving it out only takes that name away
(`registerAll_without_failed`). The main result is `registerAll_spec`.
-/

set_option autoImplicit false

namespace DeployConfig

namespace EnvironmentIndex

variable {items others : List (String × Registered)} {index next : EnvironmentIndex}
  {postings : List (String × Registered)} {name known : String} {entry : Registered}

/-! ## What is put up -/

/-- The names that a named definition is registered under: its own and its aliases. -/
def listed (item : String × Registered) : List String :=
  item.1 :: Registered.aliases item.2

/-- Named definitions under all their names, in the order in which they are registered. -/
def postingsOf (items : List (String × Registered)) : List (String × Registered) :=
  items.flatMap fun item => (listed item).map fun name => (name, item.2)

/-- Puts up definitions under one name each, which must be free. -/
def putUp (index : EnvironmentIndex) (postings : List (String × Registered)) :
    Except EnvironmentError EnvironmentIndex :=
  postings.foldlM (fun index posting => addName posting.2 index posting.1) index

/-- Registers named definitions one after the other. -/
def registerAll (items : List (String × Registered)) : Except EnvironmentError EnvironmentIndex :=
  items.foldlM (fun index item => index.register item.1 item.2) empty

theorem putUp_append (index : EnvironmentIndex) (front back : List (String × Registered)) :
    index.putUp (front ++ back) = (index.putUp front).bind (putUp · back) :=
  List.foldlM_append

theorem register_eq_putUp (index : EnvironmentIndex) (item : String × Registered) :
    index.register item.1 item.2 =
      index.putUp ((listed item).map fun name => (name, item.2)) := by
  rw [putUp, List.foldlM_map]
  rfl

/-- Definitions are registered by being put up under all their names. -/
theorem registerAll_eq_putUp (items : List (String × Registered)) :
    registerAll items = empty.putUp (postingsOf items) := by
  have follows : ∀ index : EnvironmentIndex,
      items.foldlM (fun index item => index.register item.1 item.2) index =
        index.putUp (postingsOf items) := by
    induction items with
    | nil => intro index; rfl
    | cons item rest ih =>
      intro index
      rw [List.foldlM_cons, register_eq_putUp, postingsOf, List.flatMap_cons, putUp_append]
      exact congrArg (Except.bind _) (funext ih)
  exact follows empty

theorem map_fst_postingsOf (items : List (String × Registered)) :
    (postingsOf items).map (·.1) = items.flatMap listed := by
  rw [postingsOf, List.map_flatMap]
  congr 1
  funext item
  exact (List.map_map ..).trans (List.map_id _)

theorem mem_postingsOf :
    (known, entry) ∈ postingsOf items ↔ ∃ item ∈ items, known ∈ listed item ∧ entry = item.2 := by
  simp [postingsOf, eq_comm]

theorem addName_of_taken {taken : Registered} (held : index.registered.get? name = some taken) :
    addName entry index name =
      .error (.duplicateDefinition name taken.origin entry.origin) := by
  rw [addName, held]

theorem addName_of_free (free : index.registered.get? name = none) :
    addName entry index name = .ok ⟨index.registered.insert name entry⟩ := by
  rw [addName, free]

theorem putUp_cons_of_free (free : index.registered.get? name = none)
    (rest : List (String × Registered)) :
    index.putUp ((name, entry) :: rest) =
      putUp ⟨index.registered.insert name entry⟩ rest := by
  rw [putUp, List.foldlM_cons, addName_of_free free]
  rfl

theorem putUp_cons_of_taken {taken : Registered} (held : index.registered.get? name = some taken)
    (rest : List (String × Registered)) :
    index.putUp ((name, entry) :: rest) =
      .error (.duplicateDefinition name taken.origin entry.origin) := by
  rw [putUp, List.foldlM_cons, addName_of_taken held]
  rfl

/-- Definitions are put up exactly when their names are different and free. -/
theorem putUp_eq_ok_iff :
    index.putUp postings = .ok next ↔
      (postings.map (·.1)).Nodup ∧
      (∀ name ∈ postings.map (·.1), index.registered.get? name = none) ∧
      next = ⟨index.registered.insertAll postings⟩ := by
  induction postings generalizing index with
  | nil =>
    constructor
    · rintro ⟨⟩
      exact ⟨List.nodup_nil, List.forall_mem_nil _, rfl⟩
    · rintro ⟨_, _, rfl⟩
      rfl
  | cons posting rest ih =>
    obtain ⟨name, entry⟩ := posting
    rw [List.map_cons, List.nodup_cons, List.forall_mem_cons]
    cases held : index.registered.get? name with
    | some taken =>
      rw [putUp_cons_of_taken held rest]
      constructor
      · rintro ⟨⟩
      · rintro ⟨_, ⟨⟨⟩, _⟩, _⟩
    | none =>
      have still : ∀ other, (index.registered.insert name entry).get? other = none ↔
          other ≠ name ∧ index.registered.get? other = none := by
        intro other
        rw [Dictionary.get?_insert]
        by_cases same : other = name <;> simp [same]
      rw [putUp_cons_of_free held rest, ih]
      simp only [still]
      constructor
      · rintro ⟨distinct, free, rfl⟩
        exact ⟨⟨fun again => (free name again).1 rfl, distinct⟩,
          ⟨trivial, fun other member => (free other member).2⟩, rfl⟩
      · rintro ⟨⟨single, distinct⟩, ⟨_, free⟩, rfl⟩
        refine ⟨distinct, fun other member => ⟨?_, free other member⟩, rfl⟩
        rintro rfl
        exact single member

/-- **Definitions are registered exactly when no name is listed twice.** -/
theorem registerAll_eq_ok_iff :
    registerAll items = .ok index ↔
      (items.flatMap listed).Nodup ∧ index = ⟨Dictionary.empty.insertAll (postingsOf items)⟩ := by
  rw [registerAll_eq_putUp, putUp_eq_ok_iff, map_fst_postingsOf]
  constructor
  · rintro ⟨distinct, _, made⟩
    exact ⟨distinct, made⟩
  · rintro ⟨distinct, made⟩
    exact ⟨distinct, fun _ _ => rfl, made⟩

theorem exists_registerAll_iff :
    (∃ index, registerAll items = .ok index) ↔ (items.flatMap listed).Nodup := by
  constructor
  · rintro ⟨index, made⟩
    exact (registerAll_eq_ok_iff.mp made).1
  · intro distinct
    exact ⟨_, registerAll_eq_ok_iff.mpr ⟨distinct, rfl⟩⟩

theorem lookup_insertAll_empty (distinct : (postings.map (·.1)).Nodup) :
    (Dictionary.empty.insertAll postings).get? known = some entry ↔ (known, entry) ∈ postings := by
  rw [Dictionary.get?_insertAll, Dictionary.lookup_reverse distinct, Dictionary.get?_empty,
    Option.or_none, Dictionary.lookup_eq_some_iff_mem distinct]

/-- **What is found under a name is the definition that lists it.** -/
theorem registered_iff_of_registerAll (made : registerAll items = .ok index) :
    index.registered.get? known = some entry ↔
      ∃ item ∈ items, known ∈ listed item ∧ entry = item.2 := by
  obtain ⟨distinct, rfl⟩ := registerAll_eq_ok_iff.mp made
  rw [← map_fst_postingsOf] at distinct
  exact (lookup_insertAll_empty distinct).trans mem_postingsOf

theorem mem_names_of_registerAll (made : registerAll items = .ok index) :
    known ∈ index.names ↔ known ∈ items.flatMap listed := by
  rw [names, Dictionary.mem_keys, Option.isSome_iff_exists, List.mem_flatMap]
  simp only [registered_iff_of_registerAll made]
  constructor
  · rintro ⟨_, item, member, lists, _⟩
    exact ⟨item, member, lists⟩
  · rintro ⟨item, member, lists⟩
    exact ⟨item.2, item, member, lists, rfl⟩

/-- **Registering stops at the first name that is repeated.** -/
theorem registerAll_of_firstRepeated (repeated : FirstRepeated (items.flatMap listed) name) :
    ∃ first second,
      registerAll items = .error (.duplicateDefinition name first second) := by
  obtain ⟨earlier, later, split, distinct, again⟩ := repeated
  rw [← map_fst_postingsOf] at split
  obtain ⟨front, behind, whole, rfl, rest⟩ := List.map_eq_append_iff.mp split
  obtain ⟨⟨_, entry⟩, back, rfl, rfl, _⟩ := List.map_eq_cons_iff.mp rest
  have before : empty.putUp front = .ok ⟨Dictionary.empty.insertAll front⟩ :=
    putUp_eq_ok_iff.mpr ⟨distinct, fun _ _ => rfl, rfl⟩
  obtain ⟨⟨_, taken⟩, member, rfl⟩ := List.mem_map.mp again
  have held := (lookup_insertAll_empty distinct).mpr member
  refine ⟨taken.origin, entry.origin, ?_⟩
  rw [registerAll_eq_putUp, whole, putUp_append, before]
  exact putUp_cons_of_taken held back

/-! ## The order of the definitions -/

/-- **The same definitions in another order make the same index.** -/
theorem registerAll_of_perm (made : registerAll items = .ok index) (perm : others.Perm items) :
    registerAll others = .ok index := by
  have distinct : (others.flatMap listed).Nodup :=
    (perm.flatMap_right listed).nodup_iff.mpr (registerAll_eq_ok_iff.mp made).1
  obtain ⟨next, again⟩ := exists_registerAll_iff.mpr distinct
  have same : next.registered = index.registered := by
    refine Dictionary.ext_get? fun known => Option.ext fun entry => ?_
    rw [registered_iff_of_registerAll again, registered_iff_of_registerAll made]
    simp only [perm.mem_iff]
  rw [again]
  exact congrArg (fun registered => Except.ok (EnvironmentIndex.mk registered)) same

/-! ## Definitions that could not be read -/

/-- A definition that could not be read is listed under its own name alone. -/
theorem listed_of_failed {error : EnvironmentError} (fails : entry.definition = .error error) :
    listed (name, entry) = [name] := by
  rw [listed, Registered.aliases, fails]

/-- **Leaving out a definition that could not be read only takes its name away.** -/
theorem registerAll_without_failed {front back : List (String × Registered)}
    {error : EnvironmentError} (made : registerAll (front ++ (name, entry) :: back) = .ok index)
    (fails : entry.definition = .error error) :
    ∃ rest, registerAll (front ++ back) = .ok rest ∧ name ∉ rest.names ∧
      ∀ known, known ≠ name → rest.registered.get? known = index.registered.get? known := by
  have first := registerAll_of_perm made List.perm_middle.symm
  have distinct := (registerAll_eq_ok_iff.mp first).1
  rw [List.flatMap_cons, listed_of_failed fails, List.singleton_append, List.nodup_cons] at distinct
  obtain ⟨rest, remade⟩ := exists_registerAll_iff.mpr distinct.2
  refine ⟨rest, remade, mt (mem_names_of_registerAll remade).mp distinct.1, ?_⟩
  intro known other
  refine Option.ext fun found => ?_
  rw [registered_iff_of_registerAll remade, registered_iff_of_registerAll first]
  have elsewhere : known ∉ listed (name, entry) := by
    rw [listed_of_failed fails, List.mem_singleton]
    exact other
  simp only [List.mem_cons, exists_eq_or_imp, elsewhere, false_and, false_or]

/-- **Registering definitions does not depend on their order, and loses no name.** A list of named
definitions, each of which was read or could not be, is registered exactly when all names and
aliases in it are different; otherwise the first that is repeated is reported. The index that is
made has these names, in order, and under each of them the definition that lists it, and every
permutation of the list makes the same index. A definition that could not be read is found under its
own name; without it this name is gone, and all others stand for what they stood for. -/
theorem registerAll_spec (items : List (String × Registered)) :
    ((∃ index, registerAll items = .ok index) ↔ (items.flatMap listed).Nodup) ∧
    (∀ name, FirstRepeated (items.flatMap listed) name →
      ∃ first second, registerAll items = .error (.duplicateDefinition name first second)) ∧
    (∀ index, registerAll items = .ok index →
      index.names.Pairwise (· < ·) ∧
      (∀ known, known ∈ index.names ↔ known ∈ items.flatMap listed) ∧
      (∀ item ∈ items, ∀ known ∈ listed item, index.definition known = item.2.definition) ∧
      (∀ others, others.Perm items → registerAll others = .ok index) ∧
      (∀ front name entry error back, items = front ++ (name, entry) :: back →
        entry.definition = .error error →
        index.definition name = .error error ∧
        ∃ rest, registerAll (front ++ back) = .ok rest ∧ name ∉ rest.names ∧
          ∀ known ∈ index.names, known ≠ name →
            known ∈ rest.names ∧ rest.definition known = index.definition known)) := by
  refine ⟨exists_registerAll_iff, fun _ => registerAll_of_firstRepeated, fun index made => ?_⟩
  have found : ∀ item ∈ items, ∀ known ∈ listed item,
      index.definition known = item.2.definition := by
    intro item member known lists
    exact definition_of_some
      ((registered_iff_of_registerAll made).mpr ⟨item, member, lists, rfl⟩)
  refine ⟨index.pairwise_names, fun _ => mem_names_of_registerAll made, found,
    fun _ => registerAll_of_perm made, ?_⟩
  rintro front name entry error back rfl fails
  obtain ⟨rest, remade, gone, same⟩ := registerAll_without_failed made fails
  have failed := (found (name, entry) (by simp) name List.mem_cons_self).trans fails
  refine ⟨failed, rest, remade, gone, ?_⟩
  intro known there other
  have held := same known other
  refine ⟨?_, definition_congr there held⟩
  rw [names, Dictionary.mem_keys, held]
  exact Dictionary.mem_keys.mp there

/-- An environment with an alias. -/
def devItem : String × Registered :=
  ("dev", ⟨"envs/dev.toml", .ok { aliases := ["development"] }⟩)

/-- A file that holds no definition. -/
def badItem : String × Registered :=
  ("bad", ⟨"envs/bad.toml", .error (.malformed "envs/bad.toml" "no table")⟩)

/-- Beside a definition that could not be read an environment has both its names, in whichever order
they are registered; a file called like an alias stops it. -/
theorem registerAll_devAndBad :
    ∃ index rest,
      registerAll [devItem, badItem] = .ok index ∧
      [badItem, devItem].Perm [devItem, badItem] ∧ registerAll [badItem, devItem] = .ok index ∧
      index.definition "development" = devItem.2.definition ∧
      index.definition "bad" = badItem.2.definition ∧
      registerAll [devItem] = .ok rest ∧ "bad" ∉ rest.names ∧
      rest.definition "development" = index.definition "development" ∧
      FirstRepeated ([devItem, ("development", badItem.2)].flatMap listed) "development" ∧
      ∃ first second, registerAll [devItem, ("development", badItem.2)] =
        .error (.duplicateDefinition "development" first second) := by
  obtain ⟨index, made⟩ := (registerAll_spec [devItem, badItem]).1.mpr (by decide)
  obtain ⟨_, known, found, reordered, without⟩ :=
    (registerAll_spec [devItem, badItem]).2.2 index made
  obtain ⟨failed, rest, remade, gone, same⟩ := without [devItem] "bad" _ _ [] rfl rfl
  have there : "development" ∈ index.names := (known "development").mpr (by decide)
  have repeated : FirstRepeated ([devItem, ("development", badItem.2)].flatMap listed)
      "development" := ⟨["dev", "development"], [], rfl, by decide, by decide⟩
  have swapped : [badItem, devItem].Perm [devItem, badItem] := List.Perm.swap devItem badItem []
  exact ⟨index, rest, made, swapped, reordered _ swapped,
    found devItem (by simp) "development" (by decide), failed, remade, gone,
    (same "development" there (by decide)).2, repeated,
    (registerAll_spec [devItem, ("development", badItem.2)]).2.1 "development" repeated⟩

/-! ## The indexes that there are -/

/-- An index that was made by registering definitions. -/
def Built (index : EnvironmentIndex) : Prop := ∃ items, registerAll items = .ok index

end EnvironmentIndex

namespace EnvironmentCatalog

open EnvironmentIndex

/-- What the definition files below a directory hold, in path order, with the names of the files. -/
def filed (tree : FileTree) (directory : Path) : List (String × Registered) :=
  let files := (tree.below directory).filterMap fun (path, entry) =>
    match entry with
    | .file _ => if isDefinitionFile path then some path else none
    | .directory => none
  (Path.sort files).filterMap fun path => path.stem?.map fun name => (name, readFile tree path)

theorem readDirectory_eq_registerAll (tree : FileTree) (directory : Path) :
    readDirectory tree directory = registerAll (filed tree directory) := by
  rw [registerAll, filed, List.foldlM_filterMap]
  refine congrArg (fun step => List.foldlM step _ _) ?_
  funext index path
  cases path.stem? <;> rfl

theorem Declared.built {index : EnvironmentIndex} (declared : Declared index) : index.Built := by
  induction declared with
  | empty => exact ⟨[], rfl⟩
  | @register index next name origin definition before registered ih =>
    obtain ⟨items, made⟩ := ih
    refine ⟨items ++ [(name, ⟨origin, .ok definition⟩)], ?_⟩
    rw [registerAll] at made ⊢
    rw [List.foldlM_append, made]
    exact (bind_pure _).trans registered

/-- **What a catalog knows was made by registering definitions.** -/
theorem Made.built {catalog : EnvironmentCatalog} {tree : FileTree} {index : EnvironmentIndex}
    (made : catalog.Made) (current : catalog.current tree = .ok index) : index.Built := by
  induction made generalizing tree with
  | memory declared =>
    cases current
    exact declared.built
  | directory path => exact ⟨filed tree path, readDirectory_eq_registerAll tree path ▸ current⟩
  | used before earlier ih =>
    rw [current_used] at current
    exact ih current

end EnvironmentCatalog

end DeployConfig
