import DeployConfig.Proofs.Environment.Entries
import DeployConfig.Proofs.Environment.Inclusions

/-!
# Overriding a group

A group is overridden on its entries: the entries of the overriding group replace those that are
there, if it has any, excluded names are taken out, and each appended entry is added unless it is
there. This module compares that with overriding the components that the entries stand for
(`Group.Definition.changedComponents`).

Taking names out comes to the same when no entry dangles. Adding does not, since entries are compared
as texts: an appended entry that denotes a component of the group, but is spelled in another way, is
added once more. Apart from that there is no difference (`map_foldl_addNew_iff`), and with it the
environment has two components of one name (`changedEntries_spec`).
-/

set_option autoImplicit false

namespace DeployConfig

/-! ## Adding what is not there -/

section Adding

variable {α β : Type} [DecidableEq α] [DecidableEq β] {read : α → β} {list new : List α}
  {element : α}

/-- Adds an element to a list unless it is there. -/
def addNew (list : List α) (element : α) : List α :=
  if element ∈ list then list else list ++ [element]

theorem addNew_of_mem (there : element ∈ list) : addNew list element = list :=
  if_pos there

theorem addNew_of_not_mem (fresh : element ∉ list) : addNew list element = list ++ [element] :=
  if_neg fresh

theorem mem_addNew {found : α} : found ∈ addNew list element ↔ found ∈ list ∨ found = element := by
  by_cases there : element ∈ list
  · rw [addNew_of_mem there]
    constructor
    · exact .inl
    · rintro (here | rfl)
      · exact here
      · exact there
  · rw [addNew_of_not_mem there, List.mem_append, List.mem_singleton]

theorem mem_foldl_addNew {found : α} :
    found ∈ new.foldl addNew list ↔ found ∈ list ∨ found ∈ new := by
  induction new generalizing list with
  | nil => simp
  | cons element new ih => rw [List.foldl_cons, ih, mem_addNew, List.mem_cons, or_assoc]

/-- What is there stays at the front. -/
theorem prefix_foldl_addNew (list new : List α) : list <+: new.foldl addNew list := by
  induction new generalizing list with
  | nil => exact List.prefix_rfl
  | cons element new ih =>
    refine List.IsPrefix.trans ?_ (ih (addNew list element))
    rw [addNew]
    split
    · exact List.prefix_rfl
    · exact List.prefix_append list [element]

/-- One of the elements that are added one after the other is read like an element before it, but is
different from all of them. -/
def Respells (read : α → β) (list new : List α) : Prop :=
  ∃ front element back, new = front ++ element :: back ∧
    read element ∈ (list ++ front).map read ∧ element ∉ list ++ front

omit [DecidableEq α] [DecidableEq β] in
theorem not_respells_nil : ¬ Respells read list [] := by
  rintro ⟨front, element, back, split, _⟩
  exact List.append_ne_nil_of_right_ne_nil front (List.cons_ne_nil element back) split.symm

omit [DecidableEq β] in
/-- The first of the elements is read like one that is there, or one of the others is. -/
theorem respells_cons_iff :
    Respells read list (element :: new) ↔
      (read element ∈ list.map read ∧ element ∉ list) ∨ Respells read (addNew list element) new := by
  have same (front : List α) (found : α) :
      found ∈ addNew list element ++ front ↔ found ∈ list ++ element :: front := by
    rw [List.mem_append, mem_addNew, List.mem_append, List.mem_cons, or_assoc]
  constructor
  · rintro ⟨front, again, back, split, reads, differs⟩
    cases front with
    | nil =>
      obtain ⟨rfl, rfl⟩ := List.cons.inj split
      rw [List.append_nil] at reads differs
      exact .inl ⟨reads, differs⟩
    | cons first front =>
      obtain ⟨rfl, rfl⟩ := List.cons.inj split
      refine .inr ⟨front, again, back, rfl, ?_, mt (same front again).mp differs⟩
      obtain ⟨former, member, reads⟩ := List.mem_map.mp reads
      exact List.mem_map.mpr ⟨former, (same front former).mpr member, reads⟩
  · rintro (⟨reads, differs⟩ | ⟨front, again, back, rfl, reads, differs⟩)
    · refine ⟨[], element, new, rfl, ?_, ?_⟩
      · rwa [List.append_nil]
      · rwa [List.append_nil]
    · refine ⟨element :: front, again, back, rfl, ?_, mt (same front again).mpr differs⟩
      obtain ⟨former, member, reads⟩ := List.mem_map.mp reads
      exact List.mem_map.mpr ⟨former, (same front former).mp member, reads⟩

/-- When the readings of all elements are there already, at least as many elements are added as
readings. -/
theorem length_foldl_addNew_le {readings : List β}
    (within : ∀ element ∈ list, read element ∈ readings) (new : List α) :
    list.length + ((new.map read).foldl addNew readings).length ≤
      readings.length + (new.foldl addNew list).length := by
  induction new generalizing list readings with
  | nil => exact Nat.le_of_eq (Nat.add_comm list.length readings.length)
  | cons element new ih =>
    rw [List.map_cons, List.foldl_cons, List.foldl_cons]
    by_cases there : element ∈ list
    · rw [addNew_of_mem there, addNew_of_mem (within element there)]
      exact ih within
    · rw [addNew_of_not_mem there]
      by_cases known : read element ∈ readings
      · have within' : ∀ other ∈ list ++ [element], read other ∈ readings :=
          List.forall_mem_append.mpr ⟨within, List.forall_mem_singleton.mpr known⟩
        have later := ih within'
        rw [addNew_of_mem known]
        rw [List.length_append, List.length_singleton] at later
        omega
      · have within' : ∀ other ∈ list ++ [element], read other ∈ readings ++ [read element] := by
          refine List.forall_mem_append.mpr ⟨?_, ?_⟩
          · intro other here
            exact List.mem_append_left _ (within other here)
          · refine List.forall_mem_singleton.mpr ?_
            exact List.mem_append_right _ List.mem_cons_self
        have later := ih within'
        rw [addNew_of_not_mem known]
        rw [List.length_append, List.length_append, List.length_singleton,
          List.length_singleton] at later
        omega

/-- **Adding elements and reading them is adding what is read, as long as nothing is spelled in
another way.** -/
theorem map_foldl_addNew_iff :
    (new.foldl addNew list).map read = (new.map read).foldl addNew (list.map read) ↔
      ¬ Respells read list new := by
  induction new generalizing list with
  | nil => exact iff_of_true rfl not_respells_nil
  | cons element new ih =>
    rw [List.map_cons, List.foldl_cons, List.foldl_cons, respells_cons_iff, not_or]
    by_cases there : element ∈ list
    · have reads : read element ∈ list.map read := List.mem_map_of_mem there
      rw [addNew_of_mem there, addNew_of_mem reads, ih]
      simp [there]
    · by_cases reads : read element ∈ list.map read
      · -- From here on there is one element more than there are readings.
        have within : ∀ other ∈ list ++ [element], read other ∈ list.map read :=
          List.forall_mem_append.mpr
            ⟨fun _ => List.mem_map_of_mem, List.forall_mem_singleton.mpr reads⟩
        have longer := length_foldl_addNew_le within new
        rw [addNew_of_not_mem there, addNew_of_mem reads]
        refine iff_of_false (fun same => ?_) fun stable => stable.1 ⟨reads, there⟩
        have lengths := congrArg List.length same
        rw [List.length_map] at lengths
        rw [List.length_append, List.length_singleton, List.length_map] at longer
        omega
      · have step : list.map read ++ [read element] = (list ++ [element]).map read := by
          rw [List.map_append, List.map_singleton]
        rw [addNew_of_not_mem there, addNew_of_not_mem reads, step, ih]
        simp [reads]

omit [DecidableEq β] in
/-- What is spelled in another way is read twice. -/
theorem not_nodup_of_respells (respells : Respells read list new) :
    ¬ ((new.foldl addNew list).map read).Nodup := by
  obtain ⟨front, element, back, rfl, reads, differs⟩ := respells
  intro distinct
  have before : ∀ found, found ∈ front.foldl addNew list ↔ found ∈ list ++ front := by
    intro found
    rw [mem_foldl_addNew, List.mem_append]
  have fresh : element ∉ front.foldl addNew list := mt (before element).mp differs
  have starts : front.foldl addNew list ++ [element] <+:
      (front ++ element :: back).foldl addNew list := by
    rw [List.foldl_append, List.foldl_cons, addNew_of_not_mem fresh]
    exact prefix_foldl_addNew _ back
  have twice := ((starts.map read).sublist).nodup distinct
  rw [List.map_append, List.map_singleton] at twice
  obtain ⟨former, member, same⟩ := List.mem_map.mp reads
  refine List.disjoint_of_nodup_append twice ?_ List.mem_cons_self
  exact List.mem_map.mpr ⟨former, (before former).mpr member, same⟩

end Adding

namespace Group.Definition

open Component

variable {base upper : Group.Definition}

/-! ## Entries and components -/

/-- The entries that an overridden group starts from. -/
def listed (base upper : Group.Definition) : List String :=
  if upper.components.isEmpty then base.components else upper.components

/-- The entries that are left when the excluded names are taken out. -/
def keptEntries (base upper : Group.Definition) : List String :=
  (listed base upper).filter fun entry => !(upper.exclude.map entryName).contains (entryName entry)

theorem changedEntries_eq (base upper : Group.Definition) :
    changedEntries base upper = upper.append.foldl addNew (keptEntries base upper) := by
  have same : appendEntry = addNew := by
    funext entries entry
    simp [appendEntry, addNew]
  rw [← same]
  rfl

/-- The group `base` overridden on components: the ones it starts from, without those that have the
name of an excluded one, and with the appended ones that are not there yet. -/
def changedComponents (base upper : Group.Definition) : List Component :=
  let excluded := upper.exclude.map fun entry => (ofEntry entry).name
  let kept := ((listed base upper).map ofEntry).filter fun component =>
    !excluded.contains component.name
  (upper.append.map ofEntry).foldl addNew kept

/-- When no entry dangles, names are taken out alike. -/
theorem map_keptEntries
    (stable : ∀ entry ∈ listed base upper ++ upper.exclude, ¬ Dangles entry) :
    (keptEntries base upper).map ofEntry =
      ((listed base upper).map ofEntry).filter fun component =>
        !(upper.exclude.map fun entry => (ofEntry entry).name).contains component.name := by
  have excluded : upper.exclude.map entryName =
      upper.exclude.map fun entry => (ofEntry entry).name := by
    refine List.map_congr_left fun entry member => ?_
    exact entryName_eq_iff.mpr (stable entry (List.mem_append_right _ member))
  rw [keptEntries, excluded, List.filter_map]
  refine congrArg _ (List.filter_congr fun entry member => ?_)
  rw [Function.comp_apply,
    entryName_eq_iff.mpr (stable entry (List.mem_append_left _ member))]

/-- **Overriding entries is overriding components, apart from appended entries that spell a component
in another way.** As long as no entry dangles, it comes to the same exactly when no appended entry
denotes a component that is there, or was appended before, without being written like an entry that
is there or was appended. And wherever one does, an environment with that group has a name that
components share. -/
theorem changedEntries_spec (base upper : Group.Definition) :
    ((∀ entry ∈ listed base upper ++ upper.exclude, ¬ Dangles entry) →
      ((changedEntries base upper).map ofEntry = changedComponents base upper ↔
        ¬ Respells ofEntry (keptEntries base upper) upper.append)) ∧
    (Respells ofEntry (keptEntries base upper) upper.append →
      ∀ (definition : Environment.Definition) (name : String),
        base.changedBy upper ∈ definition.groups →
          (definition.toEnvironment name).sharedName? ≠ none) := by
  constructor
  · intro stable
    rw [changedEntries_eq, changedComponents, ← map_keptEntries stable]
    exact map_foldl_addNew_iff
  · intro respells definition name member none
    have distinct := Environment.sharedName?_eq_none_iff.mp none
    apply not_nodup_of_respells respells
    rw [← changedEntries_eq]
    have listed : ((base.changedBy upper).toGroup definition.ip).components.Sublist
        (definition.toEnvironment name).components :=
      List.sublist_flatten_of_mem (List.mem_map_of_mem (List.mem_map_of_mem member))
    exact (distinct.of_map).sublist listed

/-! ### A component that is appended again -/

/-- A group with one component. -/
def single : Group.Definition where
  name := "g"
  components := ["a"]

/-- The same group, with the component appended as it is written there, and in other words. -/
def appending : Group.Definition where
  name := "g"
  append := ["a", "b:a"]

def respelling : Group.Definition where
  name := "g"
  append := ["a:a"]

/-- An entry that is written as it stands is not added again, and a component that is spelled in
other words is repeated. -/
theorem changedEntries_single :
    (changedEntries single appending).map ofEntry = changedComponents single appending ∧
      ¬ Respells ofEntry (keptEntries single appending) appending.append ∧
      ∀ (definition : Environment.Definition) (name : String),
        single.changedBy respelling ∈ definition.groups →
          (definition.toEnvironment name).sharedName? ≠ none := by
  have stable : ∀ entry ∈ listed single appending ++ appending.exclude, ¬ Dangles entry := by
    intro entry member
    obtain rfl : entry = "a" := List.mem_singleton.mp member
    exact not_dangles_of_not_mem (by decide)
  have same : (changedEntries single appending).map ofEntry =
      changedComponents single appending := by
    cbv
  have kept : keptEntries single respelling ++ [] = ["a"] := by decide
  have respells : Respells ofEntry (keptEntries single respelling) respelling.append := by
    refine ⟨[], "a:a", [], rfl, ?_, ?_⟩
    · rw [kept]
      exact List.mem_singleton.mpr (by decide)
    · rw [kept]
      decide
  exact ⟨same, ((changedEntries_spec single appending).1 stable).mp same,
    (changedEntries_spec single respelling).2 respells⟩

/-- The component is in the group twice, and its name is reported. -/
theorem changedEntries_respelling :
    (changedEntries single respelling).map ofEntry = [⟨"a", "a"⟩, ⟨"a", "a"⟩] ∧
      changedComponents single respelling = [⟨"a", "a"⟩] ∧
      EnvironmentIndex.checked "dev" [{ groups := [respelling] }, { groups := [single] }] =
        .error (.duplicateComponent "dev" "a") := by
  refine ⟨?_, ?_, ?_⟩ <;> cbv

end Group.Definition

end DeployConfig
