import DeployConfig.Environment.Basic
import Mathlib.Data.List.Nodup

/-!
# Names of components

In an environment a component is told by its name. A look-up finds a component in its group, and of
all groups in the first that has one of the name; the outcome is the first component of the name
among all components of the environment (`Environment.componentNamed_eq`). So the names that a
look-up knows are the names of the components (`componentNamed_eq_none_iff`).

Before an environment is used, the names are gone through in order, and the first one that was met
before is reported: `sharedName?_eq_some_iff` says which name that is, and `sharedName?_eq_none_iff`
that every name belongs to one component when none is reported.
-/

set_option autoImplicit false

namespace DeployConfig

/-- `element` stands in a list behind an equal element, and nothing before it is repeated. -/
def FirstRepeated {α : Type} (list : List α) (element : α) : Prop :=
  ∃ earlier later, list = earlier ++ element :: later ∧ earlier.Nodup ∧ element ∈ earlier

section Repetitions

variable {α : Type} {list : List α} {element other : α}

/-- An element is the first that is repeated when it stands behind different ones, in whichever
order, and is among them. -/
theorem FirstRepeated.of_mem (distinct : list.Nodup) (again : element ∈ list) (later : List α) :
    FirstRepeated (list.reverse ++ element :: later) element :=
  ⟨list.reverse, later, rfl, List.nodup_reverse.mpr distinct, List.mem_reverse.mpr again⟩

/-- Where an element is repeated, the elements are not all different. -/
theorem FirstRepeated.not_nodup (repeated : FirstRepeated list element) : ¬ list.Nodup := by
  obtain ⟨earlier, later, rfl, _, again⟩ := repeated
  intro distinct
  exact List.disjoint_of_nodup_append distinct again List.mem_cons_self

/-- Only one element is the first that is repeated. -/
theorem FirstRepeated.unique (first : FirstRepeated list element)
    (second : FirstRepeated list other) : element = other := by
  obtain ⟨earlier, later, rfl, distinct, again⟩ := first
  obtain ⟨earlier', later', split, distinct', again'⟩ := second
  rcases List.append_eq_append_iff.mp split with ⟨middle, rfl, heads⟩ | ⟨middle, rfl, heads⟩
  · cases middle with
    | nil => exact (List.cons.inj heads).1
    | cons head middle =>
      obtain ⟨rfl, _⟩ := List.cons.inj heads
      exact absurd List.mem_cons_self (List.disjoint_of_nodup_append distinct' again)
  · cases middle with
    | nil => exact (List.cons.inj heads).1.symm
    | cons head middle =>
      obtain ⟨rfl, _⟩ := List.cons.inj heads
      exact absurd List.mem_cons_self (List.disjoint_of_nodup_append distinct again')

end Repetitions

namespace Environment

/-! ## Looking a component up -/

/-- In a group the first component of a name is found. -/
theorem map_component_locateIn (group : Group) (name : String) :
    (locateIn group name).map (·.component) = group.components.find? (·.name == name) := by
  rw [List.find?_eq_bind_findIdx?_getElem?, locateIn]
  cases group.components.findIdx? (·.name == name) with
  | none => rfl
  | some index =>
    cases held : group.components[index]? with
    | none => simp [held]
    | some component => simp [held]

/-- A component is found by its name among all components of an environment. -/
theorem componentNamed_eq (environment : Environment) (name : String) :
    environment.componentNamed name = environment.components.find? (·.name == name) := by
  rw [componentNamed, locate, List.map_findSome?, components, List.find?_flatMap]
  congr 1
  funext group
  exact map_component_locateIn group name

/-- A look-up finds nothing exactly when no component has the name. -/
theorem componentNamed_eq_none_iff {environment : Environment} {name : String} :
    environment.componentNamed name = none ↔
      name ∉ environment.components.map (·.name) := by
  rw [componentNamed_eq, List.find?_eq_none]
  simp

/-! ## Names that are shared -/

/-- Behind the names that were seen the first repeated one is looked for. -/
theorem sharedName?_go_eq_some_iff {seen names : List String} {name : String}
    (distinct : seen.Nodup) :
    sharedName?.go seen names = some name ↔ FirstRepeated (seen.reverse ++ names) name := by
  induction names generalizing seen with
  | nil =>
    have nothing : ¬ FirstRepeated (seen.reverse ++ []) name := by
      intro repeated
      apply repeated.not_nodup
      simpa using distinct
    simpa [sharedName?.go] using nothing
  | cons head rest ih =>
    rw [sharedName?.go]
    by_cases before : head ∈ seen
    · have here : FirstRepeated (seen.reverse ++ head :: rest) head := .of_mem distinct before rest
      simp only [List.contains_iff_mem, before, if_true, Option.some.injEq]
      constructor
      · rintro rfl
        exact here
      · exact here.unique
    · simp only [List.contains_iff_mem, before, if_false]
      rw [ih (List.nodup_cons.mpr ⟨before, distinct⟩)]
      simp

/-- Behind the names that were seen none is repeated when all are different. -/
theorem sharedName?_go_eq_none_iff {seen names : List String} (distinct : seen.Nodup) :
    sharedName?.go seen names = none ↔ (seen.reverse ++ names).Nodup := by
  induction names generalizing seen with
  | nil => simpa [sharedName?.go] using distinct
  | cons head rest ih =>
    rw [sharedName?.go]
    by_cases before : head ∈ seen
    · have here : FirstRepeated (seen.reverse ++ head :: rest) head := .of_mem distinct before rest
      simp [before, here.not_nodup]
    · simp only [List.contains_iff_mem, before, if_false]
      rw [ih (List.nodup_cons.mpr ⟨before, distinct⟩)]
      simp

/-- **The name that is reported is the first one that two components share.** -/
theorem sharedName?_eq_some_iff {environment : Environment} {name : String} :
    environment.sharedName? = some name ↔
      FirstRepeated (environment.components.map (·.name)) name :=
  sharedName?_go_eq_some_iff List.nodup_nil

/-- **No name is reported exactly when no two components share one.** -/
theorem sharedName?_eq_none_iff {environment : Environment} :
    environment.sharedName? = none ↔ (environment.components.map (·.name)).Nodup :=
  sharedName?_go_eq_none_iff List.nodup_nil

end Environment

end DeployConfig
