import DeployConfig.Environment.Definition
import Mathlib.Data.List.Nodup

/-!
# Layers

A definition is laid over the merged definition of the environment that it includes. This module
says what becomes of the groups.

When the groups below have different names, a layer keeps them in their order, without those that it
drops, and puts groups of new names behind them, each where its name comes first. A group that is
kept is overridden by the groups of its name in the layer, one after the other, and the first group
of a new name by the later ones (`layAllOver_eq`). So the names stay different
(`nodup_layAllOver`). `LaidOver` sums this up for a layer.

A layer over a definition that says nothing makes the environment that it makes by itself, unless
two of its groups share a name: these are joined, though by itself the layer has both
(`toEnvironment_layeredOver_iff`).
-/

set_option autoImplicit false

namespace DeployConfig

namespace Group.Definition

variable {name : String} {upper base group : Group.Definition}
  {uppers groups : List Group.Definition}

/-- The names of groups, in order. -/
def namesOf (groups : List Group.Definition) : List String :=
  groups.map (·.name)

/-- The groups of a name, in order. -/
def named (name : String) (groups : List Group.Definition) : List Group.Definition :=
  groups.filter (·.name == name)

/-- A group overridden by groups of its name, one after the other. -/
def overriddenBy (base : Group.Definition) (uppers : List Group.Definition) : Group.Definition :=
  uppers.foldl changedBy base

/-- The group that groups of one name make: the first of them, overridden by the others. -/
def joined : List Group.Definition → Option Group.Definition
  | [] => none
  | first :: later => some (first.overriddenBy later)

/-- The names of groups that are not there yet, each where it comes first. -/
def freshNames (there : List String) (uppers : List Group.Definition) : List String :=
  ((namesOf uppers).filter fun name => !there.contains name).eraseDups

/-- Lays groups over groups, one after the other. -/
def layAllOver (uppers groups : List Group.Definition) : List Group.Definition :=
  uppers.foldl (fun groups group => group.layOver groups) groups

/-! ## A group and those that override it -/

@[simp] theorem name_overriddenBy (base : Group.Definition) (uppers : List Group.Definition) :
    (base.overriddenBy uppers).name = base.name := by
  induction uppers generalizing base with
  | nil => rfl
  | cons upper uppers ih => exact ih (base.changedBy upper)

theorem overriddenBy_append (base : Group.Definition) (lower upper : List Group.Definition) :
    base.overriddenBy (lower ++ upper) = (base.overriddenBy lower).overriddenBy upper :=
  List.foldl_append

/-- The address of a group is the last one that is set. -/
theorem ip_overriddenBy (base : Group.Definition) (uppers : List Group.Definition) :
    (base.overriddenBy uppers).ip = (uppers.reverse.findSome? (·.ip)).or base.ip := by
  induction uppers generalizing base with
  | nil => rfl
  | cons upper uppers ih =>
    calc ((base.changedBy upper).overriddenBy uppers).ip
      _ = (uppers.reverse.findSome? (·.ip)).or (upper.ip.or base.ip) := ih (base.changedBy upper)
      _ = ((upper :: uppers).reverse.findSome? (·.ip)).or base.ip := by
        rw [List.reverse_cons, List.findSome?_append, Option.or_assoc, List.findSome?_singleton]

theorem joined_append {lower : List Group.Definition} (made : joined lower = some group)
    (uppers : List Group.Definition) :
    joined (lower ++ uppers) = some (group.overriddenBy uppers) := by
  cases lower with
  | nil => cases made
  | cons first later =>
    cases made
    rw [List.cons_append, joined, overriddenBy_append]

theorem ip_of_joined (made : joined groups = some group) :
    group.ip = groups.reverse.findSome? (·.ip) := by
  cases groups with
  | nil => cases made
  | cons first later =>
    cases made
    rw [ip_overriddenBy, List.reverse_cons, List.findSome?_append, List.findSome?_singleton]

theorem mem_named : group ∈ named name groups ↔ group ∈ groups ∧ group.name = name := by
  rw [named, List.mem_filter, beq_iff_eq]

theorem name_of_joined_named (made : joined (named name groups) = some group) :
    group.name = name := by
  cases split : named name groups with
  | nil =>
    rw [split] at made
    cases made
  | cons first later =>
    rw [split] at made
    cases made
    have member : first ∈ named name groups := split ▸ List.mem_cons_self
    rw [name_overriddenBy]
    exact (mem_named.mp member).2

/-! ## One group laid over others -/

theorem named_cons_of_ne (differs : upper.name ≠ name) :
    named name (upper :: uppers) = named name uppers := by
  simp [named, differs]

theorem named_cons_self : named upper.name (upper :: uppers) = upper :: named upper.name uppers := by
  simp [named]

theorem named_eq_nil_iff : named name groups = [] ↔ name ∉ namesOf groups := by
  simp [named, namesOf]

/-- Where names are different, a group is the only one of its name. -/
theorem named_of_nodup (distinct : (namesOf groups).Nodup) (member : group ∈ groups) :
    named group.name groups = [group] := by
  induction groups with
  | nil => cases member
  | cons head rest ih =>
    obtain ⟨single, distinct⟩ := List.nodup_cons.mp distinct
    rcases List.mem_cons.mp member with rfl | behind
    · rw [named_cons_self, named_eq_nil_iff.mpr single]
    · have differs : head.name ≠ group.name := by
        intro same
        exact single (List.mem_map.mpr ⟨group, behind, same.symm⟩)
      rw [named_cons_of_ne differs, ih distinct behind]

theorem mem_namesOf (member : group ∈ groups) : group.name ∈ namesOf groups :=
  List.mem_map_of_mem member

/-- A group of a new name is put behind the others. -/
theorem layOver_of_not_mem (fresh : upper.name ∉ namesOf groups) :
    upper.layOver groups = groups ++ [upper] := by
  induction groups with
  | nil => rfl
  | cons group groups ih =>
    have differs : group.name ≠ upper.name := by
      intro same
      exact fresh (List.mem_cons.mpr (.inl same.symm))
    simp [layOver, differs, ih fun member => fresh (List.mem_cons_of_mem _ member)]

/-- A group of a name that is there overrides the group of that name. -/
theorem layOver_of_mem (distinct : (namesOf groups).Nodup) (there : upper.name ∈ namesOf groups) :
    upper.layOver groups =
      groups.map fun group => if group.name = upper.name then group.changedBy upper else group := by
  induction groups with
  | nil => cases there
  | cons group groups ih =>
    obtain ⟨single, distinct⟩ := List.nodup_cons.mp distinct
    by_cases same : group.name = upper.name
    · have others : ∀ other ∈ groups, other.name ≠ upper.name := by
        intro other member again
        exact single (List.mem_map.mpr ⟨other, member, again.trans same.symm⟩)
      have left : groups.map (fun group =>
          if group.name = upper.name then group.changedBy upper else group) = groups := by
        refine (List.map_congr_left fun other member => ?_).trans (List.map_id groups)
        rw [if_neg (others other member), id_eq]
      simp [layOver, same, left]
    · have behind : upper.name ∈ namesOf groups := by
        rcases List.mem_cons.mp there with here | behind
        · exact absurd here.symm same
        · exact behind
      simp [layOver, same, ih distinct behind]

/-- Laying a group over others keeps their names, and adds its own unless it is there. -/
theorem namesOf_layOver (upper : Group.Definition) (groups : List Group.Definition) :
    namesOf (upper.layOver groups) =
      if upper.name ∈ namesOf groups then namesOf groups else namesOf groups ++ [upper.name] := by
  induction groups with
  | nil => rfl
  | cons group groups ih =>
    by_cases same : group.name = upper.name
    · have there : upper.name ∈ namesOf (group :: groups) := same ▸ List.mem_cons_self
      rw [if_pos there, layOver, if_pos (beq_iff_eq.mpr same)]
      rfl
    · have there : upper.name ∈ namesOf (group :: groups) ↔ upper.name ∈ namesOf groups := by
        simp [namesOf, Ne.symm same]
      have step : namesOf (upper.layOver (group :: groups)) =
          group.name :: namesOf (upper.layOver groups) := by
        simp [layOver, same, namesOf]
      rw [step, ih]
      simp only [there]
      split <;> rfl

/-! ## The groups of a layer laid over others -/

theorem freshNames_cons_of_mem {there : List String} (member : upper.name ∈ there) :
    freshNames there (upper :: uppers) = freshNames there uppers := by
  simp [freshNames, namesOf, member]

theorem freshNames_cons_of_not_mem {there : List String} (fresh : upper.name ∉ there) :
    freshNames there (upper :: uppers) =
      upper.name :: freshNames (there ++ [upper.name]) uppers := by
  have narrowed : ((namesOf uppers).filter fun name => !there.contains name).filter
      (fun name => !name == upper.name) =
        (namesOf uppers).filter fun name => !(there ++ [upper.name]).contains name := by
    rw [List.filter_filter]
    refine List.filter_congr fun name _ => ?_
    by_cases same : name = upper.name <;> simp [same]
  have kept : (namesOf (upper :: uppers)).filter (fun name => !there.contains name) =
      upper.name :: (namesOf uppers).filter fun name => !there.contains name := by
    simp [namesOf, fresh]
  rw [freshNames, kept, List.eraseDups_cons, narrowed, freshNames]

theorem mem_freshNames {there : List String} :
    name ∈ freshNames there uppers ↔ name ∈ namesOf uppers ∧ name ∉ there := by
  simp [freshNames]

theorem layAllOver_cons (upper : Group.Definition) (uppers groups : List Group.Definition) :
    layAllOver (upper :: uppers) groups = layAllOver uppers (upper.layOver groups) :=
  rfl

/-- The names are those that are there, and behind them the new ones. -/
theorem namesOf_layAllOver (uppers groups : List Group.Definition) :
    namesOf (layAllOver uppers groups) =
      namesOf groups ++ freshNames (namesOf groups) uppers := by
  induction uppers generalizing groups with
  | nil => simp [layAllOver, freshNames, namesOf]
  | cons upper uppers ih =>
    rw [layAllOver_cons, ih, namesOf_layOver]
    split
    · next there => rw [freshNames_cons_of_mem there]
    · next fresh => rw [freshNames_cons_of_not_mem fresh, List.append_assoc, List.singleton_append]

/-- **Different names stay different.** -/
theorem nodup_layAllOver (distinct : (namesOf groups).Nodup) (uppers : List Group.Definition) :
    (namesOf (layAllOver uppers groups)).Nodup := by
  induction uppers generalizing groups with
  | nil => exact distinct
  | cons upper uppers ih =>
    apply ih
    rw [namesOf_layOver]
    split
    · exact distinct
    · next fresh =>
      rw [← List.concat_eq_append]
      exact (List.nodup_concat ..).mpr ⟨fresh, distinct⟩

/-- A group of another name does not matter to a group that is overridden. -/
theorem map_overriddenBy_cons (fresh : upper.name ∉ namesOf groups)
    (uppers : List Group.Definition) :
    groups.map (fun group => group.overriddenBy (named group.name (upper :: uppers))) =
      groups.map fun group => group.overriddenBy (named group.name uppers) := by
  refine List.map_congr_left fun group member => ?_
  have differs : upper.name ≠ group.name := by
    intro same
    exact fresh (same ▸ mem_namesOf member)
  rw [named_cons_of_ne differs]

theorem filterMap_joined_cons {names : List String} (fresh : upper.name ∉ names)
    (uppers : List Group.Definition) :
    names.filterMap (fun name => joined (named name (upper :: uppers))) =
      names.filterMap fun name => joined (named name uppers) := by
  refine List.filterMap_congr fun name member => ?_
  have differs : upper.name ≠ name := by
    rintro rfl
    exact fresh member
  rw [named_cons_of_ne differs]

/-- **What a layer makes of groups with different names.** Each is overridden in its place by the
groups of its name in the layer; behind them stand the groups of new names. -/
theorem layAllOver_eq (distinct : (namesOf groups).Nodup) (uppers : List Group.Definition) :
    layAllOver uppers groups =
      groups.map (fun group => group.overriddenBy (named group.name uppers)) ++
        (freshNames (namesOf groups) uppers).filterMap fun name => joined (named name uppers) := by
  induction uppers generalizing groups with
  | nil =>
    have left : groups.map (fun group => group.overriddenBy (named group.name [])) = groups :=
      List.map_id groups
    simp [layAllOver, freshNames, namesOf, left]
  | cons upper uppers ih =>
    have distinct' : (namesOf (upper.layOver groups)).Nodup := nodup_layAllOver distinct [upper]
    rw [layAllOver_cons, ih distinct', namesOf_layOver]
    by_cases there : upper.name ∈ namesOf groups
    · have known : upper.name ∉ freshNames (namesOf groups) uppers :=
        fun member => (mem_freshNames.mp member).2 there
      rw [if_pos there, freshNames_cons_of_mem there, filterMap_joined_cons known,
        layOver_of_mem distinct there, List.map_map]
      congr 1
      refine List.map_congr_left fun group _ => ?_
      by_cases same : group.name = upper.name
      · have name : (group.changedBy upper).name = upper.name := same
        simp only [Function.comp_apply, if_pos same, name]
        rw [same, named_cons_self]
        rfl
      · simp only [Function.comp_apply, if_neg same, named_cons_of_ne (Ne.symm same)]
    · have known : upper.name ∉ freshNames (namesOf groups ++ [upper.name]) uppers :=
        fun member => (mem_freshNames.mp member).2 (by simp)
      rw [if_neg there, freshNames_cons_of_not_mem there, layOver_of_not_mem there,
        map_overriddenBy_cons there, List.filterMap_cons, filterMap_joined_cons known,
        named_cons_self, List.map_append, List.append_assoc]
      rfl

end Group.Definition

namespace Environment.Definition

open Group.Definition

/-! ## One layer -/

/-- The names of the groups that a layer drops from what it is laid over. -/
def excludedGroups (definition : Environment.Definition) : List String :=
  (definition.inclusion.map (·.excludedGroups)).getD []

/-- The groups that a layer keeps of what it is laid over. -/
def keptFrom (upper lower : Environment.Definition) : List Group.Definition :=
  lower.groups.filter fun group => !upper.excludedGroups.contains group.name

/-- What becomes of the groups of a merged definition when a layer is laid over it. -/
structure LaidOver (upper lower merged : Environment.Definition) : Prop where
  /-- The names stay in their order, without those that the layer drops; new ones stand behind. -/
  names :
    let there := (namesOf lower.groups).filter fun name => !upper.excludedGroups.contains name
    namesOf merged.groups = there ++ freshNames there upper.groups
  /-- A group is overridden in its place by the groups of its name in the layer, in order. A group
  of a new name is made of the groups of that name. -/
  groups :
    merged.groups =
      (keptFrom upper lower).map
          (fun group => group.overriddenBy (named group.name upper.groups)) ++
        (freshNames (namesOf (keptFrom upper lower)) upper.groups).filterMap
          fun name => joined (named name upper.groups)
  /-- A group that is kept and not named stays as it is. -/
  untouched :
    ∀ group ∈ lower.groups, group.name ∉ upper.excludedGroups →
      group.name ∉ namesOf upper.groups → group ∈ merged.groups

variable {upper lower : Environment.Definition} {name : String}

theorem namesOf_keptFrom (upper lower : Environment.Definition) :
    namesOf (keptFrom upper lower) =
      (namesOf lower.groups).filter fun name => !upper.excludedGroups.contains name := by
  rw [keptFrom, namesOf, namesOf, List.filter_map]
  rfl

theorem mem_namesOf_keptFrom :
    name ∈ namesOf (keptFrom upper lower) ↔
      name ∈ namesOf lower.groups ∧ name ∉ upper.excludedGroups := by
  rw [namesOf_keptFrom, List.mem_filter]
  simp

theorem nodup_keptFrom (upper : Environment.Definition)
    (distinct : (namesOf lower.groups).Nodup) : (namesOf (keptFrom upper lower)).Nodup := by
  rw [namesOf_keptFrom]
  exact distinct.filter _

theorem groups_layeredOver (upper lower : Environment.Definition) :
    (upper.layeredOver lower).groups = layAllOver upper.groups (keptFrom upper lower) :=
  rfl

/-- The names are those that are kept and those of the layer. -/
theorem mem_namesOf_layeredOver :
    name ∈ namesOf (upper.layeredOver lower).groups ↔
      (name ∈ namesOf lower.groups ∧ name ∉ upper.excludedGroups) ∨
        name ∈ namesOf upper.groups := by
  rw [groups_layeredOver, namesOf_layAllOver, List.mem_append, mem_freshNames,
    mem_namesOf_keptFrom]
  constructor
  · rintro (kept | ⟨new, _⟩)
    · exact .inl kept
    · exact .inr new
  · rintro (kept | new)
    · exact .inl kept
    · by_cases kept : name ∈ namesOf lower.groups ∧ name ∉ upper.excludedGroups
      · exact .inl kept
      · exact .inr ⟨new, kept⟩

theorem nodup_layeredOver (upper : Environment.Definition)
    (distinct : (namesOf lower.groups).Nodup) :
    (namesOf (upper.layeredOver lower).groups).Nodup :=
  nodup_layAllOver (nodup_keptFrom upper distinct) upper.groups

theorem mem_keptFrom {group : Group.Definition} :
    group ∈ keptFrom upper lower ↔ group ∈ lower.groups ∧ group.name ∉ upper.excludedGroups := by
  simp [keptFrom]

theorem laidOver (upper : Environment.Definition) (distinct : (namesOf lower.groups).Nodup) :
    LaidOver upper lower (upper.layeredOver lower) := by
  have merged := layAllOver_eq (nodup_keptFrom upper distinct) upper.groups
  refine ⟨?_, merged, ?_⟩
  · rw [← namesOf_keptFrom]
    exact namesOf_layAllOver upper.groups (keptFrom upper lower)
  · intro group member kept unnamed
    have same : group.overriddenBy (named group.name upper.groups) = group := by
      rw [named_eq_nil_iff.mpr unnamed]
      rfl
    rw [groups_layeredOver, merged]
    exact List.mem_append_left _
      (List.mem_map.mpr ⟨group, mem_keptFrom.mpr ⟨member, kept⟩, same⟩)

/-! ## Over a definition that says nothing -/

/-- A definition that says nothing of the environment. -/
structure IsBlank (definition : Environment.Definition) : Prop where
  ip : definition.ip = none
  portOffset : definition.portOffset = none
  properties : definition.properties = .empty
  groups : definition.groups = []

variable {blank : Environment.Definition}

theorem layAllOver_of_nodup {uppers groups : List Group.Definition}
    (distinct : (namesOf (groups ++ uppers)).Nodup) : layAllOver uppers groups = groups ++ uppers := by
  induction uppers generalizing groups with
  | nil => exact (List.append_nil groups).symm
  | cons upper uppers ih =>
    have split : namesOf (groups ++ upper :: uppers) =
        namesOf groups ++ upper.name :: namesOf uppers := by
      simp [namesOf]
    have fresh : upper.name ∉ namesOf groups := by
      intro again
      rw [split] at distinct
      exact List.disjoint_of_nodup_append distinct again List.mem_cons_self
    have shifted : groups ++ upper :: uppers = (groups ++ [upper]) ++ uppers := by simp
    rw [shifted] at distinct ⊢
    rw [layAllOver_cons, layOver_of_not_mem fresh, ih distinct]

theorem names_toEnvironment (definition : Environment.Definition) (name : String) :
    (definition.toEnvironment name).groups.map (·.name) = namesOf definition.groups := by
  rw [toEnvironment, List.map_map]
  rfl

theorem groups_layeredOver_blank (isBlank : blank.IsBlank) (definition : Environment.Definition) :
    (definition.layeredOver blank).groups = layAllOver definition.groups [] := by
  have nothing : keptFrom definition blank = [] := by
    rw [keptFrom, isBlank.groups, List.filter_nil]
  rw [groups_layeredOver, nothing]

/-- Groups of different names make the environment that they make by themselves. -/
theorem toEnvironment_layeredOver_of_nodup (isBlank : blank.IsBlank)
    {definition : Environment.Definition} (distinct : (namesOf definition.groups).Nodup)
    (name : String) :
    (definition.layeredOver blank).toEnvironment name = definition.toEnvironment name := by
  have all : (namesOf ([] ++ definition.groups)).Nodup := distinct
  have groups : (definition.layeredOver blank).groups = definition.groups := by
    rw [groups_layeredOver_blank isBlank, layAllOver_of_nodup all, List.nil_append]
  have ip : (definition.layeredOver blank).ip = definition.ip := by
    rw [layeredOver, isBlank.ip, Option.or_none]
  have portOffset : (definition.layeredOver blank).portOffset = definition.portOffset := by
    rw [layeredOver, isBlank.portOffset, Option.or_none]
  have properties : (definition.layeredOver blank).properties = definition.properties := by
    rw [layeredOver, isBlank.properties]
    apply Dictionary.ext_get?
    intro key
    rw [Dictionary.get?_layeredOver, Dictionary.get?_empty, Option.or_none]
  rw [toEnvironment, toEnvironment, groups, ip, portOffset, properties]

/-- **A layer over nothing has its groups of one name joined.** So it makes the environment that it
makes by itself exactly when the names of its groups are different. -/
theorem toEnvironment_layeredOver_iff (isBlank : blank.IsBlank)
    (definition : Environment.Definition) (name : String) :
    (definition.layeredOver blank).groups =
        (namesOf definition.groups).eraseDups.filterMap
          (fun group => joined (named group definition.groups)) ∧
      ((definition.layeredOver blank).toEnvironment name = definition.toEnvironment name ↔
        (namesOf definition.groups).Nodup) := by
  have none : (namesOf []).Nodup := List.nodup_nil
  have groups := groups_layeredOver_blank isBlank definition
  refine ⟨?_, ?_, ?_⟩
  · have fresh : freshNames (namesOf []) definition.groups =
        (namesOf definition.groups).eraseDups := by
      simp [freshNames, namesOf]
    rw [groups, layAllOver_eq none, fresh]
    rfl
  · intro same
    have names : namesOf (definition.layeredOver blank).groups = namesOf definition.groups := by
      rw [← names_toEnvironment _ name, same, names_toEnvironment]
    rw [← names, groups]
    exact nodup_layAllOver none definition.groups
  · intro distinct
    exact toEnvironment_layeredOver_of_nodup isBlank distinct name

/-- Groups of two names, and groups of one name. -/
def twoNames : Environment.Definition where
  groups := [{ name := "g", components := ["a"] }, { name := "h", components := ["b"] }]

def twoHalves : Environment.Definition where
  groups := [{ name := "g", components := ["a"] }, { name := "g", components := ["b"] }]

theorem isBlank_empty : IsBlank {} :=
  ⟨rfl, rfl, rfl, rfl⟩

/-- Groups of two names are left alone. -/
theorem toEnvironment_layeredOver_twoNames :
    (namesOf twoNames.groups).Nodup ∧
      (twoNames.layeredOver {}).toEnvironment "dev" = twoNames.toEnvironment "dev" := by
  have distinct : (namesOf twoNames.groups).Nodup := by decide
  exact ⟨distinct, (toEnvironment_layeredOver_iff isBlank_empty twoNames "dev").2.mpr distinct⟩

/-- Groups of one name become one group, and the components of the first are lost. -/
theorem toEnvironment_layeredOver_twoHalves :
    IsBlank {} ∧
      (twoHalves.toEnvironment "dev").components.map (·.name) = ["a", "b"] ∧
      ((twoHalves.layeredOver {}).toEnvironment "dev").components.map (·.name) = ["b"] ∧
      (twoHalves.layeredOver {}).toEnvironment "dev" ≠ twoHalves.toEnvironment "dev" := by
  have alone : (twoHalves.toEnvironment "dev").components.map (·.name) = ["a", "b"] := by cbv
  have layered : ((twoHalves.layeredOver {}).toEnvironment "dev").components.map (·.name) =
      ["b"] := by
    cbv
  refine ⟨isBlank_empty, alone, layered, fun same => ?_⟩
  rw [same, alone] at layered
  exact absurd layered (by decide)

end Environment.Definition

end DeployConfig
