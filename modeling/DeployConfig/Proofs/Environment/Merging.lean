import DeployConfig.Environment.Index
import DeployConfig.Proofs.Environment.Layers

/-!
# Merging a chain

The definitions of a chain are merged from the bottom, each laid over what is below it. When the
groups at the bottom have different names, so have the groups at every height (`nodup_merge`), and
what `LaidOver` says holds of each layer.

What is left of the layers in the end is read off the chain. A group is made from what was
contributed to it: the groups of its name in the layers, from the last one that drops the name
upwards (`contributions`). It is the first of them, overridden by the others
(`joined_contributions`); so its address is the last one that was contributed. What the layers say of
the environment itself comes from the uppermost one that says it (`read_merge`).
-/

set_option autoImplicit false

namespace DeployConfig

namespace EnvironmentIndex

open Group.Definition Environment.Definition

variable {definitions : List Environment.Definition} {base upper : Environment.Definition}
  {name : String}

/-! ## A chain of layers -/

/-- What the layers of a chain contribute to the group of a name, from the bottom upwards: the
groups of the name in the layers above the last one that drops it, and in that one. -/
def contributions (name : String) : List Environment.Definition → List Group.Definition
  | [] => []
  | upper :: lower =>
    (if name ∈ upper.excludedGroups then [] else contributions name lower) ++
      named name upper.groups

theorem contributions_of_dropped (dropped : name ∈ upper.excludedGroups)
    (lower : List Environment.Definition) :
    contributions name (upper :: lower) = named name upper.groups := by
  rw [contributions, if_pos dropped, List.nil_append]

theorem contributions_of_kept (kept : name ∉ upper.excludedGroups)
    (lower : List Environment.Definition) :
    contributions name (upper :: lower) =
      contributions name lower ++ named name upper.groups := by
  rw [contributions, if_neg kept]

theorem contributions_singleton (name : String) (base : Environment.Definition) :
    contributions name [base] = named name base.groups := by
  rw [contributions, contributions, ite_self, List.nil_append]

theorem getLast?_of_cons {lower : List Environment.Definition} (several : lower ≠ [])
    (based : (upper :: lower).getLast? = some base) : lower.getLast? = some base := by
  cases lower with
  | nil => exact absurd rfl several
  | cons next lower => exact based

/-- The names of the groups stay different from the bottom of a chain to its top. -/
theorem nodup_merge (based : definitions.getLast? = some base)
    (distinct : (namesOf base.groups).Nodup) : (namesOf (merge definitions).groups).Nodup := by
  induction definitions using merge.induct with
  | case1 => cases based
  | case2 bottom =>
    cases based
    exact distinct
  | case3 upper lower several ih =>
    rw [merge_cons upper several]
    exact nodup_layeredOver upper (ih (getLast?_of_cons several based))

/-- A name has a group exactly when something is contributed to it. -/
theorem mem_namesOf_merge_iff :
    name ∈ namesOf (merge definitions).groups ↔ contributions name definitions ≠ [] := by
  induction definitions using merge.induct with
  | case1 => simp [merge, namesOf, contributions]
  | case2 bottom => rw [contributions_singleton, ne_eq, named_eq_nil_iff, not_not, merge]
  | case3 upper lower several ih =>
    rw [merge_cons upper several, mem_namesOf_layeredOver, ih]
    by_cases dropped : name ∈ upper.excludedGroups
    · rw [contributions_of_dropped dropped, ne_eq (named _ _), named_eq_nil_iff, not_not]
      simp only [dropped, not_true_eq_false, and_false, false_or]
    · rw [contributions_of_kept dropped, ne_eq (_ ++ _), List.append_eq_nil_iff, named_eq_nil_iff,
        not_and_or, not_not]
      simp only [dropped, not_false_eq_true, and_true, ne_eq]

/-- **A group is the first that was contributed to it, overridden by the others.** -/
theorem joined_contributions (based : definitions.getLast? = some base)
    (distinct : (namesOf base.groups).Nodup) :
    ∀ group ∈ (merge definitions).groups,
      joined (contributions group.name definitions) = some group := by
  induction definitions using merge.induct with
  | case1 => cases based
  | case2 bottom =>
    obtain rfl : bottom = base := Option.some.inj based
    intro group member
    rw [contributions_singleton, named_of_nodup distinct member]
    rfl
  | case3 upper lower several ih =>
    have based := getLast?_of_cons several based
    have layer := laidOver upper (nodup_merge based distinct)
    intro group member
    rw [merge_cons upper several, layer.groups] at member
    rcases List.mem_append.mp member with overridden | added
    · obtain ⟨former, old, rfl⟩ := List.mem_map.mp overridden
      obtain ⟨there, kept⟩ := mem_keptFrom.mp old
      rw [name_overriddenBy, contributions_of_kept kept]
      exact joined_append (ih based former there) _
    · obtain ⟨name, fresh, made⟩ := List.mem_filterMap.mp added
      obtain rfl := name_of_joined_named made
      by_cases dropped : group.name ∈ upper.excludedGroups
      · rw [contributions_of_dropped dropped]
        exact made
      · -- What was not there before has no contribution from below.
        have absent : group.name ∉ namesOf (merge lower).groups := by
          intro there
          exact (mem_freshNames.mp fresh).2 (mem_namesOf_keptFrom.mpr ⟨there, dropped⟩)
        have nothing : contributions group.name lower = [] := by
          rw [mem_namesOf_merge_iff, not_not] at absent
          exact absent
        rw [contributions_of_kept dropped, nothing, List.nil_append]
        exact made

/-! ## What the layers say of the environment -/

/-- What a layer says before what is below it comes from the uppermost layer of a chain that says
it. -/
theorem read_merge {α : Type} (read : Environment.Definition → Option α) (silent : read {} = none)
    (layered : ∀ upper lower, read (upper.layeredOver lower) = (read upper).or (read lower))
    (definitions : List Environment.Definition) :
    read (merge definitions) = definitions.findSome? read := by
  induction definitions using merge.induct with
  | case1 => exact silent
  | case2 bottom => rw [List.findSome?_singleton, merge]
  | case3 upper lower several ih =>
    rw [merge_cons upper several, layered, ih, List.findSome?_cons]
    cases read upper <;> rfl

/-- The merged definition of a chain and what is made of it. -/
structure Merged (definitions : List Environment.Definition) : Prop where
  /-- The names of the groups are different, at every height. -/
  distinct : ∀ layers, layers <:+ definitions → (namesOf (merge layers).groups).Nodup
  /-- Each layer is laid over what is below it. -/
  layers :
    ∀ upper lower, upper :: lower <:+ definitions → lower ≠ [] →
      LaidOver upper (merge lower) (merge (upper :: lower))
  /-- A group is the first that was contributed to it, overridden by the others. -/
  contributed :
    ∀ group ∈ (merge definitions).groups,
      joined (contributions group.name definitions) = some group
  /-- What the layers say of the environment comes from the uppermost one that says it. -/
  ip : (merge definitions).ip = definitions.findSome? (·.ip)
  portOffset : (merge definitions).portOffset = definitions.findSome? (·.portOffset)
  properties :
    ∀ key, (merge definitions).properties.get? key = definitions.findSome? (·.properties.get? key)
  /-- A group of the environment has the last address that was contributed, and else that of the
  environment. -/
  address :
    ∀ name, ∀ group ∈ ((merge definitions).toEnvironment name).groups,
      group.ip = ((contributions group.name definitions).reverse.findSome? (·.ip)).or
        (definitions.findSome? (·.ip))

/-- **Merging a chain loses nothing but what a layer drops or overrides, and keeps the order.** All
that this takes is that the groups at the bottom have different names. -/
theorem merge_spec (based : definitions.getLast? = some base)
    (distinct : (namesOf base.groups).Nodup) : Merged definitions := by
  have onBase {layers : List Environment.Definition} (suffix : layers <:+ definitions)
      (filled : layers ≠ []) : layers.getLast? = some base := by
    obtain ⟨above, rfl⟩ := suffix
    rw [List.getLast?_append_of_ne_nil _ filled] at based
    exact based
  have different {layers : List Environment.Definition} (suffix : layers <:+ definitions) :
      (namesOf (merge layers).groups).Nodup := by
    by_cases filled : layers = []
    · rw [filled]
      exact List.nodup_nil
    · exact nodup_merge (onBase suffix filled) distinct
  have joins := joined_contributions based distinct
  have ip := read_merge (·.ip) rfl (fun _ _ => rfl) definitions
  refine ⟨fun _ => different, ?_, joins, ip, ?_, ?_, ?_⟩
  · intro upper lower suffix several
    rw [merge_cons upper several]
    exact laidOver upper (different ((List.suffix_cons upper lower).trans suffix))
  · exact read_merge (·.portOffset) rfl (fun _ _ => rfl) definitions
  · intro key
    have layered (upper lower : Environment.Definition) :
        (upper.layeredOver lower).properties.get? key =
          (upper.properties.get? key).or (lower.properties.get? key) :=
      Dictionary.get?_layeredOver upper.properties lower.properties key
    exact read_merge (·.properties.get? key) rfl layered definitions
  · intro name group member
    obtain ⟨definition, listed, rfl⟩ := List.mem_map.mp member
    have own := ip_of_joined (joins definition listed)
    calc (definition.toGroup (merge definitions).ip).ip
      _ = definition.ip.or (merge definitions).ip := rfl
      _ = ((contributions definition.name definitions).reverse.findSome? (·.ip)).or
            (definitions.findSome? (·.ip)) := by rw [own, ip]

/-- Three layers: the middle one drops the group `edge` and the uppermost one adds it again. -/
def threeLayers : List Environment.Definition :=
  [ { ip := some "10.0.0.9"
      groups := [{ name := "edge", components := ["proxy"] },
        { name := "backend", append := ["cron"] }] },
    { inclusion := some { environment := "base", excludedGroups := ["edge"] }
      groups := [{ name := "backend", ip := some "10.0.0.2" }] },
    { ip := some "10.0.0.1"
      groups := [{ name := "edge", ip := some "10.0.0.3", components := ["gate"] },
        { name := "backend", components := ["api"] }] } ]

/-- The group that is added again stands at the end, and its former address is gone. -/
theorem merge_threeLayers :
    Merged threeLayers ∧
      ((merge threeLayers).toEnvironment "dev").groups.map (fun group => (group.name, group.ip)) =
        [("backend", some "10.0.0.2"), ("edge", some "10.0.0.9")] :=
  ⟨merge_spec rfl (by decide), by decide⟩

end EnvironmentIndex

end DeployConfig
