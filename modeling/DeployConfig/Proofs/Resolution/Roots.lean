import DeployConfig.Proofs.Resolution.Precedence

/-!
# What a resolution owes to its root

The component that a resolution is made for, its root, may answer for others: it is asked first for
every placeholder that may be overridden. This module shows that the root has no other influence. A
resolution that takes up no such placeholder goes through the same events for every root and ends
in the same way (`resolve_root`); only an error tells for which component the resolution is made.
So values that consist of plain references and of protected keys are the same whatever is being
built.

The argument goes along the run for one root. Each placeholder that is taken up there is answered
by the component it names or handed over, so that a step finds the same text for the other root
(`next_root`), and the texts behind it hold what the run for the first root goes through as well.
-/

set_option autoImplicit false

namespace DeployConfig

/-- The error of a resolution that is made for another root. -/
def ResolutionError.withRoot (root : Placed) : ResolutionError → ResolutionError
  | .unresolved placeholder property _ => .unresolved placeholder property root
  | .cyclic chain property _ => .cyclic chain property root
  | .unsupportedConfigType name configured => .unsupportedConfigType name configured
  | .tooDeep limit property _ => .tooDeep limit property root
  | .lookup placeholder cause => .lookup placeholder cause

namespace Resolution

variable {rules : Rules} {world : World} {one : Placed} {frame : Frame}
  {placeholder : Placeholder} {written : Written} {text : List Char} {steps : Nat}

/-- Whether a placeholder is taken up that the root is asked for: it is not handed over to another
config type, and it may be overridden. -/
def Event.AsksRoot (world : World) : Event → Prop
  | .met frame placeholder =>
    frame.otherConfigType? placeholder = none ∧ Overridable world frame.property placeholder
  | _ => False

instance (world : World) : DecidablePred (Event.AsksRoot world)
  | .met frame placeholder => inferInstanceAs (Decidable
      (frame.otherConfigType? placeholder = none ∧ Overridable world frame.property placeholder))
  | .entered _ _ => .isFalse id
  | .located _ _ => .isFalse id
  | .asked _ _ => .isFalse id

/-! ## Steps for two roots -/

/-- Whoever is asked for a placeholder that may not be overridden is the component it names. -/
theorem candidates_of_not_overridable (plain : ¬ Overridable world frame.property placeholder)
    (root : Placed) :
    candidates world.protectedKeys root frame placeholder = [.of (frame.named placeholder)] := by
  rw [← overridable_eq_true_iff] at plain
  rw [candidates, if_neg plain]

/-- **A step finds the same text for every root**, unless the root is asked for it. -/
theorem next_root (plain : ¬ (Event.met frame placeholder).AsksRoot world) (other : Placed) :
    next rules world other frame placeholder =
      (next rules world one frame placeholder).restate id (·.withRoot other) := by
  cases own : frame.otherConfigType? placeholder with
  | some type =>
    rw [next_of_other own, next_of_other own]
    split <;> rfl
  | none =>
    have protects : ¬ Overridable world frame.property placeholder := fun overridable =>
      plain ⟨own, overridable⟩
    simp only [next, own, candidates_of_not_overridable protects]
    cases world.answerers.get? frame.configType with
    | none => rfl
    | some answerer =>
      -- The same question is put for both roots, and its failure does not name the root.
      simp only [Bind.bind, Traced.restate_bind]
      generalize askInTurn world frame.configType answerer placeholder.key
        [.of (frame.named placeholder)] = asked
      obtain ⟨log, outcome⟩ := asked
      cases outcome with
      | failed cause => rfl
      | unfinished => rfl
      | done answer =>
        cases answer with
        | some property =>
          simp only [Traced.restate, Outcome.mapError, Traced.bind]
          split <;> rfl
        | none =>
          simp only [Traced.restate, Outcome.mapError, Traced.bind]
          split <;> rfl

theorem checkDepth_root (one other : Placed) (inner : Frame) :
    checkDepth rules other inner =
      (checkDepth rules one inner).restate id (·.withRoot other) := by
  unfold checkDepth
  split
  · split <;> rfl
  · rfl

/-- The text that is entered is the same for every root. -/
theorem enter_root (plain : ∀ event ∈ (enter rules world one frame written).log,
      ¬ event.AsksRoot world) (other : Placed) :
    enter rules world other frame written =
      (enter rules world one frame written).restate id (·.withRoot other) := by
  have met : .met frame (.ofWritten written frame.property.environment) ∈
      (enter rules world one frame written).log :=
    Traced.mem_log_bind_iff.mpr (.inl (List.mem_singleton_self _))
  simp only [enter, Bind.bind, Traced.restate_bind]
  rw [next_root (plain _ met) other]
  simp only [checkDepth_root one other]
  rfl

/-- **A run is the same for every root, if it does not ask the first one.** -/
theorem fill_root (plain : ∀ event ∈ (fill rules world one steps frame text).log,
      ¬ event.AsksRoot world) (other : Placed) :
    fill rules world other steps frame text =
      (fill rules world one steps frame text).restate id (·.withRoot other) := by
  induction steps generalizing frame text with
  | zero => rfl
  | succ steps ih =>
    cases first : Occurrence.find? text with
    | none =>
      rw [fill_of_find?_eq_none first, fill_of_find?_eq_none first]
      rfl
    | some found =>
      rw [fill_of_find?_eq_some first] at plain
      rw [fill_of_find?_eq_some first, fill_of_find?_eq_some first]
      obtain ⟨plainHere, plainBehind⟩ := Traced.forall_mem_log_bind_iff.mp plain
      simp only [Traced.restate_bind]
      rw [enter_root plainHere other]
      refine Traced.bind_congr fun inner entered => ?_
      rw [Traced.outcome_restate_eq_done_iff] at entered
      obtain ⟨plainNested, plainLater⟩ :=
        Traced.forall_mem_log_bind_iff.mp (plainBehind inner entered)
      rw [ih plainNested]
      refine Traced.bind_congr fun value valued => ?_
      rw [Traced.outcome_restate_eq_done_iff] at valued
      exact ih (plainLater value valued)

/-- **Roots that are not asked do not matter.** If a resolution for one root takes up no
placeholder that may be overridden, then for another root it goes through the same events, so that
it takes up no such placeholder either, and it ends in the same way, but for the root that an error
names. -/
theorem resolve_root {steps : Nat} {property : Property} {configType : String}
    (plain : ∀ event ∈ (resolve world steps property one configType).log, ¬ event.AsksRoot world)
    (other : Placed) :
    (resolve world steps property other configType).log =
        (resolve world steps property one configType).log ∧
      (∀ event ∈ (resolve world steps property other configType).log,
        ¬ event.AsksRoot world) ∧
      (resolve world steps property other configType).outcome =
        (resolve world steps property one configType).outcome.mapError (·.withRoot other) := by
  have same : resolve world steps property other configType =
      (resolve world steps property one configType).restate id (·.withRoot other) := by
    rw [log_resolve] at plain
    rw [resolve, resolve, expand_top, expand_top]
    simp only [Bind.bind, Traced.restate_bind]
    rw [fill_root plain other]
    rfl
  rw [same]
  exact ⟨rfl, plain, rfl⟩

/-! ## A protected key

In the following world every component has a name, which nobody takes over from another one. -/

/-- A world with a zone and the names of components. -/
def zoneWorld : World where
  locate := fun reference _ => .ok (.ofType reference)
  answerers := Dictionary.empty.insert "app" fun query =>
    let answer (value : String) : Property :=
      ⟨query.key, value, query.environment, false, .special query.component "declared"⟩
    .ok (match query.key with
      | "name" => some (answer query.component.name)
      | "zone" => some (answer "example.org")
      | _ => none)
  protectedKeys := ["name"]

/-- The address of `web`, in terms of its own name. -/
def webAddress : Property :=
  ⟨"address", "http://$\x7bweb@name\x7d.$\x7bdns@zone\x7d/", "dev", false,
    .special (.ofType "web") "declared"⟩

/-- The address is the same when it is resolved for `web` and when it is resolved for `shop`. -/
theorem resolve_webAddress :
    (resolve zoneWorld 3 webAddress ⟨.ofType "web", "dev"⟩ "app").outcome =
        .done "http://web.example.org/" ∧
      (∀ event ∈ (resolve zoneWorld 3 webAddress ⟨.ofType "web", "dev"⟩ "app").log,
        ¬ event.AsksRoot zoneWorld) ∧
      (resolve zoneWorld 3 webAddress ⟨.ofType "shop", "dev"⟩ "app").outcome =
        .done "http://web.example.org/" := by
  have resolved : (resolve zoneWorld 3 webAddress ⟨.ofType "web", "dev"⟩ "app").outcome =
      .done "http://web.example.org/" := by
    cbv
  have plain : ∀ event ∈ (resolve zoneWorld 3 webAddress ⟨.ofType "web", "dev"⟩ "app").log,
      ¬ event.AsksRoot zoneWorld := by
    have none : (resolve zoneWorld 3 webAddress ⟨.ofType "web", "dev"⟩ "app").log.all
        (fun event => decide (¬ event.AsksRoot zoneWorld)) = true := by
      cbv
    simpa only [List.all_eq_true, decide_eq_true_eq] using none
  obtain ⟨_, _, same⟩ := resolve_root plain ⟨.ofType "shop", "dev"⟩
  rw [resolved] at same
  exact ⟨resolved, plain, same⟩

end Resolution

end DeployConfig
