import DeployConfig.Proofs.Resolution.Delegation
import DeployConfig.Proofs.Resolution.Precedence

/-!
# References that name an environment

A placeholder may name an environment in brackets, and then it is looked up there. This module asks
whether a value of another environment may still take its place.

It may not, as long as nobody else than the named component is asked. But a reference of a component
to itself leaves the answer to the root and to the references that are being expanded, and these
answer for the environments that they stand in, whatever the brackets say. The same goes for a
reference to the type of the component, if the brackets name the environment that it has anyway.
`resolve_pinned` says that this is the only way: a value of another environment is the answer of
such a candidate to a placeholder that may be overridden. It holds as well for placeholders of
another config type, because their brackets are handed over with them.

`resolveValue_pinnedSelf` shows how a reference to the host of the component in one environment
gets the host in another.
-/

set_option autoImplicit false

namespace DeployConfig.Resolution

variable {world : World} {root : Placed} {frame last inner : Frame}
  {placeholder reference : Placeholder} {calls inside : List Call} {configType : String}
  {answerer : Answerer}

/-! ## Where a placeholder is looked up -/

/-- Where a placeholder of a text is looked up: where it stands or, if it belongs to another type,
where its text is read again. -/
inductive LookedUpAt (world : World) (calls : List Call) (last : Frame)
    (placeholder : Placeholder) : List Call → Frame → Placeholder → Prop where
  | here (own : last.otherConfigType? placeholder = none) :
      LookedUpAt world calls last placeholder calls last placeholder
  | handedOver {other : String} (another : last.otherConfigType? placeholder = some other)
      (configured : world.answerers.contains other = true) (shallow : last.depth < 64) :
      LookedUpAt world calls last placeholder
        (⟨last, placeholder, .delegated⟩ :: calls) (last.delegate placeholder other)
        placeholder.handedOver

/-- The environment stays the same. -/
theorem LookedUpAt.environment
    (lookedUp : LookedUpAt world calls last placeholder inside frame reference) :
    reference.environment = placeholder.environment := by
  cases lookedUp <;> rfl

/-- **A placeholder that names its environment is taken up where it is looked up.** -/
theorem LookedUpAt.meets {property : Property}
    (lookedUp : LookedUpAt world calls last placeholder inside frame reference)
    (named : placeholder.named = true)
    (meets : Meets .standard world root (.top property configType) property.value.toList
      calls last placeholder) :
    Meets .standard world root (.top property configType) property.value.toList
      inside frame reference := by
  cases lookedUp with
  | here _ => exact meets
  | handedOver another configured shallow =>
    have path := meets.path (.delegated another configured)
    -- The environment has been read from the brackets, so it can be written there again.
    obtain ⟨_, _, first⟩ := meets
    have alone := (Placeholder.find?_handedOver_iff first).mpr
      (Placeholder.isRun_environment first named)
    have taken := Meets.first path (within_delegate shallow) alone
    rwa [Placeholder.ofWritten_toWritten_handedOver] at taken

/-- A property is the answer for the key of a placeholder, asked of the component that the
placeholder names in an environment. -/
def AnsweredIn (world : World) (answerer : Answerer) (environment : String)
    (placeholder : Placeholder) (property : Property) : Prop :=
  ∃ component, world.locate placeholder.component environment = .ok component ∧
    answerer ⟨component, placeholder.key, environment⟩ = .ok (some property)

/-- To name the declaring component leaves the key as it is. -/
theorem Frame.key_named (frame : Frame) (placeholder : Placeholder) :
    (frame.named placeholder).key = placeholder.key := by
  rw [Frame.named]
  split <;> rfl

/-- To name the declaring component leaves the environment as it is. -/
theorem Frame.environment_named (frame : Frame) (placeholder : Placeholder) :
    (frame.named placeholder).environment = placeholder.environment := by
  rw [Frame.named]
  split <;> rfl

/-- Asked alone, the component that a placeholder names settles it with its own answer. -/
theorem answeredIn_of_settles {property : Property}
    (settled : Settles world answerer placeholder.key [.of placeholder] (.ok property)) :
    AnsweredIn world answerer placeholder.environment placeholder property := by
  obtain ⟨earlier, candidate, later, split, _, answer⟩ := settled
  cases earlier with
  | cons _ earlier => cases earlier <;> cases split
  | nil =>
    obtain ⟨rfl, _⟩ := List.cons.inj split
    simp only [Candidate.answer, Candidate.of, Candidate.query] at answer
    cases located : world.locate placeholder.component placeholder.environment with
    | error error =>
      rw [located] at answer
      cases answer
    | ok component =>
      rw [located] at answer
      exact ⟨component, located, answer⟩

/-- What is expanded for a reference is the answer of the component that it names, or of somebody
who may override it. -/
theorem Meets.answeredIn_or_settles {property : Property}
    (meets : Meets .standard world root (.top property configType) property.value.toList
      inside frame reference)
    (configured : world.answerers.get? frame.configType = some answerer)
    (stands : StandsFor .standard world root frame reference .found inner) :
    (AnsweredIn world answerer reference.environment (frame.named reference) inner.property ∧
        (Overridable world frame.property reference →
          AllDecline world answerer reference.key (overriders root inside))) ∨
      (Overridable world frame.property reference ∧
        Settles world answerer reference.key (overriders root inside) (.ok inner.property)) := by
  have settled := meets.settles_of_standsFor configured stands
  have answeredIn (answered : Settles world answerer reference.key
      [.of (frame.named reference)] (.ok inner.property)) :
      AnsweredIn world answerer reference.environment (frame.named reference)
        inner.property := by
    rw [← frame.key_named] at answered
    rw [← frame.environment_named]
    exact answeredIn_of_settles answered
  rw [precedence] at settled
  split at settled
  · next overridable =>
    obtain overridden | ⟨declined, answered⟩ := settles_append.mp settled
    · exact .inr ⟨overridable, overridden⟩
    · exact .inl ⟨answeredIn answered, fun _ => declined⟩
  · next direct =>
    exact .inl ⟨answeredIn settled, fun overridable => absurd overridable direct⟩

/-! ## Whole resolutions -/

/-- **Who answers a placeholder that names its environment.** When a run takes it up, it lies at the
end of a path, and on every path it is taken up where it is looked up, with the same environment.
What is expanded for it there is the answer of the component that it names in this environment; or
else the placeholder may be overridden, and it is the first answer of the root in its environment
and of the open references in theirs. -/
theorem resolve_pinned {steps : Nat} {property : Property}
    (met : .met last placeholder ∈ (resolve world steps property root configType).log)
    (named : placeholder.named = true) :
    (∃ calls, Meets .standard world root (.top property configType) property.value.toList
      calls last placeholder) ∧
    ∀ calls inside frame reference,
      Meets .standard world root (.top property configType) property.value.toList
        calls last placeholder →
      LookedUpAt world calls last placeholder inside frame reference →
      reference.environment = placeholder.environment ∧
        Meets .standard world root (.top property configType) property.value.toList
          inside frame reference ∧
        ∀ inner answerer, world.answerers.get? frame.configType = some answerer →
          StandsFor .standard world root frame reference .found inner →
          (AnsweredIn world answerer placeholder.environment (frame.named reference)
              inner.property ∧
            (Overridable world frame.property reference →
              AllDecline world answerer reference.key (overriders root inside))) ∨
          (Overridable world frame.property reference ∧
            Settles world answerer reference.key (overriders root inside)
              (.ok inner.property)) := by
  refine ⟨exists_meets_iff.mpr ⟨steps, met⟩, fun calls inside frame reference meets lookedUp => ?_⟩
  have taken := lookedUp.meets named meets
  refine ⟨lookedUp.environment, taken, fun inner answerer configured stands => ?_⟩
  rw [← lookedUp.environment]
  exact taken.answeredIn_or_settles configured stands

/-! ### Hosts of an environment

In the following world every component has one host in `prod` and another one elsewhere. The values
stand in `dev`. -/

/-- The host of components in an environment. -/
def hostIn (component : Component) (environment : String) : Property :=
  ⟨"host", if environment == "prod" then "prod-host" else "dev-host", environment, false,
    .special component "declared"⟩

/-- What is known of components: their hosts. -/
def hostAnswerer : Answerer := fun query =>
  .ok (if query.key == "host" then some (hostIn query.component query.environment) else none)

/-- The world with these hosts, in two config types. -/
def pinnedWorld : World where
  locate := fun reference _ => .ok (.ofType reference)
  answerers := (Dictionary.empty.insert "app" hostAnswerer).insert "deploy" hostAnswerer
  protectedKeys := []

/-- The component that values are resolved for. -/
def pinnedRoot : Placed := ⟨.ofType "web", "dev"⟩

/-- A reference of another type to a host in `prod`. -/
def pinnedOther : Placeholder := ⟨some "deploy", "db", "prod", true, "host", none⟩

/-- The property that holds it. -/
def otherProperty : Property := valueProperty "$\x7bdeploy::db[prod]@host\x7d" pinnedRoot

/-- Where its text is read again. -/
def otherFrame : Frame := (Frame.top otherProperty "app").delegate pinnedOther "deploy"

/-- The host of another component is the one in `prod`, although the value stands in `dev`. -/
theorem resolve_pinnedOther :
    (∃ steps, .met (.top otherProperty "app") pinnedOther ∈
        (resolve pinnedWorld steps otherProperty pinnedRoot "app").log) ∧
      StandsFor .standard pinnedWorld pinnedRoot otherFrame pinnedOther.handedOver .found
        (otherFrame.expanding pinnedOther.handedOver (hostIn (.ofType "db") "prod")) ∧
      AnsweredIn pinnedWorld hostAnswerer "prod" pinnedOther.handedOver
        (hostIn (.ofType "db") "prod") := by
  have first : Occurrence.find? otherProperty.value.toList =
      some ⟨[], pinnedOther.toWritten, []⟩ := by cbv
  have meets : Meets .standard pinnedWorld pinnedRoot (.top otherProperty "app")
      otherProperty.value.toList [] (.top otherProperty "app") pinnedOther :=
    .first .here (within_top _ _ _) first
  obtain ⟨steps, met⟩ := exists_meets_iff.mp ⟨[], meets⟩
  have lookedUp : LookedUpAt pinnedWorld [] (.top otherProperty "app") pinnedOther _ otherFrame
      pinnedOther.handedOver := .handedOver rfl rfl (by decide)
  obtain ⟨_, _, answers⟩ := (resolve_pinned met rfl).2 _ _ _ _ meets lookedUp
  have stands : StandsFor .standard pinnedWorld pinnedRoot otherFrame pinnedOther.handedOver
      .found (otherFrame.expanding pinnedOther.handedOver (hostIn (.ofType "db") "prod")) :=
    .found rfl ⟨hostAnswerer, rfl, rfl⟩ fun _ => rfl
  obtain ⟨answered, _⟩ | ⟨overridable, _⟩ := answers _ hostAnswerer rfl stands
  · exact ⟨⟨steps, met⟩, stands, answered⟩
  · exact absurd overridable (by decide)

/-- A reference of a component to its own host in `prod`. -/
def pinnedSelf : Placeholder := ⟨none, "this", "prod", true, "host", none⟩

/-- The property that holds it. -/
def selfProperty : Property := valueProperty "$\x7bthis[prod]@host\x7d" pinnedRoot

/-- **A value of another environment takes the place of a reference to `prod`**: the root answers
it, with its host in `dev`. -/
theorem resolveValue_pinnedSelf :
    (resolveValue pinnedWorld 3 "$\x7bthis[prod]@host\x7d" pinnedRoot "app").outcome =
        .done "dev-host" ∧
      (∃ steps, .met (.top selfProperty "app") pinnedSelf ∈
        (resolve pinnedWorld steps selfProperty pinnedRoot "app").log) ∧
      pinnedSelf.named = true ∧ pinnedSelf.environment = "prod" ∧
      StandsFor .standard pinnedWorld pinnedRoot (.top selfProperty "app") pinnedSelf .found
        ((Frame.top selfProperty "app").expanding
          ((Frame.top selfProperty "app").named pinnedSelf) (hostIn (.ofType "web") "dev")) ∧
      ∀ component,
        hostAnswerer ⟨component, "host", "prod"⟩ ≠ .ok (some (hostIn (.ofType "web") "dev")) := by
  have first : Occurrence.find? selfProperty.value.toList =
      some ⟨[], pinnedSelf.toWritten, []⟩ := by cbv
  have meets : Meets .standard pinnedWorld pinnedRoot (.top selfProperty "app")
      selfProperty.value.toList [] (.top selfProperty "app") pinnedSelf :=
    .first .here (within_top _ _ _) first
  refine ⟨by cbv, exists_meets_iff.mp ⟨[], meets⟩, rfl, rfl, ?_, fun component same => ?_⟩
  · exact .found rfl ⟨hostAnswerer, rfl, rfl⟩ fun _ => rfl
  · simp [hostAnswerer, hostIn] at same

end DeployConfig.Resolution
