import DeployConfig.Fleet
import DeployConfig.Proofs.Resolution.Runs
import Mathlib

/-!
# A property and a reference to it

The value of a property is had in two ways: it is resolved for the configuration of its component,
or a user asks for `${this@key}` in the place of that component. The second way has everything one
level deeper, and behind one more reference, which is asked for its opinion whenever a component
refers to itself and which counts when cycles are looked for.

Still the two agree whenever the second one succeeds (`resolve_of_resolveValue`). The reference at
the end of the chain is to the root itself. The root is always asked first, so when its turn comes
again it has already declined and changes no answer (`outcome_askInTurn_again`). So the two
resolutions stay in step, one with a longer chain than the other (`Prolongs`), and what is allowed
with the longer chain and the deeper nesting is allowed with less.
-/

set_option autoImplicit false

namespace DeployConfig.Resolution

variable {world : World} {root : Placed} {placeholder ancestor : Placeholder}

/-! ## Asking again changes nothing -/

/-- The component that a placeholder refers to is a placed one. -/
structure Means (world : World) (placeholder : Placeholder) (placed : Placed) : Prop where
  environment : placeholder.environment = placed.environment
  located : world.locate placeholder.component placed.environment = .ok placed.component

section Asking

variable {configType key : String} {answerer : Answerer} {candidate : Candidate}

/-- Whoever declines may be left out. -/
theorem outcome_askInTurn_of_declines
    (declines : (candidate.ask world configType answerer key).outcome = .done none)
    (front rest : List Candidate) :
    (askInTurn world configType answerer key (front ++ candidate :: rest)).outcome =
      (askInTurn world configType answerer key (front ++ rest)).outcome := by
  induction front with
  | nil => exact Traced.outcome_bind_of_done declines
  | cons first front ih =>
    refine Traced.outcome_bind_congr rfl fun answer _ => ?_
    cases answer with
    | some property => rfl
    | none => exact ih

/-- Whoever has the answer of the first one may be left out. -/
theorem outcome_askInTurn_again {first : Candidate}
    (same : (candidate.ask world configType answerer key).outcome =
      (first.ask world configType answerer key).outcome) (front rest : List Candidate) :
    (askInTurn world configType answerer key (first :: (front ++ candidate :: rest))).outcome =
      (askInTurn world configType answerer key (first :: (front ++ rest))).outcome := by
  refine Traced.outcome_bind_congr rfl fun answer answered => ?_
  cases answer with
  | some property => rfl
  | none => exact outcome_askInTurn_of_declines (same.trans answered) front rest

/-- A reference that means a placed component answers as the component does. -/
theorem Means.outcome_ask {placed : Placed} (means : Means world placeholder placed) :
    ((Candidate.of placeholder).ask world configType answerer key).outcome =
      ((Candidate.placed placed).ask world configType answerer key).outcome := by
  refine Traced.outcome_bind_congr ?_ fun _ _ => rfl
  simp only [Candidate.of, Candidate.toPlaced, Bind.bind, Traced.bind, Traced.note,
    means.environment, means.located]

end Asking

/-! ## Resolutions in step -/

/-- A text that stands where another one does, but at least as deep and perhaps with one more
reference at the end of its chain. -/
structure Prolongs (ancestor : Placeholder) (long short : Frame) : Prop extends
    Alike long short where
  chain : long.chain = short.chain ∨ long.chain = short.chain ++ [ancestor]
  depth : short.depth ≤ long.depth

namespace Prolongs

variable {long short : Frame}

/-- A reference to the root at the end of the chain changes no answer. -/
theorem outcome_askInTurn (prolongs : Prolongs ancestor long short)
    (means : Means world ancestor root) (configType : String) (answerer : Answerer) :
    (askInTurn world configType answerer placeholder.key
        (candidates world.protectedKeys root short placeholder)).outcome =
      (askInTurn world configType answerer placeholder.key
        (candidates world.protectedKeys root long placeholder)).outcome := by
  rw [candidates, candidates, prolongs.toAlike.named, prolongs.toAlike.overridable]
  split
  · obtain same | longer := prolongs.chain
    · rw [same]
    · rw [longer, List.map_append, List.cons_append, List.cons_append, List.append_assoc]
      exact (outcome_askInTurn_again means.outcome_ask _ _).symm
  · rfl

theorem answered (prolongs : Prolongs ancestor long short) (means : Means world ancestor root)
    {answer : Option Property} (answered : Answered world root long placeholder answer) :
    Answered world root short placeholder answer := by
  obtain ⟨answerer, configured, asked⟩ := answered
  refine ⟨answerer, by rw [← prolongs.configType, configured], ?_⟩
  rw [prolongs.outcome_askInTurn means, ← prolongs.configType, asked]

/-- A reference that is new to the longer chain is new to the shorter one. -/
theorem expands_eq_false (prolongs : Prolongs ancestor long short)
    (fresh : long.expands placeholder = false) : short.expands placeholder = false := by
  obtain same | longer := prolongs.chain
  · rwa [Frame.expands, ← same]
  · rw [Frame.expands, longer, List.any_append, Bool.or_eq_false_iff] at fresh
    exact fresh.1

/-- What stands for a placeholder of the one text stands for that of the other. -/
theorem standsFor (prolongs : Prolongs ancestor long short) (means : Means world ancestor root)
    {rules : Rules} {cause : Cause} {inner : Frame}
    (stands : StandsFor rules world root long placeholder cause inner) :
    ∃ other, StandsFor rules world root short placeholder cause other ∧
      Prolongs ancestor inner other := by
  have deeper : short.depth + 1 ≤ long.depth + 1 := Nat.succ_le_succ prolongs.depth
  have sameType := prolongs.toAlike.otherConfigType? placeholder
  cases stands with
  | @delegated other another configured =>
    refine ⟨short.delegate placeholder other, .delegated (sameType ▸ another) configured, ?_⟩
    exact ⟨prolongs.toAlike.delegate placeholder other, .inl rfl, deeper⟩
  | @found property own answered fresh =>
    rw [prolongs.toAlike.named] at fresh ⊢
    refine ⟨short.expanding (short.named placeholder) property,
      .found (sameType ▸ own) (prolongs.answered means answered) fun refuses =>
        prolongs.expands_eq_false (fresh refuses),
      prolongs.toAlike.expanding _ _ property, ?_, deeper⟩
    exact prolongs.chain.imp (fun same => by simp only [Frame.expanding, same])
      fun longer => by simp only [Frame.expanding, longer, List.cons_append]
  | @fallback text own declined given =>
    refine ⟨short.defaulting text,
      .fallback (sameType ▸ own) (prolongs.answered means declined) given, ?_⟩
    exact ⟨prolongs.toAlike.defaulting text, prolongs.chain, deeper⟩

theorem outcome_enter (prolongs : Prolongs ancestor long short) (means : Means world ancestor root)
    {rules : Rules} {written : Written} {inner : Frame}
    (entered : (enter rules world root long written).outcome = .done inner) :
    ∃ other, (enter rules world root short written).outcome = .done other ∧
      Prolongs ancestor inner other := by
  obtain ⟨⟨cause, stands⟩, within⟩ := outcome_enter_eq_done_iff.mp entered
  rw [prolongs.property] at stands
  obtain ⟨other, same, inStep⟩ := prolongs.standsFor means stands
  refine ⟨other, outcome_enter_eq_done_iff.mpr ⟨⟨cause, same⟩, fun limit limited => ?_⟩, inStep⟩
  exact Nat.le_trans inStep.depth (within limit limited)

/-- **What succeeds with the longer chain succeeds with the shorter one.** -/
theorem outcome_fill {rules : Rules} (means : Means world ancestor root) {steps : Nat}
    {long short : Frame} {text value : List Char} (prolongs : Prolongs ancestor long short)
    (done : (fill rules world root steps long text).outcome = .done value) :
    (fill rules world root steps short text).outcome = .done value := by
  induction steps generalizing long short text value with
  | zero => cases done
  | succ steps ih =>
    refine outcome_fill_eq_done_iff.mpr ?_
    obtain plain | ⟨found, inner, middle, first, entered, valued, later⟩ :=
      outcome_fill_eq_done_iff.mp done
    · exact .inl plain
    · obtain ⟨other, again, inStep⟩ := prolongs.outcome_enter means entered
      have valued := ih inStep valued
      rw [inStep.property] at valued
      exact .inr ⟨found, other, middle, first, again, valued, ih prolongs later⟩

end Prolongs

/-! ## A reference of a component to itself -/

/-- The text by which a component refers to a key of its own. -/
def selfText (key : String) : String :=
  "$\x7bthis@" ++ key ++ "\x7d"

/-- The pieces of this text. -/
def selfWritten (key : String) : Written :=
  ⟨none, selfName.toList, none, key.toList, none⟩

theorem toList_selfText (key : String) : (selfText key).toList = (selfWritten key).characters := by
  simp [selfText, selfWritten, selfName, Written.characters, String.toList_append]

theorem find?_selfText {key : String} (isRun : Written.IsRun isKeyChar key.toList) :
    Occurrence.find? (selfText key).toList = some ⟨[], selfWritten key, []⟩ := by
  rw [Occurrence.find?_eq_some_iff, toList_selfText]
  refine ⟨by simp, ⟨rfl, nofun, ?_, nofun, isRun, nofun⟩, fun _ _ _ shorter => ?_⟩
  · exact (by decide : Written.IsRun isIdentifierChar selfName.toList)
  · exact absurd shorter (Nat.not_lt_zero _)

/-- The reference of a component to a key of its own. -/
def selfReference (root : Placed) (key : String) : Placeholder :=
  ⟨none, root.component.name, root.environment, false, key, none⟩

/-- The frame of a value that refers to a key of the root. -/
def selfFrame (root : Placed) (key configType : String) : Frame :=
  .top (valueProperty (selfText key) root) configType

theorem named_selfWritten (key configType : String) :
    (selfFrame root key configType).named (.ofWritten (selfWritten key) root.environment) =
      selfReference root key := by
  simp [Frame.named, Placeholder.ofWritten, Placeholder.isSelf, Placeholder.withComponent,
    selfWritten, selfFrame, selfReference, Frame.top, valueProperty, Property.component,
    Source.component]

/-- The root is asked first. -/
theorem answered_selfWritten {key configType : String} {answerer : Answerer} {property : Property}
    (configured : world.answerers.get? configType = some answerer)
    (answer : answerer ⟨root.component, key, root.environment⟩ = .ok (some property)) :
    Answered world root (selfFrame root key configType)
      (.ofWritten (selfWritten key) root.environment) (some property) := by
  refine ⟨answerer, configured, ?_⟩
  have self : (Placeholder.ofWritten (selfWritten key) root.environment).isSelf = true := by
    simp [Placeholder.ofWritten, Placeholder.isSelf, selfWritten]
  have sameKey : (Placeholder.ofWritten (selfWritten key) root.environment).key = key := by
    simp [Placeholder.ofWritten, selfWritten]
  have asked : ((Candidate.placed root).ask world configType answerer key).outcome =
      .done (some property) := by
    simp [Candidate.ask, Candidate.toPlaced, Bind.bind, Traced.bind, Traced.pure, Traced.note,
      Traced.ofExcept, Outcome.ofExcept, answer]
  rw [candidates, Frame.overridable, self, Bool.true_or, if_pos rfl, sameKey, List.cons_append]
  exact Traced.outcome_bind_of_done asked

/-- **A value that refers to a property has the value of the property.** The root answers the key
with the property itself. -/
theorem outcome_resolve_of_selfText {key configType value : String} {answerer : Answerer}
    {property : Property} {steps : Nat} (isRun : Written.IsRun isKeyChar key.toList)
    (located : world.locate root.component.name root.environment = .ok root.component)
    (configured : world.answerers.get? configType = some answerer)
    (answer : answerer ⟨root.component, key, root.environment⟩ = .ok (some property))
    (done : (resolveValue world steps (selfText key) root configType).outcome = .done value) :
    (resolve world steps property root configType).outcome = .done value := by
  have done : (fill .standard world root steps (selfFrame root key configType)
      (selfText key).toList).outcome = .done value.toList := outcome_resolve_eq_done_iff.mp done
  have found := find?_selfText isRun
  cases steps with
  | zero => cases done
  | succ steps =>
    obtain ⟨none, _⟩ | ⟨_, inner, middle, first, entered, valued, later⟩ :=
      outcome_fill_eq_done_iff.mp done
    · rw [found] at none
      cases none
    · rw [found] at first
      cases first
      have answered := answered_selfWritten configured answer
      obtain rfl : inner =
          (selfFrame root key configType).expanding (selfReference root key) property := by
        rw [← named_selfWritten]
        exact eq_expanding_of_enter rfl answered entered
      have prolongs : Prolongs (selfReference root key)
          ((selfFrame root key configType).expanding (selfReference root key) property)
          (.top property configType) := ⟨⟨rfl, rfl⟩, .inr rfl, Nat.zero_le _⟩
      have short := prolongs.outcome_fill ⟨rfl, located⟩ valued
      -- The value holds no placeholder, so the text is finished after one turn.
      have same : value.toList = middle := by
        rw [List.nil_append, List.append_nil] at later
        exact value_of_find?_eq_none (find?_of_done valued) later
      rw [outcome_resolve_eq_done_iff, same]
      exact outcome_fill_of_le (Nat.le_succ steps) short

end DeployConfig.Resolution

/-! ## The two ways of a fleet -/

namespace DeployConfig.Fleet

/-- What a user asks for is resolved for the component that the reference means. -/
theorem outcome_resolveValue_eq_done {fleet : Fleet} {steps : Nat}
    {text reference environment configType value : String} {component : Component}
    (located : fleet.sources.environments.component reference environment = .ok component)
    (done : (fleet.resolveValue steps text reference environment configType).outcome =
      .done value) :
    (Resolution.resolveValue fleet.world steps text ⟨component, environment⟩ configType).outcome =
      .done value := by
  simp only [resolveValue, resolving, consultEnvironments, Bind.bind,
    Traced.outcome_bind_eq_done_iff, Traced.outcome_restate_eq_done_iff, located] at done
  obtain ⟨_, ⟨_, _, consulted⟩, resolved⟩ := done
  cases consulted
  exact resolved

/-- **Asking for a property gives what its configuration has.** The component means itself, its key
is made of key characters, and the informants of the config type answer it with the property. When
the value `${this@key}` can be resolved, the property is resolved to the same text for the
configuration of the component. -/
theorem resolve_of_resolveValue {fleet : Fleet} {steps : Nat}
    {key environment configType value : String} {component : Component}
    {informants : List Informant} {property : Property}
    (isRun : Written.IsRun isKeyChar key.toList)
    (located : fleet.sources.environments.component component.name environment = .ok component)
    (configured : fleet.informants.get? configType = some informants)
    (answered : Informant.firstAnswer fleet.sources ⟨component, key, environment⟩ informants =
      .ok (some property))
    (done : (fleet.resolveValue steps (Resolution.selfText key) component.name environment
      configType).outcome = .done value) :
    (fleet.resolving (.property ⟨component, environment⟩ key)
      (Resolution.resolve fleet.world steps property ⟨component, environment⟩
        configType)).outcome = .done value := by
  have resolved := outcome_resolveValue_eq_done located done
  have answerer : fleet.world.answerers.get? configType =
      some fun query => Informant.firstAnswer fleet.sources query informants := by
    rw [world, World.ofInformants, Dictionary.get?_map, configured]
    rfl
  rw [resolving, Traced.outcome_restate_eq_done_iff]
  exact Resolution.outcome_resolve_of_selfText isRun located answerer answered resolved

/-- A component of an environment with one group. -/
def shop : Component := ⟨"shop", "web"⟩

/-- A property of the component that refers to another one. -/
def shopAddress : Property :=
  ⟨"address", "http:$\x7bthis@port\x7d", "dev", false, .special shop "declared"⟩

def shopPort : Property :=
  ⟨"port", "80", "dev", false, .special shop "declared"⟩

/-- A fleet with this component and these properties. -/
def shopFleet : Fleet where
  configTypes := ["app"]
  informants := Dictionary.empty.insert "app" [.descriptor, .properties "app"]
  protectedKeys := []
  sources :=
    { environments :=
        { names := .ok ["dev"]
          environment := .of ["dev"] fun name =>
            if name == "dev" then
              .ok ⟨"dev", none, [⟨"front", none, [shop], .empty⟩], .empty⟩
            else .error (.notFound name ["dev"]) }
      directory := fun _ => default
      properties := fun key =>
        .ok (if key == ⟨shop, "dev", "app"⟩ then
          (Dictionary.empty.insert "address" shopAddress).insert "port" shopPort
        else .empty) }

/-- The address of the component, asked for and configured. -/
theorem resolve_shopAddress :
    (shopFleet.resolving (.property ⟨shop, "dev"⟩ "address")
      (Resolution.resolve shopFleet.world 4 shopAddress ⟨shop, "dev"⟩ "app")).outcome =
      .done "http:80" :=
  resolve_of_resolveValue (by decide) (by cbv) (by cbv) (by cbv) (by cbv)

end DeployConfig.Fleet
