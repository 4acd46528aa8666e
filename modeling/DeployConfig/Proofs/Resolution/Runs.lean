import DeployConfig.Proofs.Placeholder.Scanning
import DeployConfig.Resolution
import Mathlib.Data.Nat.Find

/-!
# Runs of a resolution

A resolution is a recursion on a budget. This module opens it once, so that whatever is shown of
resolutions goes by the cases of a step. `StandsFor` lists the ways in which a text comes to stand
for a placeholder, and entering one succeeds in exactly these ways, as deep as texts may be nested
(`outcome_enter_eq_done_iff`). `Rejects` lists the errors that a step ends with otherwise
(`outcome_next_eq_failed_iff`). What a text is resolved to is then described turn by turn
(`outcome_fill_eq_done_iff`): each turn resolves the first placeholder (`refer`,
`outcome_fill_of_first`).

Three facts follow for every run that comes to an end: a larger budget changes nothing about it
(`fill_of_le`), the value does not depend on the budget (`value_unique`), and it holds no
placeholder (`find?_of_done`).
-/

set_option autoImplicit false

namespace DeployConfig.Resolution

variable {rules : Rules} {world : World} {root : Placed} {frame inner : Frame}
  {placeholder : Placeholder} {written : Written}

/-! ## Frames that are alike -/

/-- Frames of the same property in the same config type, whatever is being expanded there. -/
structure Alike (one other : Frame) : Prop where
  property : one.property = other.property
  configType : one.configType = other.configType

namespace Alike

variable {one other : Frame}

theorem named (alike : Alike one other) (placeholder : Placeholder) :
    one.named placeholder = other.named placeholder := by
  rw [Frame.named, Frame.named, alike.property]

theorem otherConfigType? (alike : Alike one other) (placeholder : Placeholder) :
    one.otherConfigType? placeholder = other.otherConfigType? placeholder := by
  rw [Frame.otherConfigType?, Frame.otherConfigType?, alike.configType]

theorem overridable (alike : Alike one other) (protectedKeys : List String)
    (placeholder : Placeholder) :
    one.overridable protectedKeys placeholder = other.overridable protectedKeys placeholder := by
  rw [Frame.overridable, Frame.overridable, alike.property]

theorem delegate (alike : Alike one other) (placeholder : Placeholder) (configType : String) :
    Alike (one.delegate placeholder configType) (other.delegate placeholder configType) :=
  ⟨by rw [Frame.delegate, Frame.delegate, alike.property], rfl⟩

theorem expanding (alike : Alike one other) (first second : Placeholder) (property : Property) :
    Alike (one.expanding first property) (other.expanding second property) :=
  ⟨rfl, alike.configType⟩

theorem defaulting (alike : Alike one other) (fallback : String) :
    Alike (one.defaulting fallback) (other.defaulting fallback) :=
  ⟨by rw [Frame.defaulting, Frame.defaulting, alike.property], alike.configType⟩

end Alike

/-! ## One step -/

/-- What the candidates for a placeholder of a text answer. -/
def Answered (world : World) (root : Placed) (frame : Frame) (placeholder : Placeholder)
    (answer : Option Property) : Prop :=
  ∃ answerer, world.answerers.get? frame.configType = some answerer ∧
    (askInTurn world frame.configType answerer placeholder.key
      (candidates world.protectedKeys root frame placeholder)).outcome = .done answer

/-- The candidates answer in one way only. -/
theorem Answered.unique {first second : Option Property}
    (one : Answered world root frame placeholder first)
    (other : Answered world root frame placeholder second) : first = second := by
  obtain ⟨answerer, configured, answer⟩ := one
  obtain ⟨answerer', configured', answer'⟩ := other
  rw [configured] at configured'
  cases configured'
  rw [answer] at answer'
  cases answer'
  rfl

/-- The texts that may stand for a placeholder of a text. -/
inductive StandsFor (rules : Rules) (world : World) (root : Placed) (frame : Frame)
    (placeholder : Placeholder) : Cause → Frame → Prop where
  | delegated {other : String} (another : frame.otherConfigType? placeholder = some other)
      (configured : world.answerers.contains other = true) :
      StandsFor rules world root frame placeholder .delegated (frame.delegate placeholder other)
  | found {property : Property} (own : frame.otherConfigType? placeholder = none)
      (answered : Answered world root frame placeholder (some property))
      (fresh : rules.refusesCycles = true → frame.expands (frame.named placeholder) = false) :
      StandsFor rules world root frame placeholder .found
        (frame.expanding (frame.named placeholder) property)
  | fallback {text : String} (own : frame.otherConfigType? placeholder = none)
      (declined : Answered world root frame placeholder none)
      (given : placeholder.fallback = some text) :
      StandsFor rules world root frame placeholder .fallback (frame.defaulting text)

/-- Whether a text is not nested too deep. -/
def Within (rules : Rules) (frame : Frame) : Prop :=
  ∀ limit, rules.depthLimit = some limit → frame.depth ≤ limit

theorem within_iff {limit : Nat} (limited : rules.depthLimit = some limit) :
    Within rules frame ↔ frame.depth ≤ limit := by
  constructor
  · exact fun within => within limit limited
  · intro shallow limit' limited'
    rw [limited] at limited'
    cases limited'
    exact shallow

theorem within_standard_iff : Within .standard frame ↔ frame.depth ≤ 64 :=
  within_iff rfl

/-- The text that a resolution starts with is never too deep. -/
theorem within_top (rules : Rules) (property : Property) (configType : String) :
    Within rules (.top property configType) :=
  fun limit _ => Nat.zero_le limit

theorem outcome_checkDepth_eq_done_iff :
    (checkDepth rules root frame).outcome = .done () ↔ Within rules frame := by
  unfold checkDepth Within
  cases rules.depthLimit with
  | none => simp [Traced.pure]
  | some limit =>
    simp only [Option.some.injEq, forall_eq']
    split <;> simp [Traced.fail, Traced.pure] <;> omega

theorem outcome_checkDepth_of_lt {limit : Nat} (limited : rules.depthLimit = some limit)
    (deep : limit < frame.depth) :
    (checkDepth rules root frame).outcome = .failed (.tooDeep limit frame.property root) := by
  simp only [checkDepth, limited, if_pos deep]
  rfl

/-- A placeholder of another config type is handed over, if somebody answers for that type. -/
theorem next_of_other {other : String} (another : frame.otherConfigType? placeholder = some other) :
    next rules world root frame placeholder =
      if world.answerers.contains other then .pure (.delegated, frame.delegate placeholder other)
      else .fail (.unsupportedConfigType other world.configTypes) := by
  simp only [next, another]

/-- What becomes of a placeholder once somebody has answered it. -/
theorem outcome_next_of_found {property : Property}
    (own : frame.otherConfigType? placeholder = none)
    (answered : Answered world root frame placeholder (some property)) :
    (next rules world root frame placeholder).outcome =
      if rules.refusesCycles && frame.expands (frame.named placeholder) then
        .failed (.cyclic (frame.named placeholder :: frame.chain).reverse frame.property root)
      else .done (.found, frame.expanding (frame.named placeholder) property) := by
  obtain ⟨answerer, configured, answer⟩ := answered
  simp only [next, own, configured, Bind.bind, Traced.bind, Traced.restate, answer,
    Outcome.mapError]
  split <;> rfl

/-- What becomes of a placeholder that nobody answers. -/
theorem outcome_next_of_declined (own : frame.otherConfigType? placeholder = none)
    (declined : Answered world root frame placeholder none) :
    (next rules world root frame placeholder).outcome =
      match placeholder.fallback with
      | some text => .done (.fallback, frame.defaulting text)
      | none => .failed (.unresolved (frame.named placeholder) frame.property root) := by
  obtain ⟨answerer, configured, answer⟩ := declined
  simp only [next, own, configured, Bind.bind, Traced.bind, Traced.restate, answer,
    Outcome.mapError]
  cases placeholder.fallback <;> rfl

/-- Whoever does not hand a placeholder over has asked for it. -/
theorem answered_of_next {result : Cause × Frame}
    (own : frame.otherConfigType? placeholder = none)
    (done : (next rules world root frame placeholder).outcome = .done result) :
    ∃ answer, Answered world root frame placeholder answer := by
  simp only [next, own] at done
  split at done
  · cases done
  · next answerer configured =>
    simp only [Bind.bind, Traced.outcome_bind_eq_done_iff,
      Traced.outcome_restate_eq_done_iff] at done
    obtain ⟨answer, asked, _⟩ := done
    exact ⟨answer, answerer, configured, asked⟩

/-- **A step succeeds in exactly the ways of `StandsFor`.** -/
theorem outcome_next_eq_done_iff {cause : Cause} :
    (next rules world root frame placeholder).outcome = .done (cause, inner) ↔
      StandsFor rules world root frame placeholder cause inner := by
  constructor
  · intro done
    cases own : frame.otherConfigType? placeholder with
    | some other =>
      rw [next_of_other own] at done
      split at done
      · next configured =>
        cases done
        exact .delegated own configured
      · cases done
    | none =>
      obtain ⟨answer, answered⟩ := answered_of_next own done
      cases answer with
      | some property =>
        rw [outcome_next_of_found own answered] at done
        split at done
        · cases done
        · next fresh =>
          cases done
          exact .found own answered fun refuses => by simpa [refuses] using fresh
      | none =>
        rw [outcome_next_of_declined own answered] at done
        split at done
        · next text given =>
          cases done
          exact .fallback own answered given
        · cases done
  · intro stands
    cases stands with
    | delegated another configured => rw [next_of_other another, if_pos configured]; rfl
    | found own answered fresh =>
      rw [outcome_next_of_found own answered, if_neg]
      intro both
      rw [Bool.and_eq_true] at both
      rw [fresh both.1] at both
      exact absurd both.2 (by simp)
    | fallback own declined given => rw [outcome_next_of_declined own declined, given]

/-- What stands for a placeholder is nested one deeper. -/
theorem StandsFor.depth_eq {cause : Cause}
    (stands : StandsFor rules world root frame placeholder cause inner) :
    inner.depth = frame.depth + 1 := by
  cases stands <;> rfl

/-- Asking needs no budget. -/
theorem outcome_askInTurn_ne_unfinished {configType key : String} {answerer : Answerer}
    (inTurn : List Candidate) :
    (askInTurn world configType answerer key inTurn).outcome ≠ .unfinished := by
  induction inTurn with
  | nil => exact nofun
  | cons candidate rest ih =>
    intro unfinished
    simp only [askInTurn, Bind.bind, Traced.outcome_bind_eq_unfinished_iff] at unfinished
    obtain asking | ⟨answer, _, later⟩ := unfinished
    · simp only [Candidate.ask, Bind.bind, Traced.outcome_bind_eq_unfinished_iff] at asking
      obtain placing | ⟨placed, _, nothing | ⟨_, _, answering⟩⟩ := asking
      · cases candidate with
        | placed known => cases placing
        | referred name environment =>
          simp only [Candidate.toPlaced, Bind.bind, Traced.bind, Traced.note] at placing
          cases located : world.locate name environment <;> simp [located] at placing <;>
            cases placing
      · cases nothing
      · cases answered : answerer ⟨placed.component, key, placed.environment⟩ <;>
          simp [answered, Traced.ofExcept, Outcome.ofExcept] at answering
    · cases answer with
      | some property => cases later
      | none => exact ih later

/-- A step needs no budget. -/
theorem outcome_next_ne_unfinished :
    (next rules world root frame placeholder).outcome ≠ .unfinished := by
  cases own : frame.otherConfigType? placeholder with
  | some other =>
    rw [next_of_other own]
    split <;> exact nofun
  | none =>
    simp only [next, own]
    split
    · exact nofun
    · next answerer configured =>
      intro unfinished
      simp only [Bind.bind, Traced.outcome_bind_eq_unfinished_iff,
        Traced.outcome_restate_eq_unfinished_iff] at unfinished
      obtain asking | ⟨answer, _, later⟩ := unfinished
      · exact outcome_askInTurn_ne_unfinished _ asking
      · cases answer with
        | some property =>
          revert later
          simp only
          split <;> exact nofun
        | none =>
          revert later
          cases placeholder.fallback <;> exact nofun

/-- The errors that a placeholder of a text may be rejected with. -/
inductive Rejects (rules : Rules) (world : World) (root : Placed) (frame : Frame)
    (placeholder : Placeholder) : ResolutionError → Prop where
  | unsupported {other : String} (another : frame.otherConfigType? placeholder = some other)
      (unknown : world.answerers.contains other = false) :
      Rejects rules world root frame placeholder
        (.unsupportedConfigType other world.configTypes)
  | unconfigured (own : frame.otherConfigType? placeholder = none)
      (unknown : world.answerers.get? frame.configType = none) :
      Rejects rules world root frame placeholder
        (.unsupportedConfigType frame.configType world.configTypes)
  | lookup {answerer : Answerer} {cause : LookupError}
      (own : frame.otherConfigType? placeholder = none)
      (configured : world.answerers.get? frame.configType = some answerer)
      (fails : (askInTurn world frame.configType answerer placeholder.key
        (candidates world.protectedKeys root frame placeholder)).outcome = .failed cause) :
      Rejects rules world root frame placeholder (.lookup (frame.named placeholder) cause)
  | cyclic {property : Property} (own : frame.otherConfigType? placeholder = none)
      (answered : Answered world root frame placeholder (some property))
      (refuses : rules.refusesCycles = true)
      (again : frame.expands (frame.named placeholder) = true) :
      Rejects rules world root frame placeholder
        (.cyclic (frame.named placeholder :: frame.chain).reverse frame.property root)
  | unresolved (own : frame.otherConfigType? placeholder = none)
      (declined : Answered world root frame placeholder none)
      (missing : placeholder.fallback = none) :
      Rejects rules world root frame placeholder
        (.unresolved (frame.named placeholder) frame.property root)

/-- **A step fails in exactly the ways of `Rejects`.** -/
theorem outcome_next_eq_failed_iff {error : ResolutionError} :
    (next rules world root frame placeholder).outcome = .failed error ↔
      Rejects rules world root frame placeholder error := by
  constructor
  · intro fails
    cases own : frame.otherConfigType? placeholder with
    | some other =>
      rw [next_of_other own] at fails
      split at fails
      · cases fails
      · next unknown =>
        cases fails
        exact .unsupported own (by simpa using unknown)
    | none =>
      cases configured : world.answerers.get? frame.configType with
      | none =>
        simp only [next, own, configured] at fails
        cases fails
        exact .unconfigured own configured
      | some answerer =>
        cases asked : (askInTurn world frame.configType answerer placeholder.key
            (candidates world.protectedKeys root frame placeholder)).outcome with
        | unfinished => exact absurd asked (outcome_askInTurn_ne_unfinished _)
        | failed cause =>
          simp only [next, own, configured, Bind.bind, Traced.bind, Traced.restate, asked,
            Outcome.mapError] at fails
          cases fails
          exact .lookup own configured asked
        | done answer =>
          have answered : Answered world root frame placeholder answer :=
            ⟨answerer, configured, asked⟩
          cases answer with
          | some property =>
            rw [outcome_next_of_found own answered] at fails
            split at fails
            · next both =>
              cases fails
              rw [Bool.and_eq_true] at both
              exact .cyclic own answered both.1 both.2
            · cases fails
          | none =>
            rw [outcome_next_of_declined own answered] at fails
            split at fails
            · cases fails
            · next missing =>
              cases fails
              exact .unresolved own answered missing
  · intro rejects
    cases rejects with
    | unsupported another unknown => rw [next_of_other another, unknown]; rfl
    | unconfigured own unknown => simp only [next, own, unknown]; rfl
    | lookup own configured fails =>
      simp only [next, own, configured, Bind.bind, Traced.bind, Traced.restate, fails,
        Outcome.mapError]
    | cyclic own answered refuses again =>
      rw [outcome_next_of_found own answered, refuses, again]
      rfl
    | unresolved own declined missing =>
      rw [outcome_next_of_declined own declined, missing]

/-! ## Entering the text that stands for a placeholder -/

/-- **Entering succeeds for the texts that may stand for a placeholder and are not too deep.** -/
theorem outcome_enter_eq_done_iff :
    (enter rules world root frame written).outcome = .done inner ↔
      (∃ cause, StandsFor rules world root frame
        (.ofWritten written frame.property.environment) cause inner) ∧ Within rules inner := by
  have shallow : Within rules inner ↔ (checkDepth rules root inner).outcome = .done () :=
    outcome_checkDepth_eq_done_iff.symm
  rw [shallow]
  simp only [enter, Bind.bind, Traced.outcome_bind_eq_done_iff, ← outcome_next_eq_done_iff]
  constructor
  · rintro ⟨_, _, ⟨cause, entered⟩, stands, _, _, _, within, same⟩
    cases same
    exact ⟨⟨cause, stands⟩, within⟩
  · rintro ⟨⟨cause, stands⟩, within⟩
    exact ⟨(), rfl, (cause, inner), stands, (), rfl, (), within, rfl⟩

/-- For a placeholder that is answered, the value of the answer is entered. -/
theorem eq_expanding_of_enter {property : Property}
    (own : frame.otherConfigType? (.ofWritten written frame.property.environment) = none)
    (answered : Answered world root frame (.ofWritten written frame.property.environment)
      (some property))
    (entered : (enter rules world root frame written).outcome = .done inner) :
    inner = frame.expanding
      (frame.named (.ofWritten written frame.property.environment)) property := by
  obtain ⟨⟨cause, stands⟩, _⟩ := outcome_enter_eq_done_iff.mp entered
  cases stands with
  | delegated another configured =>
    rw [own] at another
    cases another
  | found _ answer fresh =>
    cases answer.unique answered
    rfl
  | fallback _ declined given => cases declined.unique answered

/-- Entering fails where the step does, or because the text is too deep. -/
theorem outcome_enter_eq_failed_iff {error : ResolutionError} :
    (enter rules world root frame written).outcome = .failed error ↔
      (next rules world root frame (.ofWritten written frame.property.environment)).outcome =
          .failed error ∨
        ∃ cause inner, StandsFor rules world root frame
            (.ofWritten written frame.property.environment) cause inner ∧
          (checkDepth rules root inner).outcome = .failed error := by
  simp only [enter, Bind.bind, Traced.outcome_bind_eq_failed_iff, ← outcome_next_eq_done_iff]
  constructor
  · rintro (nothing | ⟨_, _, fails | ⟨⟨cause, inner⟩, stands, nothing | ⟨_, _, deep | nothing⟩⟩⟩)
    · cases nothing
    · exact .inl fails
    · cases nothing
    · exact .inr ⟨cause, inner, stands, deep⟩
    · obtain ⟨_, _, nothing⟩ := nothing
      cases nothing
  · rintro (fails | ⟨cause, inner, stands, deep⟩)
    · exact .inr ⟨(), rfl, .inl fails⟩
    · exact .inr ⟨(), rfl, .inr ⟨(cause, inner), stands, .inr ⟨(), rfl, .inl deep⟩⟩⟩

/-- Entering needs no budget. -/
theorem outcome_enter_ne_unfinished :
    (enter rules world root frame written).outcome ≠ .unfinished := by
  intro unfinished
  simp only [enter, Bind.bind, Traced.outcome_bind_eq_unfinished_iff] at unfinished
  obtain nothing | ⟨_, _, stuck | ⟨entered, _, nothing | ⟨_, _, checking | ⟨_, _, nothing⟩⟩⟩⟩ :=
    unfinished
  · cases nothing
  · exact outcome_next_ne_unfinished stuck
  · cases nothing
  · revert checking
    unfold checkDepth
    split
    · split <;> exact nofun
    · exact nofun
  · cases nothing

/-! ## Turns of a text -/

section Turns

variable {text : List Char} {found : Occurrence} {steps : Nat}

/-- A text without placeholders is resolved. -/
theorem fill_of_find?_eq_none (none : Occurrence.find? text = none) :
    fill rules world root (steps + 1) frame text = .pure text := by
  rw [fill_succ, none]

/-- Of any other text the first placeholder is replaced. -/
theorem fill_of_find?_eq_some (first : Occurrence.find? text = some found) :
    fill rules world root (steps + 1) frame text =
      (enter rules world root frame found.written).bind fun inner =>
        (fill rules world root steps inner inner.property.value.toList).bind fun value =>
          fill rules world root steps frame (found.before ++ (value ++ found.after)) := by
  rw [fill_succ, first]

/-- **What a text is resolved to.** It is its own value if it holds no placeholder, and otherwise
has the value of the text after a turn. -/
theorem outcome_fill_eq_done_iff {value : List Char} :
    (fill rules world root (steps + 1) frame text).outcome = .done value ↔
      (Occurrence.find? text = none ∧ text = value) ∨
        ∃ found inner middle, Occurrence.find? text = some found ∧
          (enter rules world root frame found.written).outcome = .done inner ∧
          (fill rules world root steps inner inner.property.value.toList).outcome = .done middle ∧
          (fill rules world root steps frame
            (found.before ++ (middle ++ found.after))).outcome = .done value := by
  cases first : Occurrence.find? text with
  | none => simp [fill_of_find?_eq_none first, Traced.pure]
  | some found =>
    simp [fill_of_find?_eq_some first, Traced.outcome_bind_eq_done_iff]

/-- **What a larger budget is for.** A budget is too small when it is too small for the value of the
text that stands for the first placeholder, or for the text after the turn. -/
theorem outcome_fill_eq_unfinished_iff :
    (fill rules world root (steps + 1) frame text).outcome = .unfinished ↔
      ∃ found inner, Occurrence.find? text = some found ∧
        (enter rules world root frame found.written).outcome = .done inner ∧
        ((fill rules world root steps inner inner.property.value.toList).outcome = .unfinished ∨
          ∃ middle,
            (fill rules world root steps inner inner.property.value.toList).outcome =
              .done middle ∧
            (fill rules world root steps frame
              (found.before ++ (middle ++ found.after))).outcome = .unfinished) := by
  cases first : Occurrence.find? text with
  | none => simp [fill_of_find?_eq_none first, Traced.pure]
  | some found =>
    simp [fill_of_find?_eq_some first, Traced.outcome_bind_eq_unfinished_iff,
      outcome_enter_ne_unfinished]

/-- **How a text fails.** The text for its first placeholder cannot be entered or resolved, or the
text after the turn fails. -/
theorem outcome_fill_eq_failed_iff {error : ResolutionError} :
    (fill rules world root (steps + 1) frame text).outcome = .failed error ↔
      ∃ found, Occurrence.find? text = some found ∧
        ((enter rules world root frame found.written).outcome = .failed error ∨
          ∃ inner, (enter rules world root frame found.written).outcome = .done inner ∧
            ((fill rules world root steps inner inner.property.value.toList).outcome =
                .failed error ∨
              ∃ middle,
                (fill rules world root steps inner inner.property.value.toList).outcome =
                  .done middle ∧
                (fill rules world root steps frame
                  (found.before ++ (middle ++ found.after))).outcome = .failed error)) := by
  cases first : Occurrence.find? text with
  | none => simp [fill_of_find?_eq_none first, Traced.pure]
  | some found => simp [fill_of_find?_eq_some first, Traced.outcome_bind_eq_failed_iff]

/-! ## Runs that come to an end -/

/-- **A larger budget changes nothing about a run that comes to an end.** -/
theorem fill_of_le {more : Nat} (larger : steps ≤ more)
    (ends : (fill rules world root steps frame text).outcome ≠ .unfinished) :
    fill rules world root more frame text = fill rules world root steps frame text := by
  induction steps generalizing more frame text with
  | zero => exact absurd rfl ends
  | succ steps ih =>
    obtain ⟨more, rfl⟩ : ∃ less, more = less + 1 := ⟨more - 1, by omega⟩
    have larger : steps ≤ more := Nat.le_of_succ_le_succ larger
    cases first : Occurrence.find? text with
    | none => rw [fill_of_find?_eq_none first, fill_of_find?_eq_none first]
    | some found =>
      rw [fill_of_find?_eq_some first, fill_of_find?_eq_some first]
      refine Traced.bind_congr fun inner entered => ?_
      -- Neither the value nor the text after the turn may be what the budget is too small for.
      rw [Ne, outcome_fill_eq_unfinished_iff] at ends
      have valued : (fill rules world root steps inner inner.property.value.toList).outcome ≠
          .unfinished := fun stuck => ends ⟨found, inner, first, entered, .inl stuck⟩
      rw [ih larger valued]
      refine Traced.bind_congr fun middle done => ih larger fun stuck => ?_
      exact ends ⟨found, inner, first, entered, .inr ⟨middle, done, stuck⟩⟩

theorem outcome_fill_of_le {more : Nat} {value : List Char} (larger : steps ≤ more)
    (done : (fill rules world root steps frame text).outcome = .done value) :
    (fill rules world root more frame text).outcome = .done value := by
  rw [fill_of_le larger (by rw [done]; exact nofun), done]

/-- What a budget is too small for, a smaller one is too small for. -/
theorem unfinished_of_le {more : Nat} (larger : steps ≤ more)
    (unfinished : (fill rules world root more frame text).outcome = .unfinished) :
    (fill rules world root steps frame text).outcome = .unfinished := by
  by_contra ends
  rw [fill_of_le larger ends] at unfinished
  exact ends unfinished

/-- The value of a text does not depend on the budget. -/
theorem value_unique {more : Nat} {value other : List Char}
    (done : (fill rules world root steps frame text).outcome = .done value)
    (again : (fill rules world root more frame text).outcome = .done other) : value = other := by
  have one := outcome_fill_of_le (Nat.le_max_left steps more) done
  rw [outcome_fill_of_le (Nat.le_max_right steps more) again] at one
  cases one
  rfl

/-- A text that has a value has this value for every budget that is not too small. -/
theorem unfinished_or_done {value : List Char}
    (done : (fill rules world root steps frame text).outcome = .done value) (more : Nat) :
    (fill rules world root more frame text).outcome = .unfinished ∨
      (fill rules world root more frame text).outcome = .done value := by
  refine or_iff_not_imp_left.mpr fun ends => ?_
  have same := fill_of_le (Nat.le_max_left more steps) ends
  rw [← same]
  exact outcome_fill_of_le (Nat.le_max_right more steps) done

/-- A resolved text has taken a turn for its first placeholder. -/
theorem exists_turn_of_done {value : List Char} (first : Occurrence.find? text = some found)
    (done : (fill rules world root steps frame text).outcome = .done value) :
    ∃ less inner middle, steps = less + 1 ∧
      (enter rules world root frame found.written).outcome = .done inner ∧
      (fill rules world root less inner inner.property.value.toList).outcome = .done middle ∧
      (fill rules world root less frame
        (found.before ++ (middle ++ found.after))).outcome = .done value := by
  cases steps with
  | zero => cases done
  | succ less =>
    obtain ⟨none, _⟩ | ⟨found', inner, middle, first', entered, valued, later⟩ :=
      outcome_fill_eq_done_iff.mp done
    · rw [first] at none
      cases none
    · rw [first] at first'
      cases first'
      exact ⟨less, inner, middle, rfl, entered, valued, later⟩

/-- What comes to an end has a least budget that is enough. -/
theorem exists_least_budget {value : List Char}
    (done : (fill rules world root steps frame text).outcome = .done value) :
    ∃ enough ≤ steps, (fill rules world root enough frame text).outcome = .done value ∧
      ∀ less < enough, ∀ value, (fill rules world root less frame text).outcome ≠ .done value := by
  classical
  have some : ∃ enough value, (fill rules world root enough frame text).outcome = .done value :=
    ⟨steps, value, done⟩
  obtain ⟨least, again⟩ := Nat.find_spec some
  refine ⟨Nat.find some, Nat.find_min' some ⟨value, done⟩, ?_, fun less small value early => ?_⟩
  · rw [again, value_unique again done]
  · exact Nat.find_min some small ⟨value, early⟩

/-- A value holds no placeholder. -/
theorem find?_of_done {value : List Char}
    (done : (fill rules world root steps frame text).outcome = .done value) :
    Occurrence.find? value = none := by
  induction steps generalizing frame text with
  | zero => cases done
  | succ steps ih =>
    obtain ⟨none, rfl⟩ | ⟨found, inner, middle, _, _, _, later⟩ := outcome_fill_eq_done_iff.mp done
    · exact none
    · exact ih later

/-- A text without placeholders is its own value. -/
theorem value_of_find?_eq_none {value : List Char} (none : Occurrence.find? text = none)
    (done : (fill rules world root steps frame text).outcome = .done value) : value = text := by
  have plain : (fill rules world root 1 frame text).outcome = .done text := by
    rw [fill_of_find?_eq_none none]
    rfl
  exact value_unique done plain

/-! ### Resolving one placeholder -/

/-- Resolves a placeholder of a text: what stands for it is found by a step, and resolved. -/
def refer (rules : Rules) (world : World) (root : Placed) (steps : Nat) (frame : Frame)
    (placeholder : Placeholder) : Traced Event ResolutionError (List Char) :=
  (next rules world root frame placeholder).bind fun (_, inner) =>
    expand rules world root steps inner

/-- **A turn of a text resolves its first placeholder.** -/
theorem outcome_fill_of_first (first : Occurrence.find? text = some found) :
    (fill rules world root (steps + 1) frame text).outcome =
      ((refer rules world root steps frame
          (.ofWritten found.written frame.property.environment)).bind fun value =>
        fill rules world root steps frame (found.before ++ (value ++ found.after))).outcome := by
  rw [fill_of_find?_eq_some first]
  simp only [enter, refer, expand, Bind.bind, Traced.bind_assoc]
  rw [Traced.outcome_note_bind]
  exact Traced.outcome_bind_congr rfl fun _ _ => Traced.outcome_note_bind _ _

/-- The value of a placeholder holds none. -/
theorem find?_of_refer {value : List Char}
    (done : (refer rules world root steps frame placeholder).outcome = .done value) :
    Occurrence.find? value = none := by
  simp only [refer, expand, Bind.bind, Traced.outcome_bind_eq_done_iff] at done
  obtain ⟨_, _, _, _, filled⟩ := done
  exact find?_of_done filled

/-- A placeholder that has a value is resolved with some budget. -/
theorem steps_ne_zero_of_refer {value : List Char}
    (done : (refer rules world root steps frame placeholder).outcome = .done value) :
    steps ≠ 0 := by
  simp only [refer, expand, Bind.bind, Traced.outcome_bind_eq_done_iff] at done
  obtain ⟨_, _, _, _, filled⟩ := done
  rintro rfl
  cases filled

/-- **A text that is just one placeholder has the value of the placeholder.** -/
theorem outcome_fill_of_alone {written : Written}
    (alone : Occurrence.find? text = some ⟨[], written, []⟩) :
    (fill rules world root (steps + 1) frame text).outcome =
      (refer rules world root steps frame
        (.ofWritten written frame.property.environment)).outcome := by
  rw [outcome_fill_of_first alone]
  conv_rhs => rw [← Traced.bind_pure (refer _ _ _ _ _ _)]
  refine Traced.outcome_bind_congr rfl fun value done => ?_
  -- What is left to do after the placeholder takes one step, and its value has taken that before.
  obtain ⟨less, rfl⟩ := Nat.exists_eq_succ_of_ne_zero (steps_ne_zero_of_refer done)
  rw [List.nil_append, List.append_nil, fill_of_find?_eq_none (find?_of_refer done)]

end Turns

/-! ## The texts on the way of a text -/

/-- A turn of a text: the first placeholder is replaced by a value. -/
inductive Turn (rules : Rules) (world : World) (root : Placed) (frame : Frame)
    (value : List Char) : List Char → List Char → Prop where
  | replace {text : List Char} {found : Occurrence} {inner : Frame} {steps : Nat}
      (first : Occurrence.find? text = some found)
      (entered : (enter rules world root frame found.written).outcome = .done inner)
      (done : (fill rules world root steps inner inner.property.value.toList).outcome =
        .done value) :
      Turn rules world root frame value text (found.before ++ (value ++ found.after))

/-- What a text becomes turn by turn, and what is entered for its placeholders on the way. -/
inductive Visits (rules : Rules) (world : World) (root : Placed) (frame : Frame)
    (text : List Char) : Frame → List Char → Prop where
  | here : Visits rules world root frame text frame text
  | turn {last : Frame} {value final next : List Char}
      (visits : Visits rules world root frame text last final)
      (turned : Turn rules world root last value final next) :
      Visits rules world root frame text last next
  | enter {last inner : Frame} {final : List Char} {found : Occurrence}
      (visits : Visits rules world root frame text last final)
      (first : Occurrence.find? final = some found)
      (entered : (enter rules world root last found.written).outcome = .done inner) :
      Visits rules world root frame text inner inner.property.value.toList

theorem Visits.trans {middle last : Frame} {text between final : List Char}
    (visits : Visits rules world root frame text middle between)
    (later : Visits rules world root middle between last final) :
    Visits rules world root frame text last final := by
  induction later with
  | here => exact visits
  | turn _ turned ih => exact ih.turn turned
  | enter _ first entered ih => exact ih.enter first entered

/-! ## Whole resolutions -/

/-- The value of a property that is not nested too deep is resolved as it is. -/
theorem expand_of_within (within : Within rules frame) (steps : Nat) :
    expand rules world root steps frame =
      fill rules world root steps frame frame.property.value.toList := by
  have passes : checkDepth rules root frame = .pure () := by
    unfold checkDepth
    split
    · next limit limited =>
      have shallow := within limit limited
      exact if_neg (by omega)
    · rfl
  simp only [expand, passes, Bind.bind, Traced.pure_bind]

/-- The text that a resolution starts with is nested in none. -/
theorem expand_top (rules : Rules) (world : World) (root : Placed) (steps : Nat)
    (property : Property) (configType : String) :
    expand rules world root steps (.top property configType) =
      fill rules world root steps (.top property configType) property.value.toList :=
  expand_of_within (within_top rules property configType) steps

/-- Resolves the value of a property by rules that need not be those for a user. -/
def resolveBy (rules : Rules) (world : World) (steps : Nat) (property : Property) (root : Placed)
    (configType : String) : Traced Event ResolutionError String := do
  let value ← expand rules world root steps (.top property configType)
  return String.ofList value

theorem resolveBy_eq (rules : Rules) (world : World) (steps : Nat) (property : Property)
    (root : Placed) (configType : String) :
    resolveBy rules world steps property root configType =
      (fill rules world root steps (.top property configType) property.value.toList).bind
        fun value => .pure (String.ofList value) := by
  rw [resolveBy, expand_top]
  rfl

theorem log_resolveBy (rules : Rules) (world : World) (steps : Nat) (property : Property)
    (root : Placed) (configType : String) :
    (resolveBy rules world steps property root configType).log =
      (fill rules world root steps (.top property configType) property.value.toList).log := by
  rw [resolveBy_eq, Traced.log_bind]
  split <;> exact List.append_nil _

/-- A larger budget changes nothing about a resolution that comes to an end. -/
theorem resolveBy_of_le {steps more : Nat} {property : Property} {configType : String}
    (larger : steps ≤ more)
    (ends : (resolveBy rules world steps property root configType).outcome ≠ .unfinished) :
    resolveBy rules world more property root configType =
      resolveBy rules world steps property root configType := by
  rw [resolveBy_eq] at ends
  rw [resolveBy_eq, resolveBy_eq, fill_of_le larger]
  intro unfinished
  exact ends (Traced.outcome_bind_eq_unfinished_iff.mpr (.inl unfinished))

/-- How a resolution ends. -/
theorem outcome_resolve (world : World) (steps : Nat) (property : Property) (root : Placed)
    (configType : String) :
    (resolve world steps property root configType).outcome =
      match (fill .standard world root steps (.top property configType)
        property.value.toList).outcome with
      | .done value => .done (String.ofList value)
      | .failed error => .failed error
      | .unfinished => .unfinished := by
  rw [resolve, expand_top]
  simp only [Bind.bind, Traced.bind]
  cases (fill .standard world root steps (.top property configType)
    property.value.toList).outcome <;> rfl

theorem outcome_resolve_eq_failed_iff {steps : Nat} {property : Property} {configType : String}
    {error : ResolutionError} :
    (resolve world steps property root configType).outcome = .failed error ↔
      (fill .standard world root steps (.top property configType)
        property.value.toList).outcome = .failed error := by
  rw [outcome_resolve]
  split <;> simp_all

/-- What a resolution goes through is what its text does. -/
theorem log_resolve (world : World) (steps : Nat) (property : Property) (root : Placed)
    (configType : String) :
    (resolve world steps property root configType).log =
      (fill .standard world root steps (.top property configType) property.value.toList).log :=
  log_resolveBy .standard world steps property root configType

theorem outcome_resolve_eq_done_iff {steps : Nat} {property : Property}
    {configType value : String} :
    (resolve world steps property root configType).outcome = .done value ↔
      (fill .standard world root steps (.top property configType)
        property.value.toList).outcome = .done value.toList := by
  rw [outcome_resolve]
  cases (fill .standard world root steps (.top property configType)
    property.value.toList).outcome with
  | done characters =>
    simp only [Outcome.done.injEq]
    exact ⟨fun same => by rw [← same, String.toList_ofList],
      fun same => by rw [same, String.ofList_toList]⟩
  | failed error => simp
  | unfinished => simp

theorem outcome_resolve_eq_unfinished_iff {steps : Nat} {property : Property}
    {configType : String} :
    (resolve world steps property root configType).outcome = .unfinished ↔
      (fill .standard world root steps (.top property configType)
        property.value.toList).outcome = .unfinished := by
  rw [outcome_resolve]
  split <;> simp_all

end DeployConfig.Resolution
