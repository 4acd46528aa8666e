import DeployConfig.Proofs.Placeholder.RoundTrip
import DeployConfig.Proofs.Resolution.Runs
import Mathlib

/-!
# References into another config type

A placeholder of another config type is handed over to that type as a text: it is written down
without its type and with its environment in brackets, and the other type reads it again. This
module asks whether the reference arrives.

It does whenever its environment can be written in brackets, that is, when it is a run of identifier
characters (`Placeholder.find?_handedOver_iff`). Then the placeholder is resolved as the same
reference in the other type, with nothing being expanded there (`refer_delegated`): a reference that
nobody answers fails, and its text is never left in a value. The default arrives even where only the
last brace of the text closed it.

An environment that a placeholder names in brackets is such a run, but one that it has from its
property need not be. `resolveValue_spacedReference` shows an environment with a space in its name:
the text of the reference is no placeholder any more, and becomes the value.
-/

set_option autoImplicit false

namespace DeployConfig

open Written

/-! ## The text that is handed over -/

namespace Placeholder

variable {text : List Char} {found : Occurrence} {environment : String}

/-- The reference that a placeholder of another config type is handed over as. -/
def handedOver (placeholder : Placeholder) : Placeholder :=
  (placeholder.withConfigType none).explicit

/-- The pieces of the reference are those of the placeholder, but for the type and the
environment. -/
theorem toWritten_handedOver (written : Written) (environment : String) :
    (ofWritten written environment).handedOver.toWritten =
      { written with
        configType := none
        environment := some (ofWritten written environment).environment.toList } := by
  obtain ⟨configType, component, named, key, fallback⟩ := written
  cases fallback <;>
    simp [handedOver, withConfigType, explicit, toWritten, ofWritten, String.toList_ofList]

/-- Read in any context, these pieces are the reference again. -/
theorem ofWritten_toWritten_handedOver (placeholder : Placeholder) (environment : String) :
    ofWritten placeholder.handedOver.toWritten environment = placeholder.handedOver :=
  ofWritten_toWritten_of_named rfl environment

/-- **The text of a reference is read as the reference exactly when its environment is a run of
identifier characters.** -/
theorem find?_handedOver_iff (first : Occurrence.find? text = some found) :
    Occurrence.find? (ofWritten found.written environment).handedOver.text.toList =
        some ⟨[], (ofWritten found.written environment).handedOver.toWritten, []⟩ ↔
      IsRun isIdentifierChar (ofWritten found.written environment).environment.toList := by
  have wellFormed := (Occurrence.find?_eq_some_iff.mp first).wellFormed
  rw [toList_text, toWritten_handedOver]
  apply wellFormed.placed_iff
  intro name untyped
  cases untyped

/-- An environment that is named in brackets can be written in brackets. -/
theorem isRun_environment (first : Occurrence.find? text = some found)
    (named : (ofWritten found.written environment).named = true) :
    IsRun isIdentifierChar (ofWritten found.written environment).environment.toList := by
  have wellFormed := (Occurrence.find?_eq_some_iff.mp first).wellFormed
  obtain ⟨name, same⟩ := Option.isSome_iff_exists.mp named
  rw [ofWritten, same, Option.map_some, Option.getD_some, String.toList_ofList]
  exact wellFormed.environment name same

end Placeholder

namespace Resolution

variable {rules : Rules} {world : World} {root : Placed} {frame : Frame} {placeholder : Placeholder}
  {text : List Char} {found : Occurrence} {steps : Nat} {other : String}

/-! ## References that are handed over -/

/-- **A placeholder of another type is resolved as the reference in that type.** -/
theorem outcome_refer_delegated (first : Occurrence.find? text = some found)
    (taken : placeholder = .ofWritten found.written frame.property.environment)
    (another : frame.otherConfigType? placeholder = some other)
    (configured : world.answerers.contains other = true)
    (isRun : IsRun isIdentifierChar placeholder.environment.toList) :
    (refer rules world root (steps + 1) frame placeholder).outcome =
      ((checkDepth rules root (frame.delegate placeholder other)).bind fun _ =>
        refer rules world root steps (frame.delegate placeholder other)
          placeholder.handedOver).outcome := by
  subst taken
  have alone := (Placeholder.find?_handedOver_iff first).mpr isRun
  rw [refer, next_of_other another, if_pos configured, Traced.pure_bind]
  refine Traced.outcome_bind_congr rfl fun _ _ => ?_
  exact (outcome_fill_of_alone alone).trans
    (by rw [Placeholder.ofWritten_toWritten_handedOver])

/-- A placeholder may be handed over from a text that is not nested too deep itself. -/
theorem within_delegate (shallow : frame.depth < 64) :
    Within .standard (frame.delegate placeholder other) :=
  within_standard_iff.mpr shallow

/-- A reference that nobody of the other type answers is unresolved. -/
theorem outcome_refer_of_declined
    (declined : Answered world root (frame.delegate placeholder other) placeholder.handedOver none)
    (missing : placeholder.fallback = none) :
    (refer rules world root steps (frame.delegate placeholder other)
      placeholder.handedOver).outcome =
      .failed (.unresolved ((frame.delegate placeholder other).named placeholder.handedOver)
        (frame.delegate placeholder other).property root) := by
  rw [refer, Traced.outcome_bind_eq_failed_iff, outcome_next_eq_failed_iff]
  exact .inl (.unresolved rfl declined missing)

/-- **Handing a placeholder over keeps the reference, if its environment can be written.** A
placeholder of a text belongs to another type that is configured. Its text is read as the same
reference exactly when the environment is a run of identifier characters. If it is, the placeholder
is resolved as this reference in the other type, where nothing is being expanded; when nobody
answers there and there is no default, it is unresolved; and neither its value nor that of the text
around it holds the text of the reference. -/
theorem refer_delegated (world : World) (root : Placed)
    (first : Occurrence.find? text = some found)
    (taken : placeholder = .ofWritten found.written frame.property.environment)
    (another : frame.otherConfigType? placeholder = some other)
    (configured : world.answerers.contains other = true) :
    (Occurrence.find? placeholder.handedOver.text.toList =
        some ⟨[], placeholder.handedOver.toWritten, []⟩ ↔
      IsRun isIdentifierChar placeholder.environment.toList) ∧
    (IsRun isIdentifierChar placeholder.environment.toList →
      ∀ handed : Frame, handed =
          ⟨derived frame.property placeholder.handedOver.text, other, [], frame.depth + 1⟩ →
        (∀ steps, (refer .standard world root (steps + 1) frame placeholder).outcome =
          ((checkDepth .standard root handed).bind fun _ =>
            refer .standard world root steps handed placeholder.handedOver).outcome) ∧
        (frame.depth < 64 → Answered world root handed placeholder.handedOver none →
          placeholder.fallback = none → ∀ steps,
          (refer .standard world root (steps + 1) frame placeholder).outcome =
            .failed (.unresolved (handed.named placeholder.handedOver) handed.property root)) ∧
        ∀ steps value,
          ((refer .standard world root steps frame placeholder).outcome = .done value ∨
            (fill .standard world root steps frame text).outcome = .done value) →
          ¬ placeholder.handedOver.toWritten.characters <:+: value) := by
  have readAgain : Occurrence.find? placeholder.handedOver.text.toList =
        some ⟨[], placeholder.handedOver.toWritten, []⟩ ↔
      IsRun isIdentifierChar placeholder.environment.toList := by
    rw [taken]
    exact Placeholder.find?_handedOver_iff first
  refine ⟨readAgain, ?_⟩
  rintro isRun handed rfl
  have same : ∀ steps, (refer .standard world root (steps + 1) frame placeholder).outcome =
      ((checkDepth .standard root (frame.delegate placeholder other)).bind fun _ =>
        refer .standard world root steps (frame.delegate placeholder other)
          placeholder.handedOver).outcome :=
    fun _ => outcome_refer_delegated first taken another configured isRun
  refine ⟨same, fun shallow declined missing steps => ?_, fun steps value done => ?_⟩
  · have within : Within .standard (frame.delegate placeholder other) := within_delegate shallow
    refine (same steps).trans ?_
    rw [Traced.outcome_bind_of_done (outcome_checkDepth_eq_done_iff.mpr within)]
    exact outcome_refer_of_declined declined missing
  · have wellFormed := readAgain.mpr isRun
    rw [Placeholder.toList_text, Occurrence.find?_characters_iff] at wellFormed
    exact Occurrence.not_infix_of_find?_eq_none wellFormed (done.elim find?_of_refer find?_of_done)

/-! ### Ports of another type

In the following world `deploy` knows the port of every component, and `app` knows nothing. -/

/-- A world with one key of the type `deploy`. -/
def portWorld : World where
  locate := fun reference _ => .ok (.ofType reference)
  answerers :=
    (Dictionary.empty.insert "app" fun _ => .ok none).insert "deploy" fun query =>
      .ok (if query.key == "port" then
        some ⟨"port", "8080", query.environment, false, .special query.component "declared"⟩
      else none)
  protectedKeys := []

/-- The component that values are resolved for. -/
def portRoot (environment : String) : Placed := ⟨.ofType "web", environment⟩

/-- Where a value stands. -/
def portFrame (value environment : String) : Frame :=
  .top (valueProperty value (portRoot environment)) "app"

/-- A reference whose default has a brace that nothing but the end of the text closes. -/
def bracedReference : Placeholder :=
  ⟨some "deploy", "web", "dev", false, "host", some "#\x7bx"⟩

/-- Where the reference stands. -/
def bracedFrame : Frame := portFrame "$\x7bdeploy::web@host:#\x7bx\x7d" "dev"

/-- The default arrives with its brace. -/
theorem refer_bracedReference :
    (refer .standard portWorld (portRoot "dev") 3 bracedFrame bracedReference).outcome =
      .done ['#', '{', 'x'] := by
  have first : Occurrence.find? bracedFrame.property.value.toList =
      some ⟨[], bracedReference.toWritten, []⟩ := by cbv
  have another : bracedFrame.otherConfigType? bracedReference = some "deploy" := rfl
  have isRun : IsRun isIdentifierChar bracedReference.environment.toList := by decide
  have delegated :=
    (refer_delegated portWorld (portRoot "dev") first rfl another rfl).2 isRun _ rfl
  exact (delegated.1 2).trans (by cbv)

/-! ### An environment that cannot be written in brackets -/

/-- A reference in an environment with a space in its name. -/
def spacedReference : Placeholder :=
  ⟨some "deploy", "web", "dev 1", false, "port", none⟩

/-- Where the reference stands. -/
def spacedFrame : Frame := portFrame "$\x7bdeploy::web@port\x7d" "dev 1"

/-- **The text of a reference becomes the value**, although `deploy` answers the reference. -/
theorem resolveValue_spacedReference :
    (refer .standard portWorld (portRoot "dev 1") 4
        (spacedFrame.delegate spacedReference "deploy") spacedReference.handedOver).outcome =
      .done ['8', '0', '8', '0'] ∧
    (refer .standard portWorld (portRoot "dev 1") 5 spacedFrame spacedReference).outcome =
      .done spacedReference.handedOver.toWritten.characters ∧
    (resolveValue portWorld 6 "$\x7bdeploy::web@port\x7d" (portRoot "dev 1") "app").outcome =
      .done "$\x7bweb[dev 1]@port\x7d" :=
  ⟨by cbv, by cbv, by cbv⟩

end Resolution

end DeployConfig
