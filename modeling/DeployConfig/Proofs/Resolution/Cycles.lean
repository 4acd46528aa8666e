import DeployConfig.Proofs.Resolution.Runs
import Mathlib

/-!
# What is reported as a cycle

A resolution refuses to expand a reference that is being expanded already. This is meant to catch
references that lead back to themselves and would never end, and this module asks what else it
catches. It compares a resolution with the same one without any limits (`Rules.free`), in which a
reference may be expanded within itself and texts may be nested as deep as they are.

A limit that strikes is the only difference between the two (`outcome_fill_standard`). When the
resolution without limits succeeds, a cycle is reported only if it comes back to a reference that is
being expanded; and then some reference gets two different answers on the way
(`resolve_of_free`). For as long as references keep their answers, what is expanded within itself
would have to be resolved within itself, with less than the least budget that is enough for it
(`Visits.exists_budget`, `Steady.outcome_fill`).

A reference gets two answers when it is a component's reference to itself that the root overrides,
and is then named by the override. `resolve_inherited` shows such a case, in which a cycle is
reported although nothing would go on forever.
-/

set_option autoImplicit false

namespace DeployConfig.Resolution

/-- No limits. -/
def Rules.free : Rules := ⟨none, false⟩

variable {rules : Rules} {world : World} {root : Placed} {frame inner : Frame}
  {text : List Char}

/-! ## Where limits strike -/

/-- The placeholders on the way of a text that are not handed over to another config type. -/
inductive Asks (rules : Rules) (world : World) (root : Placed) (frame : Frame)
    (text : List Char) : Frame → Placeholder → Prop where
  | met {last : Frame} {final : List Char} {found : Occurrence}
      (visits : Visits rules world root frame text last final)
      (first : Occurrence.find? final = some found)
      (own : last.otherConfigType? (.ofWritten found.written last.property.environment) = none) :
      Asks rules world root frame text last
        (.ofWritten found.written last.property.environment)

/-- What is on the way of a text that is visited is on the way. -/
theorem Visits.asks {middle last : Frame} {between : List Char} {placeholder : Placeholder}
    (visits : Visits rules world root frame text middle between)
    (asks : Asks rules world root middle between last placeholder) :
    Asks rules world root frame text last placeholder := by
  obtain ⟨later, first, own⟩ := asks
  exact .met (visits.trans later) first own

/-- The errors of limits that strike on the way of a text. -/
inductive Refused (world : World) (root : Placed) (frame : Frame) (text : List Char) :
    ResolutionError → Prop where
  | tooDeep {last : Frame} {final : List Char}
      (visits : Visits .free world root frame text last final) (deep : 64 < last.depth) :
      Refused world root frame text (.tooDeep 64 last.property root)
  | cyclic {last : Frame} {placeholder : Placeholder} {property : Property}
      (asks : Asks .free world root frame text last placeholder)
      (answered : Answered world root last placeholder (some property))
      (again : last.expands (last.named placeholder) = true) :
      Refused world root frame text
        (.cyclic (last.named placeholder :: last.chain).reverse last.property root)

theorem Visits.refused {last : Frame} {final : List Char} {error : ResolutionError}
    (visits : Visits .free world root frame text last final)
    (refused : Refused world root last final error) : Refused world root frame text error := by
  cases refused with
  | tooDeep later deep => exact .tooDeep (visits.trans later) deep
  | cyclic asks answered again => exact .cyclic (visits.asks asks) answered again

/-- A step without limits succeeds with limits, unless it comes back to a reference. -/
theorem StandsFor.standard {placeholder : Placeholder} {cause : Cause}
    (stands : StandsFor .free world root frame placeholder cause inner) :
    StandsFor .standard world root frame placeholder cause inner ∨
      (frame.otherConfigType? placeholder = none ∧
        (∃ property, Answered world root frame placeholder (some property)) ∧
        frame.expands (frame.named placeholder) = true ∧
        (next .standard world root frame placeholder).outcome =
          .failed (.cyclic (frame.named placeholder :: frame.chain).reverse frame.property
            root)) := by
  cases stands with
  | delegated another configured => exact .inl (.delegated another configured)
  | @found property own answered _ =>
    cases again : frame.expands (frame.named placeholder) with
    | false => exact .inl (.found own answered fun _ => again)
    | true =>
      refine .inr ⟨own, ⟨property, answered⟩, rfl, ?_⟩
      rw [outcome_next_of_found own answered, again]
      rfl
  | fallback own declined given => exact .inl (.fallback own declined given)

/-- What is entered without limits is entered with limits, or a limit strikes. -/
theorem outcome_enter_standard {found : Occurrence}
    (first : Occurrence.find? text = some found)
    (entered : (enter .free world root frame found.written).outcome = .done inner) :
    (enter .standard world root frame found.written).outcome = .done inner ∨
      ∃ error, (enter .standard world root frame found.written).outcome = .failed error ∧
        Refused world root frame text error := by
  obtain ⟨⟨cause, stands⟩, _⟩ := outcome_enter_eq_done_iff.mp entered
  obtain allowed | ⟨own, ⟨property, answered⟩, again, refused⟩ := stands.standard
  · by_cases deep : 64 < inner.depth
    · exact .inr ⟨_, outcome_enter_eq_failed_iff.mpr
        (.inr ⟨cause, inner, allowed, outcome_checkDepth_of_lt rfl deep⟩),
        .tooDeep (Visits.here.enter first entered) deep⟩
    · refine .inl (outcome_enter_eq_done_iff.mpr ⟨⟨cause, allowed⟩, fun limit limited => ?_⟩)
      cases limited
      exact Nat.le_of_not_lt deep
  · exact .inr ⟨_, outcome_enter_eq_failed_iff.mpr (.inl refused),
      .cyclic (.met .here first own) answered again⟩

/-- **Limits that strike are the only difference.** What is resolved without limits is resolved to
the same text with limits, or fails with the error of a limit that strikes on the way. -/
theorem outcome_fill_standard {steps : Nat} {value : List Char}
    (done : (fill .free world root steps frame text).outcome = .done value) :
    (fill .standard world root steps frame text).outcome = .done value ∨
      ∃ error, (fill .standard world root steps frame text).outcome = .failed error ∧
        Refused world root frame text error := by
  induction steps generalizing frame text value with
  | zero => cases done
  | succ steps ih =>
    obtain plain | ⟨found, inner, middle, first, entered, valued, later⟩ :=
      outcome_fill_eq_done_iff.mp done
    · exact .inl (outcome_fill_eq_done_iff.mpr (.inl plain))
    · obtain allowed | ⟨error, fails, refused⟩ := outcome_enter_standard first entered
      · obtain same | ⟨error, fails, refused⟩ := ih valued
        · obtain last | ⟨error, fails, refused⟩ := ih later
          · exact .inl (outcome_fill_eq_done_iff.mpr
              (.inr ⟨found, inner, middle, first, allowed, same, last⟩))
          · exact .inr ⟨error, outcome_fill_eq_failed_iff.mpr
              ⟨found, first, .inr ⟨inner, allowed, .inr ⟨middle, same, fails⟩⟩⟩,
              (Visits.here.turn (.replace first entered valued)).refused refused⟩
        · exact .inr ⟨error, outcome_fill_eq_failed_iff.mpr
            ⟨found, first, .inr ⟨inner, allowed, .inl fails⟩⟩,
            (Visits.here.enter first entered).refused refused⟩
      · exact .inr ⟨error, outcome_fill_eq_failed_iff.mpr ⟨found, first, .inl fails⟩, refused⟩

/-! ## References that keep their answers -/

/-- On the way of a text, a reference gets the same answer wherever it is asked for in a config
type. -/
def Steady (rules : Rules) (world : World) (root : Placed) (frame : Frame)
    (text : List Char) : Prop :=
  ∀ ⦃one other : Frame⦄ ⦃first second : Placeholder⦄ ⦃answer again : Option Property⦄,
    Asks rules world root frame text one first → Asks rules world root frame text other second →
    one.configType = other.configType →
    (one.named first).reference = (other.named second).reference →
    Answered world root one first answer → Answered world root other second again →
    answer = again

/-- While references keep their answers, the same is entered in frames that are alike. -/
theorem Alike.standsFor {one other inner again : Frame} {placeholder : Placeholder}
    {cause recause : Cause} (alike : Alike one other)
    (keeps : one.otherConfigType? placeholder = none → ∀ answer answer',
      Answered world root one placeholder answer → Answered world root other placeholder answer' →
      answer = answer')
    (stands : StandsFor rules world root one placeholder cause inner)
    (restands : StandsFor rules world root other placeholder recause again) :
    Alike inner again := by
  have sameType := (alike.otherConfigType? placeholder).symm
  cases stands with
  | delegated another configured =>
    cases restands with
    | delegated another' configured' =>
      rw [sameType, another] at another'
      cases another'
      exact alike.delegate placeholder _
    | found own _ _ => rw [sameType, another] at own; cases own
    | fallback own _ _ => rw [sameType, another] at own; cases own
  | found own answered fresh =>
    cases restands with
    | delegated another' _ => rw [sameType, own] at another'; cases another'
    | found own' answered' fresh' =>
      cases keeps own _ _ answered answered'
      exact alike.expanding _ _ _
    | fallback own' declined given => cases keeps own _ _ answered declined
  | fallback own declined given =>
    cases restands with
    | delegated another' _ => rw [sameType, own] at another'; cases another'
    | found own' answered' fresh' => cases keeps own _ _ declined answered'
    | fallback own' declined' given' =>
      rw [given] at given'
      cases given'
      exact alike.defaulting _

/-- **While references keep their answers, a text takes the same budget in frames that are
alike.** -/
theorem Steady.outcome_fill {top : Frame} {start : List Char}
    (steady : Steady rules world root top start) {steps more : Nat} {one other : Frame}
    {text value again : List Char} (alike : Alike one other)
    (visits : Visits rules world root top start one text)
    (revisits : Visits rules world root top start other text)
    (done : (fill rules world root more one text).outcome = .done value)
    (redone : (fill rules world root steps other text).outcome = .done again) :
    (fill rules world root steps one text).outcome = .done again := by
  induction steps generalizing more one other text value again with
  | zero => cases redone
  | succ steps ih =>
    obtain plain | ⟨found, inner', middle', first, entered', valued', later'⟩ :=
      outcome_fill_eq_done_iff.mp redone
    · exact outcome_fill_eq_done_iff.mpr (.inl plain)
    · obtain ⟨more, inner, middle, rfl, entered, valued, later⟩ := exists_turn_of_done first done
      have nested : Alike inner inner' := by
        obtain ⟨⟨cause, stands⟩, _⟩ := outcome_enter_eq_done_iff.mp entered
        obtain ⟨⟨recause, restands⟩, _⟩ := outcome_enter_eq_done_iff.mp entered'
        rw [← alike.property] at restands
        refine alike.standsFor (fun own answer answer' answered answered' => ?_) stands restands
        have asks := Asks.met visits first own
        have reasks := Asks.met revisits first (by
          rw [← alike.property, ← alike.otherConfigType?, own])
        rw [← alike.property] at reasks
        exact steady asks reasks alike.configType (by rw [alike.named]) answered answered'
      have same : (fill rules world root steps inner inner.property.value.toList).outcome =
          .done middle' := by
        rw [← nested.property] at valued'
        refine ih nested (visits.enter first entered) ?_ valued valued'
        rw [nested.property]
        exact revisits.enter first entered'
      have sameMiddle : middle = middle' := value_unique valued same
      subst sameMiddle
      refine outcome_fill_eq_done_iff.mpr (.inr ⟨found, inner, middle, first, entered, same, ?_⟩)
      exact ih alike (visits.turn (.replace first entered valued))
        (revisits.turn (.replace first entered' valued')) later later'

/-! ## Nothing is resolved within itself -/

/-- A reference is being expanded: it was answered on the way of a text, and no budget below
`budget` is enough for the value of the answer. -/
inductive IsOpen (rules : Rules) (world : World) (root : Placed) (top : Frame)
    (start : List Char) (configType : String) (budget : Nat) : Placeholder → Prop where
  | expanding {asker : Frame} {placeholder : Placeholder} {property : Property} {enough : Nat}
      {value : List Char}
      (asks : Asks rules world root top start asker placeholder)
      (sameType : asker.configType = configType)
      (answered : Answered world root asker placeholder (some property))
      (visits : Visits rules world root top start
        (asker.expanding (asker.named placeholder) property) property.value.toList)
      (done : (fill rules world root enough (asker.expanding (asker.named placeholder) property)
        property.value.toList).outcome = .done value)
      (least : ∀ less < budget, ∀ value, (fill rules world root less
        (asker.expanding (asker.named placeholder) property)
        property.value.toList).outcome ≠ .done value) :
      IsOpen rules world root top start configType budget (asker.named placeholder)

variable {top : Frame} {start : List Char}

theorem IsOpen.of_le {configType : String} {budget smaller : Nat} {reference : Placeholder}
    (isOpen : IsOpen rules world root top start configType budget reference)
    (le : smaller ≤ budget) :
    IsOpen rules world root top start configType smaller reference := by
  obtain ⟨asks, sameType, answered, visits, done, least⟩ := isOpen
  exact .expanding asks sameType answered visits done fun less small =>
    least less (Nat.lt_of_lt_of_le small le)

/-- What stands for a placeholder expands open references only, if this is so for the text that
holds the placeholder. -/
theorem isOpen_of_standsFor {last inner : Frame} {final : List Char} {found : Occurrence}
    {cause : Cause} {budget enough : Nat} {value : List Char}
    (visits : Visits rules world root top start last final)
    (first : Occurrence.find? final = some found)
    (entered : (enter rules world root last found.written).outcome = .done inner)
    (stands : StandsFor rules world root last
      (.ofWritten found.written last.property.environment) cause inner)
    (opens : ∀ reference ∈ last.chain,
      IsOpen rules world root top start last.configType budget reference)
    (done : (fill rules world root enough inner inner.property.value.toList).outcome = .done value)
    (least : ∀ less < enough, ∀ value,
      (fill rules world root less inner inner.property.value.toList).outcome ≠ .done value)
    (le : enough ≤ budget) :
    ∀ reference ∈ inner.chain,
      IsOpen rules world root top start inner.configType enough reference := by
  intro reference member
  cases stands with
  | delegated another configured => cases member
  | found own answered fresh =>
    cases member with
    | head =>
      exact .expanding (.met visits first own) rfl answered (visits.enter first entered) done least
    | tail _ older => exact (opens reference older).of_le le
  | fallback own declined given => exact (opens reference member).of_le le

/-- **On the way of a text that comes to an end, each text is left with a budget that is enough for
it, and too small for every reference that is being expanded.** -/
theorem Visits.exists_budget {steps : Nat} {value final : List Char} {last : Frame}
    (fresh : top.chain = [])
    (done : (fill rules world root steps top start).outcome = .done value)
    (visits : Visits rules world root top start last final) :
    ∃ budget value, (fill rules world root budget last final).outcome = .done value ∧
      ∀ reference ∈ last.chain,
        IsOpen rules world root top start last.configType budget reference := by
  induction visits with
  | here =>
    refine ⟨steps, value, done, fun reference member => ?_⟩
    rw [fresh] at member
    cases member
  | turn visits turned ih =>
    obtain ⟨budget, value, done, opens⟩ := ih
    obtain ⟨first, entered, valued⟩ := turned
    obtain ⟨less, inner, middle, rfl, entered', valued', later⟩ := exists_turn_of_done first done
    rw [entered] at entered'
    cases entered'
    rw [value_unique valued' valued] at later
    exact ⟨less, value, later, fun reference member =>
      (opens reference member).of_le (Nat.le_succ less)⟩
  | enter visits first entered ih =>
    obtain ⟨budget, value, done, opens⟩ := ih
    obtain ⟨less, inner, middle, rfl, entered', valued, _⟩ := exists_turn_of_done first done
    rw [entered] at entered'
    cases entered'
    obtain ⟨enough, small, valued, least⟩ := exists_least_budget valued
    obtain ⟨⟨cause, stands⟩, _⟩ := outcome_enter_eq_done_iff.mp entered
    exact ⟨enough, middle, valued, isOpen_of_standsFor visits first entered stands opens valued
      least (Nat.le_succ_of_le small)⟩

/-- **While references keep their answers, none is expanded within itself.** -/
theorem Steady.expands_eq_false {steps : Nat} {value : List Char} {last : Frame}
    {placeholder : Placeholder} {property : Property}
    (steady : Steady rules world root top start) (fresh : top.chain = [])
    (done : (fill rules world root steps top start).outcome = .done value)
    (asks : Asks rules world root top start last placeholder)
    (answered : Answered world root last placeholder (some property)) :
    last.expands (last.named placeholder) = false := by
  rw [← Bool.not_eq_true]
  intro again
  obtain ⟨older, member, same⟩ := List.any_eq_true.mp again
  obtain ⟨visits, first, own⟩ := asks
  obtain ⟨budget, value, done, opens⟩ := visits.exists_budget fresh done
  obtain ⟨less, inner, middle, rfl, entered, valued, _⟩ := exists_turn_of_done first done
  have here := Asks.met visits first own
  have nested := visits.enter first entered
  -- What is entered for the reference is the value of the property once more.
  obtain rfl := eq_expanding_of_enter own answered entered
  cases opens older member with
  | expanding asks sameType asked opened enough least =>
    cases steady asks here sameType (beq_iff_eq.mp same) asked answered
    refine least less (Nat.lt_succ_self less) middle ?_
    refine steady.outcome_fill ?_ opened nested enough valued
    exact ⟨rfl, sameType⟩

/-! ## Whole resolutions -/

/-- **What limits do to a resolution that succeeds without them.** It succeeds with the same value.
Or else a text on its way is nested too deep, and this is reported. Or else it comes back to a
reference that is being expanded, and this is reported as a cycle; but then references do not keep
their answers on the way. -/
theorem resolve_of_free {property : Property} {configType : String} {steps : Nat}
    {value : List Char}
    (done : (expand .free world root steps (.top property configType)).outcome = .done value) :
    (resolve world steps property root configType).outcome = .done (String.ofList value) ∨
      (∃ last final,
        Visits .free world root (.top property configType) property.value.toList last final ∧
        64 < last.depth ∧
        (resolve world steps property root configType).outcome =
          .failed (.tooDeep 64 last.property root)) ∨
      ∃ last placeholder,
        Asks .free world root (.top property configType) property.value.toList last placeholder ∧
        last.expands (last.named placeholder) = true ∧
        (resolve world steps property root configType).outcome =
          .failed (.cyclic (last.named placeholder :: last.chain).reverse last.property root) ∧
        ¬ Steady .free world root (.top property configType) property.value.toList := by
  rw [expand_top] at done
  rw [outcome_resolve]
  obtain same | ⟨error, fails, refused⟩ := outcome_fill_standard done
  · rw [same]
    exact .inl rfl
  · rw [fails]
    cases refused with
    | tooDeep visits deep => exact .inr (.inl ⟨_, _, visits, deep, rfl⟩)
    | cyclic asks answered again =>
      refine .inr (.inr ⟨_, _, asks, again, rfl, fun steady => ?_⟩)
      rw [steady.expands_eq_false rfl done asks answered] at again
      cases again

/-! ## An override that refers to what it overrides

In the following world `web` includes `commons`, and overrides its key `x` with a value that refers
to the `x` of `commons`. The override can be resolved. But when `y` of `commons` is resolved for
`web`, its reference `this@x` is a reference to `commons@x` that `web` answers, and within this
answer `commons@x` is answered by `commons`. -/

/-- A property of a whole type. -/
def declared (type key value : String) : Property :=
  ⟨key, value, "dev", false, .special (.ofType type) "declared"⟩

/-- The key `y` of `commons`, which `web` takes over. -/
def inherited : Property := declared "commons" "y" "$\x7bthis@x\x7d"

/-- The key `x` of `web`. -/
def override : Property := declared "web" "x" "$\x7bcommons@x\x7d"

/-- The world with these properties. -/
def overridingWorld : World where
  locate := fun reference _ => .ok (.ofType reference)
  answerers := Dictionary.empty.insert "app" fun query =>
    .ok (if query.key == "y" then some inherited
      else if query.key != "x" then none
      else if query.component.name == "web" then some override
      else if query.component.name == "commons" then some (declared "commons" "x" "0")
      else none)
  protectedKeys := []

/-- The component that the properties are resolved for. -/
def overridingRoot : Placed := ⟨.ofType "web", "dev"⟩

/-- The override, resolved with and without limits. -/
theorem resolve_override :
    (expand .free overridingWorld overridingRoot 3 (.top override "app")).outcome = .done ['0'] ∧
      ((resolve overridingWorld 3 override overridingRoot "app").outcome =
          .done (String.ofList ['0']) ∨
        (∃ last final,
          Visits .free overridingWorld overridingRoot (.top override "app")
            override.value.toList last final ∧
          64 < last.depth ∧
          (resolve overridingWorld 3 override overridingRoot "app").outcome =
            .failed (.tooDeep 64 last.property overridingRoot)) ∨
        ∃ last placeholder,
          Asks .free overridingWorld overridingRoot (.top override "app") override.value.toList
            last placeholder ∧
          last.expands (last.named placeholder) = true ∧
          (resolve overridingWorld 3 override overridingRoot "app").outcome =
            .failed (.cyclic (last.named placeholder :: last.chain).reverse last.property
              overridingRoot) ∧
          ¬ Steady .free overridingWorld overridingRoot (.top override "app")
            override.value.toList) :=
  ⟨by cbv, resolve_of_free (by cbv)⟩

/-- What `y` and the override both refer to. -/
def overridden : Placeholder :=
  ⟨none, "commons", "dev", false, "x", none⟩

/-- **A cycle is reported although the value is `0`.** -/
theorem resolve_inherited :
    (expand .free overridingWorld overridingRoot 4 (.top inherited "app")).outcome =
        .done ['0'] ∧
      (resolve overridingWorld 4 inherited overridingRoot "app").outcome =
        .failed (.cyclic [overridden, overridden] override overridingRoot) :=
  ⟨by cbv, by cbv⟩

end DeployConfig.Resolution
