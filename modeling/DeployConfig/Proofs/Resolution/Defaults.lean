import DeployConfig.Proofs.Resolution.Precedence
import DeployConfig.Proofs.Resolution.Siblings
import DeployConfig.Proofs.Resolution.Transience

/-!
# Defaults

A placeholder may carry a default, which is a text like any other: it may hold placeholders with
defaults of their own. A default is needed when nobody answers the placeholder, and it is not looked
at otherwise. This module shows both.

When somebody answers, or when asking fails, the run with one default is the run with any other one,
apart from the placeholders that tell the default: the one that is taken up and, while its answer is
expanded, the one that is open. What is open is compared and asked for as a reference, and a
reference has no default, so the two runs stay together step by step (`Akin`, `next_akin`,
`fill_bare`).

When all decline, the default is resolved in place of the placeholder, one text deeper and among the
same open references. A placeholder with a balanced default is a balanced default itself
(`Written.IsReference.balances_characters`), so this goes on through defaults of defaults.

`expand_withFallback` states both for the value of any property.
-/

set_option autoImplicit false

namespace DeployConfig

/-! ## Placeholders with a default -/

namespace Written

/-- The pieces of a placeholder that has no default. -/
structure IsReference (written : Written) : Prop where
  wellFormed : WellFormed written.characters written []
  plain : written.fallback = none

/-- The same placeholder with a default. -/
def withFallback (written : Written) (fallback : List Char) : Written :=
  { written with fallback := some fallback }

variable {reference : Written} {fallback : List Char}

/-- A reference with a balanced default ends where it does whatever follows. -/
theorem IsReference.selfContained (isReference : reference.IsReference)
    (balances : Balances fallback) : (reference.withFallback fallback).SelfContained := by
  obtain ⟨⟨_, typed, named, placed, keyed, _⟩, _⟩ := isReference
  have only : ∀ given, (reference.withFallback fallback).fallback = some given →
      Balances given := by
    rintro _ ⟨⟩
    exact balances
  refine ⟨⟨(List.append_nil _).symm, typed, named, placed, keyed, ?_⟩, only⟩
  intro given same
  exact .inl (only given same)

/-! ### A default of a default -/

/-- A character that neither opens nor closes a brace. -/
def IsInert (c : Char) : Prop :=
  c ≠ '$' ∧ c ≠ '#' ∧ c ≠ '{' ∧ c ≠ '}'

instance : DecidablePred IsInert := fun _ => inferInstanceAs (Decidable (_ ∧ _))

theorem isInert_of_isKeyChar {c : Char} (member : isKeyChar c = true) : IsInert c := by
  refine ⟨?_, ?_, ?_, ?_⟩ <;> rintro rfl <;> revert member <;> decide

theorem isInert_of_isIdentifierChar {c : Char} (member : isIdentifierChar c = true) :
    IsInert c := by
  apply isInert_of_isKeyChar
  rw [isKeyChar, member]
  rfl

/-- What stands between the opening brace of a placeholder and its default. -/
def opening (written : Written) : List Char :=
  qualified written.configType ++
    (written.component ++ (bracketed written.environment ++ '@' :: (written.key ++ [':'])))

theorem characters_withFallback (written : Written) (fallback : List Char) :
    (written.withFallback fallback).characters =
      '$' :: '{' :: (written.opening ++ (fallback ++ ['}'])) := by
  simp [withFallback, opening, characters, qualified, bracketed]

theorem IsReference.isInert (isReference : reference.IsReference) :
    ∀ c ∈ reference.opening, IsInert c := by
  obtain ⟨⟨_, typed, named, placed, keyed, _⟩, _⟩ := isReference
  have inRun : ∀ name, IsRun isIdentifierChar name → ∀ c ∈ name, IsInert c :=
    fun _ isRun c member => isInert_of_isIdentifierChar (isRun.2 c member)
  intro c member
  simp only [opening, List.mem_append, List.mem_cons, List.not_mem_nil, or_false] at member
  rcases member with inType | inName | inPlace | rfl | inKey | rfl
  · cases given : reference.configType with
    | none => simp [qualified, given] at inType
    | some name =>
      simp [qualified, given] at inType
      rcases inType with inside | rfl
      · exact inRun name (typed name given) c inside
      · decide
  · exact inRun reference.component named c inName
  · cases given : reference.environment with
    | none => simp [bracketed, given] at inPlace
    | some name =>
      simp [bracketed, given] at inPlace
      rcases inPlace with rfl | inside | rfl
      · decide
      · exact inRun name (placed name given) c inside
      · decide
  · decide
  · exact isInert_of_isKeyChar (keyed.2 c inKey)
  · decide

/-- The search for the balancing brace passes over characters that are inert. -/
theorem closeBalanced_append {inner : Nat} {front : List Char}
    (inert : ∀ c ∈ front, IsInert c) (rest : List Char) :
    closeBalanced inner false (front ++ rest) =
      (closeBalanced inner false rest).map fun (fallback, after) => (front ++ fallback, after) := by
  induction front with
  | nil => simp
  | cons c front ih =>
    obtain ⟨⟨dollar, hash, _, closing⟩, inert⟩ := List.forall_mem_cons.mp inert
    have unmarked : (c == '$' || c == '#') = false := by simp [dollar, hash]
    rw [List.cons_append, closeBalanced.eq_def inner false (c :: _)]
    simp [unmarked, closing, ih inert, Function.comp_def]

/-- A brace that balances a default is passed over where one more brace is open. -/
theorem closeBalanced_succ {inner : Nat} {marked : Bool} {text before after : List Char}
    (closed : closeBalanced inner marked text = some (before, after)) (more : Nat) :
    closeBalanced (inner + more + 1) marked text =
      (closeBalanced more false after).map fun (behind, rest) =>
        (before ++ '}' :: behind, rest) := by
  induction text generalizing inner marked before with
  | nil => cases closed
  | cons c rest ih =>
    rw [closeBalanced.eq_def _ _ (c :: rest)] at closed ⊢
    by_cases closing : c = '}'
    · subst closing
      cases inner with
      | zero =>
        cases closed
        simp
      | succ inner =>
        obtain ⟨⟨between, behind⟩, found, same⟩ := Option.map_eq_some_iff.mp closed
        cases same
        have found : closeBalanced inner false rest = some (between, after) := found
        have shifted : inner + 1 + more = inner + more + 1 := by omega
        simp [shifted, ih found, Function.comp_def]
    · have other : (c == '}') = false := by simpa using closing
      simp only [other, Bool.false_eq_true, ↓reduceIte] at closed ⊢
      split at closed
      · next nests =>
        obtain ⟨⟨between, behind⟩, found, same⟩ := Option.map_eq_some_iff.mp closed
        cases same
        have shifted : inner + more + 1 + 1 = inner + 1 + more + 1 := by omega
        simp [nests, shifted, ih found, Function.comp_def]
      · next plain =>
        obtain ⟨⟨between, behind⟩, found, same⟩ := Option.map_eq_some_iff.mp closed
        cases same
        simp [plain, ih found, Function.comp_def]

/-- **A placeholder with a balanced default is a balanced default itself.** -/
theorem IsReference.balances_characters (isReference : reference.IsReference)
    (balances : Balances fallback) :
    Balances (reference.withFallback fallback).characters := by
  have closed : closeBalanced 0 false (fallback ++ '}' :: ['}']) = some (fallback, ['}']) :=
    closeBalanced_eq_some_iff.mpr ⟨rfl, balances⟩
  have inside : closeBalanced 1 false (reference.opening ++ (fallback ++ '}' :: ['}'])) =
      some (reference.opening ++ (fallback ++ ['}']), []) := by
    rw [closeBalanced_append isReference.isInert, closeBalanced_succ closed 0]
    simp [closeBalanced]
  have whole : closeBalanced 0 false ((reference.withFallback fallback).characters ++ ['}']) =
      some ((reference.withFallback fallback).characters, []) := by
    have split : (reference.withFallback fallback).characters ++ ['}'] =
        '$' :: '{' :: (reference.opening ++ (fallback ++ '}' :: ['}'])) := by
      simp [characters_withFallback]
    have opened : ∀ rest, closeBalanced 0 false ('$' :: '{' :: rest) =
        ((closeBalanced 1 false rest).map fun (before, after) => ('{' :: before, after)).map
          fun (before, after) => ('$' :: before, after) := fun _ => rfl
    rw [split, opened, inside, characters_withFallback]
    rfl
  exact (closeBalanced_eq_some_iff.mp whole).2

/-- A default behind references: each of them has the text behind it for a default. -/
def nested (fallback : List Char) : List Written → List Char
  | [] => fallback
  | reference :: rest => (reference.withFallback (nested fallback rest)).characters

theorem balances_nested {references : List Written}
    (isReference : ∀ reference ∈ references, reference.IsReference)
    (balances : Balances fallback) : Balances (nested fallback references) := by
  induction references with
  | nil => exact balances
  | cons reference rest ih =>
    obtain ⟨here, behind⟩ := List.forall_mem_cons.mp isReference
    exact here.balances_characters (ih behind)

end Written

/-! ## Runs without their defaults -/

/-- Restating errors does not change a value. -/
theorem Outcome.mapError_eq_done_iff {ε δ α : Type} {restate : ε → δ} {outcome : Outcome ε α}
    {value : α} : outcome.mapError restate = .done value ↔ outcome = .done value := by
  cases outcome <;> simp [mapError]

namespace Traced

variable {event ε α β : Type} {events : event → event} {errors : ε → ε}

theorem outcome_retold (run : Traced event ε α) :
    (run.retold events errors id).outcome = run.outcome.mapError errors := by
  obtain ⟨log, outcome⟩ := run
  cases outcome <;> rfl

/-- Computations that are alike step by step are alike as a whole. -/
theorem retold_bind_congr {values : α → α} {ends : β → β}
    {first other : Traced event ε α} {next again : α → Traced event ε β}
    (here : first.retold events errors values = other.retold events errors values)
    (later : ∀ value value', first.outcome = .done value → other.outcome = .done value' →
      values value = values value' →
      (next value).retold events errors ends = (again value').retold events errors ends) :
    (bind first next).retold events errors ends = (bind other again).retold events errors ends := by
  obtain ⟨log, outcome⟩ := first
  obtain ⟨log', outcome'⟩ := other
  simp only [retold, Traced.mk.injEq] at here
  obtain ⟨logs, outcomes⟩ := here
  cases outcome <;> cases outcome' <;>
    simp only [reduceCtorEq, Outcome.done.injEq, Outcome.failed.injEq] at outcomes
  · next value value' =>
    have rest := later value value' rfl rfl outcomes
    simp only [retold, Traced.mk.injEq] at rest
    simp only [bind, retold, List.map_append, logs, rest.1, rest.2]
  · simp only [bind, retold, logs, outcomes]
  · simp only [bind, retold, logs]

theorem note_retold_congr {happened other : event} (same : events happened = events other) :
    (note happened : Traced event ε Unit).retold events errors id =
      (note other).retold events errors id := by
  simp only [note, retold, List.map_cons, List.map_nil, same]

end Traced

/-- The placeholder without its default. -/
def Placeholder.bare (placeholder : Placeholder) : Placeholder :=
  { placeholder with fallback := none }

theorem Placeholder.key_of_bare {one other : Placeholder} (same : one.bare = other.bare) :
    one.key = other.key := by
  have plain (placeholder : Placeholder) : placeholder.key = placeholder.bare.key := rfl
  rw [plain, plain other, same]

/-- The error without the defaults of placeholders, and with an empty value for the property that it
names. -/
def ResolutionError.bare : ResolutionError → ResolutionError
  | .unresolved placeholder property root =>
    .unresolved placeholder.bare (property.withValue "") root
  | .cyclic chain property root => .cyclic (chain.map .bare) (property.withValue "") root
  | .unsupportedConfigType name configured => .unsupportedConfigType name configured
  | .tooDeep limit property root => .tooDeep limit (property.withValue "") root
  | .lookup placeholder cause => .lookup placeholder.bare cause

namespace Resolution

/-- The frame with the references that are being expanded without their defaults. -/
def Frame.bare (frame : Frame) : Frame :=
  { frame with chain := frame.chain.map .bare }

theorem Frame.property_of_bare {one other : Frame} (same : one.bare = other.bare) :
    one.property = other.property := by
  have plain (frame : Frame) : frame.property = frame.bare.property := rfl
  rw [plain, plain other, same]

/-- The event with the references that are being expanded without their defaults. -/
def Event.bare : Event → Event
  | .met frame placeholder => .met frame.bare placeholder
  | .entered cause frame => .entered cause frame.bare
  | .located name environment => .located name environment
  | .asked configType query => .asked configType query

variable {rules : Rules} {world : World} {root : Placed} {frame one other : Frame}
  {placeholder again : Placeholder} {text : List Char} {steps : Nat}

/-- Frames that differ in defaults and in the value of their property at most. -/
structure Akin (one other : Frame) : Prop where
  property : one.property.withValue "" = other.property.withValue ""
  configType : one.configType = other.configType
  chain : one.chain.map Placeholder.bare = other.chain.map Placeholder.bare
  depth : one.depth = other.depth

namespace Akin

theorem of_bare (same : one.bare = other.bare) : Akin one other := by
  simp only [Frame.bare, Frame.mk.injEq] at same
  obtain ⟨property, configType, chain, depth⟩ := same
  exact ⟨by rw [property], configType, chain, depth⟩

variable (akin : Akin one other)
include akin

theorem component : one.property.component = other.property.component :=
  congrArg (·.component) akin.property

theorem environment : one.property.environment = other.property.environment :=
  congrArg (·.environment) akin.property

theorem derived (value : String) :
    Resolution.derived one.property value = Resolution.derived other.property value := by
  have same (property : Property) : Resolution.derived property value =
      Resolution.derived (property.withValue "") value := rfl
  rw [same, same other.property, akin.property]

variable (placeholders : placeholder.bare = again.bare)
include placeholders

theorem bare_named : (one.named placeholder).bare = (other.named again).bare := by
  have named (frame : Frame) (placeholder : Placeholder) :
      (frame.named placeholder).bare = frame.named placeholder.bare := by
    by_cases self : placeholder.isSelf = true
    · have selfBare : placeholder.bare.isSelf = true := self
      rw [Frame.named, Frame.named, if_pos self, if_pos selfBare]
      rfl
    · have otherBare : ¬ placeholder.bare.isSelf = true := self
      rw [Frame.named, Frame.named, if_neg self, if_neg otherBare]
  rw [named, named, placeholders, Frame.named, Frame.named, akin.component]

theorem otherConfigType? :
    one.otherConfigType? placeholder = other.otherConfigType? again := by
  have plain (frame : Frame) (placeholder : Placeholder) : frame.otherConfigType? placeholder =
      frame.otherConfigType? placeholder.bare := rfl
  rw [plain, plain other, placeholders, Frame.otherConfigType?, Frame.otherConfigType?,
    akin.configType]

/-- The same candidates are asked. -/
theorem candidates (protectedKeys : List String) (root : Placed) :
    Resolution.candidates protectedKeys root one placeholder =
      Resolution.candidates protectedKeys root other again := by
  have forgets (chain : List Placeholder) :
      chain.map Candidate.of = (chain.map Placeholder.bare).map Candidate.of := by
    rw [List.map_map]
    rfl
  have referred : Candidate.of (one.named placeholder) = Candidate.of (other.named again) := by
    have same (placeholder : Placeholder) :
        Candidate.of placeholder = Candidate.of placeholder.bare := rfl
    rw [same, same (other.named again), akin.bare_named placeholders]
  have overridable : one.overridable protectedKeys placeholder =
      other.overridable protectedKeys again := by
    have same (frame : Frame) (placeholder : Placeholder) :
        frame.overridable protectedKeys placeholder =
          frame.overridable protectedKeys placeholder.bare := rfl
    rw [same, same other, placeholders, Frame.overridable, Frame.overridable, akin.component,
      akin.environment]
  simp only [Resolution.candidates, referred, overridable, forgets one.chain, akin.chain,
    ← forgets other.chain]

/-- The same references are being expanded. -/
theorem expands : one.expands (one.named placeholder) = other.expands (other.named again) := by
  have forgets (frame : Frame) (reference : Placeholder) :
      frame.expands reference = frame.bare.expands reference.bare := by
    rw [Frame.expands, Frame.expands, Frame.bare, List.any_map]
    rfl
  rw [forgets, forgets other, akin.bare_named placeholders, Frame.expands, Frame.expands,
    Frame.bare, Frame.bare, akin.chain]

omit placeholders in
theorem bare_delegate (placeholder : Placeholder) (type : String) :
    (one.delegate placeholder type).bare = (other.delegate placeholder type).bare := by
  simp only [Frame.delegate, akin.derived, akin.depth]

omit placeholders in
theorem bare_defaulting (text : String) :
    (one.defaulting text).bare = (other.defaulting text).bare := by
  simp only [Frame.defaulting, Frame.bare, akin.derived, akin.configType, akin.chain, akin.depth]

theorem bare_expanding (property : Property) :
    (one.expanding (one.named placeholder) property).bare =
      (other.expanding (other.named again) property).bare := by
  simp only [Frame.expanding, Frame.bare, List.map_cons, akin.bare_named placeholders, akin.chain,
    akin.configType, akin.depth]

theorem bare_cyclic (root : Placed) :
    (ResolutionError.cyclic (one.named placeholder :: one.chain).reverse one.property root).bare =
      (ResolutionError.cyclic (other.named again :: other.chain).reverse
        other.property root).bare := by
  simp only [ResolutionError.bare, List.map_reverse, List.map_cons, akin.bare_named placeholders,
    akin.chain, akin.property]

end Akin

/-! ### One step -/

/-- What becomes of a placeholder of the config type of a text, once it is answered or not. -/
def settle (rules : Rules) (root : Placed) (frame : Frame) (placeholder : Placeholder) :
    Option Property → Traced Event ResolutionError (Cause × Frame)
  | some property =>
    if rules.refusesCycles && frame.expands (frame.named placeholder) then
      .fail (.cyclic (frame.named placeholder :: frame.chain).reverse frame.property root)
    else .pure (.found, frame.expanding (frame.named placeholder) property)
  | none =>
    match placeholder.fallback with
    | some fallback => .pure (.fallback, frame.defaulting fallback)
    | none => .fail (.unresolved (frame.named placeholder) frame.property root)

theorem next_of_own {answerer : Answerer} (own : frame.otherConfigType? placeholder = none)
    (configured : world.answerers.get? frame.configType = some answerer) :
    next rules world root frame placeholder =
      ((askInTurn world frame.configType answerer placeholder.key
        (candidates world.protectedKeys root frame placeholder)).restate id
          (.lookup (frame.named placeholder))).bind (settle rules root frame placeholder) := by
  simp only [next, own, configured]
  refine Traced.bind_congr fun answer _ => ?_
  cases answer <;> rfl

/-- Defaults do not show in what becomes of an answer. -/
theorem settle_akin (akin : Akin one other) (placeholders : placeholder.bare = again.bare)
    {answer : Option Property} (same : placeholder = again ∨ answer ≠ none) :
    (settle rules root one placeholder answer).retold Event.bare ResolutionError.bare
        (fun result => (result.1, result.2.bare)) =
      (settle rules root other again answer).retold Event.bare ResolutionError.bare
        (fun result => (result.1, result.2.bare)) := by
  cases answer with
  | some property =>
    simp only [settle, akin.expands placeholders]
    split
    · simp only [Traced.retold, Traced.fail, akin.bare_cyclic placeholders]
    · simp only [Traced.retold, Traced.pure, akin.bare_expanding placeholders]
  | none =>
    obtain rfl : placeholder = again := by
      rcases same with same | answered
      · exact same
      · exact absurd rfl answered
    cases given : placeholder.fallback with
    | some text => simp only [settle, given, Traced.retold, Traced.pure, akin.bare_defaulting]
    | none =>
      simp only [settle, given, Traced.retold, Traced.fail, ResolutionError.bare, akin.property,
        akin.bare_named placeholders]

/-- **Defaults do not show in a step**, unless it hands the placeholder over or nobody answers. -/
theorem next_akin (akin : Akin one other) (placeholders : placeholder.bare = again.bare)
    (same : placeholder = again ∨
      (one.otherConfigType? placeholder = none ∧ ¬ Answered world root one placeholder none)) :
    (next rules world root one placeholder).retold Event.bare ResolutionError.bare
        (fun result => (result.1, result.2.bare)) =
      (next rules world root other again).retold Event.bare ResolutionError.bare
        (fun result => (result.1, result.2.bare)) := by
  have sameType := akin.otherConfigType? placeholders
  cases own : one.otherConfigType? placeholder with
  | some type =>
    obtain rfl : placeholder = again := by
      rcases same with same | ⟨none, _⟩
      · exact same
      · rw [own] at none
        cases none
    rw [next_of_other own, next_of_other (sameType ▸ own)]
    split
    · simp only [Traced.retold, Traced.pure, akin.bare_delegate]
    · rfl
  | none =>
    rw [own] at sameType
    cases configured : world.answerers.get? one.configType with
    | none => simp only [next, own, ← sameType, ← akin.configType, configured]
    | some answerer =>
      rw [next_of_own own configured,
        next_of_own sameType.symm (akin.configType ▸ configured), ← akin.configType,
        ← akin.candidates placeholders, ← Placeholder.key_of_bare placeholders]
      -- Both put the same questions, and what fails is the lookup of the same reference.
      cases asked : askInTurn world one.configType answerer placeholder.key
        (candidates world.protectedKeys root one placeholder) with
      | mk log outcome =>
        cases outcome with
        | done answer =>
          have settled : placeholder = again ∨ answer ≠ none := by
            refine same.imp_right fun unanswered none => unanswered.2 ?_
            exact ⟨answerer, configured, by rw [asked, none]⟩
          have answers (reference : Placeholder) :
              (Traced.mk log (.done answer)).restate id (ResolutionError.lookup reference) =
                ⟨log, .done answer⟩ := rfl
          rw [answers, answers]
          refine Traced.retold_bind_congr (Eq.refl (Traced.retold Event.bare _ id _)) ?_
          rintro _ _ ⟨⟩ ⟨⟩ _
          exact settle_akin akin placeholders settled
        | failed cause =>
          simp only [Traced.restate, Outcome.mapError, Traced.bind, Traced.retold,
            ResolutionError.bare, akin.bare_named placeholders]
        | unfinished => rfl

theorem checkDepth_bare (rules : Rules) (root : Placed) (same : one.bare = other.bare) :
    (checkDepth rules root one).retold Event.bare ResolutionError.bare id =
      (checkDepth rules root other).retold Event.bare ResolutionError.bare id := by
  simp only [Frame.bare, Frame.mk.injEq] at same
  obtain ⟨property, _, _, depth⟩ := same
  rw [checkDepth, checkDepth, property, depth]

/-! ### A run -/

/-- Enters the text that stands for a placeholder that has been taken up. -/
def entering (rules : Rules) (world : World) (root : Placed) (frame : Frame)
    (placeholder : Placeholder) : Traced Event ResolutionError Frame := do
  let (cause, inner) ← next rules world root frame placeholder
  .note (.entered cause inner)
  checkDepth rules root inner
  return inner

theorem enter_eq (rules : Rules) (world : World) (root : Placed) (frame : Frame)
    (written : Written) :
    enter rules world root frame written =
      (Traced.note (.met frame (.ofWritten written frame.property.environment))).bind fun _ =>
        entering rules world root frame (.ofWritten written frame.property.environment) := rfl

theorem entering_akin (akin : Akin one other) (placeholders : placeholder.bare = again.bare)
    (same : placeholder = again ∨
      (one.otherConfigType? placeholder = none ∧ ¬ Answered world root one placeholder none)) :
    (entering rules world root one placeholder).retold Event.bare ResolutionError.bare
        Frame.bare =
      (entering rules world root other again).retold Event.bare ResolutionError.bare
        Frame.bare := by
  refine Traced.retold_bind_congr (next_akin akin placeholders same) ?_
  rintro ⟨cause, inner⟩ ⟨cause', inner'⟩ _ _ inners
  obtain ⟨rfl, inners⟩ := Prod.mk.inj inners
  have entered : (Event.entered cause inner).bare = (Event.entered cause inner').bare := by
    rw [Event.bare, Event.bare, inners]
  refine Traced.retold_bind_congr (Traced.note_retold_congr entered) fun _ _ _ _ _ => ?_
  refine Traced.retold_bind_congr (checkDepth_bare rules root inners) fun _ _ _ _ _ => ?_
  simp only [Pure.pure, Traced.pure, Traced.retold, inners]

/-- **A text that is just one placeholder is resolved as the text that stands for it.** -/
theorem fill_of_alone {written : Written}
    (alone : Occurrence.find? text = some ⟨[], written, []⟩) :
    fill rules world root (steps + 1) frame text =
      (Traced.note (.met frame (.ofWritten written frame.property.environment))).bind fun _ =>
        (entering rules world root frame (.ofWritten written frame.property.environment)).bind
          fun inner => fill rules world root steps inner inner.property.value.toList := by
  rw [fill_of_find?_eq_some alone, enter_eq, Traced.bind_assoc]
  refine Traced.bind_congr fun _ _ => Traced.bind_congr fun inner _ => ?_
  conv_rhs => rw [← Traced.bind_pure (fill _ _ _ _ _ _)]
  refine Traced.bind_congr fun value done => ?_
  -- The value took a step, and the same step is enough to see that it holds no placeholder.
  cases steps with
  | zero => cases done
  | succ steps =>
    rw [List.nil_append, List.append_nil, fill_of_find?_eq_none (find?_of_done done)]

/-- **Defaults of open references do not show in a run.** -/
theorem fill_bare (rules : Rules) (world : World) (root : Placed) (same : one.bare = other.bare)
    (steps : Nat) (text : List Char) :
    (fill rules world root steps one text).retold Event.bare ResolutionError.bare id =
      (fill rules world root steps other text).retold Event.bare ResolutionError.bare id := by
  induction steps generalizing one other text with
  | zero => rfl
  | succ steps ih =>
    cases first : Occurrence.find? text with
    | none => rw [fill_of_find?_eq_none first, fill_of_find?_eq_none first]
    | some found =>
      have akin := Akin.of_bare same
      rw [fill_of_find?_eq_some first, fill_of_find?_eq_some first, enter_eq, enter_eq,
        Traced.bind_assoc, Traced.bind_assoc, akin.environment]
      have met (placeholder : Placeholder) :
          (Event.met one placeholder).bare = (Event.met other placeholder).bare := by
        rw [Event.bare, Event.bare, same]
      refine Traced.retold_bind_congr (Traced.note_retold_congr (met _)) fun _ _ _ _ _ => ?_
      refine Traced.retold_bind_congr (entering_akin akin rfl (.inl rfl)) ?_
      intro inner inner' _ _ inners
      rw [Frame.property_of_bare inners]
      refine Traced.retold_bind_congr (ih inners inner'.property.value.toList) ?_
      rintro value _ _ _ rfl
      exact ih same (found.before ++ (value ++ found.after))

theorem fill_value_bare (rules : Rules) (world : World) (root : Placed)
    (same : one.bare = other.bare) (steps : Nat) :
    (fill rules world root steps one one.property.value.toList).retold Event.bare
        ResolutionError.bare id =
      (fill rules world root steps other other.property.value.toList).retold Event.bare
        ResolutionError.bare id := by
  rw [Frame.property_of_bare same]
  exact fill_bare rules world root same steps other.property.value.toList

/-! ## Defaults that are not needed -/

/-- A reference of the config type of a text, which may be given a default. -/
structure Frame.Refers (frame : Frame) (reference : Written) : Prop where
  isReference : reference.IsReference
  own : frame.otherConfigType? (.ofWritten reference frame.property.environment) = none

/-- The frame of the same property, nested some more texts deep. -/
def Frame.deeper (frame : Frame) (levels : Nat) : Frame :=
  { frame with depth := frame.depth + levels }

theorem Frame.Refers.deeper {reference : Written} (refers : frame.Refers reference)
    (levels : Nat) : (frame.deeper levels).Refers reference :=
  ⟨refers.isReference, refers.own⟩

/-- Nobody answers a placeholder of a text, and asking for it does not fail. -/
def Declined (world : World) (root : Placed) (frame : Frame) (placeholder : Placeholder) : Prop :=
  ∃ answerer, world.answerers.get? frame.configType = some answerer ∧
    AllDecline world answerer placeholder.key
      (candidates world.protectedKeys root frame placeholder)

theorem declined_iff :
    Declined world root frame placeholder ↔ Answered world root frame placeholder none := by
  simp only [Declined, Answered, outcome_askInTurn_eq_none_iff]

theorem Akin.declined_iff (akin : Akin one other) (placeholders : placeholder.bare = again.bare) :
    Declined world root one placeholder ↔ Declined world root other again := by
  rw [Declined, Declined, akin.configType, akin.candidates placeholders,
    Placeholder.key_of_bare placeholders]

section Fallback

variable {reference : Written} {fallback : List Char}

/-- The value of a property that is a reference with a default. -/
def Frame.referring (frame : Frame) (reference : Written) (fallback : List Char) : Frame :=
  frame.holding (reference.withFallback fallback).characters

theorem value_referring (frame : Frame) (reference : Written) (fallback : List Char) :
    (frame.referring reference fallback).property.value.toList =
      (reference.withFallback fallback).characters :=
  Frame.value_holding frame _

/-- The placeholder of such a property. -/
theorem find?_referring (refers : frame.Refers reference) (balances : Written.Balances fallback) :
    Occurrence.find? (reference.withFallback fallback).characters =
      some ⟨[], reference.withFallback fallback, []⟩ :=
  Occurrence.find?_characters_iff.mpr (refers.isReference.selfContained balances).wellFormed

theorem declined_referring (reference : Written) (fallback : List Char) :
    Declined world root (frame.referring reference fallback)
        (.ofWritten (reference.withFallback fallback) frame.property.environment) ↔
      Declined world root frame (.ofWritten reference frame.property.environment) :=
  Akin.declined_iff ⟨rfl, rfl, rfl, rfl⟩ rfl

/-- Runs that may differ in the placeholder that is taken up first, but then in nothing else than
the defaults of open references and, if they fail, in the defaults and the value that the error
names. -/
structure SameCourse (one other : Traced Event ResolutionError (List Char)) : Prop where
  events : one.log.tail.map Event.bare = other.log.tail.map Event.bare
  outcome : one.outcome.mapError ResolutionError.bare = other.outcome.mapError ResolutionError.bare

/-- **A default that is not needed does not matter.** -/
theorem sameCourse_fill_referring (refers : frame.Refers reference)
    (needless : ¬ Declined world root frame (.ofWritten reference frame.property.environment))
    {first second : List Char} (balances : Written.Balances first)
    (balances' : Written.Balances second) (steps : Nat) :
    SameCourse
      (fill rules world root steps (frame.referring reference first)
        (reference.withFallback first).characters)
      (fill rules world root steps (frame.referring reference second)
        (reference.withFallback second).characters) := by
  cases steps with
  | zero => exact ⟨rfl, rfl⟩
  | succ steps =>
    have akin : Akin (frame.referring reference first) (frame.referring reference second) :=
      ⟨rfl, rfl, rfl, rfl⟩
    have unanswered : ¬ Answered world root (frame.referring reference first)
        (.ofWritten (reference.withFallback first) frame.property.environment) none := by
      rw [← declined_iff, declined_referring]
      exact needless
    have entered :
        (entering rules world root (frame.referring reference first)
          (.ofWritten (reference.withFallback first) frame.property.environment)).retold
            Event.bare ResolutionError.bare Frame.bare =
        (entering rules world root (frame.referring reference second)
          (.ofWritten (reference.withFallback second) frame.property.environment)).retold
            Event.bare ResolutionError.bare Frame.bare :=
      entering_akin akin rfl (.inr ⟨refers.own, unanswered⟩)
    -- The placeholders that are taken up differ, and nothing does behind them.
    have behind := Traced.retold_bind_congr entered fun inner inner' _ _ inners =>
      fill_value_bare rules world root inners steps
    rw [fill_of_alone (find?_referring refers balances),
      fill_of_alone (find?_referring refers balances')]
    constructor
    · exact congrArg Traced.log behind
    · have outcomes := congrArg Traced.outcome behind
      rw [Traced.outcome_retold, Traced.outcome_retold] at outcomes
      exact outcomes

/-! ## Defaults in place of a placeholder -/

/-- In frames that differ in what is transient, values are resolved in the same way. -/
theorem outcome_expand_of_hidden (rules : Rules) (world : World) (root : Placed)
    (same : one.hidden = other.hidden) (steps : Nat) :
    (expand rules world root steps one).outcome.mapError ResolutionError.hidden =
      (expand rules world root steps other).outcome.mapError ResolutionError.hidden := by
  have hides (frame : Frame) : expand rules world.hidden root steps frame.hidden =
      (expand rules world root steps frame).retold Event.hidden ResolutionError.hidden id := by
    refine Traced.bind_eq_retold (checkDepth_hidden rules root frame) fun _ => ?_
    exact fill_hidden rules world root steps frame frame.property.value.toList
  rw [← Traced.outcome_retold, ← hides, same, hides, Traced.outcome_retold]

/-- A placeholder that all decline is resolved as its default. -/
theorem outcome_expand_of_declined (within : Within rules frame) (refers : frame.Refers reference)
    (declined : Declined world root frame (.ofWritten reference frame.property.environment))
    (balances : Written.Balances fallback) (steps : Nat) :
    (expand rules world root (steps + 1) (frame.referring reference fallback)).outcome =
      (expand rules world root steps ((frame.referring reference fallback).defaulting
        (String.ofList fallback))).outcome := by
  have unanswered := declined_iff.mp ((declined_referring reference fallback).mpr declined)
  have own : (frame.referring reference fallback).otherConfigType?
      (.ofWritten (reference.withFallback fallback) frame.property.environment) = none :=
    refers.own
  have shallow : Within rules (frame.referring reference fallback) := within
  rw [expand_of_within shallow, value_referring,
    outcome_fill_of_alone (find?_referring refers balances), refer]
  exact Traced.outcome_bind_of_done (outcome_next_of_declined own unanswered)

theorem outcome_expand_deeper (within : Within rules frame) (refers : frame.Refers reference)
    (declined : Declined world root frame (.ofWritten reference frame.property.environment))
    (balances : Written.Balances fallback) (steps : Nat) :
    (expand rules world root (steps + 1)
        (frame.referring reference fallback)).outcome.mapError ResolutionError.hidden =
      (expand rules world root steps
        ((frame.deeper 1).holding fallback)).outcome.mapError ResolutionError.hidden := by
  have same : ((frame.referring reference fallback).defaulting (String.ofList fallback)).hidden =
      ((frame.deeper 1).holding fallback).hidden := rfl
  rw [outcome_expand_of_declined within refers declined balances]
  exact outcome_expand_of_hidden rules world root same steps

/-- **What all decline gives way to its default, and so does the default.** -/
theorem outcome_expand_nested {references : List Written}
    (shallow : frame.depth + references.length ≤ 65)
    (refers : ∀ reference ∈ references, frame.Refers reference)
    (declined : ∀ reference ∈ references,
      Declined world root frame (.ofWritten reference frame.property.environment))
    (balances : Written.Balances fallback) (steps : Nat) :
    (expand .standard world root (steps + references.length)
        (frame.holding (Written.nested fallback references))).outcome.mapError
          ResolutionError.hidden =
      (expand .standard world root steps
        ((frame.deeper references.length).holding fallback)).outcome.mapError
          ResolutionError.hidden := by
  induction references generalizing frame with
  | nil => rfl
  | cons reference rest ih =>
    obtain ⟨refersHere, refersBehind⟩ := List.forall_mem_cons.mp refers
    obtain ⟨declinedHere, declinedBehind⟩ := List.forall_mem_cons.mp declined
    rw [List.length_cons] at shallow
    have within : Within .standard frame := within_standard_iff.mpr (by omega)
    have inner : Written.Balances (Written.nested fallback rest) :=
      Written.balances_nested (fun reference member => (refersBehind reference member).isReference)
        balances
    have deeper : (frame.deeper 1).depth + rest.length ≤ 65 := by
      simp only [Frame.deeper]
      omega
    have levels : (frame.deeper 1).deeper rest.length = frame.deeper (rest.length + 1) := by
      simp only [Frame.deeper, Nat.add_assoc, Nat.add_comm 1]
    rw [List.length_cons, ← levels]
    exact (outcome_expand_deeper within refersHere declinedHere inner (steps + rest.length)).trans
      (ih deeper (fun reference member => (refersBehind reference member).deeper 1) declinedBehind)

end Fallback

/-- **A default counts when nobody answers, and only then.** Consider a text that is one reference
with a balanced default, in a place that is not nested too deep.

* When somebody answers the reference, or asking for it fails, the default does not matter: with any
  other balanced one the run goes the same way and has the same value, or fails as well. So nothing
  inside the default is taken up.
* When all decline, the text is resolved as the default would be as the value of the same property,
  one text deeper and among the same open references; only what is transient about the property that
  an error names may differ. This goes on through defaults that are such texts themselves. -/
theorem expand_withFallback (world : World) (root : Placed) {frame : Frame}
    (shallow : frame.depth ≤ 64) :
    (∀ {reference : Written}, frame.Refers reference →
      ¬ Declined world root frame (.ofWritten reference frame.property.environment) →
      ∀ {first second : List Char}, Written.Balances first → Written.Balances second →
      ∀ steps, SameCourse
        (expand .standard world root steps (frame.referring reference first))
        (expand .standard world root steps (frame.referring reference second))) ∧
    ∀ {references : List Written}, frame.depth + references.length ≤ 65 →
      (∀ reference ∈ references, frame.Refers reference) →
      (∀ reference ∈ references,
        Declined world root frame (.ofWritten reference frame.property.environment)) →
      ∀ {fallback : List Char}, Written.Balances fallback →
      ∀ steps,
        (expand .standard world root (steps + references.length)
            (frame.holding (Written.nested fallback references))).outcome.mapError
              ResolutionError.hidden =
          (expand .standard world root steps
            ((frame.deeper references.length).holding fallback)).outcome.mapError
              ResolutionError.hidden := by
  constructor
  · intro reference refers needless first second balances balances' steps
    have within (fallback : List Char) : Within .standard (frame.referring reference fallback) :=
      within_standard_iff.mpr shallow
    rw [expand_of_within (within first), expand_of_within (within second), value_referring,
      value_referring]
    exact sameCourse_fill_referring refers needless balances balances' steps
  · intro references nested refers declined fallback balances steps
    exact outcome_expand_nested nested refers declined balances steps

/-! ### The host and the port of a component -/

/-- A reference to a key of `web`. -/
def webReference (key : String) : Written :=
  ⟨none, "web".toList, none, key.toList, none⟩

theorem refers_webReference {key : String}
    (read : Written.atStart? (webReference key).characters = some (webReference key, [])) :
    addressFrame.Refers (webReference key) :=
  ⟨⟨Written.atStart?_eq_some_iff.mp read, rfl⟩, rfl⟩

/-- The host is found whatever its default says, and the port is the default of its default. -/
theorem expand_webReference :
    (∀ steps, SameCourse
      (expand .standard hostWorld hostRoot steps
        (addressFrame.holding "$\x7bweb@host:$\x7bthis@host\x7d\x7d".toList))
      (expand .standard hostWorld hostRoot steps
        (addressFrame.holding "$\x7bweb@host:\x7d".toList))) ∧
    (expand .standard hostWorld hostRoot 3
        (addressFrame.holding "$\x7bweb@port:$\x7bweb@base:80\x7d\x7d".toList)).outcome =
      .done "80".toList := by
  have shallow : addressFrame.depth ≤ 64 := Nat.zero_le 64
  have balanced {fallback : List Char} (closed : Written.closeBalanced 0 false (fallback ++ ['}']) =
      some (fallback, [])) : Written.Balances fallback :=
    (Written.closeBalanced_eq_some_iff.mp closed).2
  have host : addressFrame.Refers (webReference "host") := refers_webReference (by cbv)
  have answered : Answered hostWorld hostRoot addressFrame
      (.ofWritten (webReference "host") addressFrame.property.environment)
      (some ⟨"host", "web.local", "dev", false, .special (.ofType "web") "declared"⟩) :=
    ⟨_, rfl, by cbv⟩
  have needless : ¬ Declined hostWorld hostRoot addressFrame
      (.ofWritten (webReference "host") addressFrame.property.environment) := by
    intro declined
    cases answered.unique (declined_iff.mp declined)
  have refers : ∀ reference ∈ [webReference "port", webReference "base"],
      addressFrame.Refers reference :=
    List.forall_mem_cons.mpr ⟨refers_webReference (by cbv),
      List.forall_mem_singleton.mpr (refers_webReference (by cbv))⟩
  have declined : ∀ reference ∈ [webReference "port", webReference "base"],
      Declined hostWorld hostRoot addressFrame
        (.ofWritten reference addressFrame.property.environment) :=
    List.forall_mem_cons.mpr ⟨declined_iff.mpr ⟨_, rfl, by cbv⟩,
      List.forall_mem_singleton.mpr (declined_iff.mpr ⟨_, rfl, by cbv⟩)⟩
  have laws := expand_withFallback hostWorld hostRoot shallow
  have this : Written.Balances "$\x7bthis@host\x7d".toList := balanced (by cbv)
  have empty : Written.Balances "".toList := balanced (by cbv)
  have eighty : Written.Balances "80".toList := balanced (by cbv)
  have lazy := laws.1 host needless this empty
  have ends := laws.2 (by decide) refers declined eighty 1
  have plain : (expand .standard hostWorld hostRoot 1
      ((addressFrame.deeper 2).holding "80".toList)).outcome = .done "80".toList := by
    cbv
  refine ⟨lazy, ?_⟩
  rw [List.length_cons, List.length_singleton, plain] at ends
  exact Outcome.mapError_eq_done_iff.mp ends

end Resolution

end DeployConfig
