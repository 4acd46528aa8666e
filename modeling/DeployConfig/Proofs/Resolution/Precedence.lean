import DeployConfig.Proofs.Resolution.Chains

/-!
# Who answers a placeholder

A placeholder of a text names a component, but a component may leave it to others to say what it is.
A reference of a component to itself, or to its own type in its own environment, is answered by the
component that the resolution is made for, or else by a reference that is being expanded, the latest
one first, and only when all of these decline by the component that is named. This order is written
down as `precedence`, in terms of the path to the text.

`resolve_precedence` says that it is followed wherever a resolution is. The first candidate that
does not decline settles the placeholder (`Settles`): its answer is expanded, and its failure is the
failure of the whole resolution. The default counts when all candidates decline, and only then.
-/

set_option autoImplicit false

namespace DeployConfig.Resolution

variable {rules : Rules} {world : World} {root : Placed} {top frame last inner : Frame}
  {start : List Char} {placeholder : Placeholder} {calls : List Call}
  {configType key : String} {answerer : Answerer} {inTurn : List Candidate}

/-! ## What a candidate answers -/

/-- The question that a candidate is asked about a key. -/
def Candidate.query (world : World) (key : String) : Candidate → Except LookupError Query
  | .placed known => .ok ⟨known.component, key, known.environment⟩
  | .referred name environment =>
    match world.locate name environment with
    | .ok component => .ok ⟨component, key, environment⟩
    | .error error => .error (.environment error)

/-- What a candidate answers about a key; `none` when it declines. -/
def Candidate.answer (world : World) (answerer : Answerer) (key : String)
    (candidate : Candidate) : Except LookupError (Option Property) :=
  (candidate.query world key).bind answerer

/-- Asking gives the answer. -/
theorem Candidate.outcome_ask (candidate : Candidate) :
    (candidate.ask world configType answerer key).outcome =
      .ofExcept (candidate.answer world answerer key) := by
  cases candidate with
  | placed known => rfl
  | referred name environment =>
    simp only [Candidate.ask, Candidate.toPlaced, Candidate.answer, Candidate.query, Bind.bind]
    cases world.locate name environment <;> rfl

/-- A question that is put is the question of the candidate. -/
theorem Candidate.query_of_mem_log {candidate : Candidate} {type : String} {query : Query}
    (asked : .asked type query ∈ (candidate.ask world configType answerer key).log) :
    candidate.query world key = .ok query := by
  obtain ⟨_, _, nothing⟩ | ⟨placed, located, same⟩ := candidate.mem_log_ask asked
  · cases nothing
  · cases same
    cases candidate with
    | placed known =>
      cases located
      rfl
    | referred name environment =>
      simp only [Candidate.toPlaced, Bind.bind] at located
      rw [Candidate.query]
      cases found : world.locate name environment with
      | error error =>
        rw [found] at located
        cases located
      | ok component =>
        rw [found] at located
        cases located
        rfl

/-! ## Who settles a question -/

/-- The first candidate that does not decline has this result. -/
def Settles (world : World) (answerer : Answerer) (key : String) (inTurn : List Candidate)
    (result : Except LookupError Property) : Prop :=
  ∃ earlier candidate later, inTurn = earlier ++ candidate :: later ∧
    (∀ other ∈ earlier, other.answer world answerer key = .ok none) ∧
    candidate.answer world answerer key = result.map some

/-- All candidates decline. -/
def AllDecline (world : World) (answerer : Answerer) (key : String)
    (inTurn : List Candidate) : Prop :=
  ∀ candidate ∈ inTurn, candidate.answer world answerer key = .ok none

/-- A candidate that declines leaves it to the others. -/
theorem settles_cons_of_declines {candidate : Candidate} {result : Except LookupError Property}
    (declines : candidate.answer world answerer key = .ok none) :
    Settles world answerer key (candidate :: inTurn) result ↔
      Settles world answerer key inTurn result := by
  constructor
  · rintro ⟨earlier, decides, later, split, declined, answer⟩
    cases earlier with
    | nil =>
      obtain ⟨rfl, rfl⟩ := List.cons.inj split
      rw [declines] at answer
      cases result <;> cases answer
    | cons first earlier =>
      obtain ⟨rfl, rfl⟩ := List.cons.inj split
      exact ⟨earlier, decides, later, rfl,
        fun other member => declined other (List.mem_cons_of_mem _ member), answer⟩
  · rintro ⟨earlier, decides, later, rfl, declined, answer⟩
    exact ⟨candidate :: earlier, decides, later, rfl,
      List.forall_mem_cons.mpr ⟨declines, declined⟩, answer⟩

/-- A candidate that does not decline settles the question. -/
theorem settles_cons_of_answers {candidate : Candidate} {result : Except LookupError Property}
    (answer : Except LookupError Property)
    (answers : candidate.answer world answerer key = answer.map some) :
    Settles world answerer key (candidate :: inTurn) result ↔ answer = result := by
  constructor
  · rintro ⟨earlier, decides, later, split, declined, decided⟩
    cases earlier with
    | nil =>
      obtain ⟨rfl, rfl⟩ := List.cons.inj split
      rw [answers] at decided
      cases answer <;> cases result <;> cases decided <;> rfl
    | cons first earlier =>
      obtain ⟨rfl, rfl⟩ := List.cons.inj split
      have declines := declined candidate List.mem_cons_self
      rw [answers] at declines
      cases answer <;> cases declines
  · rintro rfl
    exact ⟨[], candidate, inTurn, rfl, nofun, answers⟩

/-- A question is settled by the first candidates, or by the others when those decline. -/
theorem settles_append {front back : List Candidate} {result : Except LookupError Property} :
    Settles world answerer key (front ++ back) result ↔
      Settles world answerer key front result ∨
        (AllDecline world answerer key front ∧ Settles world answerer key back result) := by
  induction front with
  | nil =>
    refine ⟨fun settled => .inr ⟨nofun, settled⟩, ?_⟩
    rintro (⟨earlier, _, _, split, _⟩ | ⟨_, settled⟩)
    · cases earlier <;> cases split
    · exact settled
  | cons candidate front ih =>
    rw [List.cons_append, AllDecline, List.forall_mem_cons]
    cases answered : candidate.answer world answerer key with
    | error cause => simp [settles_cons_of_answers (.error cause) answered]
    | ok answer =>
      cases answer with
      | none => simp [settles_cons_of_declines answered, ih, AllDecline]
      | some property => simp [settles_cons_of_answers (.ok property) answered]

/-- The candidates behind one that declines are asked, and no others. -/
theorem outcome_askInTurn_cons (configType : String) (candidate : Candidate) :
    (askInTurn world configType answerer key (candidate :: inTurn)).outcome =
      match candidate.answer world answerer key with
      | .ok none => (askInTurn world configType answerer key inTurn).outcome
      | .ok (some property) => .done (some property)
      | .error cause => .failed cause := by
  have asked : (candidate.ask world configType answerer key).outcome = _ := candidate.outcome_ask
  simp only [askInTurn, Bind.bind, Traced.bind, asked]
  obtain cause | _ | property := candidate.answer world answerer key <;> rfl

/-- **The candidates answer as the first one that does not decline.** -/
theorem outcome_askInTurn_eq_iff (configType : String) {result : Except LookupError Property} :
    (askInTurn world configType answerer key inTurn).outcome = .ofExcept (result.map some) ↔
      Settles world answerer key inTurn result := by
  induction inTurn with
  | nil =>
    refine iff_of_false (by cases result <;> exact nofun) ?_
    rintro ⟨earlier, _, _, split, _⟩
    cases earlier <;> cases split
  | cons candidate rest ih =>
    rw [outcome_askInTurn_cons]
    cases answered : candidate.answer world answerer key with
    | error cause =>
      rw [settles_cons_of_answers (.error cause) answered]
      cases result <;> simp [Except.map, Outcome.ofExcept]
    | ok answer =>
      cases answer with
      | none => rw [settles_cons_of_declines answered, ih]
      | some property =>
        rw [settles_cons_of_answers (.ok property) answered]
        cases result <;> simp [Except.map, Outcome.ofExcept]

/-- Nobody answers when all candidates decline. -/
theorem outcome_askInTurn_eq_none_iff (configType : String) :
    (askInTurn world configType answerer key inTurn).outcome = .done none ↔
      AllDecline world answerer key inTurn := by
  induction inTurn with
  | nil => exact iff_of_true rfl nofun
  | cons candidate rest ih =>
    rw [outcome_askInTurn_cons, AllDecline, List.forall_mem_cons]
    cases answered : candidate.answer world answerer key with
    | error cause => simp
    | ok answer =>
      cases answer with
      | none => simp [ih, AllDecline]
      | some property => simp

/-! ## The order of the candidates -/

/-- A placeholder of a property may be answered by others than the component that it names: it names
the component that declared the property, or the type of this component in the environment of the
property with a key that is not protected. -/
def Overridable (world : World) (property : Property) (placeholder : Placeholder) : Prop :=
  placeholder.component = selfName ∨
    (placeholder.component = property.component.type ∧
      placeholder.environment = property.environment ∧ placeholder.key ∉ world.protectedKeys)

instance (world : World) (property : Property) (placeholder : Placeholder) :
    Decidable (Overridable world property placeholder) :=
  inferInstanceAs (Decidable (_ ∨ _))

theorem overridable_eq_true_iff :
    frame.overridable world.protectedKeys placeholder = true ↔
      Overridable world frame.property placeholder := by
  simp [Frame.overridable, Overridable, Placeholder.isSelf, and_assoc]

/-- Those who come before the component that a placeholder names: the root in its environment, and
the open references in theirs. -/
def overriders (root : Placed) (calls : List Call) : List Candidate :=
  .placed root :: (openReferences calls).map .of

/-- Who answers a placeholder at the end of a path, in order. -/
def precedence (world : World) (root : Placed) (calls : List Call) (frame : Frame)
    (placeholder : Placeholder) : List Candidate :=
  if Overridable world frame.property placeholder then
    overriders root calls ++ [.of (frame.named placeholder)]
  else [.of (frame.named placeholder)]

/-- **The order is kept on every path.** -/
theorem Meets.candidates_eq (meets : Meets rules world root top start calls last placeholder)
    (fresh : top.chain = []) :
    candidates world.protectedKeys root last placeholder =
      precedence world root calls last placeholder := by
  obtain ⟨path, _, _⟩ := meets
  simp only [candidates, precedence, overriders, overridable_eq_true_iff, path.chain_eq fresh]

/-- An answer on a path is what the candidates settle. -/
theorem Meets.answered_iff (meets : Meets rules world root top start calls last placeholder)
    (fresh : top.chain = []) (configured : world.answerers.get? last.configType = some answerer)
    {property : Property} :
    Answered world root last placeholder (some property) ↔
      Settles world answerer placeholder.key (precedence world root calls last placeholder)
        (.ok property) := by
  rw [← outcome_askInTurn_eq_iff last.configType, ← meets.candidates_eq fresh]
  simp only [Answered, configured, Option.some.injEq, exists_eq_left']
  rfl

theorem Meets.declined_iff (meets : Meets rules world root top start calls last placeholder)
    (fresh : top.chain = [])
    (configured : world.answerers.get? last.configType = some answerer) :
    Answered world root last placeholder none ↔
      AllDecline world answerer placeholder.key
        (precedence world root calls last placeholder) := by
  rw [← outcome_askInTurn_eq_none_iff last.configType, ← meets.candidates_eq fresh]
  simp only [Answered, configured, Option.some.injEq, exists_eq_left']

/-! ## What becomes of a placeholder -/

section Standard

variable {property : Property} (meets : Meets .standard world root (.top property configType)
  property.value.toList calls last placeholder)
include meets

/-- An answer is expanded, if the reference is not open. -/
theorem Meets.standsFor_of_settles {winner : Property}
    (own : last.otherConfigType? placeholder = none)
    (configured : world.answerers.get? last.configType = some answerer)
    (settled : Settles world answerer placeholder.key
      (precedence world root calls last placeholder) (.ok winner))
    (unopened : (last.named placeholder).reference ∉
      (openReferences calls).map Placeholder.reference) :
    StandsFor .standard world root last placeholder .found
      (last.expanding (last.named placeholder) winner) := by
  refine .found own ((meets.answered_iff rfl configured).mpr settled) fun _ => ?_
  obtain ⟨path, _, _⟩ := meets
  rw [← Bool.not_eq_true, Frame.expands_iff, path.chain_eq rfl]
  exact unopened

/-- An answer to an open reference is a cycle. -/
theorem Meets.fails_of_open {winner : Property}
    (own : last.otherConfigType? placeholder = none)
    (configured : world.answerers.get? last.configType = some answerer)
    (settled : Settles world answerer placeholder.key
      (precedence world root calls last placeholder) (.ok winner))
    (opened : (last.named placeholder).reference ∈
      (openReferences calls).map Placeholder.reference) :
    Fails world property root configType
      (.cyclic ((openReferences calls).reverse ++ [last.named placeholder])
        last.property root) := by
  have answered := (meets.answered_iff rfl configured).mpr settled
  have chain : last.chain = openReferences calls := by
    obtain ⟨path, _, _⟩ := meets
    exact path.chain_eq rfl
  have again : last.expands (last.named placeholder) = true := by
    rw [Frame.expands_iff, chain]
    exact opened
  have fails := meets.resolve_failed (.cyclic own answered rfl again)
  rwa [List.reverse_cons, chain] at fails

/-- What is expanded is an answer. -/
theorem Meets.settles_of_standsFor
    (configured : world.answerers.get? last.configType = some answerer)
    (stands : StandsFor .standard world root last placeholder .found inner) :
    Settles world answerer placeholder.key
      (precedence world root calls last placeholder) (.ok inner.property) := by
  cases stands with
  | found _ answered _ => exact (meets.answered_iff rfl configured).mp answered

/-- A candidate that fails before any answer makes the resolution fail. -/
theorem Meets.fails_of_settles {cause : LookupError}
    (own : last.otherConfigType? placeholder = none)
    (configured : world.answerers.get? last.configType = some answerer)
    (settled : Settles world answerer placeholder.key
      (precedence world root calls last placeholder) (.error cause)) :
    Fails world property root configType (.lookup (last.named placeholder) cause) := by
  rw [← outcome_askInTurn_eq_iff last.configType, ← meets.candidates_eq rfl] at settled
  exact meets.resolve_failed (.lookup own configured settled)

/-- The default is resolved when all candidates decline, and only then. -/
theorem Meets.fallback_iff (own : last.otherConfigType? placeholder = none)
    (configured : world.answerers.get? last.configType = some answerer) :
    StandsFor .standard world root last placeholder .fallback inner ↔
      AllDecline world answerer placeholder.key
          (precedence world root calls last placeholder) ∧
        ∃ text, placeholder.fallback = some text ∧ inner = last.defaulting text := by
  rw [← meets.declined_iff rfl configured]
  constructor
  · intro stands
    cases stands with
    | fallback _ declined given => exact ⟨declined, _, given, rfl⟩
  · rintro ⟨declined, text, given, rfl⟩
    exact .fallback own declined given

/-- Without a default the resolution fails when all candidates decline. -/
theorem Meets.fails_of_declined (own : last.otherConfigType? placeholder = none)
    (configured : world.answerers.get? last.configType = some answerer)
    (declined : AllDecline world answerer placeholder.key
      (precedence world root calls last placeholder))
    (missing : placeholder.fallback = none) :
    Fails world property root configType
      (.unresolved (last.named placeholder) last.property root) :=
  meets.resolve_failed
    (.unresolved own ((meets.declined_iff rfl configured).mpr declined) missing)

/-- Only candidates are asked. -/
theorem Meets.exists_candidate_of_asked {type : String} {query : Query}
    (asked : .asked type query ∈ (next .standard world root last placeholder).log) :
    ∃ candidate ∈ precedence world root calls last placeholder,
      candidate.query world placeholder.key = .ok query := by
  obtain ⟨_, _, candidate, member, happened⟩ := exists_ask_of_mem_log asked
  rw [meets.candidates_eq rfl] at member
  exact ⟨candidate, member, candidate.query_of_mem_log happened⟩

end Standard

/-- **Who answers a placeholder, wherever it is taken up in a resolution.** A placeholder that a run
takes up lies at the end of a path, and on every path to it the candidates are those of
`precedence`. When the first one that does not decline has an answer, this is expanded, unless the
reference is being expanded already; when that one fails, the whole resolution fails. When all
decline, the default is resolved, or the resolution fails if there is none. Nobody else is asked. -/
theorem resolve_precedence {steps : Nat} {property : Property}
    (met : .met last placeholder ∈ (resolve world steps property root configType).log)
    (own : last.otherConfigType? placeholder = none)
    (configured : world.answerers.get? last.configType = some answerer) :
    (∃ calls, Meets .standard world root (.top property configType) property.value.toList
      calls last placeholder) ∧
    ∀ calls, Meets .standard world root (.top property configType) property.value.toList
        calls last placeholder →
      (∀ winner, Settles world answerer placeholder.key
            (precedence world root calls last placeholder) (.ok winner) →
          if (last.named placeholder).reference ∈
              (openReferences calls).map Placeholder.reference then
            Fails world property root configType
              (.cyclic ((openReferences calls).reverse ++ [last.named placeholder])
                last.property root)
          else
            StandsFor .standard world root last placeholder .found
              (last.expanding (last.named placeholder) winner)) ∧
        (∀ inner, StandsFor .standard world root last placeholder .found inner →
          Settles world answerer placeholder.key
            (precedence world root calls last placeholder) (.ok inner.property)) ∧
        (∀ cause, Settles world answerer placeholder.key
            (precedence world root calls last placeholder) (.error cause) →
          Fails world property root configType (.lookup (last.named placeholder) cause)) ∧
        (∀ inner, StandsFor .standard world root last placeholder .fallback inner ↔
          AllDecline world answerer placeholder.key
              (precedence world root calls last placeholder) ∧
            ∃ text, placeholder.fallback = some text ∧ inner = last.defaulting text) ∧
        (AllDecline world answerer placeholder.key
            (precedence world root calls last placeholder) → placeholder.fallback = none →
          Fails world property root configType
            (.unresolved (last.named placeholder) last.property root)) ∧
        ∀ type query,
          .asked type query ∈ (next .standard world root last placeholder).log →
            ∃ candidate ∈ precedence world root calls last placeholder,
              candidate.query world placeholder.key = .ok query := by
  refine ⟨exists_meets_iff.mpr ⟨steps, met⟩, fun calls meets => ⟨fun winner settled => ?_,
    fun inner => meets.settles_of_standsFor configured,
    fun cause => meets.fails_of_settles own configured,
    fun inner => meets.fallback_iff own configured, meets.fails_of_declined own configured,
    fun type query => meets.exists_candidate_of_asked⟩⟩
  split
  · next opened => exact meets.fails_of_open own configured settled opened
  · next unopened => exact meets.standsFor_of_settles own configured settled unopened

/-! ## The latest open reference answers

In the following world the value of `web` refers to `middle`, whose value refers to `bottom`, and
`bottom` refers to a host of its own. It has none, and neither has `web`; so `middle` answers. -/

/-- A property of a component. -/
def stackedProperty (component key value : String) : Property :=
  ⟨key, value, "dev", false, .special (.ofType component) "declared"⟩

/-- The value of `middle`. -/
def middleValue : Property := stackedProperty "middle" "x" "$\x7bbottom@x\x7d"

/-- The value of `bottom`. -/
def bottomValue : Property := stackedProperty "bottom" "x" "$\x7bthis@host\x7d"

/-- The host of `middle`. -/
def middleHost : Property := stackedProperty "middle" "host" "middle.local"

/-- What is known of these components. -/
def stackedAnswerer : Answerer := fun query =>
  .ok (if query.component.name == "middle" then
      if query.key == "x" then some middleValue else some middleHost
    else if query.component.name == "bottom" && query.key == "x" then some bottomValue
    else none)

/-- The world with these properties. -/
def stackedWorld : World where
  locate := fun reference _ => .ok (.ofType reference)
  answerers := Dictionary.empty.insert "app" stackedAnswerer
  protectedKeys := []

/-- The component that the value is resolved for. -/
def stackedRoot : Placed := ⟨.ofType "web", "dev"⟩

/-- The property that holds the value. -/
def stackedTop : Property := valueProperty "$\x7bmiddle@x\x7d" stackedRoot

/-- The pieces of a placeholder of this world. -/
def stackedWritten (component key : String) : Written :=
  ⟨none, component.toList, none, key.toList, none⟩

/-- The placeholder with these pieces. -/
def stackedReference (component key : String) : Placeholder :=
  .ofWritten (stackedWritten component key) "dev"

/-- Where the value of `middle` stands. -/
def middleFrame : Frame :=
  (Frame.top stackedTop "app").expanding (stackedReference "middle" "x") middleValue

/-- Where the value of `bottom` stands. -/
def bottomFrame : Frame :=
  middleFrame.expanding (stackedReference "bottom" "x") bottomValue

/-- The way to the value of `bottom`. -/
def stackedCalls : List Call :=
  [⟨middleFrame, stackedReference "bottom" "x", .found⟩,
    ⟨.top stackedTop "app", stackedReference "middle" "x", .found⟩]

/-- The host of `bottom` is taken up on the way of the value. -/
theorem meets_host :
    Meets .standard stackedWorld stackedRoot (.top stackedTop "app") stackedTop.value.toList
      stackedCalls bottomFrame (stackedReference "this" "host") := by
  have toMiddle : Meets .standard stackedWorld stackedRoot (.top stackedTop "app")
      stackedTop.value.toList [] (.top stackedTop "app") (stackedReference "middle" "x") :=
    .first .here (within_top _ _ _)
      (by cbv : Occurrence.find? stackedTop.value.toList =
        some ⟨[], stackedWritten "middle" "x", []⟩)
  have middle : StandsFor .standard stackedWorld stackedRoot (.top stackedTop "app")
      (stackedReference "middle" "x") .found middleFrame :=
    .found rfl ⟨_, rfl, by cbv⟩ fun _ => by cbv
  have toBottom := Meets.first (toMiddle.path middle) (within_standard_iff.mpr (by decide))
    (by cbv : Occurrence.find? middleValue.value.toList =
      some ⟨[], stackedWritten "bottom" "x", []⟩)
  have bottom : StandsFor .standard stackedWorld stackedRoot middleFrame
      (stackedReference "bottom" "x") .found bottomFrame :=
    .found rfl ⟨_, rfl, by cbv⟩ fun _ => by cbv
  exact .first (toBottom.path bottom) (within_standard_iff.mpr (by decide))
    (by cbv : Occurrence.find? bottomValue.value.toList =
      some ⟨[], stackedWritten "this" "host", []⟩)

/-- The host of `middle` is expanded for the host of `bottom`. -/
theorem resolve_stackedHost :
    (∃ steps, .met bottomFrame (stackedReference "this" "host") ∈
        (resolve stackedWorld steps stackedTop stackedRoot "app").log) ∧
      StandsFor .standard stackedWorld stackedRoot bottomFrame (stackedReference "this" "host")
        .found (bottomFrame.expanding (stackedReference "bottom" "host") middleHost) := by
  obtain ⟨steps, met⟩ := exists_meets_iff.mp ⟨stackedCalls, meets_host⟩
  have declined : AllDecline stackedWorld stackedAnswerer "host"
      [.placed stackedRoot, .of (stackedReference "bottom" "x")] :=
    List.forall_mem_cons.mpr ⟨rfl, List.forall_mem_singleton.mpr rfl⟩
  have unopened : (bottomFrame.named (stackedReference "this" "host")).reference ∉
      (openReferences stackedCalls).map Placeholder.reference := by decide
  have expanded := ((resolve_precedence met rfl rfl).2 stackedCalls meets_host).1 middleHost
    ⟨_, .of (stackedReference "middle" "x"), [.of (stackedReference "bottom" "host")], rfl,
      declined, rfl⟩
  rw [if_neg unopened] at expanded
  exact ⟨⟨steps, met⟩, expanded⟩

end DeployConfig.Resolution
