import DeployConfig.Proofs.Placeholder.Locality
import DeployConfig.Proofs.Resolution.Runs
import Mathlib

/-!
# Placeholders next to each other

A text is searched from its beginning after every turn, and a value that has been inserted may take
part in what is found next. So it is not clear that the placeholders of a text have nothing to do
with each other. This module shows that they do not, as long as nothing but a placeholder opens one:
the text between placeholders and the values in their place hold no `$`.

Such a text is resolved sibling by sibling (`Ends.of_siblings`). What lies in front of the next
placeholder is passed over (`Occurrence.find?_append_of_wellFormed`), and a default that is closed
by balance ends where it does whatever follows. The placeholder then stands for the same text as if
it were alone: a step looks at everything about a property but its value (`StandsFor.holding`), and
the chain of one sibling is not handed to the next. Only an error tells from which text it comes,
because it names the property with its value.

`expand_siblings` puts this together, for values and for the first failure.
-/

set_option autoImplicit false

namespace DeployConfig

/-- The error, with an empty value for the property that it names. -/
def ResolutionError.withoutValue : ResolutionError → ResolutionError
  | .unresolved placeholder property root => .unresolved placeholder (property.withValue "") root
  | .cyclic chain property root => .cyclic chain (property.withValue "") root
  | .unsupportedConfigType name configured => .unsupportedConfigType name configured
  | .tooDeep limit property root => .tooDeep limit (property.withValue "") root
  | .lookup placeholder cause => .lookup placeholder cause

/-- The pieces of a placeholder that ends where it does whatever follows: its default, if it has
one, is closed by balance. -/
structure Written.SelfContained (written : Written) : Prop where
  wellFormed : Written.WellFormed written.characters written []
  balances : ∀ fallback, written.fallback = some fallback → Written.Balances fallback

/-- Such a placeholder is read in front of any text. -/
theorem Written.SelfContained.append {written : Written} (selfContained : written.SelfContained)
    (after : List Char) :
    Written.WellFormed (written.characters ++ after) written after :=
  selfContained.wellFormed.append selfContained.balances after

namespace Resolution

variable {rules : Rules} {world : World} {root : Placed} {frame inner : Frame}
  {placeholder : Placeholder} {text front after : List Char}
  {outcome : Outcome ResolutionError (List Char)}

/-! ## Only the value differs -/

/-- The frame of the same property with another value. -/
def Frame.holding (frame : Frame) (text : List Char) : Frame :=
  { frame with property := frame.property.withValue (String.ofList text) }

@[simp] theorem Frame.value_holding (frame : Frame) (text : List Char) :
    (frame.holding text).property.value.toList = text :=
  String.toList_ofList

theorem Frame.within_holding {text : List Char} :
    Within rules (frame.holding text) ↔ Within rules frame := Iff.rfl

/-- What stands for a placeholder does not depend on the text around it. -/
theorem StandsFor.holding {one : List Char} {cause : Cause}
    (stands : StandsFor rules world root (frame.holding one) placeholder cause inner)
    (other : List Char) :
    StandsFor rules world root (frame.holding other) placeholder cause inner := by
  cases stands with
  | delegated another configured => exact .delegated another configured
  | found own answered fresh => exact .found own answered fresh
  | fallback own declined given => exact .fallback own declined given

/-- Neither does an error, but for the value that it names. -/
theorem Rejects.holding {one : List Char} {error : ResolutionError}
    (rejects : Rejects rules world root (frame.holding one) placeholder error)
    (other : List Char) :
    ∃ again, Rejects rules world root (frame.holding other) placeholder again ∧
      again.withoutValue = error.withoutValue := by
  cases rejects with
  | unsupported another unknown => exact ⟨_, .unsupported another unknown, rfl⟩
  | unconfigured own unknown => exact ⟨_, .unconfigured own unknown, rfl⟩
  | lookup own configured fails => exact ⟨_, .lookup own configured fails, rfl⟩
  | cyclic own answered refuses again => exact ⟨_, .cyclic own answered refuses again, rfl⟩
  | unresolved own declined missing => exact ⟨_, .unresolved own declined missing, rfl⟩

/-- A placeholder has the same value wherever it stands. -/
theorem outcome_refer_holding_of_done {steps : Nat} {one value : List Char}
    (done : (refer rules world root steps (frame.holding one) placeholder).outcome = .done value)
    (other : List Char) :
    (refer rules world root steps (frame.holding other) placeholder).outcome = .done value := by
  rw [refer, Traced.outcome_bind_eq_done_iff] at done ⊢
  obtain ⟨⟨cause, inner⟩, stands, valued⟩ := done
  rw [outcome_next_eq_done_iff] at stands
  exact ⟨(cause, inner), outcome_next_eq_done_iff.mpr (stands.holding other), valued⟩

/-- A placeholder fails in the same way wherever it stands. -/
theorem outcome_refer_holding_of_failed {steps : Nat} {one : List Char} {error : ResolutionError}
    (fails : (refer rules world root steps (frame.holding one) placeholder).outcome =
      .failed error) (other : List Char) :
    ∃ again, (refer rules world root steps (frame.holding other) placeholder).outcome =
        .failed again ∧ again.withoutValue = error.withoutValue := by
  simp only [refer, Traced.outcome_bind_eq_failed_iff] at fails ⊢
  rcases fails with rejected | ⟨⟨cause, inner⟩, stands, nested⟩
  · obtain ⟨again, rejects, same⟩ := (outcome_next_eq_failed_iff.mp rejected).holding other
    exact ⟨again, .inl (outcome_next_eq_failed_iff.mpr rejects), same⟩
  · rw [outcome_next_eq_done_iff] at stands
    exact ⟨error, .inr ⟨(cause, inner), outcome_next_eq_done_iff.mpr (stands.holding other),
      nested⟩, rfl⟩

/-! ## Ends of resolutions -/

/-- How a text that stands in a frame is resolved with every budget that is large enough. -/
def Ends (rules : Rules) (world : World) (root : Placed) (frame : Frame) (text : List Char)
    (outcome : Outcome ResolutionError (List Char)) : Prop :=
  ∃ enough, ∀ steps, enough ≤ steps → (fill rules world root steps frame text).outcome = outcome

/-- How the value of the property of a frame is resolved with every budget that is large enough. -/
def EndsIn (rules : Rules) (world : World) (root : Placed) (frame : Frame)
    (outcome : Outcome ResolutionError (List Char)) : Prop :=
  ∃ enough, ∀ steps, enough ≤ steps → (expand rules world root steps frame).outcome = outcome

theorem endsIn_holding_iff (within : Within rules frame) :
    EndsIn rules world root (frame.holding text) outcome ↔
      Ends rules world root (frame.holding text) text outcome := by
  rw [EndsIn, Ends]
  simp only [expand_of_within (Frame.within_holding.mpr within), Frame.value_holding]

/-- A run that comes to an end shows how the text ends. -/
theorem ends_of_outcome {steps : Nat} (ends : outcome ≠ .unfinished)
    (ran : (fill rules world root steps frame text).outcome = outcome) :
    Ends rules world root frame text outcome := by
  refine ⟨steps, ?_⟩
  intro more larger
  rw [fill_of_le larger (by rwa [ran]), ran]

/-- A run that comes to a value shows what the text ends with. -/
theorem ends_of_done {steps : Nat} {value : List Char}
    (ran : (fill rules world root steps frame text).outcome = .done value) :
    Ends rules world root frame text (.done value) :=
  ends_of_outcome nofun ran

/-- A text ends as the text after a turn does. -/
theorem Ends.of_turn {found : Occurrence} {value : List Char} {enough : Nat}
    (first : Occurrence.find? text = some found)
    (valued : ∀ steps, enough ≤ steps → (refer rules world root steps frame
      (.ofWritten found.written frame.property.environment)).outcome = .done value)
    (later : Ends rules world root frame (found.before ++ (value ++ found.after)) outcome) :
    Ends rules world root frame text outcome := by
  obtain ⟨more, later⟩ := later
  refine ⟨max enough more + 1, ?_⟩
  intro steps large
  obtain ⟨less, rfl⟩ : ∃ less, steps = less + 1 := ⟨steps - 1, by omega⟩
  rw [outcome_fill_of_first first, Traced.outcome_bind_of_done (valued less (by omega))]
  exact later less (by omega)

/-- A text that is just one placeholder ends as the placeholder does. -/
theorem Ends.refer {written : Written} (selfContained : written.SelfContained)
    (ends : Ends rules world root frame written.characters outcome) :
    ∃ enough, ∀ steps, enough ≤ steps → (refer rules world root steps frame
      (.ofWritten written frame.property.environment)).outcome = outcome := by
  obtain ⟨enough, ends⟩ := ends
  refine ⟨enough, ?_⟩
  intro steps large
  have alone := Occurrence.find?_characters_iff.mpr selfContained.wellFormed
  rw [← outcome_fill_of_alone alone]
  exact ends (steps + 1) (by omega)

/-! ## Siblings -/

/-- A placeholder of a text, what it is resolved to alone, and the text behind it up to the next
placeholder. -/
structure Sibling where
  written : Written
  value : List Char
  literal : List Char

namespace Sibling

/-- The text of a sibling. -/
def characters (sibling : Sibling) : List Char :=
  sibling.written.characters ++ sibling.literal

/-- The text with the value in the place of the placeholder. -/
def filled (sibling : Sibling) : List Char :=
  sibling.value ++ sibling.literal

/-- The placeholder ends where it does whatever follows, and nothing behind it opens one. -/
structure Apart (sibling : Sibling) : Prop where
  selfContained : sibling.written.SelfContained
  plain : '$' ∉ sibling.literal

/-- Alone as the value of the property, the placeholder is resolved to the value, which opens no
placeholder. -/
structure Valued (rules : Rules) (world : World) (root : Placed) (frame : Frame)
    (sibling : Sibling) : Prop where
  alone : EndsIn rules world root (frame.holding sibling.written.characters) (.done sibling.value)
  plain : '$' ∉ sibling.value

end Sibling

variable {siblings : List Sibling}

/-- Values and literals open no placeholder. -/
theorem plain_filled (plain : '$' ∉ front) (apart : ∀ sibling ∈ siblings, sibling.Apart)
    (valued : ∀ sibling ∈ siblings, sibling.Valued rules world root frame) :
    '$' ∉ front ++ siblings.flatMap Sibling.filled := by
  intro opens
  rcases List.mem_append.mp opens with before | among
  · exact plain before
  · obtain ⟨sibling, member, inside⟩ := List.mem_flatMap.mp among
    rcases List.mem_append.mp inside with inValue | inLiteral
    · exact (valued sibling member).plain inValue
    · exact (apart sibling member).plain inLiteral

/-- **Siblings give way to their values, one after the other.** A text that starts with siblings
ends as the text with their values does. -/
theorem Ends.of_siblings {whole : List Char} (within : Within rules frame) (plain : '$' ∉ front)
    (apart : ∀ sibling ∈ siblings, sibling.Apart)
    (valued : ∀ sibling ∈ siblings, sibling.Valued rules world root frame)
    (later : Ends rules world root (frame.holding whole)
      (front ++ (siblings.flatMap Sibling.filled ++ after)) outcome) :
    Ends rules world root (frame.holding whole)
      (front ++ (siblings.flatMap Sibling.characters ++ after)) outcome := by
  induction siblings generalizing front with
  | nil => exact later
  | cons sibling rest ih =>
    obtain ⟨here, apart⟩ := List.forall_mem_cons.mp apart
    obtain ⟨⟨alone, plainValue⟩, valued⟩ := List.forall_mem_cons.mp valued
    -- The search passes over `front`, which holds the values that have been inserted so far.
    have first := Occurrence.find?_append_of_wellFormed plain
      (here.selfContained.append (sibling.literal ++ (rest.flatMap Sibling.characters ++ after)))
    obtain ⟨enough, refers⟩ := ((endsIn_holding_iff within).mp alone).refer here.selfContained
    have turned : Ends rules world root (frame.holding whole)
        (front ++ (sibling.value ++
          (sibling.literal ++ (rest.flatMap Sibling.characters ++ after)))) outcome := by
      have plain : '$' ∉ front ++ (sibling.value ++ sibling.literal) := by
        simp only [List.mem_append, not_or]
        exact ⟨plain, plainValue, here.plain⟩
      have nested := ih plain apart valued (by
        simpa only [List.flatMap_cons, Sibling.filled, List.append_assoc] using later)
      simpa only [List.append_assoc] using nested
    have ends := Ends.of_turn first
      (fun steps large => outcome_refer_holding_of_done (refers steps large) whole) turned
    simpa only [List.flatMap_cons, Sibling.characters, List.append_assoc] using ends

/-- A text whose first placeholder fails alone fails in the same way. -/
theorem Ends.failed_of_first {found : Occurrence} {error : ResolutionError}
    (within : Within rules frame) (first : Occurrence.find? text = some found)
    (selfContained : found.written.SelfContained)
    (fails : EndsIn rules world root (frame.holding found.written.characters) (.failed error))
    (whole : List Char) :
    ∃ again, Ends rules world root (frame.holding whole) text (.failed again) ∧
      again.withoutValue = error.withoutValue := by
  obtain ⟨enough, refers⟩ := ((endsIn_holding_iff within).mp fails).refer selfContained
  obtain ⟨again, fails, same⟩ :=
    outcome_refer_holding_of_failed (refers enough (Nat.le_refl enough)) whole
  refine ⟨again, ?_, same⟩
  have stops : (fill rules world root (enough + 1) (frame.holding whole) text).outcome =
      .failed again := by
    rw [outcome_fill_of_first first, Traced.outcome_bind_eq_failed_iff]
    exact .inl fails
  exact ends_of_outcome nofun stops

/-- **Siblings are resolved independently of each other.** A text consists of literals and
placeholders, and the literals open no placeholder. When each placeholder is resolved alone to a
value that opens none, the text is resolved to the literals with the values between them. When one
fails alone and those before it are resolved so, the text fails with the same error, but for the
value of the property that it names. -/
theorem expand_siblings (world : World) (root : Placed) {frame : Frame} (shallow : frame.depth ≤ 64)
    {front : List Char} (plain : '$' ∉ front) {siblings : List Sibling}
    (apart : ∀ sibling ∈ siblings, sibling.Apart) :
    ((∀ sibling ∈ siblings, sibling.Valued .standard world root frame) →
      EndsIn .standard world root
        (frame.holding (front ++ siblings.flatMap Sibling.characters))
        (.done (front ++ siblings.flatMap Sibling.filled))) ∧
    ∀ earlier failing later error, siblings = earlier ++ failing :: later →
      (∀ sibling ∈ earlier, sibling.Valued .standard world root frame) →
      EndsIn .standard world root (frame.holding failing.written.characters) (.failed error) →
      ∃ again, EndsIn .standard world root
          (frame.holding (front ++ siblings.flatMap Sibling.characters)) (.failed again) ∧
        again.withoutValue = error.withoutValue := by
  have within : Within .standard frame := within_standard_iff.mpr shallow
  simp only [endsIn_holding_iff within]
  constructor
  · intro valued
    have resolved : Ends .standard world root
        (frame.holding (front ++ siblings.flatMap Sibling.characters))
        (front ++ (siblings.flatMap Sibling.filled ++ []))
        (.done (front ++ siblings.flatMap Sibling.filled)) := by
      rw [List.append_nil]
      have none := Occurrence.find?_eq_none_of_plain (plain_filled plain apart valued)
      refine ends_of_done (?_ : (fill .standard world root 1 _ _).outcome = _)
      rw [fill_of_find?_eq_none none]
      rfl
    have ends := resolved.of_siblings within plain apart valued
    rwa [List.append_nil] at ends
  · rintro earlier failing later error rfl valued fails
    obtain ⟨apart, rest⟩ := List.forall_mem_append.mp apart
    obtain ⟨here, _⟩ := List.forall_mem_cons.mp rest
    rw [← endsIn_holding_iff within] at fails
    -- The placeholders in front are replaced, and then the failing one is the first.
    have first := Occurrence.find?_append_of_wellFormed (plain_filled plain apart valued)
      (here.selfContained.append (failing.literal ++ later.flatMap Sibling.characters))
    obtain ⟨again, stops, same⟩ := Ends.failed_of_first within first here.selfContained fails
      (front ++ (earlier ++ failing :: later).flatMap Sibling.characters)
    refine ⟨again, ?_, same⟩
    rw [List.append_assoc] at stops
    have ends := stops.of_siblings within plain apart valued
    simpa only [List.flatMap_append, List.flatMap_cons, Sibling.characters,
      List.append_assoc] using ends

/-! ## An address

In the following world the host of `web` is known and nothing else. The address of `web` is written
with its host and its port, and the default of the port holds a placeholder of its own. -/

/-- A world with one key. -/
def hostWorld : World where
  locate := fun reference _ => .ok (.ofType reference)
  answerers := Dictionary.empty.insert "app" fun query =>
    .ok (if query.key == "host" then
      some ⟨"host", "web.local", query.environment, false, .special query.component "declared"⟩
    else none)
  protectedKeys := []

/-- The component whose address it is. -/
def hostRoot : Placed := ⟨.ofType "web", "dev"⟩

/-- Where the address stands. -/
def addressFrame : Frame := .top (valueProperty "" hostRoot) "app"

/-- A placeholder of `web` that is resolved alone to a value. -/
def webSibling (key : String) (fallback : Option String) (value literal : String) : Sibling where
  written := ⟨none, "web".toList, none, key.toList, fallback.map String.toList⟩
  value := value.toList
  literal := literal.toList

/-- The host and the port of `web`. -/
def addressParts : List Sibling :=
  [webSibling "host" none "web.local" ":",
    webSibling "port" (some "$\x7bweb@base:80\x7d") "80" "/"]

/-- A placeholder that nobody answers. -/
def userPart : Sibling := webSibling "user" none "" ""

theorem apart_addressParts : ∀ sibling ∈ addressParts ++ [userPart], sibling.Apart := by
  have read (sibling : Sibling) (alone : Written.atStart? sibling.written.characters =
      some (sibling.written, [])) : Written.WellFormed sibling.written.characters
        sibling.written [] := Written.atStart?_eq_some_iff.mp alone
  have without (sibling : Sibling) (none : sibling.written.fallback = none) :
      ∀ fallback, sibling.written.fallback = some fallback → Written.Balances fallback := by
    intro fallback given
    rw [none] at given
    cases given
  intro sibling member
  simp only [addressParts, List.cons_append, List.nil_append, List.mem_cons, List.not_mem_nil,
    or_false] at member
  rcases member with rfl | rfl | rfl
  · exact ⟨⟨read _ (by cbv), without _ rfl⟩, by decide⟩
  · refine ⟨⟨read _ (by cbv), ?_⟩, by decide⟩
    rintro _ ⟨⟩
    exact (Written.closeBalanced_eq_some_iff.mp (by cbv :
      Written.closeBalanced 0 false ("$\x7bweb@base:80\x7d".toList ++ ['}']) =
        some ("$\x7bweb@base:80\x7d".toList, []))).2
  · exact ⟨⟨read _ (by cbv), without _ rfl⟩, by decide⟩

theorem valued_addressParts : ∀ sibling ∈ addressParts,
    sibling.Valued .standard hostWorld hostRoot addressFrame := by
  have within : Within .standard addressFrame := within_top _ _ _
  intro sibling member
  simp only [addressParts, List.mem_cons, List.not_mem_nil, or_false] at member
  rcases member with rfl | rfl
  · refine ⟨(endsIn_holding_iff within).mpr (ends_of_done (?_ :
      (fill .standard hostWorld hostRoot 2 _ _).outcome = _)), by decide⟩
    cbv
  · refine ⟨(endsIn_holding_iff within).mpr (ends_of_done (?_ :
      (fill .standard hostWorld hostRoot 4 _ _).outcome = _)), by decide⟩
    cbv

/-- The address is resolved, and fails when a user is added that nobody knows. -/
theorem expand_address :
    EndsIn .standard hostWorld hostRoot
        (addressFrame.holding
          "http://$\x7bweb@host\x7d:$\x7bweb@port:$\x7bweb@base:80\x7d\x7d/".toList)
        (.done "http://web.local:80/".toList) ∧
      ∃ again, EndsIn .standard hostWorld hostRoot
          (addressFrame.holding
            "$\x7bweb@host\x7d:$\x7bweb@port:$\x7bweb@base:80\x7d\x7d/$\x7bweb@user\x7d".toList)
          (.failed again) ∧
        again.withoutValue = .unresolved ⟨none, "web", "dev", false, "user", none⟩
          addressFrame.property hostRoot := by
  have shallow : addressFrame.depth ≤ 64 := Nat.zero_le 64
  have apart : ∀ sibling ∈ addressParts, sibling.Apart := fun sibling member =>
    apart_addressParts sibling (List.mem_append_left _ member)
  have resolved := (expand_siblings hostWorld hostRoot shallow
    (by decide : '$' ∉ "http://".toList) apart).1 valued_addressParts
  have alone : EndsIn .standard hostWorld hostRoot
      (addressFrame.holding userPart.written.characters)
      (.failed (.unresolved ⟨none, "web", "dev", false, "user", none⟩
        (addressFrame.holding userPart.written.characters).property hostRoot)) := by
    refine (endsIn_holding_iff (within_top _ _ _)).mpr (ends_of_outcome nofun (?_ :
      (fill .standard hostWorld hostRoot 2 _ _).outcome = _))
    cbv
  have failed := (expand_siblings hostWorld hostRoot shallow
    (List.not_mem_nil : '$' ∉ []) apart_addressParts).2 addressParts userPart [] _ rfl
      valued_addressParts alone
  exact ⟨resolved, failed⟩

end Resolution

end DeployConfig
