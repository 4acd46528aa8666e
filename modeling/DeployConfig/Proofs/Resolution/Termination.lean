import DeployConfig.Proofs.Resolution.Runs
import Mathlib.Order.WellFounded

/-!
# When a resolution comes to an end

Two things could keep a resolution going: texts nested ever deeper, and a text whose placeholders
are replaced over and over. The depth limit rules out the first one. The second one is not ruled
out: values may hold pieces of placeholders, which make up new ones with the text around them, and
the search starts again at the beginning of the text after each replacement.

`resolve_unfinished_iff` says that this is the only way for a resolution to go on forever: some
text on its way, nested no deeper than allowed, has an endless sequence of turns. Such a sequence
keeps inserting all the characters that a placeholder cannot do without, `$`, `{`, `@` and `}`,
because a turn takes a placeholder away (`Turn.count_lt`). So a resolution comes to an end when one
of these characters does not occur in the values (`exists_resolve_ne_unfinished`). It need not come
to an end otherwise: `resolveValue_pumpingWorld` shows a world with one property in which a text
grows forever.
-/

set_option autoImplicit false

namespace DeployConfig.Resolution

variable {rules : Rules} {world : World} {root : Placed} {frame inner : Frame}
  {text next value : List Char}

/-! ## Going on forever -/

/-- An endless sequence of turns. -/
def Endless (rules : Rules) (world : World) (root : Placed) (frame : Frame)
    (texts values : Nat → List Char) : Prop :=
  ∀ n, Turn rules world root frame (values n) (texts n) (texts (n + 1))

/-- Every budget is too small for a text. -/
def Diverges (rules : Rules) (world : World) (root : Placed) (frame : Frame)
    (text : List Char) : Prop :=
  ∀ steps, (fill rules world root steps frame text).outcome = .unfinished

/-- A budget that is too small for the text after a turn is too small for the turn and the rest. -/
theorem Turn.unfinished {steps : Nat} (turned : Turn rules world root frame value text next)
    (later : (fill rules world root steps frame next).outcome = .unfinished) :
    (fill rules world root (steps + 1) frame text).outcome = .unfinished := by
  obtain ⟨first, entered, done⟩ := turned
  refine outcome_fill_eq_unfinished_iff.mpr ⟨_, _, first, entered, ?_⟩
  exact (unfinished_or_done done steps).imp_right fun again => ⟨_, again, later⟩

theorem Turn.diverges (turned : Turn rules world root frame value text next)
    (later : Diverges rules world root frame next) : Diverges rules world root frame text := by
  intro steps
  cases steps with
  | zero => rfl
  | succ steps => exact turned.unfinished (later steps)

/-- A text goes on forever when a text that is entered for its first placeholder does. -/
theorem diverges_of_enter {found : Occurrence} (first : Occurrence.find? text = some found)
    (entered : (enter rules world root frame found.written).outcome = .done inner)
    (later : Diverges rules world root inner inner.property.value.toList) :
    Diverges rules world root frame text := by
  intro steps
  cases steps with
  | zero => rfl
  | succ steps =>
    exact outcome_fill_eq_unfinished_iff.mpr ⟨_, _, first, entered, .inl (later steps)⟩

/-- A text goes on forever when a text on its way does. -/
theorem Visits.diverges {last : Frame} {final : List Char}
    (visits : Visits rules world root frame text last final)
    (later : Diverges rules world root last final) : Diverges rules world root frame text := by
  induction visits with
  | here => exact later
  | turn _ turned ih => exact ih (turned.diverges later)
  | enter _ first entered ih => exact ih (diverges_of_enter first entered later)

/-- A text with an endless sequence of turns goes on forever. -/
theorem Endless.diverges {texts values : Nat → List Char}
    (endless : Endless rules world root frame texts values) (n : Nat) :
    Diverges rules world root frame (texts n) := by
  intro steps
  induction steps generalizing n with
  | zero => rfl
  | succ steps ih => exact (endless n).unfinished (ih (n + 1))

theorem Endless.visits {top : Frame} {start : List Char} {texts values : Nat → List Char}
    (endless : Endless rules world root frame texts values)
    (visits : Visits rules world root top start frame (texts 0)) (n : Nat) :
    Visits rules world root top start frame (texts n) := by
  induction n with
  | zero => exact visits
  | succ n ih => exact ih.turn (endless n)

/-! ## Where it goes on -/

/-- What goes on forever does so after a turn, or within the text for the first placeholder. -/
theorem Diverges.turn_or_enter (diverges : Diverges rules world root frame text) :
    (∃ value next, Turn rules world root frame value text next ∧
      Diverges rules world root frame next) ∨
      ∃ found inner, Occurrence.find? text = some found ∧
        (enter rules world root frame found.written).outcome = .done inner ∧
        Diverges rules world root inner inner.property.value.toList := by
  obtain ⟨found, inner, first, entered, _⟩ := outcome_fill_eq_unfinished_iff.mp (diverges 1)
  by_cases nested : Diverges rules world root inner inner.property.value.toList
  · exact .inr ⟨found, inner, first, entered, nested⟩
  · obtain ⟨steps, ends⟩ := not_forall.mp nested
    -- The text that was entered comes to an end, so it is the rest that does not.
    have goesOn : ∀ more, steps ≤ more → ∃ middle,
        (fill rules world root steps inner inner.property.value.toList).outcome = .done middle ∧
        (fill rules world root more frame
          (found.before ++ (middle ++ found.after))).outcome = .unfinished := by
      intro more larger
      obtain ⟨found', inner', first', entered', stuck | ⟨middle, done, later⟩⟩ :=
        outcome_fill_eq_unfinished_iff.mp (diverges (more + 1))
      all_goals
        rw [first] at first'
        cases first'
        rw [entered] at entered'
        cases entered'
      · exact absurd (unfinished_of_le larger stuck) ends
      · exact ⟨middle, by rw [← fill_of_le larger ends, done], later⟩
    obtain ⟨middle, done, _⟩ := goesOn steps (Nat.le_refl steps)
    refine .inl ⟨middle, _, .replace first entered done, fun more => ?_⟩
    obtain ⟨middle', done', later⟩ := goesOn (max steps more) (Nat.le_max_left steps more)
    rw [done] at done'
    cases done'
    exact unfinished_of_le (Nat.le_max_right steps more) later

/-- What goes on forever has an endless sequence of turns, or a text nested in it goes on
forever. -/
theorem Diverges.endless_or_nested (diverges : Diverges rules world root frame text) :
    (∃ texts values, texts 0 = text ∧ Endless rules world root frame texts values) ∨
      ∃ inner, inner.depth = frame.depth + 1 ∧ Within rules inner ∧
        Diverges rules world root inner inner.property.value.toList ∧
        ∀ last final, Visits rules world root inner inner.property.value.toList last final →
          Visits rules world root frame text last final := by
  by_cases comesToEnd :
      Acc (fun next text => ∃ value, Turn rules world root frame value text next) text
  · refine .inr ?_
    induction comesToEnd with
    | intro text _ ih =>
      obtain ⟨value, next, turned, later⟩ | ⟨found, inner, first, entered, nested⟩ :=
        diverges.turn_or_enter
      · obtain ⟨inner, deeper, within, nested, visits⟩ := ih next ⟨value, turned⟩ later
        exact ⟨inner, deeper, within, nested, fun last final later =>
          (Visits.here.turn turned).trans (visits last final later)⟩
      · obtain ⟨⟨cause, stands⟩, within⟩ := outcome_enter_eq_done_iff.mp entered
        exact ⟨inner, stands.depth_eq, within, nested, fun last final later =>
          (Visits.here.enter first entered).trans later⟩
  · obtain ⟨texts, starts, turns⟩ := not_acc_iff_exists_descending_chain.mp comesToEnd
    choose values turns using turns
    exact .inl ⟨texts, values, starts, turns⟩

/-- **Nesting does not go on forever.** What goes on forever has an endless sequence of turns in a
text on its way. -/
theorem Diverges.exists_endless {limit : Nat} (limited : rules.depthLimit = some limit)
    (within : frame.depth ≤ limit) (diverges : Diverges rules world root frame text) :
    ∃ last texts values, Visits rules world root frame text last (texts 0) ∧
      last.depth ≤ limit ∧ Endless rules world root last texts values := by
  induction left : limit - frame.depth generalizing frame text with
  | zero =>
    obtain ⟨texts, values, rfl, endless⟩ | ⟨inner, deeper, shallow, _⟩ := diverges.endless_or_nested
    · exact ⟨frame, texts, values, .here, within, endless⟩
    · have := shallow limit limited
      omega
  | succ left ih =>
    obtain ⟨texts, values, rfl, endless⟩ | ⟨inner, deeper, shallow, nested, visits⟩ :=
      diverges.endless_or_nested
    · exact ⟨frame, texts, values, .here, within, endless⟩
    · obtain ⟨last, texts, values, later, bounded, endless⟩ :=
        ih (shallow limit limited) nested (by omega)
      exact ⟨last, texts, values, visits _ _ later, bounded, endless⟩

/-! ## What keeps turns going -/

/-- Every placeholder holds these characters. -/
theorem count_characters_pos {c : Char} (punctuation : c ∈ ['$', '{', '@', '}'])
    (written : Written) : 0 < written.characters.count c := by
  rw [List.count_pos_iff]
  simp only [List.mem_cons, List.not_mem_nil, or_false] at punctuation
  rcases punctuation with rfl | rfl | rfl | rfl <;> simp [Written.characters]

/-- **A turn takes a placeholder away.** Its characters get fewer unless the value has them. -/
theorem Turn.count_lt {c : Char} (punctuation : c ∈ ['$', '{', '@', '}'])
    (turned : Turn rules world root frame value text next) (absent : c ∉ value) :
    next.count c < text.count c := by
  cases turned with
  | @replace found inner steps first entered done =>
    have positive := count_characters_pos punctuation found.written
    have shorter := List.count_eq_zero.mpr absent
    have count := congrArg (List.count c) (Occurrence.find?_eq_some_iff.mp first).split
    simp only [List.count_append] at count ⊢
    omega

/-- An endless sequence of turns keeps inserting each of these characters. -/
theorem Endless.inserts {texts values : Nat → List Char}
    (endless : Endless rules world root frame texts values) {c : Char}
    (punctuation : c ∈ ['$', '{', '@', '}']) (n : Nat) : ∃ m, n ≤ m ∧ c ∈ values m := by
  by_contra never
  have absent : ∀ k, c ∉ values (n + k) := fun k present =>
    never ⟨n + k, Nat.le_add_right n k, present⟩
  have fewer : ∀ k, (texts (n + k)).count c + k ≤ (texts n).count c := by
    intro k
    induction k with
    | zero => exact Nat.le_refl _
    | succ k ih =>
      have less := (endless (n + k)).count_lt punctuation (absent k)
      rw [Nat.add_assoc] at less
      omega
  have := fewer ((texts n).count c + 1)
  omega

/-! ## Resolutions that go on forever -/

/-- A resolution comes to an end when one of these characters occurs in none of the values that are
inserted on its way. -/
theorem exists_resolve_ne_unfinished {property : Property} {configType : String} {c : Char}
    (punctuation : c ∈ ['$', '{', '@', '}'])
    (absent : ∀ last final value next,
      Visits .standard world root (.top property configType) property.value.toList last final →
      Turn .standard world root last value final next → c ∉ value) :
    ∃ steps, (resolve world steps property root configType).outcome ≠ .unfinished := by
  by_contra never
  have diverges : Diverges .standard world root (.top property configType)
      property.value.toList := by
    intro steps
    rw [← outcome_resolve_eq_unfinished_iff]
    by_contra ends
    exact never ⟨steps, ends⟩
  obtain ⟨last, texts, values, visits, _, endless⟩ :=
    Diverges.exists_endless rfl (Nat.zero_le 64) diverges
  obtain ⟨m, _, present⟩ := endless.inserts punctuation 0
  exact absent last (texts m) (values m) _ (endless.visits visits m) (endless m) present

/-- **A resolution goes on forever exactly when a text on its way has an endless sequence of
turns.** The text is nested no deeper than allowed, and the turns keep inserting each of the
characters that a placeholder cannot do without. -/
theorem resolve_unfinished_iff (world : World) (property : Property) (root : Placed)
    (configType : String) :
    (∀ steps, (resolve world steps property root configType).outcome = .unfinished) ↔
      ∃ frame texts values,
        Visits .standard world root (.top property configType) property.value.toList
          frame (texts 0) ∧
        frame.depth ≤ 64 ∧ Endless .standard world root frame texts values ∧
        ∀ c ∈ ['$', '{', '@', '}'], ∀ n, ∃ m, n ≤ m ∧ c ∈ values m := by
  simp only [outcome_resolve_eq_unfinished_iff]
  constructor
  · intro diverges
    obtain ⟨frame, texts, values, visits, bounded, endless⟩ :=
      Diverges.exists_endless rfl (Nat.zero_le 64) diverges
    exact ⟨frame, texts, values, visits, bounded, endless, fun c punctuation n =>
      endless.inserts punctuation n⟩
  · rintro ⟨frame, texts, values, visits, _, endless, _⟩
    exact visits.diverges (endless.diverges 0)

/-! ## A text that grows forever

In the following world `a@k` has the value `}}${a@k${a@k`. The text `${a@k${a@k}` has one
placeholder, and the value in its place closes the opening in front of it. Two turns later the text
is the same again, with two braces more in front of it and two openings more behind it. -/

/-- An opening that nothing closes. -/
def opening : List Char := ['$', '{', 'a', '@', 'k']

/-- The placeholder that a brace makes of it. -/
def opened : Written := ⟨none, ['a'], none, ['k'], none⟩

/-- A value that closes the opening in front of it and opens two more. -/
def pump : List Char := '}' :: '}' :: (opening ++ opening)

/-- The property with this value. -/
def pumpProperty : Property :=
  ⟨"k", String.ofList pump, "dev", false, .special (.ofType "a") "declared"⟩

/-- A world with no other property. -/
def pumpingWorld : World where
  locate := fun reference _ => .ok (.ofType reference)
  answerers := Dictionary.empty.insert "app" fun query =>
    .ok (if query.key == "k" then some pumpProperty else none)
  protectedKeys := []

/-- The component that a value is resolved for. -/
def pumpingRoot : Placed := ⟨.ofType "a", "dev"⟩

/-- Where that value stands. -/
def pumpingFrame : Frame :=
  .top (valueProperty "$\x7ba@k$\x7ba@k\x7d" pumpingRoot) "app"

/-- The value, where it is entered. -/
def pumpFrame : Frame :=
  pumpingFrame.expanding (.ofWritten opened "dev") pumpProperty

theorem enter_pump :
    (enter .standard pumpingWorld pumpingRoot pumpingFrame opened).outcome = .done pumpFrame := by
  have answered : Answered pumpingWorld pumpingRoot pumpingFrame (.ofWritten opened "dev")
      (some pumpProperty) := ⟨_, rfl, rfl⟩
  refine outcome_enter_eq_done_iff.mpr
    ⟨⟨_, .found rfl answered fun _ => rfl⟩, fun limit limited => ?_⟩
  cases limited
  exact (by decide : 1 ≤ 64)

/-- The value alone holds no placeholder. -/
theorem fill_pump :
    (fill .standard pumpingWorld pumpingRoot 1 pumpFrame pumpProperty.value.toList).outcome =
      .done pump := by
  have none : Occurrence.find? pump = none := by
    rw [Occurrence.find?_eq_leftmost?]
    decide
  rw [pumpProperty, String.toList_ofList, fill_of_find?_eq_none none]
  rfl

/-- A turn puts the value in the place of the placeholder. -/
theorem turn_pump {front rest before after : List Char} (plain : '$' ∉ front)
    (first : Occurrence.leftmost? rest = some ⟨before, opened, after⟩) :
    Turn .standard pumpingWorld pumpingRoot pumpingFrame pump (front ++ rest)
      ((front ++ before) ++ (pump ++ after)) := by
  have found : Occurrence.find? (front ++ rest) = some ⟨front ++ before, opened, after⟩ := by
    rw [Occurrence.find?_eq_leftmost?, Occurrence.leftmost?_append plain, first]
    rfl
  exact .replace found enter_pump fill_pump

/-- The second opening is closed first. -/
theorem turn_openings {front : List Char} (after : List Char) (plain : '$' ∉ front) :
    Turn .standard pumpingWorld pumpingRoot pumpingFrame pump
      (front ++ (opening ++ (opening ++ '}' :: after)))
      (front ++ (opening ++ '}' :: '}' :: (opening ++ (opening ++ after)))) := by
  have first : Occurrence.leftmost? (opening ++ (opening ++ '}' :: after)) =
      some ⟨opening, opened, after⟩ := rfl
  have turned := turn_pump plain first
  simpa only [pump, List.append_assoc, List.cons_append] using turned

/-- The value that has taken its place closes the first one and leaves two openings. -/
theorem turn_opening {front : List Char} (after : List Char) (plain : '$' ∉ front) :
    Turn .standard pumpingWorld pumpingRoot pumpingFrame pump
      (front ++ (opening ++ '}' :: after))
      ((front ++ ['}', '}']) ++ (opening ++ (opening ++ after))) := by
  have first : Occurrence.leftmost? (opening ++ '}' :: after) = some ⟨[], opened, after⟩ := rfl
  have turned := turn_pump plain first
  simpa only [pump, List.append_assoc, List.cons_append, List.append_nil, List.nil_append]
    using turned

/-- The text with its two openings goes on forever, whatever stands around it. -/
theorem fill_openings (steps : Nat) (front after : List Char) (plain : '$' ∉ front) :
    (fill .standard pumpingWorld pumpingRoot steps pumpingFrame
      (front ++ (opening ++ (opening ++ '}' :: after)))).outcome = .unfinished := by
  induction steps using Nat.twoStepInduction generalizing front after with
  | zero => rfl
  | one => exact (turn_openings after plain).unfinished rfl
  | more steps ih _ =>
    refine (turn_openings after plain).unfinished ((turn_opening _ plain).unfinished ?_)
    exact ih (front ++ ['}', '}']) (opening ++ (opening ++ after)) (by simp [plain])

/-- **A resolution that never ends.** No budget is enough for it. -/
theorem resolveValue_pumpingWorld :
    ¬ ∃ steps, (resolveValue pumpingWorld steps "$\x7ba@k$\x7ba@k\x7d" pumpingRoot "app").outcome ≠
      .unfinished := by
  rintro ⟨steps, ends⟩
  refine ends (outcome_resolve_eq_unfinished_iff.mpr ?_)
  have text : (valueProperty "$\x7ba@k$\x7ba@k\x7d" pumpingRoot).value.toList =
      [] ++ (opening ++ (opening ++ ['}'])) := by decide
  rw [text]
  exact fill_openings steps [] [] List.not_mem_nil

end DeployConfig.Resolution
