import DeployConfig.Proofs.Resolution.Runs
import Mathlib

/-!
# Where in a resolution a text stands

A text is resolved in the place of a placeholder, which belongs to a text that is resolved in the
place of another placeholder, and so on up to the text that the resolution starts with. A `Path`
lists these placeholders, innermost first, beside the text that is reached. It is longer by one
behind each placeholder that is entered, and it stays as it is when a text takes a turn: what has
been put in the place of earlier placeholders is no longer on the path.

Paths account for everything that a resolution goes through. The placeholders at their ends are
those that runs take up (`exists_meets_iff`), a text that is entered in a run lies at the end of a
path (`exists_path_of_entered`), and a run fails at the end of one (`exists_path_of_failed`).
Conversely, what fails at the end of a path makes the whole resolution fail
(`Meets.resolve_failed`).
-/

set_option autoImplicit false

namespace DeployConfig.Resolution

variable {rules : Rules} {world : World} {root : Placed} {top frame last inner : Frame}
  {start text final : List Char} {placeholder : Placeholder} {written : Written}

/-! ## Paths -/

/-- A placeholder in whose place another text is resolved. -/
structure Call where
  /-- Where the placeholder stands. -/
  frame : Frame
  placeholder : Placeholder
  cause : Cause

/-- The texts on the way of a text, each with the placeholders in whose place it stands. -/
inductive Path (rules : Rules) (world : World) (root : Placed) (top : Frame)
    (start : List Char) : List Call → Frame → List Char → Prop where
  | here : Path rules world root top start [] top start
  | turn {calls : List Call} {last : Frame} {value final next : List Char}
      (path : Path rules world root top start calls last final)
      (turned : Turn rules world root last value final next) :
      Path rules world root top start calls last next
  | enter {calls : List Call} {last inner : Frame} {final : List Char} {found : Occurrence}
      {cause : Cause} (path : Path rules world root top start calls last final)
      (within : Within rules last) (first : Occurrence.find? final = some found)
      (stands : StandsFor rules world root last
        (.ofWritten found.written last.property.environment) cause inner) :
      Path rules world root top start
        (⟨last, .ofWritten found.written last.property.environment, cause⟩ :: calls)
        inner inner.property.value.toList

/-- The placeholders that are taken up on the way of a text. -/
inductive Meets (rules : Rules) (world : World) (root : Placed) (top : Frame)
    (start : List Char) : List Call → Frame → Placeholder → Prop where
  | first {calls : List Call} {last : Frame} {final : List Char} {found : Occurrence}
      (path : Path rules world root top start calls last final) (within : Within rules last)
      (first : Occurrence.find? final = some found) :
      Meets rules world root top start calls last
        (.ofWritten found.written last.property.environment)

variable {calls : List Call}

/-- What stands for a placeholder lies on the path behind it. -/
theorem Meets.path {cause : Cause}
    (meets : Meets rules world root top start calls last placeholder)
    (stands : StandsFor rules world root last placeholder cause inner) :
    Path rules world root top start (⟨last, placeholder, cause⟩ :: calls) inner
      inner.property.value.toList := by
  obtain ⟨path, within, first⟩ := meets
  exact path.enter within first stands

/-- A path goes on where another one ends. -/
theorem Path.trans {middle : Frame} {between : List Char} {more : List Call}
    (path : Path rules world root top start calls middle between)
    (later : Path rules world root middle between more last final) :
    Path rules world root top start (more ++ calls) last final := by
  induction later with
  | here => exact path
  | turn _ turned ih => exact ih.turn turned
  | enter _ within first stands ih => exact ih.enter within first stands

/-- Every placeholder on a path is one level of nesting. -/
theorem Path.depth_eq (path : Path rules world root top start calls last final) :
    last.depth = top.depth + calls.length := by
  induction path with
  | here => rfl
  | turn _ _ ih => exact ih
  | enter _ _ _ stands ih => rw [stands.depth_eq, ih, List.length_cons, Nat.add_assoc]

/-! ## What a run goes through lies on a path -/

section Runs

variable {steps : Nat}

/-- The path to the text that is entered for the first placeholder. -/
theorem path_of_enter {found : Occurrence} (within : Within rules frame)
    (first : Occurrence.find? text = some found)
    (entered : (enter rules world root frame found.written).outcome = .done inner) :
    ∃ call, Path rules world root frame text [call] inner inner.property.value.toList := by
  obtain ⟨⟨cause, stands⟩, _⟩ := outcome_enter_eq_done_iff.mp entered
  exact ⟨_, Path.here.enter within first stands⟩

/-- Every event of a run comes from a placeholder that is taken up at the end of a path. -/
theorem exists_path_of_mem_log {event : Event} (within : Within rules frame)
    (happened : event ∈ (fill rules world root steps frame text).log) :
    ∃ calls last final found, Path rules world root frame text calls last final ∧
      Within rules last ∧ Occurrence.find? final = some found ∧
      event ∈ (enter rules world root last found.written).log := by
  induction steps generalizing frame text with
  | zero => cases happened
  | succ steps ih =>
    cases first : Occurrence.find? text with
    | none =>
      rw [fill_of_find?_eq_none first] at happened
      cases happened
    | some found =>
      rw [fill_of_find?_eq_some first] at happened
      simp only [Traced.mem_log_bind_iff] at happened
      -- Either the text below puts its path behind the first placeholder, or the text after the
      -- turn puts its path behind none.
      obtain here | ⟨inner, entered, nested | ⟨value, done, later⟩⟩ := happened
      · exact ⟨[], frame, text, found, .here, within, first, here⟩
      · obtain ⟨call, path⟩ := path_of_enter within first entered
        obtain ⟨calls, last, final, found, further, rest⟩ :=
          ih (outcome_enter_eq_done_iff.mp entered).2 nested
        exact ⟨calls ++ [call], last, final, found, path.trans further, rest⟩
      · obtain ⟨calls, last, final, found', further, rest⟩ := ih within later
        have turned := Path.here.turn (.replace first entered done)
        refine ⟨calls, last, final, found', ?_, rest⟩
        simpa only [List.append_nil] using turned.trans further

/-- **A run fails at the end of a path**, where a placeholder is rejected or where the text that
stands for it is nested too deep. -/
theorem exists_path_of_failed {error : ResolutionError} (within : Within rules frame)
    (fails : (fill rules world root steps frame text).outcome = .failed error) :
    ∃ calls last placeholder, Meets rules world root frame text calls last placeholder ∧
      (Rejects rules world root last placeholder error ∨
        ∃ cause inner, StandsFor rules world root last placeholder cause inner ∧
          (checkDepth rules root inner).outcome = .failed error) := by
  induction steps generalizing frame text with
  | zero => cases fails
  | succ steps ih =>
    obtain ⟨found, first, here | ⟨inner, entered, nested | ⟨value, done, later⟩⟩⟩ :=
      outcome_fill_eq_failed_iff.mp fails
    · rw [outcome_enter_eq_failed_iff, outcome_next_eq_failed_iff] at here
      exact ⟨[], frame, _, .first .here within first, here⟩
    · obtain ⟨call, path⟩ := path_of_enter within first entered
      obtain ⟨calls, last, placeholder, ⟨further, shallow, found⟩, rest⟩ :=
        ih (outcome_enter_eq_done_iff.mp entered).2 nested
      exact ⟨calls ++ [call], last, _, .first (path.trans further) shallow found, rest⟩
    · obtain ⟨calls, last, placeholder, ⟨further, shallow, found'⟩, rest⟩ := ih within later
      have turned := Path.here.turn (.replace first entered done)
      refine ⟨calls, last, _, .first ?_ shallow found', rest⟩
      simpa only [List.append_nil] using turned.trans further

/-! ### Events of a step -/

/-- Whoever is asked in turn is one of the candidates. -/
theorem exists_candidate_of_mem_log {configType key : String} {answerer : Answerer} {event : Event}
    {inTurn : List Candidate}
    (happened : event ∈ (askInTurn world configType answerer key inTurn).log) :
    ∃ candidate ∈ inTurn, event ∈ (candidate.ask world configType answerer key).log := by
  induction inTurn with
  | nil => cases happened
  | cons candidate rest ih =>
    simp only [askInTurn, Bind.bind, Traced.mem_log_bind_iff] at happened
    obtain here | ⟨answer, _, later⟩ := happened
    · exact ⟨candidate, List.mem_cons_self, here⟩
    · cases answer with
      | some property => cases later
      | none =>
        obtain ⟨other, member, there⟩ := ih later
        exact ⟨other, List.mem_cons_of_mem candidate member, there⟩

/-- A step does nothing but ask its candidates. -/
theorem exists_ask_of_mem_log {event : Event}
    (happened : event ∈ (next rules world root frame placeholder).log) :
    ∃ answerer, world.answerers.get? frame.configType = some answerer ∧
      ∃ candidate ∈ candidates world.protectedKeys root frame placeholder,
        event ∈ (candidate.ask world frame.configType answerer placeholder.key).log := by
  cases own : frame.otherConfigType? placeholder with
  | some other =>
    rw [next_of_other own] at happened
    split at happened <;> cases happened
  | none =>
    simp only [next, own] at happened
    split at happened
    · cases happened
    · next answerer configured =>
      simp only [Bind.bind, Traced.mem_log_bind_iff, Traced.restate] at happened
      obtain asked | ⟨answer, _, later⟩ := happened
      · exact ⟨answerer, configured, exists_candidate_of_mem_log asked⟩
      · cases answer with
        | some property =>
          revert later
          simp only
          split <;> rintro ⟨⟩
        | none =>
          revert later
          cases placeholder.fallback <;> rintro ⟨⟩

/-- To ask a candidate is to look it up and to put a question. -/
theorem Candidate.mem_log_ask {configType key : String} {answerer : Answerer} {event : Event}
    {candidate : Candidate}
    (happened : event ∈ (candidate.ask world configType answerer key).log) :
    (∃ name environment, event = .located name environment) ∨
      ∃ placed, (candidate.toPlaced world).outcome = .done placed ∧
        event = .asked configType ⟨placed.component, key, placed.environment⟩ := by
  simp only [Candidate.ask, Bind.bind, Traced.mem_log_bind_iff] at happened
  obtain locating | ⟨placed, located, asking | ⟨_, _, nothing⟩⟩ := happened
  · left
    cases candidate with
    | placed known => cases locating
    | referred name environment =>
      simp only [Candidate.toPlaced, Bind.bind, Traced.mem_log_bind_iff] at locating
      obtain noted | ⟨_, _, nothing⟩ := locating
      · exact ⟨name, environment, List.mem_singleton.mp noted⟩
      · revert nothing
        cases world.locate name environment <;> rintro ⟨⟩
  · exact .inr ⟨placed, located, List.mem_singleton.mp asking⟩
  · cases nothing

/-- A step looks components up and puts questions. -/
theorem mem_log_next {event : Event}
    (happened : event ∈ (next rules world root frame placeholder).log) :
    (∃ name environment, event = .located name environment) ∨
      ∃ type query, event = .asked type query := by
  obtain ⟨_, _, candidate, _, asked⟩ := exists_ask_of_mem_log happened
  exact (candidate.mem_log_ask asked).imp_right fun ⟨_, _, same⟩ => ⟨_, _, same⟩

/-- Checking the depth is not an event. -/
theorem log_checkDepth : (checkDepth rules root frame).log = [] := by
  unfold checkDepth
  split
  · split <;> rfl
  · rfl

/-- To enter a text is to take up a placeholder, to ask for it and to go to what stands for it. -/
theorem mem_log_enter {event : Event}
    (happened : event ∈ (enter rules world root frame written).log) :
    event = .met frame (.ofWritten written frame.property.environment) ∨
      event ∈ (next rules world root frame
        (.ofWritten written frame.property.environment)).log ∨
      ∃ cause inner, StandsFor rules world root frame
          (.ofWritten written frame.property.environment) cause inner ∧
        event = .entered cause inner := by
  simp only [enter, Bind.bind, Traced.mem_log_bind_iff, log_checkDepth] at happened
  obtain met | ⟨_, _, asking | ⟨⟨cause, inner⟩, stands, entering | ⟨_, _, nothing | nothing⟩⟩⟩ :=
    happened
  · exact .inl (List.mem_singleton.mp met)
  · exact .inr (.inl asking)
  · exact .inr (.inr ⟨cause, inner, outcome_next_eq_done_iff.mp stands,
      List.mem_singleton.mp entering⟩)
  · cases nothing
  · obtain ⟨_, _, nothing⟩ := nothing
    cases nothing

/-- **A text that is entered in a run lies at the end of a path.** -/
theorem exists_path_of_entered {cause : Cause} (within : Within rules frame)
    (happened : .entered cause inner ∈ (fill rules world root steps frame text).log) :
    ∃ calls last placeholder, Meets rules world root frame text calls last placeholder ∧
      StandsFor rules world root last placeholder cause inner := by
  obtain ⟨calls, last, final, found, path, shallow, first, there⟩ :=
    exists_path_of_mem_log within happened
  refine ⟨calls, last, _, .first path shallow first, ?_⟩
  obtain nothing | asking | ⟨_, _, stands, same⟩ := mem_log_enter there
  · cases nothing
  · obtain ⟨_, _, nothing⟩ | ⟨_, _, nothing⟩ := mem_log_next asking <;> cases nothing
  · cases same
    exact stands

end Runs

/-! ## What lies on a path happens in a run -/

/-- A larger budget goes through whatever a smaller one does. -/
theorem mem_log_fill_of_le {steps more : Nat} {event : Event} (larger : steps ≤ more)
    (happened : event ∈ (fill rules world root steps frame text).log) :
    event ∈ (fill rules world root more frame text).log := by
  induction steps generalizing more frame text with
  | zero => cases happened
  | succ steps ih =>
    obtain ⟨more, rfl⟩ := Nat.exists_eq_succ_of_ne_zero (Nat.ne_zero_of_lt larger)
    have larger : steps ≤ more := Nat.le_of_succ_le_succ larger
    cases first : Occurrence.find? text with
    | none =>
      rw [fill_of_find?_eq_none first] at happened
      cases happened
    | some found =>
      rw [fill_of_find?_eq_some first] at happened ⊢
      simp only [Traced.mem_log_bind_iff] at happened ⊢
      obtain here | ⟨inner, entered, nested | ⟨value, done, later⟩⟩ := happened
      · exact .inl here
      · exact .inr ⟨inner, entered, .inl (ih larger nested)⟩
      · exact .inr ⟨inner, entered, .inr ⟨value, outcome_fill_of_le larger done, ih larger later⟩⟩

/-- What happens after a turn happens in the run before it. -/
theorem Turn.exists_mem_log {steps : Nat} {value next : List Char} {event : Event}
    (turned : Turn rules world root frame value text next)
    (happened : event ∈ (fill rules world root steps frame next).log) :
    ∃ enough, event ∈ (fill rules world root enough frame text).log := by
  cases turned with
  | @replace found inner less first entered done =>
    refine ⟨max less steps + 1, ?_⟩
    rw [fill_of_find?_eq_some first]
    simp only [Traced.mem_log_bind_iff]
    exact .inr ⟨inner, entered, .inr ⟨value, outcome_fill_of_le (Nat.le_max_left less steps) done,
      mem_log_fill_of_le (Nat.le_max_right less steps) happened⟩⟩

/-- What happens at the end of a path happens in a run from its start. -/
theorem Path.exists_mem_log {steps : Nat} {event : Event}
    (path : Path rules world root top start calls last final) (within : Within rules last)
    (happened : event ∈ (fill rules world root steps last final).log) :
    ∃ enough, event ∈ (fill rules world root enough top start).log := by
  induction path generalizing steps with
  | here => exact ⟨steps, happened⟩
  | turn _ turned ih =>
    obtain ⟨enough, happened⟩ := turned.exists_mem_log happened
    exact ih within happened
  | @enter calls last inner final found cause path shallow first stands ih =>
    have entered := outcome_enter_eq_done_iff.mpr ⟨⟨cause, stands⟩, within⟩
    have around : event ∈ (fill rules world root (steps + 1) last final).log := by
      rw [fill_of_find?_eq_some first, Traced.mem_log_bind_iff]
      exact .inr ⟨inner, entered, Traced.mem_log_bind_iff.mpr (.inl happened)⟩
    exact ih shallow around

/-- **The placeholders at the ends of paths are those that runs take up.** -/
theorem exists_meets_iff {property : Property} {configType : String} :
    (∃ calls, Meets .standard world root (.top property configType) property.value.toList
        calls last placeholder) ↔
      ∃ steps, .met last placeholder ∈ (resolve world steps property root configType).log := by
  simp only [log_resolve]
  constructor
  · rintro ⟨calls, meets⟩
    cases meets with
    | @first final found path shallow first =>
      have taken : .met last (.ofWritten found.written last.property.environment) ∈
          (fill .standard world root 1 last final).log := by
        rw [fill_of_find?_eq_some first, Traced.mem_log_bind_iff]
        exact .inl (Traced.mem_log_bind_iff.mpr (.inl (List.mem_singleton_self _)))
      exact path.exists_mem_log shallow taken
  · rintro ⟨steps, happened⟩
    obtain ⟨calls, last, final, found, path, shallow, first, there⟩ :=
      exists_path_of_mem_log (within_top _ _ _) happened
    obtain same | asking | ⟨_, _, _, nothing⟩ := mem_log_enter there
    · cases same
      exact ⟨calls, .first path shallow first⟩
    · obtain ⟨_, _, nothing⟩ | ⟨_, _, nothing⟩ := mem_log_next asking <;> cases nothing
    · cases nothing

/-! ## What fails on a path -/

/-- What fails after a turn fails before it. -/
theorem Turn.exists_failed {steps : Nat} {value next : List Char} {error : ResolutionError}
    (turned : Turn rules world root frame value text next)
    (fails : (fill rules world root steps frame next).outcome = .failed error) :
    ∃ enough, (fill rules world root enough frame text).outcome = .failed error := by
  cases turned with
  | @replace found inner less first entered done =>
    have done := outcome_fill_of_le (Nat.le_max_left less steps) done
    have same := fill_of_le (Nat.le_max_right less steps) (by rw [fails]; exact nofun)
    rw [← same] at fails
    exact ⟨max less steps + 1, outcome_fill_eq_failed_iff.mpr
      ⟨found, first, .inr ⟨inner, entered, .inr ⟨value, done, fails⟩⟩⟩⟩

/-- What fails at the end of a path fails at its start, with a budget that is large enough. -/
theorem Path.exists_failed {steps : Nat} {error : ResolutionError}
    (path : Path rules world root top start calls last final) (within : Within rules last)
    (fails : (fill rules world root steps last final).outcome = .failed error) :
    ∃ enough, (fill rules world root enough top start).outcome = .failed error := by
  induction path generalizing steps with
  | here => exact ⟨steps, fails⟩
  | turn _ turned ih =>
    obtain ⟨enough, fails⟩ := turned.exists_failed fails
    exact ih within fails
  | enter _ shallow first stands ih =>
    have entered := outcome_enter_eq_done_iff.mpr ⟨⟨_, stands⟩, within⟩
    exact ih shallow (outcome_fill_eq_failed_iff.mpr ⟨_, first, .inr ⟨_, entered, .inl fails⟩⟩)

/-- A resolution fails with an error for every budget that is large enough. -/
def Fails (world : World) (property : Property) (root : Placed) (configType : String)
    (error : ResolutionError) : Prop :=
  ∃ enough, ∀ steps, enough ≤ steps →
    (resolve world steps property root configType).outcome = .failed error

/-- **A placeholder that is rejected makes the whole resolution fail.** -/
theorem Meets.resolve_failed {property : Property} {configType : String} {error : ResolutionError}
    (meets : Meets .standard world root (.top property configType) property.value.toList
      calls last placeholder)
    (rejects : Rejects .standard world root last placeholder error) :
    Fails world property root configType error := by
  obtain ⟨path, within, first⟩ := meets
  have refused := outcome_enter_eq_failed_iff.mpr (.inl (outcome_next_eq_failed_iff.mpr rejects))
  have stops : (fill .standard world root 1 last _).outcome = .failed error :=
    outcome_fill_eq_failed_iff.mpr ⟨_, first, .inl refused⟩
  obtain ⟨enough, fails⟩ := path.exists_failed within stops
  refine ⟨enough, fun steps le => ?_⟩
  rw [outcome_resolve, fill_of_le le (by rw [fails]; exact nofun), fails]

end DeployConfig.Resolution
