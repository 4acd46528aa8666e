import DeployConfig.Proofs.Resolution.Paths

/-!
# What the depth limit does

A resolution refuses texts that are nested too deep. This module compares it with the same
resolution without that limit (`Rules.bottomless`), which need not come to an end. The two go
through the same events until a text is entered that is nested too deep, and there the one with the
limit stops: it fails, and nothing is asked for or put in the place of a placeholder any more
(`UpTo`, `upTo_fill`).

So the limit is not seen unless it strikes. `resolve_upTo_limit` says this for whole resolutions,
together with what is counted: a text is as deep as there are placeholders in whose place it stands,
each by its value, by its default or by another config type.
-/

set_option autoImplicit false

namespace DeployConfig.Resolution

variable {rules : Rules} {world : World} {root : Placed} {limit : Nat}

/-! ## Rules with and without a limit -/

/-- The same rules without a limit for the depth. -/
def Rules.bottomless (rules : Rules) : Rules :=
  { rules with depthLimit := none }

/-- The same rules with a limit for the depth. -/
def Rules.limitedTo (rules : Rules) (limit : Nat) : Rules :=
  { rules with depthLimit := some limit }

/-! ## Runs that stop early -/

/-- Whether a text is entered that is nested deeper than a limit. -/
def Event.Beyond (limit : Nat) : Event → Prop
  | .entered _ inner => limit < inner.depth
  | _ => False

/-- A run that does the same as another one up to the first text that is nested too deep, and fails
there. -/
inductive UpTo (limit : Nat) (root : Placed) {α : Type} (free : Traced Event ResolutionError α) :
    Traced Event ResolutionError α → Prop where
  | whole (shallow : ∀ event ∈ free.log, ¬ event.Beyond limit) : UpTo limit root free free
  | cut {earlier later : List Event} {cause : Cause} {inner : Frame}
      (split : free.log = earlier ++ .entered cause inner :: later)
      (shallow : ∀ event ∈ earlier, ¬ event.Beyond limit) (deep : limit < inner.depth) :
      UpTo limit root free
        ⟨earlier ++ [.entered cause inner], .failed (.tooDeep limit inner.property root)⟩

theorem UpTo.note {event : Event} (shallow : ¬ event.Beyond limit) :
    UpTo limit root (.note event) (.note event) := by
  refine .whole ?_
  intro happened member
  rw [List.mem_singleton.mp member]
  exact shallow

/-- A run that enters a text that is nested too deep stops there. -/
theorem UpTo.of_deep {α : Type} {cause : Cause} {inner : Frame} (deep : limit < inner.depth)
    (goOn : Unit → Traced Event ResolutionError α) :
    UpTo limit root ((Traced.note (.entered cause inner)).bind goOn)
      ⟨[.entered cause inner], .failed (.tooDeep limit inner.property root)⟩ := by
  have split : ((Traced.note (.entered cause inner)).bind goOn).log =
      [] ++ .entered cause inner :: (goOn ()).log := rfl
  have shallow : ∀ event ∈ ([] : List Event), ¬ event.Beyond limit :=
    List.forall_mem_nil _
  exact .cut split shallow deep

/-- Events in front of both runs, none of which enters a text that is nested too deep. -/
theorem UpTo.prepend {α : Type} {free limited : Traced Event ResolutionError α}
    {before : List Event} (shallow : ∀ event ∈ before, ¬ event.Beyond limit)
    (upTo : UpTo limit root free limited) :
    UpTo limit root ⟨before ++ free.log, free.outcome⟩
      ⟨before ++ limited.log, limited.outcome⟩ := by
  cases upTo with
  | whole shallowAfter =>
    refine .whole ?_
    intro event happened
    rcases List.mem_append.mp happened with early | late
    · exact shallow event early
    · exact shallowAfter event late
  | @cut earlier later cause inner split shallowAfter deep =>
    have splitBehind : before ++ free.log =
        before ++ earlier ++ .entered cause inner :: later := by
      rw [split, List.append_assoc]
    rw [← List.append_assoc]
    refine .cut splitBehind ?_ deep
    intro event happened
    rcases List.mem_append.mp happened with early | late
    · exact shallow event early
    · exact shallowAfter event late

/-- **A run that has stopped early does not go on**, and one that has not goes on as the rest
does. -/
theorem UpTo.bind {α β : Type} {free limited : Traced Event ResolutionError α}
    {goOn goOnLimited : α → Traced Event ResolutionError β} (upTo : UpTo limit root free limited)
    (following : ∀ value, free.outcome = .done value →
      UpTo limit root (goOn value) (goOnLimited value)) :
    UpTo limit root (free.bind goOn) (limited.bind goOnLimited) := by
  cases upTo with
  | whole shallow =>
    obtain ⟨log, outcome⟩ := free
    cases outcome with
    | done value => exact (following value rfl).prepend shallow
    | failed error => exact .whole shallow
    | unfinished => exact .whole shallow
  | @cut earlier later cause inner split shallow deep =>
    obtain ⟨rest, longer⟩ : ∃ rest, (free.bind goOn).log = free.log ++ rest :=
      ⟨_, Traced.log_bind free goOn⟩
    rw [split, List.append_assoc, List.cons_append] at longer
    exact .cut longer shallow deep

/-- Where nothing is nested too deep, no run stops early. -/
theorem UpTo.eq_of_shallow {α : Type} {free limited : Traced Event ResolutionError α}
    (upTo : UpTo limit root free limited) (shallow : ∀ event ∈ free.log, ¬ event.Beyond limit) :
    limited = free := by
  cases upTo with
  | whole _ => rfl
  | @cut earlier later cause inner split _ deep =>
    refine absurd deep (shallow (.entered cause inner) ?_)
    rw [split]
    exact List.mem_append_right _ List.mem_cons_self

/-- A run that does not fail for the depth has not stopped early. -/
theorem UpTo.eq_of_ne_tooDeep {α : Type} {free limited : Traced Event ResolutionError α}
    (upTo : UpTo limit root free limited)
    (other : ∀ property, limited.outcome ≠ .failed (.tooDeep limit property root)) :
    limited = free := by
  cases upTo with
  | whole _ => rfl
  | @cut _ _ _ inner _ _ _ => exact absurd rfl (other inner.property)

/-- Where something is nested too deep, the run stops at the first such text. -/
theorem UpTo.exists_cut {α : Type} {free limited : Traced Event ResolutionError α}
    (upTo : UpTo limit root free limited) {event : Event} (happened : event ∈ free.log)
    (deep : event.Beyond limit) :
    ∃ earlier cause inner later, free.log = earlier ++ .entered cause inner :: later ∧
      (∀ event ∈ earlier, ¬ event.Beyond limit) ∧ limit < inner.depth ∧
      limited = ⟨earlier ++ [.entered cause inner],
        .failed (.tooDeep limit inner.property root)⟩ := by
  cases upTo with
  | whole shallow => exact absurd deep (shallow event happened)
  | cut split shallow deeper => exact ⟨_, _, _, _, split, shallow, deeper, rfl⟩

/-! ## The same resolution with and without the limit -/

/-- The limit plays no part in finding what stands for a placeholder. -/
theorem next_bottomless (frame : Frame) (placeholder : Placeholder) :
    next rules.bottomless world root frame placeholder =
      next (rules.limitedTo limit) world root frame placeholder := rfl

/-- Entering a text stops early if the text is nested too deep. -/
theorem upTo_enter (frame : Frame) (written : Written) :
    UpTo limit root (enter rules.bottomless world root frame written)
      (enter (rules.limitedTo limit) world root frame written) := by
  simp only [enter, Bind.bind]
  refine (UpTo.note id).bind fun _ _ => ?_
  rw [next_bottomless]
  refine UpTo.bind (.whole ?_) ?_
  · -- Asking enters nothing.
    intro event happened
    obtain ⟨_, _, rfl⟩ | ⟨_, _, rfl⟩ := mem_log_next happened
    · exact id
    · exact id
  · rintro ⟨cause, inner⟩ -
    by_cases deep : limit < inner.depth
    · simp only [checkDepth, Rules.limitedTo, if_pos deep]
      exact .of_deep deep fun _ => .pure inner
    · simp only [checkDepth, Rules.limitedTo, if_neg deep]
      have entered : ¬ (Event.entered cause inner).Beyond limit := deep
      exact (UpTo.note entered).bind fun _ _ => .whole (List.forall_mem_nil _)

/-- **A resolution with the limit is the one without it up to the first text that is nested too
deep.** -/
theorem upTo_fill (steps : Nat) (frame : Frame) (text : List Char) :
    UpTo limit root (fill rules.bottomless world root steps frame text)
      (fill (rules.limitedTo limit) world root steps frame text) := by
  induction steps generalizing frame text with
  | zero => exact .whole (List.forall_mem_nil _)
  | succ steps ih =>
    cases first : Occurrence.find? text with
    | none =>
      rw [fill_of_find?_eq_none first, fill_of_find?_eq_none first]
      exact .whole (List.forall_mem_nil _)
    | some found =>
      rw [fill_of_find?_eq_some first, fill_of_find?_eq_some first]
      refine (upTo_enter frame found.written).bind fun inner _ => ?_
      refine (ih inner inner.property.value.toList).bind fun value _ => ?_
      exact ih frame (found.before ++ (value ++ found.after))

/-! ## Whole resolutions -/

/-- A resolution for a user has a limit. -/
theorem resolveBy_limitedTo (world : World) (steps : Nat) (property : Property) (root : Placed)
    (configType : String) :
    resolveBy (Rules.standard.limitedTo 64) world steps property root configType =
      resolve world steps property root configType := rfl

theorem upTo_resolveBy (world : World) (root : Placed) (steps : Nat) (property : Property)
    (configType : String) :
    UpTo limit root (resolveBy rules.bottomless world steps property root configType)
      (resolveBy (rules.limitedTo limit) world steps property root configType) := by
  rw [resolveBy_eq, resolveBy_eq]
  exact (upTo_fill steps _ _).bind fun value _ => .whole (List.forall_mem_nil _)

/-- The depth of a text that is entered is the number of placeholders in whose place it stands. -/
theorem exists_calls_of_entered {steps : Nat} {property : Property} {configType : String}
    {cause : Cause} {inner : Frame}
    (happened : .entered cause inner ∈
      (resolveBy rules world steps property root configType).log) :
    ∃ calls last placeholder,
      Meets rules world root (.top property configType) property.value.toList
        calls last placeholder ∧
      StandsFor rules world root last placeholder cause inner ∧
      inner.depth = calls.length + 1 := by
  rw [log_resolveBy] at happened
  obtain ⟨calls, last, placeholder, meets, stands⟩ :=
    exists_path_of_entered (within_top rules property configType) happened
  refine ⟨calls, last, placeholder, meets, stands, ?_⟩
  have deeper := (meets.path stands).depth_eq
  rw [List.length_cons] at deeper
  rw [deeper]
  exact Nat.zero_add _

/-- The first text that is nested too deep is too deep by one. -/
theorem depth_le_of_entered {steps : Nat} {property : Property} {configType : String}
    {cause : Cause} {inner : Frame}
    (happened : .entered cause inner ∈
      (resolveBy (rules.limitedTo limit) world steps property root configType).log) :
    inner.depth ≤ limit + 1 := by
  rw [log_resolveBy] at happened
  obtain ⟨calls, last, placeholder, meets, stands⟩ :=
    exists_path_of_entered (within_top _ property configType) happened
  obtain ⟨_, within, _⟩ := meets
  have shallow := (within_iff rfl).mp within
  rw [stands.depth_eq]
  omega

/-- **The depth limit is exact, and is not seen unless it strikes.** The resolution without the
limit is `bottomless`.

* When it enters no text that is nested deeper than 64, the limit changes nothing.
* When the limit is not what a resolution fails for, the limit changes nothing either.
* When it enters a text that is nested deeper, the limit strikes at the first such text, which is
  nested in 65 others. The resolution does the same up to there and then fails, with this budget
  and with every larger one: nobody is asked any more, and no default is taken.
* The depth of a text that is entered is the number of placeholders in whose place it stands. -/
theorem resolve_upTo_limit (world : World) (property : Property) (root : Placed)
    (configType : String) (steps : Nat) :
    let bottomless := resolveBy Rules.standard.bottomless world steps property root configType
    ((∀ cause inner, .entered cause inner ∈ bottomless.log → inner.depth ≤ 64) →
      resolve world steps property root configType = bottomless) ∧
    ((∀ source, (resolve world steps property root configType).outcome ≠
        .failed (.tooDeep 64 source root)) →
      resolve world steps property root configType = bottomless) ∧
    (∀ cause deeper, .entered cause deeper ∈ bottomless.log → 64 < deeper.depth →
      ∃ earlier cause inner later, bottomless.log = earlier ++ .entered cause inner :: later ∧
        (∀ cause outer, .entered cause outer ∈ earlier → outer.depth ≤ 64) ∧
        inner.depth = 65 ∧
        ∀ more, steps ≤ more → resolve world more property root configType =
          ⟨earlier ++ [.entered cause inner], .failed (.tooDeep 64 inner.property root)⟩) ∧
    ∀ cause inner, .entered cause inner ∈ bottomless.log → ∃ calls last placeholder,
      Meets Rules.standard.bottomless world root (.top property configType)
        property.value.toList calls last placeholder ∧
      StandsFor Rules.standard.bottomless world root last placeholder cause inner ∧
      inner.depth = calls.length + 1 := by
  intro bottomless
  have upTo (steps : Nat) : UpTo 64 root
      (resolveBy Rules.standard.bottomless world steps property root configType)
      (resolve world steps property root configType) :=
    upTo_resolveBy world root steps property configType
  refine ⟨?_, (upTo steps).eq_of_ne_tooDeep, ?_, fun _ _ => exists_calls_of_entered⟩
  · intro shallow
    apply (upTo steps).eq_of_shallow
    intro event happened
    cases event with
    | entered cause inner => exact Nat.not_lt.mpr (shallow cause inner happened)
    | met => exact id
    | located => exact id
    | asked => exact id
  · -- Up to the first text that is too deep all are within the limit, so it is too deep by one.
    intro cause deeper happened deep
    obtain ⟨earlier, cause, inner, later, split, shallow, beyond, stops⟩ :=
      (upTo steps).exists_cut happened deep
    refine ⟨earlier, cause, inner, later, split, ?_, ?_, ?_⟩
    · intro cause outer before
      exact Nat.not_lt.mp (shallow _ before)
    · have entered : .entered cause inner ∈
          (resolveBy (Rules.standard.limitedTo 64) world steps property root configType).log := by
        rw [resolveBy_limitedTo, stops]
        exact List.mem_append_right _ (List.mem_singleton_self _)
      have atMost := depth_le_of_entered entered
      omega
    · intro more larger
      rw [← stops, ← resolveBy_limitedTo, ← resolveBy_limitedTo, resolveBy_of_le larger]
      rw [resolveBy_limitedTo, stops]
      exact nofun

end DeployConfig.Resolution
