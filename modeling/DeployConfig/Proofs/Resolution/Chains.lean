import DeployConfig.Proofs.Resolution.Paths

/-!
# What is being expanded

A resolution hands a chain of references down to every text that it enters. It is used twice: its
references may override what a component says of itself, and coming back to one of them is a cycle.
This module says what the chain is at any time, without following how it was handed down.

`openReferences` reads it off the path to a text: the references whose answers are being expanded,
as far as they belong to the config type of the text. A default adds nothing to it, and neither does
anything that is not on the path any more. No two of these references are equal, and they are no
more than the texts that the text is nested in. So an error tells the truth (`resolve_chains`): a
cycle is reported with a chain in which nothing but its last reference occurs twice, and every error
names the root that the resolution was started for.
-/

set_option autoImplicit false

namespace DeployConfig

/-- What an error says about a reference that was taken up for a root while the references of
`expanded` were being expanded, oldest first. -/
def ResolutionError.IsAbout (root : Placed) (expanded : List Placeholder)
    (reference : Placeholder) : ResolutionError → Prop
  | .unresolved placeholder _ owner => placeholder = reference ∧ owner = root
  | .cyclic chain _ owner =>
    chain = expanded ++ [reference] ∧ (expanded.map Placeholder.reference).Nodup ∧
      (expanded.map Placeholder.reference).count reference.reference = 1 ∧ owner = root
  | .unsupportedConfigType _ _ => True
  | .tooDeep _ _ owner => owner = root
  | .lookup placeholder _ => placeholder = reference

namespace Resolution

variable {rules : Rules} {world : World} {root : Placed} {top frame last inner : Frame}
  {start final : List Char} {placeholder : Placeholder} {calls : List Call} {cause : Cause}

/-! ## Open references -/

/-- The references that are being expanded behind a call, if those of `chain` are before it. -/
def Call.extend (call : Call) (chain : List Placeholder) : List Placeholder :=
  match call.cause with
  | .delegated => []
  | .found => call.frame.named call.placeholder :: chain
  | .fallback => chain

/-- The references whose answers are being expanded at the end of a path, latest first, since the
last change of the config type. -/
def openReferences : List Call → List Placeholder
  | [] => []
  | call :: calls => call.extend (openReferences calls)

/-- There is no more than one open reference for a call. -/
theorem length_openReferences_le (calls : List Call) :
    (openReferences calls).length ≤ calls.length := by
  induction calls with
  | nil => exact Nat.le_refl 0
  | cons call calls ih =>
    obtain ⟨frame, placeholder, cause⟩ := call
    cases cause with
    | delegated => exact Nat.zero_le _
    | found => exact Nat.succ_le_succ ih
    | fallback => exact Nat.le_succ_of_le ih

/-! ## The chain of a text -/

/-- What a step hands down. -/
theorem StandsFor.chain_eq (stands : StandsFor rules world root frame placeholder cause inner) :
    inner.chain = Call.extend ⟨frame, placeholder, cause⟩ frame.chain := by
  cases stands <;> rfl

/-- **The chain of a text lists the open references.** -/
theorem Path.chain_eq (path : Path rules world root top start calls last final)
    (fresh : top.chain = []) : last.chain = openReferences calls := by
  induction path with
  | here => exact fresh
  | turn _ _ ih => exact ih
  | enter _ _ _ stands ih => rw [stands.chain_eq, ih, openReferences]

/-- A reference is being expanded when the chain holds an equal one. -/
theorem Frame.expands_iff {reference : Placeholder} :
    frame.expands reference = true ↔
      reference.reference ∈ frame.chain.map Placeholder.reference := by
  simp only [Frame.expands, List.any_eq_true, List.mem_map, beq_iff_eq]

/-- A step keeps the references of a chain apart. -/
theorem StandsFor.nodup (refuses : rules.refusesCycles = true)
    (stands : StandsFor rules world root frame placeholder cause inner)
    (distinct : (frame.chain.map Placeholder.reference).Nodup) :
    (inner.chain.map Placeholder.reference).Nodup := by
  cases stands with
  | delegated _ _ => exact List.nodup_nil
  | found _ _ unopened =>
    -- Here the duplicate test is needed: it has passed, so the new reference is not in the chain.
    refine List.nodup_cons.mpr ⟨fun again => ?_, distinct⟩
    rw [Frame.expands_iff.mpr again] at unopened
    cases unopened refuses
  | fallback _ _ _ => exact distinct

/-- **No reference is open twice.** -/
theorem Path.nodup (refuses : rules.refusesCycles = true)
    (path : Path rules world root top start calls last final) (fresh : top.chain = []) :
    (last.chain.map Placeholder.reference).Nodup := by
  induction path with
  | here =>
    rw [fresh]
    exact List.nodup_nil
  | turn _ _ ih => exact ih
  | enter _ _ _ stands ih => exact stands.nodup refuses ih

/-! ## What errors say -/

/-- What a placeholder is rejected with is about the reference and the open ones. -/
theorem Rejects.isAbout {error : ResolutionError}
    (rejects : Rejects rules world root frame placeholder error)
    (distinct : (frame.chain.map Placeholder.reference).Nodup) :
    error.IsAbout root frame.chain.reverse (frame.named placeholder) := by
  cases rejects with
  | unsupported _ _ => trivial
  | unconfigured _ _ => trivial
  | lookup _ _ _ => rfl
  | cyclic _ _ _ again =>
    have once := List.count_eq_one_of_mem distinct (Frame.expands_iff.mp again)
    refine ⟨List.reverse_cons, ?_, ?_, rfl⟩
    · rw [List.map_reverse]
      exact List.nodup_reverse.mpr distinct
    · rw [List.map_reverse, List.count_reverse, once]
  | unresolved _ _ _ => exact ⟨rfl, rfl⟩

/-- The error for a text that is nested too deep names the root. -/
theorem isAbout_of_checkDepth {expanded : List Placeholder} {reference : Placeholder}
    {error : ResolutionError} (deep : (checkDepth rules root frame).outcome = .failed error) :
    error.IsAbout root expanded reference := by
  unfold checkDepth at deep
  split at deep
  · split at deep <;> cases deep
    rfl
  · cases deep

/-- **Chains are what they are meant to be.** Wherever a resolution is, the chain of the text lists
the open references, no two of them equal and no more than there are texts around it. Every text
that a run enters is reached on such a path, and every error of a run is about a reference that is
taken up at the end of one. -/
theorem resolve_chains (world : World) (property : Property) (root : Placed)
    (configType : String) :
    (∀ calls last final,
      Path .standard world root (.top property configType) property.value.toList
          calls last final →
        last.chain = openReferences calls ∧ (last.chain.map Placeholder.reference).Nodup ∧
          last.depth = calls.length ∧ last.chain.length ≤ last.depth) ∧
      (∀ steps cause inner,
        .entered cause inner ∈ (resolve world steps property root configType).log →
          ∃ calls last placeholder,
            Path .standard world root (.top property configType) property.value.toList
              (⟨last, placeholder, cause⟩ :: calls) inner inner.property.value.toList) ∧
      ∀ steps error, (resolve world steps property root configType).outcome = .failed error →
        ∃ calls last placeholder,
          Meets .standard world root (.top property configType) property.value.toList
            calls last placeholder ∧
          error.IsAbout root (openReferences calls).reverse (last.named placeholder) := by
  have shallow := within_top .standard property configType
  refine ⟨fun calls last final path => ?_, fun steps cause inner happened => ?_,
    fun steps error fails => ?_⟩
  · have depth : last.depth = calls.length := by rw [path.depth_eq, Frame.top, Nat.zero_add]
    refine ⟨path.chain_eq rfl, path.nodup rfl rfl, depth, ?_⟩
    rw [path.chain_eq rfl, depth]
    exact length_openReferences_le calls
  · rw [log_resolve] at happened
    obtain ⟨calls, last, placeholder, meets, stands⟩ := exists_path_of_entered shallow happened
    exact ⟨calls, last, placeholder, meets.path stands⟩
  · rw [outcome_resolve_eq_failed_iff] at fails
    obtain ⟨calls, last, placeholder, meets, reason⟩ := exists_path_of_failed shallow fails
    refine ⟨calls, last, placeholder, meets, ?_⟩
    obtain ⟨path, _, _⟩ := meets
    rw [← path.chain_eq rfl]
    obtain rejects | ⟨_, _, _, deep⟩ := reason
    · exact rejects.isAbout (path.nodup rfl rfl)
    · exact isAbout_of_checkDepth deep

end Resolution

end DeployConfig
