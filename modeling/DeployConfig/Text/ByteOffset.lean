/-!
# Byte offsets

Positions in a text are counted in bytes of its UTF-8 form. `byteSize` measures a list of
characters, and `dropBytes?` moves to a position; it has no answer for a position inside a
character or past the end.
-/

set_option autoImplicit false

namespace DeployConfig.Text

/-- The length of the UTF-8 form. -/
def byteSize : List Char → Nat
  | [] => 0
  | c :: rest => c.utf8Size + byteSize rest

/-- The text from byte `offset` on, when `offset` lies on a character boundary. -/
def dropBytes? (offset : Nat) (text : List Char) : Option (List Char) :=
  match offset, text with
  | 0, text => some text
  | _ + 1, [] => none
  | offset + 1, c :: rest =>
    if c.utf8Size ≤ offset + 1 then dropBytes? (offset + 1 - c.utf8Size) rest else none
  termination_by text.length

theorem byteSize_append (first second : List Char) :
    byteSize (first ++ second) = byteSize first + byteSize second := by
  induction first with
  | nil => simp [byteSize]
  | cons c rest ih => simp [byteSize, ih, Nat.add_assoc]

/-- Moving past a front part of a text leaves the rest. -/
theorem dropBytes?_append (front rest : List Char) :
    dropBytes? (byteSize front) (front ++ rest) = some rest := by
  induction front with
  | nil => cases rest <;> simp [byteSize, dropBytes?]
  | cons c front ih =>
    have positive := c.utf8Size_pos
    obtain ⟨offset, split⟩ : ∃ offset, byteSize (c :: front) = offset + 1 :=
      ⟨byteSize (c :: front) - 1, by simp only [byteSize]; omega⟩
    rw [split, List.cons_append, dropBytes?, ← split]
    have small : c.utf8Size ≤ byteSize (c :: front) := by simp only [byteSize]; omega
    rw [if_pos small]
    simpa [byteSize] using ih

/-- An offset lies on a character boundary of a text, which may be its end. -/
def IsBoundary (text : List Char) (offset : Nat) : Prop :=
  ∃ front rest, text = front ++ rest ∧ byteSize front = offset

/-- Moving to an offset leaves what follows the characters that take up as many bytes. -/
theorem dropBytes?_eq_some_iff {offset : Nat} {text rest : List Char} :
    dropBytes? offset text = some rest ↔
      ∃ front, text = front ++ rest ∧ byteSize front = offset := by
  constructor
  · intro moved
    induction offset, text using dropBytes?.induct with
    | case1 text =>
      rw [dropBytes?] at moved
      cases moved
      exact ⟨[], rfl, rfl⟩
    | case2 offset =>
      rw [dropBytes?] at moved
      cases moved
    | case3 offset c text fits ih =>
      rw [dropBytes?, if_pos fits] at moved
      obtain ⟨front, rfl, size⟩ := ih moved
      exact ⟨c :: front, rfl, by rw [byteSize, size]; omega⟩
    | case4 offset c text large =>
      rw [dropBytes?, if_neg large] at moved
      cases moved
  · rintro ⟨front, rfl, rfl⟩
    exact dropBytes?_append front rest

/-- Moving fails exactly where there is no boundary. -/
theorem dropBytes?_eq_none_iff {offset : Nat} {text : List Char} :
    dropBytes? offset text = none ↔ ¬ IsBoundary text offset := by
  constructor
  · rintro none ⟨front, rest, split, size⟩
    rw [dropBytes?_eq_some_iff.mpr ⟨front, split, size⟩] at none
    cases none
  · intro inside
    cases moved : dropBytes? offset text with
    | none => rfl
    | some rest =>
      obtain ⟨front, split, size⟩ := dropBytes?_eq_some_iff.mp moved
      exact absurd ⟨front, rest, split, size⟩ inside

/-- Of two front parts of a text the one with more characters has more bytes. -/
theorem byteSize_lt_of_length_lt {first second rest other : List Char}
    (same : first ++ rest = second ++ other) (shorter : first.length < second.length) :
    byteSize first < byteSize second := by
  obtain ⟨middle, rfl⟩ : first <+: second :=
    List.prefix_of_prefix_length_le ⟨rest, rfl⟩ ⟨other, same.symm⟩ (Nat.le_of_lt shorter)
  cases middle with
  | nil => simp at shorter
  | cons c middle =>
    have positive := c.utf8Size_pos
    rw [byteSize_append, byteSize]
    omega

theorem length_lt_of_byteSize_lt {first second rest other : List Char}
    (same : first ++ rest = second ++ other) (smaller : byteSize first < byteSize second) :
    first.length < second.length := by
  rcases Nat.lt_trichotomy first.length second.length with shorter | equal | longer
  · exact shorter
  · rw [(List.append_inj same equal).1] at smaller
    exact absurd smaller (Nat.lt_irrefl _)
  · exact absurd (byteSize_lt_of_length_lt same.symm longer) (Nat.lt_asymm smaller)

end DeployConfig.Text
