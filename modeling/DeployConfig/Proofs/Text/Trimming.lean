import DeployConfig.Text.Blank
import Mathlib.Data.List.DropRight

/-!
# Trimming

Trimming takes the blank characters at both ends of a text away and nothing else: a character that
is not blank stays (`mem_trim_of_not_blank`), and no blank is left at an end (`trim_trim`). What
blank characters are put around a text makes no difference to it (`trim_append_left`,
`trim_append_right`).
-/

set_option autoImplicit false

namespace DeployConfig.Text

variable {drop : Char → Bool} {text : List Char} {c : Char}

/-! ## What trimming removes -/

/-- Nothing is removed from the end when the last character is to stay. -/
theorem dropWhileEnd_concat_of_false (text : List Char) (stays : drop c = false) :
    dropWhileEnd drop (text ++ [c]) = text ++ [c] := by
  simp [dropWhileEnd, stays]

theorem dropWhileEnd_concat_of_true (text : List Char) (drops : drop c = true) :
    dropWhileEnd drop (text ++ [c]) = dropWhileEnd drop text := by
  simp [dropWhileEnd, drops]

theorem dropWhileEnd_of_forall (stay : ∀ c ∈ text, drop c = false) :
    dropWhileEnd drop text = text := by
  rcases List.eq_nil_or_concat text with rfl | ⟨front, last, rfl⟩
  · rfl
  · rw [List.concat_eq_append] at stay ⊢
    exact dropWhileEnd_concat_of_false front (stay last (by simp))

theorem mem_of_mem_dropWhileEnd (member : c ∈ dropWhileEnd drop text) : c ∈ text := by
  rw [dropWhileEnd, List.mem_reverse] at member
  exact List.mem_reverse.mp ((List.dropWhile_sublist drop).subset member)

/-- A character that is not dropped stays where it is. -/
theorem mem_dropWhile_of_false (member : c ∈ text) (stays : drop c = false) :
    c ∈ text.dropWhile drop := by
  rw [← List.takeWhile_append_dropWhile (p := drop) (l := text), List.mem_append] at member
  rcases member with dropped | kept
  · rw [List.mem_takeWhile_imp dropped] at stays
    cases stays
  · exact kept

theorem mem_dropWhileEnd_of_false (member : c ∈ text) (stays : drop c = false) :
    c ∈ dropWhileEnd drop text := by
  rw [dropWhileEnd, List.mem_reverse]
  exact mem_dropWhile_of_false (List.mem_reverse.mpr member) stays

theorem mem_of_mem_trim (member : c ∈ trim text) : c ∈ text :=
  (List.dropWhile_sublist isBlank).subset (mem_of_mem_dropWhileEnd member)

/-- Trimming keeps every character that is not blank. -/
theorem mem_trim_of_not_blank (member : c ∈ text) (filled : isBlank c = false) : c ∈ trim text :=
  mem_dropWhileEnd_of_false (mem_dropWhile_of_false member filled) filled

/-- What is left after trimming does not start with a blank. -/
theorem trimStart_trim (text : List Char) : trimStart (trim text) = trim text := by
  have start : trim text <+: trimStart text := List.rdropWhile_prefix isBlank (trimStart text)
  refine List.dropWhile_eq_self_iff.mpr fun filled => ?_
  rw [start.getElem filled]
  exact List.dropWhile_get_zero_not isBlank text (filled.trans_le start.length_le)

theorem trimEnd_trim (text : List Char) : trimEnd (trim text) = trim text :=
  List.rdropWhile_idempotent isBlank (trimStart text)

theorem trim_trim (text : List Char) : trim (trim text) = trim text := by
  rw [trim, trimStart_trim, trimEnd_trim]

/-- A text that trimming leaves alone does not end in a blank. -/
theorem not_blank_of_trim_concat (alone : trim (text ++ [c]) = text ++ [c]) :
    isBlank c = false := by
  have ends : trimEnd (text ++ [c]) = text ++ [c] := by
    rw [← alone]
    exact trimEnd_trim (text ++ [c])
  have last := List.rdropWhile_eq_self_iff.mp ends (List.concat_ne_nil c text)
  rwa [List.getLast_concat, Bool.not_eq_true] at last

/-- Only of blank characters nothing is left. -/
theorem trim_eq_nil_iff : trim text = [] ↔ ∀ c ∈ text, isBlank c = true := by
  constructor
  · intro empty c member
    by_contra filled
    have kept := mem_trim_of_not_blank member (Bool.eq_false_iff.mpr filled)
    rw [empty] at kept
    cases kept
  · intro blank
    have start : trimStart text = [] := List.dropWhile_eq_nil_iff.mpr blank
    rw [trim, start]
    rfl

/-! ## Blank characters around a text -/

theorem dropWhileEnd_append_of_pos {back : List Char} (text : List Char)
    (drops : ∀ c ∈ back, drop c = true) :
    dropWhileEnd drop (text ++ back) = dropWhileEnd drop text := by
  have dropsReversed : ∀ c ∈ back.reverse, drop c = true := by
    intro c member
    exact drops c (List.mem_reverse.mp member)
  rw [dropWhileEnd, List.reverse_append, List.dropWhile_append_of_pos dropsReversed, dropWhileEnd]

theorem trim_append_left {front : List Char} (blank : ∀ c ∈ front, isBlank c = true)
    (text : List Char) : trim (front ++ text) = trim text := by
  rw [trim, trimStart, List.dropWhile_append_of_pos blank]
  rfl

theorem trim_append_right {back : List Char} (blank : ∀ c ∈ back, isBlank c = true)
    (text : List Char) : trim (text ++ back) = trim text := by
  by_cases empty : ∀ c ∈ text, isBlank c = true
  · have whole : ∀ c ∈ text ++ back, isBlank c = true := List.forall_mem_append.mpr ⟨empty, blank⟩
    rw [trim_eq_nil_iff.mpr empty, trim_eq_nil_iff.mpr whole]
  · have filled : (text.dropWhile isBlank).isEmpty ≠ true := by
      rwa [ne_eq, List.isEmpty_iff, List.dropWhile_eq_nil_iff]
    rw [trim, trimStart, List.dropWhile_append, if_neg filled]
    exact dropWhileEnd_append_of_pos _ blank

/-! ## Cutting -/

theorem cut?_append_cons {separates : Char → Bool} {before : List Char}
    (plain : ∀ d ∈ before, separates d = false) (marked : separates c = true) (after : List Char) :
    cut? separates (before ++ c :: after) = some (before, after) := by
  have unmarked : ∀ d ∈ before, (!separates d) = true := by
    intro d member
    rw [plain d member, Bool.not_false]
  simp [cut?, List.dropWhile_append_of_pos unmarked, List.takeWhile_append_of_pos unmarked, marked]

end DeployConfig.Text
