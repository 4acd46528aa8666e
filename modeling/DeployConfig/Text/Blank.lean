/-!
# Blank characters and trimming

The texts that people write into declarations, group entries and include lists may carry white
space around their parts. A character is blank when it has the Unicode property White_Space; the
functions here remove blank characters from the ends of a text and cut a text at the first
character of a class. They work on lists of characters, so that the laws of `takeWhile` and
`dropWhile` apply to them.
-/

set_option autoImplicit false

namespace DeployConfig.Text

/-- The characters with the Unicode property White_Space. -/
def isBlank (c : Char) : Bool :=
  c == ' ' || ('\t' ≤ c && c ≤ '\r') || c == '\u0085' || c == '\u00a0' || c == '\u1680' ||
    ('\u2000' ≤ c && c ≤ '\u200a') || c == '\u2028' || c == '\u2029' || c == '\u202f' ||
    c == '\u205f' || c == '\u3000'

/-- Removes the longest run of characters satisfying `drop` from the end. -/
def dropWhileEnd (drop : Char → Bool) (text : List Char) : List Char :=
  (text.reverse.dropWhile drop).reverse

/-- Removes the blank characters at the start. -/
def trimStart (text : List Char) : List Char :=
  text.dropWhile isBlank

/-- Removes the blank characters at the end. -/
def trimEnd (text : List Char) : List Char :=
  dropWhileEnd isBlank text

/-- Removes the blank characters at both ends. -/
def trim (text : List Char) : List Char :=
  trimEnd (trimStart text)

/-- Cuts a text at its first character satisfying `separates`; that character is left out of both
parts. There is no answer when no character does. -/
def cut? (separates : Char → Bool) (text : List Char) : Option (List Char × List Char) :=
  match text.dropWhile (fun c => !separates c) with
  | [] => none
  | _ :: rest => some (text.takeWhile (fun c => !separates c), rest)

/-- The text without a leading `opening`, if it starts with it. -/
def dropOpening? (opening text : List Char) : Option (List Char) :=
  opening.isPrefixOf? text

/-- Cuts a text at every character satisfying `separates`. The parts between two neighbouring
separators are empty; a text without a separator is its own only part. -/
def splitAll (separates : Char → Bool) : List Char → List (List Char)
  | [] => [[]]
  | c :: rest =>
    if separates c then [] :: splitAll separates rest
    else
      match splitAll separates rest with
      | [] => [[c]]
      | part :: parts => (c :: part) :: parts

/-- `trim` on strings. -/
def trimmed (text : String) : String :=
  String.ofList (trim text.toList)

/-- Writes every `old` character as `new`. -/
def substitute (old new : Char) (text : String) : String :=
  String.ofList (text.toList.map fun c => if c = old then new else c)

/-! ## Small laws -/

theorem cut?_eq_some {separates : Char → Bool} {text before after : List Char}
    (found : cut? separates text = some (before, after)) :
    ∃ c, separates c = true ∧ text = before ++ c :: after ∧
      ∀ d ∈ before, separates d = false := by
  unfold cut? at found
  split at found
  · simp at found
  · next c rest split =>
    simp only [Option.some.injEq, Prod.mk.injEq] at found
    obtain ⟨rfl, rfl⟩ := found
    refine ⟨c, ?_, ?_, ?_⟩
    · have := List.head?_dropWhile_not (fun c => !separates c) text
      rw [split] at this
      simpa using this
    · rw [← split, List.takeWhile_append_dropWhile]
    · intro d member
      have := List.all_takeWhile (p := fun c => !separates c) (l := text)
      rw [List.all_eq_true] at this
      simpa using this d member

theorem cut?_eq_none {separates : Char → Bool} {text : List Char} :
    cut? separates text = none ↔ ∀ c ∈ text, separates c = false := by
  unfold cut?
  split
  · next ended =>
    have whole := List.takeWhile_append_dropWhile (p := fun c => !separates c) (l := text)
    have held := List.all_takeWhile (p := fun c => !separates c) (l := text)
    rw [ended, List.append_nil] at whole
    rw [whole, List.all_eq_true] at held
    simpa using held
  · next c rest ended =>
    have kept : c ∈ text :=
      (List.dropWhile_sublist _).subset (ended ▸ List.mem_cons_self)
    have separator := List.head?_dropWhile_not (fun c => !separates c) text
    rw [ended] at separator
    simp only [reduceCtorEq, false_iff]
    intro none
    simp [none c kept] at separator

end DeployConfig.Text
