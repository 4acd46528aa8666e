import DeployConfig.Proofs.Placeholder.Scanning
import Mathlib

/-!
# What a search depends on

A text around placeholders changes while they are replaced, and is searched again. This module says
which changes a search notices.

In front of the place where it starts it notices nothing (`Span.find?_behind`). Characters without
`$` in front of a text only move what is found (`Span.find?_append_of_plain`). Behind a placeholder
the search notices nothing either, provided that the placeholder is closed behind its key or that
its default is balanced (`Occurrence.IsFirst.append`). What has to be shown for this is that no
placeholder that comes earlier is completed by the characters behind the text. A placeholder has no
`$` in front of its default but the one that opens it (`Written.WellFormed.dollar_not_mem_lead`). So
one that comes earlier has its key in front of the placeholder that was found, whose brace closes
it if nothing else does (`Occurrence.starts_of_starts_append`).

A default that is closed by the last brace of the text is another one when a brace follows. The main
result, `Span.find?_local`, says that it is the only exception.
-/

set_option autoImplicit false

namespace DeployConfig

/-! ## Where two splits of a text meet -/

/-- A front part of a text in which some character is absent ends in front of that character. -/
theorem Text.exists_append_of_not_mem {c : Char} {front rest before after : List Char}
    (absent : c ∉ front) (same : before ++ c :: after = front ++ rest) :
    ∃ middle, before = front ++ middle ∧ rest = middle ++ c :: after := by
  rcases List.append_eq_append_iff.mp same with ⟨middle, split, ends⟩ | ⟨middle, split, ends⟩
  · cases middle with
    | nil => exact ⟨[], by simpa using split.symm, by simpa using ends.symm⟩
    | cons d middle =>
      obtain ⟨rfl, _⟩ := List.cons.inj ends
      exact absurd (split ▸ by simp) absent
  · exact ⟨middle, split, ends⟩

/-- Of two splits of a text, those with fronts of the same size are the same. -/
theorem Text.append_inj_of_byteSize {first second rest other : List Char}
    (same : first ++ rest = second ++ other) (size : byteSize first = byteSize second) :
    first = second ∧ rest = other := by
  refine List.append_inj same (Nat.le_antisymm ?_ ?_)
  · refine Nat.le_of_not_lt fun longer => ?_
    exact Nat.ne_of_gt (byteSize_lt_of_length_lt same.symm longer) size
  · refine Nat.le_of_not_lt fun longer => ?_
    exact Nat.ne_of_lt (byteSize_lt_of_length_lt same longer) size

/-! ## The pieces in front of a default -/

namespace Written

variable {text after run : List Char} {member : Char → Bool} {c : Char} {written : Written}

/-- The text of a placeholder behind its `$` and up to its key. -/
def lead (written : Written) : List Char :=
  '{' :: (qualified written.configType ++
    (written.component ++ (bracketed written.environment ++ '@' :: written.key)))

theorem characters_append_eq_lead (written : Written) (after : List Char) :
    written.characters ++ after = '$' :: (lead written ++ ending written.fallback after) := by
  simp [characters_append, lead]

theorem IsRun.not_mem (isRun : IsRun member run) (other : member c = false) : c ∉ run :=
  fun inside => Bool.false_ne_true (other.symm.trans (isRun.2 c inside))

/-- Only its first character can open a placeholder, up to its key. -/
theorem WellFormed.dollar_not_mem_lead (wellFormed : WellFormed text written after) :
    '$' ∉ lead written := by
  have identifier : isIdentifierChar '$' = false := by decide
  have typed : '$' ∉ qualified written.configType := by
    cases given : written.configType with
    | none => exact List.not_mem_nil
    | some name => simpa [qualified] using (wellFormed.configType name given).not_mem identifier
  have placed : '$' ∉ bracketed written.environment := by
    cases given : written.environment with
    | none => exact List.not_mem_nil
    | some name => simpa [bracketed] using (wellFormed.environment name given).not_mem identifier
  have named := wellFormed.component.not_mem identifier
  have keyed := wellFormed.key.not_mem (by decide : isKeyChar '$' = false)
  simp [lead, typed, named, placed, keyed]

/-- A placeholder without a default, or with a balanced one, is read whatever follows. -/
theorem WellFormed.append (wellFormed : WellFormed text written after)
    (balances : ∀ fallback, written.fallback = some fallback → Balances fallback)
    (more : List Char) : WellFormed (text ++ more) written (after ++ more) where
  characters := by rw [wellFormed.characters, List.append_assoc]
  configType := wellFormed.configType
  component := wellFormed.component
  environment := wellFormed.environment
  key := wellFormed.key
  fallback := fun fallback given => .inl (balances fallback given)

/-- A default that ends in front of another brace is balanced. -/
theorem WellFormed.balances (wellFormed : WellFormed text written after) (closing : '}' ∈ after) :
    ∀ fallback, written.fallback = some fallback → Balances fallback := by
  intro fallback given
  refine (wellFormed.fallback fallback given).resolve_right ?_
  rintro ⟨last, _⟩
  exact last closing

end Written

/-! ## Characters behind a text -/

namespace Occurrence

open Written

variable {text front back more : List Char} {found : Occurrence}

/-- A placeholder that starts in front of a `$` with a brace behind it needs no more than that. -/
theorem starts_of_starts_append (before : front ≠ []) (closing : '}' ∈ back)
    (starts : Starts (front ++ '$' :: (back ++ more))) : Starts (front ++ '$' :: back) := by
  obtain ⟨written, after, wellFormed⟩ := starts
  obtain ⟨d, front, rfl⟩ := List.exists_cons_of_ne_nil before
  have split := wellFormed.characters
  rw [characters_append_eq_lead, List.cons_append] at split
  obtain ⟨rfl, inside⟩ := List.cons.inj split
  obtain ⟨middle, rfl, ends⟩ :=
    Text.exists_append_of_not_mem wellFormed.dollar_not_mem_lead inside
  obtain ⟨configType, component, environment, key, fallback⟩ := written
  obtain ⟨_, typed, named, placed, keyed, _⟩ := wellFormed
  cases fallback with
  | none =>
    cases middle with
    | nil => cases ends
    | cons e middle =>
      obtain ⟨rfl, _⟩ := List.cons.inj ends
      refine ⟨_, middle ++ '$' :: back, ?_, typed, named, placed, keyed, nofun⟩
      rw [characters_append_eq_lead]
      simp [ending, lead]
  | some inner =>
    cases middle with
    | nil => cases ends
    | cons e middle =>
      obtain ⟨rfl, _⟩ := List.cons.inj ends
      -- What the default is may depend on what follows, but there is one in any case.
      obtain ⟨⟨other, behind⟩, closed⟩ :
          ∃ found, closeDefault (middle ++ '$' :: back) = some found := by
        refine Option.ne_none_iff_exists'.mp fun none => ?_
        exact closeDefault_eq_none_iff.mp none (by simp [closing])
      obtain ⟨whole, closes⟩ := closeDefault_eq_some_iff.mp closed
      refine ⟨⟨configType, component, environment, key, some other⟩, behind, ?_, typed, named,
        placed, keyed, fun _ same => Option.some.inj same ▸ closes⟩
      rw [characters_append_eq_lead]
      simp [ending, lead, ← whole]

/-- **Characters behind a text do not change its first placeholder** if this has no default or a
balanced one. -/
theorem IsFirst.append (first : IsFirst text found)
    (balances : ∀ fallback, found.written.fallback = some fallback → Balances fallback)
    (more : List Char) :
    IsFirst (text ++ more) ⟨found.before, found.written, found.after ++ more⟩ := by
  have behind := first.wellFormed.append balances more
  rw [List.append_assoc] at behind
  refine ⟨?_, behind, ?_⟩
  · rw [first.split]
    simp only [List.append_assoc]
  · intro front back split shorter starts
    obtain ⟨middle, before⟩ : front <+: found.before := by
      refine List.prefix_of_prefix_length_le ⟨back, split.symm⟩ ?_ (Nat.le_of_lt shorter)
      exact ⟨found.written.characters ++ found.after ++ more, by rw [first.split]; simp⟩
    have notAll : middle ≠ [] := by
      rintro rfl
      rw [← before, List.append_nil] at shorter
      exact Nat.lt_irrefl _ shorter
    have rest : text = front ++ (middle ++ (found.written.characters ++ found.after)) := by
      rw [first.split, ← before, List.append_assoc]
    have same : back = middle ++ (found.written.characters ++ found.after) ++ more := by
      rw [rest, List.append_assoc] at split
      exact (List.append_cancel_left split).symm
    refine first.first front _ rest shorter ?_
    rw [same, List.append_assoc, characters_append_eq_lead, List.cons_append] at starts
    rw [characters_append_eq_lead]
    refine starts_of_starts_append notAll ?_ starts
    simp [ending]

end Occurrence

/-! ## Spans -/

namespace Span

variable {text : List Char} {offset : Nat} {span : Span}

/-- The same placeholder, some bytes further on. -/
def shifted (distance : Nat) (span : Span) : Span where
  start := span.start + distance
  stop := span.stop + distance
  written := span.written

theorem shifted_ofOccurrence (front : List Char) (found : Occurrence) :
    shifted (Text.byteSize front) (ofOccurrence [] found) = ofOccurrence front found := by
  simp only [shifted, ofOccurrence, Text.byteSize_append, Text.byteSize, mk.injEq, and_true]
  omega

/-- **Characters in front of the place where a search starts do not matter.** -/
theorem find?_behind (front rest : List Char) :
    find? (front ++ rest) (Text.byteSize front) =
      (find? rest 0).map (shifted (Text.byteSize front)) := by
  rw [find?_append, find?_zero, Option.map_map]
  congr 1
  funext found
  exact (shifted_ofOccurrence front found).symm

/-- **Characters that open nothing only move what is found behind them.** -/
theorem find?_append_of_plain {front : List Char} (plain : '$' ∉ front) (text : List Char) :
    find? (front ++ text) 0 = (find? text 0).map (shifted (Text.byteSize front)) := by
  rw [find?_zero, find?_zero, Occurrence.find?_eq_leftmost?, Occurrence.leftmost?_append plain,
    ← Occurrence.find?_eq_leftmost?, Option.map_map, Option.map_map]
  congr 1
  funext found
  rw [Function.comp_apply, Function.comp_apply, shifted_ofOccurrence]
  rfl

/-- A span is found whatever follows the text exactly when it ends behind its key or its default is
balanced. -/
theorem forall_find?_append_iff (finds : find? text offset = some span) :
    (∀ more, find? (text ++ more) offset = some span) ↔
      ∀ fallback, span.written.fallback = some fallback → Written.Balances fallback := by
  obtain ⟨front, rest, found, rfl, rfl, first, rfl⟩ := find?_eq_some_iff.mp finds
  constructor
  · intro always
    -- With a brace behind the text, the default has to be balanced to stay the same.
    have braced := always ['}']
    rw [List.append_assoc, find?_append] at braced
    obtain ⟨again, there, same⟩ := Option.map_eq_some_iff.mp braced
    have again' := Occurrence.find?_eq_some_iff.mp there
    have written : again.written = found.written := congrArg Span.written same
    have size : Text.byteSize again.before = Text.byteSize found.before := by
      have starts := congrArg Span.start same
      simp only [ofOccurrence, Text.byteSize_append] at starts
      omega
    have split : found.before ++ (found.written.characters ++ (found.after ++ ['}'])) =
        again.before ++ (again.written.characters ++ again.after) := by
      rw [← again'.split, first.split]
      simp only [List.append_assoc]
    have after : found.after ++ ['}'] = again.after := by
      have behind := (Text.append_inj_of_byteSize split size.symm).2
      rw [written] at behind
      exact List.append_cancel_left behind
    have closing : '}' ∈ again.after := by simp [← after]
    intro fallback given
    exact again'.wellFormed.balances closing fallback (written ▸ given)
  · intro balances more
    refine find?_eq_some_iff.mpr ⟨front, rest ++ more, _, ?_, rfl, first.append balances more, rfl⟩
    rw [List.append_assoc]

/-- **A search is local.** A span that is found from some byte on is found as well whatever follows
the text exactly when its placeholder ends behind its key or its default is balanced. Characters
without `$` in front of a text shift the span that is found from its first byte on by their size,
and a search from a byte on finds what is found in the rest of the text, shifted by that byte. -/
theorem find?_local (text : List Char) :
    (∀ offset span, find? text offset = some span →
      ((∀ more, find? (text ++ more) offset = some span) ↔
        ∀ fallback, span.written.fallback = some fallback → Written.Balances fallback)) ∧
    (∀ front, '$' ∉ front →
      find? (front ++ text) 0 = (find? text 0).map (shifted (Text.byteSize front))) ∧
    ∀ front rest, text = front ++ rest →
      find? text (Text.byteSize front) = (find? rest 0).map (shifted (Text.byteSize front)) := by
  refine ⟨fun _ _ => forall_find?_append_iff, ?_, ?_⟩
  · intro front plain
    exact find?_append_of_plain plain text
  · rintro front rest rfl
    exact find?_behind front rest

/-- A text with a placeholder whose default holds nested braces. -/
def portText : String :=
  "ß $\x7bweb@port:#\x7b8\x7d\x7d"

/-- The span of that placeholder. -/
def portSpan : Span :=
  ⟨3, 19, ⟨none, "web".toList, none, "port".toList, some "#\x7b8\x7d".toList⟩⟩

/-- A text with a placeholder whose default has a nested brace that is not closed. -/
def openText : String :=
  "$\x7bweb@port:#\x7b8\x7d"

/-- A brace behind the text does not change the span of the balanced default, but that of the other
one. Five bytes in front of the text shift it by five. -/
theorem find?_portText :
    find? portText.toList 0 = some portSpan ∧
      find? (portText.toList ++ ['}']) 0 = some portSpan ∧
      '$' ∉ "tür=".toList ∧
      find? ("tür=".toList ++ portText.toList) 0 = some (shifted 5 portSpan) ∧
      portText.toList = "ß ".toList ++ "$\x7bweb@port:#\x7b8\x7d\x7d".toList ∧
      find? portText.toList 3 =
        (find? "$\x7bweb@port:#\x7b8\x7d\x7d".toList 0).map (shifted 3) ∧
      find? openText.toList 0 =
        some ⟨0, 15, ⟨none, "web".toList, none, "port".toList, some "#\x7b8".toList⟩⟩ ∧
      ¬ ∀ more, find? (openText.toList ++ more) 0 =
        some ⟨0, 15, ⟨none, "web".toList, none, "port".toList, some "#\x7b8".toList⟩⟩ := by
  have finds : find? portText.toList 0 = some portSpan := by cbv
  have balances : Written.Balances "#\x7b8\x7d".toList :=
    (Written.closeBalanced_eq_some_iff.mp
      (by decide : Written.closeBalanced 0 false "#\x7b8\x7d\x7d".toList =
        some ("#\x7b8\x7d".toList, []))).2
  have plain : '$' ∉ "tür=".toList := by decide
  have split : portText.toList = "ß ".toList ++ "$\x7bweb@port:#\x7b8\x7d\x7d".toList := by decide
  have opens : find? openText.toList 0 =
      some ⟨0, 15, ⟨none, "web".toList, none, "port".toList, some "#\x7b8".toList⟩⟩ := by cbv
  obtain ⟨follows, precedes, skips⟩ := find?_local portText.toList
  refine ⟨finds, ?_, plain, ?_, split, skips _ _ split, opens, ?_⟩
  · refine (follows 0 portSpan finds).mpr ?_ ['}']
    intro fallback given
    exact Option.some.inj given ▸ balances
  · rw [precedes _ plain, finds]
    rfl
  · rw [(find?_local openText.toList).1 0 _ opens]
    intro settled
    exact absurd (settled _ rfl).1 (by decide)

end Span

end DeployConfig
