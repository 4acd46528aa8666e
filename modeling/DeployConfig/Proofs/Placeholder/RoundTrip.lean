import DeployConfig.Placeholder
import DeployConfig.Proofs.Placeholder.Scanning
import Mathlib

/-!
# Placeholders are read as they are written

A placeholder that was found in a text is written down as it stands there, byte for byte, and what
is written is the same placeholder again, without the text around it. That is not evident for a
default: where it ends is decided by the whole text behind it. But the brace that closed it is the
last one of the placeholder, and closes it as well when nothing follows (`WellFormed.alone`).

A placeholder without a bracket has its environment from its context. Written out, it is read again,
as the same reference in every context, exactly when the environment may stand in brackets
(`WellFormed.placed_iff`). The main result is `find?_roundTrip`.
-/

set_option autoImplicit false

namespace DeployConfig

open Written

/-! ## Bytes of a text -/

namespace Text

/-- The bytes that are counted are those of the UTF-8 form. -/
theorem byteSize_eq_utf8ByteSize (text : List Char) :
    byteSize text = (String.ofList text).utf8ByteSize := by
  induction text with
  | nil => rfl
  | cons c rest ih =>
    rw [byteSize, ih, String.ofList_cons, String.utf8ByteSize_append, String.utf8ByteSize_singleton]

/-- Between the end of its front and the end of its middle a text has the bytes of its middle. -/
theorem extract_toUTF8 (front middle after : List Char) :
    (String.ofList (front ++ (middle ++ after))).toUTF8.extract (byteSize front)
      (byteSize (front ++ middle)) = (String.ofList middle).toUTF8 := by
  rw [byteSize_append, byteSize_eq_utf8ByteSize, byteSize_eq_utf8ByteSize]
  simp only [String.toUTF8_eq_toByteArray, String.ofList_append, String.toByteArray_append]
  generalize (String.ofList after).toByteArray = last
  show ((String.ofList front).toByteArray ++ ((String.ofList middle).toByteArray ++ last)).extract
    ((String.ofList front).toByteArray.size + 0)
    ((String.ofList front).toByteArray.size + (String.ofList middle).toByteArray.size) = _
  rw [ByteArray.extract_append_size_add]
  exact ByteArray.extract_append_eq_left rfl

end Text

/-! ## Placeholders by themselves -/

namespace Written

variable {text after : List Char} {written : Written}

/-- A placeholder is written the same whatever follows it. -/
theorem WellFormed.alone (wellFormed : WellFormed text written after) :
    WellFormed written.characters written [] where
  characters := (List.append_nil _).symm
  configType := wellFormed.configType
  component := wellFormed.component
  environment := wellFormed.environment
  key := wellFormed.key
  fallback := fun fallback same => (wellFormed.fallback fallback same).alone

/-- With another type, or none, and with an environment in brackets a placeholder is one exactly
when the environment is a run of identifier characters. -/
theorem WellFormed.placed_iff (wellFormed : WellFormed text written after)
    {configType : Option (List Char)}
    (typed : ∀ name, configType = some name → IsRun isIdentifierChar name) {name : List Char} :
    let placed : Written := { written with configType, environment := some name }
    Occurrence.find? placed.characters = some ⟨[], placed, []⟩ ↔ IsRun isIdentifierChar name := by
  intro placed
  rw [Occurrence.find?_characters_iff]
  constructor
  · intro again
    exact again.environment name rfl
  · intro isRun
    refine ⟨(List.append_nil _).symm, typed, wellFormed.component, ?_, wellFormed.key, ?_⟩
    · rintro _ ⟨⟩
      exact isRun
    · exact wellFormed.alone.fallback

end Written

namespace Placeholder

/-- The text of a placeholder is that of its pieces. -/
theorem toList_text (placeholder : Placeholder) :
    placeholder.text.toList = placeholder.toWritten.characters :=
  String.toList_ofList

/-- A placeholder that was read is written with the pieces that were read. -/
theorem toList_text_ofWritten (written : Written) (environment : String) :
    (ofWritten written environment).text.toList = written.characters := by
  rw [toList_text, toWritten_ofWritten]

/-- The pieces of a placeholder with its environment written out are those that were read, but for
the environment. -/
theorem toWritten_explicit (written : Written) (environment : String) :
    (ofWritten written environment).explicit.toWritten =
      { written with
        environment := some (ofWritten written environment).environment.toList } := by
  obtain ⟨configType, component, named, key, fallback⟩ := written
  cases configType <;> cases fallback <;>
    simp [explicit, toWritten, ofWritten, String.toList_ofList]

/-- A placeholder that names its environment is read in every context as it was written. -/
theorem ofWritten_toWritten_of_named {placeholder : Placeholder} (named : placeholder.named = true)
    (environment : String) : ofWritten placeholder.toWritten environment = placeholder := by
  obtain ⟨configType, component, place, explicitly, key, fallback⟩ := placeholder
  cases named
  cases configType <;> cases fallback <;> simp [toWritten, ofWritten, String.ofList_toList]

end Placeholder

/-! ## Spans -/

namespace Span

variable {text : List Char} {offset : Nat} {span : Span}

/-- A span is that of the first placeholder behind the characters in front of the offset. -/
theorem exists_occurrence (finds : find? text offset = some span) :
    ∃ front rest found, text = front ++ rest ∧ Occurrence.IsFirst rest found ∧
      ofOccurrence front found = span := by
  obtain ⟨front, rest, found, whole, _, first, covers⟩ := find?_eq_some_iff.mp finds
  exact ⟨front, rest, found, whole, first, covers⟩

/-- A placeholder fills its text exactly when its span covers the text. -/
theorem find?_characters_iff {written : Written} :
    find? written.characters 0 = some ⟨0, Text.byteSize written.characters, written⟩ ↔
      Occurrence.find? written.characters = some ⟨[], written, []⟩ := by
  rw [find?_zero]
  constructor
  · intro covers
    obtain ⟨⟨before, found, after⟩, finds, same⟩ := Option.map_eq_some_iff.mp covers
    obtain rfl : found = written := congrArg Span.written same
    have split := (Occurrence.find?_eq_some_iff.mp finds).split
    have sizes := congrArg List.length split
    simp only [List.length_append] at sizes
    obtain rfl : before = [] := List.eq_nil_of_length_eq_zero (by omega)
    obtain rfl : after = [] := List.eq_nil_of_length_eq_zero (by omega)
    exact finds
  · intro fills
    rw [fills]
    rfl

/-- The text of a placeholder is covered by a span with its pieces exactly when its pieces fill the
text that they are written as. -/
theorem find?_text_iff (placeholder : Placeholder) :
    find? placeholder.text.toList 0 =
        some ⟨0, placeholder.text.utf8ByteSize, placeholder.toWritten⟩ ↔
      Occurrence.find? placeholder.toWritten.characters =
        some ⟨[], placeholder.toWritten, []⟩ := by
  have size : placeholder.text.utf8ByteSize = Text.byteSize placeholder.toWritten.characters :=
    (Text.byteSize_eq_utf8ByteSize _).symm
  rw [placeholder.toList_text, size]
  exact find?_characters_iff

/-- **What is found is written as it stands, and read again as it was found.** In the context of any
environment, the placeholder of a span has these properties.

* Its text has exactly the bytes that the span takes up.
* Alone, its text is covered by one span with the same pieces, also when its default was closed only
  by the last brace of the text.
* With the environment written out, its text is covered by one span with the pieces that were
  written exactly when the environment is a run of identifier characters; and in every context these
  pieces stand for the placeholder itself, with its environment named. -/
theorem find?_roundTrip {text : String} (finds : find? text.toList offset = some span)
    (environment : String) :
    let placeholder := Placeholder.ofWritten span.written environment
    placeholder.text.toUTF8 = text.toUTF8.extract span.start span.stop ∧
    find? placeholder.text.toList 0 = some ⟨0, placeholder.text.utf8ByteSize, span.written⟩ ∧
    (find? placeholder.explicit.text.toList 0 =
        some ⟨0, placeholder.explicit.text.utf8ByteSize, placeholder.explicit.toWritten⟩ ↔
      IsRun isIdentifierChar placeholder.environment.toList) ∧
    ∀ other, Placeholder.ofWritten placeholder.explicit.toWritten other =
      { placeholder with named := true } := by
  intro placeholder
  obtain ⟨front, rest, ⟨before, written, after⟩, whole, first, rfl⟩ := exists_occurrence finds
  have wellFormed := first.wellFormed
  refine ⟨?_, ?_, ?_, ?_⟩
  · have split : text = String.ofList ((front ++ before) ++ (written.characters ++ after)) := by
      rw [List.append_assoc, ← first.split, ← whole, String.ofList_toList]
    rw [split]
    refine Eq.trans ?_ (Text.extract_toUTF8 (front ++ before) written.characters after).symm
    rw [← Placeholder.toList_text_ofWritten written environment, String.ofList_toList]
    rfl
  · have alone := find?_text_iff placeholder
    rw [Placeholder.toWritten_ofWritten] at alone
    exact alone.mpr (Occurrence.find?_characters_iff.mpr wellFormed.alone)
  · rw [find?_text_iff, Placeholder.toWritten_explicit]
    exact wellFormed.placed_iff wellFormed.configType
  · intro other
    exact Placeholder.ofWritten_toWritten_of_named rfl other

/-! ### A default that the last brace closes

In the following text a nested brace is open behind the default, so the last brace of the text
closes it. -/

/-- A text with a placeholder between other characters, some of which take up two bytes. -/
def lenientText : String :=
  "é $\x7bweb@note:$\x7bü\x7d tail"

/-- The span of the placeholder. -/
def lenientSpan : Span :=
  ⟨3, 19, ⟨none, "web".toList, none, "note".toList, some "$\x7bü".toList⟩⟩

/-- The placeholder is written as it stands, and may be written with its environment. -/
theorem toUTF8_lenient :
    find? lenientText.toList 0 = some lenientSpan ∧
      "$\x7bweb@note:$\x7bü\x7d".toUTF8 = lenientText.toUTF8.extract 3 19 ∧
      find? "$\x7bweb[dev]@note:$\x7bü\x7d".toList 0 =
        some ⟨0, 21, ⟨none, "web".toList, some "dev".toList, "note".toList,
          some "$\x7bü".toList⟩⟩ := by
  have finds : find? lenientText.toList 0 = some lenientSpan := by cbv
  obtain ⟨bytes, _, explicitly, _⟩ := find?_roundTrip finds "dev"
  exact ⟨finds, bytes, explicitly.mpr (by decide)⟩

end Span

end DeployConfig
