import DeployConfig.Component
import DeployConfig.Proofs.Text.Trimming

/-!
# Entries of groups

A group lists its components as entries, which are read in two ways: as a component
(`Component.ofEntry`), and for the name alone, to exclude components (`Component.entryName`). The
readers go by the first colon. They agree unless an entry dangles: nothing but blank characters
stands behind its only colon, and at least one does. Then the colon is a part of the component's
name, and the other reader cuts it off (`Component.entryName_eq_iff`).

The text of a component has the form of an entry. It is read as the component again when the name
has no colon and neither part has blanks around it (`Component.Writable`), and a component that was
read from an entry is such a component, again unless the entry dangles. The main result,
`Component.readers_spec`, has all of this together.
-/

set_option autoImplicit false

namespace DeployConfig

namespace Component

variable {entry : String}

/-! ## The two readers -/

/-- Behind the only colon of an entry there are blank characters and nothing else. -/
def Dangles (entry : String) : Prop :=
  ∃ name blanks, entry.toList = name ++ ':' :: blanks ∧ ':' ∉ name ∧ blanks ≠ [] ∧
    ∀ c ∈ blanks, Text.isBlank c = true

theorem not_colon_of_not_mem {text : List Char} (plain : ':' ∉ text) :
    ∀ c ∈ text, (c == ':') = false := by
  intro c member
  refine beq_eq_false_iff_ne.mpr ?_
  rintro rfl
  exact plain member

theorem cut?_colon {name : List Char} (plain : ':' ∉ name) (type : List Char) :
    Text.cut? (· == ':') (name ++ ':' :: type) = some (name, type) :=
  Text.cut?_append_cons (not_colon_of_not_mem plain) rfl type

theorem cut?_colon_eq_none {text : List Char} (plain : ':' ∉ text) :
    Text.cut? (· == ':') text = none :=
  Text.cut?_eq_none.mpr (not_colon_of_not_mem plain)

theorem dropWhileEnd_colon {text : List Char} (plain : ':' ∉ text) :
    Text.dropWhileEnd (· == ':') text = text :=
  Text.dropWhileEnd_of_forall (not_colon_of_not_mem plain)

/-- An entry dangles when what stands behind its first colon is blank, and is something. -/
theorem dangles_iff {name type : List Char} (split : entry.toList = name ++ ':' :: type)
    (plain : ':' ∉ name) : Dangles entry ↔ type ≠ [] ∧ Text.trim type = [] := by
  rw [Text.trim_eq_nil_iff]
  constructor
  · rintro ⟨before, blanks, again, plain', filled, blank⟩
    have same : Text.cut? (· == ':') (name ++ ':' :: type) =
        Text.cut? (· == ':') (before ++ ':' :: blanks) := by
      rw [← split, ← again]
    rw [cut?_colon plain, cut?_colon plain'] at same
    obtain ⟨rfl, rfl⟩ := Prod.mk.inj (Option.some.inj same)
    exact ⟨filled, blank⟩
  · rintro ⟨filled, blank⟩
    exact ⟨name, type, split, plain, filled, blank⟩

theorem not_dangles_of_not_mem (plain : ':' ∉ entry.toList) : ¬ Dangles entry := by
  rintro ⟨name, blanks, split, _⟩
  exact plain (by simp [split])

/-! ### What they read -/

theorem entryName_of_split {name type : List Char} (split : entry.toList = name ++ ':' :: type)
    (plain : ':' ∉ name) : entryName entry = String.ofList (Text.trim name) := by
  simp only [entryName, split, cut?_colon plain]

theorem entryName_of_not_mem (plain : ':' ∉ entry.toList) :
    entryName entry = String.ofList (Text.trim entry.toList) := by
  simp only [entryName, cut?_colon_eq_none plain]

theorem ofEntry_of_filled {name type : List Char} (split : entry.toList = name ++ ':' :: type)
    (plain : ':' ∉ name) (filled : Text.trim type ≠ []) :
    ofEntry entry = ⟨String.ofList (Text.trim name), String.ofList (Text.trim type)⟩ := by
  simp only [ofEntry, split, cut?_colon plain, List.isEmpty_iff, if_neg filled]

/-- A colon at the end is dropped. -/
theorem ofEntry_of_colon_end {name : List Char} (split : entry.toList = name ++ [':'])
    (plain : ':' ∉ name) : ofEntry entry = ofType (String.ofList (Text.trim name)) := by
  have dropped : Text.dropWhileEnd (· == ':') (name ++ [':']) = name := by
    rw [Text.dropWhileEnd_concat_of_true name rfl, dropWhileEnd_colon plain]
  simp only [ofEntry, split, cut?_colon plain, dropped]
  rfl

/-- A colon that only blank characters follow stays. -/
theorem ofEntry_of_dangling {name type : List Char} (split : entry.toList = name ++ ':' :: type)
    (plain : ':' ∉ name) (filled : type ≠ []) (blank : Text.trim type = []) :
    ofEntry entry = ofType (String.ofList (Text.trim entry.toList)) := by
  obtain ⟨front, last, rfl⟩ := (List.eq_nil_or_concat type).resolve_left filled
  have blankLast : Text.isBlank last = true := Text.trim_eq_nil_iff.mp blank last (by simp)
  have stays : (last == ':') = false := by
    refine beq_eq_false_iff_ne.mpr ?_
    rintro rfl
    exact absurd blankLast (by decide)
  have ends : name ++ ':' :: front.concat last = (name ++ ':' :: front) ++ [last] := by simp
  have kept : Text.dropWhileEnd (· == ':') (name ++ ':' :: front.concat last) =
      name ++ ':' :: front.concat last := by
    rw [ends]
    exact Text.dropWhileEnd_concat_of_false _ stays
  simp only [ofEntry, split, cut?_colon plain, blank, List.isEmpty_nil, if_true, kept]

theorem ofEntry_of_not_mem (plain : ':' ∉ entry.toList) :
    ofEntry entry = ofType (String.ofList (Text.trim entry.toList)) := by
  simp only [ofEntry, cut?_colon_eq_none plain, dropWhileEnd_colon plain]

theorem ofEntry_of_dangles (dangles : Dangles entry) :
    ofEntry entry = ofType (Text.trimmed entry) := by
  obtain ⟨name, blanks, split, plain, filled, blank⟩ := dangles
  exact ofEntry_of_dangling split plain filled (Text.trim_eq_nil_iff.mpr blank)

/-- **The readers agree on the name unless the entry dangles.** -/
theorem entryName_eq_iff : entryName entry = (ofEntry entry).name ↔ ¬ Dangles entry := by
  by_cases member : ':' ∈ entry.toList
  · obtain ⟨name, type, split, plain⟩ := List.eq_append_cons_of_mem member
    rw [dangles_iff split plain, entryName_of_split split plain]
    by_cases blank : Text.trim type = []
    · by_cases ended : type = []
      · subst ended
        rw [ofEntry_of_colon_end split plain]
        exact iff_of_true rfl fun dangles => dangles.1 rfl
      · rw [ofEntry_of_dangling split plain ended blank]
        refine iff_of_false (fun same => ?_) fun stable => stable ⟨ended, blank⟩
        -- Only the whole text has the colon, which no trimming removes.
        have colon : ':' ∈ Text.trim entry.toList :=
          Text.mem_trim_of_not_blank member (by decide)
        rw [← String.ofList_inj.mp same] at colon
        exact plain (Text.mem_of_mem_trim colon)
    · rw [ofEntry_of_filled split plain blank]
      exact iff_of_true rfl fun dangles => blank dangles.2
  · rw [entryName_of_not_mem member, ofEntry_of_not_mem member]
    exact iff_of_true rfl (not_dangles_of_not_mem member)

/-! ## Reading a component again -/

/-- A component that can be written as an entry: its name is trimmed and has no colon, and its type
is the name or another trimmed text that is not empty. -/
structure Writable (component : Component) : Prop where
  name_plain : ':' ∉ component.name.toList
  name_trimmed : Text.trim component.name.toList = component.name.toList
  type_trimmed : Text.trim component.type.toList = component.type.toList
  type_filled : component.type = component.name ∨ component.type ≠ ""

/-- **A component that can be written is read again from its text.** -/
theorem Writable.ofEntry_text {component : Component} (writable : component.Writable) :
    ofEntry component.text = component := by
  obtain ⟨name, type⟩ := component
  obtain ⟨plain, nameTrimmed, typeTrimmed, filled⟩ := writable
  by_cases same : name = type
  · subst same
    have written : text ⟨name, name⟩ = name := if_pos (beq_self_eq_true name)
    rw [written, ofEntry_of_not_mem plain, nameTrimmed, String.ofList_toList]
    rfl
  · have written : text ⟨name, type⟩ = name ++ ":" ++ type := if_neg (by simpa [isWholeType])
    have split : (text ⟨name, type⟩).toList = name.toList ++ ':' :: type.toList := by
      rw [written, String.toList_append, String.toList_append]
      exact List.append_assoc _ _ _
    have typed : Text.trim type.toList ≠ [] := by
      rw [typeTrimmed, ne_eq, String.toList_eq_nil_iff]
      exact filled.resolve_left (Ne.symm same)
    rw [ofEntry_of_filled split plain typed, nameTrimmed, typeTrimmed, String.ofList_toList,
      String.ofList_toList]

theorem writable_ofType_trim {name : List Char} (plain : ':' ∉ name) :
    (ofType (String.ofList (Text.trim name))).Writable where
  name_plain := by
    rw [ofType, String.toList_ofList]
    exact mt Text.mem_of_mem_trim plain
  name_trimmed := by rw [ofType, String.toList_ofList, Text.trim_trim]
  type_trimmed := by rw [ofType, String.toList_ofList, Text.trim_trim]
  type_filled := .inl rfl

/-- **An entry that does not dangle is read as a component that can be written.** -/
theorem writable_ofEntry (stable : ¬ Dangles entry) : (ofEntry entry).Writable := by
  by_cases member : ':' ∈ entry.toList
  · obtain ⟨name, type, split, plain⟩ := List.eq_append_cons_of_mem member
    rw [dangles_iff split plain, not_and] at stable
    by_cases ended : type = []
    · subst ended
      rw [ofEntry_of_colon_end split plain]
      exact writable_ofType_trim plain
    · rw [ofEntry_of_filled split plain (stable ended)]
      refine ⟨?_, ?_, ?_, .inr ?_⟩
      · rw [String.toList_ofList]
        exact mt Text.mem_of_mem_trim plain
      · rw [String.toList_ofList, Text.trim_trim]
      · rw [String.toList_ofList, Text.trim_trim]
      · rw [ne_eq, ← String.toList_eq_nil_iff, String.toList_ofList]
        exact stable ended
  · rw [ofEntry_of_not_mem member]
    exact writable_ofType_trim member

/-- A text without blanks around it does not dangle. -/
theorem not_dangles_trimmed (entry : String) : ¬ Dangles (Text.trimmed entry) := by
  rintro ⟨name, blanks, split, _, filled, blank⟩
  obtain ⟨front, last, rfl⟩ := (List.eq_nil_or_concat blanks).resolve_left filled
  have ends : (Text.trimmed entry).toList = (name ++ ':' :: front) ++ [last] := by
    rw [split, List.concat_eq_append, List.append_assoc, List.cons_append]
  have alone : Text.trim (Text.trimmed entry).toList = (Text.trimmed entry).toList := by
    rw [Text.trimmed, String.toList_ofList, Text.trim_trim]
  rw [ends] at alone
  have filledLast := Text.not_blank_of_trim_concat alone
  rw [blank last (by simp)] at filledLast
  cases filledLast

/-- The name of a component that is read from an entry has a colon only if the entry dangles. -/
theorem not_mem_name_iff : ':' ∉ (ofEntry entry).name.toList ↔ ¬ Dangles entry := by
  refine ⟨fun plain dangles => plain ?_, fun stable => (writable_ofEntry stable).name_plain⟩
  rw [ofEntry_of_dangles dangles, ofType, Text.trimmed, String.toList_ofList]
  obtain ⟨name, blanks, split, _⟩ := dangles
  exact Text.mem_trim_of_not_blank (by simp [split]) (by decide)

/-- **What becomes of a group entry hangs on whether it dangles.** Exactly when it does not

* both readers find the same name,
* the name of the component has no colon, and
* the text of the component is read as the component again.

An entry that dangles is read as a type, with the colon in it. -/
theorem readers_spec (entry : String) :
    (entryName entry = (ofEntry entry).name ↔ ¬ Dangles entry) ∧
    (':' ∉ (ofEntry entry).name.toList ↔ ¬ Dangles entry) ∧
    (ofEntry (ofEntry entry).text = ofEntry entry ↔ ¬ Dangles entry) ∧
    (Dangles entry → ofEntry entry = ofType (Text.trimmed entry)) := by
  refine ⟨entryName_eq_iff, not_mem_name_iff, ?_, ofEntry_of_dangles⟩
  constructor
  · intro again dangles
    have written : (ofEntry entry).text = Text.trimmed entry := by
      rw [ofEntry_of_dangles dangles]
      exact if_pos (beq_self_eq_true _)
    have plain := not_mem_name_iff.mpr (not_dangles_trimmed entry)
    rw [← written, again] at plain
    exact not_mem_name_iff.mp plain dangles
  · intro stable
    exact (writable_ofEntry stable).ofEntry_text

/-- The colon of an entry without a type stays in the name when a blank follows it. The other reader
does not see it, and it is gone when the text of the component is read. -/
theorem readers_dangling :
    ofEntry "a: " = ofType "a:" ∧ entryName "a: " = "a" ∧
      ofEntry (ofEntry "a: ").text = ofType "a" := by
  refine ⟨?_, ?_, ?_⟩ <;> decide

end Component

end DeployConfig
