import DeployConfig.Property
import DeployConfig.Proofs.Text.Trimming

/-!
# Blanks around a declaration

A declaration is read in three steps: the mark of a transient property is taken off, the rest is cut
at its first separator, and both parts are trimmed. Because trimming comes last, blanks at the end
of a line never show, and blanks at its start do not show either unless the line has the mark
(`parse_padded`). The mark is looked for before anything is trimmed. So a line with a mark and a
separator, put behind blanks, declares a property that is not transient, and the mark has become a
part of its key (`parse_indented`).

In any case the key is what stands in front of the first separator, it is trimmed, is not empty and
has no separator in it (`parse_eq_ok_iff`). The main result is `parse_spec`.
-/

set_option autoImplicit false

namespace DeployConfig

/-- The same error about another line. -/
def DeclarationError.about (line : String) : DeclarationError → DeclarationError
  | .missingSeparator _ => .missingSeparator line
  | .emptyKey _ => .emptyKey line

namespace Property

open Text (isBlank trim cut?)

variable {line environment : String} {source : Source} {front back body : List Char}

/-- Whether a character separates a key from a value. -/
def separates (c : Char) : Bool := c == '=' || c == ':'

/-! ## The mark and what stands behind it -/

/-- What a line declares a property by: all of it, or what stands behind the mark of a transient
property. -/
inductive Body (line : String) : Bool → List Char → Prop where
  | marked {body : List Char} (split : line.toList = transientMark ++ body) : Body line true body
  | plain (unmarked : ¬ transientMark <+: line.toList) : Body line false line.toList

theorem exists_body (line : String) : ∃ transient body, Body line transient body := by
  by_cases marked : transientMark <+: line.toList
  · obtain ⟨body, split⟩ := marked
    exact ⟨true, body, .marked split.symm⟩
  · exact ⟨false, line.toList, .plain marked⟩

/-- What a body declares, for the line that it is the body of. -/
def declared (line environment : String) (source : Source) (transient : Bool)
    (body : List Char) : Except DeclarationError Property :=
  match cut? separates body with
  | none => .error (.missingSeparator line)
  | some (key, value) =>
    if (trim key).isEmpty then .error (.emptyKey line)
    else
      .ok ⟨String.ofList (trim key), String.ofList (trim value), environment, transient, source⟩

theorem Body.parse_eq {transient : Bool} (opens : Body line transient body) :
    parse line environment source = declared line environment source transient body := by
  cases opens with
  | marked split =>
    have dropped : Text.dropOpening? transientMark line.toList = some body :=
      List.isPrefixOf?_eq_some_iff_append_eq.mpr split.symm
    simp only [parse, dropped]
    rfl
  | plain unmarked =>
    have kept : Text.dropOpening? transientMark line.toList = none := by
      refine Option.eq_none_iff_forall_ne_some.mpr fun body dropped => unmarked ⟨body, ?_⟩
      exact List.isPrefixOf?_eq_some_iff_append_eq.mp dropped
    simp only [parse, kept]
    rfl

theorem not_separates_of_isBlank {c : Char} (blank : isBlank c = true) : separates c = false := by
  refine Bool.eq_false_iff.mpr fun marks => ?_
  rw [separates, Bool.or_eq_true, beq_iff_eq, beq_iff_eq] at marks
  rcases marks with rfl | rfl
  · exact absurd blank (by decide)
  · exact absurd blank (by decide)

/-- The mark of a transient property has nothing in it that separates. -/
theorem not_separates_of_mem_transientMark : ∀ c ∈ transientMark, separates c = false := by
  simp [transientMark, separates]

/-- Where nothing separates, nothing is declared. -/
theorem parse_of_unseparated (unseparated : ∀ c ∈ line.toList, separates c = false) :
    parse line environment source = .error (.missingSeparator line) := by
  obtain ⟨transient, body, opens⟩ := exists_body line
  have uncut : cut? separates body = none := by
    refine Text.cut?_eq_none.mpr fun c member => unseparated c ?_
    cases opens with
    | marked split => exact split ▸ List.mem_append_right _ member
    | plain _ => exact member
  rw [opens.parse_eq, declared, uncut]

/-! ## Blanks around a line -/

/-- A text of blank characters. -/
def AllBlank (text : String) : Prop := ∀ c ∈ text.toList, isBlank c = true

/-- Blanks around a body do not show. -/
theorem declared_padded {padded : String} {transient : Bool}
    (blankFront : ∀ c ∈ front, isBlank c = true) (blankBack : ∀ c ∈ back, isBlank c = true) :
    declared padded environment source transient (front ++ body ++ back) =
      (declared line environment source transient body).mapError (.about padded) := by
  have unseparated : ∀ c, isBlank c = true → separates c = false :=
    fun _ blank => not_separates_of_isBlank blank
  cases split : cut? separates body with
  | none =>
    have uncut : cut? separates (front ++ body ++ back) = none := by
      refine Text.cut?_eq_none.mpr (List.forall_mem_append.mpr
        ⟨List.forall_mem_append.mpr ⟨?_, ?_⟩, ?_⟩)
      · exact fun c member => unseparated c (blankFront c member)
      · exact Text.cut?_eq_none.mp split
      · exact fun c member => unseparated c (blankBack c member)
    rw [declared, declared, split, uncut]
    rfl
  | some parts =>
    obtain ⟨key, value⟩ := parts
    obtain ⟨c, marks, rfl, plain⟩ := Text.cut?_eq_some split
    have plainFront : ∀ d ∈ front ++ key, separates d = false :=
      List.forall_mem_append.mpr ⟨fun d member => unseparated d (blankFront d member), plain⟩
    have again : cut? separates (front ++ (key ++ c :: value) ++ back) =
        some (front ++ key, value ++ back) := by
      rw [← Text.cut?_append_cons plainFront marks]
      simp
    rw [declared, declared, split, again]
    simp only [Text.trim_append_left blankFront, Text.trim_append_right blankBack]
    split <;> rfl

/-- A line with a mark and a separator. -/
def Marked (line : String) : Prop :=
  transientMark <+: line.toList ∧ ∃ c ∈ line.toList, separates c = true

theorem Marked.exists_split (marked : Marked line) :
    ∃ key c value, line.toList = transientMark ++ key ++ c :: value ∧
      (∀ d ∈ key, separates d = false) ∧ separates c = true := by
  obtain ⟨⟨body, whole⟩, c, member, marks⟩ := marked
  cases cut : cut? separates body with
  | none =>
    have unseparated : ∀ d ∈ transientMark ++ body, separates d = false :=
      List.forall_mem_append.mpr
        ⟨not_separates_of_mem_transientMark, Text.cut?_eq_none.mp cut⟩
    rw [unseparated c (whole ▸ member)] at marks
    cases marks
  | some parts =>
    obtain ⟨key, value⟩ := parts
    obtain ⟨d, separated, rfl, plain⟩ := Text.cut?_eq_some cut
    exact ⟨key, d, value, by rw [← whole, List.append_assoc], plain, separated⟩

/-- No line has a mark behind a blank. -/
theorem not_marked_of_blank_head {c : Char} {rest : List Char} (blank : isBlank c = true) :
    ¬ transientMark <+: c :: rest := by
  intro marked
  obtain ⟨rfl, _⟩ := List.cons_prefix_cons.mp marked
  exact absurd blank (by decide)

/-- Blanks behind a line with a separator do not make a mark of its start. -/
theorem not_marked_append {text : List Char} (unmarked : ¬ transientMark <+: text)
    (separated : ∃ c ∈ text, separates c = true) (back : List Char) :
    ¬ transientMark <+: text ++ back := by
  intro marked
  rcases List.prefix_or_prefix_of_prefix marked (List.prefix_append text back) with here | within
  · exact unmarked here
  · obtain ⟨c, member, marks⟩ := separated
    rw [not_separates_of_mem_transientMark c (within.subset member)] at marks
    cases marks

section Padded

variable {padding margin : String}

theorem toList_padded (padding line margin : String) :
    (padding ++ line ++ margin).toList = padding.toList ++ line.toList ++ margin.toList := by
  rw [String.toList_append, String.toList_append]

/-- No line has a mark behind blanks, and none gets one from blanks behind it. -/
theorem not_marked_padded (blank : AllBlank padding)
    (bare : padding ≠ "" ∨ ¬ transientMark <+: line.toList)
    (separated : ∃ c ∈ line.toList, separates c = true) :
    ¬ transientMark <+: (padding ++ line ++ margin).toList := by
  rw [toList_padded]
  cases spaces : padding.toList with
  | nil =>
    have empty : padding = "" := String.toList_eq_nil_iff.mp spaces
    exact not_marked_append (bare.resolve_left fun filled => filled empty) separated _
  | cons c rest =>
    exact not_marked_of_blank_head (blank c (spaces ▸ List.mem_cons_self))

/-- **Blanks around a line do not show unless they stand in front of a mark.** -/
theorem parse_padded (blankFront : AllBlank padding) (blankBack : AllBlank margin)
    (bare : padding = "" ∨ ¬ Marked line) :
    parse (padding ++ line ++ margin) environment source =
      (parse line environment source).mapError (.about (padding ++ line ++ margin)) := by
  by_cases separated : ∃ c ∈ line.toList, separates c = true
  · obtain ⟨transient, body, opens⟩ := exists_body line
    cases opens with
    | marked split =>
      obtain rfl : padding = "" :=
        bare.resolve_right fun unmarked => unmarked ⟨⟨body, split.symm⟩, separated⟩
      have opens : Body ("" ++ line ++ margin) true ([] ++ body ++ margin.toList) := by
        refine .marked ?_
        simp [split]
      rw [opens.parse_eq, (Body.marked split).parse_eq]
      exact declared_padded (List.forall_mem_nil _) blankBack
    | plain unmarked =>
      have opens : Body (padding ++ line ++ margin) false _ :=
        .plain (not_marked_padded blankFront (.inr unmarked) separated)
      rw [opens.parse_eq, (Body.plain unmarked).parse_eq, toList_padded]
      exact declared_padded blankFront blankBack
  · have unseparated : ∀ c ∈ line.toList, separates c = false :=
      fun c member => Bool.eq_false_iff.mpr fun marks => separated ⟨c, member, marks⟩
    have everywhere : ∀ c ∈ (padding ++ line ++ margin).toList, separates c = false := by
      rw [toList_padded]
      refine List.forall_mem_append.mpr ⟨List.forall_mem_append.mpr ⟨?_, unseparated⟩, ?_⟩
      · exact fun c member => not_separates_of_isBlank (blankFront c member)
      · exact fun c member => not_separates_of_isBlank (blankBack c member)
    rw [parse_of_unseparated unseparated, parse_of_unseparated everywhere]
    rfl

/-- **A mark behind blanks is read as the start of a key.** -/
theorem parse_indented {key value : List Char} {c : Char} (blankFront : AllBlank padding)
    (blankBack : AllBlank margin) (indented : padding ≠ "")
    (split : line.toList = transientMark ++ key ++ c :: value)
    (plain : ∀ d ∈ key, separates d = false) (marks : separates c = true) :
    parse (padding ++ line ++ margin) environment source =
      .ok ⟨String.ofList (trim (transientMark ++ key)), String.ofList (trim value), environment,
        false, source⟩ := by
  have separated : ∃ d ∈ line.toList, separates d = true := ⟨c, by simp [split], marks⟩
  have opens : Body (padding ++ line ++ margin) false _ :=
    .plain (not_marked_padded blankFront (.inl indented) separated)
  have plainKey : ∀ d ∈ transientMark ++ key, separates d = false :=
    List.forall_mem_append.mpr ⟨not_separates_of_mem_transientMark, plain⟩
  have filled : (trim (transientMark ++ key)).isEmpty ≠ true := by
    rw [ne_eq, List.isEmpty_iff]
    refine List.ne_nil_of_mem (Text.mem_trim_of_not_blank (c := '#') (by simp [transientMark]) ?_)
    decide
  have cut := Text.cut?_append_cons plainKey marks value
  have bare : declared line environment source false line.toList =
      .ok ⟨String.ofList (trim (transientMark ++ key)), String.ofList (trim value), environment,
        false, source⟩ := by
    rw [declared, split, cut]
    exact if_neg filled
  rw [opens.parse_eq, toList_padded, declared_padded blankFront blankBack, bare]
  rfl

end Padded

/-! ## What is read -/

/-- A line declares a property: its key stands in front of the first separator of the body, and its
value behind it, each without the blanks around it. The key is not empty. -/
structure Declares (line environment : String) (source : Source) (property : Property) :
    Prop where
  environment_eq : property.environment = environment
  source_eq : property.source = source
  key_filled : property.key ≠ ""
  key_plain : ∀ c ∈ property.key.toList, separates c = false
  key_trimmed : Text.trimmed property.key = property.key
  value_trimmed : Text.trimmed property.value = property.value
  split : ∃ key c value, Body line property.transient (key ++ c :: value) ∧ separates c = true ∧
    (∀ d ∈ key, separates d = false) ∧ property.key = String.ofList (trim key) ∧
    property.value = String.ofList (trim value)

theorem parse_eq_ok_iff {property : Property} :
    parse line environment source = .ok property ↔ Declares line environment source property := by
  constructor
  · intro read
    obtain ⟨transient, body, opens⟩ := exists_body line
    rw [opens.parse_eq, declared] at read
    split at read
    · cases read
    · next key value cut =>
      split at read
      · cases read
      · next filled =>
        cases read
        obtain ⟨c, marks, rfl, plain⟩ := Text.cut?_eq_some cut
        exact
          { environment_eq := rfl
            source_eq := rfl
            key_filled := by
              rwa [ne_eq, String.ofList_eq_empty_iff, ← List.isEmpty_iff]
            key_plain := by
              intro d member
              rw [String.toList_ofList] at member
              exact plain d (Text.mem_of_mem_trim member)
            key_trimmed := by rw [Text.trimmed, String.toList_ofList, Text.trim_trim]
            value_trimmed := by rw [Text.trimmed, String.toList_ofList, Text.trim_trim]
            split := ⟨key, c, value, opens, marks, plain, rfl, rfl⟩ }
  · rintro ⟨rfl, rfl, filled, _, _, _, key, c, value, opens, marks, plain, keyRead, valueRead⟩
    have kept : (trim key).isEmpty ≠ true := by
      rwa [ne_eq, List.isEmpty_iff, ← String.ofList_eq_empty_iff, ← keyRead]
    rw [opens.parse_eq, declared, Text.cut?_append_cons plain marks]
    simp only [if_neg kept, ← keyRead, ← valueRead]

/-- A line with a mark declares nothing that is not transient. -/
theorem Declares.transient_of_marked {property : Property}
    (declares : Declares line environment source property)
    (marked : transientMark <+: line.toList) : property.transient = true := by
  obtain ⟨key, c, value, opens, _⟩ := declares.split
  generalize property.transient = transient at opens
  generalize key ++ c :: value = body at opens
  cases opens with
  | marked _ => rfl
  | plain unmarked => exact absurd marked unmarked

/-- **Blanks around a declaration do not show, except in front of the mark of a transient one.** A
line with blanks in front of it or behind it declares the same property as without them, or is
refused with the same error, exactly when none stand in front of a line with a mark and a separator.
Such a line declares a property that is not transient, and its key starts with the mark. Whatever a
line declares has a trimmed key, which is not empty and stands in front of the first separator, and
a trimmed value. -/
theorem parse_spec (line environment : String) (source : Source) :
    (∀ padding margin, AllBlank padding → AllBlank margin →
      (parse (padding ++ line ++ margin) environment source =
          (parse line environment source).mapError (.about (padding ++ line ++ margin)) ↔
        padding = "" ∨ ¬ Marked line)) ∧
    (∀ padding margin key c value, AllBlank padding → AllBlank margin → padding ≠ "" →
      line.toList = transientMark ++ key ++ c :: value → (∀ d ∈ key, separates d = false) →
      separates c = true →
      parse (padding ++ line ++ margin) environment source =
        .ok ⟨String.ofList (trim (transientMark ++ key)), String.ofList (trim value), environment,
          false, source⟩) ∧
    (∀ property, parse line environment source = .ok property ↔
      Declares line environment source property) := by
  refine ⟨?_, ?_, fun _ => parse_eq_ok_iff⟩
  · intro padding margin blankFront blankBack
    refine ⟨fun same => ?_, parse_padded blankFront blankBack⟩
    by_contra indented
    obtain ⟨filled, marked⟩ := not_or.mp indented
    rw [not_not] at marked
    obtain ⟨key, c, value, split, plain, marks⟩ := marked.exists_split
    rw [parse_indented blankFront blankBack filled split plain marks] at same
    cases read : parse line environment source with
    | error error =>
      rw [read] at same
      cases same
    | ok property =>
      rw [read] at same
      cases same
      exact Bool.false_ne_true ((parse_eq_ok_iff.mp read).transient_of_marked marked.1)
  · intro padding margin key c value blankFront blankBack indented split plain marks
    exact parse_indented blankFront blankBack indented split plain marks

/-- Blanks around `port = 80` do not show. In front of `#var base=/opt` they do, although that line
alone declares a transient property. -/
theorem parse_amongBlanks :
    let source := Source.special (.ofType "web") "memory"
    AllBlank " " ∧ AllBlank "\t" ∧ " " ≠ "" ∧ ¬ Marked "port = 80" ∧
      parse (" " ++ "port = 80" ++ "\t") "dev" source =
        (parse "port = 80" "dev" source).mapError (.about (" " ++ "port = 80" ++ "\t")) ∧
      "#var base=/opt".toList = transientMark ++ "base".toList ++ '=' :: "/opt".toList ∧
      (∀ d ∈ "base".toList, separates d = false) ∧ separates '=' = true ∧
      parse (" " ++ "#var base=/opt" ++ "\t") "dev" source =
        .ok ⟨"#var base", "/opt", "dev", false, source⟩ ∧
      parse "#var base=/opt" "dev" source = .ok ⟨"base", "/opt", "dev", true, source⟩ ∧
      Declares "#var base=/opt" "dev" source ⟨"base", "/opt", "dev", true, source⟩ := by
  intro source
  have space : AllBlank " " := by simp [AllBlank, isBlank]
  have tab : AllBlank "\t" := by simp [AllBlank, isBlank]
  have unmarked : ¬ Marked "port = 80" := fun marked => absurd marked.1 (by decide)
  have split :
      "#var base=/opt".toList = transientMark ++ "base".toList ++ '=' :: "/opt".toList := by
    decide
  have plain : ∀ d ∈ "base".toList, separates d = false := by simp [separates]
  have read : parse "#var base=/opt" "dev" source = .ok ⟨"base", "/opt", "dev", true, source⟩ := by
    decide
  refine ⟨space, tab, by decide, unmarked, ?_, split, plain, rfl, ?_, read, ?_⟩
  · exact ((parse_spec "port = 80" "dev" source).1 " " "\t" space tab).mpr (.inr unmarked)
  · exact (parse_spec "#var base=/opt" "dev" source).2.1 " " "\t" "base".toList '=' "/opt".toList
      space tab (by decide) split plain rfl
  · exact ((parse_spec "#var base=/opt" "dev" source).2.2 _).mp read

/-- A transient declaration behind a blank is not transient, and has the mark in its key. -/
theorem parse_indentedBase :
    parse "#var base=/opt" "dev" (.special (.ofType "web") "memory") =
        .ok ⟨"base", "/opt", "dev", true, .special (.ofType "web") "memory"⟩ ∧
      parse (" " ++ "#var base=/opt") "dev" (.special (.ofType "web") "memory") =
        .ok ⟨"#var base", "/opt", "dev", false, .special (.ofType "web") "memory"⟩ := by
  refine ⟨?_, ?_⟩ <;> decide

end Property

end DeployConfig
