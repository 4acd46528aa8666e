import DeployConfig.Proofs.Supply.Includes
import DeployConfig.Proofs.Text.Trimming

/-!
# How includes are written

A layer file lists the component types that it includes as texts: a type alone, or a type with an
environment in brackets behind it (`Layer.Include.text`). Every include whose names are filled and
have no brackets is read from its text. An entry is taken apart by its last character and its first
opening bracket alone (`Layer.Include.parse?_eq_some_iff`), so a bracket anywhere else becomes a
part of a name. As long as no name has one, the texts of these includes are all that is read
(`Layer.Include.wellFormed_iff`).

A file with an entry that is not read holds no layer. The main result, `Layer.includes_spec`, has
this together with what is read.
-/

set_option autoImplicit false

namespace DeployConfig.Layer

namespace Include

/-! ## The text of an include -/

/-- How an include is written. -/
def text (other : Include) : String :=
  match other.environment with
  | none => other.type
  | some environment => other.type ++ "[" ++ environment ++ "]"

/-- The names that an include is made of. -/
def parts (other : Include) : List String :=
  other.type :: other.environment.toList

/-- A name without brackets. -/
def IsPlain (part : String) : Prop :=
  '[' ∉ part.toList ∧ ']' ∉ part.toList

/-- The names are filled and have no brackets. -/
structure WellFormed (other : Include) : Prop where
  filled : ∀ part ∈ other.parts, part ≠ ""
  plain : ∀ part ∈ other.parts, IsPlain part

/-- The includes that are read from a text. -/
inductive Readable : Include → Prop where
  | bare {type : String} (filled : type ≠ "") (stops : type.toList.getLast? ≠ some ']') :
    Readable ⟨type, none⟩
  | pinned {type environment : String} (filled : type ≠ "") (named : environment ≠ "")
      (plain : '[' ∉ type.toList) : Readable ⟨type, some environment⟩

variable {entry : String} {other : Include}

theorem toList_text_pinned (type environment : String) :
    (text ⟨type, some environment⟩).toList =
      type.toList ++ '[' :: environment.toList ++ [']'] := by
  simp [text]

theorem trimmed_eq_iff {written : String} :
    Text.trimmed entry = written ↔ Text.trim entry.toList = written.toList := by
  rw [Text.trimmed, ← String.toList_inj, String.toList_ofList]

theorem Readable.filled (readable : other.Readable) : ∀ part ∈ other.parts, part ≠ "" := by
  cases readable with
  | bare filled stops => exact List.forall_mem_singleton.mpr filled
  | pinned filled named plain =>
    exact List.forall_mem_cons.mpr ⟨filled, List.forall_mem_singleton.mpr named⟩

/-- Without brackets in their names all includes are read. -/
theorem WellFormed.readable (wellFormed : other.WellFormed) : other.Readable := by
  obtain ⟨type, environment⟩ := other
  obtain ⟨filled, filledToo⟩ := List.forall_mem_cons.mp wellFormed.filled
  obtain ⟨opening, closing⟩ := (List.forall_mem_cons.mp wellFormed.plain).1
  cases environment with
  | none =>
    refine .bare filled fun ends => ?_
    exact closing (List.mem_of_getLast? ends)
  | some environment => exact .pinned filled (filledToo environment List.mem_cons_self) opening

/-! ## Reading an include -/

theorem parse?_of_nil (blank : Text.trim entry.toList = []) : parse? entry = none := by
  simp [parse?, blank]

theorem parse?_of_concat {front : List Char} {last : Char} (differs : last ≠ ']')
    (ends : Text.trim entry.toList = front ++ [last]) :
    parse? entry = some ⟨String.ofList (front ++ [last]), none⟩ := by
  simp only [parse?, ends, List.reverse_append, List.reverse_singleton, List.singleton_append]
  split
  · next same => exact absurd (List.cons.inj same).1 differs
  · simp

/-- An entry that ends in a closing bracket is cut at its first opening bracket. -/
theorem parse?_of_closed {front : List Char} (ends : Text.trim entry.toList = front ++ [']']) :
    parse? entry = (Text.cut? (· == '[') front).bind fun (type, environment) =>
      if type = [] ∨ environment = [] then none
      else some ⟨String.ofList type, some (String.ofList environment)⟩ := by
  simp only [parse?, ends, List.reverse_append, List.reverse_singleton, List.singleton_append,
    List.reverse_reverse]
  cases Text.cut? (· == '[') front with
  | none => rfl
  | some found => simp

theorem readable_of_parse?_eq_some (read : parse? entry = some other) :
    Text.trim entry.toList = other.text.toList ∧ other.Readable := by
  rcases List.eq_nil_or_concat (Text.trim entry.toList) with blank | ⟨front, last, ends⟩
  · rw [parse?_of_nil blank] at read
    cases read
  · rw [List.concat_eq_append] at ends
    by_cases closed : last = ']'
    · subst closed
      rw [parse?_of_closed ends] at read
      obtain ⟨⟨type, environment⟩, found, kept⟩ := Option.bind_eq_some_iff.mp read
      obtain ⟨c, marks, rfl, before⟩ := Text.cut?_eq_some found
      obtain rfl : c = '[' := beq_iff_eq.mp marks
      dsimp only at kept
      split at kept
      · cases kept
      · next filled =>
        cases kept
        obtain ⟨filled, named⟩ := not_or.mp filled
        refine ⟨?_, .pinned ?_ ?_ ?_⟩
        · rw [toList_text_pinned, String.toList_ofList, String.toList_ofList, ends]
        · exact String.ofList_eq_empty_iff.not.mpr filled
        · exact String.ofList_eq_empty_iff.not.mpr named
        · intro member
          rw [String.toList_ofList] at member
          cases before '[' member
    · rw [parse?_of_concat closed ends] at read
      cases read
      refine ⟨?_, .bare ?_ ?_⟩
      · rw [text, String.toList_ofList, ends]
      · exact String.ofList_eq_empty_iff.not.mpr (List.concat_ne_nil last front)
      · rw [String.toList_ofList, List.getLast?_concat]
        exact fun same => closed (Option.some.inj same)

theorem Readable.parse?_eq (readable : other.Readable)
    (written : Text.trim entry.toList = other.text.toList) : parse? entry = some other := by
  cases readable with
  | @bare type filled stops =>
    rcases List.eq_nil_or_concat type.toList with blank | ⟨front, last, ends⟩
    · exact absurd (String.toList_eq_nil_iff.mp blank) filled
    · rw [List.concat_eq_append] at ends
      rw [ends, List.getLast?_concat] at stops
      rw [text, ends] at written
      rw [parse?_of_concat (fun same => stops (same ▸ rfl)) written, ← ends, String.ofList_toList]
  | @pinned type environment filled named plain =>
    have before : ∀ c ∈ type.toList, (c == '[') = false := by
      intro c member
      exact beq_eq_false_iff_ne.mpr fun same => plain (same ▸ member)
    have both : ¬ (type.toList = [] ∨ environment.toList = []) := by
      rw [String.toList_eq_nil_iff, String.toList_eq_nil_iff]
      exact not_or.mpr ⟨filled, named⟩
    rw [toList_text_pinned] at written
    rw [parse?_of_closed written, Text.cut?_append_cons before rfl environment.toList,
      Option.bind_some]
    dsimp only
    rw [if_neg both, String.ofList_toList, String.ofList_toList]

/-- **An entry is read when it is the text of an include that can be read, and as no other.** -/
theorem parse?_eq_some_iff :
    parse? entry = some other ↔ Text.trimmed entry = other.text ∧ other.Readable := by
  rw [trimmed_eq_iff]
  constructor
  · exact readable_of_parse?_eq_some
  · rintro ⟨written, readable⟩
    exact readable.parse?_eq written

/-- Without brackets in names, exactly the texts of well-formed includes are read. -/
theorem wellFormed_iff :
    Text.trimmed entry = other.text ∧ other.WellFormed ↔
      parse? entry = some other ∧ ∀ part ∈ other.parts, IsPlain part := by
  rw [parse?_eq_some_iff]
  constructor
  · rintro ⟨written, wellFormed⟩
    exact ⟨⟨written, wellFormed.readable⟩, wellFormed.plain⟩
  · rintro ⟨⟨written, readable⟩, plain⟩
    exact ⟨written, readable.filled, plain⟩

end Include

/-! ## Includes of a file -/

open Toml (Value)

/-- The entries that a value lists. -/
inductive Lists : Value → List String → Prop where
  | one (text : String) : Lists (.string text) [text]
  | many (texts : List String) : Lists (.array (texts.map .string)) texts

/-- One of several entries. Each has to be a text. -/
def takeText (path : Path) : Value → Except SupplyError String
  | .string item => .ok item
  | _ => .error (.invalidInclude path.text "expected a list of strings")

theorem readIncludes_array (path : Path) (items : List Value) :
    readIncludes path (.array items) =
      items.mapM (takeText path) >>= fun texts => texts.mapM (readInclude path) :=
  rfl

variable {path : Path} {value : Value} {texts : List String}

/-- The entries of an array are texts, or it is refused. -/
theorem mapM_takeText (path : Path) (items : List Value) :
    (∃ texts : List String, items = texts.map .string ∧ items.mapM (takeText path) = .ok texts) ∨
      items.mapM (takeText path) =
        .error (.invalidInclude path.text "expected a list of strings") := by
  induction items with
  | nil => exact .inl ⟨[], rfl, rfl⟩
  | cons item rest ih =>
    rw [List.mapM_cons]
    by_cases isText : ∃ text, item = .string text
    · obtain ⟨text, rfl⟩ := isText
      rcases ih with ⟨texts, rfl, taken⟩ | refused
      · exact .inl ⟨text :: texts, rfl, by rw [taken]; rfl⟩
      · exact .inr (by rw [refused]; rfl)
    · have refused : takeText path item =
          .error (.invalidInclude path.text "expected a list of strings") := by
        unfold takeText
        split
        · next text => exact absurd ⟨text, rfl⟩ isText
        · rfl
      exact .inr (by rw [refused]; rfl)

theorem readInclude_of_some {text : String} {other : Include}
    (read : Include.parse? text = some other) : readInclude path text = .ok other := by
  rw [readInclude, read]

theorem readInclude_of_none {text : String} (refused : Include.parse? text = none) :
    readInclude path text = .error (.invalidInclude path.text s!"malformed entry '{text}'") := by
  rw [readInclude, refused]

/-- When each entry is read, so are all. -/
theorem mapM_readInclude (path : Path) (read : ∀ text ∈ texts, (Include.parse? text).isSome) :
    texts.mapM (readInclude path) = .ok (texts.filterMap Include.parse?) := by
  induction texts with
  | nil => rfl
  | cons text rest ih =>
    obtain ⟨here, behind⟩ := List.forall_mem_cons.mp read
    obtain ⟨other, found⟩ := Option.isSome_iff_exists.mp here
    rw [List.mapM_cons, readInclude_of_some found, ih behind, List.filterMap_cons_some found]
    rfl

/-- The first entry that is not read refuses them all. -/
theorem mapM_readInclude_of_none {front rest : List String} {text : String}
    (read : ∀ text ∈ front, (Include.parse? text).isSome) (refused : Include.parse? text = none) :
    (front ++ text :: rest).mapM (readInclude path) =
      .error (.invalidInclude path.text s!"malformed entry '{text}'") := by
  rw [List.mapM_append, mapM_readInclude path read, List.mapM_cons, readInclude_of_none refused]
  rfl

theorem Lists.readIncludes_eq (lists : Lists value texts) :
    readIncludes path value = texts.mapM (readInclude path) := by
  cases lists with
  | one text =>
    rw [List.mapM_cons]
    rfl
  | many texts =>
    have taken : (texts.map Value.string).mapM (takeText path) = .ok texts := by
      rw [List.mapM_map]
      exact (mapM_eq_ok fun _ _ => rfl).trans (congrArg Except.ok texts.map_id)
    rw [readIncludes_array, taken]
    rfl

/-- What lists no entries is refused. -/
theorem exists_refusal_of_not_lists (path : Path) (misfit : ∀ texts, ¬ Lists value texts) :
    ∃ reason, readIncludes path value = .error (.invalidInclude path.text reason) := by
  cases value with
  | string text => exact absurd (.one text) (misfit [text])
  | array items =>
    rcases mapM_takeText path items with ⟨texts, rfl, _⟩ | refused
    · exact absurd (.many texts) (misfit texts)
    · exact ⟨"expected a list of strings", by rw [readIncludes_array, refused]; rfl⟩
  | _ => exact ⟨_, rfl⟩

/-- A file holds a layer when its includes are read. -/
theorem ofTable_of_lookup {table : List (String × Value)}
    (given : table.lookup includeKey = some value) :
    ofTable path table = (readIncludes path value).map fun includes =>
      ⟨some path, includes, table.flatMap fun (key, value) => entriesOf key value⟩ := by
  simp only [ofTable, given]
  cases readIncludes path value with
  | error error => rfl
  | ok includes => rfl

/-- **Includes are read from their texts, and an entry that is the text of none is refused.** An entry
is the text of a well-formed include exactly when it is read as this include and no name that is
read has a bracket. A bracket that is neither the first opening one of an entry that ends in a closing
one, nor this last one, is read as a part of a name. The includes of a file are all of its entries, in
order. If there is one that is not read, the file holds no layer, and it is the first such entry that
the error names; nor does it hold a layer when its includes are not given as texts. -/
theorem includes_spec (entry : String) {table : List (String × Value)}
    (given : table.lookup includeKey = some value) :
    (∀ other, Text.trimmed entry = other.text ∧ other.WellFormed ↔
      Include.parse? entry = some other ∧ ∀ part ∈ other.parts, Include.IsPlain part) ∧
    (∀ other, Include.parse? entry = some other ↔
      Text.trimmed entry = other.text ∧ other.Readable) ∧
    (∀ texts, Lists value texts → (∀ text ∈ texts, (Include.parse? text).isSome) →
      ofTable path table = .ok ⟨some path, texts.filterMap Include.parse?,
        table.flatMap fun (key, value) => entriesOf key value⟩) ∧
    (∀ front rest, Lists value (front ++ entry :: rest) →
      (∀ text ∈ front, (Include.parse? text).isSome) → Include.parse? entry = none →
      ofTable path table = .error (.invalidInclude path.text s!"malformed entry '{entry}'")) ∧
    ((∀ texts, ¬ Lists value texts) →
      ∃ reason, ofTable path table = .error (.invalidInclude path.text reason)) := by
  rw [ofTable_of_lookup given]
  refine ⟨fun _ => Include.wellFormed_iff, fun _ => Include.parse?_eq_some_iff, ?_, ?_, ?_⟩
  · intro texts lists read
    rw [lists.readIncludes_eq, mapM_readInclude path read]
    rfl
  · intro front rest lists read refused
    rw [lists.readIncludes_eq, mapM_readInclude_of_none read refused]
    rfl
  · intro misfit
    obtain ⟨reason, refused⟩ := exists_refusal_of_not_lists path misfit
    exact ⟨reason, by rw [refused]; rfl⟩

/-- Includes with blanks around them are read, and an empty pair of brackets refuses a file, as does
a value that is no text. -/
theorem ofTable_kafka :
    (∀ text ∈ [" kafka[prod] ", "commons"], (Include.parse? text).isSome) ∧
      ofTable ⟨"/api.toml"⟩ [("_include", .array [.string " kafka[prod] ", .string "commons"]),
        ("port", .string "80")] =
          .ok ⟨some ⟨"/api.toml"⟩, [⟨"kafka", some "prod"⟩, ⟨"commons", none⟩],
            [⟨"port", "80", false⟩]⟩ ∧
      (∀ text ∈ ["commons"], (Include.parse? text).isSome) ∧ Include.parse? "kafka[]" = none ∧
      ofTable ⟨"/api.toml"⟩ [("_include", .array [.string "commons", .string "kafka[]"])] =
        .error (.invalidInclude "/api.toml" "malformed entry 'kafka[]'") ∧
      (∀ texts, ¬ Lists (.boolean true) texts) ∧
      ∃ reason, ofTable ⟨"/api.toml"⟩ [("_include", .boolean true)] =
        .error (.invalidInclude "/api.toml" reason) := by
  have readAll : ∀ text ∈ [" kafka[prod] ", "commons"], (Include.parse? text).isSome := by decide
  have readFirst : ∀ text ∈ ["commons"], (Include.parse? text).isSome := by decide
  have refused : Include.parse? "kafka[]" = none := by decide
  have misfit : ∀ texts, ¬ Lists (.boolean true) texts := nofun
  refine ⟨readAll, ?_, readFirst, refused, ?_, misfit, ?_⟩
  · exact (includes_spec "commons" rfl).2.2.1 _ (.many [" kafka[prod] ", "commons"]) readAll
  · exact (includes_spec "kafka[]" rfl).2.2.2.1 ["commons"] [] (.many ["commons", "kafka[]"])
      readFirst refused
  · exact (includes_spec "" rfl).2.2.2.2 misfit

/-- An include whose bracket is not closed is read as a type of this name, although it is the text of
no well-formed include. -/
theorem ofTable_unclosed :
    Include.parse? "kafka[prod" = some ⟨"kafka[prod", none⟩ ∧
      (∀ other : Include, other.WellFormed → Text.trimmed "kafka[prod" ≠ other.text) ∧
      ofTable ⟨"/api.toml"⟩ [("_include", .string "kafka[prod")] =
        .ok ⟨some ⟨"/api.toml"⟩, [⟨"kafka[prod", none⟩], []⟩ := by
  have read : Include.parse? "kafka[prod" = some ⟨"kafka[prod", none⟩ := by decide
  refine ⟨read, ?_, rfl⟩
  intro other wellFormed written
  obtain ⟨again, plain⟩ := Include.wellFormed_iff.mp ⟨written, wellFormed⟩
  rw [read] at again
  cases again
  exact (plain "kafka[prod" List.mem_cons_self).1 (by decide)

end DeployConfig.Layer
