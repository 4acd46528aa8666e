import DeployConfig.Proofs.Toml.Tables
import Mathlib

/-!
# Flattening a layer file

A layer file has two parts: the table of its transient properties, and everything that is neither
this table nor the includes (`part`). Each part declares one property for each of its leaves. A leaf
is a scalar, or an array with only scalars in it; the latter is one value, and its items are no
leaves of their own (`Leaf`). The path to a leaf is made of table keys and of the numbers of array
items, and joined by dots it is the key of the property.

Going through a table meets each leaf once, because the steps that lead on from one place are all
different: the keys of a table are, and so are the numbers of items (`nodup_leaves`). Where no key
has a dot in it, the joined path can be cut into its steps again, so that different leaves have
different keys (`eq_of_keyOf`). The main result is `layer_leaves`. The tables of files need not be
asked for different keys, so every layer that is read from a file declares the leaves of its table
(`LayerFiles.leaves_of_readLayer`).
-/

set_option autoImplicit false

namespace DeployConfig.Layer

open Toml (Value)

variable {value : Value} {entries : List (String × Value)} {items : List Value}
  {path : List String} {text : String} {transient : Bool}

/-! ## Leaves -/

/-- A value that is kept as one text: a scalar, or an array with only scalars. -/
inductive Single : Value → String → Prop where
  | scalar {value : Value} (single : isScalar value = true) : Single value (scalarText value)
  | scalars {items : List Value} (single : ∀ item ∈ items, isScalar item = true) :
      Single (.array items) (",".intercalate (items.map scalarText))

/-- A path leads from a value to a leaf with a text, through the keys of tables and the numbers of
the items of arrays. It does not lead into an array that is a leaf. -/
inductive Leaf : Value → List String → String → Prop where
  | here {value : Value} {text : String} (single : Single value text) : Leaf value [] text
  | entry {entries : List (String × Value)} {key : String} {value : Value} {path : List String}
      {text : String} (member : (key, value) ∈ entries) (leaf : Leaf value path text) :
      Leaf (.table entries) (key :: path) text
  | item {items : List Value} {index : Nat} {value : Value} {path : List String} {text : String}
      (mixed : ¬ ∀ item ∈ items, isScalar item = true) (found : items[index]? = some value)
      (leaf : Leaf value path text) : Leaf (.array items) (toString index :: path) text

theorem leaf_iff_of_isScalar (single : isScalar value = true) :
    Leaf value path text ↔ path = [] ∧ text = scalarText value := by
  constructor
  · intro leaf
    cases leaf with
    | here kept =>
      cases kept with
      | scalar _ => exact ⟨rfl, rfl⟩
      | scalars _ => cases single
    | entry _ _ => cases single
    | item _ _ _ => cases single
  · rintro ⟨rfl, rfl⟩
    exact .here (.scalar single)

theorem leaf_iff_of_scalars (single : ∀ item ∈ items, isScalar item = true) :
    Leaf (.array items) path text ↔
      path = [] ∧ text = ",".intercalate (items.map scalarText) := by
  constructor
  · intro leaf
    cases leaf with
    | here kept =>
      cases kept with
      | scalar none => cases none
      | scalars _ => exact ⟨rfl, rfl⟩
    | item mixed _ _ => exact absurd single mixed
  · rintro ⟨rfl, rfl⟩
    exact .here (.scalars single)

theorem leaf_iff_of_mixed (mixed : ¬ ∀ item ∈ items, isScalar item = true) :
    Leaf (.array items) path text ↔
      ∃ (index : Nat) (item : Value) (rest : List String), items[index]? = some item ∧
        path = toString index :: rest ∧ Leaf item rest text := by
  constructor
  · intro leaf
    cases leaf with
    | here kept =>
      cases kept with
      | scalar none => cases none
      | scalars single => exact absurd single mixed
    | item _ found leaf => exact ⟨_, _, _, found, rfl, leaf⟩
  · rintro ⟨index, item, rest, found, rfl, leaf⟩
    exact .item mixed found leaf

theorem leaf_table_iff :
    Leaf (.table entries) path text ↔
      ∃ entry ∈ entries, ∃ rest, path = entry.1 :: rest ∧ Leaf entry.2 rest text := by
  constructor
  · intro leaf
    cases leaf with
    | here kept =>
      cases kept with
      | scalar none => cases none
    | entry member leaf => exact ⟨_, member, _, rfl, leaf⟩
  · rintro ⟨entry, member, rest, rfl, leaf⟩
    exact .entry member leaf

/-! ## All leaves in order -/

/-- A leaf seen from one step before. -/
def under (step : String) (leaf : List String × String) : List String × String :=
  (step :: leaf.1, leaf.2)

mutual

/-- The leaves of a value in order, each as the path to it and its text. -/
def leaves : Value → List (List String × String)
  | .table entries => leavesOfEntries entries
  | .array items =>
    if items.all isScalar then [([], ",".intercalate (items.map scalarText))]
    else leavesOfItems 0 items
  | value => [([], scalarText value)]

/-- The leaves of the values of a table. -/
def leavesOfEntries : List (String × Value) → List (List String × String)
  | [] => []
  | (key, value) :: rest => (leaves value).map (under key) ++ leavesOfEntries rest

/-- The leaves of the items of an array, from number `index` on. -/
def leavesOfItems (index : Nat) : List Value → List (List String × String)
  | [] => []
  | item :: rest => (leaves item).map (under (toString index)) ++ leavesOfItems (index + 1) rest

end

theorem leaves_of_isScalar (single : isScalar value = true) :
    leaves value = [([], scalarText value)] := by
  cases value with
  | table entries => cases single
  | array items => cases single
  | _ => rfl

theorem leaves_of_scalars (single : ∀ item ∈ items, isScalar item = true) :
    leaves (.array items) = [([], ",".intercalate (items.map scalarText))] := by
  rw [leaves, if_pos (List.all_eq_true.mpr single)]

theorem leaves_of_mixed (mixed : ¬ ∀ item ∈ items, isScalar item = true) :
    leaves (.array items) = leavesOfItems 0 items := by
  rw [leaves, if_neg (List.all_eq_true.not.mpr mixed)]

theorem mem_map_under_iff {leaf : List String × String} {step : String}
    {found : List (List String × String)} :
    leaf ∈ found.map (under step) ↔ ∃ path, leaf.1 = step :: path ∧ (path, leaf.2) ∈ found := by
  obtain ⟨path, text⟩ := leaf
  simp only [List.mem_map, under, Prod.mk.injEq, Prod.exists]
  constructor
  · rintro ⟨rest, text, member, rfl, rfl⟩
    exact ⟨rest, rfl, member⟩
  · rintro ⟨rest, rfl, member⟩
    exact ⟨rest, text, member, rfl, rfl⟩

mutual

/-- The leaves that are listed are those that paths lead to. -/
theorem mem_leaves_iff : ∀ (value : Value) (leaf : List String × String),
    leaf ∈ leaves value ↔ Leaf value leaf.1 leaf.2
  | .table entries, leaf => by
    rw [leaves, mem_leavesOfEntries_iff entries leaf, leaf_table_iff]
  | .array items, leaf => by
    by_cases single : ∀ item ∈ items, isScalar item = true
    · rw [leaves_of_scalars single, leaf_iff_of_scalars single, List.mem_singleton, Prod.ext_iff]
    · rw [leaves_of_mixed single, leaf_iff_of_mixed single, mem_leavesOfItems_iff items 0 leaf]
      simp only [Nat.zero_add]
  | .string _, leaf | .integer _, leaf | .float _, leaf | .boolean _, leaf | .datetime _, leaf
  | .misfit, leaf => by
    rw [leaves_of_isScalar rfl, leaf_iff_of_isScalar rfl, List.mem_singleton, Prod.ext_iff]

theorem mem_leavesOfEntries_iff : ∀ (entries : List (String × Value)) (leaf : List String × String),
    leaf ∈ leavesOfEntries entries ↔
      ∃ entry ∈ entries, ∃ path, leaf.1 = entry.1 :: path ∧ Leaf entry.2 path leaf.2
  | [], leaf => by simp [leavesOfEntries]
  | (key, value) :: rest, leaf => by
    rw [leavesOfEntries, List.mem_append, mem_map_under_iff, mem_leavesOfEntries_iff rest leaf]
    simp only [mem_leaves_iff value, List.mem_cons, exists_eq_or_imp]

theorem mem_leavesOfItems_iff : ∀ (items : List Value) (index : Nat) (leaf : List String × String),
    leaf ∈ leavesOfItems index items ↔
      ∃ offset item path, items[offset]? = some item ∧
        leaf.1 = toString (index + offset) :: path ∧ Leaf item path leaf.2
  | [], index, leaf => by simp [leavesOfItems]
  | item :: rest, index, leaf => by
    rw [leavesOfItems, List.mem_append, mem_map_under_iff,
      mem_leavesOfItems_iff rest (index + 1) leaf]
    simp only [mem_leaves_iff item]
    constructor
    · rintro (⟨path, steps, leaf⟩ | ⟨offset, found, path, there, steps, leaf⟩)
      · exact ⟨0, item, path, rfl, steps, leaf⟩
      · refine ⟨offset + 1, found, path, there, ?_, leaf⟩
        rw [steps, Nat.add_right_comm, Nat.add_assoc]
    · rintro ⟨offset, found, path, there, steps, leaf⟩
      cases offset with
      | zero =>
        cases there
        exact .inl ⟨path, steps, leaf⟩
      | succ offset =>
        refine .inr ⟨offset, found, path, there, ?_, leaf⟩
        rw [steps, Nat.add_right_comm, Nat.add_assoc]

end

/-! ## No leaf is met twice -/

/-- A number is told from its digits. -/
theorem eq_of_toString {first second : Nat} (same : toString first = toString second) :
    first = second := by
  have digits : Nat.toDigits 10 first = Nat.toDigits 10 second := by
    rw [← Nat.toList_repr, ← Nat.toList_repr, ← Nat.toString_eq_repr, same, Nat.toString_eq_repr]
  rw [← Nat.ofDigitChars_ten_toDigits (n := first), digits, Nat.ofDigitChars_ten_toDigits]

theorem nodup_map_under {found : List (List String × String)} (step : String)
    (distinct : (found.map (·.1)).Nodup) : ((found.map (under step)).map (·.1)).Nodup := by
  have steps : (found.map (under step)).map (·.1) = (found.map (·.1)).map (step :: ·) := by
    rw [List.map_map, List.map_map]
    rfl
  rw [steps]
  exact List.Nodup.map List.cons_injective distinct

theorem nodup_leavesOfEntries (distinct : (entries.map (·.1)).Nodup)
    (each : ∀ entry ∈ entries, ((leaves entry.2).map (·.1)).Nodup) :
    ((leavesOfEntries entries).map (·.1)).Nodup := by
  induction entries with
  | nil => exact List.nodup_nil
  | cons entry rest ih =>
    obtain ⟨single, distinct⟩ := List.nodup_cons.mp distinct
    obtain ⟨here, behind⟩ := List.forall_mem_cons.mp each
    rw [leavesOfEntries, List.map_append, List.nodup_append']
    refine ⟨nodup_map_under entry.1 here, ih distinct behind, ?_⟩
    intro path first second
    obtain ⟨leaf, member, rfl⟩ := List.mem_map.mp first
    obtain ⟨other, member', same⟩ := List.mem_map.mp second
    obtain ⟨_, start, _⟩ := mem_map_under_iff.mp member
    obtain ⟨entry', there, _, start', _⟩ := (mem_leavesOfEntries_iff rest other).mp member'
    rw [same, start] at start'
    exact single (List.mem_map.mpr ⟨entry', there, (List.cons.inj start').1.symm⟩)

theorem nodup_leavesOfItems (index : Nat)
    (each : ∀ item ∈ items, ((leaves item).map (·.1)).Nodup) :
    ((leavesOfItems index items).map (·.1)).Nodup := by
  induction items generalizing index with
  | nil => exact List.nodup_nil
  | cons item rest ih =>
    obtain ⟨here, behind⟩ := List.forall_mem_cons.mp each
    rw [leavesOfItems, List.map_append, List.nodup_append']
    refine ⟨nodup_map_under (toString index) here, ih (index + 1) behind, ?_⟩
    intro path first second
    obtain ⟨leaf, member, rfl⟩ := List.mem_map.mp first
    obtain ⟨other, member', same⟩ := List.mem_map.mp second
    obtain ⟨_, start, _⟩ := mem_map_under_iff.mp member
    obtain ⟨offset, _, _, _, start', _⟩ := (mem_leavesOfItems_iff rest (index + 1) other).mp member'
    rw [same, start] at start'
    have numbers := eq_of_toString (List.cons.inj start').1
    omega

/-- **The paths to the leaves are all different.** -/
theorem nodup_leaves (proper : value.Proper) : ((leaves value).map (·.1)).Nodup := by
  induction proper with
  | scalar single =>
    rw [leaves_of_isScalar single]
    exact List.nodup_singleton _
  | @array items _ ih =>
    by_cases single : ∀ item ∈ items, isScalar item = true
    · rw [leaves_of_scalars single]
      exact List.nodup_singleton _
    · rw [leaves_of_mixed single]
      exact nodup_leavesOfItems 0 ih
  | table distinct _ ih => exact nodup_leavesOfEntries distinct ih

/-! ## Keys -/

/-- The key of the property that a path leads to. -/
def keyOf (path : List String) : String := ".".intercalate path

theorem splitOn_keyOf (filled : path ≠ []) (plain : ∀ step ∈ path, '.' ∉ step.toList) :
    (keyOf path).toList.splitOn '.' = path.map String.toList := by
  rw [keyOf, String.toList_intercalate]
  exact List.splitOn_intercalate '.' (List.forall_mem_map.mpr plain) (by simpa using filled)

/-- Paths without dots are told from their keys. -/
theorem eq_of_keyOf {other : List String} (filled : path ≠ []) (filled' : other ≠ [])
    (plain : ∀ step ∈ path, '.' ∉ step.toList) (plain' : ∀ step ∈ other, '.' ∉ step.toList)
    (same : keyOf path = keyOf other) : path = other := by
  have cut : path.map String.toList = other.map String.toList := by
    rw [← splitOn_keyOf filled plain, same, splitOn_keyOf filled' plain']
  exact List.map_injective_iff.mpr (fun _ _ => String.toList_inj.mp) cut

theorem not_dot_mem_toString (index : Nat) : '.' ∉ (toString index).toList := by
  rw [Nat.toString_eq_repr, Nat.toList_repr]
  intro dot
  exact absurd (Nat.isDigit_of_mem_toDigits (by decide) (by decide) dot) (by decide)

/-- No step to a leaf has a dot when no key has. -/
theorem Leaf.plain (leaf : Leaf value path text) (dotless : value.Dotless) :
    ∀ step ∈ path, '.' ∉ step.toList := by
  induction leaf with
  | here _ => exact List.forall_mem_nil _
  | entry member _ ih =>
    obtain ⟨keys, each⟩ := Value.dotless_table_iff.mp dotless
    exact List.forall_mem_cons.mpr ⟨keys _ member, ih (each _ member)⟩
  | @item _ index _ _ _ _ found _ ih =>
    have each := Value.dotless_array_iff.mp dotless
    exact List.forall_mem_cons.mpr
      ⟨not_dot_mem_toString index, ih (each _ (List.mem_of_getElem? found))⟩

/-! ## Flattening lists the leaves -/

/-- What a leaf declares. -/
def declaredBy (transient : Bool) (leaf : List String × String) : Entry :=
  ⟨keyOf leaf.1, leaf.2, transient⟩

mutual

/-- A value is flattened to its leaves, each under the path that leads on from a key. -/
theorem flatten_eq : ∀ (value : Value) (key : String),
    flatten transient key value =
      (leaves value).map fun leaf => declaredBy transient (under key leaf)
  | .table entries, key => by
    rw [flatten, leaves, flattenEntries_eq entries key]
  | .array items, key => by
    by_cases single : ∀ item ∈ items, isScalar item = true
    · rw [leaves_of_scalars single, flatten, if_pos (List.all_eq_true.mpr single)]
      rfl
    · rw [leaves_of_mixed single, flatten, if_neg (List.all_eq_true.not.mpr single),
        flattenItems_eq items key 0]
  | .string _, key | .integer _, key | .float _, key | .boolean _, key | .datetime _, key
  | .misfit, key => rfl

theorem flattenEntries_eq : ∀ (entries : List (String × Value)) (key : String),
    flattenEntries transient key entries =
      (leavesOfEntries entries).map fun leaf => declaredBy transient (under key leaf)
  | [], key => rfl
  | (child, value) :: rest, key => by
    rw [flattenEntries, leavesOfEntries, flatten_eq value, flattenEntries_eq rest key,
      List.map_append, List.map_map]
    rfl

theorem flattenItems_eq : ∀ (items : List Value) (key : String) (index : Nat),
    flattenItems transient key index items =
      (leavesOfItems index items).map fun leaf => declaredBy transient (under key leaf)
  | [], key, index => rfl
  | item :: rest, key, index => by
    rw [flattenItems, leavesOfItems, flatten_eq item, flattenItems_eq rest key (index + 1),
      List.map_append, List.map_map]
    rfl

end

/-! ## The two parts of a layer file -/

/-- Whether an entry of a layer file is neither its includes nor the table of its transient
properties. -/
def isPlain (entry : String × Value) : Bool :=
  entry.1 != includeKey && !(entry.1 == varsKey && entry.2.entries?.isSome)

/-- The part of a layer file that declares transient properties, or the part that declares the
others. -/
def part (table : List (String × Value)) : Bool → List (String × Value)
  | true =>
    match table.lookup varsKey with
    | some (.table vars) => vars
    | _ => []
  | false => table.filter isPlain

/-- What a layer file declares with the one part or the other. -/
def emitted (table : List (String × Value)) (transient : Bool) : List Entry :=
  (table.flatMap fun entry => entriesOf entry.1 entry.2).filter (·.transient = transient)

theorem isPlain_iff {key : String} :
    isPlain (key, value) = true ↔
      key ≠ includeKey ∧ ¬ (key = varsKey ∧ ∃ vars, value = .table vars) := by
  cases value with
  | table vars => simp [isPlain, Value.entries?]
  | _ => simp [isPlain, Value.entries?]

/-- An entry of a layer file is its includes, the table of its transient properties, or plain. -/
theorem entry_cases (key : String) (value : Value) :
    key = includeKey ∨ (key = varsKey ∧ ∃ vars, value = .table vars) ∨
      isPlain (key, value) = true := by
  rw [isPlain_iff]
  tauto

theorem entriesOf_includeKey (value : Value) : entriesOf includeKey value = [] := by
  unfold entriesOf
  rw [if_pos (beq_self_eq_true includeKey)]

theorem entriesOf_varsKey (vars : List (String × Value)) :
    entriesOf varsKey (.table vars) = vars.flatMap fun entry => flatten true entry.1 entry.2 := by
  unfold entriesOf
  rw [if_neg (by decide), if_pos (beq_self_eq_true varsKey)]

theorem entriesOf_of_isPlain {key : String} (plain : isPlain (key, value) = true) :
    entriesOf key value = flatten false key value := by
  obtain ⟨notIncluded, notVars⟩ := isPlain_iff.mp plain
  unfold entriesOf
  rw [if_neg (by simpa using notIncluded)]
  by_cases named : key = varsKey
  · rw [if_pos (beq_iff_eq.mpr named)]
    cases value with
    | table vars => exact absurd ⟨named, vars, rfl⟩ notVars
    | _ => rfl
  · rw [if_neg (by simpa using named)]

/-- The values of a table are flattened to its leaves. -/
theorem flatMap_flatten (entries : List (String × Value)) :
    (entries.flatMap fun entry => flatten transient entry.1 entry.2) =
      (leaves (.table entries)).map (declaredBy transient) := by
  rw [leaves]
  induction entries with
  | nil => rfl
  | cons entry rest ih =>
    obtain ⟨key, value⟩ := entry
    rw [List.flatMap_cons, ih, flatten_eq, leavesOfEntries, List.map_append, List.map_map]
    rfl

/-- What is flattened is either all transient or all not. -/
theorem transient_of_mem_flatten {key : String} {entry : Entry}
    (member : entry ∈ flatten transient key value) : entry.transient = transient := by
  rw [flatten_eq] at member
  obtain ⟨leaf, _, rfl⟩ := List.mem_map.mp member
  rfl

theorem filter_flatten (key : String) :
    (flatten transient key value).filter (·.transient = transient) = flatten transient key value :=
  List.filter_eq_self.mpr fun _ member => decide_eq_true (transient_of_mem_flatten member)

theorem filter_flatten_of_ne {wanted : Bool} (other : transient ≠ wanted) (key : String) :
    (flatten transient key value).filter (·.transient = wanted) = [] :=
  List.filter_eq_nil_iff.mpr fun _ member => by
    rwa [transient_of_mem_flatten member, decide_eq_true_eq]

/-- The plain part of a layer file is flattened. -/
theorem emitted_plain (table : List (String × Value)) :
    emitted table false =
      (part table false).flatMap fun entry => flatten false entry.1 entry.2 := by
  induction table with
  | nil => rfl
  | cons entry rest ih =>
    obtain ⟨key, value⟩ := entry
    rw [emitted, List.flatMap_cons, List.filter_append, ← emitted, ih, part, part]
    rcases entry_cases key value with rfl | ⟨rfl, vars, rfl⟩ | plain
    · rw [entriesOf_includeKey, List.filter_cons_of_neg (by simp [isPlain_iff])]
      rfl
    · rw [entriesOf_varsKey, List.filter_cons_of_neg (by simp [isPlain_iff]), List.filter_flatMap]
      simp only [filter_flatten_of_ne (by decide : true ≠ false)]
      simp
    · rw [entriesOf_of_isPlain plain, filter_flatten, List.filter_cons_of_pos plain,
        List.flatMap_cons]

/-- Only the table of transient properties declares any. -/
theorem emitted_vars {table : List (String × Value)} (distinct : (table.map (·.1)).Nodup) :
    emitted table true =
      (part table true).flatMap fun entry => flatten true entry.1 entry.2 := by
  induction table with
  | nil => rfl
  | cons entry rest ih =>
    obtain ⟨key, value⟩ := entry
    obtain ⟨single, distinct⟩ := List.nodup_cons.mp distinct
    rw [emitted, List.flatMap_cons, List.filter_append, ← emitted, ih distinct, part, part,
      Dictionary.lookup_cons]
    rcases entry_cases key value with rfl | ⟨rfl, vars, rfl⟩ | plain
    · rw [entriesOf_includeKey, if_neg (show varsKey ≠ includeKey by decide)]
      rfl
    · rw [entriesOf_varsKey, if_pos rfl, Dictionary.lookup_eq_none_of_notMem single,
        List.filter_flatMap]
      simp only [filter_flatten, List.flatMap_nil, List.append_nil]
    · rw [entriesOf_of_isPlain plain, filter_flatten_of_ne (by decide), List.nil_append]
      by_cases named : varsKey = key
      · subst named
        rw [if_pos rfl, Dictionary.lookup_eq_none_of_notMem single]
        cases value with
        | table vars => exact absurd ⟨rfl, vars, rfl⟩ (isPlain_iff.mp plain).2
        | _ => rfl
      · rw [if_neg named]

/-- Each part of a layer file is flattened to its leaves. -/
theorem emitted_eq {table : List (String × Value)} (distinct : (table.map (·.1)).Nodup)
    (transient : Bool) :
    emitted table transient =
      (leaves (.table (part table transient))).map (declaredBy transient) := by
  cases transient with
  | false => rw [emitted_plain, flatMap_flatten]
  | true => rw [emitted_vars distinct, flatMap_flatten]

/-- What holds of a table and of the tables in it holds of each of its parts. -/
theorem part_induction {table : List (String × Value)} {holds : Value → Prop}
    (plain : holds (.table (table.filter isPlain))) (empty : holds (.table []))
    (vars : ∀ entry ∈ table, holds entry.2) (transient : Bool) :
    holds (.table (part table transient)) := by
  cases transient with
  | false => exact plain
  | true =>
    rw [part]
    split
    · next found =>
      obtain ⟨_, _, rfl, _⟩ := List.lookup_eq_some_iff.mp found
      exact vars _ (List.mem_append_right _ List.mem_cons_self)
    · exact empty

theorem proper_part {table : List (String × Value)} (proper : (Value.table table).Proper)
    (transient : Bool) : (Value.table (part table transient)).Proper := by
  obtain ⟨distinct, each⟩ := Value.proper_table_iff.mp proper
  refine part_induction ?_ (.table List.nodup_nil (List.forall_mem_nil _)) each transient
  exact .table (distinct.sublist (List.filter_sublist.map _))
    fun entry member => each entry (List.mem_of_mem_filter member)

theorem dotless_part {table : List (String × Value)} (dotless : (Value.table table).Dotless)
    (transient : Bool) : (Value.table (part table transient)).Dotless := by
  obtain ⟨keys, each⟩ := Value.dotless_table_iff.mp dotless
  refine part_induction ?_ (.table (List.forall_mem_nil _) (List.forall_mem_nil _)) each transient
  exact .table (fun entry member => keys entry (List.mem_of_mem_filter member))
    fun entry member => each entry (List.mem_of_mem_filter member)

/-! ## Keys of a part -/

/-- No leaf of a table is the table itself. -/
theorem Leaf.filled (leaf : Leaf (.table entries) path text) : path ≠ [] := by
  obtain ⟨_, _, _, rfl, _⟩ := leaf_table_iff.mp leaf
  exact List.cons_ne_nil _ _

/-- The leaves of a table have different keys. -/
theorem nodup_keyOf_leaves (proper : (Value.table entries).Proper)
    (dotless : (Value.table entries).Dotless) :
    (((leaves (.table entries)).map (·.1)).map keyOf).Nodup := by
  refine List.Nodup.map_on (fun path here other there same => ?_) (nodup_leaves proper)
  obtain ⟨leaf, member, rfl⟩ := List.mem_map.mp here
  obtain ⟨leaf', member', rfl⟩ := List.mem_map.mp there
  have leads := (mem_leaves_iff _ leaf).mp member
  have leads' := (mem_leaves_iff _ leaf').mp member'
  exact eq_of_keyOf leads.filled leads'.filled (leads.plain dotless) (leads'.plain dotless) same

/-- The entries of a part have different keys. -/
theorem nodup_keys_emitted {table : List (String × Value)} (proper : (Value.table table).Proper)
    (dotless : (Value.table table).Dotless) (transient : Bool) :
    ((emitted table transient).map (·.key)).Nodup := by
  have paths :=
    nodup_keyOf_leaves (proper_part proper transient) (dotless_part dotless transient)
  rw [List.map_map] at paths
  rw [emitted_eq (Value.proper_table_iff.mp proper).1, List.map_map]
  exact paths

/-- Of properties with different keys each one is in force. -/
theorem get?_inForce_of_nodup {met : List Property} (distinct : (met.map (·.key)).Nodup)
    {property : Property} :
    (Assembly.inForce met).get? property.key = some property ↔ property ∈ met := by
  have keys : ((met.map fun property => (property.key, property)).map (·.1)).Nodup := by
    rwa [List.map_map]
  rw [Assembly.inForce, Dictionary.get?_ofList, Dictionary.lookup_reverse keys,
    Dictionary.lookup_eq_some_iff_mem keys]
  constructor
  · intro member
    obtain ⟨other, there, same⟩ := List.mem_map.mp member
    obtain rfl : other = property := (Prod.mk.inj same).2
    exact there
  · exact fun member => List.mem_map.mpr ⟨property, member, rfl⟩

/-- Of entries with different keys each one declares a property that is in force. -/
theorem get?_inForce_property {declared : List Entry} (distinct : (declared.map (·.key)).Nodup)
    (layer : Layer) (component : Component) (environment : String) {entry : Entry}
    (member : entry ∈ declared) :
    (Assembly.inForce (declared.map (layer.property component environment))).get? entry.key =
      some (layer.property component environment entry) := by
  have keys : ((declared.map (layer.property component environment)).map (·.key)).Nodup := by
    rwa [List.map_map]
  exact (get?_inForce_of_nodup keys).mpr (List.mem_map.mpr ⟨entry, member, rfl⟩)

/-! ## Main result -/

/-- A layer has what the two parts of its file declare. -/
theorem entries_of_ofTable {origin : Path} {table : List (String × Value)} {layer : Layer}
    (holds : ofTable origin table = .ok layer) (transient : Bool) :
    layer.entries.filter (·.transient = transient) = emitted table transient := by
  cases given : table.lookup includeKey with
  | none =>
    simp only [ofTable, given] at holds
    cases holds
    rfl
  | some value =>
    simp only [ofTable, given] at holds
    cases includes : readIncludes origin value with
    | error error =>
      rw [includes] at holds
      cases holds
    | ok includes' =>
      rw [includes] at holds
      cases holds
      rfl

/-- **Flattening a layer file loses nothing.** When no key of its table has a dot in it, each part
declares one property for each of its leaves, in order: the key is the path to the leaf joined by
dots, and the value is the text of the leaf. The keys are all different, and so each property that
a part declares is in force among those of the part. That the keys in each table differ is so in all
files (`LayerFiles.proper_of_read`). -/
theorem layer_leaves {table : List (String × Value)} (proper : (Value.table table).Proper)
    (dotless : (Value.table table).Dotless) (transient : Bool) :
    ∃ found : List (List String × String),
      (∀ path text, (path, text) ∈ found ↔ Leaf (.table (part table transient)) path text) ∧
      (found.map (·.1)).Nodup ∧
      emitted table transient =
        found.map (fun leaf => ⟨".".intercalate leaf.1, leaf.2, transient⟩) ∧
      ((emitted table transient).map (·.key)).Nodup ∧
      (∀ origin layer, ofTable origin table = .ok layer →
        layer.entries.filter (·.transient = transient) = emitted table transient) ∧
      ∀ (layer : Layer) (component : Component) (environment : String),
        ∀ entry ∈ emitted table transient,
          (Assembly.inForce ((emitted table transient).map
            (layer.property component environment))).get? entry.key =
              some (layer.property component environment entry) := by
  have distinct := (Value.proper_table_iff.mp proper).1
  have keys := nodup_keys_emitted proper dotless transient
  refine ⟨leaves (.table (part table transient)), fun path text => mem_leaves_iff _ (path, text),
    nodup_leaves (proper_part proper transient), emitted_eq distinct transient, keys,
    fun _ _ holds => entries_of_ofTable holds transient, ?_⟩
  intro layer component environment entry member
  exact get?_inForce_property keys layer component environment member

/-- A layer file with nested tables, an empty array and a table of transient properties. -/
def hostsTable : List (String × Value) :=
  [("_include", .string "commons"), ("_vars", .table [("base", .string "/opt")]),
    ("hosts", .array [.table [("port", .integer 80)], .array []]), ("name", .string "web")]

theorem layer_leaves_hostsTable :
    (Value.table hostsTable).Proper ∧ (Value.table hostsTable).Dotless ∧
      emitted hostsTable true = [⟨"base", "/opt", true⟩] ∧
      emitted hostsTable false =
        [⟨"hosts.0.port", "80", false⟩, ⟨"hosts.1", "", false⟩, ⟨"name", "web", false⟩] ∧
      ∃ found : List (List String × String),
        (∀ path text, (path, text) ∈ found ↔ Leaf (.table (part hostsTable false)) path text) ∧
          (found.map (·.1)).Nodup ∧
          emitted hostsTable false =
            found.map fun leaf => ⟨".".intercalate leaf.1, leaf.2, false⟩ := by
  have proper : (Value.table hostsTable).Proper := by
    simp [hostsTable, Value.proper_table_iff, Value.proper_array_iff, Value.Proper.scalar,
      isScalar.eq_def]
  have dotless : (Value.table hostsTable).Dotless := by
    simp [hostsTable, Value.dotless_table_iff, Value.dotless_array_iff, Value.Dotless.scalar,
      isScalar.eq_def]
  obtain ⟨found, leads, distinct, emits, _⟩ := layer_leaves proper dotless false
  exact ⟨proper, dotless, by decide, by decide, found, leads, distinct, emits⟩

end DeployConfig.Layer

/-! ## Layers that are read from files -/

namespace DeployConfig.LayerFiles

open Toml (Value)
open Layer (Leaf emitted part)

/-- **A layer that is read from a file declares the leaves of the table that the file holds**, part
by part. There is one declaration for each leaf, and no path comes twice. If no key of the table
has a dot in it, the declarations of each part have different keys, and all of them are in force
among those of the part. -/
theorem leaves_of_readLayer {tree : FileTree} {path : Path} {layer : Layer}
    (read : readLayer tree path = .ok layer) :
    ∃ document table, tree.read path = .ok document ∧
      (Toml.parse? document).bind Value.entriesChecked? = some table ∧
      ∀ transient, let declared := layer.entries.filter (·.transient = transient)
        ∃ found : List (List String × String),
          (∀ steps text, (steps, text) ∈ found ↔
            Leaf (.table (part table transient)) steps text) ∧
          (found.map (·.1)).Nodup ∧
          declared = found.map (fun leaf => ⟨".".intercalate leaf.1, leaf.2, transient⟩) ∧
          ((Value.table table).Dotless →
            (declared.map (·.key)).Nodup ∧
            ∀ (component : Component) (environment : String), ∀ entry ∈ declared,
              (Assembly.inForce (declared.map (layer.property component environment))).get?
                  entry.key =
                some (layer.property component environment entry)) := by
  obtain ⟨document, table, held, parsed, holds⟩ := readLayer_eq_ok_iff.mp read
  have proper := proper_of_read parsed
  refine ⟨document, table, held, parsed, fun transient => ?_⟩
  intro declared
  have emits : declared = emitted table transient := Layer.entries_of_ofTable holds transient
  rw [emits]
  refine ⟨Layer.leaves (.table (part table transient)),
    fun steps text => Layer.mem_leaves_iff _ (steps, text),
    Layer.nodup_leaves (Layer.proper_part proper transient),
    Layer.emitted_eq (Value.proper_table_iff.mp proper).1 transient, fun dotless => ?_⟩
  have keys := Layer.nodup_keys_emitted proper dotless transient
  refine ⟨keys, fun component environment entry member => ?_⟩
  exact Layer.get?_inForce_property keys layer component environment member

/-- The items of an array that is no leaf are counted from zero, and an empty one among them is a
leaf. -/
example :
    ((Toml.parse? "hosts = [80, []]\nname = 'web'\n").bind Value.entriesChecked?).map
        (emitted · false) =
      some [⟨"hosts.0", "80", false⟩, ⟨"hosts.1", "", false⟩, ⟨"name", "web", false⟩] := by
  have parsed : (Toml.parse? "hosts = [80, []]\nname = 'web'\n").bind Value.entriesChecked? =
      some [("hosts", .array [.integer 80, .array []]), ("name", .string "web")] := by cbv
  rw [parsed]
  decide

end DeployConfig.LayerFiles
