import DeployConfig.Supply.Files

/-!
# Tables with different keys

In a table that is read from a document no key stands twice, and so it is in every table inside it
(`Value.Proper`). While a document is read, what it holds is put in order only at the end; but then
each of its tables is made from a dictionary, whatever was listed for it, and the same is done for
each inline table as soon as it is read. So all that is to be kept on the way is that the values
which are read already are proper (`Node.Sound`). The main results are `proper_parse` for documents
and `proper_of_read` for the files of layers.
-/

set_option autoImplicit false

namespace DeployConfig.Toml

variable {value : Value} {items : List Value} {entries : List (String × Value)}

namespace Value

/-- In every table of a value the keys are different. -/
inductive Proper : Value → Prop where
  | scalar {value : Value} (single : Layer.isScalar value = true) : Proper value
  | array {items : List Value} (each : ∀ item ∈ items, Proper item) : Proper (.array items)
  | table {entries : List (String × Value)} (distinct : (entries.map (·.1)).Nodup)
      (each : ∀ entry ∈ entries, Proper entry.2) : Proper (.table entries)

/-- In every table of a value the keys have no dots. -/
inductive Dotless : Value → Prop where
  | scalar {value : Value} (single : Layer.isScalar value = true) : Dotless value
  | array {items : List Value} (each : ∀ item ∈ items, Dotless item) : Dotless (.array items)
  | table {entries : List (String × Value)} (keys : ∀ entry ∈ entries, '.' ∉ entry.1.toList)
      (each : ∀ entry ∈ entries, Dotless entry.2) : Dotless (.table entries)

theorem proper_array_iff : (array items).Proper ↔ ∀ item ∈ items, item.Proper := by
  constructor
  · intro proper
    cases proper with
    | scalar none => cases none
    | array each => exact each
  · exact .array

theorem proper_table_iff :
    (table entries).Proper ↔ (entries.map (·.1)).Nodup ∧ ∀ entry ∈ entries, entry.2.Proper := by
  constructor
  · intro proper
    cases proper with
    | scalar none => cases none
    | table distinct each => exact ⟨distinct, each⟩
  · rintro ⟨distinct, each⟩
    exact .table distinct each

theorem dotless_array_iff : (array items).Dotless ↔ ∀ item ∈ items, item.Dotless := by
  constructor
  · intro dotless
    cases dotless with
    | scalar none => cases none
    | array each => exact each
  · exact .array

theorem dotless_table_iff :
    (table entries).Dotless ↔
      (∀ entry ∈ entries, '.' ∉ entry.1.toList) ∧ ∀ entry ∈ entries, entry.2.Dotless := by
  constructor
  · intro dotless
    cases dotless with
    | scalar none => cases none
    | table keys each => exact ⟨keys, each⟩
  · rintro ⟨keys, each⟩
    exact .table keys each

/-- A table that is put in order is proper, whatever its entries were listed like. -/
theorem proper_ofEntries (each : ∀ entry ∈ entries, entry.2.Proper) :
    (ofEntries entries).Proper := by
  refine .table (Dictionary.ofList entries).nodup_keys fun ⟨key, value⟩ member => ?_
  have found := Dictionary.get?_eq_some.mpr member
  rw [Dictionary.get?_ofList] at found
  obtain ⟨front, rest, split, _⟩ := List.lookup_eq_some_iff.mp found
  refine each (key, value) (List.mem_reverse.mp ?_)
  rw [split]
  exact List.mem_append_right _ List.mem_cons_self

end Value

/-! ## Documents on the way -/

/-- The values that a part of a document holds are proper. -/
inductive Node.Sound : Node → Prop where
  | value {value : Value} (proper : value.Proper) : Sound (.value value)
  | table {origin : Origin} {entries : List (String × Node)}
      (each : ∀ entry ∈ entries, Sound entry.2) : Sound (.table origin entries)
  | tables {items : List (List (String × Node))}
      (each : ∀ item ∈ items, ∀ entry ∈ item, Sound entry.2) : Sound (.tables items)

theorem entriesToValues_eq (nodes : List (String × Node)) :
    entriesToValues nodes = nodes.map fun entry => (entry.1, entry.2.toValue) := by
  induction nodes with
  | nil => rfl
  | cons entry rest ih => rw [entriesToValues, ih, List.map_cons]

theorem itemsToValues_eq (tables : List (List (String × Node))) :
    itemsToValues tables = tables.map fun item => .ofEntries (entriesToValues item) := by
  induction tables with
  | nil => rfl
  | cons item rest ih => rw [itemsToValues, ih, List.map_cons]

/-- A finished table is proper when the values in it are. -/
theorem proper_ofNodes {nodes : List (String × Node)}
    (each : ∀ entry ∈ nodes, entry.2.toValue.Proper) :
    (Value.ofEntries (entriesToValues nodes)).Proper := by
  rw [entriesToValues_eq]
  exact Value.proper_ofEntries (List.forall_mem_map.mpr each)

theorem Node.Sound.proper_toValue {node : Node} (sound : node.Sound) : node.toValue.Proper := by
  induction sound with
  | value proper => exact proper
  | table _ ih => exact proper_ofNodes ih
  | tables _ ih =>
    rw [Node.toValue, itemsToValues_eq]
    exact .array (List.forall_mem_map.mpr fun item member => proper_ofNodes (ih item member))

namespace Entries

/-- The values that the entries of a table hold are proper. -/
def Sound (nodes : Entries) : Prop :=
  ∀ entry ∈ nodes, entry.2.Sound

variable {nodes changed : Entries} {node : Node} {key : String}

theorem sound_nil : Sound [] := List.forall_mem_nil _

theorem Sound.concat (sound : Sound nodes) (key : String) (new : node.Sound) :
    Sound (nodes ++ [(key, node)]) :=
  List.forall_mem_append.mpr ⟨sound, List.forall_mem_singleton.mpr new⟩

theorem Sound.of_lookup (sound : Sound nodes) (found : nodes.lookup key = some node) :
    node.Sound := by
  obtain ⟨front, rest, rfl, _⟩ := List.lookup_eq_some_iff.mp found
  exact sound (key, node) (List.mem_append_right _ List.mem_cons_self)

theorem Sound.of_table {origin : Origin} {inner : Entries} (sound : Sound nodes)
    (found : nodes.lookup key = some (.table origin inner)) : Sound inner := by
  cases sound.of_lookup found with
  | table each => exact each

theorem Sound.of_tables {tables : List Entries} (sound : Sound nodes)
    (found : nodes.lookup key = some (.tables tables)) : ∀ item ∈ tables, Sound item := by
  cases sound.of_lookup found with
  | tables each => exact each

theorem Sound.set (sound : Sound nodes) (key : String) (new : node.Sound) :
    Sound (set key node nodes) := by
  induction nodes with
  | nil => exact List.forall_mem_singleton.mpr new
  | cons entry rest ih =>
    obtain ⟨here, behind⟩ := List.forall_mem_cons.mp sound
    unfold Entries.set
    split
    · exact List.forall_mem_cons.mpr ⟨new, behind⟩
    · exact List.forall_mem_cons.mpr ⟨here, ih behind⟩

theorem sound_of_add (sound : Sound nodes) (new : node.Sound)
    (added : add key node nodes = some changed) : Sound changed := by
  unfold add at added
  split at added
  · cases added
  · cases added
    exact sound.concat key new

/-- The tables of an array stay sound when the last of them is changed to a sound one. -/
theorem sound_changeLast {tables : List Entries} (each : ∀ item ∈ tables, Sound item)
    (new : Sound changed) :
    (Node.tables (tables.dropLast ++ [changed])).Sound :=
  .tables (List.forall_mem_append.mpr
    ⟨fun item member => each item (List.dropLast_subset _ member),
      List.forall_mem_singleton.mpr new⟩)

/-- A change deep inside a document leaves it sound when it does so to the table it is made in. -/
theorem sound_of_within {change : Entries → Option Entries}
    (keeps : ∀ {nodes changed : Entries}, Sound nodes → change nodes = some changed →
      Sound changed)
    (path : List String) (sound : Sound nodes) (done : within path change nodes = some changed) :
    Sound changed := by
  induction path generalizing nodes changed with
  | nil => exact keeps sound done
  | cons key path ih =>
    unfold within at done
    split at done
    · obtain ⟨inner, inside, done⟩ := Option.bind_eq_some_iff.mp done
      cases done
      exact sound.concat key (.table (ih sound_nil inside))
    · next found =>
      obtain ⟨inner, inside, done⟩ := Option.bind_eq_some_iff.mp done
      cases done
      exact sound.set key (.table (ih (sound.of_table found) inside))
    · next found =>
      split at done
      · next last =>
        obtain ⟨inner, inside, done⟩ := Option.bind_eq_some_iff.mp done
        cases done
        have each := sound.of_tables found
        have new := ih (each _ (List.mem_of_getLast? last)) inside
        exact sound.set key (sound_changeLast each new)
      · cases done
    · cases done

/-- Adding a dotted key makes tables on the way and changes those that are there. -/
theorem sound_of_addDotted (path : List String) {inDotted : Bool} (sound : Sound nodes)
    (new : node.Sound) (added : addDotted path key node inDotted nodes = some changed) :
    Sound changed := by
  induction path generalizing nodes changed inDotted with
  | nil =>
    unfold addDotted at added
    split at added
    · exact sound_of_add sound new added
    · cases added
  | cons first path ih =>
    unfold addDotted at added
    split at added
    · obtain ⟨inner, inside, added⟩ := Option.bind_eq_some_iff.mp added
      cases added
      exact sound.concat first (.table (ih sound_nil inside))
    · next found =>
      split at added
      · cases added
      · obtain ⟨inner, inside, added⟩ := Option.bind_eq_some_iff.mp added
        cases added
        exact sound.set first (.table (ih (sound.of_table found) inside))
    · next found =>
      split at added
      · next last =>
        obtain ⟨inner, inside, added⟩ := Option.bind_eq_some_iff.mp added
        cases added
        have each := sound.of_tables found
        have last := ih (each _ (List.mem_of_getLast? last)) inside
        exact sound.set first (sound_changeLast each last)
      · cases added
    · cases added

theorem sound_of_openTable (path : List String) (sound : Sound nodes)
    (opened : openTable path key nodes = some changed) : Sound changed := by
  refine sound_of_within (fun {parent changed} sound opened => ?_) path sound opened
  split at opened
  · cases opened
    exact sound.concat key (.table sound_nil)
  · next found =>
    cases opened
    exact sound.set key (.table (sound.of_table found))
  · cases opened

theorem sound_of_openItem (path : List String) (sound : Sound nodes)
    (opened : openItem path key nodes = some changed) : Sound changed := by
  refine sound_of_within (fun {parent changed} sound opened => ?_) path sound opened
  split at opened
  · cases opened
    exact sound.concat key (.tables (List.forall_mem_singleton.mpr sound_nil))
  · next found =>
    cases opened
    exact sound.set key (.tables (List.forall_mem_append.mpr
      ⟨sound.of_tables found, List.forall_mem_singleton.mpr sound_nil⟩))
  · cases opened

end Entries

/-! ## Readers -/

theorem isScalar_of_basedInteger? {base : Nat} {isDigit : Char → Bool} {word : List Char}
    (read : basedInteger? base isDigit word = some value) : Layer.isScalar value = true := by
  unfold basedInteger? at read
  split at read
  · cases read
    rfl
  · obtain ⟨_, _, rfl⟩ := Option.map_eq_some_iff.mp read
    rfl

theorem isScalar_of_integer? {word : List Char} (read : integer? word = some value) :
    Layer.isScalar value = true := by
  unfold integer? at read
  split at read
  · exact isScalar_of_basedInteger? read
  · exact isScalar_of_basedInteger? read
  · exact isScalar_of_basedInteger? read
  · simp only at read
    split at read
    · cases read
      rfl
    · split at read
      · cases read
        rfl
      · cases read

theorem isScalar_of_float? {word : List Char} (read : float? word = some value) :
    Layer.isScalar value = true := by
  unfold float? at read
  simp only at read
  split at read
  · cases read
    rfl
  · split at read
    · cases read
      rfl
    · obtain ⟨whole, _, read⟩ := Option.bind_eq_some_iff.mp read
      -- A number ends alike with a fraction and without, and so it does with an exponent.
      split at read
      all_goals
        obtain ⟨⟨fraction, behind⟩, _, read⟩ := Option.bind_eq_some_iff.mp read
        simp only at read
        split at read
        all_goals
          split at read
          all_goals
            obtain ⟨exponent, _, read⟩ := Option.bind_eq_some_iff.mp read
            split at read
            all_goals
              cases read
              rfl

theorem isScalar_of_atom? {word : List Char} (read : atom? word = some value) :
    Layer.isScalar value = true := by
  unfold atom? at read
  split at read
  · cases read
    rfl
  · split at read
    · cases read
      rfl
    · rw [Option.orElse_eq_orElse, Option.orElse_eq_or, Option.or_eq_some_iff,
        Option.orElse_eq_or, Option.or_eq_some_iff] at read
      rcases read with whole | ⟨_, number | ⟨_, moment⟩⟩
      · exact isScalar_of_integer? whole
      · exact isScalar_of_float? number
      · obtain ⟨_, _, rfl⟩ := Option.map_eq_some_iff.mp moment
        rfl

/-- An unquoted value is a scalar. -/
theorem isScalar_of_readAtom {text rest : List Char} (read : readAtom text = some (value, rest)) :
    Layer.isScalar value = true := by
  obtain ⟨_, atom, same⟩ := Option.map_eq_some_iff.mp read
  cases same
  exact isScalar_of_atom? atom

mutual

/-- A value is proper as soon as it is read. The induction is on the steps of the reader, with what
an inline table has so far as an invariant of its entries. -/
theorem proper_of_readValue : ∀ {steps depth : Nat} {text rest : List Char} {value : Value},
    readValue steps depth text = some (value, rest) → value.Proper
  | 0, _, _, _, _, read => by
    rw [readValue] at read
    cases read
  | steps + 1, depth, text, rest, value, read => by
    unfold readValue at read
    split at read
    · split at read
      · cases read
      · obtain ⟨behind, _, read⟩ := Option.bind_eq_some_iff.mp read
        obtain ⟨⟨items, _⟩, inside, read⟩ := Option.bind_eq_some_iff.mp read
        cases read
        exact .array (proper_of_readItems inside)
    · split at read
      · cases read
      · obtain ⟨behind, _, read⟩ := Option.bind_eq_some_iff.mp read
        obtain ⟨⟨entries, _⟩, inside, read⟩ := Option.bind_eq_some_iff.mp read
        cases read
        exact proper_ofNodes fun entry member =>
          (sound_of_readInline Entries.sound_nil inside entry member).proper_toValue
    · split at read
      · obtain ⟨_, _, same⟩ := Option.map_eq_some_iff.mp read
        cases same
        exact .scalar rfl
      · exact .scalar (isScalar_of_readAtom read)
    · cases read

theorem proper_of_readItems : ∀ {steps depth : Nat} {text rest : List Char} {items : List Value},
    readItems steps depth text = some (items, rest) → ∀ item ∈ items, item.Proper
  | 0, _, _, _, _, read => by
    rw [readItems] at read
    cases read
  | steps + 1, depth, text, rest, items, read => by
    unfold readItems at read
    split at read
    · cases read
      exact List.forall_mem_nil _
    · obtain ⟨⟨item, _⟩, first, read⟩ := Option.bind_eq_some_iff.mp read
      obtain ⟨behind, _, read⟩ := Option.bind_eq_some_iff.mp read
      split at read
      · obtain ⟨behind, _, read⟩ := Option.bind_eq_some_iff.mp read
        obtain ⟨⟨more, _⟩, others, read⟩ := Option.bind_eq_some_iff.mp read
        cases read
        exact List.forall_mem_cons.mpr ⟨proper_of_readValue first, proper_of_readItems others⟩
      · cases read
        exact List.forall_mem_singleton.mpr (proper_of_readValue first)
      · cases read

theorem sound_of_readInline : ∀ {steps depth : Nat} {nodes changed : Entries}
    {text rest : List Char}, nodes.Sound →
    readInline steps depth nodes text = some (changed, rest) → changed.Sound
  | 0, _, _, _, _, _, _, read => by
    rw [readInline] at read
    cases read
  | steps + 1, depth, nodes, changed, text, rest, sound, read => by
    unfold readInline at read
    split at read
    · cases read
      exact sound
    · obtain ⟨⟨key, value, _⟩, pair, read⟩ := Option.bind_eq_some_iff.mp read
      obtain ⟨more, added, read⟩ := Option.bind_eq_some_iff.mp read
      have sound := Entries.sound_of_addDotted _ sound (.value (proper_of_readPair pair)) added
      obtain ⟨behind, _, read⟩ := Option.bind_eq_some_iff.mp read
      split at read
      · obtain ⟨behind, _, read⟩ := Option.bind_eq_some_iff.mp read
        exact sound_of_readInline sound read
      · cases read
        exact sound
      · cases read

theorem proper_of_readPair : ∀ {skip : List Char → Option (List Char)} {steps depth : Nat}
    {text rest : List Char} {key : List String} {value : Value},
    readPair skip steps depth text = some (key, value, rest) → value.Proper
  | _, 0, _, _, _, _, _, read => by
    rw [readPair] at read
    cases read
  | skip, steps + 1, depth, text, rest, key, value, read => by
    unfold readPair at read
    obtain ⟨⟨key, _⟩, _, read⟩ := Option.bind_eq_some_iff.mp read
    obtain ⟨behind, _, read⟩ := Option.bind_eq_some_iff.mp read
    split at read
    · obtain ⟨behind, _, read⟩ := Option.bind_eq_some_iff.mp read
      obtain ⟨⟨value, _⟩, inside, read⟩ := Option.bind_eq_some_iff.mp read
      cases read
      exact proper_of_readValue inside
    · cases read

end

/-! ## Documents -/

/-- A line opens a table, adds one to an array of tables, or adds a value. -/
theorem sound_of_readLine {size : Nat} {draft changed : Draft} {text rest : List Char}
    (sound : draft.entries.Sound) (read : readLine size draft text = some (changed, rest)) :
    changed.entries.Sound := by
  unfold readLine at read
  split at read
  · obtain ⟨⟨key, _⟩, _, read⟩ := Option.bind_eq_some_iff.mp read
    simp only at read
    split at read
    · obtain ⟨entries, opened, read⟩ := Option.bind_eq_some_iff.mp read
      obtain ⟨_, _, read⟩ := Option.bind_eq_some_iff.mp read
      cases read
      exact Entries.sound_of_openItem _ sound opened
    · cases read
  · obtain ⟨⟨key, _⟩, _, read⟩ := Option.bind_eq_some_iff.mp read
    simp only at read
    split at read
    · obtain ⟨entries, opened, read⟩ := Option.bind_eq_some_iff.mp read
      obtain ⟨_, _, read⟩ := Option.bind_eq_some_iff.mp read
      cases read
      exact Entries.sound_of_openTable _ sound opened
    · cases read
  · obtain ⟨⟨key, value, _⟩, pair, read⟩ := Option.bind_eq_some_iff.mp read
    obtain ⟨entries, added, read⟩ := Option.bind_eq_some_iff.mp read
    obtain ⟨_, _, read⟩ := Option.bind_eq_some_iff.mp read
    cases read
    exact Entries.sound_of_within
      (fun sound => Entries.sound_of_addDotted _ sound (.value (proper_of_readPair pair)))
      _ sound added

theorem sound_of_readDocument {steps : Nat} {draft : Draft} {text : List Char} {nodes : Entries}
    (sound : draft.entries.Sound) (read : readDocument steps draft text = some nodes) :
    nodes.Sound := by
  induction steps generalizing draft text with
  | zero => cases read
  | succ steps ih =>
    obtain ⟨behind, _, read⟩ := Option.bind_eq_some_iff.mp read
    split at read
    · cases read
      exact sound
    · obtain ⟨⟨draft, rest⟩, line, read⟩ := Option.bind_eq_some_iff.mp read
      exact ih (sound_of_readLine sound line) read

/-- **The table that a document holds is proper.** -/
theorem proper_parse {document : String} (read : parse? document = some entries) :
    (Value.table entries).Proper := by
  obtain ⟨nodes, inside, read⟩ := Option.bind_eq_some_iff.mp read
  cases read
  exact proper_ofNodes fun entry member =>
    (sound_of_readDocument Entries.sound_nil inside entry member).proper_toValue

/-! ## Readers of values of any kind -/

namespace Value

mutual

/-- Checking changes no keys. A table that stands for a date and time is a table no more. -/
theorem Proper.of_checked? : ∀ {value checked : Value}, value.Proper →
    value.checked? = some checked → checked.Proper
  | .array items, checked, proper, read => by
    obtain ⟨items', inside, rfl⟩ := Option.map_eq_some_iff.mp read
    exact .array (proper_of_itemsChecked? (proper_array_iff.mp proper) inside)
  | .table entries, checked, proper, read => by
    unfold checked? at read
    split at read
    · obtain ⟨_, _, rfl⟩ := Option.map_eq_some_iff.mp read
      exact .scalar rfl
    · cases read
    · obtain ⟨distinct, each⟩ := proper_table_iff.mp proper
      obtain ⟨entries', inside, rfl⟩ := Option.map_eq_some_iff.mp read
      obtain ⟨keys, each'⟩ := proper_of_entriesChecked? each inside
      exact .table (keys ▸ distinct) each'
  | .integer _, _, _, read => by
    unfold checked? at read
    split at read
    · cases read
      exact .scalar rfl
    · cases read
  | .string _, _, _, read | .float _, _, _, read | .boolean _, _, _, read
  | .datetime _, _, _, read => by
    cases read
    exact .scalar rfl
  | .misfit, _, _, read => by cases read

theorem proper_of_itemsChecked? : ∀ {items checked : List Value}, (∀ item ∈ items, item.Proper) →
    itemsChecked? items = some checked → ∀ item ∈ checked, item.Proper
  | [], _, _, read => by
    cases read
    exact List.forall_mem_nil _
  | item :: rest, _, each, read => by
    obtain ⟨here, behind⟩ := List.forall_mem_cons.mp each
    obtain ⟨first, one, read⟩ := Option.bind_eq_some_iff.mp read
    obtain ⟨others, more, read⟩ := Option.bind_eq_some_iff.mp read
    cases read
    exact List.forall_mem_cons.mpr ⟨here.of_checked? one, proper_of_itemsChecked? behind more⟩

theorem proper_of_entriesChecked? : ∀ {entries checked : List (String × Value)},
    (∀ entry ∈ entries, entry.2.Proper) → entriesChecked? entries = some checked →
    checked.map (·.1) = entries.map (·.1) ∧ ∀ entry ∈ checked, entry.2.Proper
  | [], _, _, read => by
    cases read
    exact ⟨rfl, List.forall_mem_nil _⟩
  | (key, value) :: rest, _, each, read => by
    obtain ⟨here, behind⟩ := List.forall_mem_cons.mp each
    obtain ⟨first, one, read⟩ := Option.bind_eq_some_iff.mp read
    obtain ⟨others, more, read⟩ := Option.bind_eq_some_iff.mp read
    cases read
    obtain ⟨keys, each'⟩ := proper_of_entriesChecked? behind more
    exact ⟨congrArg (key :: ·) keys, List.forall_mem_cons.mpr ⟨here.of_checked? one, each'⟩⟩

end

end Value

end DeployConfig.Toml

namespace DeployConfig.LayerFiles

open Toml (Value)

/-- **The table of a layer file is proper.** -/
theorem proper_of_read {document : String} {table : List (String × Value)}
    (read : (Toml.parse? document).bind Value.entriesChecked? = some table) :
    (Value.table table).Proper := by
  obtain ⟨entries, parsed, checked⟩ := Option.bind_eq_some_iff.mp read
  obtain ⟨distinct, each⟩ := Value.proper_table_iff.mp (Toml.proper_parse parsed)
  obtain ⟨keys, each⟩ := Value.proper_of_entriesChecked? each checked
  exact .table (keys ▸ distinct) each

end DeployConfig.LayerFiles
