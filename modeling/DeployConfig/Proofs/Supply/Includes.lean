import DeployConfig.Proofs.Layer.Assembly
import DeployConfig.Supply
import Mathlib.Data.List.ProdSigma

/-!
# Supplied properties are assembled

The walk through the layers of a component comes to an end when its includes lead to finitely many
pairs of type and environment. This is so wherever properties come from: the type of an include and
the environment it names are written out in one of finitely many batches of declarations
(`Declarations.properties_eq`), or in one of the files of a tree (`LayerFiles.properties_eq`). So no
request for properties is refused because includes lead too far, and the order in which layers are
performed (`Assembly.Performs`) is that of everything that is supplied (`Supply.load_eq`).
-/

set_option autoImplicit false

namespace DeployConfig

/-! ## Finitely many includes -/

/-- The pairs that includes lead to from a type in an environment. -/
def pairsOf (known : List Layer.Include) (type environment : String) : List (String × String) :=
  (type :: known.map (·.type)) ×ˢ (environment :: known.filterMap (·.environment))

/-- The layers of a loader list no other includes than these. -/
def Loader.IncludesOnly (load : Loader) (known : List Layer.Include) : Prop :=
  ∀ type environment layers, load type environment = .ok layers →
    ∀ layer ∈ layers, ∀ other ∈ layer.includes, other ∈ known

variable {known : List Layer.Include}

/-- With finitely many includes a walk stays among finitely many pairs. -/
theorem Loader.IncludesOnly.closedOn {load : Loader} (only : load.IncludesOnly known)
    (type environment : String) : load.ClosedOn (pairsOf known type environment) := by
  intro inType inEnvironment layers member loads layer held other listed
  have among : other ∈ known := only inType inEnvironment layers loads layer held other listed
  obtain ⟨_, inherited⟩ := List.mem_product.mp member
  refine List.mem_product.mpr ⟨List.mem_cons_of_mem _ (List.mem_map_of_mem among), ?_⟩
  cases pinned : other.environment with
  | none => exact inherited
  | some name =>
    exact List.mem_cons_of_mem _ (List.mem_filterMap.mpr ⟨other, among, pinned⟩)

/-- **With finitely many includes the properties of a component are those of the walk.** -/
theorem Loader.IncludesOnly.assembled {load : Loader} (only : load.IncludesOnly known)
    (component : Component) (environment : String) :
    ∃ loaded result, Assembly.Performs load [.expand component environment] [] loaded result ∧
      Assembly.assembled load component environment = result.map Assembly.inForce := by
  have start : (component.type, environment) ∈ pairsOf known component.type environment :=
    List.mem_product.mpr ⟨List.mem_cons_self, List.mem_cons_self⟩
  obtain ⟨loaded, result, performs⟩ := Assembly.exists_performs
    (only.closedOn component.type environment) [.expand component environment] []
    (List.forall_mem_singleton.mpr start)
  exact ⟨loaded, result, performs, performs.assembled⟩

/-! ## Declarations -/

namespace Declarations

/-- The includes of all layers. -/
def allIncludes (declarations : Declarations) : List Layer.Include :=
  declarations.batches.flatMap (·.layer.includes)

/-- The layers of each component type are among those that are declared. -/
theorem includesOnly_layers (declarations : Declarations) (configType : String) :
    Loader.IncludesOnly
      (fun type environment => .ok (declarations.layers configType type environment))
      declarations.allIncludes := by
  rintro type environment _ ⟨⟩ layer held other listed
  obtain ⟨batch, among, rfl⟩ := List.mem_map.mp held
  have member : batch ∈ declarations.batches := by
    rcases List.mem_append.mp among with shared | specific
    · exact List.mem_of_mem_filter (List.mem_of_mem_filter shared)
    · exact List.mem_of_mem_filter (List.mem_of_mem_filter specific)
  exact List.mem_flatMap.mpr ⟨batch, member, listed⟩

/-- **Declared properties are those of the walk through the declared layers**, which never fails. -/
theorem properties_eq (declarations : Declarations) (component : Component)
    (environment configType : String) :
    ∃ loaded emitted,
      Assembly.Performs
        (fun type environment => .ok (declarations.layers configType type environment))
        [.expand component environment] [] loaded (.ok emitted) ∧
      declarations.properties component environment configType =
        .ok (Assembly.inForce emitted) := by
  obtain ⟨loaded, result, performs, same⟩ :=
    (declarations.includesOnly_layers configType).assembled component environment
  cases result with
  | error error =>
    obtain ⟨_, _, fails⟩ := performs.exists_of_error
    cases fails
  | ok emitted => exact ⟨loaded, emitted, performs, same⟩

end Declarations

/-! ## Files -/

section Readings

variable {ε α β : Type}

/-- A reading in two parts gives something when both parts do. -/
theorem exists_of_bind_eq_ok {first : Except ε α} {next : α → Except ε β} {value : β}
    (accepted : first >>= next = .ok value) :
    ∃ middle, first = .ok middle ∧ next middle = .ok value := by
  cases first with
  | error error => cases accepted
  | ok middle => exact ⟨middle, rfl, accepted⟩

/-- What is read from a list is read from one of its items. -/
theorem exists_mem_of_mapM {f : α → Except ε β} {inputs : List α} {outputs : List β}
    (accepted : inputs.mapM f = .ok outputs) {output : β} (member : output ∈ outputs) :
    ∃ input ∈ inputs, f input = .ok output := by
  induction inputs generalizing outputs with
  | nil =>
    cases accepted
    cases member
  | cons head tail ih =>
    rw [List.mapM_cons] at accepted
    obtain ⟨value, here, accepted⟩ := exists_of_bind_eq_ok accepted
    obtain ⟨values, behind, accepted⟩ := exists_of_bind_eq_ok accepted
    cases accepted
    rcases List.mem_cons.mp member with rfl | later
    · exact ⟨head, List.mem_cons_self, here⟩
    · obtain ⟨input, among, gives⟩ := ih behind later
      exact ⟨input, List.mem_cons_of_mem _ among, gives⟩

/-- A list is read when each of its items is. -/
theorem mapM_eq_ok {f : α → Except ε β} {g : α → β} {inputs : List α}
    (gives : ∀ input ∈ inputs, f input = .ok (g input)) : inputs.mapM f = .ok (inputs.map g) := by
  induction inputs with
  | nil => rfl
  | cons head tail ih =>
    obtain ⟨here, behind⟩ := List.forall_mem_cons.mp gives
    rw [List.mapM_cons, here, ih behind]
    rfl

end Readings

namespace LayerFiles

/-- The texts that a value lists as includes. -/
def includeTexts : Toml.Value → List String
  | .string text => [text]
  | .array items => items.filterMap fun
    | .string text => some text
    | _ => none
  | _ => []

theorem parse?_of_readInclude {path : Path} {text : String} {other : Layer.Include}
    (read : Layer.readInclude path text = .ok other) : Layer.Include.parse? text = some other := by
  unfold Layer.readInclude at read
  split at read
  · next found =>
    cases read
    exact found
  · cases read

/-- Includes that are read from a value are written out in it. -/
theorem exists_text_of_readIncludes {path : Path} {value : Toml.Value}
    {includes : List Layer.Include} (read : Layer.readIncludes path value = .ok includes)
    {other : Layer.Include} (member : other ∈ includes) :
    ∃ text ∈ includeTexts value, Layer.Include.parse? text = some other := by
  unfold Layer.readIncludes at read
  split at read
  · next text =>
    obtain ⟨found, one, read⟩ := exists_of_bind_eq_ok read
    cases read
    cases List.mem_singleton.mp member
    exact ⟨text, List.mem_singleton_self _, parse?_of_readInclude one⟩
  · next items =>
    obtain ⟨texts, taken, read⟩ := exists_of_bind_eq_ok read
    obtain ⟨text, among, one⟩ := exists_mem_of_mapM read member
    obtain ⟨item, listed, same⟩ := exists_mem_of_mapM taken among
    refine ⟨text, List.mem_filterMap.mpr ⟨item, listed, ?_⟩, parse?_of_readInclude one⟩
    split at same
    · cases same
      rfl
    · cases same
  · cases read

/-- The includes that a document lists. -/
def includesOf (document : String) : List Layer.Include :=
  match (Toml.parse? document).bind Toml.Value.entriesChecked? with
  | none => []
  | some table =>
    ((table.lookup includeKey).elim [] includeTexts).filterMap Layer.Include.parse?

/-- The includes that the files of a tree list. -/
def allIncludes (tree : FileTree) : List Layer.Include :=
  tree.entries.flatMap fun entry =>
    match entry.2 with
    | .file content => (String.fromUTF8? content).elim [] includesOf
    | .directory => []

/-- The text of a file is one of the texts of the tree. -/
theorem exists_entry_of_read {tree : FileTree} {path : Path} {document : String}
    (read : tree.read path = .ok document) :
    ∃ address content, (address, .file content) ∈ tree.entries ∧
      String.fromUTF8? content = some document := by
  unfold FileTree.read at read
  split at read
  · next content found =>
    split at read
    · next text decoded =>
      cases read
      obtain ⟨address, _, there⟩ := Option.bind_eq_some_iff.mp found
      cases address with
      | nil => cases there
      | cons name rest =>
        obtain ⟨front, behind, split, _⟩ := List.lookup_eq_some_iff.mp there
        refine ⟨name :: rest, content, ?_, decoded⟩
        rw [split]
        exact List.mem_append_right _ List.mem_cons_self
    · cases read
  · cases read
  · cases read

/-- The includes of a layer are listed in the file that holds it. -/
theorem mem_allIncludes_of_readLayer {tree : FileTree} {path : Path} {layer : Layer}
    (read : readLayer tree path = .ok layer) {other : Layer.Include}
    (listed : other ∈ layer.includes) : other ∈ allIncludes tree := by
  obtain ⟨document, table, found, parsed, read⟩ := readLayer_eq_ok_iff.mp read
  obtain ⟨address, content, member, decoded⟩ := exists_entry_of_read found
  refine List.mem_flatMap.mpr ⟨(address, .file content), member, ?_⟩
  simp only [decoded, Option.elim_some, includesOf]
  rw [parsed]
  unfold Layer.ofTable at read
  cases given : table.lookup includeKey with
  | none =>
    rw [given] at read
    cases read
    cases listed
  | some value =>
    rw [given] at read
    obtain ⟨includes, listing, read⟩ := exists_of_bind_eq_ok read
    cases read
    simp only [given, Option.elim_some]
    exact List.mem_filterMap.mpr (exists_text_of_readIncludes listing listed)

/-- The layers of each component type are those that files of the tree hold. -/
theorem includesOnly_layers (tree : FileTree) (directories : ComponentDirectories)
    (opening : String) :
    Loader.IncludesOnly ((of tree directories).layers opening) (allIncludes tree) := by
  intro type environment layers loads layer held other listed
  unfold LayerFiles.layers at loads
  simp only at loads
  split at loads
  · obtain ⟨fileName, _, read⟩ := exists_mem_of_mapM loads held
    rw [layer_of] at read
    exact mem_allIncludes_of_readLayer read listed
  · cases loads
    cases held

/-- **Properties from files are those of the walk through the layers that the files hold.** -/
theorem properties_eq (tree : FileTree) (directories : ComponentDirectories)
    {configTypes : List ConfigType} {configType : String} {found : ConfigType}
    (configured : configTypes.find? (·.name == configType) = some found) (component : Component)
    (environment : String) :
    ∃ loaded result,
      Assembly.Performs ((of tree directories).layers found.fileOpening)
        [.expand component environment] [] loaded result ∧
      (of tree directories).properties configTypes component environment configType =
        result.map Assembly.inForce := by
  rw [properties, configured]
  exact (includesOnly_layers tree directories found.fileOpening).assembled component environment

end LayerFiles

/-! ## Supplies -/

namespace Supply

/-- The layers that the supply goes through for a config type. There are none for a config type that
it does not know. -/
def loader (supply : Supply) (files : LayerFiles) (configType : String) : Loader :=
  match supply.origin with
  | .declared declarations => fun type environment =>
    .ok (declarations.layers configType type environment)
  | .files configTypes =>
    match configTypes.find? (·.name == configType) with
    | none => fun _ _ => .error (.unknownConfigType configType)
    | some found => files.layers found.fileOpening

/-- A supply reads what is assembled from its layers. -/
theorem load_eq (supply : Supply) (files : LayerFiles) (request : SupplyKey) :
    supply.load files request =
      Assembly.assembled (supply.loader files request.configType) request.component
        request.environment := by
  obtain ⟨origin, kept⟩ := supply
  cases origin with
  | declared declarations => rfl
  | files configTypes =>
    simp only [load, loader, LayerFiles.properties]
    cases configTypes.find? (·.name == request.configType) with
    | none => exact (Assembly.Performs.fail List.not_mem_nil rfl).assembled.symm
    | some found => rfl

/-- The layers of a supply list finitely many includes. -/
theorem exists_includesOnly (supply : Supply) (tree : FileTree)
    (directories : ComponentDirectories) (configType : String) :
    ∃ known, (supply.loader (.of tree directories) configType).IncludesOnly known := by
  obtain ⟨origin, kept⟩ := supply
  cases origin with
  | declared declarations => exact ⟨_, declarations.includesOnly_layers configType⟩
  | files configTypes =>
    simp only [loader]
    split
    · exact ⟨[], nofun⟩
    · exact ⟨_, LayerFiles.includesOnly_layers tree directories _⟩

end Supply

end DeployConfig
