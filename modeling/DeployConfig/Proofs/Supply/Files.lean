import DeployConfig.Proofs.Layer.FileNames
import DeployConfig.Proofs.Supply.Includes
import Mathlib

/-!
# The properties that the files of a directory hold

The files of a component type are selected and put in order by their names alone
(`LayerRank.select`). When they include nothing, the walk through them lists their entries one file
after the other (`Assembly.performs_of_plain`), so that the last file that declares a key decides
what it is (`Assembly.get?_inForce_flatMap`). The main result, `LayerFiles.properties_spec`, says
which file that is: the one for the environment alone, or else the last by name of those for several
environments, or else the one for all.
-/

set_option autoImplicit false

namespace DeployConfig

/-- The property that a layer declares for a key: that of its last entry for it. -/
def Layer.declared? (layer : Layer) (component : Component) (environment key : String) :
    Option Property :=
  (layer.entries.reverse.find? (·.key = key)).map (layer.property component environment)

namespace Assembly

variable {load : Loader} {component : Component} {environment : String} {layers : List Layer}

/-! ## Layers without includes -/

/-- Layers that include nothing only list their entries. -/
theorem performs_of_plain (plain : ∀ layer ∈ layers, layer.includes = [])
    (started : List (String × String)) :
    Performs load (layers.flatMap (tasksOf component environment)) started []
      (.ok (layers.flatMap fun layer =>
        layer.entries.map (layer.property component environment))) := by
  induction layers with
  | nil => exact .done
  | cons layer rest ih =>
    obtain ⟨here, behind⟩ := List.forall_mem_cons.mp plain
    rw [List.flatMap_cons, tasksOf, here, List.map_nil, List.nil_append, List.singleton_append]
    exact .emit (ih behind)

theorem assembled_of_plain (loads : load component.type environment = .ok layers)
    (plain : ∀ layer ∈ layers, layer.includes = []) :
    assembled load component environment =
      .ok (inForce (layers.flatMap fun layer =>
        layer.entries.map (layer.property component environment))) := by
  have lists : Performs load (layers.flatMap (tasksOf component environment) ++ [])
      [(component.type, environment)] []
      (.ok (layers.flatMap fun layer =>
        layer.entries.map (layer.property component environment))) := by
    rw [List.append_nil]
    exact performs_of_plain plain _
  exact (Performs.expand List.not_mem_nil loads lists).assembled

/-- The last layer that declares a key decides what it is. -/
theorem get?_inForce_flatMap (layers : List Layer) (component : Component)
    (environment key : String) :
    (inForce (layers.flatMap fun layer =>
        layer.entries.map (layer.property component environment))).get? key =
      layers.reverse.findSome? (·.declared? component environment key) := by
  rw [get?_inForce, List.reverse_flatMap, List.find?_flatMap]
  congr 1
  funext layer
  rw [Function.comp_apply, ← List.map_reverse, List.find?_map]
  rfl

end Assembly

namespace LayerFiles

open LayerRank (IsWord nameOf select ofFileName?)

variable {tree : FileTree} {directories : ComponentDirectories} {type opening environment : String}
  {fileNames : List String} {held : String → Layer}

/-! ## The files of a directory -/

/-- A file is read as the layer that its text holds. -/
theorem readLayer_eq_ok {path : Path} {layer : Layer} (address : List String) (text : String)
    (table : List (String × Toml.Value)) (located : tree.locate path = some address)
    (there : tree.at? address = some (.file text.toUTF8))
    (parsed : (Toml.parse? text).bind Toml.Value.entriesChecked? = some table)
    (holds : Layer.ofTable path table = .ok layer) : readLayer tree path = .ok layer := by
  have valid : text.toUTF8.IsValidUTF8 := text.isValidUTF8
  have decoded : String.fromUTF8? text.toUTF8 = some text := by
    rw [String.fromUTF8?, dif_pos valid]
    rfl
  have read : tree.read path = .ok text := by
    simp only [FileTree.read, located, Option.bind_some, there, decoded]
  exact readLayer_eq_ok_iff.mpr ⟨text, table, read, parsed, holds⟩

/-- The directory of a component type has these files. Those that apply to an environment can be
read, and they include nothing. -/
structure Holds (tree : FileTree) (directories : ComponentDirectories)
    (type opening environment : String) (fileNames : List String) (held : String → Layer) :
    Prop where
  there : tree.isDirectory (directories.directory tree type) = true
  listed : (tree.namesIn (directories.directory tree type)).Perm fileNames
  read : ∀ fileName ∈ select fileNames opening environment,
    readLayer tree ((directories.directory tree type).join fileName) = .ok (held fileName)
  plain : ∀ fileName ∈ select fileNames opening environment, (held fileName).includes = []

theorem layers_of (tree : FileTree) (directories : ComponentDirectories)
    (opening type environment : String) :
    (of tree directories).layers opening type environment =
      if tree.isDirectory (directories.directory tree type) then
        (select (tree.namesIn (directories.directory tree type)) opening environment).mapM
          fun fileName => readLayer tree ((directories.directory tree type).join fileName)
      else .ok [] := by
  simp only [layers, layer_of]
  rfl

/-- The layers of an environment are what the files that apply hold. -/
theorem Holds.layers_eq (holds : Holds tree directories type opening environment fileNames held) :
    (of tree directories).layers opening type environment =
      .ok ((select fileNames opening environment).map held) := by
  rw [layers_of, if_pos holds.there, LayerRank.select_congr holds.listed]
  exact mapM_eq_ok holds.read

/-- The last file that declares a key decides what it is. -/
theorem Holds.exists_properties {component : Component} {configTypes : List ConfigType}
    {configType : String} {found : ConfigType}
    (configured : configTypes.find? (·.name == configType) = some found)
    (holds : Holds tree directories component.type found.fileOpening environment fileNames held) :
    ∃ properties,
      (of tree directories).properties configTypes component environment configType =
        .ok properties ∧
      ∀ key, properties.get? key =
        (select fileNames found.fileOpening environment).reverse.findSome? fun fileName =>
          (held fileName).declared? component environment key := by
  rw [LayerFiles.properties, configured]
  refine ⟨_, Assembly.assembled_of_plain holds.layers_eq ?_, fun key => ?_⟩
  · exact List.forall_mem_map.mpr holds.plain
  · rw [Assembly.get?_inForce_flatMap, ← List.map_reverse, List.findSome?_map]
    rfl

/-- **Which file decides what a property is hangs on the names of the files alone.** Of the files in
the directory of a component type, in whatever order they are listed, those apply to an environment
that are for all environments, that list it among several, and that are for it alone. They are layers
in this order, and those for several environments in the order of their names. So when they include
nothing, a property is what the file for the environment alone declares it to be, or else the last
by name of those for several environments that declare it, or else the file for all. -/
theorem properties_spec (prefixed : IsWord opening) (named : IsWord environment)
    (distinct : fileNames.Nodup) :
    ∃ several : List String, several.Pairwise (· < ·) ∧
      (∀ fileName, fileName ∈ several ↔ fileName ∈ fileNames ∧
        ∃ environments, 2 ≤ environments.length ∧ environment ∈ environments ∧
          (∀ part ∈ environments, IsWord part) ∧ fileName = nameOf (opening :: environments)) ∧
      (∀ listing : List String, listing.Perm fileNames →
        select listing opening environment =
          fileNames.filter (· = nameOf [opening]) ++
            (several ++ fileNames.filter (· = nameOf [opening, environment]))) ∧
      ∀ (tree : FileTree) (directories : ComponentDirectories) (held : String → Layer)
        (component : Component) (configTypes : List ConfigType) (configType : String)
        (found : ConfigType),
        configTypes.find? (·.name == configType) = some found → found.fileOpening = opening →
        Holds tree directories component.type opening environment fileNames held →
        ∃ properties,
          (of tree directories).properties configTypes component environment configType =
            .ok properties ∧
          ∀ key, properties.get? key =
            (fileNames.filter (· = nameOf [opening, environment]) ++
              (several.reverse ++ fileNames.filter (· = nameOf [opening]))).findSome? fun fileName =>
                (held fileName).declared? component environment key := by
  have base : LayerRank.namesOfRank fileNames opening environment .everywhere =
      fileNames.filter (· = nameOf [opening]) :=
    LayerRank.namesOfRank_eq_filter fileNames fun _ =>
      LayerRank.ofFileName?_everywhere_iff prefixed
  have own : LayerRank.namesOfRank fileNames opening environment .single =
      fileNames.filter (· = nameOf [opening, environment]) :=
    LayerRank.namesOfRank_eq_filter fileNames fun _ =>
      (LayerRank.ofFileName?_single_iff prefixed).trans (and_iff_right named)
  have ordered := LayerRank.select_eq_append fileNames opening environment
  rw [base, own] at ordered
  have perm := LayerRank.perm_namesOfRank fileNames opening environment .several
  refine ⟨LayerRank.namesOfRank fileNames opening environment .several, ?_, ?_, ?_, ?_⟩
  · have apart := perm.nodup_iff.mpr (distinct.filter _)
    exact ((LayerRank.pairwise_namesOfRank fileNames opening environment .several).and apart).imp
      fun both => lt_of_le_of_ne both.1 both.2
  · intro fileName
    rw [perm.mem_iff, List.mem_filter, decide_eq_true_iff, LayerRank.ofFileName?_several_iff prefixed]
  · intro listing listed
    rw [LayerRank.select_congr listed, ordered]
  · rintro tree directories held component configTypes configType found configured rfl holds
    obtain ⟨properties, supplied, decided⟩ := holds.exists_properties configured
    refine ⟨properties, supplied, fun key => ?_⟩
    rw [decided, ordered, List.reverse_append, List.reverse_append, List.append_assoc]
    congr 1
    simp [List.filter_eq]

/-- A directory with a file for all environments, two for several and one for `dev` alone. -/
def mixedTree : FileTree :=
  ⟨[(["components"], .directory),
    (["components", "api"], .directory),
    (["components", "api", "application.qa.dev.toml"],
      .file "host = 'two'\nport = '2'\n".toUTF8),
    (["components", "api", "application.dev.toml"], .file "port = '3'\n".toUTF8),
    (["components", "api", "application.toml"],
      .file "path = 'zero'\nhost = 'zero'\nport = '0'\n".toUTF8),
    (["components", "api", "application.dev.qa.toml"], .file "host = 'one'\n".toUTF8)]⟩

def mixedNames : List String :=
  ["application.toml", "application.dev.toml", "application.dev.qa.toml", "application.qa.dev.toml"]

def mixedLayer (fileName : String) : Layer where
  origin := some ((⟨"/components/api"⟩ : Path).join fileName)
  includes := []
  entries :=
    match fileName with
    | "application.toml" => [⟨"host", "zero", false⟩, ⟨"path", "zero", false⟩, ⟨"port", "0", false⟩]
    | "application.dev.qa.toml" => [⟨"host", "one", false⟩]
    | "application.qa.dev.toml" => [⟨"host", "two", false⟩, ⟨"port", "2", false⟩]
    | _ => [⟨"port", "3", false⟩]

theorem select_mixedNames :
    select mixedNames "application" "dev" =
      ["application.toml", "application.dev.qa.toml", "application.qa.dev.toml",
        "application.dev.toml"] := by
  cbv

theorem holds_mixed :
    Holds mixedTree (.below ⟨"/components"⟩) "api" "application" "dev" mixedNames mixedLayer := by
  have directory : (ComponentDirectories.below ⟨"/components"⟩).directory mixedTree "api" =
      ⟨"/components/api"⟩ := by decide +kernel
  refine ⟨?_, ?_, ?_, ?_⟩
  · rw [directory]
    decide +kernel
  · rw [directory]
    decide +kernel
  · rw [directory, select_mixedNames]
    simp only [List.forall_mem_cons, List.not_mem_nil, false_implies, implies_true, and_true]
    refine ⟨?_, ?_, ?_, ?_⟩
    · exact readLayer_eq_ok ["components", "api", "application.toml"]
        "path = 'zero'\nhost = 'zero'\nport = '0'\n"
        [("host", .string "zero"), ("path", .string "zero"), ("port", .string "0")]
        (by decide +kernel) (by rfl) (by cbv) (by rfl)
    · exact readLayer_eq_ok ["components", "api", "application.dev.qa.toml"] "host = 'one'\n"
        [("host", .string "one")] (by decide +kernel) (by rfl) (by cbv) (by rfl)
    · exact readLayer_eq_ok ["components", "api", "application.qa.dev.toml"]
        "host = 'two'\nport = '2'\n" [("host", .string "two"), ("port", .string "2")]
        (by decide +kernel) (by rfl) (by cbv) (by rfl)
    · exact readLayer_eq_ok ["components", "api", "application.dev.toml"] "port = '3'\n"
        [("port", .string "3")] (by decide +kernel) (by rfl) (by cbv) (by rfl)
  · intro fileName _
    rfl

/-- Each of three keys of `mixedTree` is decided by a file of another rank. -/
theorem properties_mixed :
    IsWord "application" ∧ IsWord "dev" ∧ mixedNames.Nodup ∧
      Holds mixedTree (.below ⟨"/components"⟩) "api" "application" "dev" mixedNames mixedLayer ∧
      ∃ properties, (of mixedTree (.below ⟨"/components"⟩)).properties
          [⟨"app", some "application"⟩] (.ofType "api") "dev" "app" = .ok properties ∧
        (properties.get? "path").map (·.value) = some "zero" ∧
        (properties.get? "host").map (·.value) = some "two" ∧
        (properties.get? "port").map (·.value) = some "3" := by
  have prefixed : IsWord "application" := by decide
  have named : IsWord "dev" := by decide
  have distinct : mixedNames.Nodup := by decide
  obtain ⟨several, _, _, selects, decides⟩ := properties_spec prefixed named distinct
  have base : mixedNames.filter (· = nameOf ["application"]) = ["application.toml"] := by decide
  have own : mixedNames.filter (· = nameOf ["application", "dev"]) = ["application.dev.toml"] := by
    decide
  have whole := selects mixedNames (.refl _)
  rw [select_mixedNames, base, own] at whole
  obtain rfl : ["application.dev.qa.toml", "application.qa.dev.toml"] = several :=
    List.append_cancel_right (List.cons.inj whole).2
  obtain ⟨properties, supplied, decided⟩ := decides mixedTree (.below ⟨"/components"⟩) mixedLayer
    (.ofType "api") [⟨"app", some "application"⟩] "app" ⟨"app", some "application"⟩ rfl rfl
    holds_mixed
  refine ⟨prefixed, named, distinct, holds_mixed, properties, supplied, ?_, ?_, ?_⟩
  · rw [decided, base, own]
    rfl
  · rw [decided, base, own]
    rfl
  · rw [decided, base, own]
    rfl

end LayerFiles

end DeployConfig
