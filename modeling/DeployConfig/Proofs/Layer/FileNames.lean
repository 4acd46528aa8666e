import DeployConfig.Layer.FileName
import DeployConfig.Proofs.Placeholder.Grammar
import Mathlib.Data.List.Sort
import Mathlib.Data.Prod.Lex
import Mathlib.Data.String.Basic

/-!
# Which files are layers, and in which order

The name of a layer file joins words by dots and ends in its extension (`LayerRank.nameOf`): first
the word that the files of a config type start with, and then the environments that the file is for.
Words have no dots, so a name is read as the words that it joins, and no other text is read
(`LayerRank.parts?_eq_some_iff`). From this it follows which files are layers of an environment, and
of which rank (`LayerRank.ofFileName?_eq_some_iff`).

Files are put in order by rank and then by name. The order does not hang on how they are listed
(`LayerRank.select_congr`), and the files of each rank stand together
(`LayerRank.select_eq_append`).

Names of environments are written in brackets too, and there they may have dots and the letters of
every script. An environment has a file of its own only if its name is a word
(`LayerRank.ownFile_spec`).
-/

set_option autoImplicit false

namespace DeployConfig

/-! ## Cutting a text and joining its parts -/

namespace Text

/-- Cutting at every separator is what the library calls splitting. -/
theorem splitAll_eq_splitOn (separator : Char) (text : List Char) :
    splitAll (· == separator) text = text.splitOn separator := by
  rw [List.splitOn]
  induction text with
  | nil => rfl
  | cons c rest ih =>
    rw [splitAll, ih, List.splitOnP_cons_eq_if_modifyHead]
    split
    · rfl
    · cases parts : rest.splitOnP (· == separator) with
      | nil => exact absurd parts (List.splitOnP_ne_nil _ _)
      | cons first others => rfl

end Text

namespace LayerRank

open Written (IsRun)

/-! ## Names of files -/

/-- The parts of a name are words: letters, digits, underscores and hyphens of ASCII. -/
abbrev IsWord (part : String) : Prop := IsRun isNameChar part.toList

/-- The name of the layer file with these parts. -/
def nameOf (parts : List String) : String := ".".intercalate (parts ++ ["toml"])

example : nameOf ["application", "dev", "qa"] = "application.dev.qa.toml" := by decide

variable {fileName opening environment : String} {parts environments : List String}
  {rank : LayerRank}

theorem toList_nameOf (parts : List String) :
    (nameOf parts).toList =
      ['.'].intercalate (parts.map String.toList ++ [['t', 'o', 'm', 'l']]) := by
  rw [nameOf, String.toList_intercalate, List.map_append]
  rfl

/-- The dots of a file name stand between its parts and nowhere else. -/
theorem splitAll_nameOf (words : ∀ part ∈ parts, IsWord part) :
    Text.splitAll (· == '.') (nameOf parts).toList =
      parts.map String.toList ++ [['t', 'o', 'm', 'l']] := by
  rw [Text.splitAll_eq_splitOn, toList_nameOf]
  refine List.splitOn_intercalate '.' (List.forall_mem_append.mpr ⟨?_, ?_⟩) (by simp)
  · intro word member dot
    obtain ⟨part, among, rfl⟩ := List.mem_map.mp member
    have isNameChar := (words part among).2 '.' dot
    cases isNameChar
  · exact List.forall_mem_singleton.mpr (by decide)

/-- A name is read when words stand in front of its extension. -/
theorem parts?_of_split {front : List (List Char)} {last : List Char}
    (split : Text.splitAll (· == '.') fileName.toList = front ++ [last]) :
    parts? fileName =
      if last = ['t', 'o', 'm', 'l'] ∧ front ≠ [] ∧ ∀ word ∈ front, IsRun isNameChar word then
        some (front.map String.ofList)
      else none := by
  simp only [parts?, split, List.getLast?_concat, List.dropLast_concat]
  cases front with
  | nil => simp
  | cons first rest =>
    by_cases ends : last = ['t', 'o', 'm', 'l']
    · subst ends
      simp [IsRun]
    · rw [if_neg fun named => ends named.1]
      split
      · next same _ => exact absurd (Option.some.inj same) ends
      · rfl

/-- **The parts of a file name are the words that it joins.** -/
theorem parts?_eq_some_iff :
    parts? fileName = some parts ↔
      parts ≠ [] ∧ (∀ part ∈ parts, IsWord part) ∧ fileName = nameOf parts := by
  constructor
  · intro read
    have some_part : Text.splitAll (· == '.') fileName.toList ≠ [] := by
      rw [Text.splitAll_eq_splitOn]
      exact List.splitOnP_ne_nil _ _
    obtain ⟨front, last, split⟩ := (List.eq_nil_or_concat _).resolve_left some_part
    rw [List.concat_eq_append] at split
    rw [parts?_of_split split] at read
    split at read
    · next words =>
      obtain ⟨rfl, filled, words⟩ := words
      cases read
      refine ⟨by simpa using filled, ?_, String.toList_inj.mp ?_⟩
      · intro part member
        obtain ⟨word, among, rfl⟩ := List.mem_map.mp member
        rw [IsWord, String.toList_ofList]
        exact words word among
      · have whole : (front.map String.ofList).map String.toList = front := by
          simp [Function.comp_def]
        rw [toList_nameOf, whole, ← split, Text.splitAll_eq_splitOn, List.intercalate_splitOn]
    · cases read
  · rintro ⟨filled, words, rfl⟩
    have isWord : ∀ word ∈ parts.map String.toList, IsRun isNameChar word :=
      List.forall_mem_map.mpr words
    rw [parts?_of_split (splitAll_nameOf words),
      if_pos ⟨rfl, List.map_eq_nil_iff.not.mpr filled, isWord⟩]
    simp [Function.comp_def]

/-! ## Ranks -/

/-- The rank of a file that lists these environments in its name, for one of them. A file that lists
none is for all. -/
inductive Ranks (environment : String) : LayerRank → List String → Prop where
  | everywhere : Ranks environment .everywhere []
  | several {environments : List String} (two : 2 ≤ environments.length)
      (listed : environment ∈ environments) : Ranks environment .several environments
  | single : Ranks environment .single [environment]

/-- **The files that are layers of an environment are those that list it, or nothing, behind the
prefix.** -/
theorem ofFileName?_eq_some_iff :
    ofFileName? fileName opening environment = some rank ↔
      ∃ environments, Ranks environment rank environments ∧
        (∀ part ∈ opening :: environments, IsWord part) ∧
        fileName = nameOf (opening :: environments) := by
  constructor
  · intro ranked
    unfold ofFileName? at ranked
    split at ranked
    · next first environments read =>
      obtain ⟨_, words, rfl⟩ := parts?_eq_some_iff.mp read
      split at ranked
      · next same =>
        obtain rfl : first = opening := beq_iff_eq.mp same
        refine ⟨environments, ?_, words, rfl⟩
        split at ranked
        · cases ranked
          exact .everywhere
        · next only =>
          split at ranked
          · next here =>
            cases ranked
            cases beq_iff_eq.mp here
            exact .single
          · cases ranked
        · next none one =>
          split at ranked
          · next listed =>
            cases ranked
            refine .several ?_ (List.contains_iff_mem.mp listed)
            match environments with
            | [] => exact absurd rfl none
            | [only] => exact absurd rfl (one only)
            | _ :: _ :: _ => exact Nat.le_add_left 2 _
          · cases ranked
      · cases ranked
    · cases ranked
  · rintro ⟨environments, ranks, words, rfl⟩
    have read : parts? (nameOf (opening :: environments)) = some (opening :: environments) :=
      parts?_eq_some_iff.mpr ⟨by simp, words, rfl⟩
    simp only [ofFileName?, read, beq_self_eq_true, if_true]
    cases ranks with
    | everywhere => rfl
    | single => exact if_pos (beq_self_eq_true environment)
    | several two listed =>
      split
      · cases listed
      · next only => exact absurd two (by simp)
      · exact if_pos (List.contains_iff_mem.mpr listed)

theorem ofFileName?_everywhere_iff (prefixed : IsWord opening) :
    ofFileName? fileName opening environment = some .everywhere ↔ fileName = nameOf [opening] := by
  rw [ofFileName?_eq_some_iff]
  constructor
  · rintro ⟨_, ⟨⟩, _, same⟩
    exact same
  · intro same
    exact ⟨[], .everywhere, List.forall_mem_singleton.mpr prefixed, same⟩

theorem ofFileName?_several_iff (prefixed : IsWord opening) :
    ofFileName? fileName opening environment = some .several ↔
      ∃ environments, 2 ≤ environments.length ∧ environment ∈ environments ∧
        (∀ part ∈ environments, IsWord part) ∧ fileName = nameOf (opening :: environments) := by
  rw [ofFileName?_eq_some_iff]
  constructor
  · rintro ⟨environments, ⟨⟩, words, same⟩
    next two listed => exact ⟨environments, two, listed, (List.forall_mem_cons.mp words).2, same⟩
  · rintro ⟨environments, two, listed, words, same⟩
    exact ⟨environments, .several two listed, List.forall_mem_cons.mpr ⟨prefixed, words⟩, same⟩

theorem ofFileName?_single_iff (prefixed : IsWord opening) :
    ofFileName? fileName opening environment = some .single ↔
      IsWord environment ∧ fileName = nameOf [opening, environment] := by
  rw [ofFileName?_eq_some_iff]
  constructor
  · rintro ⟨_, ⟨⟩, words, same⟩
    exact ⟨words environment (by simp), same⟩
  · rintro ⟨named, same⟩
    refine ⟨[environment], .single, ?_, same⟩
    exact List.forall_mem_cons.mpr ⟨prefixed, List.forall_mem_singleton.mpr named⟩

/-! ## The order of files -/

theorem toNat_inj {other : LayerRank} : rank.toNat = other.toNat ↔ rank = other := by
  cases rank <;> cases other <;> simp [toNat]

/-- Files are ordered by the number of their rank, and then by name. -/
def place (file : LayerRank × String) : ℕ ×ₗ String :=
  toLex (file.1.toNat, file.2)

theorem le_iff {first second : LayerRank × String} :
    le first second = true ↔ place first ≤ place second := by
  rw [place, place, Prod.Lex.toLex_le_toLex]
  simp [le]

theorem toNat_le_of_le {first second : LayerRank × String} (lower : le first second = true) :
    first.1.toNat ≤ second.1.toNat := by
  simp only [le, Bool.or_eq_true, Bool.and_eq_true, decide_eq_true_eq, beq_iff_eq] at lower
  omega

theorem name_le_of_le {first second : LayerRank × String} (lower : le first second = true)
    (same : first.1 = second.1) : first.2 ≤ second.2 := by
  simp only [le, same, Nat.lt_irrefl, decide_false, Bool.false_or, beq_self_eq_true,
    Bool.true_and, decide_eq_true_eq] at lower
  exact lower

theorem eq_of_le_of_le {first second : LayerRank × String} (lower : le first second = true)
    (upper : le second first = true) : first = second := by
  have same := toLex_inj.mp (le_antisymm (le_iff.mp lower) (le_iff.mp upper))
  obtain ⟨ranks, names⟩ := Prod.mk.inj same
  exact Prod.ext (toNat_inj.mp ranks) names

theorem pairwise_le_mergeSort (files : List (LayerRank × String)) :
    (files.mergeSort le).Pairwise fun first second => le first second = true := by
  apply List.pairwise_mergeSort
  · intro first second third lower upper
    exact le_iff.mpr ((le_iff.mp lower).trans (le_iff.mp upper))
  · intro first second
    rw [Bool.or_eq_true, le_iff, le_iff]
    exact le_total (place first) (place second)

/-- **The order in which files are listed does not matter.** -/
theorem select_congr {fileNames others : List String} (listed : others.Perm fileNames)
    (opening environment : String) :
    select others opening environment = select fileNames opening environment := by
  refine congrArg (List.map Prod.snd) ?_
  refine List.Perm.eq_of_pairwise (fun _ _ _ _ => eq_of_le_of_le) (pairwise_le_mergeSort _)
    (pairwise_le_mergeSort _) ?_
  refine (List.mergeSort_perm _ le).trans (List.Perm.trans ?_ (List.mergeSort_perm _ le).symm)
  exact listed.filterMap _

/-- Files that are in order come rank by rank. -/
theorem eq_append_of_pairwise {files : List (LayerRank × String)}
    (ordered : files.Pairwise fun first second => le first second = true) :
    files = files.filter (·.1 = .everywhere) ++
      (files.filter (·.1 = .several) ++ files.filter (·.1 = .single)) := by
  induction files with
  | nil => rfl
  | cons file rest ih =>
    obtain ⟨first, behind⟩ := List.pairwise_cons.mp ordered
    have ranked := ih behind
    -- The first file ranks lowest, so the parts in front of its own part are empty behind it.
    have none_below : ∀ rank : LayerRank, rank.toNat < file.1.toNat →
        rest.filter (·.1 = rank) = [] := by
      intro rank below
      refine List.filter_eq_nil_iff.mpr fun other member => ?_
      rw [decide_eq_true_eq]
      rintro rfl
      exact absurd (toNat_le_of_le (first other member)) (Nat.not_le.mpr below)
    obtain ⟨rank, name⟩ := file
    cases rank with
    | everywhere =>
      simp only [List.filter_cons, decide_true, reduceCtorEq, decide_false, if_true,
        Bool.false_eq_true, if_false, List.cons_append, ← ranked]
    | several =>
      have front := none_below .everywhere Nat.zero_lt_one
      rw [front, List.nil_append] at ranked
      simp only [List.filter_cons, decide_true, reduceCtorEq, decide_false, if_true,
        Bool.false_eq_true, if_false, front, List.nil_append, List.cons_append, ← ranked]
    | single =>
      have front := none_below .everywhere Nat.zero_lt_two
      have middle := none_below .several Nat.one_lt_two
      rw [front, middle, List.nil_append, List.nil_append] at ranked
      simp only [List.filter_cons, decide_true, reduceCtorEq, decide_false, if_true,
        Bool.false_eq_true, if_false, front, middle, List.nil_append, ← ranked]

/-- The files of one rank among those that apply, in the order of layers. -/
def namesOfRank (fileNames : List String) (opening environment : String) (rank : LayerRank) :
    List String :=
  let ranked := fileNames.filterMap fun fileName =>
    (ofFileName? fileName opening environment).map fun rank => (rank, fileName)
  ((ranked.mergeSort le).filter (·.1 = rank)).map (·.2)

theorem select_eq_append (fileNames : List String) (opening environment : String) :
    select fileNames opening environment =
      namesOfRank fileNames opening environment .everywhere ++
        (namesOfRank fileNames opening environment .several ++
          namesOfRank fileNames opening environment .single) := by
  simp only [namesOfRank, ← List.map_append, ← eq_append_of_pairwise (pairwise_le_mergeSort _)]
  rfl

/-- They are the files that have this rank. -/
theorem perm_namesOfRank (fileNames : List String) (opening environment : String)
    (rank : LayerRank) :
    (namesOfRank fileNames opening environment rank).Perm
      (fileNames.filter (ofFileName? · opening environment = some rank)) := by
  refine (((List.mergeSort_perm _ le).filter _).map _).trans (List.Perm.of_eq ?_)
  induction fileNames with
  | nil => rfl
  | cons fileName rest ih =>
    rw [List.filter_cons, List.filterMap_cons]
    cases ranked : ofFileName? fileName opening environment with
    | none => simpa using ih
    | some found =>
      by_cases same : found = rank
      · simpa [same] using ih
      · simpa [same] using ih

/-- They are in the order of their names. -/
theorem pairwise_namesOfRank (fileNames : List String) (opening environment : String)
    (rank : LayerRank) :
    (namesOfRank fileNames opening environment rank).Pairwise (· ≤ ·) := by
  refine List.pairwise_map.mpr ?_
  refine List.Pairwise.imp_of_mem ?_ ((pairwise_le_mergeSort _).filter _)
  intro first second member memberToo lower
  have rankFirst := of_decide_eq_true (List.mem_filter.mp member).2
  have rankSecond := of_decide_eq_true (List.mem_filter.mp memberToo).2
  exact name_le_of_le lower (rankFirst.trans rankSecond.symm)

/-- Only one name may have the rank. -/
theorem namesOfRank_eq_filter {name : String} (fileNames : List String)
    (alone : ∀ fileName, ofFileName? fileName opening environment = some rank ↔ fileName = name) :
    namesOfRank fileNames opening environment rank = fileNames.filter (· = name) := by
  have perm := perm_namesOfRank fileNames opening environment rank
  simp only [alone] at perm
  rw [List.filter_eq] at perm ⊢
  exact List.perm_replicate.mp perm

/-! ## An environment with a file of its own -/

/-- The characters of words are those of identifiers, without the dot and within ASCII. -/
theorem isNameChar_iff {c : Char} :
    isNameChar c = true ↔ isIdentifierChar c = true ∧ c ≠ '.' ∧ c.toNat < 0x80 := by
  simp only [isNameChar, isIdentifierChar, Bool.or_eq_true, beq_iff_eq]
  constructor
  · rintro ((known | rfl) | rfl)
    · refine ⟨?_, ?_, Text.toNat_lt_of_isAlphanum known⟩
      · exact .inl (.inl (.inl (Text.isAlphanumeric_of_isAlphanum known)))
      · rintro rfl
        cases known
    · decide
    · decide
  · rintro ⟨((known | dot) | underscore) | hyphen, plain, ascii⟩
    · rw [Text.isAlphanumeric, if_pos ascii] at known
      exact .inl (.inl known)
    · exact absurd dot plain
    · exact .inl (.inr underscore)
    · exact .inr hyphen

/-- A word is a name that may stand in brackets, has no dot and is written in ASCII. -/
theorem isWord_iff :
    IsWord environment ↔ IsRun isIdentifierChar environment.toList ∧
      '.' ∉ environment.toList ∧ ∀ c ∈ environment.toList, c.toNat < 0x80 := by
  constructor
  · rintro ⟨filled, chars⟩
    refine ⟨⟨filled, fun c member => (isNameChar_iff.mp (chars c member)).1⟩, ?_, ?_⟩
    · intro dot
      exact (isNameChar_iff.mp (chars '.' dot)).2.1 rfl
    · intro c member
      exact (isNameChar_iff.mp (chars c member)).2.2
  · rintro ⟨⟨filled, chars⟩, plain, ascii⟩
    refine ⟨filled, fun c member => isNameChar_iff.mpr ⟨chars c member, ?_, ascii c member⟩⟩
    rintro rfl
    exact plain member

theorem nameOf_cons (opening : String) (filled : environments ≠ []) :
    nameOf (opening :: environments) =
      opening ++ "." ++ (".".intercalate environments ++ "." ++ "toml") := by
  rw [nameOf, List.cons_append, String.intercalate_cons_of_ne_nil (by simp),
    String.intercalate_append_of_ne_nil filled (by simp), String.intercalate_singleton]

/-- The file of an environment has the same name as the file of the environments that dots separate
in its name, and as no other. -/
theorem nameOf_own_iff :
    nameOf [opening, environment] = nameOf (opening :: environments) ↔
      environments ≠ [] ∧ environment = ".".intercalate environments := by
  rw [nameOf_cons opening (List.cons_ne_nil environment []), String.intercalate_singleton]
  constructor
  · intro same
    have filled : environments ≠ [] := by
      rintro rfl
      have lengths := congrArg String.length same
      have short : nameOf [opening] = opening ++ "." ++ "toml" := by
        rw [nameOf, List.cons_append, List.nil_append, String.intercalate_cons_cons,
          String.intercalate_singleton]
      simp only [short, String.length_append] at lengths
      have dot : ".".length = 1 := rfl
      omega
    rw [nameOf_cons opening filled, String.append_right_inj, String.append_left_inj,
      String.append_left_inj] at same
    exact ⟨filled, same⟩
  · rintro ⟨filled, rfl⟩
    exact (nameOf_cons opening filled).symm

/-- The file of an environment applies where one of the parts of its name says so. -/
theorem ofFileName?_own_iff {other : String} (prefixed : IsWord opening) :
    ofFileName? (nameOf [opening, environment]) opening other = some rank ↔
      ∃ environments, environments ≠ [] ∧ Ranks other rank environments ∧
        (∀ part ∈ environments, IsWord part) ∧ environment = ".".intercalate environments := by
  rw [ofFileName?_eq_some_iff]
  constructor
  · rintro ⟨environments, ranks, words, same⟩
    obtain ⟨filled, joined⟩ := nameOf_own_iff.mp same
    exact ⟨environments, filled, ranks, (List.forall_mem_cons.mp words).2, joined⟩
  · rintro ⟨environments, filled, ranks, words, joined⟩
    exact ⟨environments, ranks, List.forall_mem_cons.mpr ⟨prefixed, words⟩,
      nameOf_own_iff.mpr ⟨filled, joined⟩⟩

/-- The name of a file with words for parts has no other such parts. -/
theorem nameOf_inj {others : List String} (words : ∀ part ∈ parts, IsWord part)
    (wordsToo : ∀ part ∈ others, IsWord part) (same : nameOf parts = nameOf others) :
    parts = others := by
  have split := splitAll_nameOf words
  rw [same, splitAll_nameOf wordsToo] at split
  have inner := List.append_cancel_right split
  exact (List.map_injective_iff.mpr (fun _ _ => String.toList_inj.mp) inner).symm

/-- The file of an environment with a word for its name applies nowhere else. -/
theorem eq_of_ofFileName?_own {other : String} (prefixed : IsWord opening)
    (named : IsWord environment)
    (applies : ofFileName? (nameOf [opening, environment]) opening other = some rank) :
    other = environment := by
  obtain ⟨environments, ranks, words, same⟩ := ofFileName?_eq_some_iff.mp applies
  have ownWords : ∀ part ∈ [opening, environment], IsWord part :=
    List.forall_mem_cons.mpr ⟨prefixed, List.forall_mem_singleton.mpr named⟩
  obtain rfl := (List.cons.inj (nameOf_inj ownWords words same)).2
  cases ranks with
  | several two listed => exact absurd two (by simp)
  | single => rfl

/-- Only the file for all environments applies to an environment whose name is no word. -/
theorem eq_of_ofFileName?_of_not_isWord (stray : ¬ IsWord environment)
    (applies : ofFileName? fileName opening environment = some rank) :
    rank = .everywhere ∧ fileName = nameOf [opening] := by
  obtain ⟨environments, ranks, words, same⟩ := ofFileName?_eq_some_iff.mp applies
  have others := (List.forall_mem_cons.mp words).2
  cases ranks with
  | everywhere => exact ⟨rfl, same⟩
  | several two listed => exact absurd (others environment listed) stray
  | single => exact absurd (others environment List.mem_cons_self) stray

/-- The file of such an environment is one for several environments, or for none. -/
theorem ofFileName?_own_iff_of_not_isWord {other : String} (prefixed : IsWord opening)
    (stray : ¬ IsWord environment) :
    ofFileName? (nameOf [opening, environment]) opening other = some rank ↔
      rank = .several ∧ ∃ environments, other ∈ environments ∧
        (∀ part ∈ environments, IsWord part) ∧ environment = ".".intercalate environments := by
  rw [ofFileName?_own_iff prefixed]
  constructor
  · rintro ⟨environments, filled, ranks, words, joined⟩
    cases ranks with
    | everywhere => exact absurd rfl filled
    | several two listed => exact ⟨rfl, environments, listed, words, joined⟩
    | single =>
      rw [String.intercalate_singleton] at joined
      exact absurd (joined ▸ words other List.mem_cons_self) stray
  · rintro ⟨rfl, environments, listed, words, joined⟩
    refine ⟨environments, List.ne_nil_of_mem listed, .several ?_ listed, words, joined⟩
    match environments with
    | [only] =>
      rw [String.intercalate_singleton] at joined
      exact absurd (joined ▸ words only List.mem_cons_self) stray
    | _ :: _ :: _ => exact Nat.le_add_left 2 _

/-- **An environment has a file of its own when its name is a word, and otherwise none.** The name
of an environment may stand in brackets. The file that is named for it is its own layer exactly when
the name has no dot and is written in ASCII; then the file is no layer of another environment.
Otherwise only the file for all environments is a layer of this one, and the file that is named for
it is a layer for several environments: those that dots separate in its name, if all of them are
words. -/
theorem ownFile_spec (prefixed : IsWord opening)
    (referable : IsRun isIdentifierChar environment.toList) :
    (ofFileName? (nameOf [opening, environment]) opening environment = some .single ↔
      '.' ∉ environment.toList ∧ ∀ c ∈ environment.toList, c.toNat < 0x80) ∧
    (ofFileName? (nameOf [opening, environment]) opening environment = some .single →
      ∀ other, other ≠ environment →
        ofFileName? (nameOf [opening, environment]) opening other = none) ∧
    (ofFileName? (nameOf [opening, environment]) opening environment ≠ some .single →
      (∀ fileName rank, ofFileName? fileName opening environment = some rank →
        rank = .everywhere ∧ fileName = nameOf [opening]) ∧
      ∀ other rank, ofFileName? (nameOf [opening, environment]) opening other = some rank ↔
        rank = .several ∧ ∃ environments, other ∈ environments ∧
          (∀ part ∈ environments, IsWord part) ∧ environment = ".".intercalate environments) := by
  have own : ofFileName? (nameOf [opening, environment]) opening environment = some .single ↔
      IsWord environment := by
    rw [ofFileName?_single_iff prefixed]
    exact and_iff_left rfl
  refine ⟨?_, fun applies other differs => ?_, fun stray => ⟨?_, ?_⟩⟩
  · rw [own, isWord_iff]
    exact and_iff_right referable
  · rw [Option.eq_none_iff_forall_ne_some]
    intro rank again
    exact differs (eq_of_ofFileName?_own prefixed (own.mp applies) again)
  · intro fileName rank
    exact eq_of_ofFileName?_of_not_isWord (own.not.mp stray)
  · intro other rank
    exact ofFileName?_own_iff_of_not_isWord prefixed (own.not.mp stray)

/-- An environment with a digit and a hyphen in its name has a file of its own. -/
theorem ofFileName?_dev :
    IsWord "application" ∧ IsRun isIdentifierChar "dev-2".toList ∧
      ofFileName? (nameOf ["application", "dev-2"]) "application" "dev-2" = some .single ∧
      ofFileName? (nameOf ["application", "dev-2"]) "application" "dev" = none := by
  have prefixed : IsWord "application" := by decide
  have referable : IsRun isIdentifierChar "dev-2".toList := by decide
  obtain ⟨whether, alone, _⟩ := ownFile_spec prefixed referable
  have own := whether.mpr (isWord_iff.mp (by decide)).2
  exact ⟨prefixed, referable, own, alone own "dev" (by decide)⟩

/-- The file that is named for `prod.eu` is for `prod` and for `eu`, and the one that is named for
`zürich` is for no environment, though both names may stand in brackets. -/
theorem ofFileName?_dotted :
    IsWord "application" ∧ IsRun isIdentifierChar "prod.eu".toList ∧
      IsRun isIdentifierChar "zürich".toList ∧
      ofFileName? (nameOf ["application", "prod.eu"]) "application" "prod.eu" = none ∧
      ofFileName? (nameOf ["application", "prod.eu"]) "application" "prod" = some .several ∧
      ofFileName? (nameOf ["application", "zürich"]) "application" "zürich" = none := by
  refine ⟨?_, ?_, ?_, ?_, ?_, ?_⟩
  · decide
  · decide
  · decide +kernel
  · decide
  · decide
  · decide

end LayerRank

end DeployConfig
