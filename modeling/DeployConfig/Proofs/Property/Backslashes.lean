import DeployConfig.Property
import Mathlib.Data.List.SplitBy
import Mathlib.Data.List.TakeWhile

/-!
# Escaped backslashes

The backslashes of a value are escaped in two steps: from left to right each pair of them becomes
one, and then every one of them is written twice. The first step does not look beyond a run of
backslashes. So a run of `n` of them is left with `(n + 1) / 2`, and comes out with the smallest
even number that is not below `n` (`escaped_backslashes_append`), while every other character stays
(`escaped_cons`).

A text falls into pieces: its longest runs of backslashes, and each other character by itself. The
induction on the pieces of a text (`pieces_induction`) shows that the pieces of an escaped text are
those of the text, with each run brought to its even length (`pieces_escaped`). A run of even length
stays as it is, hence so does a text that has been escaped (`escaped_escaped`). The main result is
`escapeBackslashes_spec`.
-/

set_option autoImplicit false

namespace DeployConfig.Property

/-! ## The two steps -/

/-- A text with its backslashes escaped. -/
def escaped (text : List Char) : List Char :=
  doubleBackslashes (joinBackslashes text)

variable {c : Char} {text rest piece : List Char}

theorem joinBackslashes_cons (other : c ≠ '\\') :
    joinBackslashes (c :: rest) = c :: joinBackslashes rest := by
  rw [joinBackslashes]
  rintro rest' rfl
  exact absurd rfl other

/-- The last backslash of a run of odd length has no partner. -/
theorem joinBackslashes_last (ends : rest.head? ≠ some '\\') :
    joinBackslashes ('\\' :: rest) = '\\' :: joinBackslashes rest := by
  cases rest with
  | nil => rfl
  | cons d rest =>
    have other : d ≠ '\\' := by simpa using ends
    rw [joinBackslashes]
    simp [other]

/-- Half of a run of backslashes is left, rounded up. -/
theorem joinBackslashes_backslashes_append (n : Nat) (ends : rest.head? ≠ some '\\') :
    joinBackslashes (List.replicate n '\\' ++ rest) =
      List.replicate ((n + 1) / 2) '\\' ++ joinBackslashes rest := by
  induction n using Nat.twoStepInduction with
  | zero => rfl
  | one => exact joinBackslashes_last ends
  | more n ih _ =>
    have half : (n + 2 + 1) / 2 = (n + 1) / 2 + 1 := by omega
    have pair : joinBackslashes (List.replicate (n + 2) '\\' ++ rest) =
        '\\' :: joinBackslashes (List.replicate n '\\' ++ rest) := rfl
    rw [pair, ih, half, List.replicate_succ, List.cons_append]

theorem doubleBackslashes_cons (other : c ≠ '\\') :
    doubleBackslashes (c :: rest) = c :: doubleBackslashes rest := by
  simp [doubleBackslashes, other]

theorem doubleBackslashes_backslashes_append (n : Nat) :
    doubleBackslashes (List.replicate n '\\' ++ rest) =
      List.replicate (2 * n) '\\' ++ doubleBackslashes rest := by
  induction n with
  | zero => rfl
  | succ n ih =>
    have twice : List.replicate (2 * (n + 1)) '\\' = '\\' :: '\\' :: List.replicate (2 * n) '\\' :=
      rfl
    rw [twice, List.cons_append, List.cons_append, ← ih]
    rfl

/-- A character that is no backslash stays. -/
theorem escaped_cons (other : c ≠ '\\') : escaped (c :: rest) = c :: escaped rest := by
  rw [escaped, joinBackslashes_cons other, doubleBackslashes_cons other, escaped]

/-- A longest run of backslashes comes out with an even length. -/
theorem escaped_backslashes_append (n : Nat) (ends : rest.head? ≠ some '\\') :
    escaped (List.replicate n '\\' ++ rest) =
      List.replicate (2 * ((n + 1) / 2)) '\\' ++ escaped rest := by
  rw [escaped, joinBackslashes_backslashes_append n ends, doubleBackslashes_backslashes_append,
    escaped]

theorem head?_escaped_ne (ends : rest.head? ≠ some '\\') : (escaped rest).head? ≠ some '\\' := by
  cases rest with
  | nil => exact ends
  | cons d rest =>
    have other : d ≠ '\\' := by simpa using ends
    rw [escaped_cons other]
    exact ends

/-! ## The pieces of a text -/

/-- The pieces of a text: the longest runs of backslashes, and each other character by itself. -/
def pieces (text : List Char) : List (List Char) :=
  text.splitBy fun c d => c == '\\' && d == '\\'

/-- A run of backslashes brought to the smallest even length that is not below its own. Any other
piece is left as it is. -/
def evened (piece : List Char) : List Char :=
  if '\\' ∈ piece then List.replicate (2 * ((piece.length + 1) / 2)) '\\' else piece

/-- A text is nothing, or a character that is no backslash and a text, or a longest run of
backslashes and a text. -/
@[elab_as_elim]
theorem pieces_induction {motive : List Char → Prop} (nil : motive [])
    (other : ∀ c rest, c ≠ '\\' → motive rest → motive (c :: rest))
    (run : ∀ n rest, rest.head? ≠ some '\\' → motive rest →
      motive (List.replicate (n + 1) '\\' ++ rest))
    (text : List Char) : motive text := by
  induction size : text.length using Nat.strong_induction_on generalizing text with
  | h size ih =>
    subst size
    cases text with
    | nil => exact nil
    | cons c rest =>
      by_cases backslash : c = '\\'
      · subst backslash
        let more := rest.takeWhile (· == '\\')
        let behind := rest.dropWhile (· == '\\')
        have split : more ++ behind = rest := List.takeWhile_append_dropWhile
        have same : more = List.replicate more.length '\\' := by
          refine List.eq_replicate_length.mpr fun d member => ?_
          simpa using List.mem_takeWhile_imp member
        have ends : behind.head? ≠ some '\\' := by
          intro starts
          have stops := List.head?_dropWhile_not (· == '\\') rest
          rw [starts] at stops
          exact absurd stops (by decide)
        have shorter : behind.length < ('\\' :: rest).length := by
          rw [← split, List.length_cons, List.length_append]
          omega
        have whole : '\\' :: rest = List.replicate (more.length + 1) '\\' ++ behind := by
          rw [List.replicate_succ, List.cons_append, ← same, split]
        rw [whole]
        exact run _ _ ends (ih _ shorter behind rfl)
      · exact other c rest backslash (ih _ (Nat.lt_succ_self _) rest rfl)

theorem pieces_cons (other : c ≠ '\\') : pieces (c :: rest) = [c] :: pieces rest := by
  have apart : ∀ x ∈ [c].getLast?, ∀ y ∈ rest.head?, (x == '\\' && y == '\\') = false := by
    simp [other]
  exact List.splitBy_append apart

theorem pieces_backslashes_append (n : Nat) (ends : rest.head? ≠ some '\\') :
    pieces (List.replicate (n + 1) '\\' ++ rest) = List.replicate (n + 1) '\\' :: pieces rest := by
  have apart : ∀ x ∈ (List.replicate (n + 1) '\\').getLast?, ∀ y ∈ rest.head?,
      (x == '\\' && y == '\\') = false := by
    intro x _ y first
    have other : y ≠ '\\' := fun same => ends (same ▸ first)
    simp [other]
  have together : pieces (List.replicate (n + 1) '\\') = [List.replicate (n + 1) '\\'] :=
    List.splitBy_of_isChain (List.cons_ne_nil _ _) (List.isChain_replicate_of_rel _ rfl)
  calc pieces (List.replicate (n + 1) '\\' ++ rest)
      = pieces (List.replicate (n + 1) '\\') ++ pieces rest := List.splitBy_append apart
    _ = List.replicate (n + 1) '\\' :: pieces rest := by rw [together, List.singleton_append]

theorem flatten_pieces (text : List Char) : (pieces text).flatten = text :=
  List.flatten_splitBy _ text

/-- A piece with a backslash in it is a run of backslashes. -/
theorem exists_replicate_of_mem_pieces (member : piece ∈ pieces text) (backslash : '\\' ∈ piece) :
    ∃ n, piece = List.replicate n '\\' := by
  induction text using pieces_induction with
  | nil => cases member
  | other c rest other ih =>
    rw [pieces_cons other] at member
    rcases List.mem_cons.mp member with rfl | later
    · exact absurd (List.mem_singleton.mp backslash).symm other
    · exact ih later
  | run n rest ends ih =>
    rw [pieces_backslashes_append n ends] at member
    rcases List.mem_cons.mp member with rfl | later
    · exact ⟨n + 1, rfl⟩
    · exact ih later

theorem evened_replicate (n : Nat) :
    evened (List.replicate n '\\') = List.replicate (2 * ((n + 1) / 2)) '\\' := by
  cases n with
  | zero => rfl
  | succ n => rw [evened, if_pos (by simp), List.length_replicate]

theorem evened_of_not_mem (plain : '\\' ∉ piece) : evened piece = piece :=
  if_neg plain

/-- A run of even length stays as it is. -/
theorem evened_evened (piece : List Char) : evened (evened piece) = evened piece := by
  by_cases backslash : '\\' ∈ piece
  · have even : (2 * ((piece.length + 1) / 2) + 1) / 2 = (piece.length + 1) / 2 := by omega
    have run : evened piece = List.replicate (2 * ((piece.length + 1) / 2)) '\\' := if_pos backslash
    rw [run, evened_replicate, even]
  · rw [evened_of_not_mem backslash, evened_of_not_mem backslash]

/-! ## Escaping piece by piece -/

/-- **The pieces of an escaped text are those of the text, with each run at its even length.** -/
theorem pieces_escaped (text : List Char) : pieces (escaped text) = (pieces text).map evened := by
  induction text using pieces_induction with
  | nil => rfl
  | other c rest other ih =>
    have plain : '\\' ∉ [c] := by simpa using other.symm
    rw [escaped_cons other, pieces_cons other, pieces_cons other, ih, List.map_cons,
      evened_of_not_mem plain]
  | run n rest ends ih =>
    obtain ⟨m, even⟩ : ∃ m, 2 * ((n + 1 + 1) / 2) = m + 1 := ⟨2 * (n / 2) + 1, by omega⟩
    rw [escaped_backslashes_append _ ends, pieces_backslashes_append n ends, List.map_cons,
      evened_replicate, even, pieces_backslashes_append m (head?_escaped_ne ends), ih]

/-- What has been escaped stays as it is. -/
theorem escaped_escaped (text : List Char) : escaped (escaped text) = escaped text := by
  have same : pieces (escaped (escaped text)) = pieces (escaped text) := by
    rw [pieces_escaped, pieces_escaped, List.map_map]
    refine List.map_congr_left fun piece _ => ?_
    exact evened_evened piece
  rw [← flatten_pieces (escaped (escaped text)), same, flatten_pieces]

/-- Every run of backslashes in an escaped text has an even length. -/
theorem exists_even_of_mem_pieces_escaped (member : piece ∈ pieces (escaped text))
    (backslash : '\\' ∈ piece) : ∃ n, piece = List.replicate (2 * n) '\\' := by
  rw [pieces_escaped] at member
  obtain ⟨before, here, rfl⟩ := List.mem_map.mp member
  by_cases runs : '\\' ∈ before
  · obtain ⟨n, rfl⟩ := exists_replicate_of_mem_pieces here runs
    exact ⟨_, evened_replicate n⟩
  · rw [evened_of_not_mem runs] at backslash
    exact absurd backslash runs

/-! ## Properties -/

/-- A character of a path that is written with slashes. -/
def slashed (c : Char) : Char :=
  if c = '\\' then '/' else c

theorem slashed_ne (c : Char) : slashed c ≠ '\\' := by
  unfold slashed
  split
  · decide
  · assumption

variable {property : Property}

theorem toList_value_of_ne (other : property.key ≠ homeKey) :
    property.escapeBackslashes.value.toList = escaped property.value.toList := by
  have differs : (property.key == homeKey) = false := by simpa using other
  rw [escapeBackslashes, differs, if_neg Bool.false_ne_true]
  exact String.toList_ofList

theorem toList_value_of_eq (home : property.key = homeKey) :
    property.escapeBackslashes.value.toList = property.value.toList.map slashed := by
  have same : (property.key == homeKey) = true := by simpa using home
  rw [escapeBackslashes, same, if_pos rfl]
  exact String.toList_ofList

/-- Only the value of a property is escaped. -/
theorem escapeBackslashes_eq (property : Property) :
    property.escapeBackslashes = property.withValue property.escapeBackslashes.value := by
  unfold escapeBackslashes
  split <;> rfl

theorem escapeBackslashes_escapeBackslashes (property : Property) :
    property.escapeBackslashes.escapeBackslashes = property.escapeBackslashes := by
  have key : property.escapeBackslashes.key = property.key := by rw [escapeBackslashes_eq]; rfl
  have value : property.escapeBackslashes.escapeBackslashes.value.toList =
      property.escapeBackslashes.value.toList := by
    by_cases home : property.key = homeKey
    · rw [toList_value_of_eq (key.trans home), toList_value_of_eq home, List.map_map]
      refine List.map_congr_left fun c _ => ?_
      exact if_neg (slashed_ne c)
    · rw [toList_value_of_ne (key ▸ home), toList_value_of_ne home, escaped_escaped]
  rw [escapeBackslashes_eq property.escapeBackslashes, String.toList_inj.mp value]
  rfl

/-- **Backslashes are escaped run by run, and once for all.** The pieces of the escaped value are
those of the value, in their order, with each longest run of backslashes brought to the smallest
even length that is not below its own; the home directory has a slash in place of every backslash.
Escaping again changes nothing, every run of backslashes in an escaped value has an even length, and
nothing but the value is changed. -/
theorem escapeBackslashes_spec (property : Property) :
    let written := property.escapeBackslashes
    (property.key ≠ homeKey →
      pieces written.value.toList = (pieces property.value.toList).map evened) ∧
    (property.key = homeKey →
      written.value.toList = property.value.toList.map fun c => if c = '\\' then '/' else c) ∧
    written.escapeBackslashes = written ∧
    (∀ run ∈ pieces written.value.toList, '\\' ∈ run →
      ∃ n, run = List.replicate (2 * n) '\\') ∧
    written.key = property.key ∧ written.environment = property.environment ∧
    written.transient = property.transient ∧ written.source = property.source := by
  intro written
  have kept : written = property.withValue written.value := escapeBackslashes_eq property
  refine ⟨?_, toList_value_of_eq, escapeBackslashes_escapeBackslashes property, ?_, ?_⟩
  · intro other
    rw [toList_value_of_ne other, pieces_escaped]
  · intro run member backslash
    by_cases home : property.key = homeKey
    · have inside : '\\' ∈ written.value.toList := by
        rw [← flatten_pieces written.value.toList]
        exact List.mem_flatten.mpr ⟨run, member, backslash⟩
      rw [toList_value_of_eq home] at inside
      obtain ⟨c, _, same⟩ := List.mem_map.mp inside
      exact absurd same (slashed_ne c)
    · rw [toList_value_of_ne home] at member
      exact exists_even_of_mem_pieces_escaped member backslash
  · rw [kept]
    exact ⟨rfl, rfl, rfl, rfl⟩

/-- A path with runs of two, three and one backslashes. -/
def sharePath : Property :=
  ⟨"path", "\\\\a\\\\\\b\\c", "dev", true, .special (.ofType "system") "system"⟩

/-- A home directory whose path is written with backslashes. -/
def userHome : Property :=
  { sharePath with key := homeKey, value := "C:\\Users\\\\me" }

/-- The runs of the path come out with two, four and two backslashes. The home directory gets a
slash for each of them. -/
theorem escapeBackslashes_sharePath :
    sharePath.key ≠ homeKey ∧
      pieces sharePath.escapeBackslashes.value.toList =
        [['\\', '\\'], ['a'], ['\\', '\\', '\\', '\\'], ['b'], ['\\', '\\'], ['c']] ∧
      sharePath.escapeBackslashes.escapeBackslashes = sharePath.escapeBackslashes ∧
      (∃ n, ['\\', '\\', '\\', '\\'] = List.replicate (2 * n) '\\') ∧
      sharePath.escapeBackslashes.transient = true ∧
      userHome.key = homeKey ∧
      userHome.escapeBackslashes.value.toList = "C:/Users//me".toList := by
  obtain ⟨runs, _, again, even, _, _, kept, _⟩ := escapeBackslashes_spec sharePath
  have other : sharePath.key ≠ homeKey := by decide
  have same : pieces sharePath.escapeBackslashes.value.toList =
      [['\\', '\\'], ['a'], ['\\', '\\', '\\', '\\'], ['b'], ['\\', '\\'], ['c']] :=
    (runs other).trans (by decide)
  have four : ∃ n, ['\\', '\\', '\\', '\\'] = List.replicate (2 * n) '\\' :=
    even ['\\', '\\', '\\', '\\'] (by rw [same]; decide) (by decide)
  refine ⟨other, same, again, four, kept, rfl, ?_⟩
  exact ((escapeBackslashes_spec userHome).2.1 rfl).trans (by decide)

end DeployConfig.Property
