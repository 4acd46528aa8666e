import DeployConfig.Placeholder.Written
import Mathlib.Data.List.Count
import Mathlib.Data.List.Infix
import Mathlib.Data.List.TakeWhile

/-!
# The written form of a placeholder as a grammar

`Written.atStart?` reads a placeholder with longest runs and a counter of open braces. This module
says what it reads without reading: `WellFormed text written after` holds when a text is the
characters of `written` followed by `after`, each piece is a non-empty run of its class, and the
default, if there is one, is closed where it should be. The two agree (`atStart?_eq_some_iff`).

A default is closed by the first brace behind which no nested brace is open (`Balances`); only when
no brace of the whole text does this, the last one closes it.
-/

set_option autoImplicit false

namespace DeployConfig

namespace Written

/-! ## The grammar -/

/-- A non-empty run of characters of a class. -/
def IsRun (member : Char → Bool) (text : List Char) : Prop :=
  text ≠ [] ∧ ∀ c ∈ text, member c = true

instance (member : Char → Bool) (text : List Char) : Decidable (IsRun member text) :=
  decidable_of_iff ((!text.isEmpty && text.all member) = true) (by simp [IsRun])

/-- How many braces of a text are opened directly behind `$` or `#`. `marked` tells whether the text
itself stands behind one of them. -/
def openings (marked : Bool) : List Char → Nat
  | [] => 0
  | c :: rest => (if c == '{' && marked then 1 else 0) + openings (c == '$' || c == '#') rest

/-- How many braces are open behind a text that starts with `level` of them open. -/
def depth (level : Nat) (marked : Bool) (text : List Char) : Int :=
  level + openings marked text - text.count '}'

/-- A default is balanced when the brace behind it is the first one that leaves no brace open. The
brace of the placeholder itself is open at its start. -/
def BalancesAt (level : Nat) (marked : Bool) (fallback : List Char) : Prop :=
  depth level marked (fallback ++ ['}']) = 0 ∧
    ∀ front back, fallback = front ++ '}' :: back → depth level marked (front ++ ['}']) ≠ 0

/-- A default that the brace behind it closes, counted from its start. -/
abbrev Balances (fallback : List Char) : Prop :=
  BalancesAt 1 false fallback

/-- In a text that goes on with `after`, the brace behind `fallback` closes it: it balances it, or
no brace balances anything and it is the last brace of the text. -/
def Closes (fallback after : List Char) : Prop :=
  Balances fallback ∨
    ('}' ∉ after ∧
      ∀ front back, fallback ++ '}' :: after = front ++ '}' :: back → ¬ Balances front)

/-- A text starts with a placeholder that has these pieces, and goes on with `after`. -/
structure WellFormed (text : List Char) (written : Written) (after : List Char) : Prop where
  characters : text = written.characters ++ after
  configType : ∀ name, written.configType = some name → IsRun isIdentifierChar name
  component : IsRun isIdentifierChar written.component
  environment : ∀ name, written.environment = some name → IsRun isIdentifierChar name
  key : IsRun isKeyChar written.key
  fallback : ∀ fallback, written.fallback = some fallback → Closes fallback after

/-! ## Where a default ends -/

theorem depth_cons (level : Nat) (marked : Bool) (c : Char) (text : List Char) :
    depth level marked (c :: text) =
      depth level (c == '$' || c == '#') text +
        (if c == '{' && marked then 1 else 0) - (if c == '}' then 1 else 0) := by
  simp only [depth, openings, List.count_cons]
  split <;> split <;> simp <;> omega

theorem depth_succ (level : Nat) (marked : Bool) (text : List Char) :
    depth (level + 1) marked text = depth level marked text + 1 := by
  simp only [depth]
  omega

/-- The first character of a default decides how many braces are open behind it. -/
theorem balancesAt_cons {level next : Nat} {marked : Bool} {c : Char} {fallback : List Char}
    (counts : ∀ text, depth level marked (c :: text) = depth next (c == '$' || c == '#') text)
    (stays : c = '}' → next ≠ 0) :
    BalancesAt level marked (c :: fallback) ↔ BalancesAt next (c == '$' || c == '#') fallback := by
  unfold BalancesAt
  rw [List.cons_append, counts]
  refine and_congr_right fun _ =>
    ⟨fun first front back split => ?_, fun first front back split => ?_⟩
  · have earlier := first (c :: front) back (by rw [split, List.cons_append])
    rwa [List.cons_append, counts] at earlier
  · cases front with
    | nil =>
      obtain ⟨rfl, rfl⟩ := List.cons.inj split
      rw [List.nil_append, counts]
      simpa [depth, openings] using stays rfl
    | cons d front =>
      obtain ⟨rfl, rest⟩ := List.cons.inj split
      rw [List.cons_append, counts]
      exact first front back rest

/-- One step of the search for the balancing brace, whatever the character does to the count. -/
theorem map_closeBalanced_eq_some_iff {inner next : Nat} {marked : Bool} {c : Char}
    {rest fallback after : List Char}
    (counts : ∀ text,
      depth (inner + 1) marked (c :: text) = depth (next + 1) (c == '$' || c == '#') text)
    (ih : ∀ fallback after,
      closeBalanced next (c == '$' || c == '#') rest = some (fallback, after) ↔
        rest = fallback ++ '}' :: after ∧ BalancesAt (next + 1) (c == '$' || c == '#') fallback) :
    (closeBalanced next (c == '$' || c == '#') rest).map
        (fun (fallback, after) => (c :: fallback, after)) = some (fallback, after) ↔
      c :: rest = fallback ++ '}' :: after ∧ BalancesAt (inner + 1) marked fallback := by
  cases fallback with
  | nil =>
    have never : ¬ (c = '}' ∧ BalancesAt (inner + 1) marked []) := by
      rintro ⟨rfl, closes, _⟩
      rw [List.nil_append, counts] at closes
      simp only [depth, openings, List.count_nil] at closes
      omega
    refine iff_of_false (by simp) fun ⟨split, balances⟩ => never ⟨?_, balances⟩
    exact (List.cons.inj split).1
  | cons d fallback =>
    simp only [Option.map_eq_some_iff, Prod.exists, Prod.mk.injEq, List.cons.injEq,
      List.cons_append]
    constructor
    · rintro ⟨read, behind, found, ⟨rfl, rfl⟩, rfl⟩
      obtain ⟨split, balances⟩ := (ih read behind).mp found
      exact ⟨⟨rfl, split⟩, (balancesAt_cons counts fun _ => Nat.succ_ne_zero next).mpr balances⟩
    · rintro ⟨⟨rfl, split⟩, balances⟩
      exact ⟨fallback, after, (ih fallback after).mpr
        ⟨split, (balancesAt_cons counts fun _ => Nat.succ_ne_zero next).mp balances⟩,
        ⟨rfl, rfl⟩, rfl⟩

/-- Counting finds the balancing brace. -/
theorem closeBalanced_eq_some_iff {inner : Nat} {marked : Bool} {text fallback after : List Char} :
    closeBalanced inner marked text = some (fallback, after) ↔
      text = fallback ++ '}' :: after ∧ BalancesAt (inner + 1) marked fallback := by
  induction text generalizing inner marked fallback after with
  | nil => simp [closeBalanced]
  | cons c rest ih =>
    unfold closeBalanced
    by_cases closing : c = '}'
    · subst closing
      cases inner with
      | zero =>
        simp only [beq_self_eq_true, ↓reduceIte, Option.some.injEq, Prod.mk.injEq]
        constructor
        · rintro ⟨rfl, rfl⟩
          refine ⟨rfl, by simp [depth, openings], fun front back split => ?_⟩
          exact absurd split (by simp)
        · rintro ⟨split, _, first⟩
          cases fallback with
          | nil => exact ⟨rfl, (List.cons.inj split).2⟩
          | cons d fallback =>
            obtain ⟨rfl, _⟩ := List.cons.inj split
            exact absurd (by simp [depth, openings]) (first [] fallback rfl)
      | succ inner =>
        simp only [beq_self_eq_true, ↓reduceIte]
        refine map_closeBalanced_eq_some_iff (fun text => ?_) fun fallback after => ih
        simp [depth_cons, depth_succ]
    · have other : (c == '}') = false := by simpa using closing
      simp only [other, Bool.false_eq_true, ↓reduceIte]
      split
      · next nests =>
        refine map_closeBalanced_eq_some_iff (fun text => ?_) fun fallback after => ih
        simp [depth_cons, depth_succ, nests, closing]
      · next plain =>
        refine map_closeBalanced_eq_some_iff (fun text => ?_) fun fallback after => ih
        simp [depth_cons, plain, closing]

theorem closeLast_eq_none_iff {text : List Char} : closeLast text = none ↔ '}' ∉ text := by
  induction text with
  | nil => simp [closeLast]
  | cons c rest ih =>
    unfold closeLast
    cases later : closeLast rest with
    | none =>
      have absent := ih.mp later
      by_cases closing : c = '}'
      · simp [closing]
      · simp [closing, absent, Ne.symm closing]
    | some found =>
      have present : '}' ∈ rest := by
        by_contra absent
        rw [ih.mpr absent] at later
        cases later
      simp [present]

/-- The last brace of a text has none behind it. -/
theorem closeLast_eq_some_iff {text fallback after : List Char} :
    closeLast text = some (fallback, after) ↔
      text = fallback ++ '}' :: after ∧ '}' ∉ after := by
  induction text generalizing fallback after with
  | nil => simp [closeLast]
  | cons c rest ih =>
    rw [closeLast]
    cases later : closeLast rest with
    | none =>
      have absent := closeLast_eq_none_iff.mp later
      simp only
      cases fallback with
      | nil =>
        by_cases closing : c = '}'
        · subst closing
          simp only [beq_self_eq_true, ↓reduceIte, Option.some.injEq, Prod.mk.injEq, true_and,
            List.nil_append, List.cons.injEq]
          exact ⟨fun same => ⟨same, same ▸ absent⟩, fun same => same.1⟩
        · simp [closing]
      | cons d fallback =>
        refine iff_of_false (by split <;> simp) fun ⟨split, _⟩ => absent ?_
        rw [(List.cons.inj split).2]
        simp
    | some found =>
      obtain ⟨read, behind⟩ := found
      obtain ⟨split, last⟩ := ih.mp later
      cases fallback with
      | nil =>
        refine iff_of_false (by simp) fun ⟨here, absent⟩ => absent ?_
        rw [← (List.cons.inj here).2, split]
        simp
      | cons d fallback =>
        simp only [Option.some.injEq, Prod.mk.injEq, List.cons.injEq, List.cons_append]
        rw [and_assoc, and_assoc, ← ih, later, Option.some.injEq, Prod.mk.injEq]

/-- What closes a default is found by counting, or else from the end. -/
theorem closeDefault_eq_some_iff {text fallback after : List Char} :
    closeDefault text = some (fallback, after) ↔
      text = fallback ++ '}' :: after ∧ Closes fallback after := by
  unfold closeDefault
  cases counted : closeBalanced 0 false text with
  | some found =>
    obtain ⟨read, behind⟩ := found
    obtain ⟨split, balances⟩ := closeBalanced_eq_some_iff.mp counted
    rw [Option.some_or, ← counted, closeBalanced_eq_some_iff]
    refine and_congr_right fun here => ⟨.inl, fun closes => closes.resolve_right ?_⟩
    rintro ⟨_, never⟩
    exact never read behind (here.symm.trans split) balances
  | none =>
    have never : ∀ front back, text = front ++ '}' :: back → ¬ Balances front := by
      intro front back split balances
      rw [closeBalanced_eq_some_iff.mpr ⟨split, balances⟩] at counted
      cases counted
    rw [Option.none_or, closeLast_eq_some_iff]
    refine and_congr_right fun here => ⟨fun last => .inr ⟨last, ?_⟩, ?_⟩
    · exact fun front back split => never front back (here.trans split)
    · rintro (balances | ⟨last, _⟩)
      · exact absurd balances (never fallback after here)
      · exact last

/-- What closes a default closes it also when nothing follows. -/
theorem Closes.alone {fallback after : List Char} (closes : Closes fallback after) :
    Closes fallback [] := by
  refine closes.imp_right fun ⟨_, never⟩ => ⟨List.not_mem_nil, fun front back split => ?_⟩
  refine never front (back ++ after) ?_
  calc fallback ++ '}' :: after
      = (fallback ++ ['}']) ++ after := by simp
    _ = (front ++ '}' :: back) ++ after := by rw [split]
    _ = front ++ '}' :: (back ++ after) := by simp

theorem closeDefault_eq_none_iff {text : List Char} : closeDefault text = none ↔ '}' ∉ text := by
  constructor
  · intro none
    exact closeLast_eq_none_iff.mp (Option.or_eq_none_iff.mp none).2
  · intro absent
    cases found : closeDefault text with
    | none => rfl
    | some found =>
      obtain ⟨split, _⟩ := closeDefault_eq_some_iff.mp found
      exact absurd (split ▸ by simp) absent

/-! ## The pieces before the default -/

@[simp] theorem isIdentifierChar_colon : isIdentifierChar ':' = false := by decide

@[simp] theorem isIdentifierChar_at : isIdentifierChar '@' = false := by decide

@[simp] theorem isIdentifierChar_bracket : isIdentifierChar '[' = false := by decide

@[simp] theorem isIdentifierChar_closingBracket : isIdentifierChar ']' = false := by decide

@[simp] theorem isKeyChar_colon : isKeyChar ':' = false := by decide

@[simp] theorem isKeyChar_closingBrace : isKeyChar '}' = false := by decide

/-- A run in front of a character that is not of its class is the longest one. -/
theorem IsRun.takeWhile_eq {member : Char → Bool} {run rest : List Char} {stop : Char}
    (isRun : IsRun member run) (ends : member stop = false) :
    (run ++ stop :: rest).takeWhile member = run := by
  rw [List.takeWhile_append_of_pos isRun.2, List.takeWhile_cons_of_neg (by simp [ends]),
    List.append_nil]

theorem IsRun.dropWhile_eq {member : Char → Bool} {run rest : List Char} {stop : Char}
    (isRun : IsRun member run) (ends : member stop = false) :
    (run ++ stop :: rest).dropWhile member = stop :: rest := by
  rw [List.dropWhile_append_of_pos isRun.2, List.dropWhile_cons_of_neg (by simp [ends])]

/-- A longest run that is not empty is a run. -/
theorem isRun_takeWhile {member : Char → Bool} {text : List Char}
    (some : ¬ (text.takeWhile member).isEmpty = true) : IsRun member (text.takeWhile member) :=
  ⟨by simpa using some, fun _ => List.mem_takeWhile_imp⟩

/-- The default with its colon, if there is one, and the brace behind it. -/
def ending (fallback : Option (List Char)) (after : List Char) : List Char :=
  (fallback.map (':' :: ·)).getD [] ++ '}' :: after

theorem readKey_eq_some_iff {configType : Option (List Char)} {component : List Char}
    {environment : Option (List Char)} {text : List Char} {written : Written}
    {after : List Char} :
    readKey configType component environment text = some (written, after) ↔
      ∃ key fallback, written = ⟨configType, component, environment, key, fallback⟩ ∧
        IsRun isKeyChar key ∧ (∀ inner, fallback = some inner → Closes inner after) ∧
        text = key ++ ending fallback after := by
  constructor
  · intro read
    have whole := (List.takeWhile_append_dropWhile (p := isKeyChar) (l := text)).symm
    simp only [readKey] at read
    split at read
    · cases read
    · next some =>
      refine ⟨text.takeWhile isKeyChar, written.fallback, ?_⟩
      split at read
      · next rest ends =>
        cases read
        exact ⟨rfl, isRun_takeWhile some, fun _ => nofun, whole.trans (by rw [ends]; rfl)⟩
      · next rest ends =>
        obtain ⟨⟨inner, behind⟩, closed, same⟩ := Option.map_eq_some_iff.mp read
        cases same
        obtain ⟨split, closes⟩ := closeDefault_eq_some_iff.mp closed
        refine ⟨rfl, isRun_takeWhile some, fun _ same => Option.some.inj same ▸ closes, ?_⟩
        rw [ending, Option.map_some, Option.getD_some, List.cons_append, ← split, ← ends]
        exact whole
      · cases read
  · rintro ⟨key, fallback, rfl, isRun, closes, rfl⟩
    have some : key.isEmpty = false := by simpa using isRun.1
    cases fallback with
    | none =>
      simp [readKey, ending, isRun.takeWhile_eq, isRun.dropWhile_eq, some]
    | some inner =>
      have closed := closeDefault_eq_some_iff.mpr ⟨rfl, closes inner rfl⟩
      simp [readKey, ending, isRun.takeWhile_eq, isRun.dropWhile_eq, some, closed]

/-- An environment in its brackets, if there is one. -/
def bracketed (environment : Option (List Char)) : List Char :=
  (environment.map fun name => '[' :: name ++ [']']).getD []

theorem readEnvironment_eq_some_iff {configType : Option (List Char)} {component : List Char}
    {text : List Char} {written : Written} {after : List Char} :
    readEnvironment configType component text = some (written, after) ↔
      ∃ environment rest, (∀ name, environment = some name → IsRun isIdentifierChar name) ∧
        readKey configType component environment rest = some (written, after) ∧
        text = bracketed environment ++ '@' :: rest := by
  constructor
  · intro read
    unfold readEnvironment at read
    split at read
    · next rest => exact ⟨none, rest, fun _ => nofun, read, rfl⟩
    · next inner =>
      have whole := (List.takeWhile_append_dropWhile (p := isIdentifierChar) (l := inner)).symm
      simp only at read
      split at read
      · cases read
      · next some =>
        split at read
        · next rest ends =>
          refine ⟨.some (inner.takeWhile isIdentifierChar), rest,
            fun _ same => Option.some.inj same ▸ isRun_takeWhile some, read, ?_⟩
          rw [ends] at whole
          simpa [bracketed] using whole
        · cases read
    · cases read
  · rintro ⟨environment, rest, isRun, read, rfl⟩
    cases environment with
    | none => exact read
    | some name =>
      have isRun := isRun name rfl
      have some : name.isEmpty = false := by simpa using isRun.1
      simp [readEnvironment, bracketed, isRun.takeWhile_eq, isRun.dropWhile_eq, some, read]

/-- Behind a component stands `[` or `@`, which ends its run. -/
theorem exists_cons_of_readEnvironment {configType : Option (List Char)} {component : List Char}
    {text : List Char} {found : Written × List Char}
    (read : readEnvironment configType component text = some found) :
    ∃ stop rest, text = stop :: rest ∧ isIdentifierChar stop = false ∧ stop ≠ ':' := by
  obtain ⟨environment, rest, _, _, rfl⟩ := readEnvironment_eq_some_iff.mp read
  cases environment with
  | none => exact ⟨'@', rest, rfl, by simp, by decide⟩
  | some name => exact ⟨'[', _, rfl, by simp, by decide⟩

theorem readComponent_eq_some_iff {configType : Option (List Char)} {text : List Char}
    {written : Written} {after : List Char} :
    readComponent configType text = some (written, after) ↔
      ∃ component rest, IsRun isIdentifierChar component ∧
        readEnvironment configType component rest = some (written, after) ∧
        text = component ++ rest := by
  constructor
  · intro read
    simp only [readComponent] at read
    split at read
    · cases read
    · next some =>
      exact ⟨_, _, isRun_takeWhile some, read, List.takeWhile_append_dropWhile.symm⟩
  · rintro ⟨component, rest, isRun, read, rfl⟩
    obtain ⟨stop, rest, rfl, ends, _⟩ := exists_cons_of_readEnvironment read
    have some : component.isEmpty = false := by simpa using isRun.1
    simp [readComponent, isRun.takeWhile_eq ends, isRun.dropWhile_eq ends, some, read]

/-- A type with its two colons, if there is one. -/
def qualified (configType : Option (List Char)) : List Char :=
  (configType.map (· ++ [':', ':'])).getD []

theorem readInside_eq_some_iff {text : List Char} {written : Written} {after : List Char} :
    readInside text = some (written, after) ↔
      ∃ configType rest, (∀ name, configType = some name → IsRun isIdentifierChar name) ∧
        readComponent configType rest = some (written, after) ∧
        text = qualified configType ++ rest := by
  constructor
  · intro read
    unfold readInside at read
    split at read
    · next rest ends =>
      simp only at read
      split at read
      · cases read
      · next some =>
        refine ⟨.some (text.takeWhile isIdentifierChar), rest,
          fun _ same => Option.some.inj same ▸ isRun_takeWhile some, read, ?_⟩
        have whole := (List.takeWhile_append_dropWhile (p := isIdentifierChar) (l := text)).symm
        rw [ends] at whole
        simpa [qualified] using whole
    · exact ⟨none, text, fun _ => nofun, read, rfl⟩
  · rintro ⟨configType, rest, isRun, read, rfl⟩
    cases configType with
    | none =>
      obtain ⟨component, rest, named, behind, rfl⟩ := readComponent_eq_some_iff.mp read
      obtain ⟨stop, rest, rfl, ends, differs⟩ := exists_cons_of_readEnvironment behind
      simp [readInside, qualified, named.dropWhile_eq ends, differs, read]
    | some name =>
      have isRun := isRun name rfl
      have some : name.isEmpty = false := by simpa using isRun.1
      simp [readInside, qualified, isRun.takeWhile_eq, isRun.dropWhile_eq, some, read]

/-! ## The whole placeholder -/

/-- The text of a placeholder, piece by piece, with what follows it. -/
theorem characters_append (written : Written) (after : List Char) :
    written.characters ++ after =
      '$' :: '{' :: (qualified written.configType ++ (written.component ++
        (bracketed written.environment ++ '@' :: (written.key ++
          ending written.fallback after)))) := by
  simp [characters, qualified, bracketed, ending]

/-- **Reading accepts exactly the grammar.** -/
theorem atStart?_eq_some_iff {text : List Char} {written : Written} {after : List Char} :
    atStart? text = some (written, after) ↔ WellFormed text written after := by
  constructor
  · intro read
    unfold atStart? at read
    split at read
    · obtain ⟨configType, _, typed, behindType, rfl⟩ := readInside_eq_some_iff.mp read
      obtain ⟨component, _, named, behindName, rfl⟩ := readComponent_eq_some_iff.mp behindType
      obtain ⟨environment, _, placed, behindAt, rfl⟩ := readEnvironment_eq_some_iff.mp behindName
      obtain ⟨key, fallback, rfl, keyed, closes, rfl⟩ := readKey_eq_some_iff.mp behindAt
      refine ⟨?_, typed, named, placed, keyed, closes⟩
      rw [characters_append]
    · cases read
  · rintro ⟨rfl, typed, named, placed, keyed, closes⟩
    rw [characters_append]
    refine readInside_eq_some_iff.mpr ⟨written.configType, _, typed, ?_, rfl⟩
    refine readComponent_eq_some_iff.mpr ⟨written.component, _, named, ?_, rfl⟩
    refine readEnvironment_eq_some_iff.mpr ⟨written.environment, _, placed, ?_, rfl⟩
    exact readKey_eq_some_iff.mpr ⟨written.key, written.fallback, rfl, keyed, closes, rfl⟩

end Written

end DeployConfig
