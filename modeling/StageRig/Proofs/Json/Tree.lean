/-
  StageRig.Proofs.Json.Tree — JSON values as trees, and the texts that spell them.

  A `Node` keeps what a text says and how it says it, but for the blanks: numbers and
  strings are kept as they are written, and an object keeps its members in their order,
  with every repetition. Its text is a sequence of tokens (`Node.tokens`) with any blanks
  in front of each (`Spaced`).

  The grammar is that of JSON. A string may hold escapes of lone surrogates and a number
  may have any size; whether they mean anything is not for the grammar to say.
-/

import Mathlib.Data.List.DropRight
import StageRig.Json.Scan

namespace StageRig.Json

/-! ## Strings and numbers -/

/-- One character of a string as it is written: itself, an escape by letter, or an escape by number. -/
inductive Glyph where
  | plain (c : Char) (isPlain : c ≠ '"' ∧ c ≠ '\\' ∧ ¬ c < ' ')
  | letter (c : Char) (isLetter : c ∈ ['"', '\\', '/', 'b', 'f', 'n', 'r', 't'])
  | unicode (a b c d : Char) (areHex : ∀ x ∈ [a, b, c, d], (hexDigit? x).isSome)
  deriving DecidableEq, Repr

def Glyph.text : Glyph → List Char
  | plain c _ => [c]
  | letter c _ => ['\\', c]
  | unicode a b c d _ => ['\\', 'u', a, b, c, d]

/-- The written form of a string, between its quotes. -/
abbrev Glyphs := List Glyph

def Glyphs.text (gs : Glyphs) : List Char := gs.flatMap Glyph.text

/-- A string with its quotes. -/
def Glyphs.quoted (gs : Glyphs) : List Char := '"' :: (gs.text ++ ['"'])

/-- At least one digit, and nothing else. -/
def IsDigits (cs : List Char) : Prop := cs ≠ [] ∧ ∀ c ∈ cs, c.isDigit = true

/-- Digits without a leading zero, unless there is only that. -/
def IsWhole (cs : List Char) : Prop := cs = ['0'] ∨ IsDigits cs ∧ cs.head? ≠ some '0'

def IsFraction (cs : List Char) : Prop := cs = [] ∨ ∃ ds, cs = '.' :: ds ∧ IsDigits ds

def IsExponent (cs : List Char) : Prop :=
  cs = [] ∨ ∃ e sign ds, cs = e :: (sign ++ ds) ∧ (e = 'e' ∨ e = 'E') ∧ sign ∈ [[], ['+'], ['-']] ∧ IsDigits ds

/-- A number behind its sign. -/
structure Figure where
  whole : List Char
  fraction : List Char
  exponent : List Char
  isWhole : IsWhole whole
  isFraction : IsFraction fraction
  isExponent : IsExponent exponent

def Figure.text (f : Figure) : List Char := f.whole ++ f.fraction ++ f.exponent

/-! ## Trees -/

inductive Node where
  | null
  | bool (b : Bool)
  | number (negative : Bool) (figure : Figure)
  | string (glyphs : Glyphs)
  | list (items : List Node)
  | map (members : List (Glyphs × Node))

/-- What separates an item from the one before. -/
def separator (first : Bool) : List (List Char) := if first then [] else [[',']]

mutual

def Node.tokens : Node → List (List Char)
  | .null => [['n', 'u', 'l', 'l']]
  | .bool true => [['t', 'r', 'u', 'e']]
  | .bool false => [['f', 'a', 'l', 's', 'e']]
  | .number true f => ['-' :: f.text]
  | .number false f => [f.text]
  | .string gs => [gs.quoted]
  | .list vs => ['['] :: itemTokens true vs
  | .map ms => ['{'] :: memberTokens true ms

/-- The items of a list from the first one or a later one on, and the bracket behind them. -/
def itemTokens : Bool → List Node → List (List Char)
  | _, [] => [[']']]
  | first, v :: vs => separator first ++ (v.tokens ++ itemTokens false vs)

/-- The members of an object from the first one or a later one on, and the brace behind them. -/
def memberTokens : Bool → List (Glyphs × Node) → List (List Char)
  | _, [] => [['}']]
  | first, (key, v) :: ms => separator first ++ (key.quoted :: [':'] :: (v.tokens ++ memberTokens false ms))

end

/-! ## Texts -/

/-- The text `cs` has these tokens, each behind any blanks, and goes on with `rest`. -/
def Spaced : List (List Char) → Rest → Rest → Prop
  | [], cs, rest => cs = rest
  | t :: ts, cs, rest => ∃ mid, skipBlanks cs = t ++ mid ∧ Spaced ts mid rest

/-- The text `cs` spells the value and goes on with `rest`. -/
abbrev Node.Spells (v : Node) (cs rest : Rest) : Prop := Spaced v.tokens cs rest

/-- The whole text spells the value, with any blanks around it. -/
def Node.SpelledBy (v : Node) (text : String) : Prop := ∃ rest, v.Spells text.toList rest ∧ skipBlanks rest = []

@[simp] theorem spaced_nil {cs rest : Rest} : Spaced [] cs rest ↔ cs = rest := Iff.rfl

@[simp] theorem spaced_cons {t : List Char} {ts : List (List Char)} {cs rest : Rest} :
    Spaced (t :: ts) cs rest ↔ ∃ mid, skipBlanks cs = t ++ mid ∧ Spaced ts mid rest := Iff.rfl

theorem spaced_append {ts us : List (List Char)} {cs rest : Rest} :
    Spaced (ts ++ us) cs rest ↔ ∃ mid, Spaced ts cs mid ∧ Spaced us mid rest := by
  induction ts generalizing cs with
  | nil => simp
  | cons t ts ih =>
    simp only [List.cons_append, spaced_cons, ih]
    constructor
    · intro h
      obtain ⟨a, ha, b, hab, hb⟩ := h
      exact ⟨b, ⟨a, ha, hab⟩, hb⟩
    · intro h
      obtain ⟨b, ⟨a, ha, hab⟩, hb⟩ := h
      exact ⟨a, ha, b, hab, hb⟩

theorem Node.spells_list {vs : List Node} {cs rest : Rest} :
    (Node.list vs).Spells cs rest ↔ ∃ mid, skipBlanks cs = '[' :: mid ∧ Spaced (itemTokens true vs) mid rest := Iff.rfl

theorem Node.spells_map {ms : List (Glyphs × Node)} {cs rest : Rest} :
    (Node.map ms).Spells cs rest ↔ ∃ mid, skipBlanks cs = '{' :: mid ∧ Spaced (memberTokens true ms) mid rest := Iff.rfl

/-- A text of items is one of the first item and of the rest. -/
theorem spaced_items {v : Node} {vs : List Node} {cs rest : Rest} :
    Spaced (itemTokens true (v :: vs)) cs rest ↔ ∃ mid, v.Spells cs mid ∧ Spaced (itemTokens false vs) mid rest := by
  rw [show itemTokens true (v :: vs) = v.tokens ++ itemTokens false vs from rfl]
  exact spaced_append

/-- A text of members is one of the first key, its value and the rest. -/
theorem spaced_members {key : Glyphs} {v : Node} {ms : List (Glyphs × Node)} {cs rest : Rest} :
    Spaced (memberTokens true ((key, v) :: ms)) cs rest ↔
      ∃ mid, Spaced [key.quoted, [':']] cs mid ∧ ∃ mid', v.Spells mid mid' ∧ Spaced (memberTokens false ms) mid' rest := by
  rw [show memberTokens true ((key, v) :: ms) = [key.quoted, [':']] ++ (v.tokens ++ memberTokens false ms) from rfl]
  simp only [spaced_append]

/-- Later items stand behind a comma. -/
theorem spaced_items_next {v : Node} {vs : List Node} {cs rest : Rest} :
    Spaced (itemTokens false (v :: vs)) cs rest ↔
      ∃ mid, skipBlanks cs = ',' :: mid ∧ Spaced (itemTokens true (v :: vs)) mid rest := Iff.rfl

/-- Later members stand behind a comma. -/
theorem spaced_members_next {m : Glyphs × Node} {ms : List (Glyphs × Node)} {cs rest : Rest} :
    Spaced (memberTokens false (m :: ms)) cs rest ↔
      ∃ mid, skipBlanks cs = ',' :: mid ∧ Spaced (memberTokens true (m :: ms)) mid rest := Iff.rfl

theorem skipBlanks_suffix (cs : Rest) : skipBlanks cs <:+ cs := List.dropWhile_suffix _

theorem length_skipBlanks_le (cs : Rest) : (skipBlanks cs).length ≤ cs.length := (skipBlanks_suffix cs).length_le

/-- A token takes up as many characters as it has. -/
theorem length_of_token {t : List Char} {cs mid : Rest} (h : skipBlanks cs = t ++ mid) : t.length + mid.length ≤ cs.length := by
  have hlen := length_skipBlanks_le cs
  rw [h, List.length_append] at hlen
  exact hlen

theorem Spaced.length_le {ts : List (List Char)} {cs rest : Rest} (h : Spaced ts cs rest) : rest.length ≤ cs.length := by
  induction ts generalizing cs with
  | nil => exact Nat.le_of_eq (congrArg _ (spaced_nil.mp h).symm)
  | cons t ts ih =>
    obtain ⟨mid, hmid, h⟩ := h
    have := length_of_token hmid
    have := ih h
    omega

theorem length_of_key {key : Glyphs} {cs rest : Rest} (h : Spaced [key.quoted, [':']] cs rest) : rest.length < cs.length := by
  obtain ⟨mid, hkey, hcolon⟩ := h
  have := length_of_token hkey
  have := Spaced.length_le hcolon
  simp only [Glyphs.quoted, List.length_cons, List.length_append] at *
  omega

/-! ## What tokens begin with -/

theorem IsDigits.exists_cons {cs : List Char} (h : IsDigits cs) : ∃ c ds, cs = c :: ds ∧ c.isDigit = true := by
  obtain ⟨c, ds, rfl⟩ := List.exists_cons_of_ne_nil h.1
  exact ⟨c, ds, rfl, h.2 c List.mem_cons_self⟩

theorem Figure.exists_digit (f : Figure) : ∃ c ds, f.text = c :: ds ∧ c.isDigit = true := by
  rcases f.isWhole with h | ⟨h, -⟩
  · exact ⟨'0', f.fraction ++ f.exponent, by rw [Figure.text, h]; rfl, by decide⟩
  · obtain ⟨c, ds, hc, hdigit⟩ := h.exists_cons
    exact ⟨c, ds ++ f.fraction ++ f.exponent, by rw [Figure.text, hc]; simp, hdigit⟩

/-- A value has a first token, which is not empty and is no mark that stands behind a value. -/
theorem Node.exists_token (v : Node) : ∃ c t ts, v.tokens = (c :: t) :: ts ∧ c ∉ [',', ']', '}'] := by
  cases v with
  | null => exact ⟨_, _, _, rfl, by decide⟩
  | bool b => cases b <;> exact ⟨_, _, _, rfl, by decide⟩
  | number negative f =>
    cases negative
    · obtain ⟨c, ds, hc, hdigit⟩ := f.exists_digit
      refine ⟨c, ds, [], by rw [Node.tokens, hc], fun h => ?_⟩
      simp only [List.mem_cons, List.not_mem_nil, or_false] at h
      rcases h with rfl | rfl | rfl <;> exact absurd hdigit (by decide)
    · exact ⟨_, _, _, rfl, by decide⟩
  | string gs => exact ⟨_, _, _, rfl, by decide⟩
  | list vs => exact ⟨_, _, _, rfl, by decide⟩
  | map ms => exact ⟨_, _, _, rfl, by decide⟩

/-- The first character of a value tells its kind. -/
theorem Node.Spells.exists_head {v : Node} {cs rest : Rest} (h : v.Spells cs rest) :
    ∃ c mid, skipBlanks cs = c :: mid ∧ (c = 'n' ↔ v = .null) ∧ (c = '"' ↔ ∃ gs, v = .string gs) ∧
      (c = '[' ↔ ∃ vs, v = .list vs) ∧ (c = '{' ↔ ∃ ms, v = .map ms) ∧
      (c = '-' ∨ c.isDigit = true ↔ ∃ negative f, v = .number negative f) := by
  cases v with
  | null =>
    obtain ⟨mid, hmid, -⟩ := h
    exact ⟨'n', _, hmid, by simp⟩
  | bool b =>
    cases b <;>
      (obtain ⟨mid, hmid, -⟩ := h
       exact ⟨_, _, hmid, by simp⟩)
  | number negative f =>
    cases negative with
    | true =>
      obtain ⟨mid, hmid, -⟩ := h
      exact ⟨'-', _, hmid, by simp⟩
    | false =>
      obtain ⟨c, ds, hc, hdigit⟩ := f.exists_digit
      obtain ⟨mid, hmid, -⟩ := h
      rw [hc] at hmid
      have hne : ∀ m : Char, m.isDigit = false → c ≠ m := fun m hm h => by simp [h, hm] at hdigit
      refine ⟨c, _, hmid, ?_⟩
      simp [hdigit, hne 'n' (by decide), hne '"' (by decide), hne '[' (by decide), hne '{' (by decide)]
  | string gs =>
    obtain ⟨mid, hmid, -⟩ := h
    exact ⟨'"', _, hmid, by simp⟩
  | list vs =>
    obtain ⟨mid, hmid, -⟩ := h
    exact ⟨'[', _, hmid, by simp⟩
  | map ms =>
    obtain ⟨mid, hmid, -⟩ := h
    exact ⟨'{', _, hmid, by simp⟩

theorem skipBlanks_skipBlanks (cs : Rest) : skipBlanks (skipBlanks cs) = skipBlanks cs := List.dropWhile_idempotent isBlank cs

theorem Node.spells_skipBlanks {v : Node} {cs rest : Rest} : v.Spells (skipBlanks cs) rest ↔ v.Spells cs rest := by
  obtain ⟨c, t, ts, hts, -⟩ := v.exists_token
  rw [Node.Spells, Node.Spells, hts, spaced_cons, spaced_cons, skipBlanks_skipBlanks]

/-- A value takes up at least one character. -/
theorem Node.Spells.length_lt {v : Node} {cs rest : Rest} (h : v.Spells cs rest) : rest.length < cs.length := by
  obtain ⟨c, t, ts, hts, -⟩ := v.exists_token
  rw [Node.Spells, hts] at h
  obtain ⟨mid, hmid, h⟩ := h
  have := length_of_token hmid
  have := h.length_le
  simp only [List.length_cons] at *
  omega

/-- A value does not start with a mark that stands behind a value. -/
theorem Node.Spells.exists_ne_mark {v : Node} {cs rest : Rest} (h : v.Spells cs rest) :
    ∃ c mid, skipBlanks cs = c :: mid ∧ c ≠ ',' ∧ c ≠ ']' ∧ c ≠ '}' := by
  obtain ⟨c, t, ts, hts, hc⟩ := v.exists_token
  rw [Node.Spells, hts] at h
  obtain ⟨mid, hmid, -⟩ := h
  simp only [List.mem_cons, List.not_mem_nil, or_false, not_or] at hc
  exact ⟨c, t ++ mid, hmid, hc⟩

/-- Nothing that could go on with a number. -/
def Delimits (rest : Rest) : Prop := ∀ c, rest.head? = some c → c.isDigit = false ∧ c ≠ '.' ∧ c ≠ 'e' ∧ c ≠ 'E'

theorem delimits_nil : Delimits [] := by
  intro c hc
  cases hc

theorem delimits_of_mark {c : Char} (h : c ∈ [',', ':', ']', '}', ' ', '\n', '\t', '\r', '"']) (rest : Rest) :
    Delimits (c :: rest) := by
  intro c' hc'
  cases hc'
  simp only [List.mem_cons, List.not_mem_nil, or_false] at h
  rcases h with rfl | rfl | rfl | rfl | rfl | rfl | rfl | rfl | rfl <;> decide

/-- Blanks and marks end a number. -/
theorem delimits_of_skipBlanks {cs : Rest} (h : Delimits (skipBlanks cs)) : Delimits cs := by
  cases cs with
  | nil => exact delimits_nil
  | cons c cs =>
    by_cases hc : isBlank c = true
    · refine delimits_of_mark ?_ cs
      simp only [isBlank, Bool.or_eq_true, decide_eq_true_eq] at hc
      rcases hc with ((rfl | rfl) | rfl) | rfl <;> decide
    · rwa [skipBlanks, List.dropWhile_cons_of_neg hc] at h

theorem itemTokens_delimits {vs : List Node} {cs rest : Rest} (h : Spaced (itemTokens false vs) cs rest) : Delimits cs := by
  refine delimits_of_skipBlanks ?_
  cases vs with
  | nil =>
    obtain ⟨mid, hmid, -⟩ := h
    rw [hmid]
    exact delimits_of_mark (by decide) mid
  | cons v vs =>
    obtain ⟨mid, hmid, -⟩ := h
    rw [hmid]
    exact delimits_of_mark (by decide) mid

theorem memberTokens_delimits {ms : List (Glyphs × Node)} {cs rest : Rest} (h : Spaced (memberTokens false ms) cs rest) :
    Delimits cs := by
  refine delimits_of_skipBlanks ?_
  cases ms with
  | nil =>
    obtain ⟨mid, hmid, -⟩ := h
    rw [hmid]
    exact delimits_of_mark (by decide) mid
  | cons m ms =>
    obtain ⟨mid, hmid, -⟩ := h
    rw [hmid]
    exact delimits_of_mark (by decide) mid

end StageRig.Json
