/-
  StageRig.Proofs.Schema.Print — the printer writes a tree.

  `toNode` is the tree that data are written as; the printer's text spells it, at any level
  and whatever comes after it (`print_spelled`). Each character and each number is written
  in one way, and says what it was written for (`value_glyphsOf`, `found_figureOf`).
-/

import StageRig.Proofs.Schema.Meaning
import StageRig.Schema.Printer

namespace StageRig.Schema

open Json

variable {ρ : Type}

/-! ## Strings -/

theorem hexDigit?_lowerHex : ∀ n < 16, hexDigit? (lowerHex n) = some n := by decide

theorem areHex_of_control {c : Char} (h : c < ' ') :
    ∀ x ∈ ['0', '0', lowerHex (c.toNat / 16), lowerHex (c.toNat % 16)], (hexDigit? x).isSome = true := by
  have hc : c.toNat < 32 := h
  have hhigh := hexDigit?_lowerHex (c.toNat / 16) (by omega)
  have hlow := hexDigit?_lowerHex (c.toNat % 16) (by omega)
  have hzero : hexDigit? '0' = some 0 := rfl
  simp [hzero, hhigh, hlow]

/-- The written form of a character. -/
def glyphOf (c : Char) : Glyph :=
  if hquote : c = '"' then .letter '"' (by decide)
  else if hslash : c = '\\' then .letter '\\' (by decide)
  else if c = '\x08' then .letter 'b' (by decide)
  else if c = '\x0c' then .letter 'f' (by decide)
  else if c = '\n' then .letter 'n' (by decide)
  else if c = '\r' then .letter 'r' (by decide)
  else if c = '\t' then .letter 't' (by decide)
  else if hcontrol : c < ' ' then
    .unicode '0' '0' (lowerHex (c.toNat / 16)) (lowerHex (c.toNat % 16)) (areHex_of_control hcontrol)
  else .plain c ⟨hquote, hslash, hcontrol⟩

/-- The written form of a string. -/
def glyphsOf (s : String) : Glyphs := s.toList.map glyphOf

/-- The characters that are written as a letter behind a backslash. -/
def lettered : List Char := ['"', '\\', '\x08', '\x0c', '\n', '\r', '\t']

theorem mem_lettered {c : Char} (h : c ∈ lettered) :
    c = '"' ∨ c = '\\' ∨ c = '\x08' ∨ c = '\x0c' ∨ c = '\n' ∨ c = '\r' ∨ c = '\t' := by
  simpa [lettered] using h

theorem not_mem_lettered {c : Char} (h : c ∉ lettered) :
    c ≠ '"' ∧ c ≠ '\\' ∧ c ≠ '\x08' ∧ c ≠ '\x0c' ∧ c ≠ '\n' ∧ c ≠ '\r' ∧ c ≠ '\t' := by
  simpa [lettered] using h

theorem glyphOf_of_not_mem {c : Char} (h : c ∉ lettered) :
    glyphOf c = if hcontrol : c < ' ' then
        .unicode '0' '0' (lowerHex (c.toNat / 16)) (lowerHex (c.toNat % 16)) (areHex_of_control hcontrol)
      else .plain c ⟨(not_mem_lettered h).1, (not_mem_lettered h).2.1, hcontrol⟩ := by
  obtain ⟨hquote, hslash, hb, hf, hn, hr, ht⟩ := not_mem_lettered h
  rw [glyphOf, dif_neg hquote, dif_neg hslash, if_neg hb, if_neg hf, if_neg hn, if_neg hr, if_neg ht]

theorem text_glyphOf (c : Char) : (glyphOf c).text = escape c := by
  by_cases h : c ∈ lettered
  · rcases mem_lettered h with rfl | rfl | rfl | rfl | rfl | rfl | rfl <;> rfl
  · obtain ⟨hquote, hslash, hb, hf, hn, hr, ht⟩ := not_mem_lettered h
    rw [glyphOf_of_not_mem h, escape, if_neg hquote, if_neg hslash, if_neg hb, if_neg hf, if_neg hn, if_neg hr, if_neg ht]
    split <;> rfl

theorem quoted_glyphsOf (s : String) : (glyphsOf s).quoted = printString s := by
  simp only [Glyphs.quoted, Glyphs.text, glyphsOf, printString, List.flatMap_map, text_glyphOf]
  rfl

theorem hex4?_of_control {c : Char} (h : c < ' ') :
    hex4? '0' '0' (lowerHex (c.toNat / 16)) (lowerHex (c.toNat % 16)) = some c.toNat := by
  have hc : c.toNat < 32 := h
  have hzero : hexDigit? '0' = some 0 := rfl
  have hhigh := hexDigit?_lowerHex (c.toNat / 16) (by omega)
  have hlow := hexDigit?_lowerHex (c.toNat % 16) (by omega)
  simp only [hex4?, hzero, hhigh, hlow, bind, Option.bind]
  congr 1
  omega

theorem value_control {c : Char} (h : c < ' ') (gs : Glyphs) :
    Glyphs.value (.unicode '0' '0' (lowerHex (c.toNat / 16)) (lowerHex (c.toNat % 16)) (areHex_of_control h) :: gs) =
      gs.value.map (c :: ·) := by
  have hc : c.toNat < 32 := h
  have htrail : isTrailSurrogate c.toNat = false := by
    simp only [isTrailSurrogate, Bool.and_eq_false_iff, decide_eq_false_iff_not]
    omega
  have hlead : isLeadSurrogate c.toNat = false := by
    simp only [isLeadSurrogate, Bool.and_eq_false_iff, decide_eq_false_iff_not]
    omega
  rw [Glyphs.value.eq_def]
  simp [hex4?_of_control h, htrail, hlead, Char.ofNat_toNat]

theorem value_glyphOf (c : Char) (gs : Glyphs) : Glyphs.value (glyphOf c :: gs) = gs.value.map (c :: ·) := by
  by_cases h : c ∈ lettered
  · rcases mem_lettered h with rfl | rfl | rfl | rfl | rfl | rfl | rfl <;> rfl
  · rw [glyphOf_of_not_mem h]
    split
    · rename_i hcontrol
      exact value_control hcontrol gs
    · rfl

theorem value_glyphsOf (s : String) : (glyphsOf s).value = .ok s.toList := by
  rw [glyphsOf]
  induction s.toList with
  | nil => rfl
  | cons c cs ih => rw [List.map_cons, value_glyphOf, ih]; rfl

theorem string?_glyphsOf (s : String) : (glyphsOf s).string? = some s := by
  rw [string?_of_value (value_glyphsOf s), String.ofList_toList]

/-! ## Numbers -/

theorem head?_toDigits_ne_zero {n : Nat} (h : 0 < n) : (Nat.toDigits 10 n).head? ≠ some '0' := by
  induction n using Nat.strongRecOn with
  | ind n ih =>
    by_cases hn : n < 10
    · rw [Nat.toDigits_of_lt_base hn]
      have hdigit : ∀ m < 10, 0 < m → [Nat.digitChar m].head? ≠ some '0' := by decide
      exact hdigit n hn h
    · rw [Nat.toDigits_of_base_le (by decide) (Nat.le_of_not_lt hn), List.head?_append_of_ne_nil _ Nat.toDigits_ne_nil]
      exact ih (n / 10) (by omega) (by omega)

theorem isWhole_repr (n : Nat) : IsWhole n.repr.toList := by
  rw [Nat.repr_eq_ofList_toDigits, String.toList_ofList]
  rcases Nat.eq_zero_or_pos n with rfl | hn
  · exact .inl rfl
  · have hdigits : IsDigits (Nat.toDigits 10 n) :=
      ⟨Nat.toDigits_ne_nil, fun c hc => Nat.isDigit_of_mem_toDigits (by decide) (by decide) hc⟩
    exact .inr ⟨hdigits, head?_toDigits_ne_zero hn⟩

/-- The written form of a number. -/
def figureOf (n : Nat) : Figure := ⟨n.repr.toList, [], [], isWhole_repr n, .inl rfl, .inl rfl⟩

theorem digitsValue_repr (n : Nat) : digitsValue n.repr.toList = n := by
  rw [Nat.repr_eq_ofList_toDigits, String.toList_ofList]
  exact Nat.ofDigitChars_eq_foldl.symm.trans Nat.ofDigitChars_ten_toDigits

/-- Digits alone. -/
def wholeFigure {ds : List Char} (h : IsWhole ds) : Figure := ⟨ds, [], [], h, .inl rfl, .inl rfl⟩

theorem found_wholeFigure {ds : List Char} (h : IsWhole ds) (hsize : digitsValue ds < UInt64.size) :
    (wholeFigure h).found false = .ok (.integer (digitsValue ds)) := by
  have hfound : ((wholeFigure h).numeral false).found? = some (.integer (digitsValue ds)) := by
    simp only [Figure.numeral, wholeFigure, fractionOf, exponentOf, Numeral.found?, Bool.false_eq_true, if_false]
    exact if_pos hsize
  rw [Figure.found, hfound]

theorem found_figureOf {n : Nat} (h : n < UInt64.size) : (figureOf n).found false = .ok (.integer n) := by
  have hfound := found_wholeFigure (isWhole_repr n)
  rw [digitsValue_repr] at hfound
  exact hfound h

/-! ## Trees -/

variable (env : ρ → RecordSpec ρ)

mutual

/-- The tree that data are written as. -/
def toNode : Datum → Schema ρ → Node
  | .absent, _ => .null
  | .number n, _ => .number false (figureOf n.toNat)
  | .text s, _ => .string (glyphsOf s)
  | .variant i, s => .string (glyphsOf (s.names.getD i ""))
  | .list ds, s => .list (toNodes ds s.item)
  | .record ds, s => .map (toMembers ds (s.fields env))

def toNodes : List Datum → Schema ρ → List Node
  | [], _ => []
  | d :: ds, s => toNode d s :: toNodes ds s

def toMembers : List Datum → List (FieldSpec ρ) → List (Glyphs × Node)
  | d :: ds, f :: fs =>
    if f.quiet && d.isBlank then toMembers ds fs else (glyphsOf f.key, toNode d f.schema) :: toMembers ds fs
  | _, _ => []

end

variable {env}

/-! ## Containers -/

/-- The text spells these tokens, whatever comes after it. -/
def Writes (ts : List (List Char)) (t : List Char) : Prop := ts ≠ [] ∧ ∀ rest, Spaced ts (t ++ rest) rest

theorem skipBlanks_newline (level : Nat) (cs : Rest) : skipBlanks (newline level ++ cs) = skipBlanks cs := by
  rw [newline, List.cons_append, skipBlanks, List.dropWhile_cons_of_pos (by decide), skipBlanks]
  induction 2 * level with
  | zero => rfl
  | succ n ih => rw [List.replicate_succ, List.cons_append, List.dropWhile_cons_of_pos (by decide), ih]

/-- A blank in front of a text changes nothing. -/
theorem Writes.blank {ts : List (List Char)} {t : List Char} (h : Writes ts t) {c : Char} (hc : isBlank c = true) :
    Writes ts (c :: t) := by
  obtain ⟨hne, h⟩ := h
  refine ⟨hne, fun rest => ?_⟩
  cases ts with
  | nil => exact absurd rfl hne
  | cons t' ts =>
    rw [List.cons_append, spaced_cons, skipBlanks, List.dropWhile_cons_of_pos hc]
    exact h rest

theorem Writes.newline {ts : List (List Char)} {t : List Char} (h : Writes ts t) (level : Nat) :
    Writes ts (newline level ++ t) := by
  obtain ⟨hne, h⟩ := h
  refine ⟨hne, fun rest => ?_⟩
  cases ts with
  | nil => exact absurd rfl hne
  | cons t' ts =>
    rw [List.append_assoc, spaced_cons, skipBlanks_newline, ← spaced_cons]
    exact h rest

/-- The tokens of entries from the first one or a later one on, and the closing bracket behind them. -/
def enclosed (closing : Char) : Bool → List (List (List Char)) → List (List Char)
  | _, [] => [[closing]]
  | first, ts :: tss => separator first ++ (ts ++ enclosed closing false tss)

theorem itemTokens_eq (first : Bool) (vs : List Node) : itemTokens first vs = enclosed ']' first (vs.map Node.tokens) := by
  induction vs generalizing first with
  | nil => rfl
  | cons v vs ih => rw [itemTokens, ih]; rfl

theorem memberTokens_eq (first : Bool) (ms : List (Glyphs × Node)) :
    memberTokens first ms = enclosed '}' first (ms.map fun m => m.1.quoted :: [':'] :: m.2.tokens) := by
  induction ms generalizing first with
  | nil => rfl
  | cons m ms ih => rw [memberTokens, ih]; rfl

/-- The entries behind the first, each on a line of its own, and the closing bracket. -/
theorem spaced_enclosed {closing : Char} (hclosing : isBlank closing = false) (level : Nat) {tss : List (List (List Char))}
    {items : List (List Char)} (h : List.Forall₂ Writes tss items) (rest : Rest) :
    Spaced (enclosed closing false tss)
      (items.flatMap (fun t => ',' :: (newline (level + 1) ++ t)) ++ (newline level ++ closing :: rest)) rest := by
  induction h with
  | nil =>
    refine ⟨rest, ?_, rfl⟩
    rw [List.flatMap_nil, List.nil_append, skipBlanks_newline, skipBlanks, List.dropWhile_cons_of_neg (by simp [hclosing])]
    rfl
  | cons ht _ ih =>
    have hentry := spaced_append.mpr ⟨_, (ht.newline (level + 1)).2 _, ih⟩
    rw [List.flatMap_cons, List.cons_append, List.cons_append, List.append_assoc]
    exact ⟨_, List.dropWhile_cons_of_neg (by decide), hentry⟩

theorem intercalate_comma (t : List Char) (ts : List (List Char)) : [','].intercalate (t :: ts) = t ++ ts.flatMap (',' :: ·) := by
  induction ts generalizing t with
  | nil => simp
  | cons u ts ih => rw [List.intercalate_cons_cons, ih]; simp

/-- A container is written entry by entry. -/
theorem writes_bracket {opening closing : Char} (hopening : isBlank opening = false) (hclosing : isBlank closing = false)
    (level : Nat) {tss : List (List (List Char))} {items : List (List Char)} (h : List.Forall₂ Writes tss items) :
    Writes ([opening] :: enclosed closing true tss) (bracket opening closing level items) := by
  refine ⟨nofun, fun rest => ?_⟩
  cases h with
  | nil =>
    refine ⟨closing :: rest, List.dropWhile_cons_of_neg (by simp [hopening]), rest, ?_, rfl⟩
    exact List.dropWhile_cons_of_neg (by simp [hclosing])
  | @cons ts t tss items ht hts =>
    have htext : bracket opening closing level (t :: items) ++ rest =
        opening :: (newline (level + 1) ++ t ++
          (items.flatMap (fun t => ',' :: (newline (level + 1) ++ t)) ++ (newline level ++ closing :: rest))) := by
      rw [bracket, if_neg (by simp), List.map_cons, intercalate_comma]
      simp [List.flatMap_map]
    have hentries := spaced_append.mpr ⟨_, (ht.newline (level + 1)).2 _, spaced_enclosed hclosing level hts rest⟩
    rw [htext]
    exact ⟨_, List.dropWhile_cons_of_neg (by simp [hopening]), hentries⟩

/-- A text that does not start with a blank spells itself. -/
theorem writes_token {c : Char} (hc : isBlank c = false) (cs : List Char) : Writes [c :: cs] (c :: cs) :=
  ⟨nofun, fun rest => ⟨rest, List.dropWhile_cons_of_neg (by simp [hc]), rfl⟩⟩

theorem writes_printString (s : String) : Writes [(glyphsOf s).quoted] (printString s) := by
  rw [quoted_glyphsOf]
  exact writes_token (by decide) _

theorem isBlank_of_digit {c : Char} (h : c.isDigit = true) : isBlank c = false := by
  have hne : ∀ m : Char, m.isDigit = false → c ≠ m := fun m hm e => by simp [e, hm] at h
  simp [isBlank, hne ' ' (by decide), hne '\n' (by decide), hne '\t' (by decide), hne '\r' (by decide)]

/-- A member is written as its key, a colon and its value. -/
theorem writes_member (key : String) {ts : List (List Char)} {t : List Char} (h : Writes ts t) :
    Writes ((glyphsOf key).quoted :: [':'] :: ts) (printString key ++ [':', ' '] ++ t) := by
  refine ⟨nofun, fun rest => ?_⟩
  obtain ⟨mid, hkey, rfl⟩ := (writes_printString key).2 (':' :: ' ' :: (t ++ rest))
  refine ⟨_, ?_, ' ' :: (t ++ rest), List.dropWhile_cons_of_neg (by decide), ?_⟩
  · simpa using hkey
  · exact (h.blank (by decide)).2 rest

mutual

/-- What is printed spells the tree. -/
theorem writes_print : ∀ (d : Datum) (s : Schema ρ) (level : Nat), Writes (toNode env d s).tokens (print env level d s)
  | .absent, _, _ => writes_token (by decide) _
  | .number n, s, level => by
    obtain ⟨c, ds, hc, hdigit⟩ := (figureOf n.toNat).exists_digit
    have hprint : print env level (.number n) s = c :: ds := by
      rw [print, ← hc]
      simp [Figure.text, figureOf]
    rw [toNode, Node.tokens, hprint, hc]
    exact writes_token (isBlank_of_digit hdigit) ds
  | .text t, _, _ => writes_printString t
  | .variant _, _, _ => writes_printString _
  | .list ds, s, level => by
    rw [toNode, Node.tokens, itemTokens_eq, print]
    exact writes_bracket (by decide) (by decide) level (writes_printItems ds s.item (level + 1))
  | .record ds, s, level => by
    rw [toNode, Node.tokens, memberTokens_eq, print]
    exact writes_bracket (by decide) (by decide) level (writes_printFields ds (s.fields env) (level + 1))

theorem writes_printItems : ∀ (ds : List Datum) (s : Schema ρ) (level : Nat),
    List.Forall₂ Writes ((toNodes env ds s).map Node.tokens) (printItems env level ds s)
  | [], _, _ => .nil
  | d :: ds, s, level => .cons (writes_print d s level) (writes_printItems ds s level)

theorem writes_printFields : ∀ (ds : List Datum) (fields : List (FieldSpec ρ)) (level : Nat),
    List.Forall₂ Writes ((toMembers env ds fields).map fun m => m.1.quoted :: [':'] :: m.2.tokens)
      (printFields env level ds fields)
  | [], _, _ => .nil
  | _ :: _, [], _ => .nil
  | d :: ds, f :: fs, level => by
    rw [toMembers, printFields]
    split
    · exact writes_printFields ds fs level
    · exact .cons (writes_member f.key (writes_print d f.schema level)) (writes_printFields ds fs level)

end

/-- A document spells the tree of its data. -/
theorem render_spelledBy (d : Datum) (s : Schema ρ) : (toNode env d s).SpelledBy (render env s d) := by
  refine ⟨[], ?_, rfl⟩
  rw [render, String.toList_ofList, ← List.append_nil (print env 0 d s)]
  exact (writes_print d s 0).2 []

end StageRig.Schema
