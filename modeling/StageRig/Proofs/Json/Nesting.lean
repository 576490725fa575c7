/-
  StageRig.Proofs.Json.Nesting — how deep the containers of a text nest.

  `nesting` goes through a text once and counts the brackets that are open, those in
  strings aside. It knows nothing of values; on a text that spells one it is the depth of
  that value (`nesting_of_spelledBy`).
-/

import StageRig.Proofs.Json.Tree

namespace StageRig.Json

/-- The most brackets that are open at once from here on, where `n` are open; `inString` tells whether the text goes on
inside a string. -/
def nestingFrom : Nat → (inString : Bool) → List Char → Nat
  | n, _, [] => n
  | n, true, '\\' :: _ :: cs => nestingFrom n true cs
  | n, true, c :: cs => nestingFrom n (c ≠ '"') cs
  | n, false, c :: cs =>
    if c = '"' then nestingFrom n true cs
    else if c = '[' ∨ c = '{' then nestingFrom (n + 1) false cs
    else if c = ']' ∨ c = '}' then max n (nestingFrom (n - 1) false cs)
    else nestingFrom n false cs

/-- How many containers of a text are open at once. -/
def nesting (text : String) : Nat := nestingFrom 0 false text.toList

mutual

/-- How many containers of a value lie in each other. -/
def Node.depth : Node → Nat
  | .list vs => itemsDepth vs + 1
  | .map ms => membersDepth ms + 1
  | _ => 0

def itemsDepth : List Node → Nat
  | [] => 0
  | v :: vs => max v.depth (itemsDepth vs)

def membersDepth : List (Glyphs × Node) → Nat
  | [] => 0
  | (_, v) :: ms => max v.depth (membersDepth ms)

end

theorem le_nestingFrom (n : Nat) (inString : Bool) (cs : List Char) : n ≤ nestingFrom n inString cs := by
  fun_induction nestingFrom n inString cs <;> omega

/-- Characters that open and close nothing. -/
def Bracketless (cs : List Char) : Prop := ∀ c ∈ cs, c ∉ ['"', '[', '{', ']', '}']

instance (cs : List Char) : Decidable (Bracketless cs) := List.decidableBAll (fun c => c ∉ ['"', '[', '{', ']', '}']) cs

theorem nestingFrom_bracketless {cs : List Char} (h : Bracketless cs) (n : Nat) (rest : Rest) :
    nestingFrom n false (cs ++ rest) = nestingFrom n false rest := by
  induction cs with
  | nil => rfl
  | cons c cs ih =>
    obtain ⟨hc, hcs⟩ := List.forall_mem_cons.mp h
    simp only [List.mem_cons, List.not_mem_nil, or_false, not_or] at hc
    rw [List.cons_append, nestingFrom]
    simp [hc, ih hcs]

theorem nestingFrom_skipBlanks (n : Nat) (cs : Rest) : nestingFrom n false (skipBlanks cs) = nestingFrom n false cs := by
  have hblanks : Bracketless (cs.takeWhile isBlank) := by
    intro c hc
    have := List.all_eq_true.mp List.all_takeWhile c hc
    simp only [isBlank, Bool.or_eq_true, decide_eq_true_eq] at this
    rcases this with ((rfl | rfl) | rfl) | rfl <;> decide
  rw [← nestingFrom_bracketless hblanks n (skipBlanks cs), skipBlanks, List.takeWhile_append_dropWhile]

theorem nestingFrom_plain {c : Char} (hquote : c ≠ '"') (hslash : c ≠ '\\') (n : Nat) (cs : Rest) :
    nestingFrom n true (c :: cs) = nestingFrom n true cs := by
  cases cs <;> simp [nestingFrom, hquote, hslash]

/-- A string opens and closes nothing but itself. -/
theorem nestingFrom_string (gs : Glyphs) (n : Nat) (rest : Rest) :
    nestingFrom n true (gs.text ++ '"' :: rest) = nestingFrom n false rest := by
  induction gs with
  | nil => simp [Glyphs.text, nestingFrom]
  | cons g gs ih =>
    rw [← ih, Glyphs.text, List.flatMap_cons, List.append_assoc]
    cases g with
    | plain c h => exact nestingFrom_plain h.1 h.2.1 n _
    | letter c h => rw [Glyph.text, List.cons_append, List.cons_append, nestingFrom]; rfl
    | unicode a b c d h =>
      have hhex : ∀ x ∈ [a, b, c, d], x ≠ '"' ∧ x ≠ '\\' := by
        intro x hx
        constructor <;>
          (rintro rfl
           exact absurd (h _ hx) (by decide))
      simp only [List.forall_mem_cons] at hhex
      obtain ⟨ha, hb, hc, hd, -⟩ := hhex
      simp only [Glyph.text, List.cons_append, List.nil_append]
      rw [nestingFrom, nestingFrom_plain ha.1 ha.2, nestingFrom_plain hb.1 hb.2, nestingFrom_plain hc.1 hc.2,
        nestingFrom_plain hd.1 hd.2]
      rfl

theorem bracketless_digits {ds : List Char} (h : ∀ c ∈ ds, c.isDigit = true) : Bracketless ds := by
  intro c hc hmem
  have hdigit := h c hc
  simp only [List.mem_cons, List.not_mem_nil, or_false] at hmem
  rcases hmem with rfl | rfl | rfl | rfl | rfl <;> exact absurd hdigit (by decide)

theorem Bracketless.append {cs ds : List Char} (h : Bracketless cs) (h' : Bracketless ds) : Bracketless (cs ++ ds) := by
  intro c hc
  exact (List.mem_append.mp hc).elim (h c) (h' c)

theorem bracketless_figure (f : Figure) : Bracketless f.text := by
  have hwhole : Bracketless f.whole := by
    rcases f.isWhole with h | ⟨h, -⟩
    · rw [h]
      decide
    · exact bracketless_digits h.2
  have hfraction : Bracketless f.fraction := by
    rcases f.isFraction with h | ⟨ds, h, hds⟩
    · rw [h]
      exact nofun
    · have hdot : Bracketless ['.'] := by decide
      rw [h]
      exact hdot.append (bracketless_digits hds.2)
  have hexponent : Bracketless f.exponent := by
    rcases f.isExponent with h | ⟨e, sign, ds, h, he, hsign, hds⟩
    · rw [h]
      exact nofun
    · rw [h, ← List.cons_append]
      refine Bracketless.append ?_ (bracketless_digits hds.2)
      simp only [List.mem_cons, List.not_mem_nil, or_false] at hsign
      rcases he with rfl | rfl <;> rcases hsign with rfl | rfl | rfl <;> decide
  exact (hwhole.append hfraction).append hexponent

/-- A token without brackets changes nothing. -/
theorem nestingFrom_token {t : List Char} (ht : Bracketless t) {cs mid : Rest} (h : skipBlanks cs = t ++ mid) (n : Nat) :
    nestingFrom n false cs = nestingFrom n false mid := by
  rw [← nestingFrom_skipBlanks, h, nestingFrom_bracketless ht]

theorem nestingFrom_quoted {gs : Glyphs} {cs mid : Rest} (h : skipBlanks cs = gs.quoted ++ mid) (n : Nat) :
    nestingFrom n false cs = nestingFrom n false mid := by
  rw [← nestingFrom_skipBlanks, h, Glyphs.quoted, List.cons_append, nestingFrom, if_pos rfl, List.append_assoc]
  exact nestingFrom_string gs n mid

theorem nestingFrom_closing {c : Char} (hc : c = ']' ∨ c = '}') {cs mid : Rest} (h : skipBlanks cs = c :: mid) (n : Nat) :
    nestingFrom (n + 1) false cs = max (n + 1) (nestingFrom n false mid) := by
  rw [← nestingFrom_skipBlanks, h]
  rcases hc with rfl | rfl <;> simp [nestingFrom]

theorem nestingFrom_opening {c : Char} (hc : c = '[' ∨ c = '{') {cs mid : Rest} (h : skipBlanks cs = c :: mid) (n : Nat) :
    nestingFrom n false cs = nestingFrom (n + 1) false mid := by
  rw [← nestingFrom_skipBlanks, h]
  rcases hc with rfl | rfl <;> simp [nestingFrom]

theorem nestingFrom_comma {cs mid : Rest} (h : skipBlanks cs = ',' :: mid) (n : Nat) :
    nestingFrom n false cs = nestingFrom n false mid := nestingFrom_token (t := [',']) (by decide) h n

theorem nestingFrom_key {key : Glyphs} {cs mid : Rest} (h : Spaced [key.quoted, [':']] cs mid) (n : Nat) :
    nestingFrom n false cs = nestingFrom n false mid := by
  obtain ⟨mid₁, hkey, mid₂, hcolon, rfl⟩ := h
  rw [nestingFrom_quoted hkey, nestingFrom_token (t := [':']) (by decide) hcolon]

/-- A value without parts has no depth. -/
theorem nestingFrom_leaf {v : Node} (hv : v.depth = 0) {n : Nat} {cs rest : Rest}
    (h : nestingFrom n false cs = nestingFrom n false rest) :
    nestingFrom n false cs = max (n + v.depth) (nestingFrom n false rest) := by
  rw [h, hv, Nat.add_zero, Nat.max_eq_right (le_nestingFrom n false rest)]

mutual

/-- In front of a value, the text nests as deep as the value does, or as what follows. -/
theorem nestingFrom_spelled : ∀ (v : Node) (n : Nat) {cs rest : Rest}, v.Spells cs rest →
    nestingFrom n false cs = max (n + v.depth) (nestingFrom n false rest)
  | .null, n, cs, rest, h => by
    obtain ⟨mid, hcs, rfl⟩ := h
    exact nestingFrom_leaf rfl (nestingFrom_token (by decide) hcs n)
  | .bool true, n, cs, rest, h => by
    obtain ⟨mid, hcs, rfl⟩ := h
    exact nestingFrom_leaf rfl (nestingFrom_token (by decide) hcs n)
  | .bool false, n, cs, rest, h => by
    obtain ⟨mid, hcs, rfl⟩ := h
    exact nestingFrom_leaf rfl (nestingFrom_token (by decide) hcs n)
  | .number true f, n, cs, rest, h => by
    obtain ⟨mid, hcs, rfl⟩ := h
    have hsign : Bracketless ['-'] := by decide
    exact nestingFrom_leaf rfl (nestingFrom_token (hsign.append (bracketless_figure f)) hcs n)
  | .number false f, n, cs, rest, h => by
    obtain ⟨mid, hcs, rfl⟩ := h
    exact nestingFrom_leaf rfl (nestingFrom_token (bracketless_figure f) hcs n)
  | .string gs, n, cs, rest, h => by
    obtain ⟨mid, hcs, rfl⟩ := h
    exact nestingFrom_leaf rfl (nestingFrom_quoted hcs n)
  | .list vs, n, cs, rest, h => by
    obtain ⟨mid, hcs, h⟩ := Node.spells_list.mp h
    rw [nestingFrom_opening (.inl rfl) hcs, nestingFrom_items true vs n h, Node.depth, Nat.add_right_comm, ← Nat.add_assoc]
  | .map ms, n, cs, rest, h => by
    obtain ⟨mid, hcs, h⟩ := Node.spells_map.mp h
    rw [nestingFrom_opening (.inr rfl) hcs, nestingFrom_members true ms n h, Node.depth, Nat.add_right_comm, ← Nat.add_assoc]

theorem nestingFrom_items : ∀ (first : Bool) (vs : List Node) (n : Nat) {cs rest : Rest}, Spaced (itemTokens first vs) cs rest →
    nestingFrom (n + 1) false cs = max (n + 1 + itemsDepth vs) (nestingFrom n false rest)
  | first, [], n, cs, rest, h => by
    obtain ⟨mid, hcs, rfl⟩ := h
    exact nestingFrom_closing (.inl rfl) hcs n
  | true, v :: vs, n, cs, rest, h => by
    obtain ⟨mid, hv, hvs⟩ := spaced_items.mp h
    rw [nestingFrom_spelled v (n + 1) hv, nestingFrom_items false vs n hvs, itemsDepth]
    omega
  | false, v :: vs, n, cs, rest, h => by
    obtain ⟨mid₀, hcs, h⟩ := spaced_items_next.mp h
    obtain ⟨mid, hv, hvs⟩ := spaced_items.mp h
    rw [nestingFrom_comma hcs, nestingFrom_spelled v (n + 1) hv, nestingFrom_items false vs n hvs, itemsDepth]
    omega

theorem nestingFrom_members : ∀ (first : Bool) (ms : List (Glyphs × Node)) (n : Nat) {cs rest : Rest},
    Spaced (memberTokens first ms) cs rest →
    nestingFrom (n + 1) false cs = max (n + 1 + membersDepth ms) (nestingFrom n false rest)
  | first, [], n, cs, rest, h => by
    obtain ⟨mid, hcs, rfl⟩ := h
    exact nestingFrom_closing (.inr rfl) hcs n
  | true, (key, v) :: ms, n, cs, rest, h => by
    obtain ⟨mid, hkey, mid', hv, hms⟩ := spaced_members.mp h
    rw [nestingFrom_key hkey, nestingFrom_spelled v (n + 1) hv, nestingFrom_members false ms n hms, membersDepth]
    omega
  | false, (key, v) :: ms, n, cs, rest, h => by
    obtain ⟨mid₀, hcs, h⟩ := spaced_members_next.mp h
    obtain ⟨mid, hkey, mid', hv, hms⟩ := spaced_members.mp h
    rw [nestingFrom_comma hcs, nestingFrom_key hkey, nestingFrom_spelled v (n + 1) hv, nestingFrom_members false ms n hms,
      membersDepth]
    omega

end

/-- A text nests as deep as the value that it spells. -/
theorem nesting_of_spelledBy {v : Node} {text : String} (h : v.SpelledBy text) : nesting text = v.depth := by
  obtain ⟨rest, hv, hrest⟩ := h
  rw [nesting, nestingFrom_spelled v 0 hv, ← nestingFrom_skipBlanks 0 rest, hrest, nestingFrom]
  omega

end StageRig.Json
