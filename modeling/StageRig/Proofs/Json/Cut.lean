/-
  StageRig.Proofs.Json.Cut — texts that end too early.

  A text that should have certain tokens may end in front of one, inside one or behind one
  that is not the last (`Cut`). Every beginning of a text that stops short of the end of its
  tokens is such a text (`cut_or_spaced`). A word and a string run out of the text where they
  are cut (`expectWord_cut`, `scanString_cut`), also inside an escape.
-/

import StageRig.Proofs.Json.Scan

namespace StageRig.Json

/-- The text `cs` ends before all of these tokens were there. -/
def Cut : List (List Char) → Rest → Prop
  | [], _ => False
  | t :: ts, cs =>
    skipBlanks cs = [] ∨ (∃ c more, t = skipBlanks cs ++ c :: more) ∨ ∃ mid, skipBlanks cs = t ++ mid ∧ Cut ts mid

@[simp] theorem cut_nil {cs : Rest} : ¬ Cut [] cs := id

@[simp] theorem cut_cons {t : List Char} {ts : List (List Char)} {cs : Rest} : Cut (t :: ts) cs ↔ skipBlanks cs = [] ∨
    (∃ c more, t = skipBlanks cs ++ c :: more) ∨ ∃ mid, skipBlanks cs = t ++ mid ∧ Cut ts mid := Iff.rfl

/-- Blanks in front of the first token do not matter. -/
theorem Cut.of_skipBlanks {ts : List (List Char)} {cs ds : Rest} (h : Cut ts cs)
    (heq : skipBlanks ds = skipBlanks cs) : Cut ts ds := by
  cases ts with
  | nil => exact h
  | cons t ts => rwa [cut_cons, heq]

/-- A text is cut in the first of its tokens, or in the others behind them. -/
theorem Cut.append {ts us : List (List Char)} {cs : Rest} (h : Cut (ts ++ us) cs) :
    Cut ts cs ∨ ∃ mid, Spaced ts cs mid ∧ Cut us mid := by
  induction ts generalizing cs with
  | nil => exact Or.inr ⟨cs, rfl, h⟩
  | cons t ts ih =>
    rcases h with h | h | ⟨mid, hmid, h⟩
    · exact Or.inl (Or.inl h)
    · exact Or.inl (Or.inr (Or.inl h))
    · rcases ih h with h | ⟨mid', hmid', h⟩
      · exact Or.inl (Or.inr (Or.inr ⟨mid, hmid, h⟩))
      · exact Or.inr ⟨mid', ⟨mid, hmid, hmid'⟩, h⟩

/-- A mark is there or not. -/
theorem Cut.mark {m : Char} {ts : List (List Char)} {cs : Rest} (h : Cut ([m] :: ts) cs) :
    skipBlanks cs = [] ∨ ∃ mid, skipBlanks cs = m :: mid ∧ Cut ts mid := by
  rcases h with h | ⟨c, more, h⟩ | ⟨mid, hmid, h⟩
  · exact Or.inl h
  · refine Or.inl ?_
    cases hcs : skipBlanks cs with
    | nil => rfl
    | cons x xs =>
      rw [hcs] at h
      exact absurd (congrArg List.length h) (by simp)
  · exact Or.inr ⟨mid, hmid, h⟩

/-- A text that has the beginning `cs` and has the tokens has all of them in that beginning, or that is cut. -/
theorem cut_or_spaced {ts : List (List Char)} {cs more rest : Rest} (h : Spaced ts (cs ++ more) rest) :
    Cut ts cs ∨ ∃ mid, Spaced ts cs mid ∧ rest = mid ++ more := by
  induction ts generalizing cs with
  | nil => exact Or.inr ⟨cs, rfl, h.symm⟩
  | cons t ts ih =>
    by_cases hnil : skipBlanks cs = []
    · exact Or.inl (Or.inl hnil)
    · obtain ⟨mid, hmid, h⟩ := h
      have hskip : skipBlanks (cs ++ more) = skipBlanks cs ++ more := by
        rw [skipBlanks, List.dropWhile_append, if_neg (by rwa [List.isEmpty_iff])]
        rfl
      rw [hskip, List.append_eq_append_iff] at hmid
      rcases hmid with ⟨back, ht, hback⟩ | ⟨front, hcs, rfl⟩
      · cases back with
        | nil =>
          subst hback
          have hend : Spaced ts ([] ++ more) rest := h
          rcases ih hend with h | ⟨mid', hmid', hrest⟩
          · exact Or.inl (Or.inr (Or.inr ⟨[], by simp [ht], h⟩))
          · exact Or.inr ⟨mid', ⟨[], by simp [ht], hmid'⟩, hrest⟩
        | cons c back => exact Or.inl (Or.inr (Or.inl ⟨c, back, ht⟩))
      · rcases ih h with h | ⟨mid', hmid', hrest⟩
        · exact Or.inl (Or.inr (Or.inr ⟨front, hcs, h⟩))
        · exact Or.inr ⟨mid', ⟨front, hcs, hmid'⟩, hrest⟩

/-- What is left behind a value that is cut off ends a number. -/
theorem delimits_of_cut {m : Char} (hm : m ∈ [',', ':', ']', '}', ' ', '\n', '\t', '\r', '"']) {ts : List (List Char)} {cs : Rest}
    (h : Cut ([m] :: ts) cs) : Delimits cs := by
  refine delimits_of_skipBlanks ?_
  rcases h.mark with h | ⟨mid, hmid, -⟩
  · rw [h]
    exact delimits_nil
  · rw [hmid]
    exact delimits_of_mark hm mid

theorem itemTokens_delimits_of_cut {vs : List Node} {cs : Rest} (h : Cut (itemTokens false vs) cs) : Delimits cs := by
  cases vs <;> exact delimits_of_cut (by decide) h

theorem memberTokens_delimits_of_cut {ms : List (Glyphs × Node)} {cs : Rest} (h : Cut (memberTokens false ms) cs) :
    Delimits cs := by
  cases ms <;> exact delimits_of_cut (by decide) h

/-- What is there of a value that is cut off, or cut behind it, starts as the value does. -/
theorem cut_value {v : Node} {ts : List (List Char)} {cs : Rest} (h : Cut (v.tokens ++ ts) cs) :
    skipBlanks cs = [] ∨ ∃ c t, skipBlanks cs = c :: t ∧ c ∉ [',', ']', '}'] := by
  obtain ⟨c, t, us, hus, hc⟩ := v.exists_token
  rw [hus] at h
  rcases h with h | ⟨x, more, h⟩ | ⟨mid, hmid, -⟩
  · exact Or.inl h
  · cases hcs : skipBlanks cs with
    | nil => exact Or.inl rfl
    | cons y ys =>
      rw [hcs] at h
      exact Or.inr ⟨y, ys, rfl, (List.cons.inj h).1 ▸ hc⟩
  · exact Or.inr ⟨c, t ++ mid, hmid, hc⟩

/-- Where a text with a string in front is cut: before its quote, inside the string, or behind it. -/
theorem cut_quoted {gs : Glyphs} {ts : List (List Char)} {cs : Rest} (h : Cut (gs.quoted :: ts) cs) :
    skipBlanks cs = [] ∨ ∃ body, skipBlanks cs = '"' :: body ∧
      ((∃ c more, gs.text ++ ['"'] = body ++ c :: more) ∨ ∃ mid, body = gs.text ++ '"' :: mid ∧ Cut ts mid) := by
  rcases h with h | ⟨x, more, h⟩ | ⟨mid, hmid, h⟩
  · exact Or.inl h
  · cases hcs : skipBlanks cs with
    | nil => exact Or.inl rfl
    | cons y ys =>
      rw [hcs, Glyphs.quoted] at h
      obtain ⟨rfl, hbody⟩ := List.cons.inj h
      exact Or.inr ⟨ys, rfl, Or.inl ⟨x, more, hbody⟩⟩
  · exact Or.inr ⟨gs.text ++ '"' :: mid, by simp [hmid, Glyphs.quoted], Or.inr ⟨mid, rfl, h⟩⟩

/-! ## Numbers -/

/-- The first digits of a number are a number. -/
theorem isWhole_cut {p more : List Char} {x : Char} (h : IsWhole (p ++ x :: more)) (hp : p ≠ []) : IsWhole p := by
  obtain ⟨y, p, rfl⟩ := List.exists_cons_of_ne_nil hp
  rcases h with h | ⟨h, hzero⟩
  · simp at h
  · exact Or.inr ⟨⟨List.cons_ne_nil y p, fun c hc => h.2 c (List.mem_append_left _ hc)⟩, hzero⟩

theorem digitsValue_le_append (p q : List Char) : digitsValue p ≤ digitsValue (p ++ q) := by
  have hgrows : ∀ (ds : List Char) (n : Nat), n ≤ ds.foldl (fun n c => 10 * n + (c.toNat - '0'.toNat)) n := by
    intro ds
    induction ds with
    | nil => exact fun n => Nat.le_refl n
    | cons c ds ih => exact fun n => (show n ≤ 10 * n + (c.toNat - '0'.toNat) by omega).trans (ih _)
  rw [digitsValue, digitsValue, List.foldl_append]
  exact hgrows q _

/-! ## Words -/

theorem expectWord_cut (p : List Char) (c : Char) (more : List Char) : expectWord (p ++ c :: more) p = .error .truncated := by
  induction p with
  | nil => rfl
  | cons x p ih => simp only [List.cons_append, expectWord, if_true, ih]

/-! ## Strings -/

theorem utf8Size_of_hex {c : Char} (h : (hexDigit? c).isSome = true) : c.utf8Size = 1 := by
  rw [Char.utf8Size_eq_one_iff]
  have hle : ∀ d : Char, c ≤ d → d.val ≤ 0x7f → c.val ≤ 0x7f := fun d hcd hd => UInt32.le_trans hcd hd
  unfold hexDigit? at h
  split at h
  · exact hle '9' (by tauto) (by decide)
  · split at h
    · exact hle 'f' (by tauto) (by decide)
    · split at h
      · exact hle 'F' (by tauto) (by decide)
      · cases h

/-- Digits of an escape that are due and not there are a text that ends too early. -/
theorem hexFault_short {ds : List Char} (h : ∀ c ∈ ds, (hexDigit? c).isSome = true) (hshort : ds.length < 4) :
    hexFault ds = .truncated := by
  have hbytes : ∀ n, ds.foldl (fun n c => n + c.utf8Size) n = n + ds.length := by
    clear hshort
    induction ds with
    | nil => exact fun n => rfl
    | cons c ds ih =>
      obtain ⟨hc, hds⟩ := List.forall_mem_cons.mp h
      intro n
      rw [List.foldl_cons, ih hds, utf8Size_of_hex hc, List.length_cons]
      omega
  rw [hexFault, List.take_of_length_le (by omega), hbytes, if_pos (by omega)]

theorem scanString_short {ds : List Char} (h : ∀ c ∈ ds, (hexDigit? c).isSome = true) (hshort : ds.length < 4) :
    scanString ('\\' :: 'u' :: ds) = .error .truncated := by
  rw [← hexFault_short h hshort, scanString.eq_def]
  rcases ds with _ | ⟨a, _ | ⟨b, _ | ⟨c, _ | ⟨d, ds⟩⟩⟩⟩
  · rfl
  · rfl
  · rfl
  · rfl
  · simp at hshort
    omega

/-- An escape by number that is cut behind its backslash, or among its digits. -/
theorem cut_unicode {a b c d : Char} {p more : List Char} {x : Char} (h : ['\\', 'u', a, b, c, d] = p ++ x :: more) :
    p = [] ∨ p = ['\\'] ∨ ∃ ds, p = '\\' :: 'u' :: ds ∧ ds.length < 4 ∧ ∀ y ∈ ds, y ∈ [a, b, c, d] := by
  rcases p with _ | ⟨y, _ | ⟨z, ds⟩⟩
  · exact Or.inl rfl
  · obtain ⟨rfl, -⟩ := List.cons.inj h
    exact Or.inr (Or.inl rfl)
  · simp only [List.cons_append, List.cons.injEq] at h
    obtain ⟨rfl, rfl, h⟩ := h
    have hlen := congrArg List.length h
    rw [List.length_append, List.length_cons, List.length_cons] at hlen
    refine Or.inr (Or.inr ⟨ds, rfl, by simp at hlen; omega, fun y hy => ?_⟩)
    rw [h]
    exact List.mem_append_left _ hy

/-- A string that ends inside a glyph. -/
theorem scanString_cut_glyph {g : Glyph} {p more : List Char} {x : Char} (h : g.text = p ++ x :: more) :
    scanString p = .error .truncated := by
  cases g with
  | plain c hc =>
    rcases p with _ | ⟨y, p⟩
    · rfl
    · simp [Glyph.text] at h
  | letter c hc =>
    rcases p with _ | ⟨y, _ | ⟨z, p⟩⟩
    · rfl
    · obtain ⟨rfl, -⟩ := List.cons.inj h
      rfl
    · simp [Glyph.text] at h
  | unicode a b c d hhex =>
    rcases cut_unicode h with rfl | rfl | ⟨ds, rfl, hshort, hds⟩
    · rfl
    · rfl
    · exact scanString_short (fun y hy => hhex y (hds y hy)) hshort

/-- A string that ends between the two of a pair of surrogates, or inside the second. -/
theorem scanString_cut_pair {a b c d : Char} {n : Nat} (hn : hex4? a b c d = some n) (htrail : ¬ isTrailSurrogate n = true)
    (hlead : isLeadSurrogate n = true) {a' b' c' d' : Char} (hhex : ∀ x ∈ [a', b', c', d'], (hexDigit? x).isSome)
    {p more : List Char} {x : Char} (h : ['\\', 'u', a', b', c', d'] = p ++ x :: more) :
    scanString ('\\' :: 'u' :: a :: b :: c :: d :: p) = .error .truncated := by
  rcases cut_unicode h with rfl | rfl | ⟨ds, rfl, hshort, hds⟩
  · simp [scanString, hn, htrail, hlead]
  · simp [scanString, hn, htrail, hlead]
  · have hfault := hexFault_short (fun y hy => hhex y (hds y hy)) hshort
    rcases ds with _ | ⟨a', _ | ⟨b', _ | ⟨c', _ | ⟨d', ds⟩⟩⟩⟩
    all_goals simp_all [scanString]

/-- A text that stops short of the end of two texts stops in the first, or in the second behind it. -/
theorem cut_two {t u p more : List Char} {x : Char} (h : t ++ u = p ++ x :: more) :
    (∃ y back, t = p ++ y :: back) ∨ ∃ q, p = t ++ q ∧ u = q ++ x :: more := by
  rcases List.append_eq_append_iff.mp h with ⟨q, hp, hu⟩ | ⟨back, ht, hback⟩
  · exact Or.inr ⟨q, hp, hu⟩
  · cases back with
    | nil => exact Or.inr ⟨[], by simpa using ht.symm, by simpa using hback.symm⟩
    | cons y back => exact Or.inl ⟨y, back, ht⟩

/-- A string that says something is truncated wherever its text ends before its quote. -/
theorem scanString_cut {gs : Glyphs} {s : List Char} (hs : gs.value = .ok s) {p more : List Char} {x : Char}
    (h : gs.text ++ ['"'] = p ++ x :: more) : scanString p = .error .truncated := by
  -- one case a way of reading a glyph; escapes that have no value (`case4`, `case6`, `case7`) do not occur
  fun_induction Glyphs.value gs generalizing s p with
  | case1 =>
    rcases p with _ | ⟨y, p⟩
    · rfl
    · simp at h
  | case2 c hc gs ih =>
    obtain ⟨s', hs', -⟩ := map_eq_ok_iff.mp hs
    rw [text_cons, List.append_assoc] at h
    rcases cut_two h with ⟨y, back, hg⟩ | ⟨q, rfl, hq⟩
    · exact scanString_cut_glyph hg
    · exact (scanString_plain hc q).trans (by rw [ih hs' hq]; rfl)
  | case3 c hc gs ih =>
    obtain ⟨s', hs', -⟩ := map_eq_ok_iff.mp hs
    rw [text_cons, List.append_assoc] at h
    rcases cut_two h with ⟨y, back, hg⟩ | ⟨q, rfl, hq⟩
    · exact scanString_cut_glyph hg
    · exact (scanString_letter hc q).trans (by rw [ih hs' hq]; rfl)
  | case4 => cases hs
  | case5 a b c d hhex n htrail hlead a' b' c' d' hhex' gs m hm =>
    rename_i ih
    obtain ⟨s', hs', -⟩ := map_eq_ok_iff.mp hs
    obtain ⟨k, hk⟩ := exists_hex4 hhex
    obtain ⟨l, hl⟩ := exists_hex4 hhex'
    simp only [n, m, hk, hl, Option.getD_some] at htrail hlead hm
    rw [text_cons, List.append_assoc] at h
    rcases cut_two h with ⟨y, back, hg⟩ | ⟨q, rfl, hq⟩
    · exact scanString_cut_glyph hg
    · rw [text_cons, List.append_assoc] at hq
      rcases cut_two hq with ⟨y, back, hg⟩ | ⟨q', rfl, hq'⟩
      · exact scanString_cut_pair hk htrail hlead hhex' hg
      · have := ih hs' hq'
        simp [Glyph.text, scanString, hk, hl, htrail, hlead, hm, this, push, Except.map]
  | case6 => cases hs
  | case7 => cases hs
  | case8 a b c d hhex gs n htrail hlead =>
    rename_i ih
    obtain ⟨s', hs', -⟩ := map_eq_ok_iff.mp hs
    obtain ⟨k, hk⟩ := exists_hex4 hhex
    simp only [n, hk, Option.getD_some] at htrail hlead
    rw [text_cons, List.append_assoc] at h
    rcases cut_two h with ⟨y, back, hg⟩ | ⟨q, rfl, hq⟩
    · exact scanString_cut_glyph hg
    · have := ih hs' hq
      simp [Glyph.text, scanString, hk, htrail, hlead, this, push, Except.map]

end StageRig.Json
