/-
  StageRig.Proofs.Json.Skip — what is passed over is a value, and any value is passed over.

  Values that nobody asked for are skipped at any depth, with the open brackets on a stack
  instead of one call inside another. Skipping a spelled value leaves exactly the text
  behind it (`skipValue_spelled`), and where skipping succeeds there was a value to skip
  (`exists_spelled_of_skipValue`): a stack then stands for the items and members that close
  its brackets (`Closes`).
-/

import StageRig.Proofs.Json.Scan

namespace StageRig.Json

/-! ## One step -/

variable {fuel : Nat} {stack : List Bracket} {cs rest mid : Rest}

theorem skipFrom_of_digit {c : Char} (hmid : skipBlanks cs = c :: mid) (hc : c.isDigit = true) :
    skipFrom (fuel + 1) stack cs = (skipNumber (c :: mid)).bind (skipAfter fuel stack) := by
  have hne : ∀ m : Char, m.isDigit = false → c ≠ m := fun m hm h => by simp [h, hm] at hc
  rw [skipFrom, hmid]
  split
  case h_9 h =>
    cases h
    exact if_pos hc
  all_goals simp_all

/-- The first token of a text, and one step of the fuel that it is worth. -/
theorem Spaced.step {c : Char} {t : List Char} {ts : List (List Char)} (h : Spaced ((c :: t) :: ts) cs rest)
    (hfuel : cs.length ≤ fuel) :
    ∃ k mid, fuel = k + 1 ∧ skipBlanks cs = c :: (t ++ mid) ∧ Spaced ts mid rest ∧ mid.length ≤ k := by
  obtain ⟨mid, hmid, h⟩ := h
  have hlen := length_of_token hmid
  rw [List.length_cons] at hlen
  exact ⟨fuel - 1, mid, by omega, hmid, h, by omega⟩

theorem skipKey_eq_ok_iff : skipKey cs = .ok rest ↔ ∃ key : Glyphs, Spaced [key.quoted, [':']] cs rest := by
  simp only [spaced_key_iff]
  rw [skipKey]
  constructor
  · intro h
    split at h
    · cases h
    · rename_i cs' hcs
      obtain ⟨mid, hkey, hcolon⟩ := bind_eq_ok_iff.mp h
      obtain ⟨key, rfl⟩ := exists_glyphs_of_skipString hkey
      exact ⟨key, mid, hcs, hcolon⟩
    · cases h
  · intro h
    obtain ⟨key, mid, hcs, hcolon⟩ := h
    simpa only [hcs, skipString_text, bind, Except.bind] using hcolon

/-- Behind an opening bracket, the first item is read like any value. -/
theorem skipFrom_opening {v : Node} (hcs : skipBlanks cs = '[' :: mid) (h : v.Spells mid rest) :
    skipFrom (fuel + 1) stack cs = skipFrom fuel (.list :: stack) (skipBlanks mid) := by
  obtain ⟨c, mid', hmid', -, hc, -⟩ := h.exists_ne_mark
  simp only [skipFrom, hcs]
  rw [hmid']
  simp [hc]

/-- Behind an opening brace, the key of the first member is passed over. -/
theorem skipFrom_opening_map {mid' : Rest} {key : Glyphs}
    (hcs : skipBlanks cs = '{' :: mid) (h : Spaced [key.quoted, [':']] mid mid') :
    skipFrom (fuel + 1) stack cs = skipFrom fuel (.map :: stack) mid' := by
  have hskip : skipKey (skipBlanks mid) = .ok mid' := by
    rw [skipKey_eq_ok_iff]
    refine ⟨key, ?_⟩
    rwa [spaced_cons, skipBlanks_skipBlanks, ← spaced_cons]
  obtain ⟨mid₁, hquote, -⟩ := spaced_key_iff.mp h
  simp only [skipFrom, hcs]
  rw [hquote] at hskip ⊢
  simp [hskip, bind, Except.bind]

/-! ## Every value is passed over -/

mutual

/-- A value is passed over up to the text behind it, whatever is open around it. -/
theorem skipFrom_spelled : ∀ (v : Node) (stack : List Bracket) {fuel : Nat} {cs rest : Rest}, v.Spells cs rest → Delimits rest →
    cs.length ≤ fuel → ∃ fuel', rest.length ≤ fuel' ∧ skipFrom fuel stack cs = skipAfter fuel' stack rest
  | .null, stack, fuel, cs, rest, h, _, hfuel => by
    obtain ⟨k, mid, rfl, hcs, rfl, hk⟩ := Spaced.step h hfuel
    refine ⟨k, hk, ?_⟩
    simp [skipFrom, hcs, expectWord, bind, Except.bind]
  | .bool true, stack, fuel, cs, rest, h, _, hfuel => by
    obtain ⟨k, mid, rfl, hcs, rfl, hk⟩ := Spaced.step h hfuel
    refine ⟨k, hk, ?_⟩
    simp [skipFrom, hcs, expectWord, bind, Except.bind]
  | .bool false, stack, fuel, cs, rest, h, _, hfuel => by
    obtain ⟨k, mid, rfl, hcs, rfl, hk⟩ := Spaced.step h hfuel
    refine ⟨k, hk, ?_⟩
    simp [skipFrom, hcs, expectWord, bind, Except.bind]
  | .number true f, stack, fuel, cs, rest, h, hrest, hfuel => by
    obtain ⟨k, mid, rfl, hcs, rfl, hk⟩ := Spaced.step h hfuel
    refine ⟨k, hk, ?_⟩
    simp [skipFrom, hcs, skipNumber_text f hrest, bind, Except.bind]
  | .number false f, stack, fuel, cs, rest, h, hrest, hfuel => by
    obtain ⟨c, ds, hc, hdigit⟩ := f.exists_digit
    rw [Node.Spells, Node.tokens, hc] at h
    obtain ⟨k, mid, rfl, hcs, rfl, hk⟩ := Spaced.step h hfuel
    refine ⟨k, hk, ?_⟩
    rw [skipFrom_of_digit hcs hdigit, ← List.cons_append, ← hc, skipNumber_text f hrest]
    rfl
  | .string gs, stack, fuel, cs, rest, h, _, hfuel => by
    obtain ⟨k, mid, rfl, hcs, rfl, hk⟩ := Spaced.step h hfuel
    refine ⟨k, hk, ?_⟩
    simp [skipFrom, hcs, skipString_text, bind, Except.bind]
  | .list [], stack, fuel, cs, rest, h, _, hfuel => by
    obtain ⟨k, mid, rfl, hcs, h, hk⟩ := Spaced.step h hfuel
    obtain ⟨mid', hmid', rfl⟩ := h
    have := length_of_token hmid'
    refine ⟨k, by omega, ?_⟩
    simp [skipFrom, hcs, hmid']
  | .list (v :: vs), stack, fuel, cs, rest, h, hrest, hfuel => by
    obtain ⟨k, mid, rfl, hcs, h, hk⟩ := Spaced.step h hfuel
    rw [List.nil_append] at hcs
    -- the steps that are left behind the first item still cover the text behind it
    obtain ⟨mid', hv, hvs⟩ := spaced_items.mp h
    have hmid := length_skipBlanks_le mid
    obtain ⟨k₁, hk₁, hv'⟩ := skipFrom_spelled v (.list :: stack) (Node.spells_skipBlanks.mpr hv) (itemTokens_delimits hvs)
      (hmid.trans hk)
    obtain ⟨k₂, hk₂, hvs'⟩ := skipAfter_items vs stack hvs hk₁
    exact ⟨k₂, hk₂, by rw [skipFrom_opening hcs hv, hv', hvs']⟩
  | .map [], stack, fuel, cs, rest, h, _, hfuel => by
    obtain ⟨k, mid, rfl, hcs, h, hk⟩ := Spaced.step h hfuel
    obtain ⟨mid', hmid', rfl⟩ := h
    have := length_of_token hmid'
    refine ⟨k, by omega, ?_⟩
    simp [skipFrom, hcs, hmid']
  | .map ((key, v) :: ms), stack, fuel, cs, rest, h, hrest, hfuel => by
    obtain ⟨k, mid, rfl, hcs, h, hk⟩ := Spaced.step h hfuel
    rw [List.nil_append] at hcs
    obtain ⟨mid₁, hkey, mid₂, hv, hms⟩ := spaced_members.mp h
    obtain ⟨k₁, hk₁, hv'⟩ := skipFrom_spelled v (.map :: stack) hv (memberTokens_delimits hms) (hkey.length_le.trans hk)
    obtain ⟨k₂, hk₂, hms'⟩ := skipAfter_members ms stack hms hk₁
    exact ⟨k₂, hk₂, by rw [skipFrom_opening_map hcs hkey, hv', hms']⟩

theorem skipAfter_items : ∀ (vs : List Node) (stack : List Bracket) {fuel : Nat} {cs rest : Rest},
    Spaced (itemTokens false vs) cs rest → cs.length ≤ fuel →
      ∃ fuel', rest.length ≤ fuel' ∧ skipAfter fuel (.list :: stack) cs = skipAfter fuel' stack rest
  | [], stack, fuel, cs, rest, h, hfuel => by
    obtain ⟨k, mid, rfl, hcs, rfl, hk⟩ := Spaced.step h hfuel
    exact ⟨k, hk, by simp [skipAfter, hcs]⟩
  | v :: vs, stack, fuel, cs, rest, h, hfuel => by
    obtain ⟨k, mid, rfl, hcs, h, hk⟩ := Spaced.step h hfuel
    obtain ⟨mid', hv, hvs⟩ := spaced_items.mp h
    obtain ⟨k₁, hk₁, hv'⟩ := skipFrom_spelled v (.list :: stack) hv (itemTokens_delimits hvs) hk
    obtain ⟨k₂, hk₂, hvs'⟩ := skipAfter_items vs stack hvs hk₁
    refine ⟨k₂, hk₂, ?_⟩
    rw [← hvs', ← hv']
    simp [skipAfter, hcs]

theorem skipAfter_members : ∀ (ms : List (Glyphs × Node)) (stack : List Bracket) {fuel : Nat} {cs rest : Rest},
    Spaced (memberTokens false ms) cs rest → cs.length ≤ fuel →
      ∃ fuel', rest.length ≤ fuel' ∧ skipAfter fuel (.map :: stack) cs = skipAfter fuel' stack rest
  | [], stack, fuel, cs, rest, h, hfuel => by
    obtain ⟨k, mid, rfl, hcs, rfl, hk⟩ := Spaced.step h hfuel
    exact ⟨k, hk, by simp [skipAfter, hcs]⟩
  | (key, v) :: ms, stack, fuel, cs, rest, h, hfuel => by
    obtain ⟨k, mid, rfl, hcs, h, hk⟩ := Spaced.step h hfuel
    obtain ⟨mid₁, hkey, mid₂, hv, hms⟩ := spaced_members.mp h
    obtain ⟨k₁, hk₁, hv'⟩ := skipFrom_spelled v (.map :: stack) hv (memberTokens_delimits hms) (hkey.length_le.trans hk)
    obtain ⟨k₂, hk₂, hms'⟩ := skipAfter_members ms stack hms hk₁
    refine ⟨k₂, hk₂, ?_⟩
    have hskip := skipKey_eq_ok_iff.mpr ⟨key, hkey⟩
    rw [← hms', ← hv']
    simp [skipAfter, hcs, hskip, bind, Except.bind]

end

/-- A value is skipped exactly. -/
theorem skipValue_spelled {v : Node} {steps : Nat} (h : v.Spells cs rest) (hrest : Delimits rest) (hsteps : cs.length ≤ steps) :
    skipValue steps cs = .ok rest := by
  obtain ⟨k, -, hk⟩ := skipFrom_spelled v [] h hrest hsteps
  rw [skipValue, hk, skipAfter]

/-! ## What is passed over is a value -/

/-- Behind a value, the text closes the brackets that are open, innermost first. -/
def Closes : List Bracket → Rest → Rest → Prop
  | [], cs, rest => cs = rest
  | .list :: stack, cs, rest => ∃ vs mid, Spaced (itemTokens false vs) cs mid ∧ Closes stack mid rest
  | .map :: stack, cs, rest => ∃ ms mid, Spaced (memberTokens false ms) cs mid ∧ Closes stack mid rest

mutual

theorem exists_spelled_of_skipFrom : ∀ (fuel : Nat) {stack : List Bracket} {cs rest : Rest}, skipFrom fuel stack cs = .ok rest →
    ∃ v mid, Node.Spells v cs mid ∧ Closes stack mid rest
  | 0, stack, cs, rest, h => by cases h
  | fuel + 1, stack, cs, rest, h => by
    rw [skipFrom] at h
    split at h
    case h_1 => cases h
    case h_2 cs₁ hcs =>
      split at h
      · cases h
      · rename_i cs₂ hcs₁
        exact ⟨.list [], cs₂, ⟨cs₁, hcs, cs₂, hcs₁, rfl⟩, closes_of_skipAfter fuel h⟩
      · obtain ⟨v, mid, hv, vs, mid', hvs, h⟩ := exists_spelled_of_skipFrom fuel h
        exact ⟨.list (v :: vs), mid', ⟨cs₁, hcs, spaced_items.mpr ⟨mid, Node.spells_skipBlanks.mp hv, hvs⟩⟩, h⟩
    case h_3 cs₁ hcs =>
      split at h
      · cases h
      · rename_i cs₂ hcs₁
        exact ⟨.map [], cs₂, ⟨cs₁, hcs, cs₂, hcs₁, rfl⟩, closes_of_skipAfter fuel h⟩
      · obtain ⟨cs₂, hkey, h⟩ := bind_eq_ok_iff.mp h
        obtain ⟨key, hkey⟩ := skipKey_eq_ok_iff.mp hkey
        rw [spaced_cons, skipBlanks_skipBlanks, ← spaced_cons] at hkey
        obtain ⟨v, mid, hv, ms, mid', hms, h⟩ := exists_spelled_of_skipFrom fuel h
        exact ⟨.map ((key, v) :: ms), mid', ⟨cs₁, hcs, spaced_members.mpr ⟨cs₂, hkey, mid, hv, hms⟩⟩, h⟩
    case h_4 cs₁ hcs =>
      obtain ⟨cs₂, hword, h⟩ := bind_eq_ok_iff.mp h
      exact ⟨.null, cs₂, ⟨cs₂, by rw [hcs, eq_append_of_expectWord hword]; rfl, rfl⟩, closes_of_skipAfter fuel h⟩
    case h_5 cs₁ hcs =>
      obtain ⟨cs₂, hword, h⟩ := bind_eq_ok_iff.mp h
      exact ⟨.bool true, cs₂, ⟨cs₂, by rw [hcs, eq_append_of_expectWord hword]; rfl, rfl⟩, closes_of_skipAfter fuel h⟩
    case h_6 cs₁ hcs =>
      obtain ⟨cs₂, hword, h⟩ := bind_eq_ok_iff.mp h
      exact ⟨.bool false, cs₂, ⟨cs₂, by rw [hcs, eq_append_of_expectWord hword]; rfl, rfl⟩, closes_of_skipAfter fuel h⟩
    case h_7 cs₁ hcs =>
      obtain ⟨cs₂, hstring, h⟩ := bind_eq_ok_iff.mp h
      obtain ⟨gs, hgs⟩ := exists_glyphs_of_skipString hstring
      exact ⟨.string gs, cs₂, ⟨cs₂, by rw [hcs, hgs, Glyphs.quoted]; simp, rfl⟩, closes_of_skipAfter fuel h⟩
    case h_8 cs₁ hcs =>
      obtain ⟨cs₂, hnumber, h⟩ := bind_eq_ok_iff.mp h
      obtain ⟨f, hf⟩ := exists_figure_of_skipNumber hnumber
      exact ⟨.number true f, cs₂, ⟨cs₂, by rw [hcs, hf]; rfl, rfl⟩, closes_of_skipAfter fuel h⟩
    case h_9 c cs₁ _ _ _ _ _ _ _ hcs =>
      split at h
      · obtain ⟨cs₂, hnumber, h⟩ := bind_eq_ok_iff.mp h
        obtain ⟨f, hf⟩ := exists_figure_of_skipNumber hnumber
        exact ⟨.number false f, cs₂, ⟨cs₂, by rw [hcs, hf], rfl⟩, closes_of_skipAfter fuel h⟩
      · cases h

theorem closes_of_skipAfter : ∀ (fuel : Nat) {stack : List Bracket} {cs rest : Rest}, skipAfter fuel stack cs = .ok rest →
    Closes stack cs rest
  | fuel, [], cs, rest, h => by
    rw [skipAfter] at h
    cases h
    rfl
  | 0, _ :: _, cs, rest, h => by cases h
  | fuel + 1, bracket :: stack, cs, rest, h => by
    rw [skipAfter.eq_def] at h
    dsimp only at h
    split at h
    case h_1 => cases h
    case h_2 cs₁ hcs =>
      obtain ⟨v, mid, hv, vs, mid', hvs, h⟩ := exists_spelled_of_skipFrom fuel h
      exact ⟨v :: vs, mid', spaced_items_next.mpr ⟨cs₁, hcs, spaced_items.mpr ⟨mid, hv, hvs⟩⟩, h⟩
    case h_3 cs₁ hcs =>
      obtain ⟨cs₂, hkey, h⟩ := bind_eq_ok_iff.mp h
      obtain ⟨key, hkey⟩ := skipKey_eq_ok_iff.mp hkey
      obtain ⟨v, mid, hv, ms, mid', hms, h⟩ := exists_spelled_of_skipFrom fuel h
      exact ⟨(key, v) :: ms, mid', spaced_members_next.mpr ⟨cs₁, hcs, spaced_members.mpr ⟨cs₂, hkey, mid, hv, hms⟩⟩, h⟩
    case h_4 cs₁ hcs => exact ⟨[], cs₁, ⟨cs₁, hcs, rfl⟩, closes_of_skipAfter fuel h⟩
    case h_5 cs₁ hcs => exact ⟨[], cs₁, ⟨cs₁, hcs, rfl⟩, closes_of_skipAfter fuel h⟩
    case h_6 => cases h

end

theorem exists_spelled_of_skipValue {steps : Nat} (h : skipValue steps cs = .ok rest) : ∃ v : Node, v.Spells cs rest := by
  obtain ⟨v, mid, hv, rfl⟩ := exists_spelled_of_skipFrom steps h
  exact ⟨v, hv⟩

end StageRig.Json
