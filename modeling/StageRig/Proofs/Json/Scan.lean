/-
  StageRig.Proofs.Json.Scan — the scanners read what the grammar writes.

  Each scanner is given a piece as the grammar writes it and any text behind it, and reads
  that piece, no more and no less; what it makes of it depends on the piece alone
  (`scanString_text`, `scanNumber_text`). And whatever it reads is a piece of the grammar
  (`exists_glyphs`, `exists_figure`).

  The end of a number is not marked, so the text behind it has to be one that cannot
  belong to it (`Delimits`).
-/

import StageRig.Proofs.Json.Tree
import StageRig.Proofs.Outcome

namespace StageRig.Json

/-! ## Words and marks -/

theorem eq_append_of_expectWord {word cs rest : Rest} (h : expectWord word cs = .ok rest) : cs = word ++ rest := by
  induction word generalizing cs with
  | nil =>
    cases h
    rfl
  | cons w ws ih =>
    cases cs with
    | nil => cases h
    | cons c cs =>
      by_cases hc : c = w
      · simp only [expectWord, if_pos hc] at h
        rw [hc, ih h]
        rfl
      · simp [expectWord, hc] at h

theorem expectColon_ok_iff {cs rest : Rest} : expectColon cs = .ok rest ↔ skipBlanks cs = ':' :: rest := by
  rw [expectColon]
  split <;> simp_all

/-! ## Strings -/

theorem exists_hex4 {a b c d : Char} (h : ∀ x ∈ [a, b, c, d], (hexDigit? x).isSome) : ∃ n, hex4? a b c d = some n := by
  simp only [List.mem_cons, List.not_mem_nil, or_false, forall_eq_or_imp, forall_eq, Option.isSome_iff_exists] at h
  obtain ⟨⟨i, hi⟩, ⟨j, hj⟩, ⟨k, hk⟩, ⟨l, hl⟩⟩ := h
  exact ⟨((i * 16 + j) * 16 + k) * 16 + l, by simp [hex4?, hi, hj, hk, hl]⟩

theorem isSome_of_hex4 {a b c d : Char} {n : Nat} (h : hex4? a b c d = some n) :
    ∀ x ∈ [a, b, c, d], (hexDigit? x).isSome := by
  simp only [hex4?, Option.bind_eq_bind, Option.bind_eq_some_iff] at h
  obtain ⟨i, hi, j, hj, k, hk, l, hl, -⟩ := h
  simp [hi, hj, hk, hl]

theorem escaped?_isSome_iff {c : Char} : (escaped? c).isSome ↔ c ∈ ['"', '\\', '/', 'b', 'f', 'n', 'r', 't'] := by
  rw [escaped?.eq_def]
  split <;> simp_all

/-- What a string says. An escape by number may be one of a pair. -/
def Glyphs.value : Glyphs → Except LoadError (List Char)
  | [] => .ok []
  | .plain c _ :: gs => (value gs).map (c :: ·)
  | .letter c _ :: gs => (value gs).map ((escaped? c).getD c :: ·)
  | .unicode a b c d _ :: gs =>
    let n := (hex4? a b c d).getD 0
    if isTrailSurrogate n then .error .malformed
    else if isLeadSurrogate n then
      match gs with
      | .unicode a b c d _ :: gs =>
        let m := (hex4? a b c d).getD 0
        if isTrailSurrogate m then (value gs).map (ofSurrogates n m :: ·) else .error .malformed
      | _ => .error .malformed
    else (value gs).map (Char.ofNat n :: ·)

@[simp] theorem text_nil : Glyphs.text [] = [] := rfl

@[simp] theorem text_cons (g : Glyph) (gs : Glyphs) : Glyphs.text (g :: gs) = g.text ++ gs.text := rfl

theorem scanString_plain {c : Char} (h : c ≠ '"' ∧ c ≠ '\\' ∧ ¬ c < ' ') (cs : Rest) :
    scanString (c :: cs) = push c (scanString cs) := by
  obtain ⟨hquote, hslash, hcontrol⟩ := h
  rw [scanString.eq_def]
  split
  case h_6 h =>
    cases h
    exact if_neg hcontrol
  all_goals simp_all

theorem scanString_letter {c : Char} (h : c ∈ ['"', '\\', '/', 'b', 'f', 'n', 'r', 't']) (cs : Rest) :
    scanString ('\\' :: c :: cs) = push ((escaped? c).getD c) (scanString cs) := by
  simp only [List.mem_cons, List.not_mem_nil, or_false] at h
  rcases h with rfl | rfl | rfl | rfl | rfl | rfl | rfl | rfl <;> rfl

theorem push_map (c : Char) (x : Except LoadError (List Char)) (rest : Rest) :
    push c (x.map (·, rest)) = (x.map (c :: ·)).map (·, rest) := by
  cases x <;> rfl

/-- The scanner reads a string as far as its quote, and what it says is its value. -/
theorem scanString_text (gs : Glyphs) (rest : Rest) : scanString (gs.text ++ '"' :: rest) = gs.value.map (·, rest) := by
  fun_induction Glyphs.value gs with
  | case1 => rfl
  | case2 c h gs ih => rw [← push_map, ← ih]; exact scanString_plain h _
  | case3 c h gs ih => rw [← push_map, ← ih]; exact scanString_letter h _
  | case4 a b c d h gs n htrail =>
    obtain ⟨k, hk⟩ := exists_hex4 h
    simp only [n, hk, Option.getD_some] at htrail
    simp [Glyph.text, scanString, hk, htrail, Except.map]
  | case5 a b c d h n htrail hlead a' b' c' d' h' gs m hm ih =>
    obtain ⟨k, hk⟩ := exists_hex4 h
    obtain ⟨l, hl⟩ := exists_hex4 h'
    simp only [n, m, hk, hl, Option.getD_some] at htrail hlead hm ⊢
    rw [← push_map, ← ih]
    simp [Glyph.text, scanString, hk, hl, htrail, hlead, hm]
  | case6 a b c d h n htrail hlead a' b' c' d' h' gs m hm =>
    obtain ⟨k, hk⟩ := exists_hex4 h
    obtain ⟨l, hl⟩ := exists_hex4 h'
    simp only [n, m, hk, hl, Option.getD_some] at htrail hlead hm
    simp [Glyph.text, scanString, hk, hl, htrail, hlead, hm, Except.map]
  | case7 a b c d h gs n htrail hlead hnext =>
    obtain ⟨k, hk⟩ := exists_hex4 h
    simp only [n, hk, Option.getD_some] at htrail hlead
    cases gs with
    | nil => simp [Glyph.text, scanString, hk, htrail, hlead, Except.map]
    | cons g gs =>
      cases g with
      | plain c' h' => simp [Glyph.text, scanString, hk, htrail, hlead, h', Except.map]
      | letter c' h' =>
        have hu : c' ≠ 'u' := by
          rintro rfl
          exact absurd h' (by decide)
        simp [Glyph.text, scanString, hk, htrail, hlead, hu, Except.map]
      | unicode a' b' c' d' h' => exact absurd rfl (hnext a' b' c' d' h' gs)
  | case8 a b c d h gs n htrail hlead ih =>
    obtain ⟨k, hk⟩ := exists_hex4 h
    simp only [n, hk, Option.getD_some] at htrail hlead ⊢
    rw [← push_map, ← ih]
    simp [Glyph.text, scanString, hk, htrail, hlead]

theorem skipString_plain {c : Char} (h : c ≠ '"' ∧ c ≠ '\\' ∧ ¬ c < ' ') (cs : Rest) : skipString (c :: cs) = skipString cs := by
  obtain ⟨hquote, hslash, hcontrol⟩ := h
  rw [skipString.eq_def]
  split
  case h_6 h =>
    cases h
    exact if_neg hcontrol
  all_goals simp_all

theorem skipString_letter {c : Char} (h : c ∈ ['"', '\\', '/', 'b', 'f', 'n', 'r', 't']) (cs : Rest) :
    skipString ('\\' :: c :: cs) = skipString cs := by
  simp only [List.mem_cons, List.not_mem_nil, or_false] at h
  rcases h with rfl | rfl | rfl | rfl | rfl | rfl | rfl | rfl <;> rfl

/-- A string that is passed over may say nothing at all. -/
theorem skipString_text (gs : Glyphs) (rest : Rest) : skipString (gs.text ++ '"' :: rest) = .ok rest := by
  induction gs with
  | nil => rfl
  | cons g gs ih =>
    rw [← ih]
    cases g with
    | plain c h => exact skipString_plain h _
    | letter c h => exact skipString_letter h _
    | unicode a b c d h =>
      obtain ⟨k, hk⟩ := exists_hex4 h
      simp [Glyph.text, skipString, hk]

theorem exists_glyphs_of_skipString {cs rest : Rest} (h : skipString cs = .ok rest) :
    ∃ gs : Glyphs, cs = gs.text ++ '"' :: rest := by
  fun_induction skipString cs with
  | case1 => cases h
  | case2 cs =>
    cases h
    exact ⟨[], rfl⟩
  | case3 => cases h
  | case4 a b c d cs hhex ih =>
    obtain ⟨gs, hgs⟩ := ih h
    obtain ⟨n, hn⟩ := Option.isSome_iff_exists.mp hhex
    exact ⟨.unicode a b c d (isSome_of_hex4 hn) :: gs, by simp [Glyph.text, hgs]⟩
  | case5 => cases h
  | case6 => cases h
  | case7 c cs hu hc ih =>
    obtain ⟨gs, hgs⟩ := ih h
    exact ⟨.letter c (escaped?_isSome_iff.mp hc) :: gs, by simp [Glyph.text, hgs]⟩
  | case8 => cases h
  | case9 => cases h
  | case10 c cs hquote hend hu hslash hcontrol ih =>
    obtain ⟨gs, hgs⟩ := ih h
    have hc : c ≠ '\\' := by
      intro hc
      cases cs with
      | nil => exact hend hc rfl
      | cons c' cs => exact hslash c' cs hc rfl
    exact ⟨.plain c ⟨hquote, hc, hcontrol⟩ :: gs, by simp [Glyph.text, hgs]⟩

theorem push_eq_ok_iff {c : Char} {r : Scan (List Char)} {s : List Char} {rest : Rest} :
    push c r = .ok (s, rest) ↔ ∃ s', r = .ok (s', rest) ∧ s = c :: s' := by
  rcases r with e | ⟨s', rest'⟩ <;> simp [push, Except.map, and_comm, eq_comm]

/-- What can be read as a string can be passed over as one. -/
theorem skipString_of_scanString {cs s rest : Rest} (h : scanString cs = .ok (s, rest)) : skipString cs = .ok rest := by
  fun_induction scanString cs generalizing s with
  | case2 cs =>
    cases h
    rfl
  | case9 a b c d n hn htrail hlead a' b' c' d' cs m hm htrail' ih =>
    obtain ⟨s', hs', -⟩ := push_eq_ok_iff.mp h
    simpa [skipString, hn, hm] using ih hs'
  | case13 a b c d cs n hn htrail hlead ih =>
    obtain ⟨s', hs', -⟩ := push_eq_ok_iff.mp h
    simpa [skipString, hn] using ih hs'
  | case15 c cs hu e he ih =>
    obtain ⟨s', hs', -⟩ := push_eq_ok_iff.mp h
    simpa [skipString, hu, he] using ih hs'
  | case18 c cs hquote hend hu hslash hcontrol ih =>
    obtain ⟨s', hs', -⟩ := push_eq_ok_iff.mp h
    rw [skipString.eq_def]
    split
    case h_6 h =>
      cases h
      rw [if_neg hcontrol, ih hs']
    all_goals simp_all
  | _ => cases h

theorem exists_glyphs {cs s rest : Rest} (h : scanString cs = .ok (s, rest)) : ∃ gs : Glyphs, cs = gs.text ++ '"' :: rest :=
  exists_glyphs_of_skipString (skipString_of_scanString h)

/-- A key in a text: its quotes, and the colon behind it. -/
theorem spaced_key_iff {key : Glyphs} {cs rest : Rest} :
    Spaced [key.quoted, [':']] cs rest ↔ ∃ mid, skipBlanks cs = '"' :: (key.text ++ '"' :: mid) ∧ expectColon mid = .ok rest := by
  simp only [spaced_cons, spaced_nil, Glyphs.quoted, expectColon_ok_iff, List.cons_append, List.append_assoc, List.nil_append,
    exists_eq_right]

/-! ## Numbers -/

/-- The text does not go on with a digit. -/
def EndsDigits (rest : Rest) : Prop := ∀ c, rest.head? = some c → c.isDigit = false

theorem scanDigits_append {ds rest : List Char} (h : ∀ c ∈ ds, c.isDigit = true) (hrest : EndsDigits rest) :
    scanDigits (ds ++ rest) = (ds, rest) := by
  have hnone : rest.takeWhile Char.isDigit = [] ∧ rest.dropWhile Char.isDigit = rest := by
    cases rest with
    | nil => exact ⟨rfl, rfl⟩
    | cons c rest =>
      have hc := hrest c rfl
      simp [hc]
  rw [scanDigits, List.takeWhile_append_of_pos h, List.dropWhile_append_of_pos h, hnone.1, hnone.2, List.append_nil]

theorem append_of_scanDigits {cs ds rest : List Char} (h : scanDigits cs = (ds, rest)) :
    cs = ds ++ rest ∧ ∀ c ∈ ds, c.isDigit = true := by
  cases h
  refine ⟨List.takeWhile_append_dropWhile.symm, ?_⟩
  exact List.all_eq_true.mp (List.all_takeWhile (l := cs) (p := Char.isDigit))

theorem scanDigits1_ok_iff {cs ds rest : List Char} :
    scanDigits1 cs = .ok (ds, rest) ↔ scanDigits cs = (ds, rest) ∧ ds ≠ [] := by
  rw [scanDigits1]
  rcases scanDigits cs with ⟨_ | ⟨d, ds'⟩, _ | ⟨c, cs'⟩⟩ <;> simp <;> rintro rfl <;> simp

theorem scanDigits1_append {ds rest : List Char} (h : IsDigits ds) (hrest : EndsDigits rest) :
    scanDigits1 (ds ++ rest) = .ok (ds, rest) :=
  scanDigits1_ok_iff.mpr ⟨scanDigits_append h.2 hrest, h.1⟩

theorem isDigits_of_scanDigits1 {cs ds rest : List Char} (h : scanDigits1 cs = .ok (ds, rest)) :
    cs = ds ++ rest ∧ IsDigits ds := by
  obtain ⟨h, hne⟩ := scanDigits1_ok_iff.mp h
  obtain ⟨happend, hdigits⟩ := append_of_scanDigits h
  exact ⟨happend, hne, hdigits⟩

theorem scanWhole_append {ds rest : List Char} (h : IsWhole ds) (hrest : EndsDigits rest) :
    scanWhole (ds ++ rest) = .ok (ds, rest) := by
  rcases h with rfl | ⟨h, hzero⟩
  · have hnone : scanDigits ([] ++ rest) = ([], rest) := scanDigits_append (by simp) hrest
    exact if_pos (congrArg Prod.fst hnone)
  · obtain ⟨c, ds, rfl, hc⟩ := h.exists_cons
    have hrun := scanDigits_append (fun x hx => h.2 x (List.mem_cons_of_mem c hx)) hrest
    have hne : c ≠ '0' := by simpa using hzero
    rw [List.cons_append, scanWhole.eq_3 _ _ hne, if_pos hc, hrun]

theorem isWhole_of_scanWhole {cs ds rest : List Char} (h : scanWhole cs = .ok (ds, rest)) : cs = ds ++ rest ∧ IsWhole ds := by
  rw [scanWhole.eq_def] at h
  split at h
  · cases h
  · split at h
    · cases h
      exact ⟨rfl, .inl rfl⟩
    · cases h
  · rename_i c cs hzero
    split at h
    · rename_i hc
      obtain ⟨happend, hdigits⟩ := append_of_scanDigits (Prod.eta (scanDigits cs)).symm
      cases h
      refine ⟨congrArg (c :: ·) happend, .inr ⟨⟨List.cons_ne_nil _ _, ?_⟩, by simpa using hzero⟩⟩
      exact List.forall_mem_cons.mpr ⟨hc, hdigits⟩
    · cases h

theorem endsDigits_of_mark {c : Char} (h : c.isDigit = false) (rest : Rest) : EndsDigits (c :: rest) := by
  intro c' hc'
  cases hc'
  exact h

theorem Delimits.endsDigits {rest : Rest} (h : Delimits rest) : EndsDigits rest := fun c hc => (h c hc).1

theorem endsDigits_exponent {es rest : List Char} (h : IsExponent es) (hrest : EndsDigits rest) : EndsDigits (es ++ rest) := by
  rcases h with rfl | ⟨e, sign, ds, rfl, rfl | rfl, -⟩
  · exact hrest
  · exact endsDigits_of_mark (by decide) _
  · exact endsDigits_of_mark (by decide) _

theorem endsDigits_fraction {fs rest : List Char} (h : IsFraction fs) (hrest : EndsDigits rest) : EndsDigits (fs ++ rest) := by
  rcases h with rfl | ⟨ds, rfl, -⟩
  · exact hrest
  · exact endsDigits_of_mark (by decide) _

/-- The digits behind the point, if there is one. -/
def fractionOf : List Char → Option (List Char)
  | [] => none
  | _ :: ds => some ds

/-- The sign and the digits of an exponent, if there is one. -/
def exponentOf : List Char → Option (Bool × List Char)
  | [] => none
  | _ :: cs => some (scanSign cs)

/-- A number with its sign, in parts. -/
def Figure.numeral (negative : Bool) (f : Figure) : Numeral := ⟨negative, f.whole, fractionOf f.fraction, exponentOf f.exponent⟩

theorem scanFraction_append {fs rest : List Char} (h : IsFraction fs) (hends : EndsDigits rest)
    (hpoint : rest.head? ≠ some '.') : scanFraction (fs ++ rest) = .ok (fractionOf fs, rest) := by
  rcases h with rfl | ⟨ds, rfl, hds⟩
  · cases rest with
    | nil => rfl
    | cons c rest =>
      have hc : c ≠ '.' := by simpa using hpoint
      exact scanFraction.eq_2 _ fun _ h => hc (List.cons.inj h).1
  · have hrun := scanDigits1_append hds hends
    simp [scanFraction, hrun, fractionOf, Except.map]

theorem isFraction_of_scanFraction {cs rest : List Char} {fraction? : Option (List Char)}
    (h : scanFraction cs = .ok (fraction?, rest)) : ∃ fs, cs = fs ++ rest ∧ IsFraction fs ∧ fractionOf fs = fraction? := by
  rw [scanFraction.eq_def] at h
  split at h
  · obtain ⟨⟨ds, rest'⟩, hrun, heq⟩ := map_eq_ok_iff.mp h
    cases heq
    obtain ⟨rfl, hds⟩ := isDigits_of_scanDigits1 hrun
    exact ⟨'.' :: ds, rfl, .inr ⟨ds, rfl, hds⟩, rfl⟩
  · cases h
    exact ⟨[], rfl, .inl rfl, rfl⟩

theorem scanSign_append {sign ds : List Char} (hsign : sign ∈ [[], ['+'], ['-']]) (hds : IsDigits ds) (rest : Rest) :
    ∃ down, scanSign (sign ++ ds) = (down, ds) ∧ scanSign (sign ++ ds ++ rest) = (down, ds ++ rest) := by
  obtain ⟨c, ds, rfl, hc⟩ := hds.exists_cons
  have hplus : c ≠ '+' := by
    rintro rfl
    exact absurd hc (by decide)
  have hminus : c ≠ '-' := by
    rintro rfl
    exact absurd hc (by decide)
  simp only [List.mem_cons, List.not_mem_nil, or_false] at hsign
  rcases hsign with rfl | rfl | rfl <;> simp [scanSign, hplus, hminus]

theorem append_of_scanSign (cs : Rest) : ∃ sign ∈ [[], ['+'], ['-']], cs = sign ++ (scanSign cs).2 := by
  rw [scanSign.eq_def]
  split
  · exact ⟨['+'], by simp, rfl⟩
  · exact ⟨['-'], by simp, rfl⟩
  · exact ⟨[], by simp, rfl⟩

theorem scanExponent_append {es rest : List Char} (h : IsExponent es) (hrest : Delimits rest) :
    scanExponent (es ++ rest) = .ok (exponentOf es, rest) := by
  rcases h with rfl | ⟨e, sign, ds, rfl, he, hsign, hds⟩
  · cases rest with
    | nil => rfl
    | cons c rest =>
      obtain ⟨-, -, hc⟩ := hrest c rfl
      simp [scanExponent, hc, exponentOf]
  · obtain ⟨down, hsplit, happend⟩ := scanSign_append hsign hds rest
    have hrun := scanDigits1_append hds hrest.endsDigits
    simp only [List.cons_append, scanExponent, if_pos he, happend, hrun, Except.map, exponentOf, hsplit]

theorem isExponent_of_scanExponent {cs rest : List Char} {exponent? : Option (Bool × List Char)}
    (h : scanExponent cs = .ok (exponent?, rest)) : ∃ es, cs = es ++ rest ∧ IsExponent es := by
  rw [scanExponent.eq_def] at h
  split at h
  · rename_i c cs
    split at h
    · rename_i hc
      obtain ⟨⟨ds, rest'⟩, hrun, heq⟩ := map_eq_ok_iff.mp h
      cases heq
      obtain ⟨happend, hds⟩ := isDigits_of_scanDigits1 hrun
      obtain ⟨sign, hsign, hcs⟩ := append_of_scanSign cs
      have hcs' : cs = sign ++ (ds ++ rest) := hcs.trans (congrArg (sign ++ ·) happend)
      exact ⟨c :: (sign ++ ds), by rw [hcs']; simp, .inr ⟨c, sign, ds, rfl, hc, hsign, hds⟩⟩
    · cases h
      exact ⟨[], rfl, .inl rfl⟩
  · cases h
    exact ⟨[], rfl, .inl rfl⟩

/-- The scanner reads a number as far as it goes, when what follows cannot belong to it. -/
theorem scanNumeral_text (negative : Bool) (f : Figure) {rest : Rest} (h : Delimits rest) :
    scanNumeral negative (f.text ++ rest) = .ok (f.numeral negative, rest) := by
  have hexponent := endsDigits_exponent f.isExponent h.endsDigits
  have hpoint : (f.exponent ++ rest).head? ≠ some '.' := by
    rcases f.isExponent with he | ⟨e, sign, ds, he, rfl | rfl, -⟩
    · rw [he]
      exact fun hc => (h _ hc).2.1 rfl
    · simp [he]
    · simp [he]
  rw [Figure.text, List.append_assoc, List.append_assoc, scanNumeral,
    scanWhole_append f.isWhole (endsDigits_fraction f.isFraction hexponent)]
  simp only [bind, Except.bind]
  rw [scanFraction_append f.isFraction hexponent hpoint]
  simp only
  rw [scanExponent_append f.isExponent h]
  rfl

/-- What is read as a number is one. -/
theorem exists_figure {negative : Bool} {cs rest : Rest} {m : Numeral} (h : scanNumeral negative cs = .ok (m, rest)) :
    ∃ f : Figure, cs = f.text ++ rest := by
  rw [scanNumeral] at h
  obtain ⟨⟨ws, cs₁⟩, hwhole, h⟩ := bind_eq_ok_iff.mp h
  obtain ⟨⟨fraction?, cs₂⟩, hfraction, h⟩ := bind_eq_ok_iff.mp h
  obtain ⟨⟨exponent?, cs₃⟩, hexponent, h⟩ := bind_eq_ok_iff.mp h
  cases h
  obtain ⟨rfl, hws⟩ := isWhole_of_scanWhole hwhole
  obtain ⟨fs, rfl, hfs, -⟩ := isFraction_of_scanFraction hfraction
  obtain ⟨es, rfl, hes⟩ := isExponent_of_scanExponent hexponent
  exact ⟨⟨ws, fs, es, hws, hfs, hes⟩, by simp [Figure.text]⟩

/-- What a number stands for; none past the largest one. -/
def Figure.found (negative : Bool) (f : Figure) : Except LoadError Found :=
  match (f.numeral negative).found? with
  | some found => .ok found
  | none => .error .malformed

theorem scanNumber_text (negative : Bool) (f : Figure) {rest : Rest} (h : Delimits rest) :
    scanNumber negative (f.text ++ rest) = (f.found negative).map (·, rest) := by
  rw [scanNumber, scanNumeral_text negative f h, Figure.found]
  simp only [bind, Except.bind]
  cases (f.numeral negative).found? <;> rfl

theorem exists_figure_of_scanNumber {negative : Bool} {cs rest : Rest} {found : Found}
    (h : scanNumber negative cs = .ok (found, rest)) : ∃ f : Figure, cs = f.text ++ rest := by
  rw [scanNumber] at h
  obtain ⟨⟨m, cs'⟩, hm, h⟩ := bind_eq_ok_iff.mp h
  dsimp only at h
  split at h
  · cases h
    exact exists_figure hm
  · cases h

theorem skipNumber_text (f : Figure) {rest : Rest} (h : Delimits rest) : skipNumber (f.text ++ rest) = .ok rest := by
  rw [skipNumber, scanNumeral_text false f h]

theorem exists_figure_of_skipNumber {cs rest : Rest} (h : skipNumber cs = .ok rest) : ∃ f : Figure, cs = f.text ++ rest := by
  rw [skipNumber] at h
  split at h
  · rename_i m cs' hm
    cases h
    exact exists_figure hm
  · cases h

end StageRig.Json
