/-
  StageRig.Proofs.Schema.Truncated — a text that ends too early is found to do so.

  What is written down is spelled plainly (`Plain`): numbers by their digits, variants by
  their names, records by members for their own fields. Where such a text is cut, the reader
  runs out of it before it finds anything else wrong (`read_cut`). Only a number may pass for
  a shorter one, and then nothing is left behind it, so that the list or object around it
  runs out of text instead.
-/

import StageRig.Proofs.Json.Cut
import StageRig.Proofs.Schema.RoundTrip

namespace StageRig.Schema

open Json

variable {ρ : Type}

/-- A value that is spelled in the plainest way. -/
inductive Plain (env : ρ → RecordSpec ρ) : Schema ρ → Node → Prop
  | null {s : Schema ρ} : Plain env s .null
  | number {s : Schema ρ} (n : UInt32) : Plain env s (.number false (figureOf n.toNat))
  | string {s : Schema ρ} (gs : Glyphs) : Plain env s (.string gs)
  | list {s s' : Schema ρ} {vs : List Node} (hs : s.core = .list s') (h : ∀ v ∈ vs, Plain env s' v) : Plain env s (.list vs)
  | object {s : Schema ρ} {r : ρ} {ms : List (Glyphs × Node)} (hs : s.core = .record r)
      (hown : ∀ m ∈ ms, fieldOf? (env r).fields m.1 ≠ none)
      (h : ∀ m ∈ ms, ∀ f, fieldOf? (env r).fields m.1 = some f → Plain env f.schema m.2) : Plain env s (.map ms)

/-- The reader came to the end of the text: it ran out of it, or it took a number that might have gone on. -/
def RunsOut (s : Schema ρ) (x : Except LoadError (Datum × Rest)) : Prop :=
  x = .error .truncated ∨ s.core = .number ∧ ∃ d, x = .ok (d, [])

variable {env : ρ → RecordSpec ρ} {steps n : Nat} {cs : Rest}

/-! ## Values without parts -/

/-- Where nothing is left, nothing is read. -/
theorem readWith_ended {inner? : Option (Reader ρ)} {s : Schema ρ} (h : skipBlanks cs = []) :
    readWith env steps inner? s cs = .error .truncated := by
  induction s generalizing cs with
  | number => simp [readWith, readNumber, h]
  | text => simp [readWith, readText, h]
  | variant names => simp [readWith, readVariant, h]
  | optional s ih =>
    rw [readWith, h]
    exact ih rfl
  | list s => simp [readWith, h]
  | record r => simp [readWith, h]

theorem read_ended {s : Schema ρ} (h : skipBlanks cs = []) : read env steps n s cs = .error .truncated := by
  obtain ⟨inner?, hread⟩ : ∃ inner?, read env steps n = readWith env steps inner? := exists_readWith n
  rw [hread, readWith_ended h]

variable (env steps n) in
theorem read_core_of_head (s : Schema ρ) (h : ∀ t, skipBlanks cs ≠ 'n' :: t) :
    ∃ cs', skipBlanks cs' = skipBlanks cs ∧ cs'.length ≤ cs.length ∧ read env steps n s cs = read env steps n s.core cs' := by
  obtain ⟨inner?, hread⟩ : ∃ inner?, read env steps n = readWith env steps inner? := exists_readWith n
  rw [hread]
  exact readWith_core_of_head h

theorem read_cut_null {s : Schema ρ} (hs : s.isOptional = true) (h : Cut Node.null.tokens cs) :
    read env steps n s cs = .error .truncated := by
  rcases h with h | ⟨c, more, h⟩ | ⟨mid, -, h⟩
  · exact read_ended h
  · obtain ⟨inner?, hread⟩ : ∃ inner?, read env steps n = readWith env steps inner? := exists_readWith n
    cases hcs : skipBlanks cs with
    | nil => exact read_ended hcs
    | cons x word =>
      rw [hcs, List.cons_append] at h
      obtain ⟨rfl, hword⟩ := List.cons.inj h
      cases s with
      | optional s =>
        rw [hread, readWith, hcs]
        simp only
        rw [hword, expectWord_cut]
        rfl
      | _ => cases hs
  · exact absurd h cut_nil

/-- A number that is cut is shorter, and still one. -/
theorem read_cut_number {s : Schema ρ} (hs : s.core = .number) {k : UInt32}
    (h : Cut (Node.number false (figureOf k.toNat)).tokens cs) (hsteps : cs.length ≤ steps) :
    RunsOut s (read env steps n s cs) := by
  rcases h with h | ⟨c, more, h⟩ | ⟨mid, -, h⟩
  · exact Or.inl (read_ended h)
  · by_cases hnil : skipBlanks cs = []
    · exact Or.inl (read_ended hnil)
    · have htext : k.toNat.repr.toList = skipBlanks cs ++ c :: more := by simpa [figureOf, Figure.text] using h
      have hwhole : IsWhole (skipBlanks cs) := isWhole_cut (htext ▸ isWhole_repr k.toNat) hnil
      have hle : digitsValue (skipBlanks cs) ≤ k.toNat := by
        have := digitsValue_le_append (skipBlanks cs) (c :: more)
        rwa [← htext, digitsValue_repr] at this
      have hsize : digitsValue (skipBlanks cs) < UInt32.size := hle.trans_lt k.toNat_lt_size
      have hspells : (Node.number false (wholeFigure hwhole)).Spells cs [] :=
        ⟨[], by simp [wholeFigure, Figure.text], rfl⟩
      refine Or.inr ⟨hs, .number (digitsValue (skipBlanks cs)).toUInt32, ?_⟩
      rw [read_spelled _ n s hspells delimits_nil hsteps, decode.eq_def]
      simp only [hs, found_wholeFigure hwhole (hsize.trans (by decide)), bind, Except.bind, decodeNumber, Int.toNat_natCast]
      simp [hsize, Except.map]
  · exact absurd h cut_nil

theorem read_cut_string {s : Schema ρ} {gs : Glyphs} {d : Datum} (hd : decode env n s (.string gs) = .ok d)
    (h : Cut (Node.string gs).tokens cs) : read env steps n s cs = .error .truncated := by
  rcases cut_quoted h with hnil | ⟨body, hcs, ⟨c, more, hbody⟩ | ⟨mid, -, h⟩⟩
  · exact read_ended hnil
  · have hhead : ∀ t, skipBlanks cs ≠ 'n' :: t := by simp [hcs]
    obtain ⟨cs', hskip, -, hread⟩ := read_core_of_head env steps n s hhead
    obtain ⟨inner?, hinner⟩ : ∃ inner?, read env steps n = readWith env steps inner? := exists_readWith n
    rw [hread, hinner]
    rw [decode] at hd
    split at hd
    · rename_i hs
      obtain ⟨name, hname, -⟩ := map_eq_ok_iff.mp hd
      simp [hs, readWith, readText, hskip, hcs, scanString_cut hname hbody, Except.map]
    · rename_i names hs
      obtain ⟨i, hi, -⟩ := map_eq_ok_iff.mp hd
      obtain ⟨name, hname, -⟩ := bind_eq_ok_iff.mp hi
      simp [hs, readWith, readVariant, readName, hskip, hcs, scanString_cut hname hbody, Except.map, bind, Except.bind]
    · cases hd
  · exact absurd h cut_nil

/-! ## Values with parts -/

/-- The reader runs out of the text of a value that is cut off. -/
def RunsOutOn (env : ρ → RecordSpec ρ) (steps n : Nat) (s : Schema ρ) (v : Node) : Prop :=
  ∀ d cs, decode env n s v = .ok d → Cut v.tokens cs → cs.length ≤ steps → RunsOut s (read env steps n s cs)

theorem readItems_ended {item : Rest → Scan Datum} {k : Nat} {first : Bool} (h : skipBlanks cs = []) :
    readItems item k first cs = .error .truncated := by
  cases k with
  | zero => rfl
  | succ k => simp [readItems, h]

/-- A value that is cut off is read up to the end of the text, and nothing is read behind it. -/
theorem RunsOut.bind {α : Type} {s : Schema ρ} {x : Except LoadError (Datum × Rest)} (h : RunsOut s x)
    {f : Datum × Rest → Except LoadError α} (hf : ∀ d, f (d, []) = .error .truncated) : x >>= f = .error .truncated := by
  rcases h with rfl | ⟨-, d, rfl⟩
  · rfl
  · exact hf d

theorem readItems_cut_first {s : Schema ρ} {v : Node} {vs : List Node} (hv : RunsOutOn env steps n s v) {d : Datum}
    (hd : decode env n s v = .ok d) {k : Nat}
    (hvs : ∀ mid : Rest, Cut (itemTokens false vs) mid → mid.length ≤ steps →
      readItems (read env steps n s) k false mid = .error .truncated)
    (h : Cut (itemTokens true (v :: vs)) cs) (hsteps : cs.length ≤ steps) :
    readItems (read env steps n s) (k + 1) true cs = .error .truncated := by
  by_cases hnil : skipBlanks cs = []
  · exact readItems_ended hnil
  have h : Cut (v.tokens ++ itemTokens false vs) cs := h
  obtain ⟨c, t, hcs, hc⟩ := (cut_value h).resolve_left hnil
  have hclose : c ≠ ']' := fun h => hc (by simp [h])
  have hskipped : (skipBlanks cs).length ≤ steps := (length_skipBlanks_le cs).trans hsteps
  rw [readItems_first_of_head hcs hclose]
  rcases h.append with hcut | ⟨mid, hspells, hcut⟩
  · have hitem : RunsOut s (read env steps n s (skipBlanks cs)) :=
      hv d _ hd (hcut.of_skipBlanks (skipBlanks_skipBlanks cs)) hskipped
    exact hitem.bind fun d => by rw [readItems_ended rfl]; rfl
  · have hmid : mid.length ≤ steps := (Spaced.length_le hspells).trans hsteps
    rw [read_spelled v n s (Node.spells_skipBlanks.mpr hspells) (itemTokens_delimits_of_cut hcut) hskipped, hd]
    simp only [Except.map, bind, Except.bind, hvs mid hcut hmid]

/-- A list whose text is cut off is read up to the end of the text. -/
theorem readItems_cut {s : Schema ρ} {vs : List Node} (hread : ∀ v ∈ vs, RunsOutOn env steps n s v) {ds : List Datum}
    (hds : decodeItems env n s vs = .ok ds) {first : Bool} {k : Nat} (h : Cut (itemTokens first vs) cs)
    (hsteps : cs.length ≤ steps) : readItems (read env steps n s) k first cs = .error .truncated := by
  induction vs generalizing first k cs ds with
  | nil =>
    rcases h.mark with h | ⟨mid, -, h⟩
    · exact readItems_ended h
    · exact absurd h cut_nil
  | cons v vs ih =>
    obtain ⟨hv, hvs⟩ := List.forall_mem_cons.mp hread
    rw [decodeItems] at hds
    obtain ⟨d, hd, hds⟩ := bind_eq_ok_iff.mp hds
    obtain ⟨ds', hds', -⟩ := bind_eq_ok_iff.mp hds
    obtain _ | k := k
    · rfl
    have hrest : ∀ mid : Rest, Cut (itemTokens false vs) mid → mid.length ≤ steps →
        readItems (read env steps n s) k false mid = .error .truncated := fun mid hcut hlen => ih hvs hds' hcut hlen
    cases first with
    | true => exact readItems_cut_first hv hd hrest h hsteps
    | false =>
      rcases h.mark with h | ⟨mid, hcs, h⟩
      · exact readItems_ended h
      · have hlen := length_of_token (t := [',']) hcs
        have hmid := readItems_cut_first hv hd hrest h (by omega)
        by_cases hnil : skipBlanks mid = []
        · simp [readItems, hcs, hnil]
        · have h : Cut (v.tokens ++ itemTokens false vs) mid := h
          obtain ⟨c, t, hhead, hc⟩ := (cut_value h).resolve_left hnil
          have hclose : c ≠ ']' := fun h => hc (by simp [h])
          rw [readItems_next_of_head hcs hhead hclose, hmid]

/-! ## Members -/

theorem readMembers_ended {reader : Reader ρ} {fields : List (FieldSpec ρ)} {k : Nat} {first : Bool}
    {values : List (Option Datum)} (h : skipBlanks cs = []) : readMembers reader fields k first values cs = .error .truncated := by
  cases k with
  | zero => rfl
  | succ k => simp [readMembers, h]

theorem readMembers_cut_first {fields : List (FieldSpec ρ)} {values : List (Option Datum)} {key : Glyphs} {v : Node}
    {ms : List (Glyphs × Node)} {f : FieldSpec ρ} (hf : fieldOf? fields key = some f) (hv : RunsOutOn env steps n f.schema v)
    {ds : List Datum} (hds : decodeMembers env n fields values ((key, v) :: ms) = .ok ds) {k : Nat}
    (hms : ∀ (values : List (Option Datum)) (ds : List Datum) (mid : Rest), decodeMembers env n fields values ms = .ok ds →
      Cut (memberTokens false ms) mid → mid.length ≤ steps →
      readMembers (read env steps n) fields k false values mid = .error .truncated)
    (h : Cut (memberTokens true ((key, v) :: ms)) cs) (hsteps : cs.length ≤ steps) :
    readMembers (read env steps n) fields (k + 1) true values cs = .error .truncated := by
  rw [decodeMembers] at hds
  obtain ⟨name, hname, hds⟩ := bind_eq_ok_iff.mp hds
  obtain ⟨i, hi, hown⟩ := exists_onMember_own ((find?_of_fieldOf? hname).symm.trans hf)
  rw [hown] at hds
  split at hds
  · cases hds
  rename_i hfree
  obtain ⟨d, hd, hds⟩ := bind_eq_ok_iff.mp hds
  have h : Cut (key.quoted :: [':'] :: (v.tokens ++ memberTokens false ms)) cs := h
  rcases cut_quoted h with hnil | ⟨body, hcs, ⟨c, more, hbody⟩ | ⟨mid, rfl, h⟩⟩
  · exact readMembers_ended hnil
  · rw [readMembers_key hcs, scanString_cut hname hbody]
    rfl
  · have hquoted : skipBlanks cs = key.quoted ++ mid := by simp [hcs, Glyphs.quoted]
    have hlen := length_of_token hquoted
    rw [readMembers_key hcs, scanString_text, hname]
    simp only [Except.map, Except.bind]
    rw [hown, if_neg hfree]
    rcases h.mark with hnil | ⟨mid', hcolon, h⟩
    · simp [expectColon, hnil, bind, Except.bind]
    · have hlen' := length_of_token (t := [':']) hcolon
      have hmid' : mid'.length ≤ steps := by omega
      simp only [expectColon_ok_iff.mpr hcolon, bind, Except.bind]
      rcases h.append with hcut | ⟨mid'', hspells, hcut⟩
      · have hvalue : RunsOut f.schema (read env steps n f.schema mid') := hv d _ hd hcut hmid'
        exact hvalue.bind fun d => readMembers_ended rfl
      · have hmid'' : mid''.length ≤ steps := (Spaced.length_le hspells).trans hmid'
        rw [read_spelled v n f.schema hspells (memberTokens_delimits_of_cut hcut) hmid', hd]
        exact hms _ ds mid'' hds hcut hmid''

/-- An object whose text is cut off is read up to the end of the text. -/
theorem readMembers_cut {fields : List (FieldSpec ρ)} {ms : List (Glyphs × Node)} (hown : ∀ m ∈ ms, fieldOf? fields m.1 ≠ none)
    (hread : ∀ m ∈ ms, ∀ f, fieldOf? fields m.1 = some f → RunsOutOn env steps n f.schema m.2)
    {values : List (Option Datum)} {ds : List Datum} (hds : decodeMembers env n fields values ms = .ok ds) {first : Bool}
    {k : Nat} (h : Cut (memberTokens first ms) cs) (hsteps : cs.length ≤ steps) :
    readMembers (read env steps n) fields k first values cs = .error .truncated := by
  induction ms generalizing first k cs values ds with
  | nil =>
    rcases h.mark with h | ⟨mid, -, h⟩
    · exact readMembers_ended h
    · exact absurd h cut_nil
  | cons m ms ih =>
    obtain ⟨hm, hown⟩ := List.forall_mem_cons.mp hown
    obtain ⟨hv, hread⟩ := List.forall_mem_cons.mp hread
    obtain ⟨f, hf⟩ := Option.ne_none_iff_exists'.mp hm
    obtain _ | k := k
    · rfl
    have hrest : ∀ (values : List (Option Datum)) (ds : List Datum) (mid : Rest), decodeMembers env n fields values ms = .ok ds →
        Cut (memberTokens false ms) mid → mid.length ≤ steps →
        readMembers (read env steps n) fields k false values mid = .error .truncated :=
      fun values ds mid hds hcut hlen => ih hown hread hds hcut hlen
    cases first with
    | true => exact readMembers_cut_first hf (hv f hf) hds hrest h hsteps
    | false =>
      rcases h.mark with h | ⟨mid, hcs, h⟩
      · exact readMembers_ended h
      · have hlen := length_of_token (t := [',']) hcs
        have hmid := readMembers_cut_first hf (hv f hf) hds hrest h (by omega)
        rcases cut_quoted h with hnil | ⟨body, hquote, -⟩
        · simp [readMembers, hcs, hnil]
        · rw [readMembers_next_of_head hcs hquote, hmid]

/-- Where the text of a value that means something is cut, the reader runs out of it. -/
theorem read_cut {s : Schema ρ} {v : Node} (h : Plain env s v) (n : Nat) : RunsOutOn env steps n s v := by
  induction h generalizing n with
  | @null s =>
    intro d cs hd hcut hsteps
    rw [decode] at hd
    split at hd
    · rename_i hs
      exact Or.inl (read_cut_null hs hcut)
    · cases hd
  | @number s k =>
    intro d cs hd hcut hsteps
    rw [decode] at hd
    split at hd
    · rename_i hs
      exact read_cut_number hs hcut hsteps
    · cases hd
  | @string s gs =>
    intro d cs hd hcut hsteps
    exact Or.inl (read_cut_string hd hcut)
  | @list s s' vs hs _ ih =>
    intro d cs hd hcut hsteps
    obtain _ | n := n
    · rw [decode_zero_list (by simp [takes, hs])] at hd
      cases hd
    rw [decode_list hs] at hd
    obtain ⟨ds, hds, -⟩ := map_eq_ok_iff.mp hd
    rcases hcut.mark with hnil | ⟨mid, hcs, hcut⟩
    · exact Or.inl (read_ended hnil)
    · have hlen := length_of_token (t := ['[']) hcs
      have hhead : ∀ t, skipBlanks cs ≠ 'n' :: t := by simp [hcs]
      obtain ⟨cs', hskip, -, hread⟩ := read_core_of_head env steps (n + 1) s hhead
      rw [hread, hs, read_list (hskip.trans hcs), readItems_cut (fun v hv => ih v hv n) hds hcut (by omega)]
      exact Or.inl rfl
  | @object s r ms hs hown _ ih =>
    intro d cs hd hcut hsteps
    obtain _ | n := n
    · rw [decode_zero_map (by simp [takes, hs])] at hd
      cases hd
    rw [decode_members hs] at hd
    obtain ⟨ds, hds, -⟩ := map_eq_ok_iff.mp hd
    rcases hcut.mark with hnil | ⟨mid, hcs, hcut⟩
    · exact Or.inl (read_ended hnil)
    · have hlen := length_of_token (t := ['{']) hcs
      have hhead : ∀ t, skipBlanks cs ≠ 'n' :: t := by simp [hcs]
      obtain ⟨cs', hskip, -, hread⟩ := read_core_of_head env steps (n + 1) s hhead
      rw [hread, hs, read_members (hskip.trans hcs),
        readMembers_cut hown (fun m hm f hf => ih m hm f hf n) hds hcut (by omega)]
      exact Or.inl rfl

/-! ## What is written -/

mutual

/-- Data are written plainly. -/
theorem plain_toNode (henv : Sound env) : ∀ (d : Datum) (s : Schema ρ), Fits env s d → Plain env s (toNode env d s)
  | .absent, _, _ => .null
  | .number n, _, _ => .number n
  | .text _, _, _ => .string _
  | .variant _, _, _ => .string _
  | .list ds, s, h => by
    obtain ⟨s', hs, h⟩ := h
    rw [toNode, item_of_core hs]
    exact .list hs (plain_toNodes henv ds s' h)
  | .record ds, s, h => by
    obtain ⟨r, hs, h⟩ := h
    rw [toNode, fields_of_core hs]
    have hmembers := plain_toMembers henv r ds (env r).fields h fun f hf => hf
    refine .object hs (fun m hm hnone => ?_) fun m hm f hf => ?_
    · obtain ⟨f, hf, -⟩ := hmembers m hm
      cases hf.symm.trans hnone
    · obtain ⟨f', hf', hplain⟩ := hmembers m hm
      cases hf'.symm.trans hf
      exact hplain

theorem plain_toNodes (henv : Sound env) : ∀ (ds : List Datum) (s : Schema ρ), AllFit env s ds →
    ∀ v ∈ toNodes env ds s, Plain env s v
  | [], _, _ => nofun
  | d :: ds, s, h => List.forall_mem_cons.mpr ⟨plain_toNode henv d s h.1, plain_toNodes henv ds s h.2⟩

theorem plain_toMembers (henv : Sound env) (r : ρ) : ∀ (ds : List Datum) (fs : List (FieldSpec ρ)), FieldsFit env fs ds →
    (∀ f ∈ fs, f ∈ (env r).fields) →
    ∀ m ∈ toMembers env ds fs, ∃ f, fieldOf? (env r).fields m.1 = some f ∧ Plain env f.schema m.2
  | [], _, _, _ => nofun
  | d :: ds, fs, h, hfs => by
    obtain ⟨f, fs, rfl, hd, hds⟩ := h
    obtain ⟨hf, hfs⟩ := List.forall_mem_cons.mp hfs
    have hlater := plain_toMembers henv r ds fs hds hfs
    obtain ⟨i, hi⟩ := List.getElem?_of_mem hf
    rw [toMembers]
    split
    · exact hlater
    · exact List.forall_mem_cons.mpr
        ⟨⟨f, fieldOf?_own (henv.keys r) hi (string?_glyphsOf f.key), plain_toNode henv d f.schema hd⟩, hlater⟩

end

/-- Every text that stops short of the end of a written document is found to end too early, whatever was written, but for a
number on its own. -/
theorem load_cut (henv : Sound env) {s : Schema ρ} (hs : s.core ≠ .number) {d : Datum} (h : Fits env s d)
    (hdepth : nesting (render env s d) ≤ depthLimit) {p more : List Char} {c : Char}
    (hp : (render env s d).toList = p ++ c :: more) : load env s (String.ofList p) = .error .truncated := by
  have hspelled : (toNode env d s).SpelledBy (render env s d) := render_spelledBy d s
  have hdecode : decode env depthLimit s (toNode env d s) = .ok d := by
    rw [decode_of_means (means_toNode henv d s h), typedNesting_toNode henv d s h, ← nesting_of_spelledBy hspelled,
      if_pos hdepth]
  have hspaced : Spaced (toNode env d s).tokens (p ++ c :: more) [] := by
    have hwrites : Writes (toNode env d s).tokens (print env 0 d s) := writes_print d s 0
    rw [render, String.toList_ofList] at hp
    rw [← hp, ← List.append_nil (print env 0 d s)]
    exact hwrites.2 []
  -- the tokens are not all there, since the text ends with the last of them
  rcases cut_or_spaced hspaced with hcut | ⟨mid, -, hmid⟩
  · have hread : RunsOut s (read env p.length depthLimit s p) :=
      read_cut (plain_toNode henv d s h) depthLimit d p hdecode hcut (Nat.le_refl _)
    rcases hread with hread | ⟨hnumber, -⟩
    · rw [load, String.toList_ofList, String.length_ofList, hread]
    · exact absurd hnumber hs
  · simp at hmid

end StageRig.Schema
