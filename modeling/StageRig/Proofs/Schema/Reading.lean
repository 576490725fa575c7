/-
  StageRig.Proofs.Schema.Reading — the reader reads what the text spells.

  On every text that spells a tree, the reader is the function `decode` of that tree, faults
  included (`read_spelled`, `load_spelled`). The induction is on the tree, with one theorem
  for each of its parts: items, fields by position, members. A list or object is left
  through its own bracket, so the theorems for the parts speak of the text up to and past
  that bracket; the bound on the steps is the length of the text that is left.
-/

import StageRig.Proofs.Json.Skip
import StageRig.Proofs.Schema.Decode

namespace StageRig.Schema

open Json

variable {ρ : Type} {env : ρ → RecordSpec ρ} {steps n : Nat} {cs rest : Rest}

/-! ## Values of another kind -/

theorem scanFound_of_digit {c : Char} (hc : c.isDigit = true) : scanFound (c :: cs) = scanNumber false (c :: cs) := by
  have hne : ∀ m : Char, m.isDigit = false → c ≠ m := fun m hm h => by simp [h, hm] at hc
  rw [scanFound.eq_def]
  split
  case h_9 h =>
    cases h
    exact if_pos hc
  all_goals simp_all

/-- What is expected is decided at the first character of a value, and the fault is that of the value. -/
theorem unexpected_spelled {v : Node} (expected : String) (h : v.Spells cs rest) (hrest : Delimits rest) :
    unexpected expected (skipBlanks cs) = v.mismatch expected := by
  cases v with
  | null =>
    obtain ⟨mid, hmid, rfl⟩ := h
    rw [hmid]
    rfl
  | bool b =>
    cases b <;>
      (obtain ⟨mid, hmid, rfl⟩ := h
       rw [hmid]
       rfl)
  | number negative f =>
    have hvalue : scanFound (skipBlanks cs) = (f.found negative).map (·, rest) := by
      cases negative with
      | true =>
        obtain ⟨mid, hmid, rfl⟩ := h
        rw [hmid, ← scanNumber_text true f hrest]
        rfl
      | false =>
        obtain ⟨c, ds, hc, hdigit⟩ := f.exists_digit
        obtain ⟨mid, hmid, rfl⟩ := h
        rw [hmid, ← scanNumber_text false f hrest, hc]
        exact scanFound_of_digit hdigit
    rw [unexpected, hvalue, Node.mismatch, Node.found]
    cases f.found negative <;> rfl
  | string gs =>
    obtain ⟨mid, hmid, rfl⟩ := h
    rw [hmid, Glyphs.quoted]
    simp only [List.cons_append, List.append_assoc, List.nil_append, unexpected, scanFound, scanString_text, Node.mismatch,
      Node.found]
    cases gs.value <;> rfl
  | list vs =>
    obtain ⟨mid, hmid, -⟩ := h
    rw [hmid]
    rfl
  | map ms =>
    obtain ⟨mid, hmid, -⟩ := h
    rw [hmid]
    rfl

theorem readNumber_of_not_takes {v : Node} (h : (number : Schema ρ).takes v = false) (hv : v.Spells cs rest)
    (hrest : Delimits rest) :
    readNumber cs = .error (v.mismatch "u32") := by
  obtain ⟨c, mid, hmid, -, -, -, -, hnumber⟩ := hv.exists_head
  have hc : ¬ (c = '-' ∨ c.isDigit = true) := by
    rw [hnumber]
    rintro ⟨negative, f, rfl⟩
    cases h
  rw [not_or] at hc
  rw [← unexpected_spelled "u32" hv hrest, readNumber]
  simp [hmid, hc]

theorem readText_of_not_takes {v : Node} (h : (text : Schema ρ).takes v = false) (hv : v.Spells cs rest) (hrest : Delimits rest) :
    readText cs = .error (v.mismatch "a string") := by
  obtain ⟨c, mid, hmid, -, hstring, -⟩ := hv.exists_head
  have hc : c ≠ '"' := by
    rw [Ne, hstring]
    rintro ⟨gs, rfl⟩
    cases h
  rw [← unexpected_spelled "a string" hv hrest, readText]
  simp [hmid, hc]

theorem readVariant_of_not_takes {names : List String} {v : Node} (h : (variant names : Schema ρ).takes v = false)
    (hv : v.Spells cs rest) (nested : Bool) : readVariant nested names cs = .error .malformed := by
  obtain ⟨c, mid, hmid, -, hstring, -, hmap, -⟩ := hv.exists_head
  have hc : c ≠ '"' := by
    rw [Ne, hstring]
    rintro ⟨gs, rfl⟩
    cases h
  have hc' : c ≠ '{' := by
    rw [Ne, hmap]
    rintro ⟨ms, rfl⟩
    cases h
  simp [readVariant, hmid, hc, hc']

/-- What does not start like a null is read as if there were none. -/
theorem readWith_core_of_head {inner? : Option (Reader ρ)} {s : Schema ρ} (h : ∀ t, skipBlanks cs ≠ 'n' :: t) :
    ∃ cs', skipBlanks cs' = skipBlanks cs ∧ cs'.length ≤ cs.length ∧
      readWith env steps inner? s cs = readWith env steps inner? s.core cs' := by
  induction s generalizing cs with
  | optional s ih =>
    rw [← skipBlanks_skipBlanks] at h
    obtain ⟨cs', hskip, hlen, hread⟩ := ih h
    refine ⟨cs', by rw [hskip, skipBlanks_skipBlanks], hlen.trans (length_skipBlanks_le cs), ?_⟩
    rw [core, ← hread, readWith]
    rw [skipBlanks_skipBlanks] at h
    split
    · rename_i t ht
      exact absurd ht (h t)
    · rfl
  | _ => exact ⟨cs, rfl, Nat.le_refl _, rfl⟩

/-- A null is read where it may be; any other value is read as if there were no null. -/
theorem readWith_core {inner? : Option (Reader ρ)} {s : Schema ρ} {v : Node} (hv : v.Spells cs rest)
    (h : v = .null → s.isOptional = false) :
    ∃ cs', v.Spells cs' rest ∧ cs'.length ≤ cs.length ∧
      readWith env steps inner? s cs = readWith env steps inner? s.core cs' := by
  by_cases hnull : v = .null
  · refine ⟨cs, hv, Nat.le_refl _, ?_⟩
    cases s with
    | optional s => cases h hnull
    | _ => rfl
  · obtain ⟨c, mid, hmid, hn, -⟩ := hv.exists_head
    have hhead : ∀ t, skipBlanks cs ≠ 'n' :: t := by
      intro t ht
      exact hnull (hn.mp (List.cons.inj (hmid.symm.trans ht)).1)
    obtain ⟨cs', hskip, hlen, hread⟩ := readWith_core_of_head hhead
    refine ⟨cs', ?_, hlen, hread⟩
    rw [← Node.spells_skipBlanks, hskip]
    exact Node.spells_skipBlanks.mpr hv

theorem readWith_null {inner? : Option (Reader ρ)} {s : Schema ρ} (hv : Node.null.Spells cs rest) (h : s.isOptional = true) :
    readWith env steps inner? s cs = .ok (.absent, rest) := by
  obtain ⟨mid, hmid, rfl⟩ := hv
  cases s with
  | optional s => simp [readWith, hmid, expectWord, Except.map]
  | _ => cases h

theorem readWith_list_of_not_takes {inner? : Option (Reader ρ)} {s : Schema ρ} {v : Node} (h : ∀ vs, v ≠ .list vs)
    (hv : v.Spells cs rest) (hrest : Delimits rest) :
    readWith env steps inner? (.list s) cs = .error (v.mismatch "a sequence") := by
  obtain ⟨c, mid, hmid, -, -, hlist, -⟩ := hv.exists_head
  have hc : c ≠ '[' := by
    rw [Ne, hlist]
    rintro ⟨vs, rfl⟩
    exact h vs rfl
  rw [← unexpected_spelled "a sequence" hv hrest, readWith.eq_def]
  simp [hmid, hc]

theorem readWith_record_of_not_takes {inner? : Option (Reader ρ)} {r : ρ} {v : Node} (h : ∀ vs, v ≠ .list vs)
    (h' : ∀ ms, v ≠ .map ms) (hv : v.Spells cs rest) (hrest : Delimits rest) :
    readWith env steps inner? (.record r) cs = .error (v.mismatch s!"struct {(env r).title}") := by
  obtain ⟨c, mid, hmid, -, -, hlist, hmap, -⟩ := hv.exists_head
  have hc : c ≠ '[' := by
    rw [Ne, hlist]
    rintro ⟨vs, rfl⟩
    exact h vs rfl
  have hc' : c ≠ '{' := by
    rw [Ne, hmap]
    rintro ⟨ms, rfl⟩
    exact h' ms rfl
  rw [← unexpected_spelled s!"struct {(env r).title}" hv hrest, readWith.eq_def]
  simp [hmid, hc, hc']

/-- A value of another kind is refused. -/
theorem readWith_of_not_takes {inner? : Option (Reader ρ)} {s : Schema ρ} {v : Node} (h : s.takes v = false)
    (hv : v.Spells cs rest) (hrest : Delimits rest) : readWith env steps inner? s cs = .error (refuse env s v) := by
  have hnull : v = .null → s.isOptional = false := by
    rintro rfl
    simpa [takes] using h
  obtain ⟨cs', hv', -, hread⟩ := readWith_core hv hnull
  rw [hread, refuse]
  rw [← takes_core hnull] at h
  split
  case h_1 hcore =>
    rw [hcore] at h ⊢
    exact readNumber_of_not_takes h hv' hrest
  case h_2 hcore =>
    rw [hcore] at h ⊢
    exact readText_of_not_takes h hv' hrest
  case h_3 s' hcore =>
    rw [hcore] at h ⊢
    refine readWith_list_of_not_takes ?_ hv' hrest
    rintro vs rfl
    cases h
  case h_4 r hcore =>
    rw [hcore] at h ⊢
    refine readWith_record_of_not_takes ?_ ?_ hv' hrest
    · rintro vs rfl
      cases h
    · rintro ms rfl
      cases h
  case h_5 names hcore =>
    rw [hcore] at h ⊢
    exact readVariant_of_not_takes h hv' _
  case h_6 s' hcore => exact absurd hcore (core_ne_optional s s')

/-! ## Values without parts -/

theorem readNumber_spelled {negative : Bool} {f : Figure} (h : (Node.number negative f).Spells cs rest) (hrest : Delimits rest) :
    readNumber cs = (f.found negative >>= decodeNumber).map (·, rest) := by
  have hscan : ∃ c mid, skipBlanks cs = c :: mid ∧
      (c = '-' ∧ scanNumber true mid = (f.found negative).map (·, rest) ∨
        (c ≠ '-' ∧ c.isDigit = true) ∧ scanNumber false (c :: mid) = (f.found negative).map (·, rest)) := by
    cases negative with
    | true =>
      obtain ⟨mid, hmid, rfl⟩ := h
      exact ⟨_, _, hmid, .inl ⟨rfl, scanNumber_text true f hrest⟩⟩
    | false =>
      obtain ⟨c, ds, hc, hdigit⟩ := f.exists_digit
      obtain ⟨mid, hmid, rfl⟩ := h
      have hne : c ≠ '-' := by
        rintro rfl
        exact absurd hdigit (by decide)
      have hvalue := scanNumber_text false f hrest
      rw [hc] at hmid hvalue
      exact ⟨_, _, hmid, .inr ⟨⟨hne, hdigit⟩, hvalue⟩⟩
  obtain ⟨c, mid, hmid, ⟨rfl, hvalue⟩ | ⟨⟨hne, hdigit⟩, hvalue⟩⟩ := hscan
  case' inl => simp only [readNumber, hmid, hvalue]
  case' inr => simp only [readNumber, hmid, hdigit, if_true, hvalue]
  all_goals
    rcases f.found negative with e | found
    · rfl
    cases found
    case integer n =>
      dsimp only [Except.map, Except.bind, bind, decodeNumber]
      split <;> rfl
    all_goals rfl

theorem readText_spelled {gs : Glyphs} (h : (Node.string gs).Spells cs rest) :
    readText cs = (gs.value.map fun s => Datum.text (String.ofList s)).map (·, rest) := by
  obtain ⟨mid, hmid, rfl⟩ := h
  simp only [readText, hmid, Glyphs.quoted, List.cons_append, List.append_assoc, List.nil_append, scanString_text]
  cases gs.value <;> rfl

theorem readName_text (names : List String) (gs : Glyphs) (rest : Rest) :
    readName names (gs.text ++ '"' :: rest) = (decodeName names gs).map (·, rest) := by
  rw [readName, scanString_text, decodeName]
  cases gs.value with
  | error e => rfl
  | ok name =>
    simp only [Except.map, bind, Except.bind]
    cases names.idxOf? (String.ofList name) <;> rfl

theorem readVariant_string {names : List String} {gs : Glyphs} (h : (Node.string gs).Spells cs rest) (nested : Bool) :
    readVariant nested names cs = ((decodeName names gs).map Datum.variant).map (·, rest) := by
  obtain ⟨mid, hmid, rfl⟩ := h
  simp only [readVariant, hmid, Glyphs.quoted, List.cons_append, List.append_assoc, List.nil_append, readName_text]
  cases decodeName names gs <;> rfl

theorem readNull_null (h : Node.null.Spells cs rest) : readNull cs = .ok rest := by
  obtain ⟨mid, hmid, rfl⟩ := h
  simp [readNull, hmid, expectWord]

theorem readNull_of_ne_null {v : Node} (h : v.Spells cs rest) (hrest : Delimits rest) (hv : v ≠ .null) :
    readNull cs = .error (v.mismatch "unit") := by
  obtain ⟨c, mid, hmid, hnull, -⟩ := h.exists_head
  have hc : c ≠ 'n' := fun hc => hv (hnull.mp hc)
  rw [← unexpected_spelled "unit" h hrest, readNull]
  simp [hmid, hc]

theorem skipBlanks_of_memberTokens_false {ms : List (Glyphs × Node)} (h : Spaced (memberTokens false ms) cs rest) :
    ∃ mid, skipBlanks cs = (if ms = [] then '}' else ',') :: mid ∧ (ms = [] → mid = rest) := by
  cases ms with
  | nil =>
    obtain ⟨mid, hmid, rfl⟩ := h
    exact ⟨mid, hmid, fun _ => rfl⟩
  | cons m ms =>
    obtain ⟨mid, hmid, -⟩ := spaced_members_next.mp h
    exact ⟨mid, by simp [hmid], nofun⟩

theorem readVariant_map {names : List String} {ms : List (Glyphs × Node)} (h : (Node.map ms).Spells cs rest) :
    readVariant true names cs = (decodeTagged names ms).map (·, rest) := by
  obtain ⟨mid, hmid, h⟩ := h
  cases ms with
  | nil =>
    obtain ⟨mid', hmid', rfl⟩ := h
    simp [readVariant, hmid, hmid', decodeTagged, Except.map]
  | cons m ms =>
    obtain ⟨key, v⟩ := m
    obtain ⟨mid₁, hkey, mid₂, hv, hms⟩ := spaced_members.mp h
    obtain ⟨mid₃, hquote, hcolon⟩ := spaced_key_iff.mp hkey
    simp only [readVariant, hmid, hquote, List.cons_append, List.nil_append, readName_text, decodeTagged]
    rcases decodeName names key with e | i
    · rfl
    · simp only [Except.map, bind, Except.bind, hcolon]
      by_cases hnull : v = .null
      · rw [hnull] at hv ⊢
        rw [readNull_null hv]
        obtain ⟨mid₅, hmid₅, hrest⟩ := skipBlanks_of_memberTokens_false hms
        cases ms with
        | nil =>
          simp [hmid₅, hrest]
        | cons m ms => simp [hmid₅]
      · rw [readNull_of_ne_null hv (memberTokens_delimits hms) hnull]
        cases v <;> first | rfl | exact absurd rfl hnull

/-! ## Values with parts -/

/-- One part of a value and then the others, each as its reader takes it. -/
theorem read_next {α β γ : Type} {x : Except LoadError α} {y : Except LoadError β} {f : α → β → γ}
    {readRest : Rest → Scan β} {rest rest' : Rest} (h : readRest rest = y.map (·, rest')) :
    (x.map (·, rest) >>= fun p => readRest p.2 >>= fun q => .ok (f p.1 q.1, q.2)) =
      (x >>= fun a => y >>= fun b => .ok (f a b)).map (·, rest') := by
  rcases x with e | a
  · rfl
  · simp only [Except.map, bind, Except.bind, h]
    cases y <;> rfl

/-- The first item of a list is read where it starts. -/
theorem readItems_first_of_head {c : Char} {t : Rest} {item : Rest → Except LoadError (Datum × Rest)} {k : Nat}
    (hcs : skipBlanks cs = c :: t) (hc : c ≠ ']') :
    readItems item (k + 1) true cs =
      item (skipBlanks cs) >>= fun p => readItems item k false p.2 >>= fun q => .ok (p.1 :: q.1, q.2) := by
  simp [readItems, hcs]

/-- A later item is read as a first one, behind its comma. -/
theorem readItems_next_of_head {c : Char} {mid t : Rest} {item : Rest → Except LoadError (Datum × Rest)} {k : Nat}
    (hcs : skipBlanks cs = ',' :: mid) (hmid : skipBlanks mid = c :: t) (hc : c ≠ ']') :
    readItems item (k + 1) false cs = readItems item (k + 1) true mid := by
  rw [readItems_first_of_head hmid hc]
  simp [readItems, hcs, hmid, hc]

theorem readItems_first {v : Node} {item : Rest → Except LoadError (Datum × Rest)} {k : Nat} (hv : v.Spells cs rest) :
    readItems item (k + 1) true cs =
      item (skipBlanks cs) >>= fun p => readItems item k false p.2 >>= fun q => .ok (p.1 :: q.1, q.2) := by
  obtain ⟨c, t, hcs, -, hc, -⟩ := hv.exists_ne_mark
  exact readItems_first_of_head hcs hc

theorem readItems_next {v : Node} {mid : Rest} {item : Rest → Except LoadError (Datum × Rest)} {k : Nat}
    (hcs : skipBlanks cs = ',' :: mid) (hv : v.Spells mid rest) :
    readItems item (k + 1) false cs = readItems item (k + 1) true mid := by
  obtain ⟨c, t, hmid, -, hc, -⟩ := hv.exists_ne_mark
  exact readItems_next_of_head hcs hmid hc

/-- A later member is read as a first one, behind its comma. -/
theorem readMembers_next_of_head {mid t : Rest} {reader : Reader ρ} {fields : List (FieldSpec ρ)} {k : Nat}
    {values : List (Option Datum)} (hcs : skipBlanks cs = ',' :: mid) (hmid : skipBlanks mid = '"' :: t) :
    readMembers reader fields (k + 1) false values cs = readMembers reader fields (k + 1) true values mid := by
  simp [readMembers, hcs, hmid]

theorem readMembers_next {key : Glyphs} {mid : Rest} {reader : Reader ρ} {fields : List (FieldSpec ρ)} {k : Nat}
    {values : List (Option Datum)} (hcs : skipBlanks cs = ',' :: mid) (hkey : Spaced [key.quoted, [':']] mid rest) :
    readMembers reader fields (k + 1) false values cs = readMembers reader fields (k + 1) true values mid := by
  obtain ⟨t, hmid, -⟩ := spaced_key_iff.mp hkey
  exact readMembers_next_of_head hcs hmid

/-- What is done with a member is decided behind the quote of its key. -/
theorem readMembers_key {body : Rest} {reader : Reader ρ} {fields : List (FieldSpec ρ)} {k : Nat} {values : List (Option Datum)}
    (hcs : skipBlanks cs = '"' :: body) :
    readMembers reader fields (k + 1) true values cs =
      (scanString body).bind fun q => onMember fields values q.1
        (fun i f => expectColon q.2 >>= fun cs => reader f.schema cs >>= fun p =>
          readMembers reader fields k false (values.set i (some p.1)) p.2)
        (expectColon q.2 >>= fun cs => skipValue k cs >>= readMembers reader fields k false values) := by
  rw [readMembers, hcs]
  rfl

theorem readMembers_first {key : Glyphs} {mid : Rest} {reader : Schema ρ → Rest → Except LoadError (Datum × Rest)}
    {fields : List (FieldSpec ρ)} {k : Nat} {values : List (Option Datum)} (hkey : Spaced [key.quoted, [':']] cs mid) :
    readMembers reader fields (k + 1) true values cs =
      key.value >>= fun name => onMember fields values name
        (fun i f => reader f.schema mid >>= fun p => readMembers reader fields k false (values.set i (some p.1)) p.2)
        (skipValue k mid >>= readMembers reader fields k false values) := by
  obtain ⟨t, hcs, hcolon⟩ := spaced_key_iff.mp hkey
  rw [readMembers_key hcs, scanString_text]
  cases key.value with
  | error e => rfl
  | ok name => simp only [Except.map, bind, Except.bind, hcolon]

/-- Behind the fields of a record in a list, the list has to end. -/
def closeList (cs : Rest) : Except LoadError Rest :=
  match skipBlanks cs with
  | [] => .error .truncated
  | ']' :: cs => .ok cs
  | _ => .error .malformed

/-- The fields of a record in a list, and the end of the list. -/
def readAllPositions (reader : Reader ρ) (spec : RecordSpec ρ) (i : Nat) (fields : List (FieldSpec ρ)) (cs : Rest) :
    Except LoadError (List Datum × Rest) := do
  let (ds, cs) ← readPositions reader spec i fields cs
  let cs ← closeList cs
  .ok (ds, cs)

variable {reader : Schema ρ → Rest → Except LoadError (Datum × Rest)} {spec : RecordSpec ρ} {f : FieldSpec ρ}
  {fs : List (FieldSpec ρ)}

theorem readList_eq (cs : Rest) :
    readList reader spec cs = (readAllPositions reader spec 0 spec.fields cs).map fun p => (.record p.1, p.2) := by
  rw [readList, readAllPositions]
  rcases readPositions reader spec 0 spec.fields cs with e | ⟨ds, cs'⟩
  · rfl
  · simp only [bind, Except.bind, closeList]
    split <;> simp_all [Except.map]

/-- One field of a record in a list and then the others. -/
theorem readPositions_field {x : Except LoadError (Datum × Rest)} {i : Nat}
    (h : readPositions reader spec i (f :: fs) cs =
      x >>= fun p => readPositions reader spec (i + 1) fs p.2 >>= fun q => .ok (p.1 :: q.1, q.2)) :
    readAllPositions reader spec i (f :: fs) cs =
      x >>= fun p => readAllPositions reader spec (i + 1) fs p.2 >>= fun q => .ok (p.1 :: q.1, q.2) := by
  rw [readAllPositions, h]
  rcases x with e | ⟨d, cs'⟩
  · rfl
  · simp only [bind, Except.bind, readAllPositions]
    rcases readPositions reader spec (i + 1) fs cs' with e | ⟨ds, cs''⟩
    · rfl
    · simp only
      cases closeList cs'' <;> rfl

theorem readPositions_first {v : Node} (hv : v.Spells cs rest) :
    readAllPositions reader spec 0 (f :: fs) cs =
      reader f.schema (skipBlanks cs) >>= fun p =>
        readAllPositions reader spec 1 fs p.2 >>= fun q => .ok (p.1 :: q.1, q.2) := by
  obtain ⟨c, t, hcs, -, hc, -⟩ := hv.exists_ne_mark
  refine readPositions_field ?_
  rw [readPositions, hcs]
  simp

theorem readPositions_next {v : Node} {mid : Rest} {i : Nat} (hcs : skipBlanks cs = ',' :: mid) (hv : v.Spells mid rest) :
    readAllPositions reader spec (i + 1) (f :: fs) cs =
      reader f.schema (skipBlanks mid) >>= fun p =>
        readAllPositions reader spec (i + 2) fs p.2 >>= fun q => .ok (p.1 :: q.1, q.2) := by
  obtain ⟨c, t, hmid, -, hc, -⟩ := hv.exists_ne_mark
  refine readPositions_field ?_
  simp [readPositions, hcs, hmid, hc]

theorem readPositions_end {mid : Rest} (hcs : skipBlanks cs = ']' :: mid) (i : Nat) (fields : List (FieldSpec ρ)) :
    readAllPositions reader spec i fields cs = (fallBack spec i fields).map (·, mid) := by
  induction fields generalizing i with
  | nil => simp [readAllPositions, readPositions, closeList, hcs, fallBack, Except.map, bind, Except.bind]
  | cons f fs ih =>
    rw [fallBack]
    cases hf : f.fallback? with
    | some d =>
      rw [readPositions_field (x := .ok (d, cs))]
      · simp only [bind, Except.bind, ih]
        cases fallBack spec (i + 1) fs <;> rfl
      · simp [readPositions, hcs, hf, bind, Except.bind]
    | none => simp [readAllPositions, readPositions, hcs, hf, bind, Except.bind, Except.map]

/-- One member of an object and then the others. -/
theorem read_member {n k : Nat} {key : Glyphs} {v : Node} {ms : List (Glyphs × Node)} {fields : List (FieldSpec ρ)}
    {values : List (Option Datum)}
    {mid mid' : Rest} (hkey : Spaced [key.quoted, [':']] cs mid)
    (hv : ∀ s, read env steps n s mid = (decode env n s v).map (·, mid')) (hskip : skipValue k mid = .ok mid')
    (hms : ∀ values, readMembers (read env steps n) fields k false values mid' =
      (decodeMembers env n fields values ms).map (·, rest)) :
    readMembers (read env steps n) fields (k + 1) true values cs =
      (decodeMembers env n fields values ((key, v) :: ms)).map (·, rest) := by
  rw [readMembers_first hkey, decodeMembers]
  cases key.value with
  | error e => rfl
  | ok name =>
    simp only [bind, Except.bind, onMember_map, hskip, hms, hv]
    congr 1
    funext i f
    cases decode env n f.schema v with
    | error e => rfl
    | ok d => exact hms _

theorem readPositions_excess {v : Node} {i : Nat} {vs : List Node} (h : Spaced (itemTokens (i = 0) (v :: vs)) cs rest) :
    readAllPositions reader spec i [] cs = .error .malformed := by
  have hcs : ∃ c t, skipBlanks cs = c :: t ∧ c ≠ ']' := by
    cases i with
    | zero =>
      obtain ⟨mid, hv, -⟩ := spaced_items.mp h
      obtain ⟨c, t, hcs, -, hc, -⟩ := hv.exists_ne_mark
      exact ⟨c, t, hcs, hc⟩
    | succ i =>
      obtain ⟨mid, hcs, -⟩ := spaced_items_next.mp h
      exact ⟨',', mid, hcs, by decide⟩
  obtain ⟨c, t, hcs, hc⟩ := hcs
  simp [readAllPositions, readPositions, closeList, hcs, hc, bind, Except.bind]

theorem exists_readWith (n : Nat) : ∃ inner?, read env steps n = readWith env steps inner? := by
  cases n <;> exact ⟨_, rfl⟩

theorem read_of_not_takes {s : Schema ρ} {v : Node} (h : s.takes v = false) (n : Nat) (hv : v.Spells cs rest)
    (hrest : Delimits rest) : read env steps n s cs = (decode env n s v).map (·, rest) := by
  obtain ⟨inner?, hread⟩ : ∃ inner?, read env steps n = readWith env steps inner? := exists_readWith n
  rw [hread, readWith_of_not_takes h hv hrest, decode_of_not_takes h]
  rfl

variable (steps) in
theorem read_core {s : Schema ρ} {v : Node} (n : Nat) (hv : v.Spells cs rest) (h : v = .null → s.isOptional = false) :
    ∃ cs', v.Spells cs' rest ∧ cs'.length ≤ cs.length ∧ read env steps n s cs = read env steps n s.core cs' := by
  obtain ⟨inner?, hread⟩ : ∃ inner?, read env steps n = readWith env steps inner? := exists_readWith n
  rw [hread]
  exact readWith_core hv h

theorem read_list {mid : Rest} {s : Schema ρ} (hcs : skipBlanks cs = '[' :: mid) :
    read env steps (n + 1) (.list s) cs =
      (readItems (read env steps n s) steps true mid).map fun p => (.list p.1, p.2) := by
  rw [read, readWith.eq_def]
  simp only [hcs]

theorem read_positions {mid : Rest} {r : ρ} (hcs : skipBlanks cs = '[' :: mid) :
    read env steps (n + 1) (.record r) cs =
      (readAllPositions (read env steps n) (env r) 0 (env r).fields mid).map fun p => (.record p.1, p.2) := by
  rw [read, readWith.eq_def]
  simp only [hcs, readList_eq]

theorem read_members {mid : Rest} {r : ρ} (hcs : skipBlanks cs = '{' :: mid) :
    read env steps (n + 1) (.record r) cs =
      (readMembers (read env steps n) (env r).fields steps true ((env r).fields.map fun _ => none) mid).map
        fun p => (.record p.1, p.2) := by
  rw [read, readWith.eq_def]
  simp only [hcs, readObject]

/-- What the reader makes of a value without parts. -/
theorem read_leaf {v : Node} (hlist : ∀ vs, v ≠ .list vs) (hmap : ∀ ms, v ≠ .map ms) (n : Nat) (s : Schema ρ)
    (h : v.Spells cs rest) (hrest : Delimits rest) : read env steps n s cs = (decode env n s v).map (·, rest) := by
  obtain ⟨inner?, hread⟩ : ∃ inner?, read env steps n = readWith env steps inner? := exists_readWith n
  rw [hread]
  cases htakes : s.takes v with
  | false => rw [readWith_of_not_takes htakes h hrest, decode_of_not_takes htakes]; rfl
  | true =>
    cases v with
    | null =>
      have hs : s.isOptional = true := by simpa [takes] using htakes
      rw [readWith_null h hs, decode, if_pos hs]
      rfl
    | bool b => simp [takes] at htakes
    | number negative f =>
      obtain ⟨cs', h', -, hcore⟩ := readWith_core h (by simp)
      rw [hcore, decode]
      cases hs : s.core <;> simp [takes, hs] at htakes
      exact readNumber_spelled h' hrest
    | string gs =>
      obtain ⟨cs', h', -, hcore⟩ := readWith_core h (by simp)
      rw [hcore, decode]
      cases hs : s.core <;> simp [takes, hs] at htakes
      · exact readText_spelled h'
      · exact readVariant_string h' _
    | list vs => exact absurd rfl (hlist vs)
    | map ms => exact absurd rfl (hmap ms)

mutual

/-- The reader reads the value that the text spells, no less and no more. -/
theorem read_spelled : ∀ (v : Node) (n : Nat) (s : Schema ρ) {cs rest : Rest},
    v.Spells cs rest → Delimits rest → cs.length ≤ steps →
    read env steps n s cs = (decode env n s v).map (·, rest)
  | .null, n, s, cs, rest, h, hrest, _ => read_leaf (by simp) (by simp) n s h hrest
  | .bool b, n, s, cs, rest, h, hrest, _ => read_leaf (by simp) (by simp) n s h hrest
  | .number negative f, n, s, cs, rest, h, hrest, _ => read_leaf (by simp) (by simp) n s h hrest
  | .string gs, n, s, cs, rest, h, hrest, _ => read_leaf (by simp) (by simp) n s h hrest
  | .list vs, n, s, cs, rest, h, hrest, hsteps => by
    cases htakes : s.takes (.list vs) with
    | false => exact read_of_not_takes htakes n h hrest
    | true =>
      -- a list is not null, so whether it may be null does not matter
      obtain ⟨cs', h', hlen, hcore⟩ := read_core steps n h nofun
      obtain ⟨mid, hcs, h'⟩ := Node.spells_list.mp h'
      have hbracket := length_of_token (t := ['[']) hcs
      have hmid : mid.length ≤ steps := by omega
      rw [hcore]
      cases n with
      | zero =>
        rw [decode_zero_list htakes]
        cases hs : s.core <;> simp_all [takes, read, readWith, Except.map]
      | succ n =>
        cases hs : s.core with
        | list s' =>
          rw [decode_list hs, read_list hcs, readItems_spelled vs n s' true h' hmid hmid]
          cases decodeItems env n s' vs <;> rfl
        | record r =>
          rw [decode_positions hs, read_positions hcs, readPositions_spelled vs n (env r) 0 (env r).fields h' hmid]
          cases decodePositions env n (env r) 0 (env r).fields vs <;> rfl
        | _ => simp [takes, hs] at htakes
  | .map ms, n, s, cs, rest, h, hrest, hsteps => by
    cases htakes : s.takes (.map ms) with
    | false => exact read_of_not_takes htakes n h hrest
    | true =>
      obtain ⟨cs', hspells, hlen, hcore⟩ := read_core steps n h nofun
      obtain ⟨mid, hcs, h'⟩ := Node.spells_map.mp hspells
      have hbracket := length_of_token (t := ['{']) hcs
      have hmid : mid.length ≤ steps := by omega
      rw [hcore]
      cases n with
      | zero =>
        rw [decode_zero_map htakes]
        cases hs : s.core <;> simp_all [takes, read, readWith, readVariant, Except.map]
      | succ n =>
        cases hs : s.core with
        | variant names =>
          rw [decode_tagged hs, read, readWith]
          exact readVariant_map hspells
        | record r =>
          rw [decode_members hs, read_members hcs, readMembers_spelled ms n (env r).fields true _ h' hmid hmid]
          cases decodeMembers env n (env r).fields ((env r).fields.map fun _ => none) ms <;> rfl
        | _ => simp [takes, hs] at htakes

theorem readItems_spelled : ∀ (vs : List Node) (n : Nat) (s : Schema ρ) (first : Bool) {k : Nat} {cs rest : Rest},
    Spaced (itemTokens first vs) cs rest → cs.length ≤ k → cs.length ≤ steps →
      readItems (read env steps n s) k first cs = (decodeItems env n s vs).map (·, rest)
  | [], n, s, first, k, cs, rest, h, hk, hsteps => by
    obtain ⟨k, mid, rfl, hcs, rfl, -⟩ := Spaced.step h hk
    simp [readItems, hcs, decodeItems, Except.map]
  | v :: vs, n, s, true, k, cs, rest, h, hk, hsteps => by
    obtain ⟨mid, hv, hvs⟩ := spaced_items.mp h
    have hlt := hv.length_lt
    obtain _ | k := k
    · omega
    have hv' := read_spelled v n s (Node.spells_skipBlanks.mpr hv) (itemTokens_delimits hvs)
      ((length_skipBlanks_le cs).trans hsteps)
    have hvs' := readItems_spelled vs n s false (k := k) hvs (by omega) (by omega)
    rw [readItems_first hv, hv', read_next hvs', decodeItems]
  | v :: vs, n, s, false, k, cs, rest, h, hk, hsteps => by
    obtain ⟨mid, hcs, h⟩ := spaced_items_next.mp h
    obtain ⟨mid', hv, hvs⟩ := spaced_items.mp h
    have hcomma := length_of_token (t := [',']) hcs
    have hlt := hv.length_lt
    obtain _ | k := k
    · omega
    have hv' := read_spelled v n s (Node.spells_skipBlanks.mpr hv) (itemTokens_delimits hvs)
      ((length_skipBlanks_le mid).trans (by omega))
    have hvs' := readItems_spelled vs n s false (k := k) hvs (by omega) (by omega)
    rw [readItems_next hcs hv, readItems_first hv, hv', read_next hvs', decodeItems]

theorem readPositions_spelled :
    ∀ (vs : List Node) (n : Nat) (spec : RecordSpec ρ) (i : Nat) (fields : List (FieldSpec ρ)) {cs rest : Rest},
    Spaced (itemTokens (i = 0) vs) cs rest → cs.length ≤ steps →
      readAllPositions (read env steps n) spec i fields cs = (decodePositions env n spec i fields vs).map (·, rest)
  | [], n, spec, i, fields, cs, rest, h, hsteps => by
    obtain ⟨mid, hcs, rfl⟩ := h
    rw [readPositions_end hcs, decodePositions]
    rfl
  | v :: vs, n, spec, i, [], cs, rest, h, hsteps => by
    rw [readPositions_excess h, decodePositions]
    rfl
  | v :: vs, n, spec, 0, f :: fs, cs, rest, h, hsteps => by
    obtain ⟨mid, hv, hvs⟩ := spaced_items.mp h
    have hlt := hv.length_lt
    have hv' := read_spelled v n f.schema (Node.spells_skipBlanks.mpr hv) (itemTokens_delimits hvs)
      ((length_skipBlanks_le cs).trans hsteps)
    have hvs' := readPositions_spelled vs n spec 1 fs hvs (by omega)
    rw [readPositions_first hv, hv', read_next hvs', decodePositions]
  | v :: vs, n, spec, i + 1, f :: fs, cs, rest, h, hsteps => by
    obtain ⟨mid, hcs, h⟩ := spaced_items_next.mp h
    obtain ⟨mid', hv, hvs⟩ := spaced_items.mp h
    have hcomma := length_of_token (t := [',']) hcs
    have hlt := hv.length_lt
    have hv' := read_spelled v n f.schema (Node.spells_skipBlanks.mpr hv) (itemTokens_delimits hvs)
      ((length_skipBlanks_le mid).trans (by omega))
    have hvs' := readPositions_spelled vs n spec (i + 2) fs hvs (by omega)
    rw [readPositions_next hcs hv, hv', read_next hvs', decodePositions]

theorem readMembers_spelled : ∀ (ms : List (Glyphs × Node)) (n : Nat) (fields : List (FieldSpec ρ)) (first : Bool) {k : Nat}
    (values : List (Option Datum)) {cs rest : Rest},
    Spaced (memberTokens first ms) cs rest → cs.length ≤ k → cs.length ≤ steps →
      readMembers (read env steps n) fields k first values cs = (decodeMembers env n fields values ms).map (·, rest)
  | [], n, fields, first, k, values, cs, rest, h, hk, hsteps => by
    obtain ⟨k, mid, rfl, hcs, rfl, -⟩ := Spaced.step h hk
    simp [readMembers, hcs, decodeMembers]
  | (key, v) :: ms, n, fields, true, k, values, cs, rest, h, hk, hsteps => by
    obtain ⟨mid, hkey, mid', hv, hms⟩ := spaced_members.mp h
    have hlt := hv.length_lt
    have hkeyLen := length_of_key hkey
    obtain _ | k := k
    · omega
    have hv' := fun s => read_spelled v n s hv (memberTokens_delimits hms) (by omega)
    have hskip : skipValue k mid = .ok mid' := skipValue_spelled hv (memberTokens_delimits hms) (by omega)
    have hms' := fun values => readMembers_spelled ms n fields false (k := k) values hms (by omega) (by omega)
    exact read_member hkey hv' hskip hms'
  | (key, v) :: ms, n, fields, false, k, values, cs, rest, h, hk, hsteps => by
    obtain ⟨mid₀, hcs, h⟩ := spaced_members_next.mp h
    obtain ⟨mid, hkey, mid', hv, hms⟩ := spaced_members.mp h
    have hcomma := length_of_token (t := [',']) hcs
    have hlt := hv.length_lt
    have hkeyLen := length_of_key hkey
    obtain _ | k := k
    · omega
    have hv' := fun s => read_spelled v n s hv (memberTokens_delimits hms) (by omega)
    have hskip : skipValue k mid = .ok mid' := skipValue_spelled hv (memberTokens_delimits hms) (by omega)
    have hms' := fun values => readMembers_spelled ms n fields false (k := k) values hms (by omega) (by omega)
    rw [readMembers_next hcs hkey]
    exact read_member hkey hv' hskip hms'

end

/-- A whole text is read as the tree that it spells. -/
theorem load_spelled {v : Node} {text : String} (h : v.SpelledBy text) (s : Schema ρ) :
    load env s text = decode env depthLimit s v := by
  obtain ⟨rest, hv, hrest⟩ := h
  have hends : Delimits rest := delimits_of_skipBlanks (hrest ▸ delimits_nil)
  rw [load, read_spelled v depthLimit s hv hends (Nat.le_of_eq (String.length_toList ..))]
  cases decode env depthLimit s v with
  | error e => rfl
  | ok d => simp [Except.map, hrest]

end StageRig.Schema
