/-
  StageRig.Proofs.Schema.Meaning — what a tree means, apart from how deep it is.

  A tree means data when it decodes to them with room enough for its containers (`Means`).
  How much room that is can be read off the tree: `typedNesting` counts the containers that
  are open at once in what the schema asks for. With less room than that, a tree that means
  something is malformed, and nothing else can happen to it (`decode_of_means`); so depth is
  out of the way, and the meaning of a value is put together from that of its parts
  (`means_list_iff`, `means_positions_iff`, `means_members_iff`).

  For an object this says that each field is there once or falls back, whatever the order of
  the members and whatever else is among them.
-/

import StageRig.Proofs.Schema.Decode

namespace StageRig

namespace Json

/-- What a string says, if it says anything. -/
def Glyphs.string? (gs : Glyphs) : Option String := gs.value.toOption.map String.ofList

theorem string?_of_value {gs : Glyphs} {name : List Char} (h : gs.value = .ok name) : gs.string? = some (String.ofList name) := by
  rw [Glyphs.string?, h]
  rfl

/-- The values of the members with one name, in their order. -/
def valuesOf (key : String) (ms : List (Glyphs × Node)) : List Node := (ms.filter (·.1.string? = some key)).map Prod.snd

end Json

namespace Schema

open Json

variable {ρ : Type}

/-! ## Nesting -/

/-- The field of a record that a key names. -/
def fieldOf? (fields : List (FieldSpec ρ)) (key : Glyphs) : Option (FieldSpec ρ) :=
  key.string?.bind fun name => fields.find? (·.key = name)

theorem find?_of_fieldOf? {fields : List (FieldSpec ρ)} {key : Glyphs} {name : List Char} (hkey : key.value = .ok name) :
    fieldOf? fields key = fields.find? (·.key = String.ofList name) := by
  rw [fieldOf?, string?_of_value hkey, Option.bind_some]

section

variable (env : ρ → RecordSpec ρ)

mutual

/-- How many containers are open at once in what a schema asks for; what lies in other fields does not count. -/
def typedNesting (s : Schema ρ) : Node → Nat
  | .list vs =>
    match s.core with
    | .list s => itemsNesting s vs + 1
    | .record r => positionsNesting (env r).fields vs + 1
    | _ => 0
  | .map ms =>
    match s.core with
    | .record r => membersNesting (env r).fields ms + 1
    | .variant _ => 1
    | _ => 0
  | _ => 0

def itemsNesting (s : Schema ρ) : List Node → Nat
  | [] => 0
  | v :: vs => max (typedNesting s v) (itemsNesting s vs)

def positionsNesting (fields : List (FieldSpec ρ)) : List Node → Nat
  | [] => 0
  | v :: vs =>
    match fields with
    | [] => 0
    | f :: fs => max (typedNesting f.schema v) (positionsNesting fs vs)

def membersNesting (fields : List (FieldSpec ρ)) : List (Glyphs × Node) → Nat
  | [] => 0
  | (key, v) :: ms =>
    match fieldOf? fields key with
    | some f => max (typedNesting f.schema v) (membersNesting fields ms)
    | none => membersNesting fields ms

end

/-- A tree means data by a schema, however deep it is. -/
def Means (s : Schema ρ) (v : Node) (d : Datum) : Prop := ∃ n, decode env n s v = .ok d

end

variable {env : ρ → RecordSpec ρ} {n : Nat}

/-! ## Members by name -/

variable {fields : List (FieldSpec ρ)} {values : List (Option Datum)} {name : List Char}

theorem onMember_foreign {α : Type} (h : fields.find? (·.key = String.ofList name) = none)
    (take : Nat → FieldSpec ρ → Except LoadError α) (pass : Except LoadError α) :
    onMember fields values name take pass = pass := by
  rw [onMember]
  split
  · simp_all
  · rfl

/-- The member of a field is taken at the field's position, once. -/
theorem exists_onMember_own {f : FieldSpec ρ} (h : fields.find? (·.key = String.ofList name) = some f) :
    ∃ i, fields[i]? = some f ∧
      ∀ {α : Type} (values : List (Option Datum)) (take : Nat → FieldSpec ρ → Except LoadError α) (pass : Except LoadError α),
        onMember fields values name take pass =
          if (values[i]?.join).isSome then .error (.data (.duplicateField f.key)) else take i f := by
  have hidx := h
  rw [List.find?_eq_bind_findIdx?_getElem?, Option.bind_eq_some_iff] at hidx
  obtain ⟨i, hi, hf⟩ := hidx
  refine ⟨i, hf, fun values take pass => ?_⟩
  rw [onMember, hi, h]

/-! ## Room -/

/-- A value without parts needs no room. -/
theorem decode_leaf_of_eq_ok {v : Node} (hlist : ∀ vs, v ≠ .list vs) (hmap : ∀ ms, v ≠ .map ms) {m : Nat} {s : Schema ρ}
    {d : Datum}
    (h : decode env m s v = .ok d) : decode env n s v = if typedNesting env s v ≤ n then .ok d else .error .malformed := by
  rw [← h]
  cases v with
  | list vs => exact absurd rfl (hlist vs)
  | map ms => exact absurd rfl (hmap ms)
  | _ => exact (if_pos (Nat.zero_le n)).symm

/-- Two parts of a value, each of which has room enough or none. -/
theorem bind_of_room {α β : Type} {x : Except LoadError α} {y : α → Except LoadError β} {a : α} {b : β} {i j n : Nat}
    (hx : x = if i ≤ n then .ok a else .error .malformed) (hy : y a = if j ≤ n then .ok b else .error .malformed) :
    (x >>= y) = if max i j ≤ n then .ok b else .error .malformed := by
  rw [hx]
  by_cases hi : i ≤ n
  · simp only [hi, if_true, Nat.max_le, true_and]
    exact hy
  · simp only [hi, if_false, Nat.max_le, false_and]
    rfl

theorem cons_of_room {x : Except LoadError Datum} {y : Except LoadError (List Datum)} {d : Datum} {ds : List Datum} {i j n : Nat}
    (hx : x = if i ≤ n then .ok d else .error .malformed) (hy : y = if j ≤ n then .ok ds else .error .malformed) :
    (x >>= fun d => y >>= fun ds => .ok (d :: ds)) = if max i j ≤ n then .ok (d :: ds) else .error .malformed := by
  refine bind_of_room hx ?_
  rw [hy]
  split <;> rfl

mutual

/-- A tree that decodes with some room decodes to the same data with any room, or else it is too deep for it. -/
theorem decode_of_eq_ok : ∀ (v : Node) (m n : Nat) (s : Schema ρ) {d : Datum}, decode env m s v = .ok d →
    decode env n s v = if typedNesting env s v ≤ n then .ok d else .error .malformed
  | .null, m, n, s, d, h => decode_leaf_of_eq_ok (by simp) (by simp) h
  | .bool b, m, n, s, d, h => decode_leaf_of_eq_ok (by simp) (by simp) h
  | .number negative f, m, n, s, d, h => decode_leaf_of_eq_ok (by simp) (by simp) h
  | .string gs, m, n, s, d, h => decode_leaf_of_eq_ok (by simp) (by simp) h
  | .list vs, m, n, s, d, h => by
    cases htakes : s.takes (.list vs) with
    | false => simp [decode_of_not_takes htakes] at h
    | true =>
      obtain _ | m := m
      · simp [decode_zero_list htakes] at h
      cases hs : s.core with
      | list s' =>
        obtain _ | n := n
        · simp [decode_zero_list htakes, typedNesting, hs]
        rw [decode_list hs] at h ⊢
        obtain ⟨ds, hds, rfl⟩ := map_eq_ok_iff.mp h
        simp only [decodeItems_of_eq_ok vs m n s' hds, typedNesting, hs, Nat.add_le_add_iff_right]
        split <;> rfl
      | record r =>
        obtain _ | n := n
        · simp [decode_zero_list htakes, typedNesting, hs]
        rw [decode_positions hs] at h ⊢
        obtain ⟨ds, hds, rfl⟩ := map_eq_ok_iff.mp h
        simp only [decodePositions_of_eq_ok vs m n _ _ _ hds, typedNesting, hs, Nat.add_le_add_iff_right]
        split <;> rfl
      | _ => simp [takes, hs] at htakes
  | .map ms, m, n, s, d, h => by
    cases htakes : s.takes (.map ms) with
    | false => simp [decode_of_not_takes htakes] at h
    | true =>
      obtain _ | m := m
      · simp [decode_zero_map htakes] at h
      cases hs : s.core with
      | variant names =>
        obtain _ | n := n
        · simp [decode_zero_map htakes, typedNesting, hs]
        rw [decode_tagged hs] at h ⊢
        simp [typedNesting, hs, h]
      | record r =>
        obtain _ | n := n
        · simp [decode_zero_map htakes, typedNesting, hs]
        rw [decode_members hs] at h ⊢
        obtain ⟨ds, hds, rfl⟩ := map_eq_ok_iff.mp h
        simp only [decodeMembers_of_eq_ok ms m n _ _ hds, typedNesting, hs, Nat.add_le_add_iff_right]
        split <;> rfl
      | _ => simp [takes, hs] at htakes

theorem decodeItems_of_eq_ok : ∀ (vs : List Node) (m n : Nat) (s : Schema ρ) {ds : List Datum}, decodeItems env m s vs = .ok ds →
    decodeItems env n s vs = if itemsNesting env s vs ≤ n then .ok ds else .error .malformed
  | [], m, n, s, ds, h => by
    simpa [decodeItems, itemsNesting] using h
  | v :: vs, m, n, s, ds, h => by
    rw [decodeItems] at h ⊢
    obtain ⟨d, hd, h⟩ := bind_eq_ok_iff.mp h
    obtain ⟨ds', hds, h⟩ := bind_eq_ok_iff.mp h
    cases h
    rw [itemsNesting]
    exact cons_of_room (decode_of_eq_ok v m n s hd) (decodeItems_of_eq_ok vs m n s hds)

theorem decodePositions_of_eq_ok : ∀ (vs : List Node) (m n : Nat) (spec : RecordSpec ρ) (i : Nat) (fields : List (FieldSpec ρ))
    {ds : List Datum}, decodePositions env m spec i fields vs = .ok ds →
    decodePositions env n spec i fields vs = if positionsNesting env fields vs ≤ n then .ok ds else .error .malformed
  | [], m, n, spec, i, fields, ds, h => by
    simpa [decodePositions, positionsNesting] using h
  | v :: vs, m, n, spec, i, [], ds, h => by cases h
  | v :: vs, m, n, spec, i, f :: fs, ds, h => by
    rw [decodePositions] at h ⊢
    obtain ⟨d, hd, h⟩ := bind_eq_ok_iff.mp h
    obtain ⟨ds', hds, h⟩ := bind_eq_ok_iff.mp h
    cases h
    rw [positionsNesting]
    exact cons_of_room (decode_of_eq_ok v m n f.schema hd) (decodePositions_of_eq_ok vs m n spec (i + 1) fs hds)

theorem decodeMembers_of_eq_ok : ∀ (ms : List (Glyphs × Node)) (m n : Nat) (fields : List (FieldSpec ρ))
    (values : List (Option Datum))
    {ds : List Datum}, decodeMembers env m fields values ms = .ok ds →
    decodeMembers env n fields values ms = if membersNesting env fields ms ≤ n then .ok ds else .error .malformed
  | [], m, n, fields, values, ds, h => by
    simpa [decodeMembers, membersNesting] using h
  | (key, v) :: ms, m, n, fields, values, ds, h => by
    rw [decodeMembers] at h ⊢
    obtain ⟨name, hname, h⟩ := bind_eq_ok_iff.mp h
    rw [hname]
    simp only [bind, Except.bind]
    cases hfind : fields.find? (·.key = String.ofList name) with
    | none =>
      rw [onMember_foreign hfind] at h ⊢
      simp only [membersNesting, fieldOf?, string?_of_value hname, Option.bind_some, hfind]
      exact decodeMembers_of_eq_ok ms m n fields values h
    | some f =>
      obtain ⟨i, hi, hown⟩ := exists_onMember_own hfind
      rw [hown] at h ⊢
      simp only [membersNesting, fieldOf?, string?_of_value hname, Option.bind_some, hfind]
      split at h
      · cases h
      · rename_i hfree
        rw [if_neg hfree]
        obtain ⟨d, hd, h⟩ := bind_eq_ok_iff.mp h
        exact bind_of_room (decode_of_eq_ok v m n f.schema hd) (decodeMembers_of_eq_ok ms m n fields _ h)

end

/-! ## Meaning -/

section

variable {s : Schema ρ} {v : Node} {d d' : Datum}

theorem decode_of_means (h : Means env s v d) (n : Nat) :
    decode env n s v = if typedNesting env s v ≤ n then .ok d else .error .malformed := by
  obtain ⟨m, h⟩ := h
  exact decode_of_eq_ok v m n s h

theorem decode_eq_ok_iff : decode env n s v = .ok d ↔ Means env s v d ∧ typedNesting env s v ≤ n := by
  constructor
  · intro h
    have hroom := decode_of_means ⟨n, h⟩ n
    rw [h] at hroom
    split at hroom
    · rename_i hn
      exact ⟨⟨n, h⟩, hn⟩
    · cases hroom
  · intro h
    rw [decode_of_means h.1, if_pos h.2]

theorem Means.unique (h : Means env s v d) (h' : Means env s v d') : d = d' := by
  have hn := decode_eq_ok_iff.mpr ⟨h, Nat.le_refl _⟩
  have hn' := decode_eq_ok_iff.mpr ⟨h', Nat.le_refl _⟩
  exact Except.ok.inj (hn.symm.trans hn')

end

/-! ## Lists -/

theorem decodeItems_eq_ok_iff {s : Schema ρ} {vs : List Node} {ds : List Datum} :
    decodeItems env n s vs = .ok ds ↔ List.Forall₂ (fun v d => decode env n s v = .ok d) vs ds := by
  have hmapM : decodeItems env n s vs = vs.mapM (decode env n s) := by
    induction vs with
    | nil => rfl
    | cons v vs ih => rw [decodeItems, List.mapM_cons, ih]; rfl
  rw [hmapM, mapM_eq_ok_iff]

/-- A list means the list of what its items mean. -/
theorem means_list_iff {s s' : Schema ρ} (hs : s.core = .list s') {vs : List Node} {d : Datum} :
    Means env s (.list vs) d ↔ ∃ ds, d = .list ds ∧ List.Forall₂ (Means env s') vs ds := by
  constructor
  · intro h
    obtain ⟨n, h⟩ := h
    obtain _ | n := n
    · rw [decode_zero_list (by simp [takes, hs])] at h
      cases h
    rw [decode_list hs] at h
    obtain ⟨ds, hds, rfl⟩ := map_eq_ok_iff.mp h
    exact ⟨ds, rfl, (decodeItems_eq_ok_iff.mp hds).imp fun v d hd => ⟨n, hd⟩⟩
  · intro h
    obtain ⟨ds, rfl, h⟩ := h
    have hroom : ∀ n, itemsNesting env s' vs ≤ n → decodeItems env n s' vs = .ok ds := by
      intro n hn
      rw [decodeItems_eq_ok_iff]
      induction h with
      | nil => exact .nil
      | cons hd _ ih =>
        rw [itemsNesting, Nat.max_le] at hn
        exact .cons (decode_eq_ok_iff.mpr ⟨hd, hn.1⟩) (ih hn.2)
    refine ⟨itemsNesting env s' vs + 1, ?_⟩
    rw [decode_list hs, hroom _ (Nat.le_refl _)]
    rfl

/-! ## Records as lists -/

/-- Fields by position: those that are given stand for themselves, and those behind them fall back. -/
inductive InPositions (R : Schema ρ → Node → Datum → Prop) : List (FieldSpec ρ) → List Node → List Datum → Prop
  | nil : InPositions R [] [] []
  | fallBack {f : FieldSpec ρ} {fs : List (FieldSpec ρ)} {d : Datum} {ds : List Datum} (hf : f.fallback? = some d)
      (h : InPositions R fs [] ds) : InPositions R (f :: fs) [] (d :: ds)
  | given {f : FieldSpec ρ} {fs : List (FieldSpec ρ)} {v : Node} {vs : List Node} {d : Datum} {ds : List Datum}
      (hv : R f.schema v d) (h : InPositions R fs vs ds) : InPositions R (f :: fs) (v :: vs) (d :: ds)

theorem decodePositions_eq_ok_iff {spec : RecordSpec ρ} {i : Nat} {fields : List (FieldSpec ρ)} {vs : List Node}
    {ds : List Datum} :
    decodePositions env n spec i fields vs = .ok ds ↔ InPositions (fun s v d => decode env n s v = .ok d) fields vs ds := by
  constructor
  · intro h
    induction fields generalizing i vs ds with
    | nil =>
      cases vs with
      | nil =>
        cases h
        exact .nil
      | cons v vs => cases h
    | cons f fs ih =>
      cases vs with
      | nil =>
        rw [decodePositions, fallBack] at h
        split at h
        · rename_i d hd
          obtain ⟨ds', hds, rfl⟩ := map_eq_ok_iff.mp h
          exact .fallBack hd (ih (by rw [decodePositions]; exact hds))
        · cases h
      | cons v vs =>
        rw [decodePositions] at h
        obtain ⟨d, hd, h⟩ := bind_eq_ok_iff.mp h
        obtain ⟨ds', hds, h⟩ := bind_eq_ok_iff.mp h
        cases h
        exact .given hd (ih hds)
  · intro h
    induction h generalizing i with
    | nil => rfl
    | fallBack hf _ ih =>
      specialize @ih (i + 1)
      rw [decodePositions] at ih ⊢
      rw [fallBack, hf]
      simp only [ih]
      rfl
    | given hv _ ih =>
      rw [decodePositions, hv]
      simp only [bind, Except.bind, ih]

/-- A list means the record of what its items mean, one after the other. -/
theorem means_positions_iff {s : Schema ρ} {r : ρ} (hs : s.core = .record r) {vs : List Node} {d : Datum} :
    Means env s (.list vs) d ↔ ∃ ds, d = .record ds ∧ InPositions (Means env) (env r).fields vs ds := by
  constructor
  · intro h
    obtain ⟨n, h⟩ := h
    obtain _ | n := n
    · rw [decode_zero_list (by simp [takes, hs])] at h
      cases h
    rw [decode_positions hs] at h
    obtain ⟨ds, hds, rfl⟩ := map_eq_ok_iff.mp h
    refine ⟨ds, rfl, ?_⟩
    have hpositions := decodePositions_eq_ok_iff.mp hds
    clear hds h
    generalize (env r).fields = fields at hpositions
    induction hpositions with
    | nil => exact .nil
    | fallBack hf _ ih => exact .fallBack hf ih
    | given hv _ ih => exact .given ⟨n, hv⟩ ih
  · intro h
    obtain ⟨ds, rfl, h⟩ := h
    have hroom : ∀ n i, positionsNesting env (env r).fields vs ≤ n →
        decodePositions env n (env r) i (env r).fields vs = .ok ds := by
      intro n i hn
      rw [decodePositions_eq_ok_iff]
      generalize (env r).fields = fields at h hn
      induction h with
      | nil => exact .nil
      | fallBack hf _ ih => exact .fallBack hf (ih (Nat.zero_le n))
      | given hv _ ih =>
        rw [positionsNesting, Nat.max_le] at hn
        exact .given (decode_eq_ok_iff.mpr ⟨hv, hn.1⟩) (ih hn.2)
    refine ⟨positionsNesting env (env r).fields vs + 1, ?_⟩
    rw [decode_positions hs, hroom _ _ (Nat.le_refl _)]
    rfl

/-! ## Records as objects -/

/-- A field among the members: it is there once, or it is not there and falls back. -/
def Filled (R : Schema ρ → Node → Datum → Prop) (ms : List (Glyphs × Node)) (f : FieldSpec ρ) (d : Datum) : Prop :=
  valuesOf f.key ms = [] ∧ f.fallback? = some d ∨ ∃ v, valuesOf f.key ms = [v] ∧ R f.schema v d

/-- A field among the members that are left, of which a value may have been read before. -/
def FilledFrom (R : Schema ρ → Node → Datum → Prop) (ms : List (Glyphs × Node)) (f : FieldSpec ρ) :
    Option Datum → Datum → Prop
  | some d', d => valuesOf f.key ms = [] ∧ d' = d
  | none, d => Filled R ms f d

theorem valuesOf_cons_own {key : Glyphs} {v : Node} {name : String} (h : key.string? = some name) (ms : List (Glyphs × Node)) :
    valuesOf name ((key, v) :: ms) = v :: valuesOf name ms := by
  simp [valuesOf, h]

theorem valuesOf_cons_other {key : Glyphs} {v : Node} {name : String} (h : key.string? ≠ some name) (ms : List (Glyphs × Node)) :
    valuesOf name ((key, v) :: ms) = valuesOf name ms := by
  simp [valuesOf, h]

theorem valuesOf_append (name : String) (ms ms' : List (Glyphs × Node)) :
    valuesOf name (ms ++ ms') = valuesOf name ms ++ valuesOf name ms' := by
  simp [valuesOf]

theorem valuesOf_eq_nil {name : String} {ms : List (Glyphs × Node)} (h : ∀ m ∈ ms, m.1.string? ≠ some name) :
    valuesOf name ms = [] := by
  rw [valuesOf, List.map_eq_nil_iff, List.filter_eq_nil_iff]
  simpa using h

theorem exists_cons_iff {α : Type} {a : α} {l : List α} {P : List α → Prop} :
    (∃ l', P l' ∧ a :: l' = l) ↔ ∃ b l', l = b :: l' ∧ a = b ∧ P l' := by
  constructor
  · rintro ⟨l', h, rfl⟩
    exact ⟨a, l', rfl, rfl, h⟩
  · rintro ⟨b, l', rfl, rfl, h⟩
    exact ⟨l', h, rfl⟩

/-- The data of the fields, when every value has been read: the values, and what the other fields fall back on. -/
theorem complete_eq_ok_iff {fields : List (FieldSpec ρ)} {values : List (Option Datum)} {ds : List Datum} :
    complete fields values = .ok ds ↔ ds.length = fields.length ∧ ∀ (i : Nat) (f : FieldSpec ρ), fields[i]? = some f →
      ∃ d, ds[i]? = some d ∧ (values[i]?.join = some d ∨ values[i]?.join = none ∧ f.fallback? = some d) := by
  induction fields generalizing values ds with
  | nil => simp [complete, eq_comm]
  | cons f fs ih =>
    have hcons : complete (f :: fs) values = .ok ds ↔ ∃ d ds', ds = d :: ds' ∧
        (values[0]?.join = some d ∨ values[0]?.join = none ∧ f.fallback? = some d) ∧ complete fs values.tail = .ok ds' := by
      rw [complete, List.head?_eq_getElem?]
      cases values[0]?.join with
      | some d =>
        simp only [map_eq_ok_iff, Option.some.injEq, reduceCtorEq, false_and, or_false]
        exact exists_cons_iff
      | none =>
        cases f.fallback? with
        | some d =>
          simp only [map_eq_ok_iff, Option.some.injEq, reduceCtorEq, true_and, false_or]
          exact exists_cons_iff
        | none => simp
    rw [hcons]
    constructor
    · intro h
      obtain ⟨d, ds', rfl, hd, hds⟩ := h
      obtain ⟨hlen, hall⟩ := ih.mp hds
      refine ⟨congrArg Nat.succ hlen, fun i f' hf => ?_⟩
      cases i with
      | zero =>
        cases hf
        exact ⟨d, rfl, hd⟩
      | succ i =>
        rw [List.getElem?_cons_succ, ← List.getElem?_tail]
        exact hall i f' hf
    · intro h
      obtain ⟨hlen, hall⟩ := h
      cases ds with
      | nil => cases hlen
      | cons d ds =>
        obtain ⟨d', hd', hd⟩ := hall 0 f rfl
        cases hd'
        refine ⟨d, ds, rfl, hd, ih.mpr ⟨Nat.succ.inj hlen, fun i f' hf => ?_⟩⟩
        rw [List.getElem?_tail]
        exact hall (i + 1) f' hf

theorem filledFrom_nil {R : Schema ρ → Node → Datum → Prop} {f : FieldSpec ρ} {value? : Option Datum} {d : Datum} :
    FilledFrom R [] f value? d ↔ value? = some d ∨ value? = none ∧ f.fallback? = some d := by
  cases value? <;> simp [FilledFrom, Filled, valuesOf]

theorem filledFrom_cons_other {R : Schema ρ → Node → Datum → Prop} {f : FieldSpec ρ} {key : Glyphs}
    (h : key.string? ≠ some f.key) {v : Node} {ms : List (Glyphs × Node)} {value? : Option Datum} {d : Datum} :
    FilledFrom R ((key, v) :: ms) f value? d ↔ FilledFrom R ms f value? d := by
  cases value? <;> simp only [FilledFrom, Filled, valuesOf_cons_other h]

/-- A record has one field of a name. -/
theorem eq_index_of_key {fields : List (FieldSpec ρ)} (hkeys : (fields.map (·.key)).Nodup) {i j : Nat} {f f' : FieldSpec ρ}
    (hi : fields[i]? = some f) (hj : fields[j]? = some f') (h : f.key = f'.key) : i = j := by
  have hlt : i < (fields.map (·.key)).length := by
    rw [List.length_map]
    exact (List.getElem?_eq_some_iff.mp hi).1
  refine (List.getElem?_inj hlt hkeys).mp ?_
  simp [hi, hj, h]

theorem decodeMembers_eq_ok_iff {fields : List (FieldSpec ρ)} (hkeys : (fields.map (·.key)).Nodup) {ms : List (Glyphs × Node)}
    {values : List (Option Datum)} (hvalues : values.length = fields.length) {ds : List Datum} :
    decodeMembers env n fields values ms = .ok ds ↔
      (∀ m ∈ ms, m.1.string?.isSome = true) ∧ ds.length = fields.length ∧
        ∀ (i : Nat) (f : FieldSpec ρ), fields[i]? = some f → ∃ d, ds[i]? = some d ∧
          FilledFrom (fun s v d => decode env n s v = .ok d) ms f values[i]?.join d := by
  induction ms generalizing values with
  | nil =>
    rw [decodeMembers, complete_eq_ok_iff]
    simp [filledFrom_nil]
  | cons m ms ih =>
    obtain ⟨key, v⟩ := m
    rw [decodeMembers]
    cases hname : key.value with
    | error e =>
      simp [bind, Except.bind, Glyphs.string?, hname, Except.toOption]
    | ok name =>
      have hstring := string?_of_value hname
      simp only [bind, Except.bind, List.forall_mem_cons, hstring, Option.isSome_some, true_and]
      cases hfind : fields.find? (·.key = String.ofList name) with
      | none =>
        -- a member that names no field changes nothing for any of them
        have hother : ∀ (i : Nat) (f : FieldSpec ρ), fields[i]? = some f → key.string? ≠ some f.key := by
          intro i f hf h
          have := List.find?_eq_none.mp hfind f (List.mem_of_getElem? hf)
          simp_all
        rw [onMember_foreign hfind, ih hvalues]
        refine and_congr_right fun _ => and_congr_right fun _ => ?_
        refine forall_congr' fun i => forall_congr' fun f => forall_congr' fun hf => ?_
        simp only [filledFrom_cons_other (hother i f hf)]
      | some f =>
        obtain ⟨i, hi, hown⟩ := exists_onMember_own hfind
        have hkey : key.string? = some f.key := by
          have := List.find?_some hfind
          simp_all
        have hother : ∀ (j : Nat) (f' : FieldSpec ρ), fields[j]? = some f' → j ≠ i → key.string? ≠ some f'.key := by
          intro j f' hj hne h
          refine hne (eq_index_of_key hkeys hj hi ?_)
          exact Option.some.inj (h.symm.trans hkey)
        rw [hown]
        cases hvalue : values[i]?.join with
        | some d' =>
          -- the field was read before, and now there is another value for it
          simp only [Option.isSome_some, if_true, reduceCtorEq, false_iff, not_and, not_forall]
          intro _ _
          refine ⟨i, f, hi, ?_⟩
          rintro ⟨d, -, hfilled⟩
          rw [hvalue, FilledFrom, valuesOf_cons_own hkey] at hfilled
          cases hfilled.1
        | none =>
          -- the field is read here, so what is left must not name it again
          simp only [Option.isSome_none, Bool.false_eq_true, if_false]
          have hlt : i < values.length := by
            rw [hvalues]
            exact (List.getElem?_eq_some_iff.mp hi).1
          have hset : ∀ d, (values.set i (some d)).length = fields.length := fun d => by rw [List.length_set, hvalues]
          constructor
          · intro h
            obtain ⟨d, hd, h⟩ := bind_eq_ok_iff.mp h
            obtain ⟨hall, hlen, hfields⟩ := (ih (hset d)).mp h
            refine ⟨hall, hlen, fun j f' hj => ?_⟩
            obtain ⟨d', hd', hfilled⟩ := hfields j f' hj
            refine ⟨d', hd', ?_⟩
            by_cases hji : j = i
            · subst hji
              cases hi.symm.trans hj
              simp only [List.getElem?_set_self hlt, Option.join_some, FilledFrom] at hfilled
              rw [hvalue, FilledFrom, Filled, valuesOf_cons_own hkey, hfilled.1]
              exact .inr ⟨v, rfl, hfilled.2 ▸ hd⟩
            · rw [List.getElem?_set_ne (Ne.symm hji)] at hfilled
              exact (filledFrom_cons_other (hother j f' hj hji)).mpr hfilled
          · intro h
            obtain ⟨hall, hlen, hfields⟩ := h
            obtain ⟨d, hd, hfilled⟩ := hfields i f hi
            rw [hvalue, FilledFrom, Filled, valuesOf_cons_own hkey] at hfilled
            obtain ⟨hnil, -⟩ | ⟨w, hw, hdecode⟩ := hfilled
            · cases hnil
            obtain ⟨rfl, hrest⟩ := List.cons.inj hw
            refine bind_eq_ok_iff.mpr ⟨d, hdecode, (ih (hset d)).mpr ⟨hall, hlen, fun j f' hj => ?_⟩⟩
            obtain ⟨d', hd', hfilled⟩ := hfields j f' hj
            refine ⟨d', hd', ?_⟩
            by_cases hji : j = i
            · subst hji
              cases hi.symm.trans hj
              cases hd.symm.trans hd'
              simp only [List.getElem?_set_self hlt, Option.join_some, FilledFrom]
              exact ⟨hrest, trivial⟩
            · rw [List.getElem?_set_ne (Ne.symm hji)]
              exact (filledFrom_cons_other (hother j f' hj hji)).mp hfilled

theorem fieldOf?_own {fields : List (FieldSpec ρ)} (hkeys : (fields.map (·.key)).Nodup) {i : Nat} {f : FieldSpec ρ}
    (hi : fields[i]? = some f) {key : Glyphs} (h : key.string? = some f.key) : fieldOf? fields key = some f := by
  rw [fieldOf?, h, Option.bind_some, List.find?_eq_some_iff_getElem]
  obtain ⟨hlt, hf⟩ := List.getElem?_eq_some_iff.mp hi
  refine ⟨by simp, i, hlt, hf, fun j hj => ?_⟩
  have hne : fields[j].key ≠ f.key := fun h => Nat.ne_of_lt hj (eq_index_of_key hkeys (List.getElem?_eq_getElem _) hi h)
  simpa using hne

/-- The value of each field has room in that of the members. -/
theorem typedNesting_le_membersNesting {fields : List (FieldSpec ρ)} (hkeys : (fields.map (·.key)).Nodup)
    {ms : List (Glyphs × Node)}
    {i : Nat} {f : FieldSpec ρ} (hi : fields[i]? = some f) {v : Node} (hv : v ∈ valuesOf f.key ms) :
    typedNesting env f.schema v ≤ membersNesting env fields ms := by
  induction ms with
  | nil => cases hv
  | cons m ms ih =>
    obtain ⟨key, w⟩ := m
    rw [membersNesting]
    by_cases hkey : key.string? = some f.key
    · rw [valuesOf_cons_own hkey] at hv
      rw [fieldOf?_own hkeys hi hkey]
      rcases List.mem_cons.mp hv with rfl | hv
      · exact Nat.le_max_left _ _
      · exact (ih hv).trans (Nat.le_max_right _ _)
    · rw [valuesOf_cons_other hkey] at hv
      cases fieldOf? fields key with
      | none => exact ih hv
      | some f' => exact (ih hv).trans (Nat.le_max_right _ _)

theorem decodeMembers_none_iff {fields : List (FieldSpec ρ)} (hkeys : (fields.map (·.key)).Nodup) {ms : List (Glyphs × Node)}
    {ds : List Datum} :
    decodeMembers env n fields (fields.map fun _ => none) ms = .ok ds ↔
      (∀ m ∈ ms, m.1.string?.isSome = true) ∧ List.Forall₂ (Filled (fun s v d => decode env n s v = .ok d) ms) fields ds := by
  have hnone : ∀ i : Nat, (fields.map fun _ => (none : Option Datum))[i]?.join = none := by
    intro i
    rw [List.getElem?_map]
    cases fields[i]? <;> rfl
  rw [decodeMembers_eq_ok_iff hkeys (List.length_map _), List.forall₂_iff_get]
  simp only [hnone, FilledFrom]
  refine and_congr_right fun _ => ?_
  constructor
  · intro h
    refine ⟨h.1.symm, fun i hi hi' => ?_⟩
    obtain ⟨d, hd, hfilled⟩ := h.2 i _ (List.getElem?_eq_getElem hi)
    obtain ⟨hlt, rfl⟩ := List.getElem?_eq_some_iff.mp hd
    exact hfilled
  · intro h
    refine ⟨h.1.symm, fun i f hf => ?_⟩
    obtain ⟨hi, rfl⟩ := List.getElem?_eq_some_iff.mp hf
    have hi' : i < ds.length := h.1 ▸ hi
    exact ⟨_, List.getElem?_eq_getElem hi', h.2 i hi hi'⟩

/-- An object means the record of what its members mean, in whatever order they are. -/
theorem means_members_iff {s : Schema ρ} {r : ρ} (hs : s.core = .record r) (hkeys : ((env r).fields.map (·.key)).Nodup)
    {ms : List (Glyphs × Node)} {d : Datum} :
    Means env s (.map ms) d ↔
      (∀ m ∈ ms, m.1.string?.isSome = true) ∧
        ∃ ds, d = .record ds ∧ List.Forall₂ (Filled (Means env) ms) (env r).fields ds := by
  constructor
  · intro h
    obtain ⟨n, h⟩ := h
    obtain _ | n := n
    · rw [decode_zero_map (by simp [takes, hs])] at h
      cases h
    rw [decode_members hs] at h
    obtain ⟨ds, hds, rfl⟩ := map_eq_ok_iff.mp h
    obtain ⟨hall, hfields⟩ := (decodeMembers_none_iff hkeys).mp hds
    refine ⟨hall, ds, rfl, hfields.imp fun f d hd => ?_⟩
    exact hd.imp id fun ⟨v, hv, hdecode⟩ => ⟨v, hv, n, hdecode⟩
  · intro h
    obtain ⟨hall, ds, rfl, h⟩ := h
    refine ⟨membersNesting env (env r).fields ms + 1, ?_⟩
    have hroom : decodeMembers env (membersNesting env (env r).fields ms) (env r).fields
        ((env r).fields.map fun _ => none) ms = .ok ds := by
      rw [decodeMembers_none_iff hkeys]
      rw [List.forall₂_iff_get] at h ⊢
      refine ⟨hall, h.1, fun i hi hi' => (h.2 i hi hi').imp id ?_⟩
      rintro ⟨v, hv, hmeans⟩
      have hmem : v ∈ valuesOf ((env r).fields.get ⟨i, hi⟩).key ms := by
        rw [hv]
        exact List.mem_singleton_self v
      exact ⟨v, hv, decode_eq_ok_iff.mpr ⟨hmeans, typedNesting_le_membersNesting hkeys (List.getElem?_eq_getElem hi) hmem⟩⟩
    rw [decode_members hs, hroom]
    rfl

end Schema

end StageRig
