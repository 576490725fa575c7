/-
  StageRig.Proofs.Schema.Respelled — one value, spelled in several ways.

  `Respells` lists what may be changed at one place of a tree without changing what it
  means: the order of the members, members that name no field, fields that are not there
  and fall back, the form of a record or a variant, and the order and number of the items
  of a list that stands for a set. Which fields hold sets is not in the schema, so it is
  given beside it (`isSet`).

  A change keeps the data as they are, except for the items of sets (`Respells.means`).
  How data with such items compare is `Alike`.
-/

import Mathlib.Data.List.Forall2
import Mathlib.Logic.Relation
import StageRig.Proofs.Schema.Meaning

namespace StageRig.Schema

open Json

variable {ρ : Type} (env : ρ → RecordSpec ρ) (isSet : ρ → String → Bool)

/-- One change of the spelling of a value, which is a set or not. -/
inductive Respells : Bool → Schema ρ → Node → Node → Prop
  /-- The members of a record in another order. -/
  | permute {b : Bool} {s : Schema ρ} {r : ρ} {ms ms' : List (Glyphs × Node)} (hs : s.core = .record r) (h : ms.Perm ms') :
      Respells b s (.map ms) (.map ms')
  /-- A member more, which names no field. -/
  | insert {b : Bool} {s : Schema ρ} {r : ρ} {ms ms' : List (Glyphs × Node)} {key : Glyphs} {x : Node} (hs : s.core = .record r)
      (hkey : key.string?.isSome = true) (hforeign : fieldOf? (env r).fields key = none) :
      Respells b s (.map (ms ++ ms')) (.map (ms ++ (key, x) :: ms'))
  /-- Any other value in a member that names no field. -/
  | replace {b : Bool} {s : Schema ρ} {r : ρ} {ms ms' : List (Glyphs × Node)} {key : Glyphs} {x y : Node}
      (hs : s.core = .record r) (hforeign : fieldOf? (env r).fields key = none) :
      Respells b s (.map (ms ++ (key, x) :: ms')) (.map (ms ++ (key, y) :: ms'))
  /-- A field that is not there, written as what it falls back on. -/
  | fill {b : Bool} {s : Schema ρ} {r : ρ} {ms ms' : List (Glyphs × Node)} {key : Glyphs} {x : Node} {f : FieldSpec ρ} {d : Datum}
      (hs : s.core = .record r) (hf : fieldOf? (env r).fields key = some f) (habsent : valuesOf f.key (ms ++ ms') = [])
      (hfallback : f.fallback? = some d) (hx : Means env f.schema x d) :
      Respells b s (.map (ms ++ ms')) (.map (ms ++ (key, x) :: ms'))
  /-- A record as the list of all its fields. -/
  | positions {b : Bool} {s : Schema ρ} {r : ρ} {ms : List (Glyphs × Node)} {vs : List Node} (hs : s.core = .record r)
      (h : List.Forall₂ (fun f v => valuesOf f.key ms = [v] ∨
        valuesOf f.key ms = [] ∧ ∃ d, f.fallback? = some d ∧ Means env f.schema v d) (env r).fields vs) :
      Respells b s (.map ms) (.list vs)
  /-- The next field of a record that is a list, written as what it falls back on. -/
  | extend {b : Bool} {s : Schema ρ} {r : ρ} {vs : List Node} {x : Node} {f : FieldSpec ρ} {d : Datum} (hs : s.core = .record r)
      (hf : (env r).fields[vs.length]? = some f) (hfallback : f.fallback? = some d) (hx : Means env f.schema x d) :
      Respells b s (.list vs) (.list (vs ++ [x]))
  /-- A variant as an object. -/
  | tag {b : Bool} {s : Schema ρ} {names : List String} {gs : Glyphs} (hs : s.core = .variant names) :
      Respells b s (.string gs) (.map [(gs, .null)])
  /-- The items of a set in another order, and any number of times. -/
  | regroup {s s' : Schema ρ} {vs ws : List Node} (hs : s.core = .list s') (h : ∀ v, v ∈ vs ↔ v ∈ ws) :
      Respells true s (.list vs) (.list ws)
  /-- A change in an item of a list. -/
  | item {b : Bool} {s s' : Schema ρ} {vs : List Node} {i : Nat} {v w : Node} (hs : s.core = .list s') (hi : vs[i]? = some v)
      (h : Respells false s' v w) : Respells b s (.list vs) (.list (vs.set i w))
  /-- A change in a field given by name. -/
  | member {b : Bool} {s : Schema ρ} {r : ρ} {ms ms' : List (Glyphs × Node)} {key : Glyphs} {f : FieldSpec ρ} {v w : Node}
      (hs : s.core = .record r) (hf : fieldOf? (env r).fields key = some f) (h : Respells (isSet r f.key) f.schema v w) :
      Respells b s (.map (ms ++ (key, v) :: ms')) (.map (ms ++ (key, w) :: ms'))
  /-- A change in a field given by position. -/
  | position {b : Bool} {s : Schema ρ} {r : ρ} {vs : List Node} {i : Nat} {f : FieldSpec ρ} {v w : Node} (hs : s.core = .record r)
      (hf : (env r).fields[i]? = some f) (hi : vs[i]? = some v) (h : Respells (isSet r f.key) f.schema v w) :
      Respells b s (.list vs) (.list (vs.set i w))

/-- Any number of changes. -/
def Respelled (b : Bool) (s : Schema ρ) : Node → Node → Prop := Relation.ReflTransGen (Respells env isSet b s)

/-- Data that differ at one place, and there only in how a set is listed. -/
inductive Alike : Bool → Schema ρ → Datum → Datum → Prop
  | refl {b : Bool} {s : Schema ρ} (d : Datum) : Alike b s d d
  | set {s s' : Schema ρ} {ds ds' : List Datum} (hs : s.core = .list s') (h : ∀ d, d ∈ ds ↔ d ∈ ds') :
      Alike true s (.list ds) (.list ds')
  | item {b : Bool} {s s' : Schema ρ} {ds : List Datum} {i : Nat} {d d' : Datum} (hs : s.core = .list s') (hi : ds[i]? = some d)
      (h : Alike false s' d d') : Alike b s (.list ds) (.list (ds.set i d'))
  | field {b : Bool} {s : Schema ρ} {r : ρ} {ds : List Datum} {i : Nat} {f : FieldSpec ρ} {d d' : Datum} (hs : s.core = .record r)
      (hf : (env r).fields[i]? = some f) (hi : ds[i]? = some d) (h : Alike (isSet r f.key) f.schema d d') :
      Alike b s (.record ds) (.record (ds.set i d'))

variable {env isSet}

/-! ## Members -/

theorem forall₂_of_mem {α β : Type} {P Q : α → β → Prop} {l : List α} {l' : List β} (h : List.Forall₂ P l l')
    (himp : ∀ a ∈ l, ∀ b, P a b → Q a b) : List.Forall₂ Q l l' :=
  ((List.forall₂_and_left l l').mpr ⟨fun _ ha => ha, h⟩).imp fun a b h => himp a h.1 b h.2

/-- One entry is related anew, and the others as a consequence of how they were. -/
theorem forall₂_set {α β : Type} {P Q : α → β → Prop} {l : List α} {l' : List β} (h : List.Forall₂ P l l') {i : Nat}
    {a : α} {b : β}
    (hi : l[i]? = some a) (hb : Q a b) (hother : ∀ (j : Nat) (a' : α), j ≠ i → l[j]? = some a' → ∀ b', P a' b' → Q a' b') :
    List.Forall₂ Q l (l'.set i b) := by
  induction h generalizing i with
  | nil => cases hi
  | @cons a' b' l l' hab h ih =>
    cases i with
    | zero =>
      cases hi
      refine .cons hb (forall₂_of_mem h fun a'' ha'' => ?_)
      obtain ⟨j, hj⟩ := List.getElem?_of_mem ha''
      exact hother (j + 1) a'' (Nat.succ_ne_zero j) hj
    | succ i =>
      refine .cons (hother 0 a' (Nat.succ_ne_zero i).symm rfl b' hab) (ih hi fun j a'' hj => ?_)
      exact hother (j + 1) a'' fun h => hj (Nat.succ.inj h)

theorem forall_named_insert {ms ms' : List (Glyphs × Node)} {key : Glyphs} {x : Node} :
    (∀ m ∈ ms ++ (key, x) :: ms', m.1.string?.isSome = true) ↔
      key.string?.isSome = true ∧ ∀ m ∈ ms ++ ms', m.1.string?.isSome = true := by
  simp only [List.mem_append, List.mem_cons, or_imp, forall_and, forall_eq]
  exact and_left_comm

theorem valuesOf_perm {key : String} {ms ms' : List (Glyphs × Node)} (h : ms.Perm ms') :
    (valuesOf key ms).Perm (valuesOf key ms') :=
  (h.filter _).map _

theorem valuesOf_insert {key : Glyphs} {name : String} (h : key.string? ≠ some name) (ms : List (Glyphs × Node)) (x : Node)
    (ms' : List (Glyphs × Node)) : valuesOf name (ms ++ (key, x) :: ms') = valuesOf name (ms ++ ms') := by
  rw [valuesOf_append, valuesOf_cons_other h, valuesOf_append]

theorem Filled.of_valuesOf {R : Schema ρ → Node → Datum → Prop} {ms ms' : List (Glyphs × Node)} {f : FieldSpec ρ} {d : Datum}
    (h : Filled R ms f d) (hvalues : valuesOf f.key ms' = valuesOf f.key ms) : Filled R ms' f d := by
  rwa [Filled, hvalues]

/-- A field that is there in the middle is there nowhere else. -/
theorem filled_own_iff {R : Schema ρ → Node → Datum → Prop} {ms ms' : List (Glyphs × Node)} {f : FieldSpec ρ} {key : Glyphs}
    (hkey : key.string? = some f.key) {v : Node} {d : Datum} :
    Filled R (ms ++ (key, v) :: ms') f d ↔ valuesOf f.key (ms ++ ms') = [] ∧ R f.schema v d := by
  rw [Filled, valuesOf_append, valuesOf_cons_own hkey, valuesOf_append, List.append_eq_nil_iff]
  cases valuesOf f.key ms <;> cases valuesOf f.key ms' <;> simp

theorem Filled.perm {R : Schema ρ → Node → Datum → Prop} {ms ms' : List (Glyphs × Node)} {f : FieldSpec ρ} {d : Datum}
    (h : Filled R ms f d) (hperm : ms.Perm ms') : Filled R ms' f d := by
  have hvalues : (valuesOf f.key ms).Perm (valuesOf f.key ms') := valuesOf_perm hperm
  obtain ⟨hnil, hfallback⟩ | ⟨v, hv, hd⟩ := h
  · rw [hnil] at hvalues
    exact .inl ⟨hvalues.nil_eq.symm, hfallback⟩
  · rw [hv] at hvalues
    exact .inr ⟨v, List.perm_singleton.mp hvalues.symm, hd⟩

theorem string?_ne_of_foreign {fields : List (FieldSpec ρ)} {key : Glyphs} (h : fieldOf? fields key = none) {f : FieldSpec ρ}
    (hf : f ∈ fields) : key.string? ≠ some f.key := by
  intro hkey
  rw [fieldOf?, hkey, Option.bind_some, List.find?_eq_none] at h
  exact h f hf (by simp)

theorem mem_and_key_of_fieldOf? {fields : List (FieldSpec ρ)} {key : Glyphs} {f : FieldSpec ρ}
    (h : fieldOf? fields key = some f) :
    f ∈ fields ∧ key.string? = some f.key := by
  obtain ⟨name, hname, hfind⟩ := Option.bind_eq_some_iff.mp h
  have hkey := List.find?_some hfind
  refine ⟨List.mem_of_find?_eq_some hfind, ?_⟩
  rw [hname, of_decide_eq_true hkey]

/-- A key that names one field names no other. -/
theorem eq_of_key {fields : List (FieldSpec ρ)} (hkeys : (fields.map (·.key)).Nodup) {f f' : FieldSpec ρ} (hf : f ∈ fields)
    (hf' : f' ∈ fields) (h : f.key = f'.key) : f = f' := by
  obtain ⟨i, hi⟩ := List.getElem?_of_mem hf
  obtain ⟨j, hj⟩ := List.getElem?_of_mem hf'
  cases eq_index_of_key hkeys hi hj h
  exact Option.some.inj (hi.symm.trans hj)

/-! ## Parts -/

section

variable {R : Schema ρ → Node → Datum → Prop}

/-- One item of a list, and what happens when another one takes its place. -/
theorem exists_item {s : Schema ρ} {vs : List Node} {ds : List Datum} (h : List.Forall₂ (R s) vs ds) {i : Nat} {v : Node}
    (hi : vs[i]? = some v) :
    ∃ d, ds[i]? = some d ∧ R s v d ∧ ∀ w d', R s w d' → List.Forall₂ (R s) (vs.set i w) (ds.set i d') := by
  induction h generalizing i with
  | nil => cases hi
  | cons hv h ih =>
    cases i with
    | zero =>
      cases hi
      exact ⟨_, rfl, hv, fun w d' hw => .cons hw h⟩
    | succ i =>
      obtain ⟨d, hd, hvd, hset⟩ := ih hi
      exact ⟨d, hd, hvd, fun w d' hw => .cons hv (hset w d' hw)⟩

/-- One field by position, and what happens when another value takes its place. -/
theorem exists_position {fs : List (FieldSpec ρ)} {vs : List Node} {ds : List Datum} (h : InPositions R fs vs ds) {i : Nat}
    {f : FieldSpec ρ} {v : Node} (hf : fs[i]? = some f) (hi : vs[i]? = some v) :
    ∃ d, ds[i]? = some d ∧ R f.schema v d ∧ ∀ w d', R f.schema w d' → InPositions R fs (vs.set i w) (ds.set i d') := by
  induction h generalizing i with
  | nil => cases hi
  | fallBack _ _ _ => cases hi
  | given hv h ih =>
    cases i with
    | zero =>
      cases hf
      cases hi
      exact ⟨_, rfl, hv, fun w d' hw => .given hw h⟩
    | succ i =>
      obtain ⟨d, hd, hvd, hset⟩ := ih hf hi
      exact ⟨d, hd, hvd, fun w d' hw => .given hv (hset w d' hw)⟩

/-- The next field by position may be given as what it falls back on. -/
theorem InPositions.extend {fs : List (FieldSpec ρ)} {vs : List Node} {ds : List Datum} (h : InPositions R fs vs ds)
    {f : FieldSpec ρ} (hf : fs[vs.length]? = some f) {d : Datum} (hfallback : f.fallback? = some d) {x : Node}
    (hx : R f.schema x d) :
    InPositions R fs (vs ++ [x]) ds := by
  induction h with
  | nil => cases hf
  | fallBack hf' h _ =>
    cases hf
    cases hf'.symm.trans hfallback
    exact .given hx h
  | given hv _ ih => exact .given hv (ih hf)

/-- One field by name, and what happens when another value takes its place. -/
theorem exists_member {fields : List (FieldSpec ρ)} (hkeys : (fields.map (·.key)).Nodup) {ms ms' : List (Glyphs × Node)}
    {key : Glyphs}
    {v : Node} {ds : List Datum} (h : List.Forall₂ (Filled R (ms ++ (key, v) :: ms')) fields ds) {f : FieldSpec ρ}
    (hf : fieldOf? fields key = some f) :
    ∃ (i : Nat) (d : Datum), fields[i]? = some f ∧ ds[i]? = some d ∧ R f.schema v d ∧
      ∀ w d', R f.schema w d' → List.Forall₂ (Filled R (ms ++ (key, w) :: ms')) fields (ds.set i d') := by
  obtain ⟨hmem, hkey⟩ := mem_and_key_of_fieldOf? hf
  obtain ⟨i, hi⟩ := List.getElem?_of_mem hmem
  obtain ⟨hlt, rfl⟩ := List.getElem?_eq_some_iff.mp hi
  have hlt' : i < ds.length := h.length_eq ▸ hlt
  obtain ⟨habsent, hd⟩ := (filled_own_iff hkey).mp (h.get hlt hlt')
  refine ⟨i, ds[i], hi, List.getElem?_eq_getElem hlt', hd, fun w d' hw => forall₂_set h hi ?_ ?_⟩
  · exact (filled_own_iff hkey).mpr ⟨habsent, hw⟩
  · intro j f' hj hf' d'' hfilled
    have hne : key.string? ≠ some f'.key := by
      intro hkey'
      refine hj (eq_index_of_key hkeys hf' hi ?_)
      exact Option.some.inj (hkey'.symm.trans hkey)
    refine hfilled.of_valuesOf ?_
    rw [valuesOf_insert hne, valuesOf_insert hne]

end

/-- Other members, by which each field is filled as it was. -/
theorem Means.of_members {s : Schema ρ} {r : ρ} (hs : s.core = .record r) (hkeys : ((env r).fields.map (·.key)).Nodup)
    {ms ms' : List (Glyphs × Node)} {d : Datum} (h : Means env s (.map ms) d)
    (hnames : (∀ m ∈ ms, m.1.string?.isSome = true) → ∀ m ∈ ms', m.1.string?.isSome = true)
    (hfields : ∀ f ∈ (env r).fields, ∀ d, Filled (Means env) ms f d → Filled (Means env) ms' f d) : Means env s (.map ms') d := by
  obtain ⟨hall, ds, rfl, hds⟩ := (means_members_iff hs hkeys).mp h
  exact (means_members_iff hs hkeys).mpr ⟨hnames hall, ds, rfl, forall₂_of_mem hds hfields⟩

/-- All fields of an object, one after the other. -/
theorem inPositions_of_filled {ms : List (Glyphs × Node)} {fields : List (FieldSpec ρ)} {vs : List Node} {ds : List Datum}
    (h : List.Forall₂ (Filled (Means env) ms) fields ds)
    (hvs : List.Forall₂ (fun f v => valuesOf f.key ms = [v] ∨
      valuesOf f.key ms = [] ∧ ∃ d, f.fallback? = some d ∧ Means env f.schema v d) fields vs) :
    InPositions (Means env) fields vs ds := by
  induction h generalizing vs with
  | nil =>
    cases hvs
    exact .nil
  | @cons f d fs ds hd _ ih =>
    cases hvs with
    | @cons _ v _ vs hv hvs =>
      refine .given ?_ (ih hvs)
      obtain ⟨hnil, hfallback⟩ | ⟨w, hw, hmeans⟩ := hd
      · obtain hone | ⟨-, d', hd', hmeans⟩ := hv
        · cases hnil.symm.trans hone
        · cases hfallback.symm.trans hd'
          exact hmeans
      · obtain hone | ⟨hnil, -⟩ := hv
        · cases hw.symm.trans hone
          exact hmeans
        · cases hw.symm.trans hnil

/-- A variant is the same as an object. -/
theorem means_tagged {s : Schema ρ} {names : List String} (hs : s.core = .variant names) {gs : Glyphs} {d : Datum}
    (h : Means env s (.string gs) d) : Means env s (.map [(gs, .null)]) d := by
  obtain ⟨n, h⟩ := h
  refine ⟨1, ?_⟩
  rw [decode.eq_def] at h
  simp only [hs] at h
  obtain ⟨i, hi, rfl⟩ := map_eq_ok_iff.mp h
  rw [decode_tagged hs, decodeTagged, hi]
  rfl

theorem exists_forall₂_iff {α β : Type} {P : α → β → Prop} {l : List α} :
    (∃ l', List.Forall₂ P l l') ↔ ∀ a ∈ l, ∃ b, P a b := by
  induction l with
  | nil => exact ⟨fun _ => nofun, fun _ => ⟨[], .nil⟩⟩
  | cons a l ih =>
    rw [List.forall_mem_cons, ← ih]
    constructor
    · rintro ⟨_, _ | ⟨hb, h⟩⟩
      exact ⟨⟨_, hb⟩, _, h⟩
    · rintro ⟨⟨b, hb⟩, l', h⟩
      exact ⟨b :: l', .cons hb h⟩

theorem mem_iff_of_means {s : Schema ρ} {vs : List Node} {ds : List Datum} (h : List.Forall₂ (Means env s) vs ds) (d : Datum) :
    d ∈ ds ↔ ∃ v ∈ vs, Means env s v d := by
  induction h with
  | nil => simp
  | @cons v d' vs ds hd _ ih =>
    have hhead : d = d' ↔ Means env s v d := ⟨fun e => e ▸ hd, fun h => h.unique hd⟩
    rw [List.mem_cons, ih, hhead]
    simp

/-- Items that are the same but for their order and number mean data that are. -/
theorem exists_regrouped {s : Schema ρ} {vs ws : List Node} {ds : List Datum} (h : List.Forall₂ (Means env s) vs ds)
    (hmem : ∀ v, v ∈ vs ↔ v ∈ ws) : ∃ ds', List.Forall₂ (Means env s) ws ds' ∧ ∀ d, d ∈ ds ↔ d ∈ ds' := by
  obtain ⟨ds', h'⟩ := exists_forall₂_iff.mpr fun w hw => exists_forall₂_iff.mp ⟨ds, h⟩ w ((hmem w).mpr hw)
  refine ⟨ds', h', fun d => ?_⟩
  simp only [mem_iff_of_means h, mem_iff_of_means h', hmem]

/-! ## What a change keeps -/

/-- A change keeps what a value means, but for how its sets are listed. -/
theorem Respells.means (hkeys : ∀ r, ((env r).fields.map (·.key)).Nodup) {b : Bool} {s : Schema ρ} {v w : Node}
    (h : Respells env isSet b s v w) : ∀ {d : Datum}, Means env s v d → ∃ d', Means env s w d' ∧ Alike env isSet b s d d' := by
  induction h with
  | @permute b s r ms ms' hs hperm =>
    intro d hd
    refine ⟨d, hd.of_members hs (hkeys r) (fun hnames m hm => hnames m (hperm.mem_iff.mpr hm)) ?_, .refl d⟩
    exact fun f _ d hfilled => hfilled.perm hperm
  | @insert b s r ms ms' key x hs hkey hforeign =>
    intro d hd
    refine ⟨d, hd.of_members hs (hkeys r) (fun hnames => forall_named_insert.mpr ⟨hkey, hnames⟩) ?_, .refl d⟩
    exact fun f hf d hfilled => hfilled.of_valuesOf (valuesOf_insert (string?_ne_of_foreign hforeign hf) ms x ms')
  | @replace b s r ms ms' key x y hs hforeign =>
    intro d hd
    refine ⟨d, hd.of_members hs (hkeys r) ?_ fun f hf d hfilled => hfilled.of_valuesOf ?_, .refl d⟩
    · exact fun hnames => forall_named_insert.mpr (forall_named_insert.mp hnames)
    · have hne := string?_ne_of_foreign hforeign hf
      rw [valuesOf_insert hne, valuesOf_insert hne]
  | @fill b s r ms ms' key x f d hs hf habsent hfallback hx =>
    intro d' hd'
    obtain ⟨hmem, hkey⟩ := mem_and_key_of_fieldOf? hf
    have hsome : key.string?.isSome = true := by
      rw [hkey]
      rfl
    refine ⟨d', hd'.of_members hs (hkeys r) (fun hnames => forall_named_insert.mpr ⟨hsome, hnames⟩) ?_, .refl d'⟩
    intro f' hf' d'' hfilled
    by_cases hown : key.string? = some f'.key
    · -- the field that was not there: what it falls back on is now given
      cases eq_of_key (hkeys r) hmem hf' (Option.some.inj (hkey.symm.trans hown))
      obtain ⟨-, hfallback'⟩ | ⟨v, hv, -⟩ := hfilled
      · cases hfallback.symm.trans hfallback'
        exact (filled_own_iff hkey).mpr ⟨habsent, hx⟩
      · cases habsent.symm.trans hv
    · exact hfilled.of_valuesOf (valuesOf_insert hown ms x ms')
  | @positions b s r ms vs hs hvs =>
    intro d hd
    obtain ⟨-, ds, rfl, hds⟩ := (means_members_iff hs (hkeys r)).mp hd
    exact ⟨_, (means_positions_iff hs).mpr ⟨ds, rfl, inPositions_of_filled hds hvs⟩, .refl _⟩
  | @extend b s r vs x f d hs hf hfallback hx =>
    intro d' hd'
    obtain ⟨ds, rfl, hds⟩ := (means_positions_iff hs).mp hd'
    exact ⟨_, (means_positions_iff hs).mpr ⟨ds, rfl, hds.extend hf hfallback hx⟩, .refl _⟩
  | @tag b s names gs hs =>
    intro d hd
    exact ⟨d, means_tagged hs hd, .refl _⟩
  | @regroup s s' vs ws hs hmem =>
    intro d hd
    obtain ⟨ds, rfl, hds⟩ := (means_list_iff hs).mp hd
    obtain ⟨ds', hds', hsame⟩ := exists_regrouped hds hmem
    exact ⟨_, (means_list_iff hs).mpr ⟨ds', rfl, hds'⟩, .set hs hsame⟩
  | @item b s s' vs i v w hs hi _ ih =>
    intro d hd
    obtain ⟨ds, rfl, hds⟩ := (means_list_iff hs).mp hd
    obtain ⟨d, hd, hv, hset⟩ := exists_item hds hi
    obtain ⟨d', hw, halike⟩ := ih hv
    exact ⟨_, (means_list_iff hs).mpr ⟨_, rfl, hset w d' hw⟩, .item hs hd halike⟩
  | @member b s r ms ms' key f v w hs hf _ ih =>
    intro d hd
    obtain ⟨hnames, ds, rfl, hds⟩ := (means_members_iff hs (hkeys r)).mp hd
    obtain ⟨i, d, hi, hd, hv, hset⟩ := exists_member (hkeys r) hds hf
    obtain ⟨d', hw, halike⟩ := ih hv
    refine ⟨_, (means_members_iff hs (hkeys r)).mpr ⟨?_, _, rfl, hset w d' hw⟩, .field hs hi hd halike⟩
    exact forall_named_insert.mpr (forall_named_insert.mp hnames)
  | @position b s r vs i f v w hs hf hi _ ih =>
    intro d hd
    obtain ⟨ds, rfl, hds⟩ := (means_positions_iff hs).mp hd
    obtain ⟨d, hd, hv, hset⟩ := exists_position hds hf hi
    obtain ⟨d', hw, halike⟩ := ih hv
    exact ⟨_, (means_positions_iff hs).mpr ⟨_, rfl, hset w d' hw⟩, .field hs hf hd halike⟩

end StageRig.Schema
