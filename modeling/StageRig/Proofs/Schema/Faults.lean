/-
  StageRig.Proofs.Schema.Faults — which fault of a value is reported.

  A value may be of the right kind throughout and still be refused: an object in it may lack
  a field, or name one twice (`Typed`). `FirstFault` says by rules which of its faults comes
  first. Faults go in the order of the text, a second member for a field counting where its
  key stands. What is missing counts last, at the end of the object, where the fields go in
  declared order.

  - `decode_of_firstFault`: the fault that comes first is the one that is reported.
  - `means_or_firstFault`: a value of the right kind means something or has a first fault.
  - `decode_typed_error_iff`: so it is refused for its first fault, and for nothing else.
-/

import Mathlib.Data.List.Induction
import Mathlib.Data.List.Nodup
import StageRig.Proofs.Schema.Respelled

namespace StageRig.Schema

open Json

variable {ρ : Type}

/-! ## Members and the fields they name -/

/-- The keys of the fields that members name, in the order of the members. -/
def namedKeys (fields : List (FieldSpec ρ)) (ms : List (Glyphs × Node)) : List String :=
  ms.filterMap fun m => (fieldOf? fields m.1).map (·.key)

section

variable {fields : List (FieldSpec ρ)} {ms : List (Glyphs × Node)} {m : Glyphs × Node} {f : FieldSpec ρ}

@[simp] theorem namedKeys_nil : namedKeys fields [] = [] := rfl

theorem namedKeys_cons_own (h : fieldOf? fields m.1 = some f) (ms : List (Glyphs × Node)) :
    namedKeys fields (m :: ms) = f.key :: namedKeys fields ms := by
  simp [namedKeys, h]

theorem namedKeys_cons_foreign (h : fieldOf? fields m.1 = none) (ms : List (Glyphs × Node)) :
    namedKeys fields (m :: ms) = namedKeys fields ms := by
  simp [namedKeys, h]

theorem namedKeys_append (ms ms' : List (Glyphs × Node)) :
    namedKeys fields (ms ++ ms') = namedKeys fields ms ++ namedKeys fields ms' := List.filterMap_append

theorem string?_of_fieldOf? {key : Glyphs} (h : fieldOf? fields key = some f) : key.string? = some f.key := by
  obtain ⟨name, hname, hfind⟩ := Option.bind_eq_some_iff.mp h
  have hkey := List.find?_some hfind
  rw [hname, of_decide_eq_true hkey]

theorem exists_value_of_isSome {key : Glyphs} (h : key.string?.isSome = true) : ∃ name, key.value = .ok name := by
  cases hvalue : key.value with
  | error e => simp [Glyphs.string?, hvalue, Except.toOption] at h
  | ok name => exact ⟨name, rfl⟩

/-- A field is named as often as there are values for it. -/
theorem length_valuesOf (hkeys : (fields.map (·.key)).Nodup) {i : Nat} (hi : fields[i]? = some f) :
    (valuesOf f.key ms).length = (namedKeys fields ms).count f.key := by
  induction ms with
  | nil => rfl
  | cons m ms ih =>
    by_cases hm : m.1.string? = some f.key
    · rw [valuesOf_cons_own hm, namedKeys_cons_own (fieldOf?_own hkeys hi hm), List.length_cons, List.count_cons_self, ih]
    · rw [valuesOf_cons_other hm, ih]
      cases hf : fieldOf? fields m.1 with
      | none => rw [namedKeys_cons_foreign hf]
      | some f' =>
        have hne : f'.key ≠ f.key := fun h => hm ((string?_of_fieldOf? hf).trans (congrArg some h))
        rw [namedKeys_cons_own hf, List.count_cons_of_ne hne]

theorem valuesOf_eq_nil_iff (hkeys : (fields.map (·.key)).Nodup) {i : Nat} (hi : fields[i]? = some f) :
    valuesOf f.key ms = [] ↔ f.key ∉ namedKeys fields ms := by
  rw [← List.length_eq_zero_iff, length_valuesOf hkeys hi, List.count_eq_zero]

end

/-! ## Values and their first fault -/

section

variable (env : ρ → RecordSpec ρ)

/-- A value of the right kind throughout. Its objects may lack fields, and may name them again. -/
inductive Typed : Schema ρ → Node → Prop
  | plain {s : Schema ρ} {v : Node} {d : Datum} (h : Means env s v d) : Typed s v
  | list {s s' : Schema ρ} {vs : List Node} (hs : s.core = .list s') (h : ∀ v ∈ vs, Typed s' v) : Typed s (.list vs)
  | positions {s : Schema ρ} {r : ρ} {vs : List Node} (hs : s.core = .record r)
      (h : ∀ p ∈ (env r).fields.zip vs, Typed p.1.schema p.2) (hlength : vs.length ≤ (env r).fields.length)
      (hrest : ∀ f ∈ (env r).fields.drop vs.length, f.fallback? ≠ none) : Typed s (.list vs)
  | object {s : Schema ρ} {r : ρ} {ms : List (Glyphs × Node)} (hs : s.core = .record r)
      (hkeys : ∀ m ∈ ms, m.1.string?.isSome = true)
      (h : ∀ m ∈ ms, ∀ f, fieldOf? (env r).fields m.1 = some f → Typed f.schema m.2) : Typed s (.map ms)

/-- Members that are read to the end: no field is named twice, and the values of fields mean something. -/
structure Readable (fields : List (FieldSpec ρ)) (ms : List (Glyphs × Node)) : Prop where
  keys : ∀ m ∈ ms, m.1.string?.isSome = true
  once : (namedKeys fields ms).Nodup
  values : ∀ m ∈ ms, ∀ f, fieldOf? fields m.1 = some f → ∃ d, Means env f.schema m.2 d

/-- The fault of a value that comes first. -/
inductive FirstFault : Schema ρ → Node → DataError → Prop
  | item {s s' : Schema ρ} {before after : List Node} {v : Node} {e : DataError} (hs : s.core = .list s')
      (hbefore : ∀ w ∈ before, ∃ d, Means env s' w d) (hv : FirstFault s' v e) :
      FirstFault s (.list (before ++ v :: after)) e
  | position {s : Schema ρ} {r : ρ} {vs : List Node} {before after : List (FieldSpec ρ × Node)} {f : FieldSpec ρ}
      {v : Node} {e : DataError} (hs : s.core = .record r) (hvs : (env r).fields.zip vs = before ++ (f, v) :: after)
      (hbefore : ∀ p ∈ before, ∃ d, Means env p.1.schema p.2 d) (hv : FirstFault f.schema v e) :
      FirstFault s (.list vs) e
  /-- A field is named again, whatever the value and whatever is missing. -/
  | repeated {s : Schema ρ} {r : ρ} {before after : List (Glyphs × Node)} {key : Glyphs} {v : Node} {f : FieldSpec ρ}
      (hs : s.core = .record r) (hbefore : Readable env (env r).fields before) (hf : fieldOf? (env r).fields key = some f)
      (hnamed : f.key ∈ namedKeys (env r).fields before) :
      FirstFault s (.map (before ++ (key, v) :: after)) (.duplicateField f.key)
  | member {s : Schema ρ} {r : ρ} {before after : List (Glyphs × Node)} {key : Glyphs} {v : Node} {f : FieldSpec ρ}
      {e : DataError} (hs : s.core = .record r) (hbefore : Readable env (env r).fields before)
      (hf : fieldOf? (env r).fields key = some f) (hnew : f.key ∉ namedKeys (env r).fields before)
      (hv : FirstFault f.schema v e) : FirstFault s (.map (before ++ (key, v) :: after)) e
  /-- Nothing is wrong with the members, and of the fields that they do not name this is the first to be needed. -/
  | missing {s : Schema ρ} {r : ρ} {ms : List (Glyphs × Node)} {before after : List (FieldSpec ρ)} {f : FieldSpec ρ}
      (hs : s.core = .record r) (hms : Readable env (env r).fields ms) (hfields : (env r).fields = before ++ f :: after)
      (hbefore : ∀ g ∈ before, g.key ∈ namedKeys (env r).fields ms ∨ g.fallback? ≠ none)
      (hneeded : f.fallback? = none) (habsent : f.key ∉ namedKeys (env r).fields ms) :
      FirstFault s (.map ms) (.missingField f.key)

end

variable {env : ρ → RecordSpec ρ} {n : Nat} {s : Schema ρ} {v : Node} {e : DataError}

/-! ## The first fault is reported -/

theorem typedNesting_le_itemsNesting {vs : List Node} (h : v ∈ vs) : typedNesting env s v ≤ itemsNesting env s vs := by
  induction vs with
  | nil => cases h
  | cons w vs ih =>
    rw [itemsNesting]
    rcases List.mem_cons.mp h with rfl | h
    · exact Nat.le_max_left _ _
    · exact (ih h).trans (Nat.le_max_right _ _)

theorem typedNesting_le_positionsNesting {fields : List (FieldSpec ρ)} {vs : List Node} {p : FieldSpec ρ × Node}
    (h : p ∈ fields.zip vs) : typedNesting env p.1.schema p.2 ≤ positionsNesting env fields vs := by
  induction fields generalizing vs with
  | nil => simp at h
  | cons f fs ih =>
    cases vs with
    | nil => simp at h
    | cons v vs =>
      rw [positionsNesting]
      rcases List.mem_cons.mp h with rfl | h
      · exact Nat.le_max_left _ _
      · exact (ih h).trans (Nat.le_max_right _ _)

theorem typedNesting_le_of_fieldOf? {fields : List (FieldSpec ρ)} {ms : List (Glyphs × Node)} {m : Glyphs × Node}
    (hm : m ∈ ms) {f : FieldSpec ρ} (hf : fieldOf? fields m.1 = some f) :
    typedNesting env f.schema m.2 ≤ membersNesting env fields ms := by
  induction ms with
  | nil => cases hm
  | cons m' ms ih =>
    rw [membersNesting]
    rcases List.mem_cons.mp hm with rfl | hm
    · rw [hf]
      exact Nat.le_max_left _ _
    · cases fieldOf? fields m'.1 with
      | none => exact ih hm
      | some f' => exact (ih hm).trans (Nat.le_max_right _ _)

theorem decodeItems_of_first {before after : List Node} (hbefore : ∀ w ∈ before, ∃ d, decode env n s w = .ok d)
    (hv : decode env n s v = .error (.data e)) : decodeItems env n s (before ++ v :: after) = .error (.data e) := by
  induction before with
  | nil =>
    rw [List.nil_append, decodeItems, hv]
    rfl
  | cons w before ih =>
    obtain ⟨⟨d, hd⟩, hbefore⟩ := List.forall_mem_cons.mp hbefore
    rw [List.cons_append, decodeItems, hd, ih hbefore]
    rfl

theorem decodePositions_of_first {spec : RecordSpec ρ} {i : Nat} {fields : List (FieldSpec ρ)} {vs : List Node}
    {before after : List (FieldSpec ρ × Node)} {f : FieldSpec ρ} (hvs : fields.zip vs = before ++ (f, v) :: after)
    (hbefore : ∀ p ∈ before, ∃ d, decode env n p.1.schema p.2 = .ok d) (hv : decode env n f.schema v = .error (.data e)) :
    decodePositions env n spec i fields vs = .error (.data e) := by
  induction before generalizing i fields vs with
  | nil =>
    cases fields with
    | nil => cases hvs
    | cons f' fs =>
      cases vs with
      | nil => cases hvs
      | cons v' vs =>
        cases (List.cons.inj hvs).1
        rw [decodePositions, hv]
        rfl
  | cons p before ih =>
    cases fields with
    | nil => cases hvs
    | cons f' fs =>
      cases vs with
      | nil => cases hvs
      | cons v' vs =>
        obtain ⟨rfl, htail⟩ := List.cons.inj hvs
        obtain ⟨⟨d, hd⟩, hbefore⟩ := List.forall_mem_cons.mp hbefore
        rw [decodePositions, hd]
        simp only [bind, Except.bind, ih htail hbefore]

/-- The values that were read are those of the fields with certain keys. -/
def Holds (fields : List (FieldSpec ρ)) (values : List (Option Datum)) (keys : List String) : Prop :=
  ∀ (i : Nat) (f : FieldSpec ρ), fields[i]? = some f → i < values.length ∧ ((values[i]?.join).isSome = true ↔ f.key ∈ keys)

theorem holds_none (fields : List (FieldSpec ρ)) : Holds fields (fields.map fun _ => none) [] := by
  intro i f hi
  rw [List.length_map, List.getElem?_map, hi]
  exact ⟨(List.getElem?_eq_some_iff.mp hi).1, by simp⟩

theorem Holds.set {fields : List (FieldSpec ρ)} {values : List (Option Datum)} {keys : List String} (h : Holds fields values keys)
    (hkeys : (fields.map (·.key)).Nodup) {i : Nat} {f : FieldSpec ρ} (hi : fields[i]? = some f) (d : Datum) :
    Holds fields (values.set i (some d)) (keys ++ [f.key]) := by
  intro j g hj
  obtain ⟨hlt, hg⟩ := h j g hj
  refine ⟨by rwa [List.length_set], ?_⟩
  rw [List.mem_append, List.mem_singleton]
  by_cases hji : j = i
  · subst hji
    cases hi.symm.trans hj
    simp [hlt]
  · have hne : g.key ≠ f.key := fun h => hji (eq_index_of_key hkeys hj hi h)
    rw [List.getElem?_set_ne (Ne.symm hji), hg]
    simp [hne]

/-- Readable members are read, whatever follows them. -/
theorem decodeMembers_append {fields : List (FieldSpec ρ)} (hkeys : (fields.map (·.key)).Nodup)
    {before : List (Glyphs × Node)} (hbefore : Readable env fields before) (hroom : membersNesting env fields before ≤ n)
    {values : List (Option Datum)} {keys : List String} (hvalues : Holds fields values keys)
    (hnew : ∀ key ∈ namedKeys fields before, key ∉ keys) :
    ∃ values', Holds fields values' (keys ++ namedKeys fields before) ∧
      ∀ after, decodeMembers env n fields values (before ++ after) = decodeMembers env n fields values' after := by
  induction before generalizing values keys with
  | nil => exact ⟨values, by simpa using hvalues, fun after => rfl⟩
  | cons m before ih =>
    obtain ⟨hkey, hall⟩ := List.forall_mem_cons.mp hbefore.keys
    obtain ⟨hvalue, hvals⟩ := List.forall_mem_cons.mp hbefore.values
    obtain ⟨name, hname⟩ := exists_value_of_isSome hkey
    have hfind : fieldOf? fields m.1 = fields.find? (·.key = String.ofList name) := find?_of_fieldOf? hname
    rw [membersNesting] at hroom
    cases hf : fieldOf? fields m.1 with
    | none =>
      simp only [hf] at hroom
      have hnames := namedKeys_cons_foreign hf before
      rw [hnames] at hnew ⊢
      obtain ⟨values', hvalues', hrest⟩ := ih ⟨hall, hnames ▸ hbefore.once, hvals⟩ hroom hvalues hnew
      refine ⟨values', hvalues', fun after => ?_⟩
      rw [List.cons_append, decodeMembers, hname]
      simp only [bind, Except.bind]
      rw [onMember_foreign (hfind.symm.trans hf), hrest]
    | some f =>
      simp only [hf, Nat.max_le] at hroom
      have hnames := namedKeys_cons_own hf before
      rw [hnames] at hnew ⊢
      obtain ⟨hfirst, honce⟩ := List.nodup_cons.mp (hnames ▸ hbefore.once)
      obtain ⟨hfree, hnew⟩ := List.forall_mem_cons.mp hnew
      obtain ⟨d, hd⟩ := hvalue f hf
      obtain ⟨i, hi, hown⟩ := exists_onMember_own (hfind.symm.trans hf)
      -- none of the others names this field again
      have hnew' : ∀ key ∈ namedKeys fields before, key ∉ keys ++ [f.key] := by
        intro key hmem
        rw [List.mem_append, List.mem_singleton, not_or]
        refine ⟨hnew key hmem, ?_⟩
        rintro rfl
        exact hfirst hmem
      obtain ⟨values', hvalues', hrest⟩ := ih ⟨hall, honce, hvals⟩ hroom.2 (hvalues.set hkeys hi d) hnew'
      refine ⟨values', by simpa using hvalues', fun after => ?_⟩
      rw [List.cons_append, decodeMembers, hname]
      simp only [bind, Except.bind]
      rw [hown, if_neg (mt (hvalues i f hi).2.mp hfree), decode_eq_ok_iff.mpr ⟨hd, hroom.1⟩]
      exact hrest after

/-- The first field that is needed and was not read is missing. -/
theorem complete_of_first {fields before after : List (FieldSpec ρ)} {f : FieldSpec ρ} {values : List (Option Datum)}
    {keys : List String} (hvalues : Holds fields values keys) (hfields : fields = before ++ f :: after)
    (hbefore : ∀ g ∈ before, g.key ∈ keys ∨ g.fallback? ≠ none) (hneeded : f.fallback? = none) (habsent : f.key ∉ keys) :
    complete fields values = .error (.data (.missingField f.key)) := by
  induction before generalizing fields values with
  | nil =>
    subst hfields
    have hnone : values[0]?.join = none := by
      have := mt (hvalues 0 f rfl).2.mp habsent
      simpa using this
    rw [List.nil_append, complete, List.head?_eq_getElem?, hnone, hneeded]
  | cons g before ih =>
    subst hfields
    obtain ⟨hg, hbefore⟩ := List.forall_mem_cons.mp hbefore
    have htail : Holds (before ++ f :: after) values.tail keys := by
      intro i h hi
      obtain ⟨hlt, hiff⟩ := hvalues (i + 1) h (by rwa [List.cons_append, List.getElem?_cons_succ])
      rw [List.length_tail, List.getElem?_tail]
      exact ⟨by omega, hiff⟩
    have hrest := ih htail rfl hbefore
    rw [List.cons_append, complete, List.head?_eq_getElem?]
    cases hvalue : values[0]?.join with
    | some d =>
      simp only [hrest]
      rfl
    | none =>
      have hkey : g.key ∉ keys := by
        intro hmem
        have := (hvalues 0 g rfl).2.mpr hmem
        simp [hvalue] at this
      obtain ⟨d, hd⟩ := Option.ne_none_iff_exists'.mp (hg.resolve_left hkey)
      simp only [hd, hrest]
      rfl

/-- A container that is typed leaves room for what is in it. -/
theorem exists_room {m : Nat} (h : m + 1 ≤ n) : ∃ k, n = k + 1 ∧ m ≤ k := ⟨n - 1, by omega, by omega⟩

theorem membersNesting_append (fields : List (FieldSpec ρ)) (ms ms' : List (Glyphs × Node)) :
    membersNesting env fields (ms ++ ms') = max (membersNesting env fields ms) (membersNesting env fields ms') := by
  induction ms with
  | nil => simp [membersNesting]
  | cons m ms ih =>
    rw [List.cons_append, membersNesting, membersNesting, ih]
    cases fieldOf? fields m.1 with
    | none => rfl
    | some f => exact (Nat.max_assoc _ _ _).symm

/-- Behind readable members the next one is looked at with their fields read. -/
theorem decode_readable (hkeys : ∀ r, ((env r).fields.map (·.key)).Nodup) {r : ρ} (hs : s.core = .record r)
    {before after : List (Glyphs × Node)} (hbefore : Readable env (env r).fields before)
    (hroom : typedNesting env s (.map (before ++ after)) ≤ n) :
    ∃ k values, n = k + 1 ∧ membersNesting env (env r).fields after ≤ k ∧
      Holds (env r).fields values (namedKeys (env r).fields before) ∧
      decode env n s (.map (before ++ after)) = (decodeMembers env k (env r).fields values after).map .record := by
  simp only [typedNesting, hs, membersNesting_append] at hroom
  obtain ⟨k, rfl, hk⟩ := exists_room hroom
  obtain ⟨hmembers, hrest⟩ := Nat.max_le.mp hk
  obtain ⟨values, hvalues, hafter⟩ :=
    decodeMembers_append (hkeys r) hbefore hmembers (holds_none _) fun _ _ => List.not_mem_nil
  exact ⟨k, values, rfl, hrest, hvalues, by rw [decode_members hs, hafter]⟩

/-- The fault that comes first is the one that is reported. -/
theorem decode_of_firstFault (hkeys : ∀ r, ((env r).fields.map (·.key)).Nodup) (h : FirstFault env s v e)
    (hroom : typedNesting env s v ≤ n) : decode env n s v = .error (.data e) := by
  induction h generalizing n with
  | @item s s' before after v e hs hbefore hv ih =>
    simp only [typedNesting, hs] at hroom
    obtain ⟨k, rfl, hk⟩ := exists_room hroom
    have hitem : ∀ w ∈ before ++ v :: after, typedNesting env s' w ≤ k :=
      fun w hw => (typedNesting_le_itemsNesting hw).trans hk
    have hread : ∀ w ∈ before, ∃ d, decode env k s' w = .ok d := by
      intro w hw
      obtain ⟨d, hd⟩ := hbefore w hw
      exact ⟨d, decode_eq_ok_iff.mpr ⟨hd, hitem w (List.mem_append_left _ hw)⟩⟩
    rw [decode_list hs, decodeItems_of_first hread (ih (hitem v (by simp)))]
    rfl
  | @position s r vs before after f v e hs hvs hbefore hv ih =>
    simp only [typedNesting, hs] at hroom
    obtain ⟨k, rfl, hk⟩ := exists_room hroom
    have hposition : ∀ p ∈ before ++ (f, v) :: after, typedNesting env p.1.schema p.2 ≤ k :=
      fun p hp => (typedNesting_le_positionsNesting (hvs ▸ hp)).trans hk
    have hread : ∀ p ∈ before, ∃ d, decode env k p.1.schema p.2 = .ok d := by
      intro p hp
      obtain ⟨d, hd⟩ := hbefore p hp
      exact ⟨d, decode_eq_ok_iff.mpr ⟨hd, hposition p (List.mem_append_left _ hp)⟩⟩
    rw [decode_positions hs, decodePositions_of_first hvs hread (ih (hposition (f, v) (by simp)))]
    rfl
  | @repeated s r before after key v f hs hbefore hf hnamed =>
    obtain ⟨k, values, rfl, -, hvalues, hdecode⟩ := decode_readable hkeys hs hbefore hroom
    obtain ⟨name, hname⟩ := exists_value_of_isSome (by rw [string?_of_fieldOf? hf, Option.isSome_some])
    obtain ⟨i, hi, hown⟩ := exists_onMember_own ((find?_of_fieldOf? hname).symm.trans hf)
    rw [hdecode, decodeMembers, hname]
    simp only [bind, Except.bind]
    rw [hown, if_pos ((hvalues i f hi).2.mpr hnamed)]
    rfl
  | @member s r before after key v f e hs hbefore hf hnew hv ih =>
    obtain ⟨k, values, rfl, hrest, hvalues, hdecode⟩ := decode_readable hkeys hs hbefore hroom
    obtain ⟨name, hname⟩ := exists_value_of_isSome (by rw [string?_of_fieldOf? hf, Option.isSome_some])
    obtain ⟨i, hi, hown⟩ := exists_onMember_own ((find?_of_fieldOf? hname).symm.trans hf)
    have hvroom : typedNesting env f.schema v ≤ k := (typedNesting_le_of_fieldOf? (List.mem_cons_self) hf).trans hrest
    rw [hdecode, decodeMembers, hname]
    simp only [bind, Except.bind]
    rw [hown, if_neg (mt (hvalues i f hi).2.mp hnew), ih hvroom]
    rfl
  | @missing s r ms before after f hs hms hfields hbefore hneeded habsent =>
    rw [← List.append_nil ms] at hroom ⊢
    obtain ⟨k, values, rfl, -, hvalues, hdecode⟩ := decode_readable hkeys hs hms hroom
    rw [hdecode, decodeMembers, complete_of_first hvalues hfields hbefore hneeded habsent]
    rfl

/-! ## Every fault is one of these -/

/-- In a list with something in it, something comes first. -/
theorem all_or_first {α : Type} {P Q : α → Prop} {l : List α} (h : ∀ a ∈ l, P a ∨ Q a) :
    (∀ a ∈ l, P a) ∨ ∃ before a after, l = before ++ a :: after ∧ (∀ b ∈ before, P b) ∧ Q a := by
  induction l with
  | nil => exact Or.inl fun _ h => absurd h List.not_mem_nil
  | cons a l ih =>
    obtain ⟨ha, hl⟩ := List.forall_mem_cons.mp h
    rcases ha with ha | ha
    · rcases ih hl with hall | ⟨before, b, after, rfl, hbefore, hb⟩
      · exact Or.inl (List.forall_mem_cons.mpr ⟨ha, hall⟩)
      · exact Or.inr ⟨a :: before, b, after, rfl, List.forall_mem_cons.mpr ⟨ha, hbefore⟩, hb⟩
    · exact Or.inr ⟨[], a, l, rfl, fun _ h => absurd h List.not_mem_nil, ha⟩

theorem exists_inPositions {fields : List (FieldSpec ρ)} {vs : List Node}
    (h : ∀ p ∈ fields.zip vs, ∃ d, Means env p.1.schema p.2 d) (hlength : vs.length ≤ fields.length)
    (hrest : ∀ f ∈ fields.drop vs.length, f.fallback? ≠ none) : ∃ ds, InPositions (Means env) fields vs ds := by
  induction fields generalizing vs with
  | nil =>
    cases List.length_eq_zero_iff.mp (Nat.le_zero.mp hlength)
    exact ⟨[], .nil⟩
  | cons f fs ih =>
    cases vs with
    | nil =>
      obtain ⟨hf, hrest⟩ := List.forall_mem_cons.mp hrest
      obtain ⟨d, hd⟩ := Option.ne_none_iff_exists'.mp hf
      have hnone : ∀ p ∈ fs.zip [], ∃ d, Means env p.1.schema p.2 d := by simp
      obtain ⟨ds, hds⟩ := ih hnone (Nat.zero_le _) hrest
      exact ⟨d :: ds, .fallBack hd hds⟩
    | cons v vs =>
      obtain ⟨⟨d, hd⟩, h⟩ := List.forall_mem_cons.mp h
      obtain ⟨ds, hds⟩ := ih h (Nat.le_of_succ_le_succ hlength) hrest
      exact ⟨d :: ds, .given hd hds⟩

/-- Members that are not read to the end stop at one of them. -/
theorem readable_or_first {fields : List (FieldSpec ρ)} {ms : List (Glyphs × Node)} {Q : FieldSpec ρ → Node → Prop}
    (hkeys : ∀ m ∈ ms, m.1.string?.isSome = true)
    (h : ∀ m ∈ ms, ∀ f, fieldOf? fields m.1 = some f → (∃ d, Means env f.schema m.2 d) ∨ Q f m.2) :
    Readable env fields ms ∨ ∃ before m after f, ms = before ++ m :: after ∧ Readable env fields before ∧
      fieldOf? fields m.1 = some f ∧ (f.key ∈ namedKeys fields before ∨ f.key ∉ namedKeys fields before ∧ Q f m.2) := by
  -- from the end, since what counts for a member are the fields that are named in front of it
  induction ms using List.reverseRecOn with
  | nil => exact Or.inl ⟨by simp, .nil, by simp⟩
  | append_singleton ms m ih =>
    obtain ⟨hkeys, hkey⟩ := List.forall_mem_append.mp hkeys
    obtain ⟨h, hm⟩ := List.forall_mem_append.mp h
    rw [List.forall_mem_singleton] at hkey hm
    rcases ih hkeys h with hms | ⟨before, m', after, f, rfl, hbefore⟩
    · have hlonger : (namedKeys fields (ms ++ [m])).Nodup →
          (∀ f, fieldOf? fields m.1 = some f → ∃ d, Means env f.schema m.2 d) → Readable env fields (ms ++ [m]) :=
        fun honce hvalue => ⟨List.forall_mem_append.mpr ⟨hms.keys, by simpa using hkey⟩, honce,
          List.forall_mem_append.mpr ⟨hms.values, by simpa using hvalue⟩⟩
      cases hf : fieldOf? fields m.1 with
      | none =>
        refine Or.inl (hlonger ?_ (by simp [hf]))
        rw [namedKeys_append, namedKeys_cons_foreign hf, namedKeys_nil, List.append_nil]
        exact hms.once
      | some f =>
        by_cases hnamed : f.key ∈ namedKeys fields ms
        · exact Or.inr ⟨ms, m, [], f, rfl, hms, hf, Or.inl hnamed⟩
        · rcases hm f hf with hvalue | hfault
          · refine Or.inl (hlonger ?_ (by simpa [hf] using hvalue))
            rw [namedKeys_append, namedKeys_cons_own hf, namedKeys_nil, ← List.concat_eq_append, List.nodup_concat]
            exact ⟨hnamed, hms.once⟩
          · exact Or.inr ⟨ms, m, [], f, rfl, hms, hf, Or.inr ⟨hnamed, hfault⟩⟩
    · exact Or.inr ⟨before, m', after ++ [m], f, by simp, hbefore⟩

/-- Readable members fill the fields, where those that are not named fall back. -/
theorem Readable.exists_filled {fields : List (FieldSpec ρ)} {ms : List (Glyphs × Node)} (h : Readable env fields ms)
    (hkeys : (fields.map (·.key)).Nodup) (hrest : ∀ f ∈ fields, f.key ∈ namedKeys fields ms ∨ f.fallback? ≠ none) :
    ∀ f ∈ fields, ∃ d, Filled (Means env) ms f d := by
  intro f hf
  obtain ⟨i, hi⟩ := List.mem_iff_getElem?.mp hf
  by_cases hnamed : f.key ∈ namedKeys fields ms
  · have hone : (valuesOf f.key ms).length = 1 :=
      (length_valuesOf hkeys hi).trans (List.count_eq_one_of_mem h.once hnamed)
    obtain ⟨v, hv⟩ := List.length_eq_one_iff.mp hone
    have hmem : v ∈ valuesOf f.key ms := by simp [hv]
    obtain ⟨m, hm, rfl⟩ := List.mem_map.mp hmem
    obtain ⟨hm, hkey⟩ := List.mem_filter.mp hm
    obtain ⟨d, hd⟩ := h.values m hm f (fieldOf?_own hkeys hi (of_decide_eq_true hkey))
    exact ⟨d, Or.inr ⟨m.2, hv, hd⟩⟩
  · obtain ⟨d, hd⟩ := Option.ne_none_iff_exists'.mp ((hrest f hf).resolve_left hnamed)
    exact ⟨d, Or.inl ⟨(valuesOf_eq_nil_iff hkeys hi).mpr hnamed, hd⟩⟩

theorem Typed.keys {r : ρ} (h : Typed env s v) (hs : s.core = .record r) (hkeys : ((env r).fields.map (·.key)).Nodup)
    {ms : List (Glyphs × Node)} (hv : v = .map ms) : ∀ m ∈ ms, m.1.string?.isSome = true := by
  cases h with
  | plain h =>
    subst hv
    exact ((means_members_iff hs hkeys).mp h).1
  | list _ _ => cases hv
  | positions _ _ _ _ => cases hv
  | object _ hall _ =>
    cases hv
    exact hall

/-- A value of the right kind throughout means something, or one of its faults comes first. -/
theorem means_or_firstFault (hkeys : ∀ r, ((env r).fields.map (·.key)).Nodup) (h : Typed env s v) :
    (∃ d, Means env s v d) ∨ ∃ e, FirstFault env s v e := by
  induction h with
  | @plain s v d h => exact Or.inl ⟨d, h⟩
  | @list s s' vs hs _ ih =>
    rcases all_or_first ih with hall | ⟨before, v, after, rfl, hbefore, e, he⟩
    · obtain ⟨ds, hds⟩ := exists_forall₂_iff.mpr hall
      exact Or.inl ⟨.list ds, (means_list_iff hs).mpr ⟨ds, rfl, hds⟩⟩
    · exact Or.inr ⟨e, .item hs hbefore he⟩
  | @positions s r vs hs _ hlength hrest ih =>
    rcases all_or_first ih with hall | ⟨before, p, after, hvs, hbefore, e, he⟩
    · obtain ⟨ds, hds⟩ := exists_inPositions hall hlength hrest
      exact Or.inl ⟨.record ds, (means_positions_iff hs).mpr ⟨ds, rfl, hds⟩⟩
    · exact Or.inr ⟨e, .position hs hvs hbefore he⟩
  | @object s r ms hs hall _ ih =>
    rcases readable_or_first (Q := fun f v => ∃ e, FirstFault env f.schema v e) hall ih with
      hms | ⟨before, m, after, f, rfl, hbefore, hf, hnamed | ⟨hnew, e, he⟩⟩
    · have hfields : ∀ f ∈ (env r).fields, (f.key ∈ namedKeys (env r).fields ms ∨ f.fallback? ≠ none) ∨
          f.fallback? = none ∧ f.key ∉ namedKeys (env r).fields ms := fun f _ => by tauto
      rcases all_or_first hfields with hrest | ⟨before, f, after, hsplit, hbefore, hneeded, habsent⟩
      · obtain ⟨ds, hds⟩ := exists_forall₂_iff.mpr (hms.exists_filled (hkeys r) hrest)
        exact Or.inl ⟨.record ds, (means_members_iff hs (hkeys r)).mpr ⟨hall, ds, rfl, hds⟩⟩
      · exact Or.inr ⟨.missingField f.key, .missing hs hms hsplit hbefore hneeded habsent⟩
    · exact Or.inr ⟨.duplicateField f.key, .repeated hs hbefore hf hnamed⟩
    · exact Or.inr ⟨e, .member hs hbefore hf hnew he⟩

/-- A value of the right kind throughout is refused for its first fault, and for nothing else. -/
theorem decode_typed_error_iff (hkeys : ∀ r, ((env r).fields.map (·.key)).Nodup) (h : Typed env s v)
    (hroom : typedNesting env s v ≤ n) {fault : LoadError} :
    decode env n s v = .error fault ↔ ∃ e, fault = .data e ∧ FirstFault env s v e := by
  constructor
  · intro hfault
    rcases means_or_firstFault hkeys h with ⟨d, hd⟩ | ⟨e, he⟩
    · cases hfault.symm.trans (decode_eq_ok_iff.mpr ⟨hd, hroom⟩)
    · cases hfault.symm.trans (decode_of_firstFault hkeys he hroom)
      exact ⟨e, rfl, he⟩
  · intro hfault
    obtain ⟨e, rfl, he⟩ := hfault
    exact decode_of_firstFault hkeys he hroom

end StageRig.Schema
