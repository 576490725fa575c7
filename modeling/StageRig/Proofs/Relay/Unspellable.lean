/-
  StageRig.Proofs.Relay.Unspellable — why a relay has no source.

  Writing a relay spells one type after another: for each variable, in order, those of
  the members of every struct that it brings in, and then its own. `slotQueries` is the
  list of what is spelled, in that order. The structs are those of the walk
  `structsOf`: a name that was entered before brings in nothing, and what a member brings
  in comes before the member itself.

  - `Unspellable`: the three kinds of types without a spelling, each with its error. A
    named description is never one of them, whatever is inside it.
  - `declare_failsAlong`, `writeSlots_failsAlong`: each part of the writing fails as its
    own part of the list does.
  - `source_fails_at_first_unspellable`: a relay has no source exactly when something in
    the list has no spelling, and the first such entry gives the error.
-/

import StageRig.Proofs.Glsl.Spelling
import StageRig.Proofs.Relay.Outline

namespace StageRig.Relay

open Glsl

/-! ## What is spelled -/

/-- A type to be spelled. -/
inductive Query where
  /-- What a description stands for, where `format` decides if the description does not. -/
  | described (head : TypeHead) (format : Format)
  /-- What a variable without a description is. -/
  | bare (format : Format)
  deriving DecidableEq, Repr

def Query.spell : Query → Except SpellError String
  | described head format => head.spell format
  | bare format =>
    match format.type? with
    | some ty => .ok ty.spelling
    | none => .error (.unsupported .other)

/-- The type of a variable itself. -/
def slotQuery (slot : Slot) : Query :=
  match slot.type? with
  | none => .bare slot.format
  | some t => .described t.head slot.format

mutual

/-- What is spelled to declare the structs of a description, where the names `entered` were entered before. -/
def queriesOf : TypeTree → List String → List Query
  | .node head members, entered =>
    match head.structName? with
    | none => []
    | some name => if name ∈ entered then [] else queriesOfAll members (name :: entered)

/-- The members of a struct: each after what it brings in, with the format of its scalar. -/
def queriesOfAll : List TypeTree → List String → List Query
  | [], _ => []
  | member :: rest, entered =>
    queriesOf member entered ++ .described member.head member.head.scalar.format ::
      queriesOfAll rest (structsOf member entered).2

end

/-- Everything that is spelled for a list of variables, in order. -/
def slotQueries : List Slot → List String → List Query
  | [], _ => []
  | slot :: rest, entered =>
    match slot.type? with
    | none => slotQuery slot :: slotQueries rest entered
    | some t => queriesOf t entered ++ slotQuery slot :: slotQueries rest (structsOf t entered).2

/-! ## What has no spelling -/

inductive Unspellable : Query → SpellError → Prop
  /-- Of a variable without a description nothing is known but its format. -/
  | bare : Unspellable (.bare .undefined) (.unsupported .other)
  | kind {head : TypeHead} {format : Format} : head.structName? = none → head.shape = .struct ∨ head.shape = .other →
      Unspellable (.described head format) (.unsupported head.shape)
  /-- An array that records no matrix and no vector has a scalar element, which only the format tells. -/
  | element {head : TypeHead} : head.structName? = none → head.shape = .array →
      ¬ (0 < head.matrix.columns ∧ 0 < head.matrix.rows) → head.vectorSize = 0 →
      Unspellable (.described head .undefined) (.unknownElement .undefined)

/-- `e` is the error of the first of the queries that has no spelling. -/
def FirstUnspellable (queries : List Query) (e : SpellError) : Prop :=
  ∃ before q after, queries = before ++ q :: after ∧ (∀ p ∈ before, ∀ e', ¬ Unspellable p e') ∧ Unspellable q e

theorem elementType_error_iff {head : TypeHead} {format : Format} {e : SpellError} :
    head.elementType format = .error e ↔
      ¬ (0 < head.matrix.columns ∧ 0 < head.matrix.rows) ∧ head.vectorSize = 0 ∧ format = .undefined ∧
        e = .unknownElement .undefined := by
  rw [TypeHead.elementType]
  by_cases hmatrix : 0 < head.matrix.columns ∧ 0 < head.matrix.rows
  · simp [hmatrix]
  · by_cases hvector : 0 < head.vectorSize
    · have hne : head.vectorSize ≠ 0 := UInt32.pos_iff_ne_zero.mp hvector
      simp [hmatrix, hvector, hne]
    · have hzero : head.vectorSize = 0 := by simpa using hvector
      rw [if_neg hmatrix, if_neg hvector]
      cases format with
      | undefined => simp [Format.scalar?, hmatrix, hzero, eq_comm]
      | packed channel more => simp [Format.scalar?]

theorem spell_described_error_iff {head : TypeHead} {format : Format} {e : SpellError} :
    head.spell format = .error e ↔ Unspellable (.described head format) e := by
  rw [TypeHead.spell, map_eq_error_iff, TypeHead.resolve]
  constructor
  · intro h
    cases hname : head.structName? with
    | some name => simp [hname] at h
    | none =>
      cases hshape : head.shape with
      | array =>
        simp only [hname, hshape, elementType_error_iff] at h
        obtain ⟨hmatrix, hvector, rfl, rfl⟩ := h
        exact .element hname hshape hmatrix hvector
      | struct =>
        simp only [hname, hshape, Except.error.injEq] at h
        exact h ▸ hshape ▸ .kind hname (Or.inl hshape)
      | other =>
        simp only [hname, hshape, Except.error.injEq] at h
        exact h ▸ hshape ▸ .kind hname (Or.inr hshape)
      | _ => simp [hname, hshape] at h
  · intro h
    cases h with
    | kind hname hshape => rcases hshape with hshape | hshape <;> simp only [hname, hshape]
    | element hname hshape hmatrix hvector =>
      simp only [hname, hshape]
      exact elementType_error_iff.mpr ⟨hmatrix, hvector, rfl, rfl⟩

theorem format_type?_eq_none_iff {format : Format} : format.type? = none ↔ format = .undefined := by
  rcases format with _ | ⟨channel, _ | more, hmore⟩ <;> simp [Format.type?]

theorem spell_bare_error_iff {format : Format} {e : SpellError} :
    (Query.bare format).spell = .error e ↔ Unspellable (.bare format) e := by
  constructor
  · intro h
    cases htype : format.type? with
    | some ty => simp [Query.spell, htype] at h
    | none =>
      cases format_type?_eq_none_iff.mp htype
      cases h
      exact .bare
  · intro h
    cases h
    rfl

theorem spell_error_iff {q : Query} {e : SpellError} : q.spell = .error e ↔ Unspellable q e := by
  cases q with
  | described head format => exact spell_described_error_iff
  | bare format => exact spell_bare_error_iff

theorem spell_succeeds_iff {q : Query} : (∃ text, q.spell = .ok text) ↔ ∀ e, ¬ Unspellable q e := by
  simp only [← spell_error_iff]
  cases q.spell <;> simp

theorem failsFirst_spell_iff {queries : List Query} {e : SpellError} :
    FailsFirst Query.spell queries e ↔ FirstUnspellable queries e := by
  simp only [FailsFirst, FirstUnspellable, spell_succeeds_iff, spell_error_iff]

/-! ## The writing fails as the list does -/

theorem memberDecl_failsAlong (head : TypeHead) (index : Nat) :
    FailsAlong Query.spell [.described head head.scalar.format] (memberDecl head index) :=
  (FailsAlong.one (f := Query.spell) (.described head head.scalar.format)).map _

-- Where the declarations of a member succeed, the sheet has the names entered that the walk
-- has after it: the list goes on from there.
mutual

theorem declare_failsAlong : ∀ (t : TypeTree) (s : Sheet),
    FailsAlong Query.spell (queriesOf t s.entered) (declare t s).result
  | .node head members, s => by
    rcases hname : head.structName? with _ | name
    · simpa [declare, queriesOf, hname] using .ok s
    · by_cases hin : name ∈ s.entered
      · simpa [declare, queriesOf, hname, hin] using .ok s
      · have ih := declareMembers_failsAlong members 0 { s with entered := name :: s.entered }
        simp only [declare, queriesOf, hname, hin, if_false, Traced.result_bind, Traced.result_note, Traced.result_pure]
        exact ih.bind_ok _

theorem declareMembers_failsAlong : ∀ (ts : List TypeTree) (first : Nat) (s : Sheet),
    FailsAlong Query.spell (queriesOfAll ts s.entered) (declareMembers ts first s).result
  | [], _, _ => .ok _
  | t :: rest, first, s => by
    simp only [declareMembers, queriesOfAll, Traced.result_bind, Traced.result_ofExcept, Traced.result_pure]
    refine (declare_failsAlong t s).bind fun s₁ hs₁ => ?_
    obtain ⟨decls, -, rfl⟩ := (declare_ok_iff t s s₁).mp hs₁
    have ih := declareMembers_failsAlong rest (first + 1) (s.withStructs decls (structsOf t s.entered).2)
    rw [withStructs_entered] at ih
    exact (memberDecl_failsAlong t.head first).bind fun _ _ => ih.bind_ok _

end

theorem slotDecl_failsAlong (r : Relay) (tested : Stage) (n : Nat) (slot : Slot) :
    FailsAlong Query.spell [slotQuery slot] (slotDecl r tested n slot) := by
  have htype : slotType slot = (slotQuery slot).spell := by
    rw [slotType, slotQuery]
    cases slot.type? <;> rfl
  rw [slotDecl, htype]
  exact (FailsAlong.one (slotQuery slot)).map _

theorem writeSlots_failsAlong (r : Relay) (tested : Stage) (slots : List Slot) (earlier : List UInt32) (s : Sheet) :
    FailsAlong Query.spell (slotQueries slots s.entered) (writeSlots r tested slots earlier s).result := by
  induction slots generalizing earlier s with
  | nil => exact .ok s
  | cons slot rest ih =>
    have hdecl := slotDecl_failsAlong r tested (earlier.count slot.location) slot
    rcases htype : slot.type? with _ | t
    · simp only [writeSlots, slotQueries, htype, Traced.result_bind, Traced.result_ofExcept, Traced.result_pure]
      exact hdecl.bind fun d _ => ih (slot.location :: earlier) { s with draft := s.draft.pushLine d.text }
    · simp only [writeSlots, slotQueries, htype, Traced.result_bind, Traced.result_ofExcept]
      refine (declare_failsAlong t s).bind fun s₁ hs₁ => ?_
      obtain ⟨decls, -, rfl⟩ := (declare_ok_iff t s s₁).mp hs₁
      exact hdecl.bind fun _ _ => ih (slot.location :: earlier) _

theorem source_failsAlong (r : Relay) (tested : Stage) (slots : List Slot) :
    FailsAlong Query.spell (slotQueries slots []) (r.source tested slots).result := by
  have hwrite := writeSlots_failsAlong r tested slots [] r.opening
  rw [show r.opening.entered = [] by rw [opening_eq]] at hwrite
  simp only [source, Traced.result_bind, Traced.result_note, Traced.result_pure]
  exact hwrite.bind_ok _

theorem source_fails_at_first_unspellable (r : Relay) (tested : Stage) (slots : List Slot) :
    ((∃ e, (r.source tested slots).result = .error e) ↔ ∃ q ∈ slotQueries slots [], ∃ e, Unspellable q e) ∧
      (∀ e, (r.source tested slots).result = .error e ↔ FirstUnspellable (slotQueries slots []) e) ∧
      ∀ (head : TypeHead) (format : Format) (name : String), head.structName? = some name →
        head.spell format = .ok name := by
  have h := source_failsAlong r tested slots
  refine ⟨?_, fun e => (h e).trans failsFirst_spell_iff, fun _ format _ hname => spell_of_named hname format⟩
  simp only [h.exists_error_iff, spell_error_iff]

/-- A struct in a struct, each with a member that has no spelling, and a variable of which nothing is known. -/
def socket : TypeTree :=
  .node { typeName? := some "Socket", memberName? := some "socket", shape := .struct }
    [ .node { memberName? := some "power", shape := .float } [],
      .node { memberName? := some "pins", shape := .array, dims := [4] } [] ]

def lamp : TypeTree := .node { typeName? := some "Lamp", shape := .struct } [socket, .node { shape := .other } []]

def lamps : List Slot := [{ location := 0, type? := some lamp }, { location := 1 }]

theorem lamps_unspellable :
    (vertex.source .fragment lamps).result = .error (.unknownElement .undefined) ∧
      FirstUnspellable (slotQueries lamps []) (.unknownElement .undefined) ∧
      lamp.structName? = some "Lamp" ∧ lamp.head.spell .undefined = .ok "Lamp" := by
  obtain ⟨_, hfirst, hnamed⟩ := source_fails_at_first_unspellable vertex .fragment lamps
  have hsource : (vertex.source .fragment lamps).result = .error (.unknownElement .undefined) := rfl
  exact ⟨hsource, (hfirst _).mp hsource, rfl, hnamed lamp.head .undefined "Lamp" rfl⟩

end StageRig.Relay
