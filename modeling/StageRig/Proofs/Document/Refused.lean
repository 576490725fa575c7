/-
  StageRig.Proofs.Document.Refused — which documents are refused, and for what.

  An object with members of the right kind is refused for the fault that comes first
  (`load_object`): a field that is named again, where it is named again; and only at the end
  a field that is missing, the first in declared order. What lies deeper comes first where it
  stands.

  A document that was written and then cut is always found to end too early, wherever it was
  cut (`load_truncated`): it is never taken for a smaller one with fields left out.
-/

import StageRig.Proofs.Document.RoundTrip
import StageRig.Proofs.Schema.Faults
import StageRig.Proofs.Schema.Truncated

namespace StageRig

open Json Schema

/-! ## Faults -/

/-- What comes of an object for a record, as long as no more than 127 of the containers that are asked for lie in each
other. Where the values of its fields mean something, it is refused for the first member that names a field again; else for
the first field that is needed and not named; and else it is loaded, what is not named falling back. Where only the kinds
of the values are right, at any depth, it is refused for the fault that comes first, and for nothing else. -/
theorem load_object {α : Type} (c : Codec α) {r : RecordName} (hc : c.schema = .record r) {ms : List (Glyphs × Node)}
    {text : String} (htext : (Node.map ms).SpelledBy text) (htyped : Typed RecordName.spec (.record r) (.map ms))
    (hdepth : typedNesting RecordName.spec (.record r) (.map ms) ≤ 127) :
    ((∀ m ∈ ms, ∀ f, fieldOf? r.spec.fields m.1 = some f → ∃ d, Means RecordName.spec f.schema m.2 d) →
      (∀ before key v after f, ms = before ++ (key, v) :: after → (namedKeys r.spec.fields before).Nodup →
        fieldOf? r.spec.fields key = some f → f.key ∈ namedKeys r.spec.fields before →
        c.load text = .error (.data (.duplicateField f.key))) ∧
      ((namedKeys r.spec.fields ms).Nodup → ∀ before f after, r.spec.fields = before ++ f :: after →
        (∀ g ∈ before, g.key ∈ namedKeys r.spec.fields ms ∨ g.fallback? ≠ none) →
        f.fallback? = none → f.key ∉ namedKeys r.spec.fields ms →
        c.load text = .error (.data (.missingField f.key))) ∧
      ((namedKeys r.spec.fields ms).Nodup →
        (∀ f ∈ r.spec.fields, f.key ∈ namedKeys r.spec.fields ms ∨ f.fallback? ≠ none) →
        ∃ ds, c.load text = .ok (c.ofDatum (.record ds)) ∧
          List.Forall₂ (Filled (Means RecordName.spec) ms) r.spec.fields ds)) ∧
    (∀ fault, c.load text = .error fault ↔ ∃ e, fault = .data e ∧ FirstFault RecordName.spec (.record r) (.map ms) e) ∧
    ∀ a, c.load text = .ok a →
      ∃ ds, a = c.ofDatum (.record ds) ∧ List.Forall₂ (Filled (Means RecordName.spec) ms) r.spec.fields ds := by
  have hload : c.load text = (decode RecordName.spec 127 (.record r) (.map ms)).map c.ofDatum := by
    rw [Codec.load, hc, load_spelled htext]
    rfl
  have herror : ∀ fault, c.load text = .error fault ↔
      ∃ e, fault = .data e ∧ FirstFault RecordName.spec (.record r) (.map ms) e := by
    intro fault
    rw [hload, map_eq_error_iff, decode_typed_error_iff RecordName.nodup_keys htyped hdepth]
  have hok : ∀ a, c.load text = .ok a →
      ∃ ds, a = c.ofDatum (.record ds) ∧ List.Forall₂ (Filled (Means RecordName.spec) ms) r.spec.fields ds := by
    intro a ha
    rw [hload] at ha
    obtain ⟨d, hd, rfl⟩ := map_eq_ok_iff.mp ha
    obtain ⟨-, ds, rfl, hds⟩ := (means_members_iff rfl (RecordName.nodup_keys r)).mp ⟨127, hd⟩
    exact ⟨ds, rfl, hds⟩
  have hkeys : ∀ m ∈ ms, m.1.string?.isSome = true := htyped.keys rfl (RecordName.nodup_keys r) rfl
  refine ⟨fun hvalues => ⟨?_, ?_, ?_⟩, herror, hok⟩
  · intro before key v after f hms honce hf hnamed
    subst hms
    have hbefore : Readable RecordName.spec r.spec.fields before :=
      ⟨fun m hm => hkeys m (List.mem_append_left _ hm), honce, fun m hm => hvalues m (List.mem_append_left _ hm)⟩
    exact (herror _).mpr ⟨_, rfl, .repeated rfl hbefore hf hnamed⟩
  · intro honce before f after hfields hbefore hneeded habsent
    exact (herror _).mpr ⟨_, rfl, .missing rfl ⟨hkeys, honce, hvalues⟩ hfields hbefore hneeded habsent⟩
  · intro honce hrest
    have hms : Readable RecordName.spec r.spec.fields ms := ⟨hkeys, honce, hvalues⟩
    obtain ⟨ds, hds⟩ := exists_forall₂_iff.mpr (hms.exists_filled (RecordName.nodup_keys r) hrest)
    have hmeans : Means RecordName.spec (.record r) (.map ms) (.record ds) :=
      (means_members_iff rfl (RecordName.nodup_keys r)).mpr ⟨hkeys, ds, rfl, hds⟩
    refine ⟨ds, ?_, hds⟩
    rw [hload, decode_eq_ok_iff.mpr ⟨hmeans, hdepth⟩]
    rfl

/-- A type that says twice how its scalars are, the first time with their component twice, and does not say its kind. -/
def twiceScalar : List (Glyphs × Node) :=
  [ (glyphsOf "scalar", .map [(glyphsOf "component", .string (glyphsOf "int")), (glyphsOf "component", .null)]),
    (glyphsOf "scalar", .map []) ]

def twiceScalarText : String :=
  "\x7b\"scalar\": \x7b\"component\": \"int\", \"component\": null\x7d, \"scalar\": \x7b\x7d\x7d"

theorem twiceScalar_refused : (Node.map twiceScalar).SpelledBy twiceScalarText ∧
    Codec.typeTree.load twiceScalarText = .error (.data (.duplicateField "component")) := by
  have hspelled : (Node.map twiceScalar).SpelledBy twiceScalarText := by
    refine ⟨[], ?_, rfl⟩
    simp [twiceScalarText, twiceScalar, Node.Spells, Node.tokens, memberTokens, separator, Glyphs.quoted, Glyphs.text,
      Glyph.text, glyphsOf, glyphOf, skipBlanks, isBlank, List.dropWhile]
  have hint : Means RecordName.spec (.optional .component) (.string (glyphsOf "int")) (.variant 1) := ⟨0, rfl⟩
  have hnull : Means RecordName.spec (.optional .component) .null .absent := ⟨0, rfl⟩
  have hcomponent : fieldOf? (RecordName.spec .scalarTraits).fields (glyphsOf "component") =
      some (.maybe "component" .component) := rfl
  have hscalar : fieldOf? (RecordName.spec .typeTree).fields (glyphsOf "scalar") =
      some (.orElse "scalar" (.record .scalarTraits) (.record [.absent, .number 0, .number 0])) := rfl
  have htyped : Typed RecordName.spec (.record .typeTree) (.map twiceScalar) := by
    refine .object rfl (by decide) (List.forall_mem_cons.mpr ⟨fun f hf => ?_, List.forall_mem_singleton.mpr fun f hf => ?_⟩)
    · cases hscalar.symm.trans hf
      refine .object rfl (by decide) (List.forall_mem_cons.mpr ⟨fun f hf => ?_, List.forall_mem_singleton.mpr fun f hf => ?_⟩)
      · cases hcomponent.symm.trans hf
        exact .plain hint
      · cases hcomponent.symm.trans hf
        exact .plain hnull
    · cases hscalar.symm.trans hf
      exact .plain (d := .record [.absent, .number 0, .number 0]) ⟨1, rfl⟩
  have hagain : FirstFault RecordName.spec (.record .scalarTraits)
      (.map ([(glyphsOf "component", .string (glyphsOf "int"))] ++ (glyphsOf "component", .null) :: []))
      (.duplicateField "component") := by
    refine .repeated rfl ⟨by decide, by decide, List.forall_mem_singleton.mpr fun f hf => ?_⟩ hcomponent (by decide)
    cases hcomponent.symm.trans hf
    exact ⟨_, hint⟩
  have hfault : FirstFault RecordName.spec (.record .typeTree) (.map ([] ++ twiceScalar)) (.duplicateField "component") :=
    .member rfl ⟨by simp, .nil, by simp⟩ hscalar (by simp) hagain
  exact ⟨hspelled, ((load_object Codec.typeTree rfl hspelled htyped (by decide)).2.1 _).mpr ⟨_, rfl, hfault⟩⟩

/-! ## Truncation -/

theorem DocumentKind.core_ne_number (k : DocumentKind) : k.codec.schema.core ≠ .number := by
  cases k <;> exact nofun

/-- Every text that stops short of the end of a written document ends too early. -/
theorem load_truncated (k : DocumentKind) (a : k.Value) (hdepth : nesting (k.codec.render a) ≤ 127) {p : List Char}
    (hp : p <+: (k.codec.render a).toList) (hshort : p ≠ (k.codec.render a).toList) :
    k.codec.load (String.ofList p) = .error .truncated := by
  obtain ⟨more, hmore⟩ := hp
  obtain ⟨c, more, rfl⟩ : ∃ c rest, more = c :: rest := by
    refine List.exists_cons_of_ne_nil ?_
    rintro rfl
    exact hshort (by rw [← hmore, List.append_nil])
  have hload := load_cut RecordName.sound_spec k.core_ne_number ((carries_codec k).fits a) hdepth hmore.symm
  rw [Codec.load, hload]
  rfl

/-- A block of push constants, cut inside a number that would do as it is. -/
theorem load_truncated_block :
    nesting (Codec.pushBlock.render ⟨"\"", 16, 64⟩) ≤ 127 ∧
      Codec.pushBlock.load "\x7b\n  \"name\": \"\\\"\",\n  \"offset\": 16,\n  \"size\": 6" = .error .truncated := by
  have htext : (Codec.pushBlock.render ⟨"\"", 16, 64⟩).toList =
      "\x7b\n  \"name\": \"\\\"\",\n  \"offset\": 16,\n  \"size\": 6".toList ++ "4\n\x7d".toList := by decide
  have hdepth : nesting (Codec.pushBlock.render ⟨"\"", 16, 64⟩) ≤ 127 := by
    rw [nesting, htext]
    decide
  have hshort : "\x7b\n  \"name\": \"\\\"\",\n  \"offset\": 16,\n  \"size\": 6".toList ≠
      (Codec.pushBlock.render ⟨"\"", 16, 64⟩).toList := by
    rw [htext]
    simp
  have hload := load_truncated .pushBlock ⟨"\"", 16, 64⟩ hdepth ⟨_, htext.symm⟩ hshort
  rw [String.ofList_toList] at hload
  exact ⟨hdepth, hload⟩

end StageRig
