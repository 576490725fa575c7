/-
  StageRig.Proofs.Document.Respelled — what is loaded does not depend on how it is spelled.

  Three kinds of fields, and the stage flags on their own, are lists in a document and sets
  in the data model (`holdsSet`). Data that differ only in how a set is listed are read as
  the same value (`ofDatum_alike`): outside the layouts and summaries there is no set, so
  such data are equal (`Alike.eq`), and where there is one it is made from its members.
-/

import StageRig.Proofs.Document.Kind
import StageRig.Proofs.Schema.Accepted
import StageRig.Proofs.Schema.Print
import StageRig.Proofs.Schema.Reading
import StageRig.Proofs.Schema.Respelled

namespace StageRig

open Datum Schema

/-! ## Sets -/

/-- The fields that are sets in the data model. -/
def holdsSet : RecordName → String → Bool
  | .requirement, key | .pushRange, key => key = "stage_flags"
  | .summary, key => key = "input_attachment_indices"
  | _, _ => false

/-- Whether a document is a set itself. -/
def DocumentKind.isSet : DocumentKind → Bool
  | stageSet => true
  | _ => false

/-- Records that hold no set at any depth. -/
def RecordName.setFree : RecordName → Bool
  | pipelineLayout | setLayout | requirement | pushRange | summary => false
  | _ => true

def Schema.setFree : Schema RecordName → Bool
  | .optional s | .list s => s.setFree
  | .record r => r.setFree
  | _ => true

theorem setFree_core (s : Schema RecordName) : s.core.setFree = s.setFree := by
  induction s with
  | optional s ih => exact ih
  | _ => rfl

theorem setFree_field (r : RecordName) :
    r.setFree = true → ∀ f ∈ r.spec.fields, holdsSet r f.key = false ∧ f.schema.setFree = true := by
  cases r <;> decide

theorem set_of_getElem? {α : Type} {l : List α} {i : Nat} {a : α} (h : l[i]? = some a) : l.set i a = l := by
  obtain ⟨hlt, rfl⟩ := List.getElem?_eq_some_iff.mp h
  exact List.set_getElem_self hlt

/-- Where no set is in reach, nothing differs. -/
theorem Schema.Alike.eq {b : Bool} {s : Schema RecordName} {d d' : Datum} (h : Alike RecordName.spec holdsSet b s d d')
    (hb : b = false) (hs : s.setFree = true) : d = d' := by
  induction h with
  | refl => rfl
  | set => cases hb
  | @item b s s' ds i d d' hcore hi _ ih =>
    rw [← setFree_core, hcore] at hs
    rw [← ih rfl hs, set_of_getElem? hi]
  | @field b s r ds i f d d' hcore hf hi _ ih =>
    rw [← setFree_core, hcore] at hs
    obtain ⟨hset, hfree⟩ := setFree_field r hs f (List.mem_of_getElem? hf)
    rw [← ih hset hfree, set_of_getElem? hi]

/-! ## What is read from data with sets -/

section

variable {b : Bool} {s : Schema RecordName} {d d' : Datum}

/-- The fields of data that differ at one place differ at one place at most. -/
theorem Schema.Alike.at_field (h : Alike RecordName.spec holdsSet b s d d') {r : RecordName} (hs : s.core = .record r) {i : Nat}
    {f : FieldSpec RecordName} (hf : r.spec.fields[i]? = some f) :
    Alike RecordName.spec holdsSet (holdsSet r f.key) f.schema (d.field i) (d'.field i) := by
  cases h with
  | refl => exact .refl _
  | set hs' => cases hs.symm.trans hs'
  | item hs' => cases hs.symm.trans hs'
  | @field _ _ r' ds j f' d d' hs' hf' hj h =>
    cases hs.symm.trans hs'
    by_cases hji : j = i
    · subst hji
      cases hf.symm.trans hf'
      obtain ⟨hlt, rfl⟩ := List.getElem?_eq_some_iff.mp hj
      simpa [Datum.field, hlt] using h
    · have hsame : (Datum.record (ds.set j d')).field i = (Datum.record ds).field i := by
        simp [Datum.field, List.getD_eq_getElem?_getD, List.getElem?_set_ne hji]
      rw [hsame]
      exact .refl _

/-- Items that are read alike. -/
theorem Schema.Alike.map_toItems {α : Type} {read : Datum → α} (h : Alike RecordName.spec holdsSet false s d d')
    {s' : Schema RecordName}
    (hs : s.core = .list s') (hread : ∀ d d', Alike RecordName.spec holdsSet false s' d d' → read d = read d') :
    d.toItems.map read = d'.toItems.map read := by
  cases h with
  | refl => rfl
  | @item _ _ s'' ds i d d' hs' hi h =>
    cases hs.symm.trans hs'
    rw [toItems, toItems, List.map_set, ← hread d d' h, set_of_getElem?]
    rw [List.getElem?_map, hi]
    rfl
  | field hs' => cases hs.symm.trans hs'

/-- A set is read from its members. -/
theorem Schema.Alike.ofList_toItems {α : Type} {key : α → Nat} (inj : ∀ a b, key a = key b → a = b) {read : Datum → α}
    (h : Alike RecordName.spec holdsSet b s d d') {s' : Schema RecordName} (hs : s.core = .list s') (hfree : s'.setFree = true) :
    (OrderedSet.ofList (d.toItems.map read) : OrderedSet key) = .ofList (d'.toItems.map read) := by
  cases h with
  | refl => rfl
  | @set _ _ ds ds' _ hmem =>
    refine OrderedSet.ext_of_mem fun a => ?_
    simp only [OrderedSet.mem_ofList inj, toItems, List.mem_map, hmem]
  | @item _ _ s'' ds i d d' hs' hi h =>
    cases hs.symm.trans hs'
    rw [← h.eq rfl hfree, set_of_getElem? hi]
  | field hs' => cases hs.symm.trans hs'

end

theorem stageSet_ofDatum_alike {b : Bool} {d d' : Datum} (h : Alike RecordName.spec holdsSet b .stages d d') :
    StageSet.ofDatum d = StageSet.ofDatum d' :=
  h.ofList_toItems (fun _ _ => Stage.rank_injective) rfl rfl

theorem indexSet_ofDatum_alike {b : Bool} {d d' : Datum} (h : Alike RecordName.spec holdsSet b .numbers d d') :
    IndexSet.ofDatum d = IndexSet.ofDatum d' :=
  h.ofList_toItems (fun _ _ => UInt32.toNat_inj.mp) rfl rfl

theorem requirement_ofDatum_alike {d d' : Datum} (h : Alike RecordName.spec holdsSet false (.record .requirement) d d') :
    Requirement.ofDatum d = Requirement.ofDatum d' := by
  have hset : d.field 0 = d'.field 0 := (h.at_field rfl rfl).eq rfl rfl
  have hbinding : d.field 1 = d'.field 1 := (h.at_field rfl rfl).eq rfl rfl
  have hkind : d.field 2 = d'.field 2 := (h.at_field rfl rfl).eq rfl rfl
  have hcount : d.field 3 = d'.field 3 := (h.at_field rfl rfl).eq rfl rfl
  have hindex : d.field 5 = d'.field 5 := (h.at_field rfl rfl).eq rfl rfl
  have hstages := stageSet_ofDatum_alike (h.at_field (i := 4) (f := .need "stage_flags" .stages) rfl rfl)
  simp only [Requirement.ofDatum, hset, hbinding, hkind, hcount, hindex, hstages]

theorem setLayout_ofDatum_alike {d d' : Datum} (h : Alike RecordName.spec holdsSet false (.record .setLayout) d d') :
    SetLayout.ofDatum d = SetLayout.ofDatum d' := by
  have hbindings := h.at_field (i := 0) (f := .need "bindings" (.list (.record .requirement))) rfl rfl
  exact congrArg SetLayout.mk (hbindings.map_toItems rfl fun _ _ => requirement_ofDatum_alike)

theorem pushRange_ofDatum_alike {d d' : Datum} (h : Alike RecordName.spec holdsSet false (.record .pushRange) d d') :
    PushRange.ofDatum d = PushRange.ofDatum d' := by
  have hstages := stageSet_ofDatum_alike (h.at_field (i := 0) (f := .need "stage_flags" .stages) rfl rfl)
  have hoffset : d.field 1 = d'.field 1 := (h.at_field rfl rfl).eq rfl rfl
  have hsize : d.field 2 = d'.field 2 := (h.at_field rfl rfl).eq rfl rfl
  simp only [PushRange.ofDatum, hstages, hoffset, hsize]

theorem pipelineLayout_ofDatum_alike {d d' : Datum} (h : Alike RecordName.spec holdsSet false (.record .pipelineLayout) d d') :
    PipelineLayout.ofDatum d = PipelineLayout.ofDatum d' := by
  have hsets := h.at_field (i := 0) (f := .need "descriptor_set_layouts" (.list (.record .setLayout))) rfl rfl
  have hranges := h.at_field (i := 1) (f := .need "push_constant_ranges" (.list (.record .pushRange))) rfl rfl
  exact congrArg₂ PipelineLayout.mk (hsets.map_toItems rfl fun _ _ => setLayout_ofDatum_alike)
    (hranges.map_toItems rfl fun _ _ => pushRange_ofDatum_alike)

theorem summary_ofDatum_alike {d d' : Datum} (h : Alike RecordName.spec holdsSet false (.record .summary) d d') :
    Summary.ofDatum d = Summary.ofDatum d' := by
  have hsource : d.field 0 = d'.field 0 := (h.at_field rfl rfl).eq rfl rfl
  have hstage : d.field 1 = d'.field 1 := (h.at_field rfl rfl).eq rfl rfl
  have hentryPoint : d.field 2 = d'.field 2 := (h.at_field rfl rfl).eq rfl rfl
  have hstages : d.field 3 = d'.field 3 := (h.at_field rfl rfl).eq rfl rfl
  have hlayout := h.at_field (i := 4) (f := .need "pipeline_layout" (.record .pipelineLayout)) rfl rfl
  have hattachments := indexSet_ofDatum_alike (h.at_field (i := 5) (f := .need "input_attachment_indices" .numbers) rfl rfl)
  simp only [Summary.ofDatum, hsource, hstage, hentryPoint, hstages, pipelineLayout_ofDatum_alike hlayout, hattachments]

/-- Data that differ only in how a set is listed are read as the same value. -/
theorem ofDatum_alike (k : DocumentKind) {d d' : Datum} (h : Alike RecordName.spec holdsSet k.isSet k.codec.schema d d') :
    k.codec.ofDatum d = k.codec.ofDatum d' := by
  cases k
  case pipelineLayout => exact pipelineLayout_ofDatum_alike h
  case summary => exact summary_ofDatum_alike h
  case stageSet => exact stageSet_ofDatum_alike h
  all_goals exact congrArg _ (h.eq rfl rfl)

/-! ## Documents -/

/-- What a document is loaded as when its tree is known. -/
theorem load_of_means (k : DocumentKind) {v : Json.Node} {text : String} (hv : v.SpelledBy text) {d : Datum}
    (hd : Means RecordName.spec k.codec.schema v d) (hdepth : typedNesting RecordName.spec k.codec.schema v ≤ depthLimit) :
    k.codec.load text = .ok (k.codec.ofDatum d) := by
  rw [Codec.load, load_spelled hv, decode_eq_ok_iff.mpr ⟨hd, hdepth⟩]
  rfl

theorem exists_means_of_load {k : DocumentKind} {v : Json.Node} {text : String} (hv : v.SpelledBy text) {a : k.Value}
    (h : k.codec.load text = .ok a) : ∃ d, Means RecordName.spec k.codec.schema v d ∧ k.codec.ofDatum d = a := by
  rw [Codec.load, load_spelled hv] at h
  obtain ⟨d, hd, rfl⟩ := map_eq_ok_iff.mp h
  exact ⟨d, ⟨_, hd⟩, rfl⟩

/-- Every change in the spelling of an accepted document keeps the value. -/
theorem exists_means_of_respelled (k : DocumentKind) {v w : Json.Node}
    (h : Respelled RecordName.spec holdsSet k.isSet k.codec.schema v w) {d : Datum}
    (hd : Means RecordName.spec k.codec.schema v d) :
    ∃ d', Means RecordName.spec k.codec.schema w d' ∧ k.codec.ofDatum d' = k.codec.ofDatum d := by
  induction h with
  | refl => exact ⟨d, hd, rfl⟩
  | tail _ hstep ih =>
    obtain ⟨d', hd', heq⟩ := ih
    obtain ⟨d'', hd'', halike⟩ := hstep.means RecordName.nodup_keys hd'
    exact ⟨d'', hd'', (ofDatum_alike k halike).symm.trans heq⟩

/-- An accepted document spells a tree, and any other spelling of that tree, or of one that is respelled from it, is loaded as the
same value, as long as no more than 127 of its containers that the schema asks for lie in each other. -/
theorem load_respelled (k : DocumentKind) (text : String) (a : k.Value) (h : k.codec.load text = .ok a) :
    (∃ v : Json.Node, v.SpelledBy text) ∧
      ∀ (v w : Json.Node) (text' : String), v.SpelledBy text → Respelled RecordName.spec holdsSet k.isSet k.codec.schema v w →
        typedNesting RecordName.spec k.codec.schema w ≤ 127 → w.SpelledBy text' → k.codec.load text' = .ok a := by
  constructor
  · rw [Codec.load] at h
    obtain ⟨d, hd, -⟩ := map_eq_ok_iff.mp h
    exact exists_spelledBy hd
  · intro v w text' hv hrespelled hdepth hw
    obtain ⟨d, hd, rfl⟩ := exists_means_of_load hv h
    obtain ⟨d', hd', heq⟩ := exists_means_of_respelled k hrespelled hd
    rw [load_of_means k hw hd' hdepth, heq]

/-- A type that says its shape alone, and the same with its shape as an object and a member that names no field. -/
theorem load_shape_respelled :
    Codec.typeTree.load "\x7b\"kind\":\"int\"\x7d" = .ok (.node { shape := .int } []) ∧
      Codec.typeTree.load "\x7b \"kind\": \x7b\"int\": null\x7d, \"x\": [] \x7d" = .ok (.node { shape := .int } []) := by
  have hspelled : (Json.Node.map [(glyphsOf "kind", .string (glyphsOf "int"))]).SpelledBy "\x7b\"kind\":\"int\"\x7d" ∧
      (Json.Node.map [(glyphsOf "kind", .map [(glyphsOf "int", .null)]), (glyphsOf "x", .list [])]).SpelledBy
        "\x7b \"kind\": \x7b\"int\": null\x7d, \"x\": [] \x7d" := by
    constructor <;>
      (refine ⟨[], ?_, rfl⟩
       simp [Json.Node.Spells, Json.Node.tokens, Json.itemTokens, Json.memberTokens, Json.separator, Json.Glyphs.quoted,
        Json.Glyphs.text, Json.Glyph.text, glyphsOf, glyphOf, Json.skipBlanks, Json.isBlank, List.dropWhile])
  have hmeans : Means RecordName.spec (.record .typeTree) (.map [(glyphsOf "kind", .string (glyphsOf "int"))])
      (TypeTree.node { shape := .int } []).toDatum := ⟨1, rfl⟩
  have hload := load_of_means .typeTree hspelled.1 hmeans (by decide)
  have htagged : Respells RecordName.spec holdsSet false (.record .typeTree)
      (.map ([] ++ (glyphsOf "kind", .string (glyphsOf "int")) :: []))
      (.map ([] ++ (glyphsOf "kind", .map [(glyphsOf "int", .null)]) :: [])) :=
    .member rfl rfl (.tag rfl)
  have hinserted : Respells RecordName.spec holdsSet false (.record .typeTree)
      (.map ([(glyphsOf "kind", .map [(glyphsOf "int", .null)])] ++ []))
      (.map ([(glyphsOf "kind", .map [(glyphsOf "int", .null)])] ++ (glyphsOf "x", .list []) :: [])) :=
    .insert rfl rfl rfl
  have hrespelled := (Relation.ReflTransGen.single htagged).tail hinserted
  exact ⟨hload, (load_respelled .typeTree _ _ hload).2 _ _ _ hspelled.1 hrespelled (by decide) hspelled.2⟩

end StageRig
