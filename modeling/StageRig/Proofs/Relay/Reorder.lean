/-
  StageRig.Proofs.Relay.Reorder — the variables of a relay in another order.

  Which occurrence of a struct the walk enters, and from where, depends on the order of the
  variables. Where descriptions of one name have the same members that makes no difference
  to what it lists, only to the order in which it lists it.

  - `source_succeeds_iff`: a relay has a source exactly when each struct of the walk and
    each variable can be spelled.
  - `source_reordered`: variables in another order have a source too, with the same
    declarations, line by line.
-/

import StageRig.Proofs.Relay.Reach
import StageRig.Proofs.Relay.StructOrder

namespace StageRig.Relay

open Glsl

/-! ## When there is a source -/

theorem exists_slotDecls_iff (r : Relay) (tested : Stage) {slots : List Slot} :
    (∃ decls, slotDecls r tested slots = .ok decls) ↔ ∀ slot ∈ slots, ∃ type, slotType slot = .ok type := by
  constructor
  · intro h slot hslot
    obtain ⟨decls, hdecls⟩ := h
    obtain ⟨k, hk⟩ := List.mem_iff_getElem?.mp hslot
    obtain ⟨_, type, _, htype, _⟩ := getElem?_slotDecls hdecls hk
    exact ⟨type, htype⟩
  · intro h
    refine exists_mapM_eq_ok fun x hx => ?_
    obtain ⟨type, htype⟩ := h x.1 (List.fst_mem_of_mem_zipIdx hx)
    exact ⟨_, slotDecl_ok_iff.mpr ⟨type, htype, rfl⟩⟩

theorem source_succeeds_iff {r : Relay} {tested : Stage} {slots : List Slot} :
    (∃ text, (r.source tested slots).result = .ok text) ↔
      (∀ s ∈ structTypes slots, ∃ d, s.decl = .ok d) ∧ ∀ slot ∈ slots, ∃ type, slotType slot = .ok type := by
  rw [← exists_slotDecls_iff r tested]
  constructor
  · intro h
    obtain ⟨text, htext⟩ := h
    obtain ⟨o, ho, -⟩ := source_ok_iff.mp htext
    obtain ⟨hstructs, hslots⟩ := outline_eq_ok_iff.mp ho
    refine ⟨fun s hs => ?_, o.slots, hslots⟩
    obtain ⟨d, -, hd⟩ := exists_of_mapM_eq_ok hstructs hs
    exact ⟨d, hd⟩
  · intro h
    obtain ⟨hstructs, decls, hdecls⟩ := h
    obtain ⟨structs, hstructs⟩ := exists_mapM_eq_ok hstructs
    exact ⟨_, source_ok_iff.mpr ⟨⟨structs, decls⟩, outline_eq_ok_iff.mpr ⟨hstructs, hdecls⟩, rfl⟩⟩

/-! ## What the order does not change -/

/-- Descriptions of one name, wherever they occur in the variables, have the same members. -/
def NamesAgree (slots : List Slot) : Prop :=
  ∀ t u n, Occurs slots t → Occurs slots u → t.structName? = some n → u.structName? = some n → t.members = u.members

theorem NamesAgree.agree {slots : List Slot} (h : NamesAgree slots) : Agree (slotTypes slots) :=
  fun t u n ht hu => h t u n ht.occurs hu.occurs

theorem mem_slotTypes_of_perm {slots slots' : List Slot} (h : slots.Perm slots') {t : TypeTree} :
    t ∈ slotTypes slots ↔ t ∈ slotTypes slots' := (h.filterMap _).mem_iff

theorem reached_of_perm {slots slots' : List Slot} (h : slots.Perm slots') {t : TypeTree} :
    Reached (slotTypes slots) t ↔ Reached (slotTypes slots') t :=
  ⟨.mono fun _ => (mem_slotTypes_of_perm h).mp, .mono fun _ => (mem_slotTypes_of_perm h).mpr⟩

theorem mem_structTypes_of_perm {slots slots' : List Slot} (h : slots.Perm slots') (hagree : Agree (slotTypes slots))
    {s : StructType} : s ∈ structTypes slots ↔ s ∈ structTypes slots' := by
  have hagree' : Agree (slotTypes slots') := by
    intro t u n ht hu
    exact hagree t u n ((reached_of_perm h).mpr ht) ((reached_of_perm h).mpr hu)
  have hleft := mem_structs_iff hagree (s := s)
  have hright := mem_structs_iff hagree' (s := s)
  simp only [reached_of_perm h] at hleft
  exact hleft.trans hright.symm

/-- Two sources over the same structs have the same declarations. -/
theorem structs_perm {r : Relay} {tested : Stage} {slots slots' : List Slot}
    (hsame : ∀ s, s ∈ structTypes slots ↔ s ∈ structTypes slots') {o o' : Outline}
    (ho : r.outline tested slots = .ok o) (ho' : r.outline tested slots' = .ok o') : o.structs.Perm o'.structs := by
  rw [List.perm_ext_iff_of_nodup (nodup_names ho).of_map (nodup_names ho').of_map]
  intro d
  rw [mem_iff_of_mapM_eq_ok (outline_eq_ok_iff.mp ho).1, mem_iff_of_mapM_eq_ok (outline_eq_ok_iff.mp ho').1]
  simp only [hsame]

theorem source_reordered {slots slots' : List Slot} (hperm : slots.Perm slots') (hnames : NamesAgree slots) (r : Relay)
    (tested : Stage) :
    ((∃ text, (r.source tested slots).result = .ok text) ↔ ∃ text, (r.source tested slots').result = .ok text) ∧
      ∀ text text', (r.source tested slots).result = .ok text → (r.source tested slots').result = .ok text' →
        ∃ o o', r.outline tested slots = .ok o ∧ text = linesText (o.lines r) ∧ r.outline tested slots' = .ok o' ∧
          text' = linesText (o'.lines r) ∧ o.structs.Perm o'.structs ∧
          (∀ n, structOpening n ∈ o.lines r ↔ structOpening n ∈ o'.lines r) ∧
          ∀ d ∈ o.structs, structLines d <:+: o.lines r ∧ structLines d <:+: o'.lines r := by
  have hsame : ∀ s, s ∈ structTypes slots ↔ s ∈ structTypes slots' :=
    fun s => mem_structTypes_of_perm hperm hnames.agree
  constructor
  · rw [source_succeeds_iff, source_succeeds_iff]
    simp only [hsame, hperm.mem_iff]
  · intro text text' h h'
    obtain ⟨o, ho, htext⟩ := source_ok_iff.mp h
    obtain ⟨o', ho', htext'⟩ := source_ok_iff.mp h'
    have hstructs := structs_perm hsame ho ho'
    refine ⟨o, o', ho, htext.symm, ho', htext'.symm, hstructs, fun n => ?_, fun d hd => ?_⟩
    · rw [opening_mem_lines_iff, opening_mem_lines_iff, (hstructs.map _).mem_iff]
    · exact ⟨structLines_among_lines hd, structLines_among_lines (hstructs.mem_iff.mp hd)⟩

/-- A struct that stands alone as an array and inside another one. -/
def ray : TypeTree :=
  .node { typeName? := some "Ray", shape := .array, dims := [2] } [.node { memberName? := some "range", shape := .float } []]

def beam : TypeTree :=
  .node { typeName? := some "Beam", shape := .struct }
    [.node { typeName? := some "Ray", memberName? := some "ray", shape := .struct } ray.members]

def beams : List Slot := [{ location := 0, type? := some beam }, { location := 3, type? := some ray }]

theorem occurs_beams {t : TypeTree} {n : String} (h : Occurs beams t) (hn : t.structName? = some n) :
    n = "Beam" ∧ t.members = beam.members ∨ n = "Ray" ∧ t.members = ray.members := by
  obtain ⟨root, hroot, hwithin⟩ := h
  simp only [slotTypes, beams, List.filterMap_cons, List.filterMap_nil, List.mem_cons, List.not_mem_nil, or_false] at hroot
  rcases hroot with rfl | rfl
  · simp only [TypeTree.Within, beam, ray, TypeTree.members, TypeTree.below_node, List.mem_singleton, exists_eq_left,
      List.not_mem_nil, false_and, exists_false, or_false] at hwithin
    rcases hwithin with rfl | rfl | rfl
    · exact Or.inl ⟨(Option.some.inj hn).symm, rfl⟩
    · exact Or.inr ⟨(Option.some.inj hn).symm, rfl⟩
    · cases hn
  · simp only [TypeTree.Within, ray, TypeTree.below_node, List.mem_singleton, exists_eq_left, List.not_mem_nil,
      false_and, exists_false, or_false] at hwithin
    rcases hwithin with rfl | rfl
    · exact Or.inr ⟨(Option.some.inj hn).symm, rfl⟩
    · cases hn

theorem beams_names_agree : NamesAgree beams := by
  intro t u n ht hu htn hun
  rcases occurs_beams ht htn with ⟨rfl, htm⟩ | ⟨rfl, htm⟩ <;> rcases occurs_beams hu hun with ⟨h, hum⟩ | ⟨h, hum⟩
  · rw [htm, hum]
  · exact absurd h (by decide)
  · exact absurd h (by decide)
  · rw [htm, hum]

theorem beams_reordered : beams.Perm beams.reverse ∧ NamesAgree beams ∧
    ∃ text text', (vertex.source .fragment beams).result = .ok text ∧
      (vertex.source .fragment beams.reverse).result = .ok text' ∧
      ∃ o o', vertex.outline .fragment beams = .ok o ∧ text = linesText (o.lines vertex) ∧
        vertex.outline .fragment beams.reverse = .ok o' ∧ text' = linesText (o'.lines vertex) ∧
        o.structs.Perm o'.structs ∧ (∀ n, structOpening n ∈ o.lines vertex ↔ structOpening n ∈ o'.lines vertex) ∧
        ∀ d ∈ o.structs, structLines d <:+: o.lines vertex ∧ structLines d <:+: o'.lines vertex := by
  have hperm : beams.Perm beams.reverse := (List.reverse_perm beams).symm
  have hok : ∃ o, vertex.outline .fragment beams = .ok o := ⟨_, rfl⟩
  obtain ⟨o, ho⟩ := hok
  have hsource : (vertex.source .fragment beams).result = .ok (o.text vertex) := source_ok_iff.mpr ⟨o, ho, rfl⟩
  obtain ⟨hsucceeds, hsame⟩ := source_reordered hperm beams_names_agree vertex .fragment
  obtain ⟨text', hsource'⟩ := hsucceeds.mp ⟨_, hsource⟩
  exact ⟨hperm, beams_names_agree, _, text', hsource, hsource', hsame _ text' hsource hsource'⟩

end StageRig.Relay
