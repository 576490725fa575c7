/-
  StageRig.Proofs.Relay.Namesakes — structs of one name.

  A relay tells structs apart by their names alone. Two descriptions of one name with
  different members are two structs to the shader, and one to the relay: it declares one of
  them, and the variables of both have that type.

  - `structs_declared_as_described`: a relay declares each struct as some description of
    its name has it. Where descriptions of one name agree, it declares every one that is
    reached as it is described, and it does so only where these are declared alike.
  - `namesakes_conflated`: two variables of different structs with one name, and the
    source in which both have the members of the first.
-/

import StageRig.Proofs.Relay.Reach
import StageRig.Proofs.Relay.StructOrder

namespace StageRig.Relay

open Glsl

/-- The outline has one declaration of the name `n`, and it lists the members of the description: their types,
names and array bounds, in order. -/
def Outline.DeclaresAs (o : Outline) (n : String) (t : TypeTree) : Prop :=
  ∃ ms, memberDecls t.members 0 = .ok ms ∧ o.structs.filter (·.name = n) = [⟨n, ms⟩]

/-- Every named description that is reached is declared as it is. -/
def Outline.DeclaresAll (o : Outline) (slots : List Slot) : Prop :=
  ∀ t n, Reached (slotTypes slots) t → t.structName? = some n → o.DeclaresAs n t

theorem filter_eq_of_nodup {α β : Type} [DecidableEq β] {f : α → β} {l : List α} (h : (l.map f).Nodup) {a : α}
    (ha : a ∈ l) : l.filter (f · = f a) = [a] := by
  induction l with
  | nil => cases ha
  | cons b l ih =>
    obtain ⟨hb, hl⟩ := List.nodup_cons.mp h
    rcases List.mem_cons.mp ha with rfl | ha
    · have hnone : l.filter (f · = f a) = [] := by
        rw [List.filter_eq_nil_iff]
        intro c hc heq
        exact hb (of_decide_eq_true heq ▸ List.mem_map_of_mem hc)
      rw [List.filter_cons_of_pos (by simp), hnone]
    · have hne : f b ≠ f a := fun heq => hb (heq ▸ List.mem_map_of_mem ha)
      rw [List.filter_cons_of_neg (by simpa using hne), ih hl ha]

section

variable {r : Relay} {tested : Stage} {slots : List Slot} {o : Outline}

theorem declaresAs_of_mem (ho : r.outline tested slots = .ok o) {d : StructDecl} (hd : d ∈ o.structs) {t : TypeTree}
    (ht : memberDecls t.members 0 = .ok d.members) : o.DeclaresAs d.name t :=
  ⟨d.members, ht, filter_eq_of_nodup (nodup_names ho) hd⟩

/-- A struct of the walk is declared as it is listed. -/
theorem declaresAs_of_struct (ho : r.outline tested slots = .ok o) {s : StructType} (hs : s ∈ structTypes slots)
    {t : TypeTree} (ht : s.members = t.members) : o.DeclaresAs s.name t := by
  obtain ⟨d, hd, hdecl⟩ := exists_of_mapM_eq_ok (outline_eq_ok_iff.mp ho).1 hs
  obtain ⟨ms, hms, rfl⟩ := decl_eq_ok_iff.mp hdecl
  exact declaresAs_of_mem ho hd (ht ▸ hms)

theorem declaresAs_unique {n : String} {t u : TypeTree} (ht : o.DeclaresAs n t) (hu : o.DeclaresAs n u) :
    memberDecls t.members 0 = memberDecls u.members 0 := by
  obtain ⟨ms, hms, hd⟩ := ht
  obtain ⟨ms', hms', hd'⟩ := hu
  rw [hd] at hd'
  cases hd'
  rw [hms, hms']

end

theorem structs_declared_as_described {r : Relay} {tested : Stage} {slots : List Slot} {text : String}
    (h : (r.source tested slots).result = .ok text) :
    ∃ o, r.outline tested slots = .ok o ∧ text = linesText (o.lines r) ∧
      (∀ d ∈ o.structs, structLines d <:+: o.lines r ∧ (o.lines r).count (structOpening d.name) = 1) ∧
      (∀ d ∈ o.structs, ∃ t, Reached (slotTypes slots) t ∧ t.structName? = some d.name ∧ o.DeclaresAs d.name t) ∧
      (Agree (slotTypes slots) → o.DeclaresAll slots) ∧
      (o.DeclaresAll slots → ∀ t u n, Reached (slotTypes slots) t → Reached (slotTypes slots) u →
        t.structName? = some n → u.structName? = some n → memberDecls t.members 0 = memberDecls u.members 0) := by
  obtain ⟨o, ho, htext⟩ := source_ok_iff.mp h
  refine ⟨o, ho, htext.symm, ?_, ?_, ?_, ?_⟩
  · intro d hd
    exact ⟨structLines_among_lines hd, opened_once (nodup_names ho) hd⟩
  · intro d hd
    obtain ⟨t, ht, hname, hmembers⟩ := exists_reached_of_mem ho hd
    exact ⟨t, ht, hname, declaresAs_of_mem ho hd hmembers⟩
  · intro hagree t n ht hn
    obtain ⟨s, hs, rfl, hmembers⟩ := exists_struct_of_reached hagree ht n hn
    exact declaresAs_of_struct ho hs hmembers
  · intro hall t u n ht hu htn hun
    exact declaresAs_unique (hall t n ht htn) (hall u n hu hun)

def falloff : TypeTree :=
  .node { typeName? := some "Falloff", memberName? := some "falloff", shape := .struct }
    [.node { memberName? := some "range", shape := .float } []]

theorem reached_lights {t : TypeTree} (h : Reached (slotTypes lights) t) : t = light ∨ t = falloff := by
  induction h with
  | root ht _ =>
    simp only [slotTypes, lights, List.filterMap_cons, List.filterMap_nil, List.mem_cons, List.not_mem_nil, or_false,
      or_self] at ht
    exact Or.inl ht
  | member _ ht hn ih =>
    rcases ih with rfl | rfl
    · simp only [light, TypeTree.members, List.mem_cons, List.not_mem_nil, or_false] at ht
      rcases ht with rfl | rfl
      · cases hn
      · exact Or.inr rfl
    · simp only [falloff, TypeTree.members, List.mem_singleton] at ht
      subst ht
      cases hn

theorem lights_agree : Agree (slotTypes lights) := by
  intro t u n ht hu htn hun
  have hne : light.structName? ≠ falloff.structName? := by decide
  rcases reached_lights ht with rfl | rfl <;> rcases reached_lights hu with rfl | rfl
  · rfl
  · exact absurd (htn.trans hun.symm) hne
  · exact absurd (hun.trans htn.symm) hne
  · rfl

theorem lights_declared_as_described : ∃ text, (tessEval.source .tessControl lights).result = .ok text ∧
    Agree (slotTypes lights) ∧ ∃ o, tessEval.outline .tessControl lights = .ok o ∧
      text = linesText (o.lines tessEval) ∧ o.DeclaresAll lights := by
  have hok : ∃ o, tessEval.outline .tessControl lights = .ok o := ⟨_, rfl⟩
  obtain ⟨o, ho⟩ := hok
  have hsource : (tessEval.source .tessControl lights).result = .ok (o.text tessEval) := source_ok_iff.mpr ⟨o, ho, rfl⟩
  obtain ⟨o', ho', htext, -, -, hall, -⟩ := structs_declared_as_described hsource
  exact ⟨_, hsource, lights_agree, o', ho', htext, hall lights_agree⟩

/-- A struct that has the name of another one. -/
def flare : TypeTree :=
  .node { typeName? := some "Light", shape := .struct }
    [.node { memberName? := some "tint", shape := .vector, vectorSize := 4 } []]

def namesakes : List Slot := [{ location := 0, type? := some light }, { location := 4, type? := some flare }]

/-- Both variables are declared with the type `Light`, and the only struct of that name is that of the first. -/
theorem namesakes_conflated : ∃ o, vertex.outline .fragment namesakes = .ok o ∧
    (vertex.source .fragment namesakes).result = .ok (o.text vertex) ∧
    o.slots.map (·.type) = ["Light", "Light"] ∧
    Reached (slotTypes namesakes) flare ∧ flare.structName? = some "Light" ∧
    o.DeclaresAs "Light" light ∧ ¬ o.DeclaresAs "Light" flare := by
  have hok : ∃ o, vertex.outline .fragment namesakes = .ok o ∧ o.slots.map (·.type) = ["Light", "Light"] := ⟨_, rfl, rfl⟩
  obtain ⟨o, ho, htypes⟩ := hok
  have hreached : Reached (slotTypes namesakes) flare :=
    .root (show flare ∈ [light, flare] from List.mem_cons_of_mem _ List.mem_cons_self) rfl
  have hfirst : o.DeclaresAs "Light" light := by
    have hmem : StructType.mk "Light" light.members ∈ structTypes namesakes := by
      show _ ∈ [StructType.mk "Falloff" falloff.members, ⟨"Light", light.members⟩]
      exact List.mem_cons_of_mem _ List.mem_cons_self
    exact declaresAs_of_struct ho hmem rfl
  have hdiffer : memberDecls light.members 0 ≠ memberDecls flare.members 0 := by decide
  exact ⟨o, ho, source_ok_iff.mpr ⟨o, ho, rfl⟩, htypes, hreached, rfl, hfirst,
    fun hsecond => hdiffer (declaresAs_unique hfirst hsecond)⟩

end StageRig.Relay
