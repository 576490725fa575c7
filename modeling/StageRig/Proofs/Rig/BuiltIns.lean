/-
  StageRig.Proofs.Rig.BuiltIns — names that belong to the language.

  A name that begins like a built-in (`Reserved`) may not be declared again. The variables
  of a relay are named anew, so none of them has such a name. Types are not: a struct keeps
  its name, and the built-ins are left out by their tags and the names of the variables,
  whatever the names of their types are.

  - `reserved_mention_origin`: a reserved type name in a source is that of a description
    which occurs in one of its variables, for no other type is spelled like that.
  - `built_ins_left_out`: no relay of a rig names a variable so or mirrors a built-in, and
    a reserved type name comes from a variable that counts as none.
  - `nameless_block_leaks`: an untagged block without a name of its own is such a variable.
-/

import StageRig.Proofs.Glsl.Spelling
import StageRig.Proofs.Relay.Reach
import StageRig.Proofs.Rig

namespace StageRig

open Glsl

/-- The name begins like that of a built-in. -/
def Reserved (name : String) : Prop := builtInStem.toList <+: name.toList

instance (name : String) : Decidable (Reserved name) := inferInstanceAs (Decidable (builtInStem.toList <+: name.toList))

/-! ## Spellings -/

theorem head?_of_reserved {name : String} (h : Reserved name) : name.toList.head? = some 'g' := by
  obtain ⟨rest, hrest⟩ := h
  rw [← hrest]
  rfl

theorem not_reserved_append {front : String} {c : Char} (h : front.toList.head? = some c) (hc : c ≠ 'g')
    (back : String) : ¬ Reserved (front ++ back) := by
  intro hres
  have hhead := head?_of_reserved hres
  rw [String.toList_append, List.head?_append, h] at hhead
  exact hc (Option.some.inj hhead)

/-- Only the name of a struct can be reserved. -/
theorem named_of_reserved {ty : Ty} (h : Reserved ty.spelling) : ∃ n, ty = .named n := by
  cases ty with
  | named n => exact ⟨n, rfl⟩
  | scalar s => cases s <;> exact absurd (head?_of_reserved h) (by decide)
  | vector c n =>
    have hstem : ∃ a, c.vectorStem.toList.head? = some a ∧ a ≠ 'g' := by cases c <;> exact ⟨_, rfl, by decide⟩
    obtain ⟨a, ha, hne⟩ := hstem
    exact absurd h (not_reserved_append ha hne _)
  | matrix c cols rows =>
    have hstem : ∃ a, c.matrixStem.toList.head? = some a ∧ a ≠ 'g' := by cases c <;> exact ⟨_, rfl, by decide⟩
    obtain ⟨a, ha, hne⟩ := hstem
    rw [Ty.spelling] at h
    split at h
    · exact absurd h (not_reserved_append ha hne _)
    · simp only [String.append_assoc] at h
      exact absurd h (not_reserved_append ha hne _)

theorem structName?_of_reserved {h : TypeHead} {format : Format} {n : String} (hs : h.spell format = .ok n)
    (hn : Reserved n) : h.structName? = some n := by
  obtain ⟨ty, hty, rfl⟩ := map_eq_ok_iff.mp hs
  obtain ⟨m, rfl⟩ := named_of_reserved hn
  exact structName?_of_resolve hty

/-- What is called `n` in a description: its struct, or the member that it is. -/
def TypeTree.Bears (t : TypeTree) (n : String) : Prop := t.structName? = some n ∨ t.head.memberName? = some n

theorem format_spelling_not_reserved {format : Format} {ty : Ty} (h : format.type? = some ty) : ¬ Reserved ty.spelling := by
  intro hres
  obtain ⟨n, rfl⟩ := named_of_reserved hres
  exact type?_ne_named format n h

namespace Relay

theorem slotName_not_reserved (location : UInt32) (n : Nat) : ¬ Reserved (slotName location n) := by
  have hstem : "io_".toList.head? = some 'i' := rfl
  rw [slotName]
  split
  · exact not_reserved_append hstem (by decide) _
  · simp only [String.append_assoc]
    exact not_reserved_append hstem (by decide) _

theorem memberName?_of_reserved {h : TypeHead} {index : Nat} (hn : Reserved (memberName h index)) :
    h.memberName? = some (memberName h index) := by
  rw [memberName] at hn ⊢
  rcases hname : h.memberName?.filter (· ≠ "") with _ | name
  · rw [hname] at hn
    have hstem : "member_".toList.head? = some 'm' := rfl
    exact absurd hn (not_reserved_append hstem (by decide) _)
  · exact (Option.filter_eq_some_iff.mp hname).1

theorem structName?_of_slotType {slot : Slot} {n : String} (h : slotType slot = .ok n) (hn : Reserved n) :
    ∃ t, slot.type? = some t ∧ t.structName? = some n := by
  rw [slotType] at h
  rcases ht : slot.type? with _ | t
  · rw [ht] at h
    rcases hf : slot.format.type? with _ | ty
    · simp [hf] at h
    · simp only [hf, Except.ok.injEq] at h
      exact absurd (h ▸ hn) (format_spelling_not_reserved hf)
  · rw [ht] at h
    exact ⟨t, rfl, structName?_of_reserved h hn⟩

/-! ## Names in a source -/

/-- The outline uses the name: for the type of a variable, for a struct, or for the type or the name of a member. -/
inductive Outline.Mentions (o : Outline) : String → Prop
  | slotType {d : SlotDecl} : d ∈ o.slots → Mentions o d.type
  | struct {d : StructDecl} : d ∈ o.structs → Mentions o d.name
  | memberType {d : StructDecl} {m : MemberDecl} : d ∈ o.structs → m ∈ d.members → Mentions o m.type
  | memberName {d : StructDecl} {m : MemberDecl} : d ∈ o.structs → m ∈ d.members → Mentions o m.name

section

variable {r : Relay} {tested : Stage} {slots : List Slot} {o : Outline}

theorem reserved_mention_origin (ho : r.outline tested slots = .ok o) {n : String} (hm : o.Mentions n)
    (hn : Reserved n) : ∃ t, Occurs slots t ∧ t.Bears n := by
  cases hm with
  | slotType hd =>
    obtain ⟨slot, hslot, k, hdecl⟩ := exists_slot_of_mem ho hd
    obtain ⟨type, htype, rfl⟩ := slotDecl_ok_iff.mp hdecl
    obtain ⟨t, ht, hname⟩ := structName?_of_slotType htype hn
    exact ⟨t, ⟨t, List.mem_filterMap.mpr ⟨slot, hslot, ht⟩, Or.inl rfl⟩, Or.inl hname⟩
  | struct hd =>
    obtain ⟨t, ht, hname, -⟩ := exists_reached_of_mem ho hd
    exact ⟨t, ht.occurs, Or.inl hname⟩
  | memberType hd hm =>
    obtain ⟨t, ht, index, hdecl⟩ := exists_member_of_mem ho hd hm
    obtain ⟨type, htype, rfl⟩ := map_eq_ok_iff.mp hdecl
    exact ⟨t, ht, Or.inl (structName?_of_reserved htype hn)⟩
  | memberName hd hm =>
    obtain ⟨t, ht, index, hdecl⟩ := exists_member_of_mem ho hd hm
    obtain ⟨type, htype, rfl⟩ := map_eq_ok_iff.mp hdecl
    exact ⟨t, ht, Or.inr (memberName?_of_reserved hn)⟩

end

end Relay

/-! ## Names in a rig -/

theorem mem_interfaceSlots {slots : List Slot} {s : Slot} :
    s ∈ interfaceSlots slots ↔ s ∈ slots ∧ s.builtIn? = none ∧ ¬ Reserved s.name := by
  rw [interfaceSlots, List.mem_mergeSort, List.mem_filter, Bool.not_eq_true', isBuiltIn_eq_false_iff]
  rfl

/-- The source for the part `p` of a plan, whose outline is `o`, leaves out the built-ins of the mirrored list. -/
structure LeavesOutBuiltIns (r : Reflection) (tested : Stage) (p : Relay.Part) (o : Relay.Outline) : Prop where
  names : ∀ d ∈ o.slots, ¬ Reserved d.name
  mirrored : ∀ d ∈ o.slots, ∃ s ∈ r.mirrored p.mirror, s.builtIn? = none ∧ ¬ Reserved s.name ∧ Mirrors p.relay tested s d
  /-- Another name that begins like a built-in comes from the type of a variable that is not left out. -/
  types : ∀ n, o.Mentions n → Reserved n → ∃ s ∈ r.mirrored p.mirror, s.builtIn? = none ∧ ¬ Reserved s.name ∧
    ∃ root, s.type? = some root ∧ ∃ t : TypeTree, t.Within root ∧ t.Bears n

theorem built_ins_left_out {r : Reflection} {rig : Rig} (h : (Rig.build r).result = .ok (.ok rig)) :
    ∃ entry plan, r.entryPoints = [entry] ∧ Relay.plan? entry.stage = some plan ∧
      List.Forall₂ (fun p g => ∃ o, p.relay.outline entry.stage (interfaceSlots (r.mirrored p.mirror)) = .ok o ∧
        g.source = o.text p.relay ∧ LeavesOutBuiltIns r entry.stage p o) plan rig.generated := by
  obtain ⟨entry, plan, hentry, hplan, hgen⟩ := generated_outlines h
  refine ⟨entry, plan, hentry, hplan, hgen.imp fun p g hg => ?_⟩
  obtain ⟨-, o, ho, htext⟩ := hg
  refine ⟨o, ho, htext, ?_⟩
  exact
    { names := by
        intro d hd
        obtain ⟨slot, _, k, hdecl⟩ := Relay.exists_slot_of_mem ho hd
        obtain ⟨_, _, rfl⟩ := Relay.slotDecl_ok_iff.mp hdecl
        exact Relay.slotName_not_reserved slot.location k
      mirrored := by
        intro d hd
        obtain ⟨slot, hslot, k, hdecl⟩ := Relay.exists_slot_of_mem ho hd
        obtain ⟨hmem, htag, hname⟩ := mem_interfaceSlots.mp hslot
        exact ⟨slot, hmem, htag, hname, mirrors_of_slotDecl hdecl⟩
      types := by
        intro n hm hn
        obtain ⟨t, ⟨root, hroot, hwithin⟩, hname⟩ := Relay.reserved_mention_origin ho hm hn
        obtain ⟨slot, hslot, htype⟩ := List.mem_filterMap.mp hroot
        obtain ⟨hmem, htag, hslotName⟩ := mem_interfaceSlots.mp hslot
        exact ⟨slot, hmem, htag, hslotName, root, htype, t, hwithin, hname⟩ }

/-- The block of a vertex, as an array over the vertices of a patch. -/
def perVertex : TypeTree :=
  .node { typeName? := some "gl_PerVertex", shape := .array, dims := [3] }
    [ .node { memberName? := some "gl_Position", shape := .vector, scalar := { component? := some .float, width := 32 },
              vectorSize := 4 } [] ]

/-- A tessellation control shader with one output, an untagged block, which has the name `name`. -/
def hull (name : String) : Reflection where
  sourceName := "hull.tesc"
  stage := .tessControl
  entryPoints := [⟨"main", .tessControl⟩]
  outputs := [{ name, location := 0, type? := some perVertex }]

theorem build_hull {name : String} {o : Relay.Outline}
    (ho : Relay.outline .tessEval .tessControl (interfaceSlots (hull name).outputs) = .ok o) :
    ∃ rig, (Rig.build (hull name)).result = .ok (.ok rig) ∧ ⟨.tessEval, o.text .tessEval⟩ ∈ rig.generated := by
  have hinputs : interfaceSlots (hull name).inputs = [] := by simp [interfaceSlots, hull]
  have hempty : ∃ o', Relay.outline .vertex .tessControl [] = .ok o' := ⟨_, rfl⟩
  obtain ⟨o', ho'⟩ := hempty
  have hvertex : (Relay.source .vertex .tessControl (interfaceSlots (hull name).inputs)).result = .ok (o'.text .vertex) := by
    rw [hinputs]
    exact Relay.source_ok_iff.mpr ⟨o', ho', rfl⟩
  have htessEval : (Relay.source .tessEval .tessControl (interfaceSlots (hull name).outputs)).result =
      .ok (o.text .tessEval) := Relay.source_ok_iff.mpr ⟨o, ho, rfl⟩
  have hinterface := interface_ok_iff.mpr
    ⟨_, _, show (hull name).entryPoint = .ok ⟨"main", .tessControl⟩ from rfl, rfl, rfl⟩
  have hbuild := Rig.build_ok_iff.mpr
    ⟨_, _, [⟨.vertex, o'.text .vertex⟩, ⟨.tessEval, o.text .tessEval⟩], hinterface, rfl,
      Rig.generate_ok_iff.mpr (.cons ⟨rfl, hvertex⟩ (.cons ⟨rfl, htessEval⟩ .nil)), rfl⟩
  exact ⟨_, hbuild, by simp⟩

theorem hull_outputs : interfaceSlots (hull "gl_out").outputs = [] := by
  have hkept : (hull "gl_out").outputs.filter (!·.isBuiltIn) = [] := by rfl
  rw [interfaceSlots, hkept, List.mergeSort_nil]

theorem nameless_hull_outputs : interfaceSlots (hull "").outputs = (hull "").outputs := by
  have hkept : (hull "").outputs.filter (!·.isBuiltIn) = (hull "").outputs := by rfl
  rw [interfaceSlots, hkept]
  exact List.mergeSort_singleton _

theorem hull_block_left_out : ∃ rig, (Rig.build (hull "gl_out")).result = .ok (.ok rig) ∧
    ∃ entry plan, (hull "gl_out").entryPoints = [entry] ∧ Relay.plan? entry.stage = some plan ∧
      List.Forall₂ (fun p g => ∃ o,
        p.relay.outline entry.stage (interfaceSlots ((hull "gl_out").mirrored p.mirror)) = .ok o ∧
        g.source = o.text p.relay ∧ LeavesOutBuiltIns (hull "gl_out") entry.stage p o) plan rig.generated := by
  have ho : Relay.outline .tessEval .tessControl (interfaceSlots (hull "gl_out").outputs) = .ok ⟨[], []⟩ := by
    rw [hull_outputs]
    rfl
  obtain ⟨rig, hbuild, -⟩ := build_hull ho
  exact ⟨rig, hbuild, built_ins_left_out hbuild⟩

/-- Without a name the block is an output like any other: it is declared, and so is its struct. -/
theorem nameless_block_leaks : ∃ rig o, (Rig.build (hull "")).result = .ok (.ok rig) ∧
    Relay.outline .tessEval .tessControl (interfaceSlots (hull "").outputs) = .ok o ∧
    ⟨.tessEval, o.text .tessEval⟩ ∈ rig.generated ∧ o.slots.map (·.type) = ["gl_PerVertex"] ∧
    o.structs.map (·.name) = ["gl_PerVertex"] ∧ Reserved "gl_PerVertex" := by
  have hok : ∃ o, Relay.outline .tessEval .tessControl (hull "").outputs = .ok o ∧
      o.slots.map (·.type) = ["gl_PerVertex"] ∧ o.structs.map (·.name) = ["gl_PerVertex"] := ⟨_, rfl, rfl, rfl⟩
  obtain ⟨o, ho, hslots, hstructs⟩ := hok
  rw [← nameless_hull_outputs] at ho
  obtain ⟨rig, hbuild, hmem⟩ := build_hull ho
  exact ⟨rig, o, hbuild, ho, hmem, hslots, hstructs, by decide⟩

end StageRig
