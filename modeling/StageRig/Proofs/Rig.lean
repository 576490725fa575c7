/-
  StageRig.Proofs.Rig — the generated stages mirror the tested shader.

  - `build_ok_iff`: a rig is an interface, a plan for its stage and one source for each
    part of the plan.
  - `generated_mirrors`: around a shader stand the stages of the plan for its sole entry
    point, in that order, and the interface lines of each are those of exactly the variables
    of the list that it mirrors, without the built-ins, by location and then by position.
-/

import StageRig.Proofs.Interface
import StageRig.Proofs.Relay.Outline
import StageRig.Rig

namespace StageRig

open Glsl

/-! ## The parts of a rig -/

namespace Rig

theorem generate_ok_iff {i : Interface} {plan : List Relay.Part} {generated : List GeneratedStage} :
    (generate i plan).result = .ok generated ↔
      List.Forall₂ (fun p g => g.stage = p.relay.stage ∧
        (p.relay.source i.stage (i.mirrored p.mirror)).result = .ok g.source) plan generated := by
  induction plan generalizing generated with
  | nil => simp [generate, eq_comm]
  | cons p plan ih =>
    simp only [generate, Traced.result_bind, Traced.result_pure, bind_eq_ok_iff, Except.ok.injEq, ih,
      List.forall₂_cons_left_iff]
    constructor
    · intro h
      obtain ⟨source, hsource, rest, hrest, rfl⟩ := h
      exact ⟨_, _, ⟨rfl, hsource⟩, hrest, rfl⟩
    · intro h
      obtain ⟨⟨_, source⟩, rest, ⟨rfl, hsource⟩, hrest, rfl⟩ := h
      exact ⟨source, hsource, rest, hrest, rfl⟩

theorem build_ok_iff {r : Reflection} {rig : Rig} :
    (build r).result = .ok (.ok rig) ↔
      ∃ i plan generated, r.interface.result = .ok (.ok i) ∧ Relay.plan? i.stage = some plan ∧
        (generate i plan).result = .ok generated ∧ rig = ⟨r.sourceName, i, generated⟩ := by
  simp only [build, Traced.result_bind, bind_eq_ok_iff, Traced.result_mapError, mapError_eq_ok_iff]
  constructor
  · intro h
    obtain ⟨_ | i, hi, h⟩ := h
    · simp [skip] at h
    · rcases hplan : Relay.plan? i.stage with _ | plan
      · simp [hplan, skip] at h
      · simp only [hplan, Traced.result_bind, bind_eq_ok_iff, Traced.result_mapError, mapError_eq_ok_iff,
          Traced.result_pure, Except.ok.injEq] at h
        obtain ⟨generated, hgen, _, _, rfl⟩ := h
        exact ⟨i, plan, generated, hi, hplan, hgen, rfl⟩
  · intro h
    obtain ⟨i, plan, generated, hi, hplan, hgen, rfl⟩ := h
    refine ⟨.ok i, hi, ?_⟩
    simp [hplan, hgen]

end Rig

/-! ## Mirroring -/

/-- The variables that a relay mirrors, as they are reflected. -/
def Reflection.mirrored (r : Reflection) : Relay.Mirror → List Slot
  | .inputs => r.inputs
  | .outputs => r.outputs
  | .nothing => []

theorem interfaceSlots_mirrored {r : Reflection} {i : Interface} (h : r.interface.result = .ok (.ok i))
    (m : Relay.Mirror) : i.mirrored m = interfaceSlots (r.mirrored m) := by
  obtain ⟨entry, rs, -, -, rfl⟩ := interface_ok_iff.mp h
  cases m with
  | inputs => rfl
  | outputs => rfl
  | nothing => simp [Interface.mirrored, Reflection.mirrored, interfaceSlots]

/-- Each generated source has an outline over the variables that its relay mirrors. -/
theorem generated_outlines {r : Reflection} {rig : Rig} (h : (Rig.build r).result = .ok (.ok rig)) :
    ∃ entry plan, r.entryPoints = [entry] ∧ Relay.plan? entry.stage = some plan ∧
      List.Forall₂ (fun p g => g.stage = p.relay.stage ∧
        ∃ o, p.relay.outline entry.stage (interfaceSlots (r.mirrored p.mirror)) = .ok o ∧ g.source = o.text p.relay)
        plan rig.generated := by
  obtain ⟨i, plan, generated, hi, hplan, hgen, rfl⟩ := Rig.build_ok_iff.mp h
  obtain ⟨entry, rs, hentry, -, hi'⟩ := interface_ok_iff.mp hi
  have hstage : i.stage = entry.stage := by rw [hi']
  rw [hstage] at hplan
  refine ⟨entry, plan, (entryPoint_ok_iff.mp hentry).1, hplan, ?_⟩
  refine (Rig.generate_ok_iff.mp hgen).imp fun p g hg => ?_
  obtain ⟨o, ho, htext⟩ := Relay.source_ok_iff.mp hg.2
  rw [hstage, interfaceSlots_mirrored hi] at ho
  exact ⟨hg.1, o, ho, htext.symm⟩

/-- In a relay beside a shader of stage `tested`, the declaration `d` mirrors the variable `s`. -/
structure Mirrors (relay : Relay) (tested : Stage) (s : Slot) (d : SlotDecl) : Prop where
  location : d.location = s.location
  component : d.component? = s.component?
  qualifier : d.qualifier = relay.qualifier
  type : ∃ ty, Relay.HasType s ty ∧ ty.spelling = d.type
  dims : Relay.DeclaredDims relay tested s d.dims

theorem mirrors_of_slotDecl {relay : Relay} {tested : Stage} {n : Nat} {s : Slot} {d : SlotDecl}
    (h : Relay.slotDecl relay tested n s = .ok d) : Mirrors relay tested s d := by
  obtain ⟨type, htype, rfl⟩ := Relay.slotDecl_ok_iff.mp h
  exact
    { location := rfl
      component := rfl
      qualifier := rfl
      type := Relay.slotType_eq_ok_iff.mp htype
      dims := Relay.declaredDims_slotDims relay tested s }

theorem forall₂_comp {α β γ : Type} {R : α → β → Prop} {S : β → γ → Prop} {l : List α} {l' : List β} {l'' : List γ}
    (h : List.Forall₂ R l l') (h' : List.Forall₂ S l' l'') : List.Forall₂ (fun a c => ∃ b, R a b ∧ S b c) l l'' := by
  induction h generalizing l'' with
  | nil =>
    cases h'
    exact .nil
  | cons hr _ ih =>
    cases h' with
    | cons hs h' => exact .cons ⟨_, hr, hs⟩ (ih h')

theorem mirrors_of_slotDecls {relay : Relay} {tested : Stage} {slots : List Slot} {decls : List SlotDecl}
    (h : Relay.slotDecls relay tested slots = .ok decls) : List.Forall₂ (Mirrors relay tested) slots decls := by
  rw [Relay.slotDecls, mapM_eq_ok_iff] at h
  have hmirrors : List.Forall₂ (fun x d => Mirrors relay tested x.1 d) slots.zipIdx decls :=
    h.imp fun _ _ hd => mirrors_of_slotDecl hd
  rw [← List.forall₂_map_left_iff, List.zipIdx_map_fst] at hmirrors
  exact hmirrors

/-- The line of the interface that mirrors the variable at the position `i` of `slots`. -/
def MirrorLine (relay : Relay) (tested : Stage) (slots : List Slot) (i : Nat) (line : String) : Prop :=
  ∃ s d, slots[i]? = some s ∧ Mirrors relay tested s d ∧ line = Relay.interfaceLine d

/-- The stage `g` is generated for the part `p` of a plan around a shader of stage `tested`: the lines of its source
that belong to the interface mirror, one by one and in this order, the variables at the positions `order` of the
mirrored list. -/
structure GeneratedFor (r : Reflection) (tested : Stage) (p : Relay.Part) (g : GeneratedStage) : Prop where
  stage : g.stage = p.relay.stage
  source : ∃ o order, p.relay.outline tested (interfaceSlots (r.mirrored p.mirror)) = .ok o ∧
    g.source = Relay.linesText (o.lines p.relay) ∧ Arranged (r.mirrored p.mirror) order ∧
    List.Forall₂ (MirrorLine p.relay tested (r.mirrored p.mirror)) order ((o.lines p.relay).filter Relay.isSlotLine)

theorem mirrorLines_of_outline {relay : Relay} {tested : Stage} {slots : List Slot} {o : Relay.Outline}
    (ho : relay.outline tested (interfaceSlots slots) = .ok o) {order : List Nat}
    (horder : List.Forall₂ (fun i s => slots[i]? = some s) order (interfaceSlots slots)) :
    List.Forall₂ (MirrorLine relay tested slots) order ((o.lines relay).filter Relay.isSlotLine) := by
  rw [Relay.filter_lines, List.forall₂_map_right_iff]
  refine (forall₂_comp horder (mirrors_of_slotDecls (Relay.outline_eq_ok_iff.mp ho).2)).imp fun i d h => ?_
  obtain ⟨s, hs, hd⟩ := h
  exact ⟨s, d, hs, hd, rfl⟩

theorem generated_mirrors {r : Reflection} {rig : Rig} (h : (Rig.build r).result = .ok (.ok rig)) :
    ∃ entry plan, r.entryPoints = [entry] ∧ Relay.plan? entry.stage = some plan ∧
      List.Forall₂ (GeneratedFor r entry.stage) plan rig.generated := by
  obtain ⟨entry, plan, hentry, hplan, hgen⟩ := generated_outlines h
  refine ⟨entry, plan, hentry, hplan, hgen.imp fun p g hg => ?_⟩
  obtain ⟨hstage, o, ho, htext⟩ := hg
  obtain ⟨order, horder, hslots⟩ := exists_arranged (r.mirrored p.mirror)
  exact { stage := hstage, source := ⟨o, order, ho, htext, horder, mirrorLines_of_outline ho hslots⟩ }

def uv : Slot := { name := "uv", location := 1, component? := some 0, format := .packed .float32 ⟨1, by decide⟩ }

def depth : Slot := { name := "depth", location := 1, component? := some 2, format := .single .float32 }

def color : Slot := { name := "color", location := 0, format := .packed .float32 ⟨3, by decide⟩ }

/-- A fragment shader with two inputs at one location and a built-in between them. -/
def surface : Reflection where
  sourceName := "surface.frag"
  stage := .fragment
  entryPoints := [⟨"main", .fragment⟩]
  inputs := [uv, { name := "gl_FragCoord", location := 0 }, depth, color]

theorem surface_inputs : interfaceSlots surface.inputs = [color, uv, depth] := by
  have hkept : surface.inputs.filter (!·.isBuiltIn) = [uv, depth, color] := by rfl
  rw [interfaceSlots, hkept]
  simp [List.mergeSort, List.MergeSort.Internal.splitInTwo, uv, depth, color]

theorem surface_mirrored : ∃ rig, (Rig.build surface).result = .ok (.ok rig) ∧
    rig.generated = [⟨.vertex, Relay.linesText
      [ "#version 450", "",
        "layout(location = 0) out vec4 io_0;",
        "layout(location = 1, component = 0) out vec2 io_1;",
        "layout(location = 1, component = 2) out float io_1_1;", "",
        "void main() \x7b", "    gl_Position = vec4(1.0);", "\x7d" ]⟩] ∧
    ∃ entry plan, surface.entryPoints = [entry] ∧ Relay.plan? entry.stage = some plan ∧
      List.Forall₂ (GeneratedFor surface entry.stage) plan rig.generated := by
  have hok : ∃ o, Relay.outline .vertex .fragment [color, uv, depth] = .ok o ∧ o.lines .vertex =
      [ "#version 450", "",
        "layout(location = 0) out vec4 io_0;",
        "layout(location = 1, component = 0) out vec2 io_1;",
        "layout(location = 1, component = 2) out float io_1_1;", "",
        "void main() \x7b", "    gl_Position = vec4(1.0);", "\x7d" ] := ⟨_, rfl, by decide⟩
  obtain ⟨o, ho, hlines⟩ := hok
  have hinterface := interface_ok_iff.mpr ⟨_, _, show surface.entryPoint = .ok ⟨"main", .fragment⟩ from rfl, rfl, rfl⟩
  have hsource : (Relay.source .vertex .fragment (interfaceSlots surface.inputs)).result = .ok (o.text .vertex) := by
    rw [surface_inputs]
    exact Relay.source_ok_iff.mpr ⟨o, ho, rfl⟩
  have hbuild := Rig.build_ok_iff.mpr
    ⟨_, _, [⟨.vertex, o.text .vertex⟩], hinterface, rfl, Rig.generate_ok_iff.mpr (.cons ⟨rfl, hsource⟩ .nil), rfl⟩
  refine ⟨_, hbuild, ?_, generated_mirrors hbuild⟩
  rw [Relay.Outline.text, hlines]

end StageRig
