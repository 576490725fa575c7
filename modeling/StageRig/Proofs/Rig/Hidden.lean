/-
  StageRig.Proofs.Rig.Hidden — what does not show in a rig.

  A reflection says more than a rig shows. The names of variables, bindings and blocks, the
  tags of built-ins, the stage of the module and the variables that no relay mirrors leave
  no trace in what is built, and none in why nothing is built.

  - `Alike`: two reflections that differ in nothing else. Their variables are compared
    where they are used: without the built-ins and by location.
  - `HiddenEdit`: edits that keep a reflection alike.
  - `outcome_eq_of_hidden`: the outcome of a build is the same for reflections that are
    alike, and after such an edit.
-/

import StageRig.Proofs.Rig

namespace StageRig

/-- The variable without its name and its tag. -/
def Slot.plain (s : Slot) : Slot := { s with name := "", builtIn? := none }

def Binding.plain (b : Binding) : Binding := { b with name := "" }

def PushBlock.plain (b : PushBlock) : PushBlock := { b with name := "" }

/-- The variables that are no built-ins, in the order of the list, without their names. -/
def plainSlots (slots : List Slot) : List Slot := (slots.filter (!·.isBuiltIn)).map Slot.plain

/-- Two reflections that differ only in what does not show. -/
structure Alike (r r' : Reflection) : Prop where
  sourceName : r.sourceName = r'.sourceName
  entryPoints : r.entryPoints = r'.entryPoints
  bindings : r.bindings.map Binding.plain = r'.bindings.map Binding.plain
  pushBlocks : r.pushBlocks.map PushBlock.plain = r'.pushBlocks.map PushBlock.plain
  slots : ∀ entry plan, r.entryPoints = [entry] → Relay.plan? entry.stage = some plan → ∀ p ∈ plan,
    (interfaceSlots (r.mirrored p.mirror)).map Slot.plain = (interfaceSlots (r'.mirrored p.mirror)).map Slot.plain

/-- An edit that does not show. -/
inductive HiddenEdit : Reflection → Reflection → Prop
  | moduleStage (r : Reflection) (stage : Stage) : HiddenEdit r { r with stage }
  /-- Built-ins come, go, move or change, and other variables get new names and stay no built-ins. -/
  | builtIns (r : Reflection) (inputs outputs : List Slot) : plainSlots r.inputs = plainSlots inputs →
      plainSlots r.outputs = plainSlots outputs → HiddenEdit r { r with inputs, outputs }
  | outputs (r : Reflection) (outputs : List Slot) :
      (∀ entry, r.entryPoints = [entry] → entry.stage ≠ .tessControl) → HiddenEdit r { r with outputs }
  | inputs (r : Reflection) (inputs : List Slot) :
      (∀ entry, r.entryPoints = [entry] → entry.stage = .vertex ∨ entry.stage = .compute) → HiddenEdit r { r with inputs }

namespace Rig

/-- What a rig shows: its sources, and what is written down about it, the stages of its pipeline included. -/
structure View where
  generated : List GeneratedStage
  summary : Summary
  deriving DecidableEq

def view (rig : Rig) : View := ⟨rig.generated, rig.summary⟩

/-- What becomes of a reflection: a failure, a reason to skip it, or what its rig shows. -/
def outcome (r : Reflection) : Except BuildError (Except Skip View) := (build r).result.map (·.map view)

end Rig

/-! ## Sources -/

namespace Relay

theorem slotDecl_plain (r : Relay) (tested : Stage) (n : Nat) (slot : Slot) :
    slotDecl r tested n slot.plain = slotDecl r tested n slot := rfl

theorem writeSlots_plain (r : Relay) (tested : Stage) (slots : List Slot) (earlier : List UInt32) (s : Sheet) :
    writeSlots r tested (slots.map Slot.plain) earlier s = writeSlots r tested slots earlier s := by
  induction slots generalizing earlier s with
  | nil => rfl
  | cons slot slots ih =>
    have htype : slot.plain.type? = slot.type? := rfl
    have hlocation : slot.plain.location = slot.location := rfl
    simp only [List.map_cons, writeSlots, slotDecl_plain, htype, hlocation, ih]

theorem source_plain (r : Relay) (tested : Stage) (slots : List Slot) :
    r.source tested (slots.map Slot.plain) = r.source tested slots := by
  simp only [source, writeSlots_plain, List.isEmpty_map, List.length_map]

theorem source_congr (r : Relay) (tested : Stage) {slots slots' : List Slot}
    (h : slots.map Slot.plain = slots'.map Slot.plain) : r.source tested slots = r.source tested slots' := by
  rw [← source_plain, h, source_plain]

/-- The outputs are mirrored beside a tessellation control shader only, the inputs beside none that has no
stage in front of it. -/
theorem mirror_of_mem_plan {stage : Stage} {plan : List Part} (hplan : plan? stage = some plan) {p : Part} (hp : p ∈ plan) :
    (p.mirror = .outputs → stage = .tessControl) ∧ (p.mirror = .inputs → stage ≠ .vertex ∧ stage ≠ .compute) := by
  cases stage <;> cases hplan <;> simp at hp <;> rcases hp with rfl | rfl <;> simp

end Relay

/-! ## Interfaces -/

theorem collect_plain (stage : Stage) (bs : List Binding) (found : List Requirement) :
    (collect stage (bs.map Binding.plain) found).result = (collect stage bs found).result := by
  induction bs generalizing found with
  | nil => rfl
  | cons b bs ih =>
    have hdims : b.plain.dims = b.dims := rfl
    have hreq : ∀ count, b.plain.requirement stage count = b.requirement stage count := fun _ => rfl
    simp only [List.map_cons, collect, hdims, hreq]
    cases descriptorCount? b.dims with
    | none => rfl
    | some count =>
      by_cases hany : found.any (b.requirement stage count).shares = true
      · simp [hany, ih]
      · simp [hany, ih]

theorem entryPoint_plain (r : Reflection) :
    ({ r with bindings := r.bindings.map Binding.plain } : Reflection).entryPoint = r.entryPoint := by
  have hfind : (r.bindings.map Binding.plain).find? (setLimit ≤ ·.set) =
      (r.bindings.find? (setLimit ≤ ·.set)).map Binding.plain := by
    rw [List.find?_map]
    rfl
  simp only [Reflection.entryPoint, hfind]
  cases r.bindings.find? (setLimit ≤ ·.set) <;> rfl

theorem ranges_plain (bs : List PushBlock) (stage : Stage) :
    (bs.map PushBlock.plain).map (·.range stage) = bs.map (·.range stage) := by
  rw [List.map_map]
  rfl

/-- Sorting by location looks at nothing that is hidden. -/
theorem interfaceSlots_congr {slots slots' : List Slot} (h : plainSlots slots = plainSlots slots') :
    (interfaceSlots slots).map Slot.plain = (interfaceSlots slots').map Slot.plain := by
  have hsort : ∀ slots, (interfaceSlots slots).map Slot.plain =
      (plainSlots slots).mergeSort fun a b => a.location ≤ b.location := by
    intro slots
    rw [interfaceSlots, plainSlots]
    exact List.map_mergeSort fun _ _ _ _ => rfl
  rw [hsort, hsort, h]

/-- Two interfaces that differ only in what does not show. -/
structure Interface.Alike (i i' : Interface) : Prop where
  stage : i.stage = i'.stage
  entryPoint : i.entryPoint = i'.entryPoint
  layout : i.layout = i'.layout
  attachments : i.attachments = i'.attachments
  slots : ∀ plan, Relay.plan? i.stage = some plan → ∀ p ∈ plan,
    (i.mirrored p.mirror).map Slot.plain = (i'.mirrored p.mirror).map Slot.plain

theorem interface_alike {r r' : Reflection} (h : Alike r r') :
    (∃ e, r.interface.result = .error e ∧ r'.interface.result = .error e) ∨
      (∃ skip, r.interface.result = .ok (.error skip) ∧ r'.interface.result = .ok (.error skip)) ∨
      ∃ i i', r.interface.result = .ok (.ok i) ∧ r'.interface.result = .ok (.ok i') ∧ i.Alike i' := by
  have hentry : r.entryPoint = r'.entryPoint := by
    have hplain : ({ r with bindings := r.bindings.map Binding.plain } : Reflection).entryPoint =
        ({ r' with bindings := r'.bindings.map Binding.plain } : Reflection).entryPoint := by
      simp only [Reflection.entryPoint, h.entryPoints, h.bindings]
    rwa [entryPoint_plain, entryPoint_plain] at hplain
  have hcollect : ∀ stage, (collect stage r.bindings []).result = (collect stage r'.bindings []).result := by
    intro stage
    rw [← collect_plain, h.bindings, collect_plain]
  have hranges : ∀ stage, r.pushBlocks.map (·.range stage) = r'.pushBlocks.map (·.range stage) := by
    intro stage
    rw [← ranges_plain, h.pushBlocks, ranges_plain]
  cases he : r.entryPoint with
  | error skip =>
    have he' : r'.entryPoint = .error skip := hentry ▸ he
    exact Or.inr (Or.inl ⟨skip, by simp [Reflection.interface, he], by simp [Reflection.interface, he']⟩)
  | ok entry =>
    have he' : r'.entryPoint = .ok entry := hentry ▸ he
    cases hc : (collect entry.stage r.bindings []).result with
    | error e =>
      have hc' : (collect entry.stage r'.bindings []).result = .error e := hcollect entry.stage ▸ hc
      refine Or.inl ⟨e, ?_, ?_⟩
      · simp only [Reflection.interface, he, Traced.result_bind, hc]
        rfl
      · simp only [Reflection.interface, he', Traced.result_bind, hc']
        rfl
    | ok rs =>
      have hc' : (collect entry.stage r'.bindings []).result = .ok rs := hcollect entry.stage ▸ hc
      have hi := interface_ok_iff.mpr ⟨entry, rs, he, hc, rfl⟩
      have hi' := interface_ok_iff.mpr ⟨entry, rs, he', hc', rfl⟩
      refine Or.inr (Or.inr ⟨_, _, hi, hi', ?_⟩)
      exact
        { stage := rfl
          entryPoint := rfl
          layout := by simp only [hranges]
          attachments := rfl
          slots := by
            intro plan hplan p hp
            rw [interfaceSlots_mirrored hi, interfaceSlots_mirrored hi']
            exact h.slots entry plan (entryPoint_ok_iff.mp he).1 hplan p hp }

/-! ## Outcomes -/

namespace Rig

theorem generate_congr {i i' : Interface} (hstage : i.stage = i'.stage) {plan : List Relay.Part}
    (h : ∀ p ∈ plan, (i.mirrored p.mirror).map Slot.plain = (i'.mirrored p.mirror).map Slot.plain) :
    generate i plan = generate i' plan := by
  induction plan with
  | nil => rfl
  | cons p plan ih =>
    have hp := Relay.source_congr p.relay i.stage (h p List.mem_cons_self)
    have hrest := ih fun q hq => h q (List.mem_cons_of_mem _ hq)
    rw [generate, generate, hp, hrest, hstage]

theorem outcome_of_overflow {r : Reflection} {e : CountOverflow} (h : r.interface.result = .error e) :
    outcome r = .error .countOverflow := by
  simp only [outcome, build, Traced.result_bind, Traced.result_mapError, h]
  rfl

theorem outcome_of_skip {r : Reflection} {reason : Skip} (h : r.interface.result = .ok (.error reason)) :
    outcome r = .ok (.error reason) := by
  simp only [outcome, build, Traced.result_bind, Traced.result_mapError, h]
  rfl

theorem outcome_of_interface {r : Reflection} {i : Interface} (h : r.interface.result = .ok (.ok i)) :
    outcome r = match Relay.plan? i.stage with
      | none => .ok (.error (.stage i.stage))
      | some plan => match (generate i plan).result with
        | .error e => .error (.spelling e)
        | .ok generated => .ok (.ok (view ⟨r.sourceName, i, generated⟩)) := by
  simp only [outcome, build, Traced.result_bind, Traced.result_mapError, h]
  cases hplan : Relay.plan? i.stage with
  | none =>
    simp only [Except.mapError, bind, Except.bind, hplan]
    rfl
  | some plan =>
    cases hgen : (generate i plan).result with
    | error e =>
      simp only [Except.mapError, bind, Except.bind, hplan, Traced.result_mapError, hgen]
      rfl
    | ok generated =>
      simp only [Except.mapError, bind, Except.bind, hplan, Traced.result_mapError, hgen]
      rfl

theorem view_congr {sourceName : String} {i i' : Interface} (h : i.Alike i') (generated : List GeneratedStage) :
    view ⟨sourceName, i, generated⟩ = view ⟨sourceName, i', generated⟩ := by
  simp only [view, summary, pipelineStages, h.stage, h.entryPoint, h.layout, h.attachments]

theorem outcome_congr {r r' : Reflection} (h : Alike r r') : outcome r = outcome r' := by
  rcases interface_alike h with ⟨e, he, he'⟩ | ⟨reason, hs, hs'⟩ | ⟨i, i', hi, hi', halike⟩
  · rw [outcome_of_overflow he, outcome_of_overflow he']
  · rw [outcome_of_skip hs, outcome_of_skip hs']
  · rw [outcome_of_interface hi, outcome_of_interface hi', ← halike.stage, ← h.sourceName]
    cases hplan : Relay.plan? i.stage with
    | none => rfl
    | some plan =>
      have hgen : generate i plan = generate i' plan := generate_congr halike.stage (halike.slots plan hplan)
      simp only [hgen, view_congr halike]

end Rig

/-! ## Edits -/

theorem HiddenEdit.alike {r r' : Reflection} (h : HiddenEdit r r') : Alike r r' := by
  cases h with
  | moduleStage stage => exact ⟨rfl, rfl, rfl, rfl, fun _ _ _ _ p _ => by cases p.mirror <;> rfl⟩
  | builtIns inputs outputs hin hout =>
    refine ⟨rfl, rfl, rfl, rfl, fun _ _ _ _ p _ => ?_⟩
    cases p.mirror with
    | inputs => exact interfaceSlots_congr hin
    | outputs => exact interfaceSlots_congr hout
    | nothing => rfl
  | outputs outputs hstage =>
    refine ⟨rfl, rfl, rfl, rfl, fun entry plan hentry hplan p hp => ?_⟩
    cases hm : p.mirror with
    | outputs => exact absurd ((Relay.mirror_of_mem_plan hplan hp).1 hm) (hstage entry hentry)
    | inputs => rfl
    | nothing => rfl
  | inputs inputs hstage =>
    refine ⟨rfl, rfl, rfl, rfl, fun entry plan hentry hplan p hp => ?_⟩
    cases hm : p.mirror with
    | inputs =>
      obtain ⟨hvertex, hcompute⟩ := (Relay.mirror_of_mem_plan hplan hp).2 hm
      rcases hstage entry hentry with h | h
      · exact absurd h hvertex
      · exact absurd h hcompute
    | outputs => rfl
    | nothing => rfl

theorem outcome_eq_of_hidden (r r' : Reflection) :
    (Alike r r' → Rig.outcome r = Rig.outcome r') ∧ (HiddenEdit r r' → Rig.outcome r = Rig.outcome r') :=
  ⟨Rig.outcome_congr, fun h => Rig.outcome_congr h.alike⟩

/-- The same shader under other names, in another order, with a built-in of a type that has no spelling. -/
def veiled : Reflection where
  sourceName := "surface.frag"
  stage := .compute
  entryPoints := [⟨"main", .fragment⟩]
  inputs :=
    [ { color with name := "" },
      { uv with name := "in_uv" },
      { location := 1, builtIn? := some "Position", type? := some (.node { shape := .struct } []) },
      { depth with name := "z" } ]
  outputs := [color]

theorem veiled_inputs : interfaceSlots veiled.inputs =
    [{ color with name := "" }, { uv with name := "in_uv" }, { depth with name := "z" }] := by
  have hkept : veiled.inputs.filter (!·.isBuiltIn) =
      [{ color with name := "" }, { uv with name := "in_uv" }, { depth with name := "z" }] := by rfl
  rw [interfaceSlots, hkept]
  simp [List.mergeSort, List.MergeSort.Internal.splitInTwo, uv, depth, color]

theorem veiled_unchanged : Alike surface veiled ∧ Rig.outcome surface = Rig.outcome veiled ∧
    HiddenEdit surface { surface with outputs := [depth] } ∧
    Rig.outcome surface = Rig.outcome { surface with outputs := [depth] } := by
  have halike : Alike surface veiled := by
    refine ⟨rfl, rfl, rfl, rfl, fun entry plan hentry hplan p hp => ?_⟩
    cases hentry
    cases hplan
    rw [List.mem_singleton.mp hp]
    show (interfaceSlots surface.inputs).map Slot.plain = (interfaceSlots veiled.inputs).map Slot.plain
    rw [surface_inputs, veiled_inputs]
    rfl
  have hedit : HiddenEdit surface { surface with outputs := [depth] } := by
    refine .outputs surface [depth] fun entry hentry => ?_
    cases hentry
    decide
  exact ⟨halike, (outcome_eq_of_hidden surface veiled).1 halike, hedit, (outcome_eq_of_hidden _ _).2 hedit⟩

end StageRig
