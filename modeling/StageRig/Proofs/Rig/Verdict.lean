/-
  StageRig.Proofs.Rig.Verdict — what a build comes to, and which reason wins.

  A reflection can be unfit in several ways at once. `Verdict` says which of them a build
  answers with: the entry points are looked at first, then the set indices, the counts,
  the stage and, relay by relay, the sources; whatever stands first in its list wins.

  - `descriptorCount?_eq_none_iff`: a count overflows when a product of first dimensions
    does, even where a later zero would bring it back.
  - `filledSets?_eq_setLayouts`: filling the sets by index never misses one, and gives the
    sets by position.
  - `build_verdict`: a build comes to its verdict, and to no other.
-/

import StageRig.Proofs.Layout
import StageRig.Proofs.Rig.Hidden

namespace StageRig

/-! ## Counts that overflow -/

/-- The product of some first dimensions does not fit into 32 bits. -/
def Binding.Overflows (b : Binding) : Prop := ∃ k, UInt32.size ≤ ((b.dims.take k).map UInt32.toNat).prod

theorem descriptorCount?_eq_none_iff {b : Binding} : descriptorCount? b.dims = none ↔ b.Overflows :=
  descriptorCount?_eq_none_iff_take

theorem collect_succeeds_iff {stage : Stage} {bs : List Binding} {found : List Requirement} :
    (∃ rs, (collect stage bs found).result = .ok rs) ↔ ∀ b ∈ bs, ¬ b.Overflows := by
  induction bs generalizing found with
  | nil => exact iff_of_true ⟨found, rfl⟩ (by simp)
  | cons b bs ih =>
    simp only [collect_cons_ok_iff, List.forall_mem_cons, ← descriptorCount?_eq_none_iff]
    constructor
    · intro h
      obtain ⟨rs, count, hcount, hrs⟩ := h
      exact ⟨by simp [hcount], by simpa only [descriptorCount?_eq_none_iff] using ih.mp ⟨rs, hrs⟩⟩
    · intro ⟨hb, hbs⟩
      obtain ⟨count, hcount⟩ := Option.ne_none_iff_exists'.mp hb
      simp only [descriptorCount?_eq_none_iff] at hbs
      obtain ⟨rs, hrs⟩ := ih.mpr hbs
      exact ⟨rs, count, hcount, hrs⟩

/-! ## Sets by index -/

/-- Puts each requirement into the set at its index, or gives `none` where there is no such set. -/
def fillSets? : List Requirement → List SetLayout → Option (List SetLayout)
  | [], sets => some sets
  | q :: rest, sets =>
    if q.set.toNat < sets.length then fillSets? rest (sets.modify q.set.toNat fun s => ⟨s.bindings ++ [q]⟩) else none

/-- The sets up to that of the last requirement, filled by index. -/
def filledSets? (rs : List Requirement) : Option (List SetLayout) :=
  match rs.getLast? with
  | none => some []
  | some last => fillSets? rs (List.replicate (last.set.toNat + 1) {})

theorem fillSets?_eq {rs : List Requirement} {sets : List SetLayout} (h : ∀ q ∈ rs, q.set.toNat < sets.length) :
    fillSets? rs sets = some (sets.mapIdx fun i s => ⟨s.bindings ++ rs.filter (·.set.toNat = i)⟩) := by
  induction rs generalizing sets with
  | nil => exact congrArg some (List.ext_getElem (by simp) (by simp))
  | cons q rs ih =>
    obtain ⟨hq, hrs⟩ := List.forall_mem_cons.mp h
    rw [fillSets?, if_pos hq, ih (by simpa using hrs)]
    refine congrArg some (List.ext_getElem (by simp) fun i hi hi' => ?_)
    by_cases hqi : q.set.toNat = i
    · simp [hqi]
    · simp [hqi]

/-- The last requirement has the largest set index. -/
theorem max?_of_getLast? {rs : List Requirement} {last : Requirement} (h : Requirement.Ascending rs)
    (hlast : rs.getLast? = some last) : (rs.map (·.set.toNat)).max? = some last.set.toNat := by
  rw [List.max?_eq_some_iff]
  obtain ⟨front, rfl⟩ := List.getLast?_eq_some_iff.mp hlast
  refine ⟨by simp, fun n hn => ?_⟩
  obtain ⟨q, hq, rfl⟩ := List.mem_map.mp hn
  rcases List.mem_append.mp hq with hq | hq
  · have hprec := (List.pairwise_append.mp h).2.2 q hq last (by simp)
    rw [Requirement.precedes_iff] at hprec
    omega
  · exact Nat.le_of_eq (congrArg (·.set.toNat) (List.mem_singleton.mp hq))

theorem filledSets?_eq_setLayouts {rs : List Requirement} (h : Requirement.Ascending rs) :
    filledSets? rs = some (setLayouts rs) := by
  rw [filledSets?, setLayouts]
  cases hlast : rs.getLast? with
  | none =>
    rw [List.getLast?_eq_none_iff.mp hlast]
    rfl
  | some last =>
    have hmax := max?_of_getLast? h hlast
    have hle : ∀ q ∈ rs, q.set.toNat ≤ last.set.toNat := by
      intro q hq
      exact (List.max?_eq_some_iff.mp hmax).2 _ (List.mem_map_of_mem hq)
    rw [hmax]
    dsimp only
    rw [fillSets?_eq fun q hq => by simpa using Nat.lt_succ_of_le (hle q hq)]
    refine congrArg some (List.ext_getElem (by simp) fun i hi hi' => ?_)
    simp

/-! ## Verdicts -/

/-- One entry point, and a usable set in every binding. -/
structure Admitted (r : Reflection) (entry : EntryPoint) : Prop where
  sole : r.entryPoints = [entry]
  sets : ∀ b ∈ r.bindings, b.set < setLimit

/-- Admitted, and no count overflows. -/
structure Counted (r : Reflection) (entry : EntryPoint) : Prop extends Admitted r entry where
  counts : ∀ b ∈ r.bindings, ¬ b.Overflows

/-- The source of a part of the plan around a shader of stage `tested`. -/
def Reflection.relaySource (r : Reflection) (tested : Stage) (p : Relay.Part) : Except Glsl.SpellError String :=
  (p.relay.source tested (interfaceSlots (r.mirrored p.mirror))).result

/-- What a build comes to: it fails, or it skips the shader, or there is a rig. -/
inductive Verdict (r : Reflection) : Except BuildError (Except Skip Unit) → Prop
  | noEntryPoint : r.entryPoints = [] → Verdict r (.ok (.error .noEntryPoint))
  | manyEntryPoints : 2 ≤ r.entryPoints.length → Verdict r (.ok (.error (.manyEntryPoints r.entryPoints.length)))
  /-- The first binding with an unusable set gives its index. -/
  | descriptorSet (entry : EntryPoint) (before : List Binding) (b : Binding) (after : List Binding) :
      r.entryPoints = [entry] → r.bindings = before ++ b :: after → (∀ c ∈ before, c.set < setLimit) →
      setLimit ≤ b.set → Verdict r (.ok (.error (.descriptorSet b.set)))
  | countOverflow (entry : EntryPoint) (b : Binding) : Admitted r entry → b ∈ r.bindings → b.Overflows →
      Verdict r (.error .countOverflow)
  | stage (entry : EntryPoint) : Counted r entry → entry.stage = .other → Verdict r (.ok (.error (.stage .other)))
  /-- The first part of the plan without a source gives the error. -/
  | spelling (entry : EntryPoint) (plan : List Relay.Part) (e : Glsl.SpellError) : Counted r entry →
      Relay.plan? entry.stage = some plan → FailsFirst (r.relaySource entry.stage) plan e →
      Verdict r (.error (.spelling e))
  | generated (entry : EntryPoint) (plan : List Relay.Part) : Counted r entry → Relay.plan? entry.stage = some plan →
      (∀ p ∈ plan, ∃ source, r.relaySource entry.stage p = .ok source) → Verdict r (.ok (.ok ()))

/-! ## The steps of a build -/

theorem admitted_iff {r : Reflection} {entry : EntryPoint} : Admitted r entry ↔ r.entryPoint = .ok entry := by
  rw [entryPoint_ok_iff]
  exact ⟨fun h => ⟨h.sole, h.sets⟩, fun h => ⟨h.1, h.2⟩⟩

theorem interface_of_skip {r : Reflection} {skip : Skip} (h : r.entryPoint = .error skip) :
    r.interface.result = .ok (.error skip) := by
  rw [Reflection.interface, h]
  rfl

theorem interface_of_overflow {r : Reflection} {entry : EntryPoint} (h : Admitted r entry) {b : Binding}
    (hb : b ∈ r.bindings) (hover : b.Overflows) : r.interface.result = .error .countOverflow := by
  have hcollect : (collect entry.stage r.bindings []).result = .error .countOverflow := by
    cases hc : (collect entry.stage r.bindings []).result with
    | error e => rfl
    | ok rs => exact absurd hover (collect_succeeds_iff.mp ⟨rs, hc⟩ b hb)
  rw [Reflection.interface, admitted_iff.mp h]
  simp only [Traced.result_bind, hcollect]
  rfl

theorem Counted.interface {r : Reflection} {entry : EntryPoint} (h : Counted r entry) :
    ∃ i, r.interface.result = .ok (.ok i) ∧ i.stage = entry.stage ∧
      (fun p => (p.relay.source i.stage (i.mirrored p.mirror)).result) = r.relaySource entry.stage := by
  obtain ⟨rs, hrs⟩ := collect_succeeds_iff.mpr h.counts
  have hi := interface_ok_iff.mpr ⟨entry, rs, admitted_iff.mp h.toAdmitted, hrs, rfl⟩
  refine ⟨_, hi, rfl, funext fun p => ?_⟩
  rw [interfaceSlots_mirrored hi]
  rfl

theorem Relay.plan?_eq_none_iff {stage : Stage} : Relay.plan? stage = none ↔ stage = .other := by
  cases stage <;> simp [Relay.plan?]

namespace Rig

theorem generate_error_iff {i : Interface} {plan : List Relay.Part} {e : Glsl.SpellError} :
    (generate i plan).result = .error e ↔
      FailsFirst (fun p => (p.relay.source i.stage (i.mirrored p.mirror)).result) plan e := by
  induction plan with
  | nil => simp [generate, failsFirst_nil]
  | cons p plan ih =>
    simp only [generate, Traced.result_bind, Traced.result_pure, bind_eq_error_iff, failsFirst_cons, ih, reduceCtorEq,
      and_false, exists_false, or_false]

theorem exists_generate {i : Interface} {plan : List Relay.Part}
    (h : ∀ p ∈ plan, ∃ source, (p.relay.source i.stage (i.mirrored p.mirror)).result = .ok source) :
    ∃ generated, (generate i plan).result = .ok generated := by
  cases hgen : (generate i plan).result with
  | ok generated => exact ⟨generated, rfl⟩
  | error e =>
    obtain ⟨before, p, after, rfl, _, hp⟩ := generate_error_iff.mp hgen
    obtain ⟨source, hsource⟩ := h p (by simp)
    cases hp.symm.trans hsource

/-- How a build ends, without what it gives. -/
def ending (r : Reflection) : Except BuildError (Except Skip Unit) := (outcome r).map (·.map fun _ => ())

theorem ending_of_skip {r : Reflection} {skip : Skip} (h : r.entryPoint = .error skip) :
    ending r = .ok (.error skip) := by
  rw [ending, outcome_of_skip (interface_of_skip h)]
  rfl

theorem ending_of_overflow {r : Reflection} {entry : EntryPoint} (h : Admitted r entry) {b : Binding}
    (hb : b ∈ r.bindings) (hover : b.Overflows) : ending r = .error .countOverflow := by
  rw [ending, outcome_of_overflow (interface_of_overflow h hb hover)]
  rfl

theorem ending_of_other {r : Reflection} {entry : EntryPoint} (h : Counted r entry) (hstage : entry.stage = .other) :
    ending r = .ok (.error (.stage .other)) := by
  obtain ⟨i, hi, hi', _⟩ := h.interface
  rw [ending, outcome_of_interface hi, hi', hstage]
  rfl

theorem ending_of_failsFirst {r : Reflection} {entry : EntryPoint} (h : Counted r entry) {plan : List Relay.Part}
    (hplan : Relay.plan? entry.stage = some plan) {e : Glsl.SpellError}
    (he : FailsFirst (r.relaySource entry.stage) plan e) : ending r = .error (.spelling e) := by
  obtain ⟨i, hi, hi', hsource⟩ := h.interface
  have hgen : (generate i plan).result = .error e := generate_error_iff.mpr (hsource ▸ he)
  simp only [ending, outcome_of_interface hi, hi', hplan, hgen]
  rfl

theorem ending_of_sources {r : Reflection} {entry : EntryPoint} (h : Counted r entry) {plan : List Relay.Part}
    (hplan : Relay.plan? entry.stage = some plan)
    (hsources : ∀ p ∈ plan, ∃ source, r.relaySource entry.stage p = .ok source) : ending r = .ok (.ok ()) := by
  obtain ⟨i, hi, hi', hsource⟩ := h.interface
  rw [← hsource] at hsources
  obtain ⟨generated, hgen⟩ := exists_generate hsources
  simp only [ending, outcome_of_interface hi, hi', hplan, hgen]
  rfl

end Rig

/-! ## The verdict of a reflection -/

theorem entryPoint_of_firstUnusable {r : Reflection} {entry : EntryPoint} {before after : List Binding} {b : Binding}
    (hentry : r.entryPoints = [entry]) (hbindings : r.bindings = before ++ b :: after)
    (hbefore : ∀ c ∈ before, c.set < setLimit) (hb : setLimit ≤ b.set) :
    r.entryPoint = .error (.descriptorSet b.set) := by
  have hfind : r.bindings.find? (setLimit ≤ ·.set) = some b := by
    rw [List.find?_eq_some_iff_append]
    exact ⟨decide_eq_true hb, before, after, hbindings, fun c hc => by simpa using hbefore c hc⟩
  rw [Reflection.entryPoint, hentry]
  simp only [hfind]

theorem Verdict.ending_eq {r : Reflection} {v : Except BuildError (Except Skip Unit)} (h : Verdict r v) :
    Rig.ending r = v := by
  cases h with
  | noEntryPoint hentry => exact Rig.ending_of_skip (by rw [Reflection.entryPoint, hentry])
  | manyEntryPoints hentry =>
    refine Rig.ending_of_skip ?_
    rcases hpoints : r.entryPoints with _ | ⟨e, _ | ⟨e', es⟩⟩
    · simp [hpoints] at hentry
    · simp [hpoints] at hentry
    · rw [Reflection.entryPoint, hpoints]
  | descriptorSet entry before b after hentry hbindings hbefore hb =>
    exact Rig.ending_of_skip (entryPoint_of_firstUnusable hentry hbindings hbefore hb)
  | countOverflow entry b hadmitted hb hover => exact Rig.ending_of_overflow hadmitted hb hover
  | stage entry hcounted hstage => exact Rig.ending_of_other hcounted hstage
  | spelling entry plan e hcounted hplan he => exact Rig.ending_of_failsFirst hcounted hplan he
  | generated entry plan hcounted hplan hsources => exact Rig.ending_of_sources hcounted hplan hsources

theorem exists_verdict (r : Reflection) : ∃ v, Verdict r v := by
  rcases hpoints : r.entryPoints with _ | ⟨entry, _ | ⟨e', es⟩⟩
  · exact ⟨_, .noEntryPoint hpoints⟩
  · cases hfind : r.bindings.find? (setLimit ≤ ·.set) with
    | some b =>
      obtain ⟨hb, before, after, hbindings, hbefore⟩ := List.find?_eq_some_iff_append.mp hfind
      exact ⟨_, .descriptorSet entry before b after hpoints hbindings (by simpa using hbefore) (of_decide_eq_true hb)⟩
    | none =>
      have hadmitted : Admitted r entry := ⟨hpoints, by simpa using hfind⟩
      by_cases hover : ∃ b ∈ r.bindings, b.Overflows
      · obtain ⟨b, hb, hover⟩ := hover
        exact ⟨_, .countOverflow entry b hadmitted hb hover⟩
      · have hcounted : Counted r entry := ⟨hadmitted, fun b hb h => hover ⟨b, hb, h⟩⟩
        cases hplan : Relay.plan? entry.stage with
        | none => exact ⟨_, .stage entry hcounted (Relay.plan?_eq_none_iff.mp hplan)⟩
        | some plan =>
          by_cases hfails : ∃ e, FailsFirst (r.relaySource entry.stage) plan e
          · obtain ⟨e, he⟩ := hfails
            exact ⟨_, .spelling entry plan e hcounted hplan he⟩
          · exact ⟨_, .generated entry plan hcounted hplan (forall_ok_of_not_failsFirst (not_exists.mp hfails))⟩
  · exact ⟨_, .manyEntryPoints (by simp [hpoints])⟩

theorem build_verdict (r : Reflection) :
    (∀ v, Rig.ending r = v ↔ Verdict r v) ∧
      ∀ stage rs, (collect stage r.bindings []).result = .ok rs → filledSets? rs = some (setLayouts rs) := by
  refine ⟨fun v => ⟨fun h => ?_, Verdict.ending_eq⟩, fun stage rs hrs => ?_⟩
  · obtain ⟨v', hv'⟩ := exists_verdict r
    rwa [← h, hv'.ending_eq]
  · exact filledSets?_eq_setLayouts (gathered_of_collect hrs).ascending

/-- With an unusable stage, an input that has no spelling and a count that overflows before it comes to zero, the
count decides. -/
def troubled : Reflection where
  sourceName := "troubled"
  stage := .other
  entryPoints := [⟨"main", .other⟩]
  inputs := [{ location := 0 }]
  bindings := [{ set := 31, binding := 0, kind := .sampler, dims := [65536, 65536, 0] }]

theorem troubled_verdict : Verdict troubled (.error .countOverflow) ∧
    ∃ rs, (collect .compute shadow.bindings []).result = .ok rs ∧ filledSets? rs = some (setLayouts rs) := by
  have hrs : ∃ rs, (collect .compute shadow.bindings []).result = .ok rs := ⟨_, rfl⟩
  obtain ⟨rs, hrs⟩ := hrs
  exact ⟨((build_verdict troubled).1 _).mp rfl, rs, hrs, (build_verdict shadow).2 .compute rs hrs⟩

end StageRig
