/-
  StageRig.Proofs.Delivery.Untouched — what a delivery does before it writes.

  A confined compiler keeps to its work directory. With one, a delivery that ends before
  the first file is written leaves the tree as it was, but for that directory.

  - `Compiled.sameOutside`, `Refused.sameOutside`: compiling stays in the work directory.
  - `untouched_before_writing`: a shader that is skipped, or cannot be generated, or that
    the compiler refuses, leaves everything else alone; and the compiler is used for the
    generated stages in order, up to the first one that it refuses.
-/

import StageRig.Proofs.Delivery.Files
import StageRig.Proofs.Rig.Verdict

namespace StageRig

/-! ## Confinement -/

/-- The trees agree but for a place and what is below it. -/
def FileTree.SameOutside (place : Place) (t u : FileTree) : Prop := ∀ q, ¬ place <+: q → u.get? q = t.get? q

namespace FileTree.SameOutside

variable {place : Place} {t u v : FileTree}

theorem refl (place : Place) (t : FileTree) : t.SameOutside place t := fun _ _ => rfl

theorem trans (h : t.SameOutside place u) (h' : u.SameOutside place v) : t.SameOutside place v :=
  fun q hq => (h' q hq).trans (h q hq)

end FileTree.SameOutside

/-- The compiler touches its work directory and nothing else. -/
def Compiler.Confined (compiler : Compiler) : Prop :=
  ∀ (stage : Stage) (source dir : String) (t : FileTree),
    t.SameOutside (FileTree.placeOf dir) (compiler stage source dir t).tree

open FileTree

/-- Keeps the source of a vertex stage in the work directory, which has to be there, and refuses all others. -/
def vertexCompiler : Compiler := fun stage source dir =>
  if stage = .vertex then do
    (Job.save (Path.join dir "kept.glsl") (Text.Utf8.encode source)).mapError .workDir
    pure [Spirv.magic]
  else Job.fail (.refused "not a vertex stage")

theorem placeOf_kept (dir : String) : placeOf (Path.join dir "kept.glsl") = placeOf dir ++ ["kept.glsl".toList] := by
  have hlead : Path.lead "kept.glsl".toList = (.nothing, "kept.glsl".toList) := rfl
  have hparts := Path.parts_join dir hlead
  rw [String.ofList_toList] at hparts
  rw [placeOf, hparts, goal_append]
  rfl

theorem vertexCompiler_confined : vertexCompiler.Confined := by
  intro stage source dir t q hq
  unfold vertexCompiler
  split
  · simp only [Job.bind_apply, Job.mapError, Job.as, Job.save]
    cases hsave : t.save (Path.join dir "kept.glsl") (Text.Utf8.encode source) with
    | error e => rfl
    | ok u =>
      have hne : q ≠ placeOf (Path.join dir "kept.glsl") := by
        intro hq'
        rw [hq', placeOf_kept] at hq
        exact hq (List.prefix_append _ _)
      show u.get? q = t.get? q
      rw [get?_save hsave, if_neg hne]
  · rfl

namespace Delivery

variable {compiler : Compiler} {dir : String} {t u : FileTree} {gs : List GeneratedStage} {words : List (List UInt32)}

theorem Compiled.sameOutside (hc : compiler.Confined) (h : Compiled compiler dir t gs words u) :
    t.SameOutside (placeOf dir) u := by
  induction h with
  | nil t => exact .refl _ t
  | cons _ _ ih => exact (hc _ _ _ _).trans ih

theorem Refused.sameOutside {before : List GeneratedStage} {g : GeneratedStage} {e : CompileError}
    (hc : compiler.Confined) (h : Refused compiler dir t gs before g e u) : t.SameOutside (placeOf dir) u := by
  obtain ⟨_, _, v, hbefore, _, rfl⟩ := h
  exact (hbefore.sameOutside hc).trans (hc _ _ _ v)

theorem Makes.sameOutside {order : Order} (hc : compiler.Confined) (h : Makes order compiler dir t gs words u) :
    t.SameOutside (placeOf dir) u := by
  unfold Makes at h
  split at h
  · exact h.sameOutside hc
  · rw [h.2]
    exact .refl _ t

/-- The compiler's directory in a delivery. -/
def compilerDir (order : Order) (r : Reflection) : String := workDir order.outputDir (Path.stem r.sourceName)

/-- Whether the compiler may do with a place as it likes, in a delivery for a shader. -/
def LeftToCompiler (order : Order) (r : Reflection) (q : Place) : Prop :=
  order.compile = true ∧ placeOf (compilerDir order r) <+: q

theorem Makes.get?_eq {order : Order} {r : Reflection} (hc : compiler.Confined)
    (h : Makes order compiler (compilerDir order r) t gs words u) {q : Place}
    (hq : ¬ LeftToCompiler order r q) : u.get? q = t.get? q := by
  by_cases hcompile : order.compile = true
  · exact h.sameOutside hc q fun hbelow => hq ⟨hcompile, hbelow⟩
  · obtain ⟨-, rfl⟩ : words = [] ∧ u = t := by simpa [Makes, hcompile] using h
    rfl

/-- The files of a rig are in other places. -/
theorem not_leftToCompiler_site {order : Order} {r : Reflection} {rig : Rig} {work : String}
    (h : Makes order compiler work t rig.generated words u) {p : Product}
    (hp : p ∈ files order (Path.stem r.sourceName) rig words) : ¬ LeftToCompiler order r (site order.outputDir p) := by
  obtain ⟨parent, l, hsiblings⟩ := exists_siblings order.outputDir (Path.dot_not_mem_stem r.sourceName)
  obtain ⟨x, hx, hpath⟩ := exists_suffix h hp
  obtain ⟨hext, hne⟩ := extension_suffixes hx
  intro hleft
  rw [site, hpath] at hleft
  exact hsiblings.not_work_prefix hext hne hleft.2

/-- A stage is generated for each part of the plan, in order, from the variables of the reflection. -/
theorem generated_of_plan {r : Reflection} {rig : Rig} (h : (Rig.build r).result = .ok (.ok rig)) :
    ∃ entry plan, r.entryPoints = [entry] ∧ Relay.plan? entry.stage = some plan ∧
      List.Forall₂ (fun p g => g.stage = p.relay.stage ∧ r.relaySource entry.stage p = .ok g.source)
        plan rig.generated := by
  obtain ⟨i, plan, generated, hi, hplan, hgen, rfl⟩ := Rig.build_ok_iff.mp h
  obtain ⟨entry, rs, hentry, hrs, hi'⟩ := interface_ok_iff.mp hi
  have hcounted : Counted r entry := ⟨admitted_iff.mpr hentry, collect_succeeds_iff.mp ⟨rs, hrs⟩⟩
  obtain ⟨i', hinterface, hstage, hsource⟩ := hcounted.interface
  obtain rfl : i = i' := Except.ok.inj (Except.ok.inj (hi.symm.trans hinterface))
  rw [hstage] at hplan
  refine ⟨entry, plan, hcounted.sole, hplan, (Rig.generate_ok_iff.mp hgen).imp fun p g hg => ⟨hg.1, ?_⟩⟩
  rw [← hsource]
  exact hg.2

/-- What a delivery has done when it ends before writing, and what it asks of the compiler. -/
structure BeforeWriting (order : Order) (compiler : Compiler) (r : Reflection) (t : FileTree)
    (ran : Ran Event DeliveryError (List String)) : Prop where
  skipped : ∀ reason, (Rig.build r).result = .ok (.error reason) →
    ran.result = .ok [] ∧ ran.tree = t ∧ Event.compilations ran.log = []
  failed : ∀ e, (Rig.build r).result = .error e →
    ran.result = .error (.build e) ∧ ran.tree = t ∧ Event.compilations ran.log = []
  refused : ∀ e, ran.result = .error (.compile e) →
    t.SameOutside (placeOf (compilerDir order r)) ran.tree
  /-- The output directory is not made for the work directory, which is below it unless the name is absolute. -/
  outputDir : ∀ e, ran.result = .error (.compile e) → (Path.stem r.sourceName).toList.head? ≠ some '/' →
    ran.tree.get? (placeOf order.outputDir) = t.get? (placeOf order.outputDir)
  /-- Each stage is generated before the first one is compiled. -/
  planned : ∀ rig, (Rig.build r).result = .ok (.ok rig) → ∃ entry plan, r.entryPoints = [entry] ∧
    Relay.plan? entry.stage = some plan ∧
    List.Forall₂ (fun p g => g.stage = p.relay.stage ∧ r.relaySource entry.stage p = .ok g.source) plan rig.generated
  uncompiled : order.compile = false → Event.compilations ran.log = [] ∧ ∀ e, ran.result ≠ .error (.compile e)
  /-- All stages are compiled, or all up to the first one that the compiler refuses. -/
  compiled : ∀ rig, (Rig.build r).result = .ok (.ok rig) → order.compile = true →
    (∃ words u, Compiled compiler (compilerDir order r) t rig.generated words u ∧
        Event.compilations ran.log = rig.generated.map (use (compilerDir order r)) ∧
        ∀ e, ran.result ≠ .error (.compile e)) ∨
      ∃ before g e, Refused compiler (compilerDir order r) t rig.generated before g e ran.tree ∧
        Event.compilations ran.log = (before ++ [g]).map (use (compilerDir order r)) ∧
        ran.result = .error (.compile e)

theorem WriteError.ne_compile {p : Product} {e : DeliveryError} (h : WriteError dir p t e) (e' : CompileError) :
    e ≠ .compile e' := by
  rcases h with ⟨_, _, rfl⟩ | ⟨_, _, _, rfl⟩ <;> simp

theorem outputDir_of_sameOutside {name : String} (hdot : '.' ∉ name.toList) (hhead : name.toList.head? ≠ some '/')
    (h : t.SameOutside (placeOf (workDir dir name)) u) : u.get? (placeOf dir) = t.get? (placeOf dir) := by
  obtain ⟨parent, l, hsiblings⟩ := exists_siblings dir hdot
  exact h _ (hsiblings.not_work_prefix_of_parent (hsiblings.below hhead))

section

variable {order : Order} {r : Reflection}

theorem beforeWriting_of_skip {reason : Skip} (h : (Rig.build r).result = .ok (.error reason)) (t : FileTree) :
    BeforeWriting order compiler r t (deliver order compiler r t) := by
  obtain ⟨notes, hran⟩ := deliver_of_skip order compiler t h
  have hnone : Event.compilations (notes.map .note) = [] := Event.compilations_notes notes
  rw [hran]
  constructor <;> simp [h, hnone]

theorem beforeWriting_of_error {e : BuildError} (h : (Rig.build r).result = .error e) (t : FileTree) :
    BeforeWriting order compiler r t (deliver order compiler r t) := by
  obtain ⟨notes, hran⟩ := deliver_of_error order compiler t h
  have hnone : Event.compilations (notes.map .note) = [] := Event.compilations_notes notes
  rw [hran]
  constructor <;> simp [h, hnone]

theorem beforeWriting_of_rig (hc : compiler.Confined) {rig : Rig} (h : (Rig.build r).result = .ok (.ok rig))
    (t : FileTree) : BeforeWriting order compiler r t (deliver order compiler r t) := by
  obtain ⟨ran, hran⟩ : ∃ ran, deliver order compiler r t = ran := ⟨_, rfl⟩
  rw [hran]
  have hrig : ∀ {rig'}, (Rig.build r).result = .ok (.ok rig') → rig' = rig := by
    intro rig' h'
    exact Except.ok.inj (Except.ok.inj (h'.symm.trans h))
  rcases deliver_of_rig h (show _ = compilerDir order r from rfl) hran with
    ⟨words, u, hmakes, hcalls, hend⟩ | ⟨hcompile, before, g, e, hrefused, hresult, hcalls⟩
  · have hno : ∀ e, ran.result ≠ .error (.compile e) := by
      intro e he
      rcases hend with ⟨_, hresult⟩ | ⟨_, p, e', ⟨_, v, _, hwrite, _⟩, hresult⟩
      · cases hresult.symm.trans he
      · exact hwrite.ne_compile e (Except.error.inj (hresult.symm.trans he))
    exact {
      skipped := by simp [h]
      failed := by simp [h]
      refused := fun e he => absurd he (hno e)
      outputDir := fun e he => absurd he (hno e)
      planned := fun rig' h' => hrig h' ▸ generated_of_plan h
      uncompiled := fun hplain => ⟨by simpa [hplain] using hcalls, hno⟩
      compiled := fun rig' h' hcompile => by
        rw [hrig h']
        exact Or.inl ⟨words, u, by simpa [Makes, hcompile] using hmakes, by simpa [hcompile] using hcalls, hno⟩ }
  · have hsame := hrefused.sameOutside hc
    exact {
      skipped := by simp [h]
      failed := by simp [h]
      refused := fun _ _ => hsame
      outputDir := fun _ _ hhead => outputDir_of_sameOutside (Path.dot_not_mem_stem _) hhead hsame
      planned := fun rig' h' => hrig h' ▸ generated_of_plan h
      uncompiled := fun hplain => by simp [hplain] at hcompile
      compiled := fun rig' h' _ => by
        rw [hrig h']
        exact Or.inr ⟨before, g, e, hrefused, hcalls, hresult⟩ }

end

theorem untouched_before_writing (order : Order) {compiler : Compiler} (hc : compiler.Confined) (r : Reflection)
    (t : FileTree) : BeforeWriting order compiler r t (deliver order compiler r t) := by
  rcases hbuild : (Rig.build r).result with e | reason | rig
  · exact beforeWriting_of_error hbuild t
  · exact beforeWriting_of_skip hbuild t
  · exact beforeWriting_of_rig hc hbuild t

/-! ## A shader without variables -/

def bare (name : String) (stage : Stage) : Reflection where
  sourceName := name
  stage := stage
  entryPoints := [⟨"main", stage⟩]

theorem source_bare (relay : Relay) (tested : Stage) : ∃ source, (relay.source tested []).result = .ok source := by
  have ho : ∃ o, relay.outline tested [] = .ok o := ⟨_, rfl⟩
  obtain ⟨o, ho⟩ := ho
  exact ⟨_, Relay.source_ok_iff.mpr ⟨o, ho, rfl⟩⟩

theorem build_bare (name : String) (stage : Stage) {plan : List Relay.Part} (hplan : Relay.plan? stage = some plan) :
    ∃ rig, (Rig.build (bare name stage)).result = .ok (.ok rig) ∧
      rig.generated.map (·.stage) = plan.map (·.relay.stage) := by
  have hcounted : Counted (bare name stage) ⟨"main", stage⟩ := ⟨⟨rfl, by simp [bare]⟩, by simp [bare]⟩
  obtain ⟨i, hi, hstage, -⟩ := hcounted.interface
  have hslots : ∀ m, i.mirrored m = [] := fun m => by
    rw [interfaceSlots_mirrored hi]
    cases m <;> simp [interfaceSlots, Reflection.mirrored, bare]
  have hsources : ∀ p ∈ plan, ∃ source, (p.relay.source i.stage (i.mirrored p.mirror)).result = .ok source := by
    intro p _
    rw [hslots]
    exact source_bare p.relay i.stage
  obtain ⟨generated, hgen⟩ := Rig.exists_generate hsources
  have hplan : Relay.plan? i.stage = some plan := hstage ▸ hplan
  exact ⟨_, Rig.build_ok_iff.mpr ⟨i, plan, generated, hi, hplan, hgen, rfl⟩, Rig.stages_of_generate hgen⟩

theorem exists_build_bare_fragment (name : String) : ∃ rig source,
    (Rig.build (bare name .fragment)).result = .ok (.ok rig) ∧ rig.generated = [⟨.vertex, source⟩] := by
  obtain ⟨rig, hrig, hstages⟩ := build_bare name .fragment rfl
  rcases hgenerated : rig.generated with _ | ⟨⟨stage, source⟩, _ | ⟨g, gs⟩⟩ <;> rw [hgenerated] at hstages
  · cases hstages
  · obtain rfl : stage = .vertex := (List.cons.inj hstages).1
    exact ⟨rig, source, hrig, hgenerated⟩
  · cases hstages

theorem Compiled.vertex_only {dir : String} {t u : FileTree} {gs : List GeneratedStage}
    {words : List (List UInt32)} (h : Compiled vertexCompiler dir t gs words u) : ∀ g ∈ gs, g.stage = .vertex := by
  induction h with
  | nil => simp
  | @cons t u g rest words more hg _ ih =>
    refine List.forall_mem_cons.mpr ⟨?_, ih⟩
    by_contra hstage
    simp [vertexCompiler, hstage] at hg

def patchTree : FileTree := .directory "out".toList (.directory "patch.work".toList .empty .empty) .empty

/-- The second stage around a tessellation evaluation shader is refused. -/
theorem patch_untouched : vertexCompiler.Confined ∧ ∃ e,
    (deliver ⟨"out", true, true⟩ vertexCompiler (bare "patch.tese" .tessEval) patchTree).result = .error (.compile e) ∧
      patchTree.SameOutside ["out".toList, "patch.work".toList]
        (deliver ⟨"out", true, true⟩ vertexCompiler (bare "patch.tese" .tessEval) patchTree).tree := by
  obtain ⟨rig, hbuild, hstages⟩ := build_bare "patch.tese" .tessEval rfl
  have h := untouched_before_writing ⟨"out", true, true⟩ vertexCompiler_confined (bare "patch.tese" .tessEval) patchTree
  have hplace : placeOf (workDir "out" (Path.stem "patch.tese")) = ["out".toList, "patch.work".toList] := by decide
  rcases h.compiled rig hbuild rfl with ⟨_, _, hcompiled, _⟩ | ⟨_, _, e, _, _, hresult⟩
  · have hvertex : ∀ s ∈ rig.generated.map (·.stage), s = .vertex := by
      simpa using hcompiled.vertex_only
    rw [hstages] at hvertex
    exact absurd (hvertex .tessControl (by decide)) (by decide)
  · exact ⟨vertexCompiler_confined, e, hresult, hplace ▸ h.refused e hresult⟩

end Delivery

end StageRig
