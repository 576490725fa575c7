/-
  StageRig.Proofs.Delivery.Contained — where a delivery writes.

  - `stays_in_outputDir`: each file that is written, and the work directory of the
    compiler, is in the output directory itself, if the source name has a file name.
  - `stray_file`: a source name without one can have slashes in what counts as its stem.
    Then files are written elsewhere, if there is a directory for them.
-/

import StageRig.Proofs.Delivery.Announced

namespace StageRig.Delivery

open FileTree

/-- A path takes one more step than another, to a name. -/
def Child (dir path : String) : Prop := ∃ n, Path.parts path = Path.parts dir ++ [.name n]

theorem Child.placeOf_eq {dir path : String} (h : Child dir path) : ∃ n, placeOf path = placeOf dir ++ [n] := by
  obtain ⟨n, hparts⟩ := h
  refine ⟨n, ?_⟩
  rw [placeOf, hparts, goal_append]
  rfl

/-- What a delivery has written, and would have, is in the output directory itself. -/
structure Contained (order : Order) (r : Reflection) (t : FileTree) (ran : Ran Event DeliveryError (List String)) :
    Prop where
  files : ∀ q content, ran.tree.get? q = some (.file content) → t.get? q ≠ some (.file content) →
    LeftToCompiler order r q ∨ ∃ n, q = placeOf order.outputDir ++ [n]
  written : ∀ paths, ran.result = .ok paths → ∀ path ∈ paths, Child order.outputDir path
  failed : ∀ path e, ran.result = .error (.write path e) → Child order.outputDir path
  workDirs : ∀ c ∈ Event.compilations ran.log, Child order.outputDir c.workDir

theorem child_of_stem {dir name : String} (hdot : '.' ∉ name.toList) (hslash : '/' ∉ name.toList) {x : String}
    (hx : Path.Extension x.toList) : Child dir (Path.join dir (name ++ x)) := by
  obtain ⟨parent, l, hsiblings⟩ := exists_siblings dir hdot
  exact ⟨_, (hsiblings.child hslash).2 x hx⟩

section

variable {order : Order} {compiler : Compiler} {r : Reflection} {t : FileTree}
  {ran : Ran Event DeliveryError (List String)}

theorem contained_of_unchanged (htree : ran.tree = t) (hwritten : ∀ paths, ran.result = .ok paths → paths = [])
    (hfailed : ∀ path e, ran.result ≠ .error (.write path e)) (hcalls : Event.compilations ran.log = []) :
    Contained order r t ran where
  files q content hnew hold := absurd (htree ▸ hnew) hold
  written paths h path hpath := by simp [hwritten paths h] at hpath
  failed path e h := absurd h (hfailed path e)
  workDirs c h := by simp [hcalls] at h

theorem child_of_use {dir name : String} (hdot : '.' ∉ name.toList) (hslash : '/' ∉ name.toList)
    {gs : List GeneratedStage} {c : Compilation} (h : c ∈ gs.map (use (workDir dir name))) : Child dir c.workDir := by
  obtain ⟨g, -, rfl⟩ := List.mem_map.mp h
  exact child_of_stem hdot hslash ⟨'w', _, rfl, by decide, by decide⟩

theorem child_of_file (hslash : '/' ∉ (Path.stem r.sourceName).toList) {rig : Rig} {words : List (List UInt32)}
    {work : String} {u : FileTree} (hmakes : Makes order compiler work t rig.generated words u) {p : Product}
    (hp : p ∈ files order (Path.stem r.sourceName) rig words) :
    Child order.outputDir (Path.join order.outputDir p.path) := by
  obtain ⟨x, hx, hpath⟩ := exists_suffix hmakes hp
  rw [hpath]
  exact child_of_stem (Path.dot_not_mem_stem _) hslash (extension_suffixes hx).1

theorem contained_of_rig (hc : compiler.Confined) (hslash : '/' ∉ (Path.stem r.sourceName).toList) {rig : Rig}
    (hrig : (Rig.build r).result = .ok (.ok rig)) (hran : deliver order compiler r t = ran) :
    Contained order r t ran := by
  have hdot := Path.dot_not_mem_stem r.sourceName
  rcases deliver_of_rig hrig (show _ = compilerDir order r from rfl) hran with
    ⟨words, u, hmakes, hcalls, hend⟩ | ⟨hcompile, before, g, e, hrefused, hresult, hcalls⟩
  · have hchild : ∀ p ∈ files order (Path.stem r.sourceName) rig words,
        Child order.outputDir (Path.join order.outputDir p.path) := fun p hp => child_of_file hslash hmakes hp
    have hworkDirs : ∀ c ∈ Event.compilations ran.log, Child order.outputDir c.workDir := by
      intro c h
      rw [hcalls] at h
      split at h
      · exact child_of_use hdot hslash h
      · cases h
    have hnew : ∀ q ∈ (files order (Path.stem r.sourceName) rig words).map (site order.outputDir),
        ∃ n, q = placeOf order.outputDir ++ [n] := by
      intro q hq
      obtain ⟨p, hp, rfl⟩ := List.mem_map.mp hq
      exact (hchild p hp).placeOf_eq
    have hout : ∀ {q content}, ¬ LeftToCompiler order r q → t.get? q ≠ some (.file content) →
        u.get? q ≠ some (.file content) := by
      intro q content hq hold
      rwa [hmakes.get?_eq hc hq]
    rcases hend with ⟨hwritten, hresult⟩ | ⟨before, p, e, hunwritten, hresult⟩
    · exact {
        files := fun q content hq hold => or_iff_not_imp_left.mpr fun hleft =>
          hnew q (hwritten.mem_of_new hq (hout hleft hold))
        written := fun paths h path hpath => by
          obtain rfl := Except.ok.inj (h.symm.trans hresult)
          obtain ⟨p, hp, rfl⟩ := List.mem_map.mp hpath
          exact hchild p hp
        failed := by simp [hresult]
        workDirs := hworkDirs }
    · exact {
        files := fun q content hq hold => or_iff_not_imp_left.mpr fun hleft =>
          hnew q (hunwritten.mem_of_new hq (hout hleft hold))
        written := by simp [hresult]
        failed := fun path e' h => by
          obtain rfl := Except.error.inj (h.symm.trans hresult)
          obtain ⟨⟨after, hsplit⟩, v, -, hwrite, -⟩ := hunwritten
          rcases hwrite with ⟨_, _, h⟩ | ⟨_, _, _, h⟩
          · cases h
          · cases h
            exact hchild p (by simp [hsplit])
        workDirs := hworkDirs }
  · have hsame := hrefused.sameOutside hc
    exact {
      files := fun q content hnew hold => by
        by_cases hq : placeOf (compilerDir order r) <+: q
        · exact Or.inl ⟨hcompile, hq⟩
        · exact absurd (hsame q hq ▸ hnew) hold
      written := by simp [hresult]
      failed := by simp [hresult]
      workDirs := fun c h => child_of_use hdot hslash (hcalls ▸ h) }

end

theorem stays_in_outputDir (order : Order) {compiler : Compiler} (hc : compiler.Confined) {r : Reflection}
    (t : FileTree) (hname : Path.fileName? r.sourceName = none → '/' ∉ r.sourceName.toList.takeWhile (· ≠ '.')) :
    Contained order r t (deliver order compiler r t) := by
  have hslash : '/' ∉ (Path.stem r.sourceName).toList := by
    rw [Path.slash_mem_stem_iff]
    exact fun ⟨hnone, hmem⟩ => hname hnone hmem
  obtain ⟨ran, hran⟩ : ∃ ran, deliver order compiler r t = ran := ⟨_, rfl⟩
  rw [hran]
  rcases hbuild : (Rig.build r).result with e | reason | rig
  · obtain ⟨notes, hfailed⟩ := deliver_of_error order compiler t hbuild
    rw [← hran, hfailed]
    exact contained_of_unchanged rfl (by simp) (by simp) (Event.compilations_notes notes)
  · obtain ⟨notes, hskipped⟩ := deliver_of_skip order compiler t hbuild
    rw [← hran, hskipped]
    exact contained_of_unchanged rfl (by simp) (by simp) (Event.compilations_notes notes)
  · exact contained_of_rig hc hslash hbuild hran

theorem quad_stays : vertexCompiler.Confined ∧
    (Path.fileName? "lib/quad.frag" = none → '/' ∉ "lib/quad.frag".toList.takeWhile (· ≠ '.')) ∧
    (deliver ⟨"out", true, true⟩ vertexCompiler (bare "lib/quad.frag" .fragment) quadTree).result =
      .ok ["out/quad.vert.glsl", "out/quad.vert.spv", "out/quad.json"] ∧
    Contained ⟨"out", true, true⟩ (bare "lib/quad.frag" .fragment) quadTree
      (deliver ⟨"out", true, true⟩ vertexCompiler (bare "lib/quad.frag" .fragment) quadTree) := by
  have hname : Path.fileName? "lib/quad.frag" = none → '/' ∉ "lib/quad.frag".toList.takeWhile (· ≠ '.') := by decide
  obtain ⟨rig, hrig, hresult⟩ := quad_delivered "lib/quad.frag" (by decide)
  exact ⟨vertexCompiler_confined, hname, hresult, stays_in_outputDir _ vertexCompiler_confined _ hname⟩

/-- A tree of the directories `out` and `out/a`. -/
def strayTree : FileTree := .directory "out".toList (.directory "a".toList .empty .empty) .empty

/-- The source name `a/..` has no file name, and its stem is `a/`. -/
theorem stray_file : vertexCompiler.Confined ∧
    (deliver ⟨"out", false, false⟩ vertexCompiler (bare "a/.." .fragment) strayTree).result = .ok ["out/a/.vert.glsl"] ∧
    (∃ content, (deliver ⟨"out", false, false⟩ vertexCompiler (bare "a/.." .fragment) strayTree).tree.get?
      ["out".toList, "a".toList, ".vert.glsl".toList] = some (.file content)) ∧
    strayTree.get? ["out".toList, "a".toList, ".vert.glsl".toList] = none ∧
    ¬ ∃ n, ["out".toList, "a".toList, ".vert.glsl".toList] = placeOf "out" ++ [n] := by
  obtain ⟨rig, source, hrig, hgen⟩ := exists_build_bare_fragment "a/.."
  have hfiles : files ⟨"out", false, false⟩ (Path.stem "a/..") rig [] = [sourceFile "a/" ⟨.vertex, source⟩] := by
    simp only [files, hgen]
    rfl
  have hpath : Path.join "out" (sourceFile "a/" ⟨.vertex, source⟩).path = "out/a/.vert.glsl" := by
    have hsource : (sourceFile "a/" ⟨.vertex, source⟩).path = "a/" ++ "." ++ "vert" ++ ".glsl" := rfl
    rw [hsource]
    decide
  let v : FileTree := .directory "out".toList
    (.directory "a".toList (.file ".vert.glsl".toList (Text.Utf8.encode source) .empty) .empty) .empty
  have hwritten : Written "out" strayTree [sourceFile "a/" ⟨.vertex, source⟩] v :=
    .cons rfl (by rw [hpath]; rfl) (.nil v)
  rw [← hfiles] at hwritten
  have hmakes : Makes ⟨"out", false, false⟩ vertexCompiler (workDir "out" (Path.stem "a/..")) strayTree rig.generated []
      strayTree := by simp [Makes]
  obtain ⟨htree, hresult⟩ := deliver_of_makes hrig rfl hmakes hwritten
  refine ⟨vertexCompiler_confined, ?_, ⟨Text.Utf8.encode source, by rw [htree]; rfl⟩, rfl, ?_⟩
  · rw [hresult]
    show Except.ok ((files ⟨"out", false, false⟩ (Path.stem "a/..") rig []).map _) = _
    rw [hfiles, List.map_singleton, hpath]
  · rintro ⟨n, hn⟩
    have hplace : placeOf "out" = ["out".toList] := by decide
    rw [hplace] at hn
    simpa using congrArg List.length hn

end StageRig.Delivery
