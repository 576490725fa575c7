/-
  StageRig.Proofs.Delivery.Halted — what a delivery leaves when a file cannot be written.

  All files are made before the first one is written, so a delivery that fails at a file
  has written those before it, each in full, and no other.

  - `Unwritten.position`: making the output directory fails before the first file or never.
  - `Unwritten.content`, `Unwritten.not_mem_of_later`: the files before the one that fails
    are there, and no other has the place of one of them.
  - `failed_write_keeps_rest`: what such a delivery has written, and that the rest of the
    tree is as it was, but for missing directories on the way to the output directory.
-/

import StageRig.Proofs.Delivery.Announced

namespace StageRig

open FileTree

/-- The error is one of writing: the output directory was not made, or a file was not saved. -/
def DeliveryError.OfWriting (e : DeliveryError) : Prop := (∃ e', e = .outputDir e') ∨ ∃ path e', e = .write path e'

namespace Delivery

/-! ## Up to the file that fails -/

section

variable {dir : String} {t u : FileTree} {ps before : List Product} {p : Product} {e : DeliveryError}

/-- Once a file is written, the directory is there. -/
theorem WriteError.first {v : FileTree} (hwritten : Written dir t before v) (h : WriteError dir p v e) :
    (∃ e', e = .write (Path.join dir p.path) e') ∨ before = [] ∧ ∃ e', e = .outputDir e' := by
  rcases h with ⟨e', hmade, rfl⟩ | ⟨e', -, -, rfl⟩
  · refine Or.inr ⟨?_, e', rfl⟩
    by_contra hsome
    obtain ⟨hrefusal, hshort, hway⟩ := hwritten.way hsome
    rw [makeDirs_present hrefusal hshort hway] at hmade
    cases hmade
  · exact Or.inl ⟨e', rfl⟩

theorem Unwritten.position (h : Unwritten dir t ps before p e u) :
    ps[before.length]? = some p ∧
      ((∃ e', e = .write (Path.join dir p.path) e') ∨ before.length = 0 ∧ ∃ e', e = .outputDir e') := by
  obtain ⟨⟨after, rfl⟩, v, hwritten, herror, -⟩ := h
  refine ⟨by simp, ?_⟩
  rw [List.length_eq_zero_iff]
  exact herror.first hwritten

theorem Unwritten.content (h : Unwritten dir t ps before p e u) (hps : (ps.map (site dir)).Nodup) {q : Product}
    (hq : q ∈ before) :
    u.locate (Path.join dir q.path) = .ok (site dir q) ∧ u.get? (site dir q) = some (.file q.content) := by
  obtain ⟨⟨after, rfl⟩, v, hwritten, -, rfl⟩ := h
  rw [List.map_append] at hps
  obtain ⟨hlocate, hget⟩ := hwritten.content hps.of_append_left hq
  -- What fails has made directories at most.
  have hmade := grown_makeDirs v dir
  exact ⟨locate_mono hlocate fun _ hdir => hmade.get?_of_some hdir, hmade.get?_of_some hget⟩

/-- A file from the one that fails on is not in the place of one before it. -/
theorem Unwritten.not_mem_of_later (h : Unwritten dir t ps before p e u) (hps : (ps.map (site dir)).Nodup)
    {q : Product} (hq : q ∈ ps.drop before.length) : site dir q ∉ before.map (site dir) := by
  obtain ⟨⟨after, rfl⟩, -⟩ := h
  rw [List.drop_left] at hq
  rw [List.map_append] at hps
  exact fun hmem => (List.disjoint_of_nodup_append hps) hmem (List.mem_map_of_mem hq)

end

/-! ## The delivery -/

/-- A delivery has made the files `ps` and fails at the one with the number `k`, with the error `e`: the tree was `t`
and is `v`. -/
structure Halted (order : Order) (r : Reflection) (t : FileTree) (ps : List Product) (k : Nat) (e : DeliveryError)
    (v : FileTree) : Prop where
  /-- The file cannot be saved, or it is the first one and the output directory cannot be made. -/
  position : ∃ p, ps[k]? = some p ∧
    ((∃ e', e = .write (Path.join order.outputDir p.path) e') ∨ k = 0 ∧ ∃ e', e = .outputDir e')
  written : ∀ p ∈ ps.take k, v.load (Path.join order.outputDir p.path) = .ok p.content
  /-- No other file is created or changed. -/
  later : ∀ p ∈ ps.drop k, ∀ content,
    v.get? (site order.outputDir p) = some (.file content) ↔ t.get? (site order.outputDir p) = some (.file content)
  /-- Elsewhere everything is as it was, or a directory where nothing was, on the way to the output directory. -/
  frame : ∀ q, q ∉ (ps.take k).map (site order.outputDir) → ¬ LeftToCompiler order r q →
    v.get? q = t.get? q ∨ q ∈ wayTo order.outputDir ∧ t.get? q = none ∧ v.get? q = some .directory
  directories : ∀ q, v.get? q = some .directory → t.get? q ≠ some .directory → ¬ LeftToCompiler order r q →
    q ∈ wayTo order.outputDir ∧ t.get? q = none

section

variable {order : Order} {compiler : Compiler} {r : Reflection} {rig : Rig} {t u v : FileTree}
  {words : List (List UInt32)} {before : List Product} {p : Product} {e : DeliveryError}

theorem halted_of_unwritten (hc : compiler.Confined) (hrig : (Rig.build r).result = .ok (.ok rig))
    (hmakes : Makes order compiler (compilerDir order r) t rig.generated words u)
    (h : Unwritten order.outputDir u (files order (Path.stem r.sourceName) rig words) before p e v) :
    Halted order r t (files order (Path.stem r.sourceName) rig words) before.length e v := by
  obtain ⟨ps, hps⟩ : ∃ ps, files order (Path.stem r.sourceName) rig words = ps := ⟨_, rfl⟩
  have hnodup : (ps.map (site order.outputDir)).Nodup :=
    hps ▸ nodup_sites hmakes (Rig.nodup_stages hrig) (Path.dot_not_mem_stem _)
  have hout : ∀ p ∈ ps, ¬ LeftToCompiler order r (site order.outputDir p) :=
    fun p hp => not_leftToCompiler_site hmakes (hps ▸ hp)
  rw [hps] at h ⊢
  have hbefore : ps.take before.length = before := by
    obtain ⟨after, rfl⟩ := h.split
    exact List.take_left
  have hframe : ∀ q, q ∉ before.map (site order.outputDir) → ¬ LeftToCompiler order r q →
      v.get? q = t.get? q ∨ q ∈ wayTo order.outputDir ∧ t.get? q = none ∧ v.get? q = some .directory := by
    intro q hq hleft
    rw [← hmakes.get?_eq hc hleft]
    exact h.frame hq
  constructor
  case position => exact ⟨p, h.position⟩
  case written =>
    rw [hbefore]
    intro q hq
    obtain ⟨hlocate, hget⟩ := h.content hnodup hq
    exact load_of_get? hlocate hget
  case later =>
    intro q hq content
    rcases hframe _ (h.not_mem_of_later hnodup hq) (hout q (List.mem_of_mem_drop hq)) with hsame | ⟨-, hnone, hdir⟩
    · rw [hsame]
    · simp [hnone, hdir]
  case frame =>
    rw [hbefore]
    exact hframe
  case directories =>
    intro q hdir hold hleft
    by_cases hq : q ∈ before.map (site order.outputDir)
    · -- There is a file in each of these places.
      obtain ⟨p', hp', rfl⟩ := List.mem_map.mp hq
      cases hdir.symm.trans (h.content hnodup hp').2
    · rcases hframe q hq hleft with hsame | ⟨hway, hnone, -⟩
      · exact absurd (hsame ▸ hdir) hold
      · exact ⟨hway, hnone⟩

/-- Only a rig has files to write. -/
theorem exists_rig_of_writing (hfail : (deliver order compiler r t).result = .error e) (hwriting : e.OfWriting) :
    ∃ rig, (Rig.build r).result = .ok (.ok rig) := by
  rcases hbuild : (Rig.build r).result with e' | reason | rig
  · obtain ⟨notes, hdeliver⟩ := deliver_of_error order compiler t hbuild
    rw [hdeliver] at hfail
    cases hfail
    simp [DeliveryError.OfWriting] at hwriting
  · obtain ⟨notes, hdeliver⟩ := deliver_of_skip order compiler t hbuild
    rw [hdeliver] at hfail
    cases hfail
  · exact ⟨rig, rfl⟩

end

theorem failed_write_keeps_rest (order : Order) {compiler : Compiler} (hc : compiler.Confined) {r : Reflection}
    (t : FileTree) {e : DeliveryError} (hfail : (deliver order compiler r t).result = .error e)
    (hwriting : e.OfWriting) :
    ∃ rig ps k, (Rig.build r).result = .ok (.ok rig) ∧ (prepare order compiler rig t).result = .ok ps ∧
      Halted order r t ps k e (deliver order compiler r t).tree := by
  obtain ⟨rig, hrig⟩ := exists_rig_of_writing hfail hwriting
  obtain ⟨ran, hran⟩ : ∃ ran, deliver order compiler r t = ran := ⟨_, rfl⟩
  rw [hran] at hfail ⊢
  rcases deliver_of_rig hrig (show _ = compilerDir order r from rfl) hran with
    ⟨words, u, hmakes, -, ⟨-, hresult⟩ | ⟨before, p, e', hunwritten, hresult⟩⟩ | ⟨-, _, _, e', -, hresult, -⟩
  · cases hfail.symm.trans hresult
  · obtain rfl := Except.error.inj (hfail.symm.trans hresult)
    have hname := sourceName_of_build hrig
    have hdir : workDir order.outputDir (Path.stem rig.sourceName) = compilerDir order r := by rw [hname, compilerDir]
    have hprepared := (prepare_of_makes hdir hmakes).2
    rw [hname] at hprepared
    exact ⟨rig, _, before.length, hrig, hprepared, halted_of_unwritten hc hrig hmakes hunwritten⟩
  · -- A stage was refused.
    obtain rfl := Except.error.inj (hfail.symm.trans hresult)
    simp [DeliveryError.OfWriting] at hwriting

/-- In `out` there are the directories `quad.work` and `quad.vert.spv`. -/
def blockedTree : FileTree :=
  .directory "out".toList
    (.directory "quad.work".toList .empty (.directory "quad.vert.spv".toList .empty .empty)) .empty

/-- The compiler takes the one stage of the rig. -/
theorem not_refused_blocked {gs before : List GeneratedStage} {g : GeneratedStage} {source : String} {e : CompileError}
    {u : FileTree} (hgs : gs = [⟨.vertex, source⟩]) :
    ¬ Refused vertexCompiler (workDir "out" (Path.stem "quad.frag")) blockedTree gs before g e u := by
  rintro ⟨⟨after, hsplit⟩, words, v, hbefore, hrefused, -⟩
  rw [hgs] at hsplit
  obtain ⟨rfl, hg, -⟩ : before = [] ∧ g = ⟨.vertex, source⟩ ∧ after = [] := by
    cases before <;> simp_all
  cases hbefore
  have htaken : (vertexCompiler .vertex source (workDir "out" (Path.stem "quad.frag")) blockedTree).result =
      .ok [Spirv.magic] := rfl
  rw [hg, htaken] at hrefused
  cases hrefused

/-- The second file of the rig has a directory in its place. -/
theorem not_written_blocked {rig : Rig} {source : String}
    (hrig : (Rig.build (bare "quad.frag" .fragment)).result = .ok (.ok rig))
    (hgen : rig.generated = [⟨.vertex, source⟩]) {words : List (List UInt32)} {u v : FileTree}
    (hmakes : Makes ⟨"out", true, true⟩ vertexCompiler (compilerDir ⟨"out", true, true⟩ (bare "quad.frag" .fragment))
      blockedTree rig.generated words u) :
    ¬ Written "out" u (files ⟨"out", true, true⟩ (Path.stem "quad.frag") rig words) v := by
  intro hwritten
  have hfiles : List.Forall₂ (fun g ws => wordsFile (Path.stem "quad.frag") g ws ∈
      files ⟨"out", true, true⟩ (Path.stem "quad.frag") rig words) rig.generated words := wordsFile_mem hmakes rfl
  rw [hgen] at hfiles
  obtain ⟨ws, -, hws, -, -⟩ := List.forall₂_cons_left_iff.mp hfiles
  have hsite : site "out" (wordsFile (Path.stem "quad.frag") ⟨.vertex, source⟩ ws) =
      ["out".toList, "quad.vert.spv".toList] := by
    rw [site, path_wordsFile]
    show placeOf (Path.join "out" (Path.stem "quad.frag" ++ s!".{Stage.vertex.extension}.spv")) = _
    decide
  have hdir : u.get? ["out".toList, "quad.vert.spv".toList] = some .directory := by
    rw [hmakes.get?_eq vertexCompiler_confined fun hleft => absurd hleft.2 (by decide)]
    rfl
  have hfile := (content_of_written hrig hmakes hwritten hws).2
  rw [hsite, hwritten.keeps hdir] at hfile
  cases hfile

theorem blocked_quad_fails : ∃ e,
    (deliver ⟨"out", true, true⟩ vertexCompiler (bare "quad.frag" .fragment) blockedTree).result = .error e ∧
      e.OfWriting := by
  obtain ⟨rig, source, hrig, hgen⟩ := exists_build_bare_fragment "quad.frag"
  obtain ⟨ran, hran⟩ : ∃ ran,
    deliver ⟨"out", true, true⟩ vertexCompiler (bare "quad.frag" .fragment) blockedTree = ran := ⟨_, rfl⟩
  rw [hran]
  rcases deliver_of_rig hrig (show _ = compilerDir ⟨"out", true, true⟩ (bare "quad.frag" .fragment) from rfl) hran with
    ⟨words, u, hmakes, -, ⟨hwritten, -⟩ | ⟨before, p, e, hunwritten, hresult⟩⟩ | ⟨-, before, g, e, hrefused, -, -⟩
  · exact absurd hwritten (not_written_blocked hrig hgen hmakes)
  · refine ⟨e, hresult, ?_⟩
    rcases hunwritten.position.2 with ⟨e', rfl⟩ | ⟨-, e', rfl⟩
    · exact Or.inr ⟨_, e', rfl⟩
    · exact Or.inl ⟨e', rfl⟩
  · exact absurd hrefused (not_refused_blocked hgen)

theorem blocked_quad_keeps_rest : vertexCompiler.Confined ∧ ∃ e,
    (deliver ⟨"out", true, true⟩ vertexCompiler (bare "quad.frag" .fragment) blockedTree).result = .error e ∧
      e.OfWriting ∧ ∃ rig ps k, (Rig.build (bare "quad.frag" .fragment)).result = .ok (.ok rig) ∧
        (prepare ⟨"out", true, true⟩ vertexCompiler rig blockedTree).result = .ok ps ∧
        Halted ⟨"out", true, true⟩ (bare "quad.frag" .fragment) blockedTree ps k e
          (deliver ⟨"out", true, true⟩ vertexCompiler (bare "quad.frag" .fragment) blockedTree).tree := by
  obtain ⟨e, hfail, hwriting⟩ := blocked_quad_fails
  exact ⟨vertexCompiler_confined, e, hfail, hwriting,
    failed_write_keeps_rest _ vertexCompiler_confined _ hfail hwriting⟩

end Delivery

end StageRig
