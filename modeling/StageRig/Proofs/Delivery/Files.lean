/-
  StageRig.Proofs.Delivery.Files — where the files of a rig are, and what writing them leaves.

  The files of one rig are siblings: they have one directory and are told apart by what
  they add to the name of the shader, also where that name has slashes. The work directory
  of the compilations is a sibling of theirs.

  - `nodup_suffixes`: what is added to the name is different for each file.
  - `exists_siblings`: the places of the files and of the work directory.
  - `Written.frame`, `Written.content`: what is there after files were written.
  - `exists_written`, `written_again`: where files can be written, and that writing them over
    themselves changes nothing.
-/

import Mathlib.Data.List.Nodup
import StageRig.Proofs.Delivery
import StageRig.Proofs.Path

namespace StageRig

/-! ## Names -/

theorem Rig.stages_of_generate {i : Interface} {plan : List Relay.Part} {generated : List GeneratedStage}
    (h : (generate i plan).result = .ok generated) : generated.map (·.stage) = plan.map (·.relay.stage) := by
  have hstages : List.Forall₂ Eq (generated.map (·.stage)) (plan.map (·.relay.stage)) := by
    rw [List.forall₂_map_left_iff, List.forall₂_map_right_iff]
    exact (Rig.generate_ok_iff.mp h).flip.imp fun g p hg => hg.1
  rwa [List.forall₂_eq_eq_eq] at hstages

/-- The stages of a plan are different. -/
theorem Rig.nodup_stages {r : Reflection} {rig : Rig} (h : (Rig.build r).result = .ok (.ok rig)) :
    (rig.generated.map (·.stage)).Nodup := by
  obtain ⟨i, plan, generated, _, hplan, hgen, rfl⟩ := Rig.build_ok_iff.mp h
  rw [stages_of_generate hgen]
  cases hstage : i.stage <;> rw [hstage, Relay.plan?] at hplan <;> cases hplan <;> decide

namespace Delivery

/-- What the names of a stage's files add to the name of the shader. -/
def stageSuffixes (compile : Bool) (s : Stage) : List String :=
  s!".{s.extension}.glsl" :: if compile then [s!".{s.extension}.spv"] else []

/-- What the names of the files add to the name of the shader. -/
def suffixes (order : Order) (gs : List GeneratedStage) : List String :=
  gs.flatMap (fun g => stageSuffixes order.compile g.stage) ++ if order.summary then [".json"] else []

theorem extension_stageSuffixes {compile : Bool} {s : Stage} {x : String} (hx : x ∈ stageSuffixes compile s) :
    Path.Extension x.toList := by
  simp only [stageSuffixes, List.mem_cons, List.mem_ite_nil_right, List.not_mem_nil, or_false] at hx
  rcases hx with rfl | ⟨-, rfl⟩ <;> cases s <;> exact ⟨_, _, rfl, by decide, by decide⟩

/-- Files of different stages have different names. -/
theorem disjoint_stageSuffixes {compile : Bool} {s s' : Stage} (h : s ≠ s') :
    ∀ x ∈ stageSuffixes compile s, x ∉ stageSuffixes compile s' := by
  cases compile <;> cases s <;> cases s' <;> first | contradiction | decide

theorem nodup_stageSuffixes (compile : Bool) (s : Stage) :
    (stageSuffixes compile s).Nodup ∧ ".json" ∉ stageSuffixes compile s ∧ ".work" ∉ stageSuffixes compile s := by
  cases compile <;> cases s <;> decide

theorem extension_suffixes {order : Order} {gs : List GeneratedStage} {x : String} (hx : x ∈ suffixes order gs) :
    Path.Extension x.toList ∧ x ≠ ".work" := by
  rw [suffixes, List.mem_append, List.mem_flatMap, List.mem_ite_nil_right, List.mem_singleton] at hx
  rcases hx with ⟨g, _, hx⟩ | ⟨_, rfl⟩
  · exact ⟨extension_stageSuffixes hx, fun h => (nodup_stageSuffixes _ _).2.2 (h ▸ hx)⟩
  · exact ⟨⟨'j', _, rfl, by decide, by decide⟩, by decide⟩

theorem nodup_suffixes (order : Order) {gs : List GeneratedStage} (h : (gs.map (·.stage)).Nodup) :
    (suffixes order gs).Nodup := by
  have hstages : (gs.flatMap fun g => stageSuffixes order.compile g.stage).Nodup := by
    rw [List.nodup_flatMap]
    refine ⟨fun g _ => (nodup_stageSuffixes _ _).1, ?_⟩
    exact (List.pairwise_map.mp h).imp fun hne x hx hx' => disjoint_stageSuffixes hne x hx hx'
  rw [suffixes, List.nodup_append]
  refine ⟨hstages, ?_, ?_⟩
  · split <;> simp
  · intro x hx y hy hxy
    obtain ⟨-, rfl⟩ := List.mem_ite_nil_right.mp hy |>.imp_right List.mem_singleton.mp
    obtain ⟨g, _, hx⟩ := List.mem_flatMap.mp hx
    exact (nodup_stageSuffixes _ _).2.1 (hxy ▸ hx)

theorem path_sourceFile (name : String) (g : GeneratedStage) :
    (sourceFile name g).path = name ++ s!".{g.stage.extension}.glsl" := by
  show name ++ "." ++ g.stage.extension ++ ".glsl" = name ++ ("." ++ g.stage.extension ++ ".glsl")
  simp only [String.append_assoc]

theorem path_wordsFile (name : String) (g : GeneratedStage) (words : List UInt32) :
    (wordsFile name g words).path = name ++ s!".{g.stage.extension}.spv" := by
  show name ++ "." ++ g.stage.extension ++ ".spv" = name ++ ("." ++ g.stage.extension ++ ".spv")
  simp only [String.append_assoc]

theorem paths_compiledFiles {compiler : Compiler} {dir : String} {t u : FileTree} {gs : List GeneratedStage}
    {words : List (List UInt32)} (h : Compiled compiler dir t gs words u) (name : String) :
    (compiledFiles name gs words).map (·.path) = gs.flatMap fun g => (stageSuffixes true g.stage).map (name ++ ·) := by
  induction h with
  | nil => rfl
  | @cons t u g rest words more _ _ ih =>
    have hg : (compiledFiles name (g :: rest) (words :: more)) =
        sourceFile name g :: wordsFile name g words :: compiledFiles name rest more := rfl
    rw [hg, List.map_cons, List.map_cons, ih, List.flatMap_cons, path_sourceFile, path_wordsFile]
    rfl

/-- The names of the files are the announced ones. -/
theorem paths_files {order : Order} {compiler : Compiler} {dir : String} {t u : FileTree} {rig : Rig}
    {words : List (List UInt32)} (h : Makes order compiler dir t rig.generated words u) (name : String) :
    (files order name rig words).map (·.path) = (suffixes order rig.generated).map (name ++ ·) := by
  have hsummary : (if order.summary then [summaryFile name rig.summary] else []).map (·.path) =
      (if order.summary then [".json"] else []).map (name ++ ·) := by
    split <;> rfl
  rw [files, suffixes, List.map_append, List.map_append, hsummary, List.map_flatMap]
  congr 1
  unfold Makes at h
  cases hcompile : order.compile with
  | true =>
    rw [hcompile] at h
    exact paths_compiledFiles h name
  | false =>
    have hplain : ∀ g : GeneratedStage, (stageSuffixes false g.stage).map (name ++ ·) = [(sourceFile name g).path] := by
      intro g
      rw [path_sourceFile]
      rfl
    simp only [Bool.false_eq_true, if_false, hplain]
    rw [List.map_map, List.map_eq_flatMap]
    rfl

end Delivery

/-! ## Places -/

open FileTree

/-- The files that are named after a shader are siblings in `parent`. -/
structure Siblings (dir name : String) (parent : Place) (l : List Char) : Prop where
  place : ∀ x : String, Path.Extension x.toList → placeOf (Path.join dir (name ++ x)) = parent ++ [l ++ x.toList]
  /-- The way to each of them leads to the directory first, or straight down to `parent`. -/
  way : ∀ x : String, Path.Extension x.toList → ∀ front n, Path.parts (Path.join dir (name ++ x)) = front ++ [.name n] →
    ∀ q ∈ way [] front, q ∈ wayTo dir ∨ q <+: parent
  /-- Unless the name is absolute, they are somewhere below the directory. -/
  below : name.toList.head? ≠ some '/' → placeOf dir <+: parent
  /-- Unless the name has slashes, they are in the directory itself. -/
  child : '/' ∉ name.toList → parent = placeOf dir ∧ ∀ x : String, Path.Extension x.toList →
    Path.parts (Path.join dir (name ++ x)) = Path.parts dir ++ [.name (name.toList ++ x.toList)]

theorem exists_siblings (dir : String) {name : String} (hdot : '.' ∉ name.toList) :
    ∃ parent l, Siblings dir name parent l := by
  obtain ⟨front, l, hparts, hfront⟩ := Path.exists_siblings dir hdot
  have hjoin : ∀ x : String, Path.Extension x.toList →
      Path.parts (Path.join dir (name ++ x)) = front ++ [.name (l ++ x.toList)] := by
    intro x hx
    rw [← hparts x.toList hx, ← String.toList_append, String.ofList_toList]
  refine ⟨goal [] front, l, fun x hx => ?_, fun x hx front' n hfront' q hq => ?_, fun hhead => ?_, fun hslash => ?_⟩
  · rw [placeOf, hjoin x hx, goal_append]
    rfl
  · obtain rfl : front = front' := (List.append_inj' ((hjoin x hx).symm.trans hfront') rfl).1
    rcases hfront with ⟨-, rfl, -⟩ | ⟨-, names, hnames, rfl | ⟨-, rfl⟩⟩
    · exact Or.inl hq
    · rw [way_append, List.mem_append] at hq
      rw [goal_append]
      exact hq.imp_right (prefix_of_mem_way hnames)
    · rcases List.mem_cons.mp hq with rfl | hq
      · exact Or.inr List.nil_prefix
      · rw [goal_cons]
        exact Or.inr (prefix_of_mem_way hnames hq)
  · rcases hfront with ⟨-, rfl, -⟩ | ⟨-, names, hnames, rfl | ⟨habsolute, -⟩⟩
    · exact List.prefix_rfl
    · rw [goal_append]
      exact prefix_goal hnames
    · exact absurd habsolute hhead
  · rcases hfront with ⟨-, rfl, rfl⟩ | ⟨hmem, _⟩
    · exact ⟨rfl, hjoin⟩
    · exact absurd hmem hslash

namespace Siblings

variable {dir name : String} {parent : Place} {l : List Char}

theorem injective (h : Siblings dir name parent l) {x y : String} (hx : Path.Extension x.toList)
    (hy : Path.Extension y.toList) (hxy : placeOf (Path.join dir (name ++ x)) = placeOf (Path.join dir (name ++ y))) :
    x = y := by
  rw [h.place x hx, h.place y hy] at hxy
  exact String.toList_inj.mp (List.append_cancel_left (List.singleton_inj.mp (List.append_cancel_left hxy)))

theorem place_work (h : Siblings dir name parent l) :
    placeOf (Delivery.workDir dir name) = parent ++ [l ++ ".work".toList] :=
  h.place ".work" ⟨'w', _, rfl, by decide, by decide⟩

/-- Nothing but the work directory itself is in it. -/
theorem not_work_prefix (h : Siblings dir name parent l) {x : String} (hx : Path.Extension x.toList)
    (hne : x ≠ ".work") : ¬ placeOf (Delivery.workDir dir name) <+: placeOf (Path.join dir (name ++ x)) := by
  intro hbelow
  rw [h.place_work, h.place x hx] at hbelow
  have heq := hbelow.eq_of_length (by simp)
  exact hne (String.toList_inj.mp (List.append_cancel_left (List.singleton_inj.mp (List.append_cancel_left heq)))).symm

/-- The directory that the files are in is not in the work directory. -/
theorem not_work_prefix_of_parent (h : Siblings dir name parent l) {q : Place} (hq : q <+: parent) :
    ¬ placeOf (Delivery.workDir dir name) <+: q := by
  intro hbelow
  have hlength := (hbelow.trans hq).length_le
  rw [h.place_work, List.length_append, List.length_singleton] at hlength
  omega

end Siblings

namespace Delivery

variable {dir : String} {ps : List Product} {t u : FileTree}

/-- The place of a file below the output directory. -/
def site (dir : String) (p : Product) : Place := placeOf (Path.join dir p.path)

/-! ## Writing -/

/-- No directory is lost. -/
theorem Written.keeps (h : Written dir t ps u) {q : Place} (hq : t.get? q = some .directory) :
    u.get? q = some .directory := by
  induction h with
  | nil => exact hq
  | cons hmade hsave _ ih =>
    refine ih ?_
    have hm := (grown_makeDirs _ dir).get?_of_some hq
    rw [get?_save hsave, if_neg]
    · exact hm
    · intro hplace
      exact (save_ok_iff.mp hsave).2.1 (hplace ▸ hm)

theorem Written.frame (h : Written dir t ps u) {q : Place} (hq : q ∉ ps.map (site dir)) :
    u.get? q = t.get? q ∨ ps ≠ [] ∧ q ∈ wayTo dir ∧ t.get? q = none ∧ u.get? q = some .directory := by
  induction h with
  | nil => exact Or.inl rfl
  | @cons t u v p rest hmade hsave hrest ih =>
    rw [List.map_cons, List.mem_cons, not_or] at hq
    have hu : u.get? q = (t.makeDirs dir).1.get? q := by
      rw [get?_save hsave]
      exact if_neg hq.1
    rcases grown_makeDirs t dir q with hsame | ⟨hway, hnone, hdir⟩
    · rw [← hsame, ← hu]
      exact (ih hq.2).imp_right fun ⟨_, hrest⟩ => ⟨by simp, hrest⟩
    · exact Or.inr ⟨by simp, hway, hnone, hrest.keeps (hu.trans hdir)⟩

/-- What is not one of the files that were written is as it was, or a directory that was missing. -/
theorem Unwritten.frame {before : List Product} {p : Product} {e : DeliveryError} (h : Unwritten dir t ps before p e u)
    {q : Place} (hq : q ∉ before.map (site dir)) :
    u.get? q = t.get? q ∨ q ∈ wayTo dir ∧ t.get? q = none ∧ u.get? q = some .directory := by
  obtain ⟨_, v, hwritten, _, rfl⟩ := h
  have hmade := grown_makeDirs v dir
  rcases hwritten.frame hq with hsame | ⟨_, hway, hnone, hdir⟩
  · exact hsame ▸ hmade q
  · exact Or.inr ⟨hway, hnone, hmade.get?_of_some hdir⟩

/-- A file that is new, or has new content, is one that was written. -/
theorem Written.mem_of_new (h : Written dir t ps u) {q : Place} {content : List UInt8}
    (hnew : u.get? q = some (.file content)) (hold : t.get? q ≠ some (.file content)) : q ∈ ps.map (site dir) := by
  by_contra hq
  rcases h.frame hq with hsame | ⟨_, _, _, hdir⟩
  · exact hold (hsame ▸ hnew)
  · cases hnew.symm.trans hdir

theorem Unwritten.mem_of_new {before : List Product} {p : Product} {e : DeliveryError}
    (h : Unwritten dir t ps before p e u) {q : Place} {content : List UInt8}
    (hnew : u.get? q = some (.file content)) (hold : t.get? q ≠ some (.file content)) : q ∈ ps.map (site dir) := by
  by_contra hq
  obtain ⟨after, hsplit⟩ := h.split
  have hbefore : q ∉ before.map (site dir) := by
    rw [hsplit, List.map_append, List.mem_append, not_or] at hq
    exact hq.1
  rcases h.frame hbefore with hsame | ⟨_, _, hdir⟩
  · exact hold (hsame ▸ hnew)
  · cases hnew.symm.trans hdir

theorem Written.way (h : Written dir t ps u) (hps : ps ≠ []) :
    refusal? dir = none ∧ Short (Path.parts dir) ∧ ∀ q ∈ wayTo dir, u.get? q = some .directory := by
  cases h with
  | nil => exact absurd rfl hps
  | @cons _ u _ p rest hmade hsave hrest =>
    obtain ⟨hrefusal, hshort, hway⟩ := makeDirs_ok hmade
    refine ⟨hrefusal, hshort, fun q hq => hrest.keeps ?_⟩
    rw [get?_save hsave, if_neg]
    · exact hway q hq
    · intro hplace
      exact (save_ok_iff.mp hsave).2.1 (hplace ▸ hway q hq)

/-- Files in different places are there, with what was written. -/
theorem Written.content (h : Written dir t ps u) (hps : (ps.map (site dir)).Nodup) {p : Product} (hp : p ∈ ps) :
    u.locate (Path.join dir p.path) = .ok (site dir p) ∧ u.get? (site dir p) = some (.file p.content) := by
  induction h with
  | nil => cases hp
  | @cons t u v q rest hmade hsave hrest ih =>
    obtain ⟨hq, hrestps⟩ := List.nodup_cons.mp hps
    rcases List.mem_cons.mp hp with rfl | hp
    · obtain ⟨hlocate, hdir, _⟩ := save_ok_iff.mp hsave
      have hu : u.get? (site dir p) = some (.file p.content) := by
        rw [get?_save hsave]
        exact if_pos rfl
      constructor
      · refine locate_mono hlocate fun q hq => hrest.keeps ?_
        rw [get?_save hsave, if_neg]
        · exact hq
        · intro hplace
          exact hdir (hplace ▸ hq)
      · rcases hrest.frame hq with hsame | ⟨_, _, hnone, _⟩
        · rw [hsame, hu]
        · rw [hu] at hnone
          cases hnone
    · exact ih hrestps hp

/-- Files can be written where their directory is there and no directory is in their place. -/
theorem exists_written {dir : String} {ps : List Product} {t : FileTree} (hrefusal : refusal? dir = none)
    (hshort : Short (Path.parts dir)) (hway : ∀ q ∈ wayTo dir, t.get? q = some .directory)
    (hps : ∀ p ∈ ps, t.locate (Path.join dir p.path) = .ok (site dir p) ∧ t.get? (site dir p) ≠ some .directory) :
    ∃ u, Written dir t ps u := by
  induction ps generalizing t with
  | nil => exact ⟨t, .nil t⟩
  | cons p ps ih =>
    obtain ⟨⟨hlocate, hget⟩, hrest⟩ := List.forall_mem_cons.mp hps
    have hmade := makeDirs_present hrefusal hshort hway
    obtain ⟨u, hsave⟩ : ∃ u, t.save (Path.join dir p.path) p.content = .ok u :=
      ⟨_, save_ok_iff.mpr ⟨hlocate, hget, rfl⟩⟩
    -- What was a directory still is one, and nothing else has become one.
    have hdirs : ∀ q, u.get? q = some .directory ↔ t.get? q = some .directory := by
      intro q
      rw [get?_save hsave]
      split
      · rename_i hq
        exact iff_of_false (by simp) (hq ▸ hget)
      · rfl
    obtain ⟨v, hv⟩ := ih (fun q hq => (hdirs q).mpr (hway q hq)) fun p' hp' => by
      obtain ⟨hlocate', hget'⟩ := hrest p' hp'
      exact ⟨locate_mono hlocate' fun q hq => (hdirs q).mpr hq, fun hdir => hget' ((hdirs _).mp hdir)⟩
    exact ⟨v, .cons (by rw [hmade]) (by rw [hmade]; exact hsave) hv⟩

section

variable {order : Order} {compiler : Compiler} {work name : String} {rig : Rig} {words : List (List UInt32)}

theorem exists_suffix (h : Makes order compiler work t rig.generated words u) {p : Product}
    (hp : p ∈ files order name rig words) : ∃ x ∈ suffixes order rig.generated, p.path = name ++ x := by
  have hpath : p.path ∈ (suffixes order rig.generated).map (name ++ ·) := by
    rw [← paths_files h name]
    exact List.mem_map_of_mem hp
  obtain ⟨x, hx, hpath⟩ := List.mem_map.mp hpath
  exact ⟨x, hx, hpath.symm⟩

theorem nodup_sites (h : Makes order compiler work t rig.generated words u)
    (hstages : (rig.generated.map (·.stage)).Nodup) (hdot : '.' ∉ name.toList) :
    ((files order name rig words).map (site order.outputDir)).Nodup := by
  obtain ⟨parent, l, hsiblings⟩ := exists_siblings order.outputDir hdot
  have hsites : (files order name rig words).map (site order.outputDir) =
      (suffixes order rig.generated).map fun x => placeOf (Path.join order.outputDir (name ++ x)) := by
    have hpaths := congrArg (List.map fun path => placeOf (Path.join order.outputDir path)) (paths_files h name)
    rw [List.map_map, List.map_map] at hpaths
    exact hpaths
  rw [hsites]
  refine (nodup_suffixes order hstages).map_on fun x hx y hy hxy => ?_
  exact hsiblings.injective (extension_suffixes hx).1 (extension_suffixes hy).1 hxy

end

end Delivery

end StageRig
