/-
  StageRig.Proofs.Delivery — what a delivery does to the tree, step by step.

  A delivery builds, makes its files and writes them. Each part is told here by what it
  leaves, so that nothing about a delivery has to be read off its definition again.

  - `Compiled`, `prepareStages_cases`: the stages are compiled one after another, up to the
    first one that is refused.
  - `Written`, `writeAll_cases`: the files are written one after another, up to the first
    one that cannot be.
  - `deliver_of_skip`, `deliver_of_error`, `deliver_of_rig`: a delivery is a build, and for a
    rig its making and its writing.
-/

import StageRig.Delivery
import StageRig.Proofs.FileTree
import StageRig.Proofs.Rig

namespace StageRig

/-! ## Jobs -/

namespace Job

variable {ω ε α β : Type}

theorem bind_of_ok {x : Job ω ε α} {f : α → Job ω ε β} {t : FileTree} {a : α} (h : (x t).result = .ok a) :
    (x >>= f) t = ⟨(f a (x t).tree).tree, (x t).log ++ (f a (x t).tree).log, (f a (x t).tree).result⟩ := by
  rw [bind_apply, h]

theorem bind_of_error {x : Job ω ε α} {f : α → Job ω ε β} {t : FileTree} {e : ε} (h : (x t).result = .error e) :
    (x >>= f) t = ⟨(x t).tree, (x t).log, .error e⟩ := by
  rw [bind_apply, h]

end Job

namespace Event

@[simp] theorem compilations_nil : compilations [] = [] := rfl

@[simp] theorem compilations_append (l m : List Event) : compilations (l ++ m) = compilations l ++ compilations m :=
  List.filterMap_append

@[simp] theorem compilations_note (n : Note) (l : List Event) : compilations (.note n :: l) = compilations l := rfl

@[simp] theorem compilations_notes (notes : List Note) : compilations (notes.map .note) = [] := by
  simp [compilations, compilation?]

theorem compilations_use (c : Compilation) (notes : List Note) (l : List Event) :
    compilations (.compilation c :: notes.map .note ++ l) = c :: compilations l := by
  rw [compilations_append]
  show c :: (compilations (notes.map .note) ++ compilations l) = _
  rw [compilations_notes, List.nil_append]

end Event

namespace Delivery

/-! ## Making -/

/-- The stages are compiled in order, each in the tree that the one before it left, and give these words. -/
inductive Compiled (compiler : Compiler) (dir : String) :
    FileTree → List GeneratedStage → List (List UInt32) → FileTree → Prop
  | nil (t : FileTree) : Compiled compiler dir t [] [] t
  | cons {t u : FileTree} {g : GeneratedStage} {rest : List GeneratedStage} {words : List UInt32}
      {more : List (List UInt32)} : (compiler g.stage g.source dir t).result = .ok words →
      Compiled compiler dir (compiler g.stage g.source dir t).tree rest more u →
      Compiled compiler dir t (g :: rest) (words :: more) u

/-- The compiler's use for a stage. -/
def use (dir : String) (g : GeneratedStage) : Compilation := ⟨g.stage, g.source, dir⟩

theorem compileStage_eq (compiler : Compiler) (dir : String) (g : GeneratedStage) (t : FileTree) :
    compileStage compiler dir g t =
      ⟨(compiler g.stage g.source dir t).tree,
        .compilation (use dir g) :: (compiler g.stage g.source dir t).log.map .note,
        (compiler g.stage g.source dir t).result.mapError .compile⟩ := rfl

variable {order : Order} {compiler : Compiler} {name : String}

theorem prepareStages_plain (h : order.compile = false) (gs : List GeneratedStage) (t : FileTree) :
    prepareStages order compiler name gs t = ⟨t, [], .ok (gs.map (sourceFile name))⟩ := by
  induction gs generalizing t with
  | nil => rfl
  | cons g rest ih =>
    simp only [prepareStages, h, Bool.false_eq_true, if_false]
    rw [Job.bind_of_ok rfl]
    simp only [Job.pure_apply]
    rw [Job.bind_of_ok (by rw [ih])]
    simp only [ih]
    rfl

/-- The files of stages that were compiled to these words. -/
def compiledFiles (name : String) (gs : List GeneratedStage) (words : List (List UInt32)) : List Product :=
  (List.zipWith (fun g ws => [sourceFile name g, wordsFile name g ws]) gs words).flatten

theorem prepareStages_cons (h : order.compile = true) (g : GeneratedStage) (rest : List GeneratedStage) :
    prepareStages order compiler name (g :: rest) = (do
      let words ← compileStage compiler (workDir order.outputDir name) g
      let others ← prepareStages order compiler name rest
      pure (sourceFile name g :: wordsFile name g words :: others)) := by
  simp only [prepareStages, h, if_true]
  rfl

/-- The stages are compiled up to `g`, which the compiler refuses. -/
structure Refused (compiler : Compiler) (dir : String) (t : FileTree) (gs before : List GeneratedStage)
    (g : GeneratedStage) (e : CompileError) (u : FileTree) : Prop where
  split : ∃ after, gs = before ++ g :: after
  run : ∃ words v, Compiled compiler dir t before words v ∧ (compiler g.stage g.source dir v).result = .error e ∧
    u = (compiler g.stage g.source dir v).tree

theorem Refused.cons {dir : String} {t u : FileTree} {g h : GeneratedStage} {gs before : List GeneratedStage}
    {words : List UInt32} {e : CompileError} (hg : (compiler g.stage g.source dir t).result = .ok words)
    (hrest : Refused compiler dir (compiler g.stage g.source dir t).tree gs before h e u) :
    Refused compiler dir t (g :: gs) (g :: before) h e u := by
  obtain ⟨⟨after, hsplit⟩, more, v, hcompiled, hrefused, hu⟩ := hrest
  exact ⟨⟨after, by rw [hsplit, List.cons_append]⟩, words :: more, v, .cons hg hcompiled, hrefused, hu⟩

section

variable {dir : String} (hdir : workDir order.outputDir name = dir)

include hdir

theorem prepareStages_refused (h : order.compile = true) {g : GeneratedStage} {t : FileTree} {e : CompileError}
    (he : (compiler g.stage g.source dir t).result = .error e) (rest : List GeneratedStage) :
    prepareStages order compiler name (g :: rest) t =
      ⟨(compiler g.stage g.source dir t).tree,
        .compilation (use dir g) :: (compiler g.stage g.source dir t).log.map .note, .error (.compile e)⟩ := by
  have hstage : (compileStage compiler dir g t).result = .error (.compile e) := by
    rw [compileStage_eq, he]
    rfl
  rw [prepareStages_cons h, hdir, Job.bind_of_error hstage, compileStage_eq]

theorem prepareStages_compiled (h : order.compile = true) {g : GeneratedStage} {t : FileTree} {words : List UInt32}
    (hw : (compiler g.stage g.source dir t).result = .ok words) {rest : List GeneratedStage}
    {after : Ran Event DeliveryError (List Product)}
    (hafter : prepareStages order compiler name rest (compiler g.stage g.source dir t).tree = after) :
    ∃ notes : List Note, prepareStages order compiler name (g :: rest) t =
      ⟨after.tree, .compilation (use dir g) :: notes.map .note ++ after.log,
        after.result.map fun others => sourceFile name g :: wordsFile name g words :: others⟩ := by
  refine ⟨(compiler g.stage g.source dir t).log, ?_⟩
  have hstage : (compileStage compiler dir g t).result = .ok words := by
    rw [compileStage_eq, hw]
    rfl
  rw [prepareStages_cons h, hdir, Job.bind_of_ok hstage, compileStage_eq]
  simp only [Job.bind_apply, Job.pure_apply, hafter]
  cases after.result with
  | error e => rfl
  | ok others => simp [Except.map]

-- The induction is on the stages; each begins with the tree that the one before it left.
theorem prepareStages_cases (h : order.compile = true) {gs : List GeneratedStage} {t : FileTree}
    {ran : Ran Event DeliveryError (List Product)} (hran : prepareStages order compiler name gs t = ran) :
    (∃ words, Compiled compiler dir t gs words ran.tree ∧ ran.result = .ok (compiledFiles name gs words) ∧
        Event.compilations ran.log = gs.map (use dir)) ∨
      ∃ before g e, Refused compiler dir t gs before g e ran.tree ∧ ran.result = .error (.compile e) ∧
        Event.compilations ran.log = (before ++ [g]).map (use dir) := by
  induction gs generalizing t ran with
  | nil =>
    subst hran
    exact Or.inl ⟨[], .nil t, rfl, rfl⟩
  | cons g rest ih =>
    cases hg : (compiler g.stage g.source dir t).result with
    | error e =>
      rw [prepareStages_refused hdir h hg] at hran
      subst hran
      refine Or.inr ⟨[], g, e, ⟨⟨rest, rfl⟩, [], t, .nil t, hg, rfl⟩, rfl, ?_⟩
      exact congrArg (use dir g :: ·) (Event.compilations_notes _)
    | ok words =>
      obtain ⟨after, hafter⟩ : ∃ after,
        prepareStages order compiler name rest (compiler g.stage g.source dir t).tree = after := ⟨_, rfl⟩
      obtain ⟨notes, hcons⟩ := prepareStages_compiled hdir h hg hafter
      rw [hcons] at hran
      subst hran
      rcases ih hafter with ⟨more, hrest, hresult, hcalls⟩ | ⟨before, g', e, hrest, hresult, hcalls⟩
      · refine Or.inl ⟨words :: more, .cons hg hrest, ?_, ?_⟩
        · simp only [hresult]
          rfl
        · rw [Event.compilations_use, hcalls, List.map_cons]
      · refine Or.inr ⟨g :: before, g', e, hrest.cons hg, ?_, ?_⟩
        · simp only [hresult]
          rfl
        · rw [Event.compilations_use, hcalls, List.cons_append, List.map_cons]

theorem prepareStages_of_compiled (h : order.compile = true) {gs : List GeneratedStage} {words : List (List UInt32)}
    {t u : FileTree} (hgs : Compiled compiler dir t gs words u) :
    (prepareStages order compiler name gs t).tree = u ∧
      (prepareStages order compiler name gs t).result = .ok (compiledFiles name gs words) := by
  induction hgs with
  | nil t => exact ⟨rfl, rfl⟩
  | cons hg _ ih =>
    obtain ⟨notes, hcons⟩ := prepareStages_compiled hdir h hg rfl
    rw [hcons]
    refine ⟨ih.1, ?_⟩
    simp only [ih.2]
    rfl

end

/-! ## Writing -/

/-- The files are written in order, each after the directory was made. -/
inductive Written (dir : String) : FileTree → List Product → FileTree → Prop
  | nil (t : FileTree) : Written dir t [] t
  | cons {t u v : FileTree} {p : Product} {rest : List Product} : (t.makeDirs dir).2 = .ok () →
      (t.makeDirs dir).1.save (Path.join dir p.path) p.content = .ok u → Written dir u rest v →
      Written dir t (p :: rest) v

/-- Why a file is not written: there is no directory for it, or it cannot be saved. -/
def WriteError (dir : String) (p : Product) (t : FileTree) (e : DeliveryError) : Prop :=
  (∃ e', (t.makeDirs dir).2 = .error e' ∧ e = .outputDir e') ∨
    ∃ e', (t.makeDirs dir).2 = .ok () ∧ (t.makeDirs dir).1.save (Path.join dir p.path) p.content = .error e' ∧
      e = .write (Path.join dir p.path) e'

theorem write_cases (dir : String) (p : Product) (t : FileTree) :
    (∃ u note, (t.makeDirs dir).2 = .ok () ∧ (t.makeDirs dir).1.save (Path.join dir p.path) p.content = .ok u ∧
        write dir p t = ⟨u, [.note note], .ok (Path.join dir p.path)⟩) ∨
      ∃ e, WriteError dir p t e ∧ write dir p t = ⟨(t.makeDirs dir).1, [], .error e⟩ := by
  cases hmade : (t.makeDirs dir).2 with
  | error e =>
    refine Or.inr ⟨.outputDir e, Or.inl ⟨e, hmade, rfl⟩, ?_⟩
    simp only [write, Job.bind_apply, Job.mapError, Job.as, Job.makeDirs, hmade]
    rfl
  | ok _ =>
    cases hsave : (t.makeDirs dir).1.save (Path.join dir p.path) p.content with
    | error e =>
      refine Or.inr ⟨.write (Path.join dir p.path) e, Or.inr ⟨e, hmade, hsave, rfl⟩, ?_⟩
      simp only [write, Job.bind_apply, Job.mapError, Job.as, Job.makeDirs, Job.save, hmade, hsave]
      rfl
    | ok u =>
      refine Or.inl ⟨u, ⟨.debug, s!"wrote {Path.join dir p.path}"⟩, rfl, rfl, ?_⟩
      simp only [write, Job.bind_apply, Job.mapError, Job.as, Job.makeDirs, Job.save, hmade, hsave]
      rfl

theorem write_of_saved {dir : String} {p : Product} {t u : FileTree} (hmade : (t.makeDirs dir).2 = .ok ())
    (hsave : (t.makeDirs dir).1.save (Path.join dir p.path) p.content = .ok u) :
    (write dir p t).tree = u ∧ (write dir p t).result = .ok (Path.join dir p.path) := by
  simp only [write, Job.bind_apply, Job.mapError, Job.as, Job.makeDirs, Job.save, hmade, hsave]
  exact ⟨rfl, rfl⟩

theorem writeAll_of_written {dir : String} {ps : List Product} {t u : FileTree} (h : Written dir t ps u) :
    (writeAll dir ps t).tree = u ∧ (writeAll dir ps t).result = .ok (ps.map fun p => Path.join dir p.path) := by
  induction h with
  | nil t => exact ⟨rfl, rfl⟩
  | cons hmade hsave _ ih =>
    obtain ⟨htree, hresult⟩ := write_of_saved hmade hsave
    simp only [writeAll, Job.bind_apply, Job.pure_apply, hresult, htree, ih]
    exact ⟨trivial, rfl⟩

/-- The files are written up to `p`, which cannot be. -/
structure Unwritten (dir : String) (t : FileTree) (ps before : List Product) (p : Product) (e : DeliveryError)
    (u : FileTree) : Prop where
  split : ∃ after, ps = before ++ p :: after
  run : ∃ v, Written dir t before v ∧ WriteError dir p v e ∧ u = (v.makeDirs dir).1

theorem writeAll_cases {dir : String} {ps : List Product} {t : FileTree} {ran : Ran Event DeliveryError (List String)}
    (hran : writeAll dir ps t = ran) :
    Event.compilations ran.log = [] ∧
      (Written dir t ps ran.tree ∧ ran.result = .ok (ps.map fun p => Path.join dir p.path) ∨
        ∃ before p e, Unwritten dir t ps before p e ran.tree ∧ ran.result = .error e) := by
  induction ps generalizing t ran with
  | nil =>
    subst hran
    exact ⟨rfl, Or.inl ⟨.nil t, rfl⟩⟩
  | cons p rest ih =>
    rcases write_cases dir p t with ⟨u, note, hmade, hsave, hwrite⟩ | ⟨e, he, hwrite⟩
    · obtain ⟨after, hafter⟩ : ∃ after, writeAll dir rest u = after := ⟨_, rfl⟩
      have hran' : ran = ⟨after.tree, .note note :: after.log, after.result.map (Path.join dir p.path :: ·)⟩ := by
        rw [← hran, writeAll]
        simp only [Job.bind_apply, Job.pure_apply, hwrite, hafter]
        cases after.result with
        | error e => rfl
        | ok paths => simp [Except.map]
      subst hran'
      obtain ⟨hlog, ⟨hrest, hresult⟩ | ⟨before, q, e, ⟨⟨more, hsplit⟩, v, hv, herror, htree⟩, hresult⟩⟩ := ih hafter
      · refine ⟨hlog, Or.inl ⟨.cons hmade hsave hrest, ?_⟩⟩
        simp only [hresult]
        rfl
      · refine ⟨hlog, Or.inr ⟨p :: before, q, e, ⟨⟨more, by rw [hsplit, List.cons_append]⟩, v, ?_, herror, htree⟩, ?_⟩⟩
        · exact .cons hmade hsave hv
        · simp only [hresult]
          rfl
    · have hran' : ran = ⟨(t.makeDirs dir).1, [], .error e⟩ := by
        rw [← hran, writeAll]
        simp only [Job.bind_apply, hwrite]
      subst hran'
      exact ⟨rfl, Or.inr ⟨[], p, e, ⟨⟨rest, rfl⟩, t, .nil t, he, rfl⟩, rfl⟩⟩

/-! ## Delivering -/

/-- What making the files of the stages comes to: compiling them, when asked to. -/
def Makes (order : Order) (compiler : Compiler) (dir : String) (t : FileTree) (gs : List GeneratedStage)
    (words : List (List UInt32)) (u : FileTree) : Prop :=
  if order.compile then Compiled compiler dir t gs words u else words = [] ∧ u = t

/-- The files of a rig whose stages were compiled to these words, if they were. -/
def files (order : Order) (name : String) (rig : Rig) (words : List (List UInt32)) : List Product :=
  (if order.compile then compiledFiles name rig.generated words else rig.generated.map (sourceFile name)) ++
    if order.summary then [summaryFile name rig.summary] else []

theorem prepare_cases {rig : Rig} {dir : String} (hdir : workDir order.outputDir (Path.stem rig.sourceName) = dir)
    {t : FileTree} {ran : Ran Event DeliveryError (List Product)} (hran : prepare order compiler rig t = ran) :
    (∃ words, Makes order compiler dir t rig.generated words ran.tree ∧
        ran.result = .ok (files order (Path.stem rig.sourceName) rig words) ∧
        Event.compilations ran.log = if order.compile then rig.generated.map (use dir) else []) ∨
      order.compile = true ∧ ∃ before g e, Refused compiler dir t rig.generated before g e ran.tree ∧
        ran.result = .error (.compile e) ∧ Event.compilations ran.log = (before ++ [g]).map (use dir) := by
  obtain ⟨made, hmade⟩ : ∃ made, prepareStages order compiler (Path.stem rig.sourceName) rig.generated t = made :=
    ⟨_, rfl⟩
  have hran' : ran = ⟨made.tree, made.log, made.result.map
      (· ++ if order.summary then [summaryFile (Path.stem rig.sourceName) rig.summary] else [])⟩ := by
    rw [← hran, prepare]
    simp only [Job.bind_apply, Job.pure_apply, hmade]
    cases made.result with
    | error e => rfl
    | ok stages => simp [Except.map]
  subst hran'
  cases hcompile : order.compile with
  | false =>
    rw [prepareStages_plain hcompile] at hmade
    subst hmade
    exact Or.inl ⟨[], by simp [Makes, hcompile], by simp [Except.map, files, hcompile], rfl⟩
  | true =>
    rcases prepareStages_cases hdir hcompile hmade with
      ⟨words, hcompiled, hresult, hcalls⟩ | ⟨before, g, e, hrefused, hresult, hcalls⟩
    · refine Or.inl ⟨words, by simpa [Makes, hcompile] using hcompiled, ?_, by simpa using hcalls⟩
      simp [hresult, Except.map, files, hcompile]
    · exact Or.inr ⟨rfl, before, g, e, hrefused, by simp [hresult, Except.map], hcalls⟩

variable {r : Reflection} {t : FileTree}

/-- Building changes nothing but the notes. -/
theorem build_apply (r : Reflection) (t : FileTree) :
    (Job.ofTraced (Rig.build r)).as Event.note DeliveryError.build t =
      ⟨t, (Rig.build r).notes.map .note, (Rig.build r).result.mapError .build⟩ := rfl

theorem deliver_of_skip (order : Order) (compiler : Compiler) (t : FileTree) {reason : Skip}
    (h : (Rig.build r).result = .ok (.error reason)) :
    ∃ notes : List Note, deliver order compiler r t = ⟨t, notes.map .note, .ok []⟩ := by
  refine ⟨(Rig.build r).notes, ?_⟩
  simp only [deliver, Job.bind_apply, build_apply, h, Except.mapError, Job.pure_apply, List.append_nil]

theorem deliver_of_error (order : Order) (compiler : Compiler) (t : FileTree) {e : BuildError}
    (h : (Rig.build r).result = .error e) :
    ∃ notes : List Note, deliver order compiler r t = ⟨t, notes.map .note, .error (.build e)⟩ := by
  refine ⟨(Rig.build r).notes, ?_⟩
  simp only [deliver, Job.bind_apply, build_apply, h, Except.mapError]

theorem sourceName_of_build {rig : Rig} (h : (Rig.build r).result = .ok (.ok rig)) : rig.sourceName = r.sourceName := by
  obtain ⟨i, plan, generated, _, _, _, rfl⟩ := Rig.build_ok_iff.mp h
  rfl

/-- A delivery of a rig: its files are made and written, up to the first that cannot be, or a stage is refused. -/
theorem deliver_of_rig {rig : Rig} (h : (Rig.build r).result = .ok (.ok rig)) {dir : String}
    (hdir : workDir order.outputDir (Path.stem r.sourceName) = dir) {ran : Ran Event DeliveryError (List String)}
    (hran : deliver order compiler r t = ran) :
    (∃ words u, Makes order compiler dir t rig.generated words u ∧
        (Event.compilations ran.log = if order.compile then rig.generated.map (use dir) else []) ∧
        (Written order.outputDir u (files order (Path.stem r.sourceName) rig words) ran.tree ∧
            ran.result =
              .ok ((files order (Path.stem r.sourceName) rig words).map fun p => Path.join order.outputDir p.path) ∨
          ∃ before p e,
            Unwritten order.outputDir u (files order (Path.stem r.sourceName) rig words) before p e ran.tree ∧
              ran.result = .error e)) ∨
      order.compile = true ∧ ∃ before g e, Refused compiler dir t rig.generated before g e ran.tree ∧
        ran.result = .error (.compile e) ∧ Event.compilations ran.log = (before ++ [g]).map (use dir) := by
  rw [← sourceName_of_build h] at hdir ⊢
  obtain ⟨made, hmade⟩ : ∃ made, prepare order compiler rig t = made := ⟨_, rfl⟩
  simp only [deliver, Job.bind_apply, build_apply, h, Except.mapError] at hran
  rcases prepare_cases hdir hmade with
    ⟨words, hmakes, hresult, hcalls⟩ | ⟨hcompile, before, g, e, hrefused, hresult, hcalls⟩
  · obtain ⟨done, hdone⟩ : ∃ done,
      writeAll order.outputDir (files order (Path.stem rig.sourceName) rig words) made.tree = done := ⟨_, rfl⟩
    obtain ⟨hnone, hwritten⟩ := writeAll_cases hdone
    refine Or.inl ⟨words, made.tree, hmakes, ?_⟩
    simp only [hmade, hresult, hdone] at hran
    rcases hwritten with ⟨hwritten, hpaths⟩ | ⟨before, p, e, hunwritten, herror⟩
    · simp only [hpaths, Job.report_apply, Job.pure_apply] at hran
      subst hran
      exact ⟨by simp [hcalls, hnone], Or.inl ⟨hwritten, rfl⟩⟩
    · simp only [herror] at hran
      subst hran
      exact ⟨by simp [hcalls, hnone], Or.inr ⟨before, p, e, hunwritten, rfl⟩⟩
  · simp only [hmade, hresult] at hran
    subst hran
    exact Or.inr ⟨hcompile, before, g, e, hrefused, rfl, by simp [hcalls]⟩

theorem prepare_of_makes {rig : Rig} {dir : String} (hdir : workDir order.outputDir (Path.stem rig.sourceName) = dir)
    {words : List (List UInt32)} {u : FileTree} (h : Makes order compiler dir t rig.generated words u) :
    (prepare order compiler rig t).tree = u ∧
      (prepare order compiler rig t).result = .ok (files order (Path.stem rig.sourceName) rig words) := by
  have hstages : (prepareStages order compiler (Path.stem rig.sourceName) rig.generated t).tree = u ∧
      (prepareStages order compiler (Path.stem rig.sourceName) rig.generated t).result =
        .ok (if order.compile then compiledFiles (Path.stem rig.sourceName) rig.generated words
          else rig.generated.map (sourceFile (Path.stem rig.sourceName))) := by
    cases hcompile : order.compile with
    | true => exact prepareStages_of_compiled hdir hcompile (by simpa [Makes, hcompile] using h)
    | false =>
      have hu : words = [] ∧ u = t := by simpa [Makes, hcompile] using h
      rw [prepareStages_plain hcompile]
      exact ⟨hu.2.symm, rfl⟩
  simp only [prepare, Job.bind_apply, Job.pure_apply, hstages]
  exact ⟨trivial, rfl⟩

theorem deliver_of_makes {rig : Rig} (h : (Rig.build r).result = .ok (.ok rig)) {dir : String}
    (hdir : workDir order.outputDir (Path.stem r.sourceName) = dir) {words : List (List UInt32)} {u v : FileTree}
    (hmakes : Makes order compiler dir t rig.generated words u)
    (hwritten : Written order.outputDir u (files order (Path.stem r.sourceName) rig words) v) :
    (deliver order compiler r t).tree = v ∧ (deliver order compiler r t).result =
      .ok ((files order (Path.stem r.sourceName) rig words).map fun p => Path.join order.outputDir p.path) := by
  rw [← sourceName_of_build h] at hdir hwritten ⊢
  obtain ⟨hprepared, hfiles⟩ := prepare_of_makes hdir hmakes
  obtain ⟨htree, hpaths⟩ := writeAll_of_written hwritten
  simp only [deliver, Job.bind_apply, build_apply, h, Except.mapError, hprepared, hfiles, htree, hpaths,
    Job.report_apply, Job.pure_apply, and_self]

end Delivery

end StageRig
