/-
  StageRig.Proofs.Path.Respelled — what is made of a path depends on its steps.

  A path may be spelled with more slashes than it needs, and with a `.` where that takes no
  step (`Respells`). Its stem, the directory of its generated files and the changes that
  touch it go by its steps, so they are the same for every spelling.

  - `parts_of_respells`: a respelled path takes the same steps.
  - `parts_parent`: the parent of a path with a file name takes the steps in front of it.
  - `names_by_steps`: what the file name of a path decides, and that nothing else does.
-/

import Mathlib.Data.List.DropRight
import Mathlib.Data.List.Forall2
import Mathlib.Logic.Relation
import StageRig.Proofs.Path
import StageRig.Watch

namespace StageRig.Path

/-! ## Respelling -/

/-- One more slash, or one more `.` that takes no step. -/
inductive Respells : List Char → List Char → Prop
  | slash (front back : List Char) : Respells (front ++ '/' :: back) (front ++ '/' :: '/' :: back)
  | dot (front back : List Char) : Respells (front ++ '/' :: back) (front ++ '/' :: '.' :: '/' :: back)
  | lastSlash {path : List Char} (h : path ≠ []) : Respells path (path ++ ['/'])
  | lastDot (front : List Char) : Respells (front ++ ['/']) (front ++ ['/', '.'])

/-- Behind a slash every path goes on alike. -/
theorem parts_slash (front back : List Char) :
    parts (String.ofList (front ++ '/' :: back)) = parts (String.ofList (front ++ ['/'])) ++ steps back := by
  cases front with
  | nil =>
    rw [List.nil_append, List.nil_append, parts_ofList, parts_ofList]
    rfl
  | cons c front =>
    have hne : c :: front ≠ [] := List.cons_ne_nil c front
    rw [parts_append hne, parts_append hne, steps_nil, List.append_nil]

theorem parts_of_respells {cs ds : List Char} (h : Respells cs ds) :
    parts (String.ofList ds) = parts (String.ofList cs) := by
  cases h with
  | slash front back =>
    rw [parts_slash front ('/' :: back), parts_slash front back, show steps ('/' :: back) = steps back from steps_append [] back]
  | dot front back =>
    rw [parts_slash front ('.' :: '/' :: back), parts_slash front back,
      show steps ('.' :: '/' :: back) = steps back from steps_append ['.'] back]
  | lastSlash hne => rw [parts_append hne, steps_nil, List.append_nil]
  | lastDot front =>
    rw [parts_slash front ['.']]
    exact List.append_nil _

/-- Any number of slashes and dots, put in or left out. -/
def Respelled (p q : String) : Prop := Relation.EqvGen Respells p.toList q.toList

theorem parts_of_respelled {p q : String} (h : Respelled p q) : parts q = parts p := by
  have hlists : ∀ {cs ds}, Relation.EqvGen Respells cs ds → parts (String.ofList ds) = parts (String.ofList cs) := by
    intro cs ds h
    induction h with
    | rel _ _ h => exact parts_of_respells h
    | refl => rfl
    | symm _ _ _ ih => exact ih.symm
    | trans _ _ _ _ _ ih ih' => exact ih'.trans ih
  have := hlists h
  rwa [String.ofList_toList, String.ofList_toList] at this

/-! ## Pieces and their spelling -/

theorem spell_cons (p : List Char) {ps : List (List Char)} (h : ps ≠ []) : spell (p :: ps) = p ++ '/' :: spell ps := by
  obtain ⟨q, qs, rfl⟩ := List.exists_cons_of_ne_nil h
  rfl

theorem spell_append {ps qs : List (List Char)} (hps : ps ≠ []) (hqs : qs ≠ []) :
    spell (ps ++ qs) = spell ps ++ '/' :: spell qs := by
  induction ps with
  | nil => exact absurd rfl hps
  | cons p ps ih =>
    cases ps with
    | nil => exact spell_cons p hqs
    | cons p' ps =>
      have hne : p' :: ps ≠ [] := List.cons_ne_nil p' ps
      rw [List.cons_append, spell_cons p (by simp), ih hne, spell_cons p hne, List.append_assoc, List.cons_append]

theorem spell_pieces (cs : List Char) : spell (pieces cs) = cs := by
  induction cs with
  | nil => rfl
  | cons c cs ih =>
    obtain ⟨p, ps, hp⟩ := List.exists_cons_of_ne_nil (pieces_ne_nil cs)
    rw [pieces]
    split
    · rename_i hc
      rw [spell_cons [] (pieces_ne_nil cs), ih, hc, List.nil_append]
    · rw [hp] at ih ⊢
      rw [← ih]
      cases ps <;> rfl

theorem steps_spell {ps : List (List Char)} (h : ∀ p ∈ ps, '/' ∉ p) : steps (spell ps) = ps.filterMap step? := by
  induction ps with
  | nil => rfl
  | cons p ps ih =>
    obtain ⟨hp, hps⟩ := List.forall_mem_cons.mp h
    have hstep : steps p = [p].filterMap step? := by rw [steps, pieces_of_not_mem hp]
    by_cases hne : ps = []
    · subst hne
      exact hstep
    · rw [spell_cons p hne, steps_append, ih hps, hstep, ← List.filterMap_append]
      rfl

theorem text_lead (cs : List Char) : (lead cs).1.text ++ (lead cs).2 = cs := by
  fun_cases lead cs <;> rfl

theorem parts_lead_text (start : Lead) : parts (String.ofList start.text) = start.parts := by
  cases start <;> rfl

/-! ## The tidy spelling -/

def Part.text : Part → List Char
  | root => []
  | here => ['.']
  | up => ['.', '.']
  | name n => n

/-- A path with no slash and no `.` to spare. -/
def tidy : Lead → List Part → List Char
  | .root, ss => '/' :: spell (ss.map Part.text)
  | .here, ss => '.' :: ss.flatMap fun s => '/' :: s.text
  | .nothing, ss => spell (ss.map Part.text)

theorem step?_cases (p : List Char) : p = [] ∨ p = ['.'] ∨ ∃ s, step? p = some s ∧ s.text = p := by
  unfold step?
  split
  · exact Or.inl rfl
  · exact Or.inr (Or.inl rfl)
  · exact Or.inr (Or.inr ⟨_, rfl, rfl⟩)
  · exact Or.inr (Or.inr ⟨_, rfl, rfl⟩)

theorem spell_map_cons (s : Part) (ss : List Part) :
    spell ((s :: ss).map Part.text) = s.text ++ ss.flatMap fun s => '/' :: s.text := by
  induction ss generalizing s with
  | nil => exact (List.append_nil _).symm
  | cons s' ss ih =>
    rw [List.map_cons, spell_cons _ (by simp), ih, List.flatMap_cons, List.cons_append]

/-- Behind a front, pieces that take no step can be left out. -/
theorem tidy_behind {front : List Char} (hfront : front ≠ []) {ps : List (List Char)} (hps : ps ≠ []) :
    Relation.EqvGen Respells (front ++ '/' :: spell ps) (front ++ (ps.filterMap step?).flatMap fun s => '/' :: s.text) := by
  induction ps generalizing front with
  | nil => exact absurd rfl hps
  | cons p ps ih =>
    have hslash : Relation.EqvGen Respells (front ++ ['/']) front := .symm _ _ (.rel _ _ (.lastSlash hfront))
    by_cases hnil : ps = []
    · subst hnil
      rcases step?_cases p with rfl | rfl | ⟨s, hs, rfl⟩
      · rw [List.filterMap_cons_none rfl, List.filterMap_nil, List.flatMap_nil, List.append_nil]
        exact hslash
      · rw [List.filterMap_cons_none rfl, List.filterMap_nil, List.flatMap_nil, List.append_nil]
        exact .trans _ _ _ (.symm _ _ (.rel _ _ (.lastDot front))) hslash
      · simpa [spell, hs] using Relation.EqvGen.refl _
    · rw [spell_cons p hnil]
      rcases step?_cases p with rfl | rfl | ⟨s, hs, rfl⟩
      · exact .trans _ _ _ (.symm _ _ (.rel _ _ (.slash front _))) (ih hfront hnil)
      · exact .trans _ _ _ (.symm _ _ (.rel _ _ (.dot front _))) (ih hfront hnil)
      · have hfront : front ++ '/' :: s.text ≠ [] := by simp
        have h := ih hfront hnil
        simpa [hs] using h

theorem tidy_behind_root (ps : List (List Char)) :
    Relation.EqvGen Respells ('/' :: spell ps) ('/' :: spell ((ps.filterMap step?).map Part.text)) := by
  induction ps with
  | nil => exact .refl _
  | cons p ps ih =>
    by_cases hnil : ps = []
    · subst hnil
      rcases step?_cases p with rfl | rfl | ⟨s, hs, rfl⟩
      · exact .refl _
      · exact .symm _ _ (.rel _ _ (.lastDot []))
      · simpa [spell, hs] using Relation.EqvGen.refl _
    · rw [spell_cons p hnil]
      rcases step?_cases p with rfl | rfl | ⟨s, hs, rfl⟩
      · exact .trans _ _ _ (.symm _ _ (.rel _ _ (.slash [] _))) ih
      · exact .trans _ _ _ (.symm _ _ (.rel _ _ (.dot [] _))) ih
      · rw [List.filterMap_cons_some hs, spell_map_cons]
        exact tidy_behind (List.cons_ne_nil '/' s.text) hnil

/-- Every path can be tidied. -/
theorem respelled_tidy (cs : List Char) : Relation.EqvGen Respells cs (tidy (lead cs).1 (steps (lead cs).2)) := by
  fun_cases lead cs with
  | case1 rest =>
    have h := tidy_behind_root (pieces rest)
    rwa [spell_pieces] at h
  | case2 => exact .refl _
  | case3 rest =>
    have h := tidy_behind (List.cons_ne_nil '.' []) (pieces_ne_nil rest)
    rwa [spell_pieces] at h
  | case4 _ hroot hhere hinside =>
    obtain ⟨p, ps, hps⟩ := List.exists_cons_of_ne_nil (pieces_ne_nil cs)
    have hcs : spell (p :: ps) = cs := by rw [← hps, spell_pieces]
    rw [tidy, steps, hps]
    by_cases hnil : ps = []
    · subst hnil
      rcases step?_cases p with rfl | rfl | ⟨s, hs, rfl⟩
      · rw [← hcs]
        exact .refl _
      · exact absurd hcs.symm hhere
      · rw [List.filterMap_cons_some hs, ← hcs]
        exact .refl _
    · rw [spell_cons p hnil] at hcs
      rcases step?_cases p with rfl | rfl | ⟨s, hs, rfl⟩
      · exact absurd hcs.symm (hroot _)
      · exact absurd hcs.symm (hinside _)
      · have hne : s.text ≠ [] := by
          intro hempty
          rw [hempty] at hs
          cases hs
        rw [List.filterMap_cons_some hs, spell_map_cons, ← hcs]
        exact tidy_behind hne hnil

/-- Steps behind the start are no starts. -/
theorem mem_steps {cs : List Char} {s : Part} (h : s ∈ steps cs) : s ≠ .root ∧ s ≠ .here := by
  obtain ⟨p, -, hp⟩ := List.mem_filterMap.mp h
  unfold step? at hp
  split at hp <;> cases hp <;> simp

/-- The steps tell where a path starts. -/
theorem lead_inj {start start' : Lead} {cs ds : List Char} (h : start.parts ++ steps cs = start'.parts ++ steps ds) :
    start = start' ∧ steps cs = steps ds := by
  have hcs : ∀ {cs : List Char} {s : Part} {ss : List Part}, steps cs = s :: ss → s ≠ .root ∧ s ≠ .here :=
    fun h => mem_steps (h ▸ List.mem_cons_self)
  cases start <;> cases start' <;> simp only [Lead.parts, List.cons_append, List.nil_append, List.cons.injEq] at h
  -- the start is one of the steps, and no later step is a start
  all_goals try first | exact ⟨rfl, h⟩ | exact ⟨rfl, h.2⟩
  · exact absurd h.1 (by simp)
  · exact absurd rfl (hcs h.symm).1
  · exact absurd h.1 (by simp)
  · exact absurd rfl (hcs h.symm).2
  · exact absurd rfl (hcs h).1
  · exact absurd rfl (hcs h).2

/-- Two paths take the same steps exactly when one is the other, respelled. -/
theorem parts_eq_iff {p q : String} : parts q = parts p ↔ Respelled p q := by
  constructor
  · intro h
    rw [parts_eq, parts_eq] at h
    obtain ⟨hstart, hsteps⟩ := lead_inj h
    have hp := respelled_tidy p.toList
    have hq := respelled_tidy q.toList
    rw [hstart, hsteps] at hq
    exact .trans _ _ _ hp (.symm _ _ hq)
  · exact parts_of_respelled

/-! ## Parents -/

/-- The pieces up to the last one that takes a step, and the others. -/
theorem exists_trimmed {ps : List (List Char)} (h : ps.filterMap step? ≠ []) :
    ∃ qs q s junk, trimmed ps = qs ++ [q] ∧ ps = qs ++ q :: junk ∧ step? q = some s ∧ junk.filterMap step? = [] := by
  have htrimmed : trimmed ps = ps.rdropWhile fun p => (step? p).isNone := rfl
  have hjunk : (ps.rtakeWhile fun p => (step? p).isNone).filterMap step? = [] := by
    rw [List.filterMap_eq_nil_iff]
    intro p hp
    have hnone := List.mem_rtakeWhile_imp hp
    exact Option.isNone_iff_eq_none.mp hnone
  have hne : (ps.rdropWhile fun p => (step? p).isNone) ≠ [] := by
    intro hnil
    rw [List.rdropWhile_eq_nil_iff] at hnil
    exact h (List.filterMap_eq_nil_iff.mpr fun p hp => Option.isNone_iff_eq_none.mp (hnil p hp))
  have hlast := List.rdropWhile_last_not _ _ hne
  obtain ⟨s, hs⟩ := Option.ne_none_iff_exists'.mp fun hnone => hlast (Option.isNone_iff_eq_none.mpr hnone)
  have hsplit := List.dropLast_append_getLast hne
  refine ⟨_, _, s, _, htrimmed.trans hsplit.symm, ?_, hs, hjunk⟩
  rw [List.append_cons, hsplit]
  exact List.rdropWhile_append_rtakeWhile.symm

theorem spell_concat_ne_nil (qs : List (List Char)) {q : List Char} (h : q ≠ []) : spell (qs ++ [q]) ≠ [] := by
  by_cases hqs : qs = []
  · subst hqs
    exact h
  · rw [spell_append hqs (List.cons_ne_nil q [])]
    simp

/-- What is left of a path in front of the last step that its pieces take. -/
theorem exists_front {path : String} {qs : List (List Char)} {q : List Char} {s : Part} {junk : List (List Char)}
    (hpieces : pieces (lead path.toList).2 = qs ++ q :: junk) (hq : step? q = some s) (hjunk : junk.filterMap step? = []) :
    parts path = parts (String.ofList ((lead path.toList).1.text ++ spell (trimmed qs))) ++ [s] := by
  have hslash : ∀ p ∈ qs ++ q :: junk, '/' ∉ p := by
    intro p hp
    rw [← hpieces] at hp
    exact not_mem_of_mem_pieces hp
  have hsteps : steps (lead path.toList).2 = qs.filterMap step? ++ [s] := by
    rw [steps, hpieces, List.filterMap_append, List.filterMap_cons_some hq, hjunk]
  by_cases hqs : qs.filterMap step? = []
  · -- the step is the first behind the start
    have htrimmed : trimmed qs = [] := by
      rw [trimmed, List.reverse_eq_nil_iff, List.dropWhile_eq_nil_iff]
      intro p hp
      have hnone := List.filterMap_eq_nil_iff.mp hqs p (List.mem_reverse.mp hp)
      exact Option.isNone_iff_eq_none.mpr hnone
    rw [parts_eq, hsteps, hqs, htrimmed, spell, List.append_nil, parts_lead_text]
    rfl
  · -- the pieces behind the front are one step and others that take none
    obtain ⟨qs', q', s', junk', htrimmed, hqs', hq', hjunk'⟩ := exists_trimmed hqs
    have hne' : q' ≠ [] := by
      rintro rfl
      cases hq'
    have hfront : (lead path.toList).1.text ++ spell (qs' ++ [q']) ≠ [] := by
      simp [spell_concat_ne_nil qs' hne']
    have htext : path.toList = (lead path.toList).1.text ++ spell (qs' ++ [q']) ++ '/' :: spell (junk' ++ q :: junk) := by
      rw [List.append_assoc, ← spell_append (by simp) (by simp), List.append_assoc, List.singleton_append,
        ← List.cons_append, ← List.append_assoc, ← hqs', ← hpieces, spell_pieces, text_lead]
    have hback : ∀ p ∈ junk' ++ q :: junk, '/' ∉ p := by
      intro p hp
      refine hslash p ?_
      rw [hqs']
      simp only [List.mem_append, List.mem_cons] at hp ⊢
      tauto
    have hsplit := parts_append hfront (spell (junk' ++ q :: junk))
    rw [← htext, String.ofList_toList, steps_spell hback, List.filterMap_append, List.filterMap_cons_some hq, hjunk, hjunk',
      List.nil_append] at hsplit
    rw [htrimmed, hsplit]

/-- The steps of a path with a file name lead to its parent, and on to the name. -/
theorem parts_parent {path : String} {c : List Char} (h : fileName? path = some c) :
    ∃ parent, parent? path = some parent ∧ parts path = parts parent ++ [.name c] := by
  have hlast : (parts path).getLast? = some (.name c) := by
    rw [fileName?] at h
    split at h
    · rename_i hname
      cases h
      exact hname
    · cases h
  have hne : (pieces (lead path.toList).2).filterMap step? ≠ [] := by
    intro hnil
    rw [parts_eq, steps, hnil, List.append_nil] at hlast
    cases hstart : (lead path.toList).1 <;> simp [hstart, Lead.parts] at hlast
  obtain ⟨qs, q, s, junk, htrimmed, hpieces, hq, hjunk⟩ := exists_trimmed hne
  have hparts := exists_front hpieces hq hjunk
  have hs : s = .name c := by
    rw [hparts, List.getLast?_concat] at hlast
    exact Option.some.inj hlast
  refine ⟨_, ?_, hs ▸ hparts⟩
  simp only [parent?, htrimmed]
  split
  · rename_i hnil _
    exact absurd hnil (by simp)
  · rename_i hnil _
    exact absurd hnil (by simp)
  · rw [List.dropLast_concat]

/-! ## What is made of a path -/

theorem fileName?_of_parts {p q : String} (h : parts q = parts p) : fileName? q = fileName? p := by
  rw [fileName?, fileName?, h]

/-- A part of a file name from its start on that has no dot is a part of the stem. -/
theorem prefix_takeWhile {l c : List Char} (h : l <+: c) (hdot : '.' ∉ l) : l <+: c.takeWhile (· ≠ '.') := by
  obtain ⟨rest, rfl⟩ := h
  rw [List.takeWhile_append_of_pos]
  · exact List.prefix_append _ _
  · intro x hx
    simp only [decide_eq_true_eq]
    rintro rfl
    exact hdot hx

theorem parts_outputDir {path : String} {c : List Char} (h : fileName? path = some c) :
    ∃ parent, parent? path = some parent ∧ parts path = parts parent ++ [.name c] ∧
      parts (outputDir path) = parts parent ++ [.name "passthrough".toList] := by
  obtain ⟨parent, hparent, hparts⟩ := parts_parent h
  refine ⟨parent, hparent, hparts, ?_⟩
  rw [outputDir, hparent, Option.getD_some, ← String.ofList_toList (s := "passthrough"), parts_join parent rfl]
  rfl

theorem touches_iff {changes : List Watch.Change} {path : String} {c : List Char} (h : fileName? path = some c) :
    Watch.touches changes path = true ↔ ∃ change ∈ changes, ∃ q ∈ change.paths, fileName? q = some c := by
  simp [Watch.touches, h]

/-- A change with the same paths, respelled. Its kind may be another. -/
def RespelledChange (a b : Watch.Change) : Prop := List.Forall₂ Respelled a.paths b.paths

theorem map_fileName?_of_respelled {ps qs : List String} (h : List.Forall₂ Respelled ps qs) :
    qs.map fileName? = ps.map fileName? := by
  induction h with
  | nil => rfl
  | cons h _ ih => rw [List.map_cons, List.map_cons, fileName?_of_parts (parts_of_respelled h), ih]

theorem touches_of_respelled {changes changes' : List Watch.Change} (h : List.Forall₂ RespelledChange changes changes')
    {p q : String} (hpq : Respelled p q) : Watch.touches changes' q = Watch.touches changes p := by
  have hpaths : List.Forall₂ Respelled (changes.flatMap (·.paths)) (changes'.flatMap (·.paths)) :=
    List.rel_flatMap h fun _ _ h => h
  have hnames : ∀ (changes : List Watch.Change) (path : String),
      Watch.touches changes path = ((changes.flatMap (·.paths)).map fileName?).any fun c => c = fileName? path := by
    intro changes path
    rw [Watch.touches, List.any_map]
    rfl
  rw [hnames, hnames, map_fileName?_of_respelled hpaths, fileName?_of_parts (parts_of_respelled hpq)]

/-- What is made of a path with a file name. Its stem is the longest part of the name from the start on that has no
dot, in whatever directory the file is; generated files go to a directory next to it; and a change touches it by a
path with the same file name. All of that is the same for every path of the same steps, and those are the respelled
ones. -/
theorem names_by_steps {p : String} {c : List Char} (h : fileName? p = some c) :
    ((stem p).toList <+: c ∧ '.' ∉ (stem p).toList ∧ '/' ∉ (stem p).toList ∧
        (∀ l, l <+: c → '.' ∉ l → l <+: (stem p).toList) ∧ ∀ q, fileName? q = some c → stem q = stem p) ∧
      (∃ parent, parent? p = some parent ∧ parts p = parts parent ++ [.name c] ∧
        parts (outputDir p) = parts parent ++ [.name "passthrough".toList]) ∧
      (∀ changes, Watch.touches changes p = true ↔ ∃ change ∈ changes, ∃ q ∈ change.paths, fileName? q = some c) ∧
      (∀ q, parts q = parts p ↔ Respelled p q) ∧
      ∀ q, Respelled p q → stem q = stem p ∧ parts (outputDir q) = parts (outputDir p) ∧
        ∀ changes changes', List.Forall₂ RespelledChange changes changes' →
          Watch.touches changes' q = Watch.touches changes p := by
  have hstem : ∀ {q}, fileName? q = some c → (stem q).toList = c.takeWhile (· ≠ '.') := by
    intro q hq
    rw [toList_stem, hq, Option.getD_some]
  have hsame : ∀ q, fileName? q = some c → stem q = stem p :=
    fun q hq => String.toList_injective ((hstem hq).trans (hstem h).symm)
  refine ⟨⟨?_, dot_not_mem_stem p, ?_, ?_, hsame⟩, parts_outputDir h, fun changes => touches_iff h,
    fun q => parts_eq_iff, fun q hq => ?_⟩
  · rw [hstem h]
    exact List.takeWhile_prefix _
  · rw [slash_mem_stem_iff, h]
    simp
  · intro l hl hdot
    rw [hstem h]
    exact prefix_takeWhile hl hdot
  · have hparts := parts_of_respelled hq
    have hname : fileName? q = some c := (fileName?_of_parts hparts).trans h
    refine ⟨hsame q hname, ?_, fun changes changes' hchanges => touches_of_respelled hchanges hq⟩
    obtain ⟨parent, -, hparent, hdirectory⟩ := parts_outputDir h
    obtain ⟨parent', -, hparent', hdirectory'⟩ := parts_outputDir hname
    have hparents : parts parent' = parts parent :=
      List.append_cancel_right (hparent'.symm.trans (hparts.trans hparent))
    rw [hdirectory, hdirectory', hparents]

/-- A slash and a dot to spare, and an access by way of another directory. -/
theorem lights_names_by_steps :
    fileName? "./a/lights.frag.spv" = some "lights.frag.spv".toList ∧
      Respelled "./a/lights.frag.spv" "./a//./lights.frag.spv" ∧
      stem "./a//./lights.frag.spv" = "lights" ∧
      parts (outputDir "./a//./lights.frag.spv") = [.here, .name ['a'], .name "passthrough".toList] ∧
      Watch.touches [⟨.modify, ["a"]⟩, ⟨.access, ["a/lights.frag", "/b/lights.frag.spv/."]⟩] "./a//./lights.frag.spv" := by
  have hname : fileName? "./a/lights.frag.spv" = some "lights.frag.spv".toList := by decide
  have hspare : Respelled "./a/lights.frag.spv" "./a//./lights.frag.spv" :=
    .trans _ _ _ (.rel _ _ (.dot "./a".toList "lights.frag.spv".toList))
      (.rel _ _ (.slash "./a".toList "./lights.frag.spv".toList))
  obtain ⟨-, -, htouches, -, hsame⟩ := names_by_steps hname
  obtain ⟨hstem, hdirectory, hchanges⟩ := hsame _ hspare
  refine ⟨hname, hspare, hstem.trans (by decide), hdirectory.trans (by decide), ?_⟩
  rw [hchanges _ _ (List.forall₂_same.mpr fun _ _ => List.forall₂_same.mpr fun _ _ => .refl _), htouches]
  exact ⟨_, .tail _ (.head _), "/b/lights.frag.spv/.", .tail _ (.head _), by decide⟩

end StageRig.Path
