/-
  StageRig.Proofs.Path — the steps of joined paths.

  - `parts_append`: what follows a slash takes its steps after those in front of it.
  - `parts_join`: a relative path seen from a base takes its steps after those of the base.
  - `exists_siblings`: files that are named alike up to their extensions are siblings, also
    where the common name has slashes or is absolute.
  - `slash_mem_stem_iff`: when the stem of a path holds a slash.
-/

import StageRig.Path

namespace StageRig.Path

/-! ## Pieces -/

theorem pieces_ne_nil (cs : List Char) : pieces cs ≠ [] := by
  cases cs with
  | nil => simp [pieces]
  | cons c cs =>
    rw [pieces]
    split
    · simp
    · split <;> simp

theorem pieces_of_not_mem {cs : List Char} (h : '/' ∉ cs) : pieces cs = [cs] := by
  induction cs with
  | nil => rfl
  | cons c cs ih =>
    obtain ⟨hc, hcs⟩ := not_or.mp (mt List.mem_cons.mpr h)
    rw [pieces, if_neg (Ne.symm hc), ih hcs]

theorem pieces_append (cs ds : List Char) : pieces (cs ++ '/' :: ds) = pieces cs ++ pieces ds := by
  induction cs with
  | nil => simp [pieces]
  | cons c cs ih =>
    rw [List.cons_append, pieces, pieces, ih]
    by_cases hc : c = '/'
    · simp [hc]
    · rw [if_neg hc, if_neg hc]
      obtain ⟨p, ps, hp⟩ := List.exists_cons_of_ne_nil (pieces_ne_nil cs)
      rw [hp]
      rfl

/-- The steps of a text without a start of its own. -/
def steps (cs : List Char) : List Part := (pieces cs).filterMap step?

theorem steps_append (cs ds : List Char) : steps (cs ++ '/' :: ds) = steps cs ++ steps ds := by
  rw [steps, pieces_append, List.filterMap_append]
  rfl

@[simp] theorem steps_nil : steps [] = [] := rfl

theorem mem_of_mem_pieces {cs p : List Char} (h : p ∈ pieces cs) {c : Char} (hc : c ∈ p) : c ∈ cs := by
  induction cs generalizing p with
  | nil =>
    rw [pieces, List.mem_singleton] at h
    exact h ▸ hc
  | cons d cs ih =>
    rw [pieces] at h
    split at h
    · rcases List.mem_cons.mp h with rfl | h
      · cases hc
      · exact List.mem_cons_of_mem _ (ih h hc)
    · obtain ⟨q, ps, hps⟩ := List.exists_cons_of_ne_nil (pieces_ne_nil cs)
      rw [hps] at h ih
      rcases List.mem_cons.mp h with rfl | h
      · rcases List.mem_cons.mp hc with rfl | hc
        · exact List.mem_cons_self
        · exact List.mem_cons_of_mem _ (ih List.mem_cons_self hc)
      · exact List.mem_cons_of_mem _ (ih (List.mem_cons_of_mem _ h) hc)

theorem not_mem_of_mem_pieces {cs p : List Char} (h : p ∈ pieces cs) : '/' ∉ p := by
  induction cs generalizing p with
  | nil =>
    rw [pieces, List.mem_singleton] at h
    simp [h]
  | cons d cs ih =>
    rw [pieces] at h
    split at h
    · rcases List.mem_cons.mp h with rfl | h
      · simp
      · exact ih h
    · rename_i hd
      obtain ⟨q, ps, hps⟩ := List.exists_cons_of_ne_nil (pieces_ne_nil cs)
      rw [hps] at h ih
      rcases List.mem_cons.mp h with rfl | h
      · rw [List.mem_cons, not_or]
        exact ⟨Ne.symm hd, ih List.mem_cons_self⟩
      · exact ih (List.mem_cons_of_mem _ h)

/-- Without dots every step is one to a name. -/
theorem exists_name_of_mem_steps {cs : List Char} (h : '.' ∉ cs) {s : Part} (hs : s ∈ steps cs) : ∃ n, s = .name n := by
  obtain ⟨p, hp, hstep⟩ := List.mem_filterMap.mp hs
  have hdot : '.' ∉ p := fun hd => h (mem_of_mem_pieces hp hd)
  unfold step? at hstep
  split at hstep
  · cases hstep
  · cases hstep
  · exact absurd List.mem_cons_self hdot
  · exact ⟨_, (Option.some.inj hstep).symm⟩

theorem parts_eq (path : String) : parts path = (lead path.toList).1.parts ++ steps (lead path.toList).2 := rfl

theorem parts_ofList (cs : List Char) : parts (String.ofList cs) = (lead cs).1.parts ++ steps (lead cs).2 := by
  rw [parts_eq, String.toList_ofList]

theorem lead_eq_nothing {cs : List Char} (hroot : ∀ rest, cs ≠ '/' :: rest) (hhere : cs ≠ ['.'])
    (hinside : ∀ rest, cs ≠ '.' :: '/' :: rest) : lead cs = (.nothing, cs) := by
  unfold lead
  split
  · exact absurd rfl (hroot _)
  · exact absurd rfl hhere
  · exact absurd rfl (hinside _)
  · rfl

theorem lead_append {cs : List Char} (hcs : cs ≠ []) (ds : List Char) :
    lead (cs ++ '/' :: ds) = ((lead cs).1, (lead cs).2 ++ '/' :: ds) := by
  fun_cases lead cs with
  | case1 rest => rfl
  | case2 => rfl
  | case3 rest => rfl
  | case4 _ hroot hhere hinside =>
    refine lead_eq_nothing (fun rest h => ?_) (fun h => ?_) (fun rest h => ?_)
    · obtain ⟨c, cs, rfl⟩ := List.exists_cons_of_ne_nil hcs
      exact hroot cs (by rw [(List.cons.inj h).1])
    · obtain ⟨c, cs, rfl⟩ := List.exists_cons_of_ne_nil hcs
      exact absurd (List.cons.inj h).2 (by simp)
    · obtain ⟨c, cs, rfl⟩ := List.exists_cons_of_ne_nil hcs
      obtain ⟨rfl, htail⟩ := List.cons.inj h
      cases cs with
      | nil => exact hhere rfl
      | cons d cs => exact hinside cs (by rw [(List.cons.inj htail).1])

theorem parts_append {cs : List Char} (hcs : cs ≠ []) (ds : List Char) :
    parts (String.ofList (cs ++ '/' :: ds)) = parts (String.ofList cs) ++ steps ds := by
  rw [parts_ofList, parts_ofList, lead_append hcs, steps_append, List.append_assoc]

/-! ## Joining -/

theorem join_root (base : String) (cs : List Char) :
    join base (String.ofList ('/' :: cs)) = String.ofList ('/' :: cs) := by
  rw [join, String.toList_ofList]
  rfl

/-- A path that does not start with a slash comes after the base and one slash. -/
theorem join_of_relative (base : String) {cs : List Char} (hroot : ∀ rest, cs ≠ '/' :: rest) :
    join base (String.ofList cs) = String.ofList (base.toList ++ cs) ∧
        (base.toList = [] ∨ ∃ front, base.toList = front ++ ['/']) ∨
      base.toList ≠ [] ∧ join base (String.ofList cs) = String.ofList (base.toList ++ '/' :: cs) := by
  rw [join, String.toList_ofList]
  rcases List.eq_nil_or_concat base.toList with hempty | ⟨front, c, hfront⟩
  · left
    rw [hempty]
    refine ⟨?_, Or.inl rfl⟩
    split
    · exact absurd rfl (hroot _)
    · rfl
  · rw [List.concat_eq_append] at hfront
    rw [hfront, List.getLast?_concat]
    by_cases hc : c = '/'
    · subst hc
      left
      refine ⟨?_, Or.inr ⟨front, rfl⟩⟩
      split
      · exact absurd rfl (hroot _)
      · simp
    · right
      refine ⟨by simp, ?_⟩
      split
      · exact absurd rfl (hroot _)
      · split
        · simp_all
        · simp_all
        · simp

/-- A path with no start of its own, seen from a base. -/
theorem parts_join (base : String) {cs : List Char} (hcs : lead cs = (.nothing, cs)) :
    parts (join base (String.ofList cs)) = parts base ++ steps cs := by
  have hroot : ∀ rest, cs ≠ '/' :: rest := by
    intro rest h
    rw [h] at hcs
    cases hcs
  have hbase : parts base = parts (String.ofList base.toList) := by rw [String.ofList_toList]
  rcases join_of_relative base hroot with ⟨hjoin, hempty | ⟨front, hfront⟩⟩ | ⟨hne, hjoin⟩
  · rw [hjoin, hbase, hempty, List.nil_append, parts_ofList cs, hcs]
    rfl
  · rw [hjoin, hbase, hfront, List.append_assoc, List.singleton_append]
    cases front with
    | nil => exact (parts_ofList ('/' :: cs)).trans rfl
    | cons d front =>
      have hfront : d :: front ≠ [] := List.cons_ne_nil d front
      rw [parts_append hfront cs, parts_append hfront [], steps_nil, List.append_nil]
  · rw [hjoin, hbase, parts_append hne cs]

/-! ## Extensions -/

/-- A dot and what follows it in a file name: not nothing, and no further dot at once. -/
def Extension (ext : List Char) : Prop := ∃ c rest, ext = '.' :: c :: rest ∧ c ≠ '.' ∧ '/' ∉ c :: rest

theorem steps_extension {l ext : List Char} (hl : '/' ∉ l) (h : Extension ext) :
    steps (l ++ ext) = [.name (l ++ ext)] := by
  obtain ⟨c, rest, rfl, hdot, hslash⟩ := h
  have hname : step? (l ++ '.' :: c :: rest) = some (.name (l ++ '.' :: c :: rest)) := by
    unfold step?
    split
    · simp_all
    · rename_i heq
      have := congrArg List.length heq
      simp only [List.length_append, List.length_cons, List.length_nil] at this
      omega
    · rename_i heq
      rcases l with _ | ⟨d, l⟩
      · exact absurd (List.cons.inj (List.cons.inj heq).2).1 hdot
      · have := congrArg List.length heq
        simp only [List.length_append, List.length_cons, List.length_nil] at this
        omega
    · rfl
  have hpiece : '/' ∉ l ++ '.' :: c :: rest := by
    rw [List.mem_append, List.mem_cons, not_or, not_or]
    exact ⟨hl, by decide, hslash⟩
  rw [steps, pieces_of_not_mem hpiece, List.filterMap_cons, hname]
  rfl

theorem lead_extension {name ext : List Char} (hdot : '.' ∉ name) (hroot : ∀ rest, name ≠ '/' :: rest)
    (h : Extension ext) : lead (name ++ ext) = (.nothing, name ++ ext) := by
  obtain ⟨c, rest, rfl, _, hslash⟩ := h
  cases name with
  | nil =>
    refine lead_eq_nothing (fun more h => ?_) (fun h => ?_) (fun more h => ?_)
    · exact absurd (List.cons.inj h).1 (by decide)
    · exact absurd (List.cons.inj h).2 (List.cons_ne_nil _ _)
    · exact hslash (by rw [(List.cons.inj h).2]; exact List.mem_cons_self)
  | cons d name =>
    have hd : d ≠ '.' := fun hd => hdot (hd ▸ List.mem_cons_self)
    refine lead_eq_nothing (fun more h => ?_) (fun h => ?_) (fun more h => ?_)
    · exact hroot name (by rw [(List.cons.inj h).1])
    · exact hd (List.cons.inj h).1
    · exact hd (List.cons.inj h).1

/-- The last slash of a text. -/
theorem exists_last_slash {cs : List Char} (h : '/' ∈ cs) : ∃ front l, cs = front ++ '/' :: l ∧ '/' ∉ l := by
  obtain ⟨as, bs, hcs, has⟩ := List.eq_append_cons_of_mem (List.mem_reverse.mpr h)
  refine ⟨bs.reverse, as.reverse, ?_, by simpa using has⟩
  have := congrArg List.reverse hcs
  simpa using this

theorem exists_siblings (base : String) {name : List Char} (hdot : '.' ∉ name) :
    ∃ front l, (∀ ext, Extension ext → parts (join base (String.ofList (name ++ ext))) = front ++ [.name (l ++ ext)]) ∧
      ('/' ∉ name ∧ front = parts base ∧ l = name ∨
        '/' ∈ name ∧ ∃ names, (∀ s ∈ names, ∃ n, s = Part.name n) ∧
          (front = parts base ++ names ∨ name.head? = some '/' ∧ front = .root :: names)) := by
  by_cases hslash : '/' ∈ name
  · obtain ⟨dirs, l, rfl, hl⟩ := exists_last_slash hslash
    have hnames : ∀ {cs}, '.' ∉ cs → ∀ s ∈ steps cs, ∃ n, s = Part.name n := fun h s hs => exists_name_of_mem_steps h hs
    have hdirs : '.' ∉ dirs := fun h => hdot (List.mem_append_left _ h)
    by_cases hroot : ∃ rest, dirs ++ '/' :: l = '/' :: rest
    · obtain ⟨rest, hrest⟩ := hroot
      have hparts : ∀ ext,
          parts (join base (String.ofList (dirs ++ '/' :: l ++ ext))) = .root :: steps (rest ++ ext) := by
        intro ext
        rw [hrest, List.cons_append, join_root, parts_ofList]
        rfl
      cases dirs with
      | nil =>
        obtain rfl : l = rest := (List.cons.inj hrest).2
        refine ⟨[.root], l, fun ext hext => ?_, Or.inr ⟨hslash, [], by simp, Or.inr ⟨rfl, rfl⟩⟩⟩
        rw [hparts, steps_extension hl hext]
        rfl
      | cons d dirs =>
        have hhead : (d :: dirs ++ '/' :: l).head? = some '/' := by rw [hrest, List.head?_cons]
        obtain rfl : dirs ++ '/' :: l = rest := (List.cons.inj hrest).2
        have hdirs : '.' ∉ dirs := fun h => hdirs (List.mem_cons_of_mem _ h)
        refine ⟨.root :: steps dirs, l, fun ext hext => ?_,
          Or.inr ⟨hslash, steps dirs, hnames hdirs, Or.inr ⟨hhead, rfl⟩⟩⟩
        rw [hparts, List.append_assoc, List.cons_append, steps_append, steps_extension hl hext]
        rfl
    · rw [not_exists] at hroot
      refine ⟨parts base ++ steps dirs, l, fun ext hext => ?_, Or.inr ⟨hslash, steps dirs, hnames hdirs, Or.inl rfl⟩⟩
      rw [parts_join base (lead_extension hdot hroot hext), List.append_assoc, List.cons_append, steps_append,
        steps_extension hl hext, List.append_assoc]
  · refine ⟨parts base, name, fun ext hext => ?_, Or.inl ⟨hslash, rfl, rfl⟩⟩
    have hroot : ∀ rest, name ≠ '/' :: rest := by
      intro rest h
      exact hslash (by simp [h])
    rw [parts_join base (lead_extension hdot hroot hext), steps_extension hslash hext]

/-! ## Stems -/

theorem not_mem_of_name_mem_parts {path : String} {n : List Char} (h : .name n ∈ parts path) : '/' ∉ n := by
  rw [parts_eq] at h
  rcases List.mem_append.mp h with h | h
  · cases hlead : (lead path.toList).1 <;> simp [hlead, Lead.parts] at h
  · obtain ⟨p, hp, hstep⟩ := List.mem_filterMap.mp h
    have hpn : p = n := by
      unfold step? at hstep
      split at hstep
      · cases hstep
      · cases hstep
      · cases hstep
      · exact Part.name.inj (Option.some.inj hstep)
    exact hpn ▸ not_mem_of_mem_pieces hp

theorem not_mem_fileName? {path : String} {n : List Char} (h : fileName? path = some n) : '/' ∉ n := by
  unfold fileName? at h
  split at h
  · rename_i m hm
    cases h
    exact not_mem_of_name_mem_parts (List.mem_of_getLast? hm)
  · cases h

theorem toList_stem (path : String) :
    (stem path).toList = ((fileName? path).getD path.toList).takeWhile (· ≠ '.') := String.toList_ofList

theorem dot_not_mem_stem (path : String) : '.' ∉ (stem path).toList := by
  rw [toList_stem]
  intro h
  simpa using List.all_eq_true.mp List.all_takeWhile _ h

/-- The stem of a path holds a slash when the path has no file name and its first slash stands in front of its
first dot. -/
theorem slash_mem_stem_iff {path : String} :
    '/' ∈ (stem path).toList ↔ fileName? path = none ∧ '/' ∈ path.toList.takeWhile (· ≠ '.') := by
  rw [toList_stem]
  cases h : fileName? path with
  | none => simp
  | some n =>
    refine iff_of_false (fun hmem => not_mem_fileName? h ?_) (by simp)
    exact (List.takeWhile_sublist _).subset hmem

end StageRig.Path
