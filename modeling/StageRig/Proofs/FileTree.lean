/-
  StageRig.Proofs.FileTree — what file operations find and what they change.

  There are no links in a tree, so the place that a path leads to is told by its steps
  alone (`placeOf`), and so are the places that it passes (`wayTo`); the tree decides only
  whether all of these are directories.

  - `walk_ok_iff`, `locate_ok_iff`: a path is found exactly when it passes directories only.
  - `grown_makeDirs`: making directories adds some that the path passes and were missing,
    and nothing else, whether it succeeds or not; `makeDirs_ok`: when it succeeds, all are
    there.
  - `get?_save`: a file that is saved is the one change.
  - `makeDirs_present`, `save_again`: doing either once more changes nothing.
-/

import Mathlib.Data.List.Induction
import StageRig.FileTree
import StageRig.Proofs.Outcome

namespace StageRig.FileTree

/-! ## Steps -/

def stepTo (place : Place) : Path.Part → Place
  | .root => []
  | .here => place
  | .up => place.dropLast
  | .name n => place ++ [n]

/-- Where steps lead, directories permitting. -/
def goal (place : Place) (steps : List Path.Part) : Place := steps.foldl stepTo place

/-- The places that steps pass, the last one included. -/
def way (place : Place) : List Path.Part → List Place
  | [] => []
  | s :: rest => stepTo place s :: way (stepTo place s) rest

def placeOf (path : String) : Place := goal [] (Path.parts path)

def wayTo (path : String) : List Place := way [] (Path.parts path)

/-- No name in the steps is too long. -/
def Short (steps : List Path.Part) : Prop := ∀ n, .name n ∈ steps → tooLong n = false

@[simp] theorem goal_nil (place : Place) : goal place [] = place := rfl

@[simp] theorem goal_cons (place : Place) (s : Path.Part) (steps : List Path.Part) :
    goal place (s :: steps) = goal (stepTo place s) steps := rfl

theorem goal_append (place : Place) (steps more : List Path.Part) :
    goal place (steps ++ more) = goal (goal place steps) more := List.foldl_append

theorem way_append (place : Place) (steps more : List Path.Part) :
    way place (steps ++ more) = way place steps ++ way (goal place steps) more := by
  induction steps generalizing place with
  | nil => rfl
  | cons s steps ih => simp [way, ih]

theorem mem_way_of_dropLast {place q : Place} {steps : List Path.Part} (h : q ∈ way place steps.dropLast) :
    q ∈ way place steps := by
  rcases List.eq_nil_or_concat steps with rfl | ⟨front, s, rfl⟩
  · exact h
  · rw [List.concat_eq_append, List.dropLast_concat] at h
    rw [List.concat_eq_append, way_append]
    exact List.mem_append_left _ h

theorem short_cons {s : Path.Part} {steps : List Path.Part} :
    Short (s :: steps) ↔ (∀ n, s = .name n → tooLong n = false) ∧ Short steps := by
  simp only [Short, List.mem_cons, or_imp, forall_and, eq_comm]

theorem short_append {steps more : List Path.Part} : Short (steps ++ more) ↔ Short steps ∧ Short more := by
  simp only [Short, List.mem_append, or_imp, forall_and]

/-- A step other than to a name stays among directories. -/
theorem get?_stepTo {t : FileTree} {place : Place} (h : t.get? place = some .directory) {s : Path.Part}
    (hs : ∀ n, s ≠ .name n) : t.get? (stepTo place s) = some .directory := by
  cases s with
  | root => exact get?_nil t
  | here => exact h
  | up => exact get?_dropLast h
  | name n => exact absurd rfl (hs n)

theorem get?_goal {t : FileTree} {place : Place} (h : t.get? place = some .directory) {steps : List Path.Part}
    (hway : ∀ q ∈ way place steps, t.get? q = some .directory) : t.get? (goal place steps) = some .directory := by
  induction steps generalizing place with
  | nil => exact h
  | cons s steps ih =>
    obtain ⟨hs, hway⟩ := List.forall_mem_cons.mp hway
    exact ih hs hway

/-- Steps to names only lead down. -/
theorem prefix_goal {place : Place} {steps : List Path.Part} (hnames : ∀ s ∈ steps, ∃ n, s = Path.Part.name n) :
    place <+: goal place steps := by
  induction steps generalizing place with
  | nil => exact List.prefix_rfl
  | cons s steps ih =>
    obtain ⟨⟨n, rfl⟩, hrest⟩ := List.forall_mem_cons.mp hnames
    exact (List.prefix_append place [n]).trans (ih hrest)

theorem prefix_of_mem_way {place q : Place} {steps : List Path.Part} (hnames : ∀ s ∈ steps, ∃ n, s = Path.Part.name n)
    (h : q ∈ way place steps) : q <+: goal place steps := by
  induction steps generalizing place with
  | nil => cases h
  | cons s steps ih =>
    obtain ⟨_, hnames⟩ := List.forall_mem_cons.mp hnames
    rcases List.mem_cons.mp h with rfl | h
    · exact prefix_goal hnames
    · exact ih hnames h

/-! ## Walking -/

theorem walk_cons {t : FileTree} {place : Place} {s : Path.Part} (hs : ∀ n, s ≠ .name n) (steps : List Path.Part) :
    t.walk place (s :: steps) = t.walk (stepTo place s) steps := by
  cases s with
  | root | here | up => rfl
  | name n => exact absurd rfl (hs n)

theorem walk_name_ok_iff {t : FileTree} {place p : Place} {n : List Char} {steps : List Path.Part} :
    t.walk place (.name n :: steps) = .ok p ↔
      tooLong n = false ∧ t.get? (place ++ [n]) = some .directory ∧ t.walk (place ++ [n]) steps = .ok p := by
  rw [walk]
  cases tooLong n with
  | true => simp
  | false =>
    cases hn : t.get? (place ++ [n]) with
    | none => simp
    | some e => cases e <;> simp

theorem walk_ok_iff {t : FileTree} {place p : Place} (h : t.get? place = some .directory) {steps : List Path.Part} :
    t.walk place steps = .ok p ↔
      p = goal place steps ∧ Short steps ∧ ∀ q ∈ way place steps, t.get? q = some .directory := by
  induction steps generalizing place with
  | nil =>
    simp only [walk, Except.ok.injEq, goal_nil, Short, way, List.not_mem_nil, false_implies, implies_true, and_true]
    exact eq_comm
  | cons s steps ih =>
    simp only [goal_cons, short_cons, way, List.forall_mem_cons]
    by_cases hs : ∃ n, s = .name n
    · obtain ⟨n, rfl⟩ := hs
      rw [walk_name_ok_iff]
      constructor
      · intro ⟨hshort, hn, hwalk⟩
        obtain ⟨hp, hsteps, hway⟩ := (ih hn).mp hwalk
        exact ⟨hp, ⟨fun m hm => by cases hm; exact hshort, hsteps⟩, hn, hway⟩
      · intro ⟨hp, ⟨hshort, hsteps⟩, hn, hway⟩
        exact ⟨hshort n rfl, hn, (ih hn).mpr ⟨hp, hsteps, hway⟩⟩
    · rw [not_exists] at hs
      have hplace := get?_stepTo h hs
      rw [walk_cons hs, ih hplace]
      simp only [hs, hplace, false_implies, implies_true, true_and]

/-! ## Making directories -/

theorem descend_cons {t : FileTree} {place : Place} {s : Path.Part} (hs : ∀ n, s ≠ .name n) (steps : List Path.Part) :
    t.descend place (s :: steps) = t.descend (stepTo place s) steps := by
  cases s with
  | root | here | up => rfl
  | name n => exact absurd rfl (hs n)

/-- The tree with a directory at a place, where nothing was. -/
theorem get?_set_directory {t : FileTree} {place : Place} {n : List Char} (h : t.get? place = some .directory)
    (hn : t.get? (place ++ [n]) = none) (q : Place) :
    (t.set (place ++ [n]) .directory).get? q = if q = place ++ [n] then some .directory else t.get? q :=
  get?_set (by rwa [List.dropLast_concat]) (by simp [hn]) _ q

/-- A step of `descend` to a name: it fails and leaves the tree, or it goes on from a directory that is there or
that it has made. -/
theorem descend_name (t : FileTree) (place : Place) (n : List Char) (steps : List Path.Part) :
    (∃ e, t.descend place (.name n :: steps) = (t, .error e)) ∨
      tooLong n = false ∧
        (t.get? (place ++ [n]) = some .directory ∧
            t.descend place (.name n :: steps) = t.descend (place ++ [n]) steps ∨
          t.get? (place ++ [n]) = none ∧
            t.descend place (.name n :: steps) = (t.set (place ++ [n]) .directory).descend (place ++ [n]) steps) := by
  rw [descend]
  cases tooLong n with
  | true => exact Or.inl ⟨_, rfl⟩
  | false =>
    cases hn : t.get? (place ++ [n]) with
    | none => exact Or.inr ⟨rfl, Or.inr ⟨rfl, rfl⟩⟩
    | some e =>
      cases e with
      | directory => exact Or.inr ⟨rfl, Or.inl ⟨rfl, rfl⟩⟩
      | file c => exact Or.inl ⟨_, rfl⟩

/-- `u` is `t` with some directories more, at places that were empty. -/
def Grown (t u : FileTree) (places : List Place) : Prop :=
  ∀ q, u.get? q = t.get? q ∨ q ∈ places ∧ t.get? q = none ∧ u.get? q = some .directory

theorem Grown.refl (t : FileTree) (places : List Place) : Grown t t places := fun _ => Or.inl rfl

theorem Grown.mono {t u : FileTree} {places more : List Place} (h : Grown t u places) (hsub : ∀ q ∈ places, q ∈ more) :
    Grown t u more := fun q => (h q).imp_right fun ⟨hq, hrest⟩ => ⟨hsub q hq, hrest⟩

/-- What is in the tree stays. -/
theorem Grown.get?_of_some {t u : FileTree} {places : List Place} (h : Grown t u places) {q : Place} {e : Entry}
    (hq : t.get? q = some e) : u.get? q = some e := by
  rcases h q with h | ⟨_, hnone, _⟩
  · rw [h, hq]
  · rw [hq] at hnone
    cases hnone

theorem Grown.trans {t u v : FileTree} {places : List Place} (h : Grown t u places) (h' : Grown u v places) :
    Grown t v places := by
  intro q
  rcases h q with hq | ⟨hmem, hnone, hdir⟩
  · simpa only [hq] using h' q
  · exact Or.inr ⟨hmem, hnone, h'.get?_of_some hdir⟩

-- The induction is on the steps still to be taken, from a place that is a directory by then.
theorem grown_descend {t : FileTree} {place : Place} (h : t.get? place = some .directory) (steps : List Path.Part) :
    Grown t (t.descend place steps).1 (way place steps) := by
  induction steps generalizing t place with
  | nil => exact Grown.refl t _
  | cons s steps ih =>
    rw [way]
    by_cases hs : ∃ n, s = .name n
    · obtain ⟨n, rfl⟩ := hs
      rcases descend_name t place n steps with ⟨e, hfail⟩ | ⟨_, ⟨hdir, hgo⟩ | ⟨hnone, hmade⟩⟩
      · rw [hfail]
        exact Grown.refl t _
      · rw [hgo]
        exact (ih hdir).mono fun q hq => List.mem_cons_of_mem _ hq
      · have hset := get?_set_directory h hnone
        have hstep :
            Grown t (t.set (place ++ [n]) .directory) (stepTo place (.name n) :: way (place ++ [n]) steps) := by
          intro q
          rw [hset]
          by_cases hq : q = place ++ [n]
          · subst hq
            exact Or.inr ⟨List.mem_cons_self, hnone, if_pos rfl⟩
          · exact Or.inl (if_neg hq)
        rw [hmade]
        refine hstep.trans ((ih ?_).mono fun q hq => List.mem_cons_of_mem _ hq)
        rw [hset, if_pos rfl]
    · rw [not_exists] at hs
      rw [descend_cons hs]
      exact (ih (get?_stepTo h hs)).mono fun q hq => List.mem_cons_of_mem _ hq

theorem descend_ok {t : FileTree} {place p : Place} (h : t.get? place = some .directory) {steps : List Path.Part}
    (hok : (t.descend place steps).2 = .ok p) :
    p = goal place steps ∧ Short steps ∧ ∀ q ∈ way place steps, (t.descend place steps).1.get? q = some .directory := by
  induction steps generalizing t place with
  | nil =>
    cases hok
    exact ⟨rfl, by simp [Short], by simp [way]⟩
  | cons s steps ih =>
    simp only [goal_cons, short_cons, way, List.forall_mem_cons]
    by_cases hs : ∃ n, s = .name n
    · obtain ⟨n, rfl⟩ := hs
      have hshort : tooLong n = false → ∀ m, Path.Part.name n = .name m → tooLong m = false := by
        intro hn m hm
        cases hm
        exact hn
      rcases descend_name t place n steps with ⟨e, hfail⟩ | ⟨hn, ⟨hdir, hgo⟩ | ⟨hnone, hmade⟩⟩
      · rw [hfail] at hok
        cases hok
      · rw [hgo] at hok ⊢
        obtain ⟨hp, hsteps, hway⟩ := ih hdir hok
        exact ⟨hp, ⟨hshort hn, hsteps⟩, (grown_descend hdir steps).get?_of_some hdir, hway⟩
      · have hdir : (t.set (place ++ [n]) .directory).get? (place ++ [n]) = some .directory := by
          rw [get?_set_directory h hnone, if_pos rfl]
        rw [hmade] at hok ⊢
        obtain ⟨hp, hsteps, hway⟩ := ih hdir hok
        exact ⟨hp, ⟨hshort hn, hsteps⟩, (grown_descend hdir steps).get?_of_some hdir, hway⟩
    · rw [not_exists] at hs
      have hplace := get?_stepTo h hs
      rw [descend_cons hs] at hok ⊢
      obtain ⟨hp, hsteps, hway⟩ := ih hplace hok
      exact ⟨hp, ⟨fun n hn => absurd hn (hs n), hsteps⟩, (grown_descend hplace steps).get?_of_some hplace, hway⟩

/-- Where all directories are there, `descend` makes none. -/
theorem descend_present {t : FileTree} {place : Place} {steps : List Path.Part} (hshort : Short steps)
    (hway : ∀ q ∈ way place steps, t.get? q = some .directory) :
    t.descend place steps = (t, .ok (goal place steps)) := by
  induction steps generalizing place with
  | nil => rfl
  | cons s steps ih =>
    rw [short_cons] at hshort
    rw [way, List.forall_mem_cons] at hway
    have hrest := ih hshort.2 hway.2
    cases s with
    | root | here | up => exact hrest
    | name n =>
      have hn : t.get? (place ++ [n]) = some .directory := hway.1
      rw [descend, hshort.1 n rfl]
      simp only [Bool.false_eq_true, if_false, hn]
      exact hrest

/-- Making directories adds some that are on the way, whether it succeeds or not. -/
theorem grown_makeDirs (t : FileTree) (path : String) : Grown t (t.makeDirs path).1 (wayTo path) := by
  rw [makeDirs, wayTo]
  cases refusal? path with
  | some e => exact Grown.refl t _
  | none =>
    have hall := grown_descend (get?_nil t) (Path.parts path)
    have hfront := grown_descend (get?_nil t) (Path.parts path).dropLast
    dsimp only
    by_cases hhere : Path.endsHere path = true
    · rw [if_pos hhere]
      have hfront := hfront.mono fun q hq => mem_way_of_dropLast hq
      rcases hmade : t.descend [] (Path.parts path).dropLast with ⟨made, e | p⟩
      · rwa [hmade] at hfront
      · rwa [hmade] at hfront
    · rw [if_neg hhere]
      exact hall

/-- After directories were made, all of them are there. -/
theorem makeDirs_ok {t : FileTree} {path : String} (h : (t.makeDirs path).2 = .ok ()) :
    refusal? path = none ∧ Short (Path.parts path) ∧
      ∀ q ∈ wayTo path, (t.makeDirs path).1.get? q = some .directory := by
  rw [makeDirs] at h ⊢
  cases hrefusal : refusal? path with
  | some e => simp [hrefusal] at h
  | none =>
    simp only [hrefusal] at h ⊢
    by_cases hhere : Path.endsHere path = true
    · simp only [if_pos hhere] at h ⊢
      rcases hmade : t.descend [] (Path.parts path).dropLast with ⟨made, e | p⟩
      · simp [hmade] at h
      · simp only [hmade] at h ⊢
        rw [map_eq_ok_iff] at h
        obtain ⟨p', hwalk, _⟩ := h
        exact ⟨trivial, ((walk_ok_iff (get?_nil made)).mp hwalk).2⟩
    · simp only [if_neg hhere] at h ⊢
      rw [map_eq_ok_iff] at h
      obtain ⟨p, hp, _⟩ := h
      exact ⟨trivial, (descend_ok (get?_nil t) hp).2⟩

/-- Where all directories are there, none are made. -/
theorem makeDirs_present {t : FileTree} {path : String} (hrefusal : refusal? path = none)
    (hshort : Short (Path.parts path)) (hway : ∀ q ∈ wayTo path, t.get? q = some .directory) :
    t.makeDirs path = (t, .ok ()) := by
  have hfront : t.descend [] (Path.parts path).dropLast = (t, .ok _) :=
    descend_present (fun n hn => hshort n ((List.dropLast_sublist _).subset hn)) fun q hq =>
      hway q (mem_way_of_dropLast hq)
  have hwalk : t.walk [] (Path.parts path) = .ok _ := (walk_ok_iff (get?_nil t)).mpr ⟨rfl, hshort, hway⟩
  simp only [makeDirs, hrefusal, hfront, descend_present hshort hway, hwalk]
  exact ite_self _

/-! ## Files -/

theorem locate_ok_iff {t : FileTree} {path : String} {p : Place} :
    t.locate path = .ok p ↔
      refusal? path = none ∧ Path.isDirectoryLike path = false ∧
        ∃ front n, Path.parts path = front ++ [.name n] ∧ Short (front ++ [.name n]) ∧
          (∀ q ∈ way [] front, t.get? q = some .directory) ∧ p = goal [] front ++ [n] := by
  rw [locate]
  cases refusal? path with
  | some e => simp
  | none =>
    cases Path.isDirectoryLike path with
    | true => simp
    | false =>
      simp only [Bool.false_eq_true, if_false, true_and]
      constructor
      · intro h
        split at h
        · rename_i n hn
          obtain ⟨front, hparts⟩ := List.getLast?_eq_some_iff.mp hn
          rw [hparts, List.dropLast_concat] at h
          cases hwalk : t.walk [] front with
          | error e => simp [hwalk] at h
          | ok place =>
            obtain ⟨rfl, hshort, hway⟩ := (walk_ok_iff (get?_nil t)).mp hwalk
            cases hlong : tooLong n with
            | true => simp [hwalk, hlong] at h
            | false =>
              simp only [hwalk, hlong, Bool.false_eq_true, if_false, Except.ok.injEq] at h
              refine ⟨front, n, hparts, short_append.mpr ⟨hshort, fun m hm => ?_⟩, hway, h.symm⟩
              cases List.mem_singleton.mp hm
              exact hlong
        · cases h
      · intro h
        obtain ⟨front, n, hparts, hshort, hway, rfl⟩ := h
        obtain ⟨hfront, hn⟩ := short_append.mp hshort
        have hwalk : t.walk [] front = .ok _ := (walk_ok_iff (get?_nil t)).mpr ⟨rfl, hfront, hway⟩
        rw [hparts, List.getLast?_concat, List.dropLast_concat]
        simp only [hwalk, hn n (by simp), Bool.false_eq_true, if_false]

theorem placeOf_of_locate {t : FileTree} {path : String} {p : Place} (h : t.locate path = .ok p) :
    p = placeOf path ∧ t.get? p.dropLast = some .directory := by
  obtain ⟨_, _, front, n, hparts, _, hway, rfl⟩ := locate_ok_iff.mp h
  rw [placeOf, hparts, goal_append, List.dropLast_concat]
  exact ⟨rfl, get?_goal (get?_nil t) hway⟩

theorem locate_mono {t u : FileTree} {path : String} {p : Place} (h : t.locate path = .ok p)
    (hdirs : ∀ q, t.get? q = some .directory → u.get? q = some .directory) : u.locate path = .ok p := by
  obtain ⟨hrefusal, hlike, front, n, hparts, hshort, hway, hp⟩ := locate_ok_iff.mp h
  exact locate_ok_iff.mpr ⟨hrefusal, hlike, front, n, hparts, hshort, fun q hq => hdirs q (hway q hq), hp⟩

theorem save_ok_iff {t u : FileTree} {path : String} {content : List UInt8} :
    t.save path content = .ok u ↔
      t.locate path = .ok (placeOf path) ∧ t.get? (placeOf path) ≠ some .directory ∧
        u = t.set (placeOf path) (.file content) := by
  rw [save]
  cases hp : t.locate path with
  | error e => simp
  | ok p =>
    obtain ⟨rfl, _⟩ := placeOf_of_locate hp
    cases hget : t.get? (placeOf path) with
    | none => simpa only [hget, Except.ok.injEq, true_and, ne_eq, reduceCtorEq, not_false_eq_true] using eq_comm
    | some e =>
      cases e with
      | directory => simp [hget]
      | file c =>
        simpa only [hget, Except.ok.injEq, true_and, ne_eq, Option.some.injEq, reduceCtorEq, not_false_eq_true]
          using eq_comm

theorem get?_save {t u : FileTree} {path : String} {content : List UInt8} (h : t.save path content = .ok u)
    (q : Place) : u.get? q = if q = placeOf path then some (.file content) else t.get? q := by
  obtain ⟨hp, hdir, rfl⟩ := save_ok_iff.mp h
  exact get?_set (placeOf_of_locate hp).2 hdir _ q

theorem load_of_get? {t : FileTree} {path : String} {content : List UInt8} (h : t.locate path = .ok (placeOf path))
    (hget : t.get? (placeOf path) = some (.file content)) : t.load path = .ok content := by
  rw [load, h]
  simp only [hget]

end StageRig.FileTree
