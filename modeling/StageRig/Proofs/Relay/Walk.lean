/-
  StageRig.Proofs.Relay.Walk — the structs that type descriptions need.

  A depth-first walk over type descriptions, in order, that remembers names. It enters a
  description that has a name not entered before, walks its members, and then lists it;
  a description that has no name, or one entered before, is passed over together with
  everything inside it.

  - `walked`: what a walk lists are named descriptions inside those walked, each under a
    name that is new; the names entered are the new ones and no others, and they include
    those of the descriptions walked.
  - `inOrder`: where no name is nested in itself, each struct stands behind those that
    its members name.
-/

import StageRig.Proofs.TypeTree
import StageRig.Reflection

namespace StageRig.Relay

/-! ## The walk -/

/-- A struct to be declared. -/
structure StructType where
  name : String
  members : List TypeTree

mutual

/-- The structs that a description adds to the names entered so far, nested ones first, and the names
entered after it. -/
def structsOf : TypeTree → List String → List StructType × List String
  | .node head members, entered =>
    match head.structName? with
    | none => ([], entered)
    | some name =>
      if name ∈ entered then ([], entered)
      else
        let (inner, entered) := structsOfAll members (name :: entered)
        (inner ++ [⟨name, members⟩], entered)

/-- The structs that descriptions add one after another. -/
def structsOfAll : List TypeTree → List String → List StructType × List String
  | [], entered => ([], entered)
  | t :: rest, entered =>
    let (structs, entered) := structsOf t entered
    let (more, entered) := structsOfAll rest entered
    (structs ++ more, entered)

end

/-- The structs of a list of variables. -/
def structTypes (slots : List Slot) : List StructType := (structsOfAll (slots.filterMap (·.type?)) []).1

/-! ## Steps -/

theorem structsOf_unnamed {t : TypeTree} (h : t.structName? = none) (entered : List String) :
    structsOf t entered = ([], entered) := by
  obtain ⟨head, members⟩ := t
  simp only [structsOf, show head.structName? = none from h]

theorem structsOf_entered {t : TypeTree} {name : String} (h : t.structName? = some name) {entered : List String}
    (hin : name ∈ entered) : structsOf t entered = ([], entered) := by
  obtain ⟨head, members⟩ := t
  simp only [structsOf, show head.structName? = some name from h, hin, if_true]

theorem structsOf_fresh {t : TypeTree} {name : String} (h : t.structName? = some name) {entered : List String}
    (hin : name ∉ entered) :
    structsOf t entered =
      ((structsOfAll t.members (name :: entered)).1 ++ [⟨name, t.members⟩],
        (structsOfAll t.members (name :: entered)).2) := by
  obtain ⟨head, members⟩ := t
  simp only [structsOf, show head.structName? = some name from h, hin, if_false]
  rfl

theorem structsOfAll_append (ts us : List TypeTree) (entered : List String) :
    structsOfAll (ts ++ us) entered =
      ((structsOfAll ts entered).1 ++ (structsOfAll us (structsOfAll ts entered).2).1,
        (structsOfAll us (structsOfAll ts entered).2).2) := by
  induction ts generalizing entered with
  | nil => simp [structsOfAll]
  | cons t ts ih => simp [structsOfAll, ih]

/-! ## What a walk lists -/

/-- What a walk from the descriptions `roots` with the names `entered` comes to: the structs listed and the
names entered after it. -/
structure Walked (roots : List TypeTree) (entered : List String) (w : List StructType × List String) : Prop where
  names : ∀ n, n ∈ w.2 ↔ n ∈ w.1.map (·.name) ∨ n ∈ entered
  nodup : (w.1.map (·.name)).Nodup
  fresh : ∀ s ∈ w.1, s.name ∉ entered
  origin : ∀ s ∈ w.1, ∃ t ∈ roots, ∃ d : TypeTree, d.Within t ∧ d.structName? = some s.name ∧ d.members = s.members
  covers : ∀ t ∈ roots, ∀ n, t.structName? = some n → n ∈ w.2

theorem Walked.pass {t : TypeTree} {entered : List String} (h : ∀ n, t.structName? = some n → n ∈ entered) :
    Walked [t] entered ([], entered) where
  names n := by simp
  nodup := by simp
  fresh s hs := by cases hs
  origin s hs := by cases hs
  covers u hu := by rw [List.mem_singleton.mp hu]; exact h

theorem Walked.append {ts us : List TypeTree} {entered : List String} {v w : List StructType × List String}
    (hv : Walked ts entered v) (hw : Walked us v.2 w) : Walked (ts ++ us) entered (v.1 ++ w.1, w.2) where
  names n := by
    rw [hw.names, hv.names, List.map_append, List.mem_append]
    exact or_left_comm.trans or_assoc.symm
  nodup := by
    rw [List.map_append, List.nodup_append]
    refine ⟨hv.nodup, hw.nodup, ?_⟩
    intro n hn n' hn' heq
    subst heq
    obtain ⟨s, hs, rfl⟩ := List.mem_map.mp hn'
    exact hw.fresh s hs ((hv.names _).mpr (Or.inl hn))
  fresh s hs := by
    rcases List.mem_append.mp hs with hs | hs
    · exact hv.fresh s hs
    · exact fun hin => hw.fresh s hs ((hv.names _).mpr (Or.inr hin))
  origin s hs := by
    rcases List.mem_append.mp hs with hs | hs
    · obtain ⟨t, ht, hd⟩ := hv.origin s hs
      exact ⟨t, List.mem_append_left _ ht, hd⟩
    · obtain ⟨t, ht, hd⟩ := hw.origin s hs
      exact ⟨t, List.mem_append_right _ ht, hd⟩
  covers t ht n hn := by
    rcases List.mem_append.mp ht with ht | ht
    · exact (hw.names n).mpr (Or.inr (hv.covers t ht n hn))
    · exact hw.covers t ht n hn

theorem Walked.enter {t : TypeTree} {name : String} {entered : List String} {w : List StructType × List String}
    (hname : t.structName? = some name) (hin : name ∉ entered) (hw : Walked t.members (name :: entered) w) :
    Walked [t] entered (w.1 ++ [⟨name, t.members⟩], w.2) where
  names n := by
    rw [hw.names, List.map_append, List.mem_append, List.mem_cons]
    simp only [List.map_cons, List.map_nil, List.mem_singleton]
    exact or_assoc.symm
  nodup := by
    rw [List.map_append, List.nodup_append]
    refine ⟨hw.nodup, by simp, ?_⟩
    intro n hn n' hn' heq
    subst heq
    obtain ⟨s, hs, rfl⟩ := List.mem_map.mp hn
    have : s.name = name := by simpa using hn'
    exact hw.fresh s hs (by simp [this])
  fresh s hs := by
    rcases List.mem_append.mp hs with hs | hs
    · exact fun h => hw.fresh s hs (List.mem_cons_of_mem _ h)
    · rw [List.mem_singleton.mp hs]
      exact hin
  origin s hs := by
    refine ⟨t, List.mem_singleton_self t, ?_⟩
    rcases List.mem_append.mp hs with hs | hs
    · obtain ⟨m, hm, d, hd, hs⟩ := hw.origin s hs
      exact ⟨d, hd.trans (TypeTree.within_of_mem hm), hs⟩
    · rw [List.mem_singleton.mp hs]
      exact ⟨t, Or.inl rfl, hname, rfl⟩
  covers u hu n hn := by
    rw [List.mem_singleton.mp hu, hname] at hn
    cases hn
    exact (hw.names name).mpr (Or.inr List.mem_cons_self)

mutual

theorem walked_one : ∀ (t : TypeTree) (entered : List String), Walked [t] entered (structsOf t entered)
  | .node head members, entered => by
    rcases hname : (TypeTree.node head members).structName? with _ | name
    · rw [structsOf_unnamed hname]
      exact .pass fun n hn => by rw [hname] at hn; cases hn
    · by_cases hin : name ∈ entered
      · rw [structsOf_entered hname hin]
        exact .pass fun n hn => by rw [hname] at hn; cases hn; exact hin
      · rw [structsOf_fresh hname hin]
        exact .enter hname hin (walked members (name :: entered))

theorem walked : ∀ (ts : List TypeTree) (entered : List String), Walked ts entered (structsOfAll ts entered)
  | [], entered =>
    { names := fun n => by simp [structsOfAll]
      nodup := by simp [structsOfAll]
      fresh := fun s hs => by cases hs
      origin := fun s hs => by cases hs
      covers := fun t ht => by cases ht }
  | t :: rest, entered => (walked_one t entered).append (walked rest (structsOf t entered).2)

end

/-! ## Nested structs come first -/

/-- Each struct's members name only structs that stand before it or are in `known`. -/
def InOrder : List String → List StructType → Prop
  | _, [] => True
  | known, s :: rest =>
    (∀ m ∈ s.members, ∀ n, TypeTree.structName? m = some n → n ∈ known) ∧ InOrder (s.name :: known) rest

theorem InOrder.mono {known known' : List String} {l : List StructType} (h : InOrder known l)
    (hsub : ∀ s ∈ l, ∀ m ∈ s.members, ∀ n, TypeTree.structName? m = some n → n ∈ known → n ∈ known') :
    InOrder known' l := by
  induction l generalizing known known' with
  | nil => trivial
  | cons s l ih =>
    refine ⟨fun m hm n hn => hsub s (by simp) m hm n hn (h.1 m hm n hn), ih h.2 ?_⟩
    intro u hu m hm n hn hin
    rcases List.mem_cons.mp hin with rfl | hin
    · exact List.mem_cons_self
    · exact List.mem_cons_of_mem _ (hsub u (List.mem_cons_of_mem _ hu) m hm n hn hin)

theorem InOrder.append {known known' : List String} {a b : List StructType} (ha : InOrder known a)
    (hb : InOrder known' b) (hk : ∀ n ∈ known', n ∈ a.map (·.name) ∨ n ∈ known) : InOrder known (a ++ b) := by
  induction a generalizing known with
  | nil => exact hb.mono fun _ _ _ _ n _ hin => by simpa using hk n hin
  | cons s a ih =>
    refine ⟨ha.1, ih ha.2 fun n hn => ?_⟩
    rcases hk n hn with h | h
    · rcases List.mem_cons.mp h with rfl | h
      · exact Or.inr List.mem_cons_self
      · exact Or.inl h
    · exact Or.inr (List.mem_cons_of_mem _ h)

/-- What stands where, seen from one struct. -/
theorem InOrder.before {known : List String} {front back : List StructType} {s : StructType}
    (h : InOrder known (front ++ s :: back)) {m : TypeTree} (hm : m ∈ s.members) {n : String}
    (hn : m.structName? = some n) : n ∈ front.map (·.name) ∨ n ∈ known := by
  induction front generalizing known with
  | nil => exact Or.inr (h.1 m hm n hn)
  | cons u front ih =>
    rcases ih h.2 with hin | hin
    · exact Or.inl (List.mem_cons_of_mem _ hin)
    · rcases List.mem_cons.mp hin with rfl | hin
      · exact Or.inl List.mem_cons_self
      · exact Or.inr hin

-- A name that was entered and not listed yet is that of a struct being walked. Such a
-- struct contains what is walked now, which by assumption does not name it.
mutual

theorem inOrder_one : ∀ (t : TypeTree) (entered : List String), t.NoSelfNesting →
    InOrder entered (structsOf t entered).1
  | .node head members, entered, hnest => by
    rcases hname : (TypeTree.node head members).structName? with _ | name
    · rw [structsOf_unnamed hname]
      trivial
    · by_cases hin : name ∈ entered
      · rw [structsOf_entered hname hin]
        trivial
      · obtain ⟨hself, hmembers⟩ := TypeTree.noSelfNesting_node.mp hnest
        have hw := walked members (name :: entered)
        have ih := inOrder members (name :: entered) hmembers
        rw [structsOf_fresh hname hin]
        have hinner : InOrder entered (structsOfAll members (name :: entered)).1 := by
          refine ih.mono fun s hs m hm n hn hk => ?_
          obtain ⟨u, hu, d, hd, -, hdm⟩ := hw.origin s hs
          have hbelow : m.Below (.node head members) :=
            (TypeTree.below_of_mem (hdm ▸ hm)).of_within (hd.trans (TypeTree.within_of_mem hu))
          rcases List.mem_cons.mp hk with rfl | hk
          · exact absurd hn (hself n hname m hbelow)
          · exact hk
        have hlast : InOrder ((structsOfAll members (name :: entered)).1.map (·.name) ++ entered) [⟨name, members⟩] := by
          refine ⟨fun m hm n hn => List.mem_append.mpr ?_, trivial⟩
          rcases (hw.names n).mp (hw.covers m hm n hn) with h | h
          · exact Or.inl h
          · rcases List.mem_cons.mp h with rfl | h
            · exact absurd hn (hself n hname m (TypeTree.below_of_mem hm))
            · exact Or.inr h
        exact hinner.append hlast fun n hn => List.mem_append.mp hn

theorem inOrder : ∀ (ts : List TypeTree) (entered : List String), (∀ t ∈ ts, t.NoSelfNesting) →
    InOrder entered (structsOfAll ts entered).1
  | [], _, _ => trivial
  | t :: rest, entered, hnest => by
    have hone := inOrder_one t entered (hnest t List.mem_cons_self)
    have hrest := inOrder rest (structsOf t entered).2 fun u hu => hnest u (List.mem_cons_of_mem _ hu)
    exact hone.append hrest fun n hn => ((walked_one t entered).names n).mp hn

end

end StageRig.Relay
