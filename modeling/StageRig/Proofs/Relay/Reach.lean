/-
  StageRig.Proofs.Relay.Reach — which structs the walk lists.

  A description is reached when a chain of named descriptions leads to it, each a member of
  the one before. The walk lists descriptions that are reached, but not all of them: it
  passes over every one whose name was entered before. What it lists is closed, though: a
  struct that a member of a listed struct names has been entered too (`explored`).

  Where descriptions of one name have the same members (`Agree`), nothing is lost by that,
  and the walk lists exactly the structs that are reached (`mem_structs_iff`).
-/

import StageRig.Proofs.Relay.Outline

namespace StageRig.Relay

/-! ## Descriptions that are reached -/

/-- The description is a named one, and so is every one on the way to it from the roots. -/
inductive Reached (roots : List TypeTree) : TypeTree → Prop
  | root {t : TypeTree} {n : String} : t ∈ roots → t.structName? = some n → Reached roots t
  | member {u t : TypeTree} {n : String} : Reached roots u → t ∈ u.members → t.structName? = some n → Reached roots t

/-- Descriptions of one name that are reached have the same members. -/
def Agree (roots : List TypeTree) : Prop :=
  ∀ t u n, Reached roots t → Reached roots u → t.structName? = some n → u.structName? = some n → t.members = u.members

theorem Reached.mono {roots roots' : List TypeTree} (hsub : ∀ t ∈ roots, t ∈ roots') {t : TypeTree}
    (h : Reached roots t) : Reached roots' t := by
  induction h with
  | root ht hn => exact .root (hsub _ ht) hn
  | member _ ht hn ih => exact .member ih ht hn

/-- What is reached from the members of a named description is reached from it. -/
theorem Reached.through {u : TypeTree} {n : String} (hu : u.structName? = some n) {t : TypeTree}
    (h : Reached u.members t) : Reached [u] t := by
  induction h with
  | root ht hn => exact .member (.root (List.mem_singleton_self u) hu) ht hn
  | member _ ht hn ih => exact .member ih ht hn

/-- The descriptions of the variables. -/
def slotTypes (slots : List Slot) : List TypeTree := slots.filterMap (·.type?)

/-- The description is that of a variable or lies inside one. -/
def Occurs (slots : List Slot) (t : TypeTree) : Prop := ∃ root ∈ slotTypes slots, t.Within root

theorem Reached.occurs {slots : List Slot} {t : TypeTree} (h : Reached (slotTypes slots) t) : Occurs slots t := by
  induction h with
  | root ht _ => exact ⟨_, ht, Or.inl rfl⟩
  | member _ ht _ ih =>
    obtain ⟨root, hroot, hwithin⟩ := ih
    exact ⟨root, hroot, (TypeTree.within_of_mem ht).trans hwithin⟩

/-! ## What the walk lists is reached, and is closed -/

/-- What a walk from the descriptions `roots` has seen of them. -/
structure Explored (roots : List TypeTree) (w : List StructType × List String) : Prop where
  reached : ∀ s ∈ w.1, ∃ t, Reached roots t ∧ t.structName? = some s.name ∧ t.members = s.members
  closed : ∀ s ∈ w.1, ∀ m ∈ s.members, ∀ n, TypeTree.structName? m = some n → n ∈ w.2

theorem Explored.nothing (roots : List TypeTree) (entered : List String) : Explored roots ([], entered) where
  reached s hs := by cases hs
  closed s hs := by cases hs

theorem Explored.append {ts us : List TypeTree} {v w : List StructType × List String} (hv : Explored ts v)
    (hw : Explored us w) (hentered : ∀ n ∈ v.2, n ∈ w.2) : Explored (ts ++ us) (v.1 ++ w.1, w.2) where
  reached s hs := by
    rcases List.mem_append.mp hs with hs | hs
    · obtain ⟨t, ht, hname⟩ := hv.reached s hs
      exact ⟨t, ht.mono fun _ => List.mem_append_left us, hname⟩
    · obtain ⟨t, ht, hname⟩ := hw.reached s hs
      exact ⟨t, ht.mono fun _ => List.mem_append_right ts, hname⟩
  closed s hs m hm n hn := by
    rcases List.mem_append.mp hs with hs | hs
    · exact hentered n (hv.closed s hs m hm n hn)
    · exact hw.closed s hs m hm n hn

theorem Explored.enter {t : TypeTree} {name : String} (hname : t.structName? = some name)
    {w : List StructType × List String} (hw : Explored t.members w)
    (hcovers : ∀ m ∈ t.members, ∀ n, TypeTree.structName? m = some n → n ∈ w.2) :
    Explored [t] (w.1 ++ [⟨name, t.members⟩], w.2) where
  reached s hs := by
    rcases List.mem_append.mp hs with hs | hs
    · obtain ⟨u, hu, huname⟩ := hw.reached s hs
      exact ⟨u, hu.through hname, huname⟩
    · rw [List.mem_singleton.mp hs]
      exact ⟨t, .root (List.mem_singleton_self t) hname, hname, rfl⟩
  closed s hs m hm n hn := by
    rcases List.mem_append.mp hs with hs | hs
    · exact hw.closed s hs m hm n hn
    · rw [List.mem_singleton.mp hs] at hm
      exact hcovers m hm n hn

mutual

theorem explored_one : ∀ (t : TypeTree) (entered : List String), Explored [t] (structsOf t entered)
  | .node head members, entered => by
    rcases hname : (TypeTree.node head members).structName? with _ | name
    · rw [structsOf_unnamed hname]
      exact .nothing _ entered
    · by_cases hin : name ∈ entered
      · rw [structsOf_entered hname hin]
        exact .nothing _ entered
      · rw [structsOf_fresh hname hin]
        exact .enter hname (explored members (name :: entered)) (walked members (name :: entered)).covers

theorem explored : ∀ (ts : List TypeTree) (entered : List String), Explored ts (structsOfAll ts entered)
  | [], entered => .nothing [] entered
  | t :: rest, entered => by
    have hrest := walked rest (structsOf t entered).2
    exact (explored_one t entered).append (explored rest (structsOf t entered).2)
      fun n hn => (hrest.names n).mpr (Or.inr hn)

end

/-! ## Where descriptions agree -/

theorem name_mem_structs {ts : List TypeTree} {n : String} (h : n ∈ (structsOfAll ts []).2) :
    ∃ s ∈ (structsOfAll ts []).1, s.name = n := by
  rcases ((walked ts []).names n).mp h with h | h
  · exact List.mem_map.mp h
  · cases h

-- The induction is along the chain of names. The struct that was listed under the name of
-- one link may come from another description: they agree, so the next link is a member of both.
theorem exists_struct_of_reached {ts : List TypeTree} (h : Agree ts) {t : TypeTree} (ht : Reached ts t) :
    ∀ n, t.structName? = some n → ∃ s ∈ (structsOfAll ts []).1, s.name = n ∧ s.members = t.members := by
  have hsame : ∀ {t : TypeTree} {n : String}, Reached ts t → t.structName? = some n →
      n ∈ (structsOfAll ts []).2 → ∃ s ∈ (structsOfAll ts []).1, s.name = n ∧ s.members = t.members := by
    intro t n ht hn hin
    obtain ⟨s, hs, rfl⟩ := name_mem_structs hin
    obtain ⟨u, hu, hname, hmembers⟩ := (explored ts []).reached s hs
    exact ⟨s, hs, rfl, hmembers.symm.trans (h u t s.name hu ht hname hn)⟩
  induction ht with
  | root ht hn =>
    intro n hn'
    exact hsame (.root ht hn) hn' ((walked ts []).covers _ ht n hn')
  | @member u t name hu ht hname ih =>
    intro n hn
    obtain ⟨k, hk⟩ : ∃ k, u.structName? = some k := by cases hu <;> exact ⟨_, ‹_›⟩
    obtain ⟨s, hs, -, hmembers⟩ := ih k hk
    exact hsame (.member hu ht hname) hn ((explored ts []).closed s hs t (hmembers ▸ ht) n hn)

/-- Where descriptions agree, the walk lists the structs that are reached and no others. -/
theorem mem_structs_iff {ts : List TypeTree} (h : Agree ts) {s : StructType} :
    s ∈ (structsOfAll ts []).1 ↔ ∃ t, Reached ts t ∧ t.structName? = some s.name ∧ t.members = s.members := by
  constructor
  · exact (explored ts []).reached s
  · intro hs
    obtain ⟨t, ht, hname, hmembers⟩ := hs
    obtain ⟨u, hu, huname, humembers⟩ := exists_struct_of_reached h ht s.name hname
    have : u = s := by
      cases u
      cases s
      simp_all
    exact this ▸ hu

/-! ## What is declared -/

/-- A struct declaration is that of a description which is reached. -/
theorem exists_reached_of_mem {r : Relay} {tested : Stage} {slots : List Slot} {o : Outline}
    (ho : r.outline tested slots = .ok o) {d : Glsl.StructDecl} (hd : d ∈ o.structs) :
    ∃ t, Reached (slotTypes slots) t ∧ t.structName? = some d.name ∧ memberDecls t.members 0 = .ok d.members := by
  obtain ⟨s, hs, hdecl⟩ := (mem_iff_of_mapM_eq_ok (outline_eq_ok_iff.mp ho).1).mp hd
  obtain ⟨ms, hms, rfl⟩ := decl_eq_ok_iff.mp hdecl
  obtain ⟨t, ht, hname, hmembers⟩ := (explored _ []).reached s hs
  exact ⟨t, ht, hname, hmembers ▸ hms⟩

/-- The member behind a member declaration. -/
theorem exists_member_of_mem {r : Relay} {tested : Stage} {slots : List Slot} {o : Outline}
    (ho : r.outline tested slots = .ok o) {d : Glsl.StructDecl} (hd : d ∈ o.structs)
    {m : Glsl.MemberDecl} (hm : m ∈ d.members) : ∃ t, Occurs slots t ∧ ∃ index, memberDecl t.head index = .ok m := by
  obtain ⟨t, ht, -, hms⟩ := exists_reached_of_mem ho hd
  rw [memberDecls] at hms
  obtain ⟨x, hx, hdecl⟩ := (mem_iff_of_mapM_eq_ok hms).mp hm
  obtain ⟨root, hroot, hwithin⟩ := ht.occurs
  have hmem : x.1 ∈ t.members := List.fst_mem_of_mem_zipIdx hx
  exact ⟨x.1, ⟨root, hroot, (TypeTree.within_of_mem hmem).trans hwithin⟩, x.2, hdecl⟩

end StageRig.Relay
