/-
  StageRig.Proofs.Relay.Naming — the names that a relay gives.

  A relay takes over no names of variables. It names each after its location and, from
  the second one at a location on, after how many come before it there. Members of structs
  keep the names that they have, and only those without one are named after their position.

  - `slot_names_unambiguous`: no two variables of a source have one name, whatever the
    order of their locations; and the name of a variable depends on those at its own
    location alone.
  - `member_names_distinct_iff`: the members of a struct have different names exactly when
    those that are given are different and none of them is one that a position makes.
  - `position_name_taken`: a struct whose given names are different and whose members
    clash.
-/

import StageRig.Proofs.Relay.Decoding

namespace StageRig

open Glsl

/-- The name of a member in the shader. An empty name is no name. -/
def TypeHead.givenName? (h : TypeHead) : Option String := h.memberName?.filter (· ≠ "")

namespace Relay

/-! ## Numbers in names -/

theorem repr_injective {n m : Nat} (h : n.repr = m.repr) : n = m :=
  repr_toList_injective (congrArg String.toList h)

/-- Up to a stop behind the name, which the name of a location alone needs to be told from a longer one. -/
theorem toList_slotName (location : UInt32) (n : Nat) : (slotName location n).toList ++ [';'] =
    "io_".toList ++ (location.toNat.repr.toList ++ if n = 0 then [';'] else '_' :: (n.repr.toList ++ [';'])) := by
  rw [slotName]
  split
  · simp [toString]
  · simp [toString, String.append_assoc]

/-- The name tells the location and the number. -/
theorem slotName_injective {location location' : UInt32} {n m : Nat} (h : slotName location n = slotName location' m) :
    location = location' ∧ n = m := by
  have hdigits : ∀ k : Nat, ∀ c ∈ k.repr.toList, c.isDigit = true := fun k c hc => isDigit_of_mem_repr hc
  have hlocation : location.toNat.repr.toList = location'.toNat.repr.toList → location = location' :=
    fun h => UInt32.toNat_inj.mp (repr_toList_injective h)
  have htext := congrArg (fun s => s.toList ++ [';']) h
  simp only [toList_slotName] at htext
  have htext := List.append_cancel_left htext
  by_cases hn : n = 0 <;> by_cases hm : m = 0
  · rw [if_pos hn, if_pos hm] at htext
    obtain ⟨hloc, -, -⟩ := append_inj_of_stop (hdigits _) (hdigits _) (by decide) (by decide) htext
    exact ⟨hlocation hloc, hn.trans hm.symm⟩
  · rw [if_pos hn, if_neg hm] at htext
    obtain ⟨-, hstop, -⟩ := append_inj_of_stop (hdigits _) (hdigits _) (by decide) (by decide) htext
    exact absurd hstop (by decide)
  · rw [if_neg hn, if_pos hm] at htext
    obtain ⟨-, hstop, -⟩ := append_inj_of_stop (hdigits _) (hdigits _) (by decide) (by decide) htext
    exact absurd hstop (by decide)
  · rw [if_neg hn, if_neg hm] at htext
    obtain ⟨hloc, -, hrest⟩ := append_inj_of_stop (hdigits _) (hdigits _) (by decide) (by decide) htext
    exact ⟨hlocation hloc, repr_toList_injective (List.append_cancel_right hrest)⟩

/-! ## Variables -/

/-- A variable counts for all that come after it at its location. -/
theorem earlierAt_lt {slots : List Slot} {i j : Nat} (hij : i < j) {slot : Slot} (hi : slots[i]? = some slot) :
    earlierAt slots i slot.location < earlierAt slots j slot.location := by
  have hnext : earlierAt slots (i + 1) slot.location = earlierAt slots i slot.location + 1 := by
    rw [earlierAt, List.take_add_one, hi, List.countP_append]
    simp [earlierAt]
  have hmono : earlierAt slots (i + 1) slot.location ≤ earlierAt slots j slot.location :=
    (List.take_sublist_take_left hij).countP_le
  omega

section

variable {r : Relay} {tested : Stage} {slots : List Slot} {decls : List SlotDecl}

theorem getElem?_name (h : slotDecls r tested slots = .ok decls) {k : Nat} {slot : Slot} (hk : slots[k]? = some slot) :
    ∃ d, decls[k]? = some d ∧ d.location = slot.location ∧
      d.name = slotName slot.location (earlierAt slots k slot.location) := by
  obtain ⟨d, hd, hdecl⟩ := getElem?_of_mapM_zipIdx h hk
  obtain ⟨type, -, rfl⟩ := slotDecl_ok_iff.mp hdecl
  exact ⟨_, hd, rfl, rfl⟩

theorem nodup_slotNames (h : slotDecls r tested slots = .ok decls) : (decls.map (·.name)).Nodup := by
  have hlength : slots.length = decls.length := by
    simpa using (mapM_eq_ok_iff.mp h).length_eq
  rw [List.nodup_iff_getElem?_ne_getElem?]
  intro i j hij hj hname
  rw [List.length_map, ← hlength] at hj
  obtain ⟨d, hd, -, hi⟩ := getElem?_name h (List.getElem?_eq_getElem (Nat.lt_trans hij hj))
  obtain ⟨d', hd', -, hj'⟩ := getElem?_name h (List.getElem?_eq_getElem hj)
  rw [List.getElem?_map, List.getElem?_map, hd, hd', Option.map_some, Option.map_some, Option.some.injEq, hi,
    hj'] at hname
  obtain ⟨hlocation, hnumber⟩ := slotName_injective hname
  have hlt := earlierAt_lt hij (List.getElem?_eq_getElem (Nat.lt_trans hij hj))
  rw [hnumber, hlocation] at hlt
  exact Nat.lt_irrefl _ hlt

end

-- The induction is on the variables still to be named; `before` are those that were.
/-- The names at one location are numbered through, whatever stands between them. -/
theorem names_at {r : Relay} {tested : Stage} (location : UInt32) {rest before : List Slot} {decls : List SlotDecl}
    (h : (rest.zipIdx before.length).mapM
      (fun x => slotDecl r tested (earlierAt (before ++ rest) x.2 x.1.location) x.1) = .ok decls) :
    (decls.filter (·.location = location)).map (·.name) =
      (List.range' (before.countP (·.location = location)) (rest.countP (·.location = location))).map
        (slotName location) := by
  induction rest generalizing before decls with
  | nil =>
    cases h
    rfl
  | cons slot rest ih =>
    simp only [List.zipIdx_cons, List.mapM_cons, bind_eq_ok_iff, pure_eq_ok, Except.ok.injEq] at h
    obtain ⟨d, hd, more, hmore, rfl⟩ := h
    obtain ⟨type, -, rfl⟩ := slotDecl_ok_iff.mp hd
    have hfirst : earlierAt (before ++ slot :: rest) before.length slot.location =
        before.countP (·.location = slot.location) := by
      rw [earlierAt, List.take_left']
      rfl
    have ih := @ih (before ++ [slot]) more (by simpa using hmore)
    rw [List.countP_append] at ih
    by_cases hloc : slot.location = location
    · subst hloc
      simp [ih, hfirst, List.range'_succ]
    · simp [hloc, ih]

theorem slot_names_unambiguous {r : Relay} {tested : Stage} {slots : List Slot} {text : String}
    (h : (r.source tested slots).result = .ok text) :
    ∃ o, r.outline tested slots = .ok o ∧ o.text r = text ∧ (o.slots.map (·.name)).Nodup ∧
      (∀ k slot, slots[k]? = some slot → ∃ d, o.slots[k]? = some d ∧ d.location = slot.location ∧
        d.name = if earlierAt slots k slot.location = 0 then s!"io_{slot.location.toNat}"
          else s!"io_{slot.location.toNat}_{earlierAt slots k slot.location}") ∧
      ∀ location, (o.slots.filter (·.location = location)).map (·.name) =
        (List.range (slots.countP (·.location = location))).map (slotName location) := by
  obtain ⟨o, ho, htext⟩ := source_ok_iff.mp h
  have hdecls := (outline_eq_ok_iff.mp ho).2
  refine ⟨o, ho, htext, nodup_slotNames hdecls, fun k slot hk => getElem?_name hdecls hk, fun location => ?_⟩
  rw [List.range_eq_range']
  exact @names_at r tested location slots [] o.slots hdecls

/-- Four variables at location 1 and two at location 12, mixed. -/
def crowd : List Slot :=
  [1, 12, 1, 1, 12, 1].map fun location => { location, format := .single .float32 }

theorem crowd_unambiguous : ∃ text, (vertex.source .fragment crowd).result = .ok text ∧
    ∃ o, vertex.outline .fragment crowd = .ok o ∧ o.text vertex = text ∧ (o.slots.map (·.name)).Nodup ∧
      o.slots.map (·.name) = ["io_1", "io_12", "io_1_1", "io_1_2", "io_12_1", "io_1_3"] := by
  have hok : ∃ o, vertex.outline .fragment crowd = .ok o ∧
      o.slots.map (·.name) = ["io_1", "io_12", "io_1_1", "io_1_2", "io_12_1", "io_1_3"] := ⟨_, rfl, by decide⟩
  obtain ⟨o, ho, hnames⟩ := hok
  have hsource : (vertex.source .fragment crowd).result = .ok (o.text vertex) := source_ok_iff.mpr ⟨o, ho, rfl⟩
  obtain ⟨o', ho', htext, hnodup, -, -⟩ := slot_names_unambiguous hsource
  obtain rfl : o = o' := Except.ok.inj (ho.symm.trans ho')
  exact ⟨_, hsource, o, ho, htext, hnodup, hnames⟩

/-! ## Members -/

/-- The names that the members of a description have in the shader. -/
def givenNames (t : TypeTree) : List String := t.members.filterMap (·.head.givenName?)

/-- The declaration lists the members of the description under its name. -/
def DeclaredFrom (d : StructDecl) (t : TypeTree) : Prop :=
  t.structName? = some d.name ∧ memberDecls t.members 0 = .ok d.members

theorem memberName_of_given {h : TypeHead} {name : String} (hname : h.givenName? = some name) (index : Nat) :
    memberName h index = name := by
  have hfilter : h.memberName?.filter (· ≠ "") = some name := hname
  rw [memberName, hfilter]

theorem memberName_of_none {h : TypeHead} (hname : h.givenName? = none) (index : Nat) :
    memberName h index = s!"member_{index}" := by
  have hfilter : h.memberName?.filter (· ≠ "") = none := hname
  rw [memberName, hfilter]

theorem positionName_injective {i j : Nat} (h : s!"member_{i}" = s!"member_{j}") : i = j :=
  repr_injective ((String.append_right_inj "member_").mp h)

/-- The names of members from a position on. -/
def memberNames (members : List TypeTree) (first : Nat) : List String :=
  (members.zipIdx first).map fun m => memberName m.1.head m.2

theorem names_of_memberDecls {members : List TypeTree} {first : Nat} {ms : List MemberDecl}
    (h : memberDecls members first = .ok ms) : ms.map (·.name) = memberNames members first := by
  rw [memberDecls, mapM_eq_ok_iff] at h
  rw [memberNames, ← List.forall₂_eq_eq_eq, List.forall₂_map_left_iff, List.forall₂_map_right_iff]
  refine h.flip.imp fun m x hdecl => ?_
  obtain ⟨type, -, rfl⟩ := map_eq_ok_iff.mp hdecl
  rfl

theorem memberNames_cons (m : TypeTree) (rest : List TypeTree) (first : Nat) :
    memberNames (m :: rest) first = memberName m.head first :: memberNames rest (first + 1) := rfl

/-- A name of a member is given, or made of the position of a member without one. -/
theorem mem_memberNames_iff {members : List TypeTree} {first : Nat} {name : String} :
    name ∈ memberNames members first ↔ name ∈ members.filterMap (·.head.givenName?) ∨
      ∃ m ∈ members.zipIdx first, m.1.head.givenName? = none ∧ name = s!"member_{m.2}" := by
  induction members generalizing first with
  | nil => simp [memberNames]
  | cons m rest ih =>
    rw [memberNames_cons, List.mem_cons, ih, List.zipIdx_cons]
    rcases hm : m.head.givenName? with _ | given
    · rw [memberName_of_none hm]
      simp [hm, or_left_comm]
    · rw [memberName_of_given hm]
      simp [hm, or_assoc]

/-- Names made of positions are different: only a given one can be in their way. -/
theorem nodup_memberNames_iff {members : List TypeTree} {first : Nat} :
    (memberNames members first).Nodup ↔ (members.filterMap (·.head.givenName?)).Nodup ∧
      ∀ m ∈ members.zipIdx first, m.1.head.givenName? = none →
        s!"member_{m.2}" ∉ members.filterMap (·.head.givenName?) := by
  induction members generalizing first with
  | nil => simp [memberNames]
  | cons m rest ih =>
    have hlater : ∀ x ∈ rest.zipIdx (first + 1), s!"member_{first}" ≠ s!"member_{x.2}" := by
      intro x hx heq
      have hle := List.le_snd_of_mem_zipIdx hx
      have hsame := positionName_injective heq
      omega
    rw [memberNames_cons, List.nodup_cons, mem_memberNames_iff, ih, List.zipIdx_cons, List.forall_mem_cons]
    rcases hm : m.head.givenName? with _ | given
    · rw [memberName_of_none hm, List.filterMap_cons_none (f := fun m : TypeTree => m.head.givenName?) hm]
      constructor
      · rintro ⟨hfirst, hnodup, hrest⟩
        exact ⟨hnodup, fun _ hmem => hfirst (Or.inl hmem), hrest⟩
      · rintro ⟨hnodup, hfirst, hrest⟩
        refine ⟨?_, hnodup, hrest⟩
        rintro (hmem | ⟨x, hx, -, heq⟩)
        · exact hfirst rfl hmem
        · exact hlater x hx heq
    · rw [memberName_of_given hm, List.filterMap_cons_some (f := fun m : TypeTree => m.head.givenName?) hm,
        List.nodup_cons]
      simp only [List.mem_cons, not_or]
      constructor
      · rintro ⟨⟨hgiven, hmade⟩, hnodup, hrest⟩
        refine ⟨⟨hgiven, hnodup⟩, fun hnone => absurd hnone (by simp), fun x hx hnone => ⟨?_, hrest x hx hnone⟩⟩
        exact fun heq => hmade ⟨x, hx, hnone, heq.symm⟩
      · rintro ⟨⟨hgiven, hnodup⟩, -, hrest⟩
        refine ⟨⟨hgiven, ?_⟩, hnodup, fun x hx hnone => (hrest x hx hnone).2⟩
        rintro ⟨x, hx, hnone, heq⟩
        exact (hrest x hx hnone).1 heq.symm

/-- What a source declares: the members of a struct have different names exactly when the given ones are
different, and none of these is the name that the position of a member without one makes. -/
theorem member_names_distinct_iff {r : Relay} {tested : Stage} {slots : List Slot} {text : String}
    (h : (r.source tested slots).result = .ok text) :
    ∃ o, r.outline tested slots = .ok o ∧ o.text r = text ∧ ∀ d ∈ o.structs,
      (∃ t, Reached (slotTypes slots) t ∧ DeclaredFrom d t) ∧
      ∀ t, DeclaredFrom d t → ((d.members.map (·.name)).Nodup ↔ (givenNames t).Nodup ∧
        ∀ (i : Nat) (m : TypeTree), t.members[i]? = some m → m.head.givenName? = none →
          s!"member_{i}" ∉ givenNames t) := by
  obtain ⟨o, ho, htext⟩ := source_ok_iff.mp h
  refine ⟨o, ho, htext, fun d hd => ⟨?_, fun t ht => ?_⟩⟩
  · obtain ⟨t, ht, hname, hmembers⟩ := exists_reached_of_mem ho hd
    exact ⟨t, ht, hname, hmembers⟩
  · rw [names_of_memberDecls ht.2, nodup_memberNames_iff]
    simp only [givenNames, Prod.forall, List.mk_mem_zipIdx_iff_getElem?]
    rw [forall_comm]

/-- A struct with names in front of and behind a member without one. -/
def gapped : TypeTree :=
  .node { typeName? := some "Gapped", shape := .struct }
    [ .node { memberName? := some "member_2", shape := .float } [],
      .node { memberName? := some "", shape := .float } [],
      .node { memberName? := some "tint", shape := .float } [] ]

theorem gapped_distinct : ∃ text,
    (vertex.source .fragment [{ location := 0, type? := some gapped }]).result = .ok text ∧
    ∃ o, vertex.outline .fragment [{ location := 0, type? := some gapped }] = .ok o ∧ o.text vertex = text ∧
      ∃ d ∈ o.structs, DeclaredFrom d gapped ∧ d.members.map (·.name) = ["member_2", "member_1", "tint"] ∧
        (d.members.map (·.name)).Nodup := by
  have hok : ∃ o, vertex.outline .fragment [{ location := 0, type? := some gapped }] = .ok o ∧
      o.structs = [⟨"Gapped", ["member_2", "member_1", "tint"].map fun name => ⟨"float", name, []⟩⟩] :=
    ⟨_, rfl, by decide⟩
  obtain ⟨o, ho, hstructs⟩ := hok
  have hsource : (vertex.source .fragment [{ location := 0, type? := some gapped }]).result = .ok (o.text vertex) :=
    source_ok_iff.mpr ⟨o, ho, rfl⟩
  obtain ⟨o', ho', htext, hmembers⟩ := member_names_distinct_iff hsource
  obtain rfl : o = o' := Except.ok.inj (ho.symm.trans ho')
  have hmem := hstructs ▸ List.mem_singleton_self _
  have hfrom : DeclaredFrom ⟨"Gapped", ["member_2", "member_1", "tint"].map fun name => ⟨"float", name, []⟩⟩ gapped :=
    ⟨rfl, by decide⟩
  refine ⟨_, hsource, o, ho, htext, _, hmem, hfrom, by decide, ((hmembers _ hmem).2 gapped hfrom).mpr ⟨by decide, ?_⟩⟩
  intro i m hm hnone
  rcases i with _ | _ | _ | i
  · cases hm
    exact absurd hnone (by decide)
  · show "member_1" ∉ givenNames gapped
    decide
  · cases hm
    exact absurd hnone (by decide)
  · cases hm

/-- A struct of which the second member has no name, and the first one the name that is made for the second. -/
def squatter : TypeTree :=
  .node { typeName? := some "Squatter", shape := .struct }
    [.node { memberName? := some "member_1", shape := .float } [], .node { shape := .float } []]

/-- The given names are different, for there is but one, and the declared names are not. -/
theorem position_name_taken :
    ∃ o, vertex.outline .fragment [{ location := 0, type? := some squatter }] = .ok o ∧
      (vertex.source .fragment [{ location := 0, type? := some squatter }]).result = .ok (o.text vertex) ∧
      ∃ d ∈ o.structs, DeclaredFrom d squatter ∧ (givenNames squatter).Nodup ∧
        d.members.map (·.name) = ["member_1", "member_1"] ∧ ¬ (d.members.map (·.name)).Nodup := by
  have hok : ∃ o, vertex.outline .fragment [{ location := 0, type? := some squatter }] = .ok o ∧
      o.structs = [⟨"Squatter", [⟨"float", "member_1", []⟩, ⟨"float", "member_1", []⟩]⟩] := ⟨_, rfl, by decide⟩
  obtain ⟨o, ho, hstructs⟩ := hok
  refine ⟨o, ho, source_ok_iff.mpr ⟨o, ho, rfl⟩, _, hstructs ▸ List.mem_singleton_self _, ⟨rfl, by decide⟩, by decide,
    rfl, by decide⟩

end Relay

end StageRig
