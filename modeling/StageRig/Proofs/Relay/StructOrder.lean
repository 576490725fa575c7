/-
  StageRig.Proofs.Relay.StructOrder — structs are declared once, and before they are named.

  A struct's name is entered when the walk comes to it and its declaration is listed when
  the walk leaves it, so a name that was entered need not have been declared yet. Where
  no name is nested in itself, what is being walked cannot name a struct that is still
  open, and whatever it names stands further up (`inOrder`).

  The lines of a declaration are found by the one that opens it. There is one for each
  struct, so where a declaration's lines stand among those of a source is where the struct
  stands in the walk (`structs_above`).

  - `structs_declared_first`: in the source of a relay each struct that a variable or a
    member of a declared struct names is declared exactly once, above the lines that name
    it, and no struct stands below the stage's layout or a variable.
-/

import Mathlib.Data.List.Nodup
import StageRig.Proofs.Glsl.Spelling
import StageRig.Proofs.Relay.Outline

namespace StageRig.Relay

open Glsl

/-! ## Declarations and uses -/

/-- The lines name the struct `n`: they are that of a variable of this type, or the declaration of a struct that
has a member of this type. -/
inductive Uses (r : Relay) (tested : Stage) (slots : List Slot) (n : String) : List String → Prop
  | slot {k : Nat} {s : Slot} {t : TypeTree} : slots[k]? = some s → s.type? = some t → t.structName? = some n →
      Uses r tested slots n [slotLine r tested slots k s n]
  | member {s : StructType} {m : TypeTree} {d : StructDecl} : s ∈ structTypes slots → s.decl = .ok d →
      m ∈ s.members → m.structName? = some n → Uses r tested slots n (structLines d)

/-- In the lines of a source every struct that is named is opened in one place, and all lines of its declaration
are above those that name it. All structs are above the stage's layout and the variables. -/
structure DeclaredFirst (r : Relay) (tested : Stage) (slots : List Slot) (lines : List String) : Prop where
  /-- Structs of the walk are declared, and no others. -/
  opened : ∀ n, structOpening n ∈ lines ↔ ∃ s ∈ structTypes slots, s.name = n
  /-- The line of a member that is a struct has the name of that struct. -/
  named : ∀ s ∈ structTypes slots, ∀ q m n, s.members[q]? = some m → TypeTree.structName? m = some n →
    ∃ d, s.decl = .ok d ∧ (structLines d)[q + 1]? =
      some ("    " ++ n ++ " " ++ memberName m.head q ++ brackets m.head.dims ++ ";")
  present : ∀ n p, Uses r tested slots n p → p <:+: lines
  once : ∀ n p, Uses r tested slots n p → lines.count (structOpening n) = 1
  before : ∀ n p, Uses r tested slots n p → ∀ front back, lines = front ++ p ++ back →
    ∃ d, d.name = n ∧ (∃ s ∈ structTypes slots, s.decl = .ok d) ∧ structLines d <:+: front
  layout : ∀ line, r.stageLayout? = some line → ∀ front back, lines = front ++ line :: back →
    ∀ n, structOpening n ∉ back
  slots : ∀ k s type, slots[k]? = some s → slotType s = .ok type →
    ∀ front back, lines = front ++ slotLine r tested slots k s type :: back → ∀ n, structOpening n ∉ back

/-! ## Names -/

theorem decl_name {s : StructType} {d : StructDecl} (h : s.decl = .ok d) : d.name = s.name := by
  obtain ⟨ms, -, rfl⟩ := decl_eq_ok_iff.mp h
  rfl

theorem map_name_of_decls {l : List StructType} {decls : List StructDecl}
    (h : List.Forall₂ (fun s d => s.decl = .ok d) l decls) : decls.map (·.name) = l.map (·.name) := by
  induction h with
  | nil => rfl
  | cons hd _ ih => simp [decl_name hd, ih]

/-- Whatever a variable names is among the structs of the walk. -/
theorem slot_name_mem {slots : List Slot} {slot : Slot} (hslot : slot ∈ slots) {t : TypeTree}
    (ht : slot.type? = some t) {n : String} (hn : t.structName? = some n) : n ∈ (structTypes slots).map (·.name) := by
  have hw := walked (slots.filterMap (·.type?)) []
  have hin := hw.covers t (List.mem_filterMap.mpr ⟨slot, hslot, ht⟩) n hn
  rcases (hw.names n).mp hin with h | h
  · exact h
  · cases h

theorem structTypes_inOrder {slots : List Slot}
    (hnest : ∀ slot ∈ slots, ∀ t, slot.type? = some t → t.NoSelfNesting) : InOrder [] (structTypes slots) := by
  refine inOrder _ _ fun t ht => ?_
  obtain ⟨slot, hslot, ht⟩ := List.mem_filterMap.mp ht
  exact hnest slot hslot t ht

/-- Where a struct's declaration stands among the declarations, the struct stands among those of the walk, and
what its members name is declared further up. -/
theorem member_name_above {slots : List Slot}
    (hnest : ∀ slot ∈ slots, ∀ t, slot.type? = some t → t.NoSelfNesting) {front back : List StructDecl} {d : StructDecl}
    (h : List.Forall₂ (fun s d => s.decl = .ok d) (structTypes slots) (front ++ d :: back)) {s : StructType}
    (hs : s ∈ structTypes slots) (hd : s.decl = .ok d) {m : TypeTree} (hm : m ∈ s.members) {n : String}
    (hn : m.structName? = some n) : n ∈ front.map (·.name) := by
  have habove := List.forall₂_take_append _ _ _ h
  have hbelow := List.forall₂_drop_append _ _ _ h
  obtain ⟨s', rest, hd', -, hcut⟩ := List.forall₂_cons_right_iff.mp hbelow
  have hlist : (structTypes slots).take front.length ++ s' :: rest = structTypes slots := by
    rw [← hcut, List.take_append_drop]
  have hnames : ((structTypes slots).map (·.name)).Nodup := (walked _ []).nodup
  have hmem : s' ∈ structTypes slots := hlist ▸ List.mem_append_right _ List.mem_cons_self
  have hsame : s = s' := by
    apply List.inj_on_of_nodup_map hnames hs hmem
    rw [← decl_name hd, decl_name hd']
  have horder := structTypes_inOrder hnest
  rw [← hlist] at horder
  rcases horder.before (hsame ▸ hm) hn with hin | hin
  · rwa [map_name_of_decls habove]
  · cases hin

/-! ## Structs among the lines -/

/-- The lines behind the structs. -/
def Outline.lower (r : Relay) (o : Outline) : List String :=
  r.stageLines ++ o.slots.map interfaceLine ++ (if o.slots = [] then [] else [""]) ++ r.mainLines

theorem lines_eq (r : Relay) (o : Outline) :
    o.lines r = [version, ""] ++ o.structs.flatMap structLines ++ o.lower r := by
  simp only [Outline.lines, Outline.lower, List.append_assoc]

theorem initial_of_mem_lower {r : Relay} {o : Outline} {s : String} (h : s ∈ o.lower r) : initial s ≠ some 's' := by
  simp only [Outline.lower, List.mem_append, List.mem_map] at h
  rcases h with ((h | ⟨d, -, rfl⟩) | h) | h
  · exact initial_of_mem_stageLines h
  · rw [initial_interfaceLine]
    decide
  · split at h
    · cases h
    · rw [List.mem_singleton.mp h]
      decide
  · exact (initial_of_mem_mainLines h).1

theorem initial_of_mem_upper {o : Outline} {s : String} (h : s ∈ [version, ""] ++ o.structs.flatMap structLines) :
    initial s ≠ some 'l' := by
  rcases List.mem_append.mp h with h | h
  · exact (show ∀ s ∈ [version, ""], initial s ≠ some 'l' by decide) s h
  · obtain ⟨d, -, h⟩ := List.mem_flatMap.mp h
    exact initial_of_mem_structLines h

/-- A struct is opened as often as it is declared. -/
theorem count_opening_lines (r : Relay) (o : Outline) (n : String) :
    (o.lines r).count (structOpening n) = (o.structs.map (·.name)).count n := by
  have hhead : [version, ""].count (structOpening n) = 0 :=
    List.count_eq_zero.mpr (not_opening (by decide) n)
  have hlower : (o.lower r).count (structOpening n) = 0 :=
    List.count_eq_zero.mpr (not_opening (fun _ hs => initial_of_mem_lower hs) n)
  rw [lines_eq, List.count_append, List.count_append, hhead, hlower, count_opening_structs, Nat.zero_add, Nat.add_zero]

theorem opening_mem_lines_iff {r : Relay} {o : Outline} {n : String} :
    structOpening n ∈ o.lines r ↔ n ∈ o.structs.map (·.name) := by
  rw [← List.count_pos_iff, count_opening_lines, List.count_pos_iff]

theorem opened_once {r : Relay} {o : Outline} (hnames : (o.structs.map (·.name)).Nodup) {d : StructDecl}
    (hd : d ∈ o.structs) : (o.lines r).count (structOpening d.name) = 1 := by
  rw [count_opening_lines]
  exact List.count_eq_one_of_mem hnames (List.mem_map_of_mem hd)

theorem structLines_among {d : StructDecl} {ds : List StructDecl} (h : d ∈ ds) :
    structLines d <:+: ds.flatMap structLines := by
  obtain ⟨above, below, rfl⟩ := List.append_of_mem h
  rw [List.flatMap_append, List.flatMap_cons, ← List.append_assoc]
  exact List.infix_append _ _ _

/-- The lines of a declaration stand together. -/
theorem structLines_among_lines {r : Relay} {o : Outline} {d : StructDecl} (h : d ∈ o.structs) :
    structLines d <:+: o.lines r := by
  rw [lines_eq, List.append_assoc]
  exact (structLines_among h).trans ⟨[version, ""], o.lower r, by rw [List.append_assoc]⟩

/-- A line that begins like the stage's layout and the variables has all structs above it. -/
theorem structs_above_line {r : Relay} {o : Outline} {front back : List String} {line : String}
    (hline : initial line = some 'l') (h : o.lines r = front ++ line :: back) :
    o.structs.flatMap structLines <:+: front ∧ ∀ n, structOpening n ∉ back := by
  rw [lines_eq] at h
  rcases List.append_eq_append_iff.mp h with ⟨middle, hfront, hlower⟩ | ⟨middle, hupper, hlower⟩
  · refine ⟨?_, fun n hn => ?_⟩
    · rw [hfront]
      exact List.infix_append _ _ _
    · have hmem : structOpening n ∈ o.lower r := by
        rw [hlower]
        exact List.mem_append_right _ (List.mem_cons_of_mem _ hn)
      exact initial_of_mem_lower hmem (initial_structOpening n)
  · cases middle with
    | nil =>
      rw [List.append_nil] at hupper
      rw [List.nil_append] at hlower
      refine ⟨hupper ▸ (List.suffix_append _ _).isInfix, fun n hn => ?_⟩
      have hmem : structOpening n ∈ o.lower r := hlower ▸ List.mem_cons_of_mem _ hn
      exact initial_of_mem_lower hmem (initial_structOpening n)
    | cons first middle =>
      obtain ⟨rfl, -⟩ := List.cons.inj hlower
      have hmem : line ∈ [version, ""] ++ o.structs.flatMap structLines :=
        hupper ▸ List.mem_append_right _ List.mem_cons_self
      exact absurd hline (initial_of_mem_upper hmem)

/-- Where the lines of a declaration stand, the structs above it are those above it in the outline. -/
theorem structs_above {r : Relay} {o : Outline} (hnames : (o.structs.map (·.name)).Nodup) {d : StructDecl}
    (hd : d ∈ o.structs) {front back : List String} (h : o.lines r = front ++ structLines d ++ back) :
    ∃ above below, o.structs = above ++ d :: below ∧ above.flatMap structLines <:+: front := by
  obtain ⟨above, below, hsplit⟩ := List.append_of_mem hd
  refine ⟨above, below, hsplit, ?_⟩
  have honce : (front ++ structLines d ++ back).count (structOpening d.name) = 1 := h ▸ opened_once hnames hd
  rw [List.count_append, List.count_append, count_opening_structLines, if_pos rfl] at honce
  have hfront : structOpening d.name ∉ front := List.count_eq_zero.mp (by omega)
  have hback : structOpening d.name ∉ (d.members.map memberLine ++ ["\x7d;", ""]) ++ back := by
    rw [List.mem_append, not_or]
    exact ⟨not_opening (fun _ hs => (initial_of_mem_tail hs).1) _, List.count_eq_zero.mp (by omega)⟩
  have hlines : [version, ""] ++ above.flatMap structLines ++ structOpening d.name ::
      ((d.members.map memberLine ++ ["\x7d;", ""]) ++ (below.flatMap structLines ++ o.lower r)) =
      front ++ structOpening d.name :: ((d.members.map memberLine ++ ["\x7d;", ""]) ++ back) := by
    rw [lines_eq, hsplit, List.flatMap_append, List.flatMap_cons] at h
    simpa only [structLines, List.append_assoc, List.cons_append] using h
  obtain ⟨hsame, -, -⟩ := (List.append_cons_inj_of_notMem hfront hback).mp hlines.symm
  rw [hsame]
  exact (List.suffix_append _ _).isInfix

/-! ## Every use is behind its declaration -/

section

variable {r : Relay} {tested : Stage} {slots : List Slot} {o : Outline}

theorem map_name_outline (ho : r.outline tested slots = .ok o) :
    o.structs.map (·.name) = (structTypes slots).map (·.name) :=
  map_name_of_decls (mapM_eq_ok_iff.mp (outline_eq_ok_iff.mp ho).1)

/-- No name is declared twice. -/
theorem nodup_names (ho : r.outline tested slots = .ok o) : (o.structs.map (·.name)).Nodup :=
  map_name_outline ho ▸ (walked _ []).nodup

theorem mem_structs_outline_iff (ho : r.outline tested slots = .ok o) {d : StructDecl} :
    d ∈ o.structs ↔ ∃ s ∈ structTypes slots, s.decl = .ok d := mem_iff_of_mapM_eq_ok (outline_eq_ok_iff.mp ho).1

/-- The declaration of a struct of the walk, by its name. -/
theorem exists_decl_of_name (ho : r.outline tested slots = .ok o) {ds : List StructDecl} (hds : ∀ d ∈ ds, d ∈ o.structs)
    {n : String} (hn : n ∈ ds.map (·.name)) :
    ∃ d, d.name = n ∧ (∃ s ∈ structTypes slots, s.decl = .ok d) ∧ structLines d <:+: ds.flatMap structLines := by
  obtain ⟨d, hd, rfl⟩ := List.mem_map.mp hn
  exact ⟨d, rfl, (mem_structs_outline_iff ho).mp (hds d hd), structLines_among hd⟩

/-- The line of a variable of a struct type. -/
theorem slotLine_mem (ho : r.outline tested slots = .ok o) {k : Nat} {s : Slot} (hk : slots[k]? = some s) {type : String}
    (htype : slotType s = .ok type) : slotLine r tested slots k s type ∈ o.lines r := by
  obtain ⟨d, type', hd, htype', hline⟩ := getElem?_slotDecls (outline_eq_ok_iff.mp ho).2 hk
  cases htype.symm.trans htype'
  have hmem : slotLine r tested slots k s type ∈ o.slots.map interfaceLine :=
    List.mem_map.mpr ⟨d, List.mem_of_getElem? hd, hline⟩
  simp only [Outline.lines, List.mem_append]
  exact Or.inl (Or.inl (Or.inr hmem))

theorem slotType_of_named {s : Slot} {t : TypeTree} (ht : s.type? = some t) {n : String} (hn : t.structName? = some n) :
    slotType s = .ok n := by
  rw [slotType, ht]
  exact spell_of_named hn s.format

theorem Uses.infix_lines (ho : r.outline tested slots = .ok o) {n : String} {p : List String}
    (hu : Uses r tested slots n p) : p <:+: o.lines r := by
  cases hu with
  | slot hk ht hn =>
    obtain ⟨front, back, hlines⟩ := List.append_of_mem (slotLine_mem ho hk (slotType_of_named ht hn))
    exact ⟨front, back, by rw [hlines, List.append_assoc, List.singleton_append]⟩
  | member hs hd _ _ => exact structLines_among_lines ((mem_structs_outline_iff ho).mpr ⟨_, hs, hd⟩)

theorem Uses.declared_above (ho : r.outline tested slots = .ok o)
    (hnest : ∀ slot ∈ slots, ∀ t, slot.type? = some t → t.NoSelfNesting) {n : String} {p : List String}
    (hu : Uses r tested slots n p) {front back : List String} (hp : o.lines r = front ++ p ++ back) :
    ∃ d, d.name = n ∧ (∃ s ∈ structTypes slots, s.decl = .ok d) ∧ structLines d <:+: front := by
  cases hu with
  | slot hk ht hn =>
    have hin := slot_name_mem (List.mem_of_getElem? hk) ht hn
    rw [← map_name_outline ho] at hin
    rw [List.append_assoc, List.singleton_append] at hp
    obtain ⟨d, hname, hd, hinfix⟩ := exists_decl_of_name ho (fun _ hd => hd) hin
    exact ⟨d, hname, hd, hinfix.trans (structs_above_line (initial_interfaceLine _) hp).1⟩
  | member hs hd hm hn =>
    have hmem := (mem_structs_outline_iff ho).mpr ⟨_, hs, hd⟩
    obtain ⟨above, below, hsplit, habove⟩ := structs_above (nodup_names ho) hmem hp
    have hstructs := mapM_eq_ok_iff.mp (outline_eq_ok_iff.mp ho).1
    rw [hsplit] at hstructs
    have hin := member_name_above hnest hstructs hs hd hm hn
    have hsub : ∀ e ∈ above, e ∈ o.structs := fun e he => hsplit ▸ List.mem_append_left _ he
    obtain ⟨e, hname, he, hinfix⟩ := exists_decl_of_name ho hsub hin
    exact ⟨e, hname, he, hinfix.trans habove⟩

theorem Uses.declared_once (ho : r.outline tested slots = .ok o)
    (hnest : ∀ slot ∈ slots, ∀ t, slot.type? = some t → t.NoSelfNesting) {n : String} {p : List String}
    (hu : Uses r tested slots n p) : (o.lines r).count (structOpening n) = 1 := by
  obtain ⟨front, back, hp⟩ := hu.infix_lines ho
  obtain ⟨d, rfl, hd, -⟩ := hu.declared_above ho hnest hp.symm
  exact opened_once (nodup_names ho) ((mem_structs_outline_iff ho).mpr hd)

/-- The line of a member whose type is a struct. -/
theorem getElem?_structLines (ho : r.outline tested slots = .ok o) {s : StructType} (hs : s ∈ structTypes slots) {q : Nat}
    {m : TypeTree} (hm : s.members[q]? = some m) {n : String} (hn : m.structName? = some n) :
    ∃ d, s.decl = .ok d ∧ (structLines d)[q + 1]? =
      some ("    " ++ n ++ " " ++ memberName m.head q ++ brackets m.head.dims ++ ";") := by
  obtain ⟨d, -, hd⟩ := exists_of_mapM_eq_ok (outline_eq_ok_iff.mp ho).1 hs
  obtain ⟨ms, hms, rfl⟩ := decl_eq_ok_iff.mp hd
  rw [memberDecls] at hms
  obtain ⟨decl, hq, hdecl⟩ := getElem?_of_mapM_zipIdx hms hm
  obtain ⟨type, htype, rfl⟩ := map_eq_ok_iff.mp hdecl
  cases htype.symm.trans (spell_of_named hn _)
  refine ⟨_, hd, ?_⟩
  rw [structLines, List.getElem?_cons_succ, List.getElem?_append_left, List.getElem?_map, hq]
  · rfl
  · rw [List.length_map]
    exact (List.getElem?_eq_some_iff.mp hq).1

end

theorem initial_stageLayout {r : Relay} {line : String} (h : r.stageLayout? = some line) : initial line = some 'l' := by
  cases r <;> cases h <;> decide

theorem structs_declared_first {r : Relay} {tested : Stage} {slots : List Slot} {text : String}
    (h : (r.source tested slots).result = .ok text)
    (hnest : ∀ slot ∈ slots, ∀ t, slot.type? = some t → t.NoSelfNesting) :
    ∃ o, r.outline tested slots = .ok o ∧ text = linesText (o.lines r) ∧ DeclaredFirst r tested slots (o.lines r) := by
  obtain ⟨o, ho, htext⟩ := source_ok_iff.mp h
  refine ⟨o, ho, htext.symm, ?_⟩
  exact
    { opened := by
        intro n
        rw [opening_mem_lines_iff, map_name_outline ho, List.mem_map]
      named := fun s hs q m n hm hn => getElem?_structLines ho hs hm hn
      present := fun n p hu => hu.infix_lines ho
      once := fun n p hu => hu.declared_once ho hnest
      before := fun n p hu front back hp => hu.declared_above ho hnest hp
      layout := fun line hline front back hp => (structs_above_line (initial_stageLayout hline) hp).2
      slots := fun k s type _ _ front back hp => (structs_above_line (initial_interfaceLine _) hp).2 }

/-- A struct with a struct inside. -/
def light : TypeTree :=
  .node { typeName? := some "Light", shape := .struct }
    [ .node { memberName? := some "strength", shape := .float } [],
      .node { typeName? := some "Falloff", memberName? := some "falloff", shape := .struct }
        [.node { memberName? := some "range", shape := .float } []] ]

/-- Two variables of one struct. -/
def lights : List Slot := [{ location := 0, type? := some light }, { location := 4, type? := some light }]

theorem light_noSelfNesting : light.NoSelfNesting := by
  simp [light, TypeTree.head, TypeHead.structName?]

theorem lights_declared_first : ∃ text, (tessEval.source .tessControl lights).result = .ok text ∧
    (∀ slot ∈ lights, ∀ t, slot.type? = some t → t.NoSelfNesting) ∧
    text = linesText
      [ "#version 450", "",
        "struct Falloff \x7b", "    float range;", "\x7d;", "",
        "struct Light \x7b", "    float strength;", "    Falloff falloff;", "\x7d;", "",
        "layout(triangles, equal_spacing, cw) in;", "",
        "layout(location = 0) in Light io_0;", "layout(location = 4) in Light io_4;", "",
        "void main() \x7b", "    gl_Position = gl_in[0].gl_Position;", "\x7d" ] ∧
    ∃ o, tessEval.outline .tessControl lights = .ok o ∧ text = linesText (o.lines tessEval) ∧
      DeclaredFirst tessEval .tessControl lights (o.lines tessEval) := by
  have hsource := source_ok_iff.mpr ⟨_, show tessEval.outline .tessControl lights = _ from rfl, rfl⟩
  have hnest : ∀ slot ∈ lights, ∀ t, slot.type? = some t → t.NoSelfNesting := by
    intro slot hslot t ht
    have : slot.type? = some light := by
      simp only [lights, List.mem_cons, List.not_mem_nil, or_false] at hslot
      rcases hslot with rfl | rfl <;> rfl
    cases this.symm.trans ht
    exact light_noSelfNesting
  exact ⟨_, hsource, hnest, congrArg linesText (by decide), structs_declared_first hsource hnest⟩

end StageRig.Relay
