/-
  StageRig.Proofs.Relay.Decoding — what can be read off the text of a relay.

  Where every name is one word (`WordNames`), the lines of a source do not run into each
  other and the parts of a line do not either. A line of the interface is known by how it
  begins; its numbers end at what is no digit, and its type at the next space.

  - `lines_of_text`: two sources of one text have the same lines.
  - `slotDecl_of_line`: two interface declarations of one line agree in location, component
    and type, and go on with the same text.
  - `interface_of_source`: two lists of variables with one source are declared alike, with
    the same types and, by the rule for these, the same array bounds.
-/

import StageRig.Proofs.Glsl.Spelling
import StageRig.Proofs.Relay.Reorder
import StageRig.Proofs.Text.Numbers

namespace StageRig

open Glsl

/-! ## Words -/

/-- The text has no space in it and no end of a line. -/
def OneWord (s : String) : Prop := ∀ c ∈ s.toList, c ≠ ' ' ∧ c ≠ '\n'

instance (s : String) : Decidable (OneWord s) := List.decidableBAll (fun c => c ≠ ' ' ∧ c ≠ '\n') s.toList

@[simp] theorem oneWord_append {s t : String} : OneWord (s ++ t) ↔ OneWord s ∧ OneWord t := by
  simp only [OneWord, String.toList_append, List.mem_append]
  constructor
  · intro h
    exact ⟨fun c hc => h c (Or.inl hc), fun c hc => h c (Or.inr hc)⟩
  · intro ⟨hs, ht⟩ c hc
    exact hc.elim (hs c) (ht c)

theorem oneWord_repr (n : Nat) : OneWord n.repr := by
  intro c hc
  have hdigit := isDigit_of_mem_repr hc
  constructor
  · rintro rfl
    exact absurd hdigit (by decide)
  · rintro rfl
    exact absurd hdigit (by decide)

theorem OneWord.inline {s : String} (h : OneWord s) : Inline s := fun hmem => (h _ hmem).2 rfl

theorem oneWord_spelling {ty : Ty} (h : ∀ n, ty = .named n → OneWord n) : OneWord ty.spelling := by
  cases ty with
  | named n => exact h n rfl
  | scalar s => cases s <;> decide
  | vector c n =>
    have hstem : OneWord c.vectorStem := by cases c <;> decide
    exact oneWord_append.mpr ⟨hstem, oneWord_repr _⟩
  | matrix c cols rows =>
    have hstem : OneWord c.matrixStem := by cases c <;> decide
    have hsquare : OneWord (c.matrixStem ++ cols.toNat.repr) := oneWord_append.mpr ⟨hstem, oneWord_repr _⟩
    rw [Ty.spelling]
    split
    · exact hsquare
    · exact oneWord_append.mpr ⟨oneWord_append.mpr ⟨hsquare, by decide⟩, oneWord_repr _⟩

/-- The names of a description are words. -/
def TypeHead.WordNames (h : TypeHead) : Prop :=
  (∀ n, h.typeName? = some n → OneWord n) ∧ ∀ n, h.memberName? = some n → OneWord n

theorem oneWord_structName {h : TypeHead} (hw : h.WordNames) {n : String} (hn : h.structName? = some n) : OneWord n :=
  hw.1 n (Option.filter_eq_some_iff.mp hn).1

theorem oneWord_spell {h : TypeHead} (hw : h.WordNames) {format : Format} {type : String}
    (hs : h.spell format = .ok type) : OneWord type := by
  obtain ⟨ty, hty, rfl⟩ := map_eq_ok_iff.mp hs
  refine oneWord_spelling fun n hn => ?_
  subst hn
  exact oneWord_structName hw (structName?_of_resolve hty)

namespace Relay

theorem oneWord_memberName {h : TypeHead} (hw : h.WordNames) (index : Nat) : OneWord (memberName h index) := by
  rw [memberName]
  rcases hname : h.memberName?.filter (· ≠ "") with _ | name
  · exact oneWord_append.mpr ⟨by decide, oneWord_repr index⟩
  · exact hw.2 name (Option.filter_eq_some_iff.mp hname).1

/-- Every name in the types of the variables is one word. -/
def WordNames (slots : List Slot) : Prop := ∀ t, Occurs slots t → t.head.WordNames

theorem oneWord_slotType {slots : List Slot} (hw : WordNames slots) {slot : Slot} (hslot : slot ∈ slots) {type : String}
    (h : slotType slot = .ok type) : OneWord type := by
  obtain ⟨ty, hty, rfl⟩ := slotType_eq_ok_iff.mp h
  cases hty with
  | described ht hr =>
    exact oneWord_spell (hw _ ⟨_, List.mem_filterMap.mpr ⟨slot, hslot, ht⟩, Or.inl rfl⟩) (map_eq_ok_iff.mpr ⟨ty, hr, rfl⟩)
  | bare _ hf =>
    refine oneWord_spelling fun n hn => ?_
    exact absurd (hn ▸ hf) (type?_ne_named slot.format n)

/-! ## Lines -/

theorem inline_brackets (dims : List UInt32) : Inline (brackets dims) := by
  intro h
  rw [toList_brackets, List.mem_flatMap] at h
  obtain ⟨n, -, h⟩ := h
  simp only [List.mem_cons, List.mem_append, List.not_mem_nil, or_false] at h
  rcases h with h | h | h
  · exact absurd h (by decide)
  · exact absurd (isDigit_of_mem_dimDigits h) (by decide)
  · exact absurd h (by decide)

theorem inline_slotName (location : UInt32) (n : Nat) : Inline (slotName location n) := by
  have hfirst : Inline ("io_" ++ location.toNat.repr) := inline_append.mpr ⟨by decide, (oneWord_repr _).inline⟩
  rw [slotName]
  split
  · exact hfirst
  · exact inline_append.mpr ⟨inline_append.mpr ⟨hfirst, by decide⟩, (oneWord_repr n).inline⟩

section

variable {r : Relay} {tested : Stage} {slots : List Slot} {o : Outline}

theorem inline_lines (hw : WordNames slots) (ho : r.outline tested slots = .ok o) : ∀ s ∈ o.lines r, Inline s := by
  have hstructs : ∀ d ∈ o.structs, ∀ s ∈ structLines d, Inline s := by
    intro d hd s hs
    simp only [structLines, List.mem_append, List.mem_map, List.mem_cons, List.not_mem_nil, or_false] at hs
    rcases hs with rfl | ⟨m, hm, rfl⟩ | rfl | rfl
    · obtain ⟨t, ht, hname, -⟩ := exists_reached_of_mem ho hd
      have hword := oneWord_structName (hw t ht.occurs) hname
      exact inline_append.mpr ⟨inline_append.mpr ⟨by decide, hword.inline⟩, by decide⟩
    · obtain ⟨t, ht, index, hdecl⟩ := exists_member_of_mem ho hd hm
      obtain ⟨type, htype, rfl⟩ := map_eq_ok_iff.mp hdecl
      have htype := (oneWord_spell (hw t ht) htype).inline
      have hname := (oneWord_memberName (hw t ht) index).inline
      simp only [memberLine, inline_append]
      exact ⟨⟨⟨⟨⟨by decide, htype⟩, by decide⟩, hname⟩, inline_brackets _⟩, by decide⟩
    · decide
    · decide
  have hslots : ∀ d ∈ o.slots, Inline (interfaceLine d) := by
    intro d hd
    obtain ⟨slot, hslot, k, hdecl⟩ := exists_slot_of_mem ho hd
    obtain ⟨type, htype, rfl⟩ := slotDecl_ok_iff.mp hdecl
    have htype := (oneWord_slotType hw hslot htype).inline
    have hname := inline_slotName slot.location k
    have hqualifier : Inline r.qualifier := by cases r <;> decide
    have hnumber : ∀ n : Nat, Inline n.repr := fun n => (oneWord_repr n).inline
    unfold interfaceLine
    cases slot.component? <;>
      simp only [inline_append, hnumber, htype, hname, hqualifier, inline_brackets, and_true] <;>
      decide
  have hstage : ∀ s ∈ r.stageLines, Inline s := by cases r <;> decide
  have hmain : ∀ s ∈ r.mainLines, Inline s := by cases r <;> decide
  intro s hs
  simp only [Outline.lines, List.mem_append, List.mem_flatMap, List.mem_map] at hs
  rcases hs with ((((hs | ⟨d, hd, hs⟩) | hs) | ⟨d, hd, rfl⟩) | hs) | hs
  · exact (show ∀ s ∈ [version, ""], Inline s by decide) s hs
  · exact hstructs d hd s hs
  · exact hstage s hs
  · exact hslots d hd
  · split at hs
    · cases hs
    · rw [List.mem_singleton.mp hs]
      decide
  · exact hmain s hs

/-- Two sources of one text have the same lines. -/
theorem lines_of_text (hw : WordNames slots) (ho : r.outline tested slots = .ok o) {slots' : List Slot} {o' : Outline}
    (hw' : WordNames slots') (ho' : r.outline tested slots' = .ok o') (h : o.text r = o'.text r) :
    o.lines r = o'.lines r := linesText_injective (inline_lines hw ho) (inline_lines hw' ho') h

end

/-! ## The parts of a line -/

/-- What stands behind the layout of an interface declaration. -/
def afterLayout (d : SlotDecl) : List Char :=
  ' ' :: (d.qualifier.toList ++ ' ' :: (d.type.toList ++ ' ' :: (d.name ++ brackets d.dims ++ ";").toList))

theorem toList_interfaceLine_none {d : SlotDecl} (h : d.component? = none) :
    (interfaceLine d).toList = "layout(location = ".toList ++ (d.location.toNat.repr.toList ++ ')' :: afterLayout d) := by
  unfold interfaceLine afterLayout
  simp only [h, String.toList_append, List.append_assoc]
  rfl

theorem toList_interfaceLine_some {d : SlotDecl} {c : UInt32} (h : d.component? = some c) :
    (interfaceLine d).toList = "layout(location = ".toList ++
      (d.location.toNat.repr.toList ++ ',' :: (" component = ".toList ++ (c.toNat.repr.toList ++ ')' :: afterLayout d))) := by
  unfold interfaceLine afterLayout
  simp only [h, String.toList_append, List.append_assoc]
  rfl

theorem afterLayout_inj {d d' : SlotDecl} (hq : d.qualifier = d'.qualifier) (ht : OneWord d.type) (ht' : OneWord d'.type)
    (h : afterLayout d = afterLayout d') :
    d.type = d'.type ∧ d.name ++ brackets d.dims ++ ";" = d'.name ++ brackets d'.dims ++ ";" := by
  have hword : ∀ {s : String}, OneWord s → ∀ c ∈ s.toList, (c != ' ') = true := by
    intro s hs c hc
    simpa using (hs c hc).1
  rw [afterLayout, afterLayout, hq] at h
  have h := (List.cons.inj (List.append_cancel_left (List.cons.inj h).2)).2
  obtain ⟨htype, -, hrest⟩ := append_inj_of_stop (p := (· != ' ')) (hword ht) (hword ht') (by decide) (by decide) h
  exact ⟨String.toList_inj.mp htype, String.toList_inj.mp hrest⟩

/-- The line of an interface declaration tells its location, its component and its type. -/
theorem slotDecl_of_line {d d' : SlotDecl} (h : interfaceLine d = interfaceLine d') (hq : d.qualifier = d'.qualifier)
    (ht : OneWord d.type) (ht' : OneWord d'.type) :
    d.location = d'.location ∧ d.component? = d'.component? ∧ d.type = d'.type ∧
      d.name ++ brackets d.dims ++ ";" = d'.name ++ brackets d'.dims ++ ";" := by
  have hdigits : ∀ n : Nat, ∀ c ∈ n.repr.toList, c.isDigit = true := fun n c hc => isDigit_of_mem_repr hc
  have hnumber : ∀ {n m : UInt32}, n.toNat.repr.toList = m.toNat.repr.toList → n = m :=
    fun h => UInt32.toNat_inj.mp (repr_toList_injective h)
  rw [← String.toList_inj] at h
  rcases hc : d.component? with _ | c <;> rcases hc' : d'.component? with _ | c'
  · rw [toList_interfaceLine_none hc, toList_interfaceLine_none hc'] at h
    obtain ⟨hloc, -, hrest⟩ :=
      append_inj_of_stop (hdigits _) (hdigits _) (by decide) (by decide) (List.append_cancel_left h)
    exact ⟨hnumber hloc, rfl, afterLayout_inj hq ht ht' hrest⟩
  · rw [toList_interfaceLine_none hc, toList_interfaceLine_some hc'] at h
    have hstop :=
      append_inj_of_stop (hdigits _) (hdigits _) (by decide) (by decide) (List.append_cancel_left h)
    exact absurd hstop.2.1 (by decide)
  · rw [toList_interfaceLine_some hc, toList_interfaceLine_none hc'] at h
    have hstop :=
      append_inj_of_stop (hdigits _) (hdigits _) (by decide) (by decide) (List.append_cancel_left h)
    exact absurd hstop.2.1 (by decide)
  · rw [toList_interfaceLine_some hc, toList_interfaceLine_some hc'] at h
    obtain ⟨hloc, -, hrest⟩ :=
      append_inj_of_stop (hdigits _) (hdigits _) (by decide) (by decide) (List.append_cancel_left h)
    obtain ⟨hcomp, -, hrest⟩ :=
      append_inj_of_stop (hdigits _) (hdigits _) (by decide) (by decide) (List.append_cancel_left hrest)
    exact ⟨hnumber hloc, by rw [hnumber hcomp], afterLayout_inj hq ht ht' hrest⟩

/-! ## The interface of a source -/

theorem HasType.nameless {slot : Slot} {ty : Ty} (h : HasType slot ty) (hty : ∀ n, ty ≠ .named n) : Nameless ty := by
  cases h with
  | bare _ hf => exact .bare hf
  | described _ hr =>
    refine .described (Option.eq_none_iff_forall_ne_some.mpr fun n hn => ?_) hr
    rw [TypeHead.resolve, hn] at hr
    exact hty n (Except.ok.inj hr).symm

/-- Two variables are declared at the same location and component, with the same type and the same array bounds. -/
structure DeclaredAlike (r : Relay) (tested : Stage) (slot slot' : Slot) : Prop where
  location : slot.location = slot'.location
  component : slot.component? = slot'.component?
  type : ∃ ty ty', HasType slot ty ∧ HasType slot' ty' ∧ ty.spelling = ty'.spelling
  /-- Types that are no structs are spelled alike only if they are the same. -/
  resolved : ∀ ty ty', HasType slot ty → HasType slot' ty' → (∀ n, ty ≠ .named n) → (∀ n, ty' ≠ .named n) → ty = ty'
  dims : ∃ dims, DeclaredDims r tested slot dims ∧ DeclaredDims r tested slot' dims

/-- Names are numbered by location alone. -/
theorem earlierAt_congr {slots slots' : List Slot} (h : slots.map (·.location) = slots'.map (·.location)) (k : Nat)
    (location : UInt32) : earlierAt slots k location = earlierAt slots' k location := by
  have hcount : ∀ l : List Slot, earlierAt l k location = ((l.map (·.location)).take k).count location := by
    intro l
    rw [earlierAt, ← List.map_take, List.count_eq_countP, List.countP_map]
    rfl
  rw [hcount, hcount, h]

/-- Two lists of variables whose names are words and that have the same source are declared alike, one by one. -/
theorem interface_of_source {r : Relay} {tested : Stage} {slots slots' : List Slot} {text : String}
    (hw : WordNames slots) (hw' : WordNames slots') (h : (r.source tested slots).result = .ok text)
    (h' : (r.source tested slots').result = .ok text) : List.Forall₂ (DeclaredAlike r tested) slots slots' := by
  obtain ⟨o, ho, htext⟩ := source_ok_iff.mp h
  obtain ⟨o', ho', htext'⟩ := source_ok_iff.mp h'
  have hlines := congrArg (List.filter isSlotLine) (lines_of_text hw ho hw' ho' (htext.trans htext'.symm))
  rw [filter_lines, filter_lines] at hlines
  have hlength : slots.length = slots'.length := by
    rw [← outline_slots_length ho, ← outline_slots_length ho']
    simpa using congrArg List.length hlines
  -- what the line of the variable at one position says of both
  have hline : ∀ k slot slot', slots[k]? = some slot → slots'[k]? = some slot' →
      slot.location = slot'.location ∧ slot.component? = slot'.component? ∧
        (∃ ty ty', HasType slot ty ∧ HasType slot' ty' ∧ ty.spelling = ty'.spelling) ∧
        slotName slot.location (earlierAt slots k slot.location) ++ brackets (slotDims r tested slot) ++ ";" =
          slotName slot'.location (earlierAt slots' k slot'.location) ++ brackets (slotDims r tested slot') ++ ";" := by
    intro k slot slot' hk hk'
    obtain ⟨d, hd, hdecl⟩ := getElem?_of_mapM_zipIdx (outline_eq_ok_iff.mp ho).2 hk
    obtain ⟨d', hd', hdecl'⟩ := getElem?_of_mapM_zipIdx (outline_eq_ok_iff.mp ho').2 hk'
    obtain ⟨type, htype, rfl⟩ := slotDecl_ok_iff.mp hdecl
    obtain ⟨type', htype', rfl⟩ := slotDecl_ok_iff.mp hdecl'
    have hsame := congrArg (·[k]?) hlines
    simp only [List.getElem?_map, hd, hd', Option.map_some, Option.some.injEq] at hsame
    obtain ⟨hloc, hcomp, htypes, hrest⟩ := slotDecl_of_line hsame rfl
      (oneWord_slotType hw (List.mem_of_getElem? hk) htype) (oneWord_slotType hw' (List.mem_of_getElem? hk') htype')
    obtain ⟨ty, hty, rfl⟩ := slotType_eq_ok_iff.mp htype
    obtain ⟨ty', hty', rfl⟩ := slotType_eq_ok_iff.mp htype'
    exact ⟨hloc, hcomp, ⟨ty, ty', hty, hty', htypes⟩, hrest⟩
  have hlocations : slots.map (·.location) = slots'.map (·.location) := by
    refine List.ext_getElem (by simpa using hlength) fun k hk hk' => ?_
    rw [List.length_map] at hk hk'
    rw [List.getElem_map, List.getElem_map]
    exact (hline k _ _ (List.getElem?_eq_getElem hk) (List.getElem?_eq_getElem hk')).1
  refine List.forall₂_iff_get.mpr ⟨hlength, fun k hk hk' => ?_⟩
  obtain ⟨hloc, hcomp, ⟨ty, ty', hty, hty', hspelling⟩, hrest⟩ :=
    hline k _ _ (List.getElem?_eq_getElem hk) (List.getElem?_eq_getElem hk')
  rw [hloc, earlierAt_congr hlocations] at hrest
  have hdims := brackets_injective ((String.append_right_inj _).mp ((String.append_left_inj _).mp hrest))
  exact
    { location := hloc
      component := hcomp
      type := ⟨ty, ty', hty, hty', hspelling⟩
      resolved := by
        intro u u' hu hu' hne hne'
        obtain rfl := hu.unique hty
        obtain rfl := hu'.unique hty'
        exact eq_of_spelling (hu.nameless hne) (hu'.nameless hne') hspelling
      dims := ⟨_, declaredDims_slotDims r tested _, declaredDims_iff.mpr hdims.symm⟩ }

/-- A vector that is known by its format alone, and an array of structs. -/
def formatted : List Slot :=
  [{ location := 2, component? := some 1, format := .packed .float32 ⟨2, by decide⟩ }, { location := 3, type? := some ray }]

/-- The same with a description of the vector and with names, which a relay does not take over. -/
def described : List Slot :=
  [ { name := "offset", location := 2, component? := some 1,
      type? := some (.node { shape := .vector, scalar := ⟨some .float, 32, 0⟩, vectorSize := 3 } []) },
    { name := "rays", location := 3, type? := some ray } ]

theorem wordNames_ray {t : TypeTree} (h : t.Within ray) : t.head.WordNames := by
  simp only [TypeTree.Within, ray, TypeTree.below_node, List.mem_singleton, exists_eq_left, List.not_mem_nil, false_and,
    exists_false, or_false] at h
  rcases h with rfl | rfl
  · exact ⟨(by intro n hn; cases hn; decide), (by intro n hn; cases hn)⟩
  · exact ⟨(by intro n hn; cases hn), (by intro n hn; cases hn; decide)⟩

theorem formatted_decoded :
    WordNames formatted ∧ WordNames described ∧
      ∃ text, (tessEval.source .tessControl formatted).result = .ok text ∧
        (tessEval.source .tessControl described).result = .ok text ∧
        text = linesText
          [ "#version 450", "",
            "struct Ray \x7b", "    float range;", "\x7d;", "",
            "layout(triangles, equal_spacing, cw) in;", "",
            "layout(location = 2, component = 1) in vec3 io_2;", "layout(location = 3) in Ray io_3[];", "",
            "void main() \x7b", "    gl_Position = gl_in[0].gl_Position;", "\x7d" ] ∧
        List.Forall₂ (DeclaredAlike tessEval .tessControl) formatted described := by
  have hformatted : WordNames formatted := by
    rintro t ⟨root, hroot, hwithin⟩
    simp only [slotTypes, formatted, List.filterMap_cons, List.filterMap_nil, List.mem_singleton] at hroot
    subst hroot
    exact wordNames_ray hwithin
  have hdescribed : WordNames described := by
    rintro t ⟨root, hroot, hwithin⟩
    simp only [slotTypes, described, List.filterMap_cons, List.filterMap_nil, List.mem_cons, List.not_mem_nil,
      or_false] at hroot
    rcases hroot with rfl | rfl
    · simp only [TypeTree.Within, TypeTree.below_node, List.not_mem_nil, false_and, exists_false, or_false] at hwithin
      subst hwithin
      exact ⟨(by intro n hn; cases hn), (by intro n hn; cases hn)⟩
    · exact wordNames_ray hwithin
  have hsource := source_ok_iff.mpr ⟨_, show tessEval.outline .tessControl formatted = _ from rfl, rfl⟩
  have hsource' := source_ok_iff.mpr ⟨_, show tessEval.outline .tessControl described = _ from rfl, rfl⟩
  exact ⟨hformatted, hdescribed, _, hsource, hsource', congrArg linesText (by decide),
    interface_of_source hformatted hdescribed hsource hsource'⟩

end Relay

end StageRig
