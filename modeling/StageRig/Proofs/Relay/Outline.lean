/-
  StageRig.Proofs.Relay.Outline — the source of a relay, read from top to bottom.

  `Relay.source` writes struct declarations late and splices them in at a mark. An
  `Outline` is the same source as data, in reading order: the struct declarations, which
  are those of the walk `structsOf`, and the interface declarations. Its lines
  (`Outline.lines`) are what the text is joined of, with no marks and no patches.

  - `declare_ok_iff`: declaring a description on a sheet adds one patch for each struct
    that the walk lists, and succeeds exactly when all of these can be spelled.
  - `writeSlots_ok_iff`: writing variables does the same and adds one line for each.
  - `source_ok_iff`: the source of a relay is `text` exactly when it has an outline with the
    lines of `text`.
  - `source_is_concatenation`: the same with the text written out.
  - `filter_lines`: the lines of the interface are those that begin so.
-/

import StageRig.Proofs.Glsl.Splice
import StageRig.Proofs.Outcome
import StageRig.Proofs.Relay.Lines
import StageRig.Proofs.Relay.Walk

namespace StageRig.Relay

open Glsl

/-! ## The outline -/

/-- The members of a struct from position `first` on. -/
def memberDecls (members : List TypeTree) (first : Nat) : Except SpellError (List MemberDecl) :=
  (members.zipIdx first).mapM fun m => memberDecl m.1.head m.2

def StructType.decl (s : StructType) : Except SpellError StructDecl :=
  (memberDecls s.members 0).map (StructDecl.mk s.name)

structure Outline where
  structs : List StructDecl
  slots : List SlotDecl
  deriving DecidableEq, Repr

/-- How many of the first `k` variables are at a location. -/
def earlierAt (slots : List Slot) (k : Nat) (location : UInt32) : Nat :=
  (slots.take k).countP (·.location = location)

/-- One interface declaration for each variable, in order. -/
def slotDecls (r : Relay) (tested : Stage) (slots : List Slot) : Except SpellError (List SlotDecl) :=
  slots.zipIdx.mapM fun s => slotDecl r tested (earlierAt slots s.2 s.1.location) s.1

def outline (r : Relay) (tested : Stage) (slots : List Slot) : Except SpellError Outline := do
  let structs ← (structTypes slots).mapM StructType.decl
  let decls ← slotDecls r tested slots
  pure ⟨structs, decls⟩

/-- The lines of a source, from top to bottom. A blank one follows the interface, if there is one. -/
def Outline.lines (r : Relay) (o : Outline) : List String :=
  [version, ""] ++ o.structs.flatMap structLines ++ r.stageLines ++ o.slots.map interfaceLine ++
    (if o.slots = [] then [] else [""]) ++ r.mainLines

def Outline.text (r : Relay) (o : Outline) : String := linesText (o.lines r)

/-- The lines of the interface are those that begin so. -/
theorem filter_lines (r : Relay) (o : Outline) : (o.lines r).filter isSlotLine = o.slots.map interfaceLine := by
  have hstructs : (o.structs.flatMap structLines).filter isSlotLine = [] := by
    refine List.filter_eq_nil_iff.mpr fun s hs => ?_
    obtain ⟨d, -, hs⟩ := List.mem_flatMap.mp hs
    simp [not_isSlotLine (initial_of_mem_structLines hs)]
  have hslots : (o.slots.map interfaceLine).filter isSlotLine = o.slots.map interfaceLine := by
    refine List.filter_eq_self.mpr fun s hs => ?_
    obtain ⟨d, -, rfl⟩ := List.mem_map.mp hs
    exact isSlotLine_interfaceLine d
  have hhead : [version, ""].filter isSlotLine = [] := by decide
  have hblank : (if o.slots = [] then [] else [""]).filter isSlotLine = [] := by
    split <;> decide
  have hstage : r.stageLines.filter isSlotLine = [] := by cases r <;> decide
  have hmain : r.mainLines.filter isSlotLine = [] := by
    refine List.filter_eq_nil_iff.mpr fun s hs => ?_
    simp [not_isSlotLine (initial_of_mem_mainLines hs).2]
  rw [Outline.lines]
  simp only [List.filter_append, hhead, hstructs, hstage, hslots, hblank, hmain, List.nil_append, List.append_nil]

/-! ## Declaring is walking -/

/-- A sheet after the declarations `decls`, with `entered` as the names entered. -/
def Sheet.withStructs (s : Sheet) (decls : List StructDecl) (entered : List String) : Sheet :=
  { s with
    draft := { s.draft with patches := s.draft.patches ++ decls.map fun d => ⟨s.header, d.text⟩ }
    entered }

@[simp] theorem withStructs_entered (s : Sheet) (decls : List StructDecl) (entered : List String) :
    (s.withStructs decls entered).entered = entered := rfl

@[simp] theorem withStructs_nil (s : Sheet) : s.withStructs [] s.entered = s := by
  simp [Sheet.withStructs]

@[simp] theorem withStructs_withStructs (s : Sheet) (decls more : List StructDecl) (entered entered' : List String) :
    (s.withStructs decls entered).withStructs more entered' = s.withStructs (decls ++ more) entered' := by
  simp [Sheet.withStructs]

/-- A patch at the header's mark is one more declaration. -/
theorem withStructs_insert (s : Sheet) (decls : List StructDecl) (d : StructDecl) (names entered : List String) :
    let s₁ := ({ s with entered := names } : Sheet).withStructs decls entered
    { s₁ with draft := s₁.draft.insert s₁.header d.text } = s.withStructs (decls ++ [d]) entered := by
  simp [Sheet.withStructs, Draft.insert]

theorem declare_fresh_ok_iff {head : TypeHead} {name : String} (hname : head.structName? = some name)
    (members : List TypeTree) {s s' : Sheet} (hin : name ∉ s.entered) :
    (declare (.node head members) s).result = .ok s' ↔
      ∃ ms s₁, (declareMembers members 0 { s with entered := name :: s.entered }).result = .ok (ms, s₁) ∧
        { s₁ with draft := s₁.draft.insert s₁.header (StructDecl.mk name ms).text } = s' := by
  simp [declare, hname, hin]

theorem decl_eq_ok_iff {st : StructType} {d : StructDecl} :
    st.decl = .ok d ↔ ∃ ms, memberDecls st.members 0 = .ok ms ∧ StructDecl.mk st.name ms = d := map_eq_ok_iff

theorem memberDecls_cons_eq_ok_iff {t : TypeTree} {rest : List TypeTree} {first : Nat} {ms : List MemberDecl} :
    memberDecls (t :: rest) first = .ok ms ↔
      ∃ m more, memberDecl t.head first = .ok m ∧ memberDecls rest (first + 1) = .ok more ∧ m :: more = ms := by
  simp [memberDecls]

-- A struct's own patch is added behind those of its members: `withStructs_insert` puts it
-- at the end of the list, where the walk lists it.
mutual

theorem declare_ok_iff : ∀ (t : TypeTree) (s s' : Sheet), (declare t s).result = .ok s' ↔
    ∃ decls, (structsOf t s.entered).1.mapM StructType.decl = .ok decls ∧
      s.withStructs decls (structsOf t s.entered).2 = s'
  | .node head members, s, s' => by
    rcases hname : head.structName? with _ | name
    · simp [declare, structsOf, hname]
    · by_cases hin : name ∈ s.entered
      · simp [declare, structsOf, hname, hin]
      · rw [declare_fresh_ok_iff hname members hin, structsOf_fresh (t := .node head members) hname hin]
        simp only [declareMembers_ok_iff members, List.mapM_append, List.mapM_cons, List.mapM_nil, bind_eq_ok_iff,
          pure_eq_ok, Except.ok.injEq]
        constructor
        · intro h
          obtain ⟨ms, _, ⟨decls, hd, hm, rfl⟩, rfl⟩ := h
          refine ⟨_, ⟨decls, hd, _, ⟨⟨name, ms⟩, decl_eq_ok_iff.mpr ⟨ms, hm, rfl⟩, [], rfl, rfl⟩, rfl⟩, ?_⟩
          exact (withStructs_insert ..).symm
        · intro h
          obtain ⟨_, ⟨decls, hd, _, ⟨d, hdecl, _, rfl, rfl⟩, rfl⟩, rfl⟩ := h
          obtain ⟨ms, hm, rfl⟩ := decl_eq_ok_iff.mp hdecl
          exact ⟨ms, _, ⟨decls, hd, hm, rfl⟩, withStructs_insert ..⟩

theorem declareMembers_ok_iff : ∀ (ts : List TypeTree) (first : Nat) (s : Sheet) (ms : List MemberDecl) (s' : Sheet),
    (declareMembers ts first s).result = .ok (ms, s') ↔
      ∃ decls, (structsOfAll ts s.entered).1.mapM StructType.decl = .ok decls ∧ memberDecls ts first = .ok ms ∧
        s.withStructs decls (structsOfAll ts s.entered).2 = s'
  | [], first, s, ms, s' => by simp [declareMembers, structsOfAll, memberDecls]
  | t :: rest, first, s, ms, s' => by
    simp only [declareMembers, structsOfAll, Traced.result_bind, Traced.result_ofExcept, Traced.result_pure,
      bind_eq_ok_iff, List.mapM_append, pure_eq_ok, Except.ok.injEq, Prod.exists, Prod.mk.injEq,
      memberDecls_cons_eq_ok_iff, declare_ok_iff t]
    constructor
    · intro h
      obtain ⟨_, ⟨decls, hd, rfl⟩, m, hm, more, s₂, hrest, rfl, rfl⟩ := h
      obtain ⟨decls', hd', hms, rfl⟩ := (declareMembers_ok_iff rest (first + 1) _ more s₂).mp hrest
      refine ⟨_, ⟨decls, hd, decls', hd', rfl⟩, ⟨m, more, hm, hms, rfl⟩, ?_⟩
      exact (withStructs_withStructs ..).symm
    · intro h
      obtain ⟨_, ⟨decls, hd, decls', hd', rfl⟩, ⟨m, more, hm, hms, rfl⟩, rfl⟩ := h
      refine ⟨_, ⟨decls, hd, rfl⟩, m, hm, more, _, ?_, rfl, rfl⟩
      exact (declareMembers_ok_iff rest (first + 1) _ more _).mpr ⟨decls', hd', hms, withStructs_withStructs ..⟩

end

/-! ## Writing the variables -/

/-- A sheet after the lines of the declarations `decls`. -/
def Sheet.withLines (s : Sheet) (decls : List SlotDecl) : Sheet :=
  { s with draft := { s.draft with body := s.draft.body ++ linesText (decls.map interfaceLine) } }

/-- The model counts locations in the list of those written before, newest first. -/
theorem count_locations (before rest : List Slot) (location : UInt32) :
    (before.map (·.location)).reverse.count location = earlierAt (before ++ rest) before.length location := by
  rw [List.count_reverse, List.count_eq_countP, List.countP_map, earlierAt, List.take_left']
  · rfl
  · rfl

theorem filterMap_type?_cons (slot : Slot) (rest : List Slot) :
    (slot :: rest).filterMap (·.type?) = slot.type?.toList ++ rest.filterMap (·.type?) := by
  cases h : slot.type? <;> simp [h]

@[simp] theorem withLines_entered (s : Sheet) (lines : List SlotDecl) : (s.withLines lines).entered = s.entered := rfl

@[simp] theorem withLines_nil (s : Sheet) : s.withLines [] = s := by
  simp [Sheet.withLines, linesText]

@[simp] theorem withLines_withStructs (s : Sheet) (lines : List SlotDecl) (decls : List StructDecl)
    (entered : List String) :
    (s.withLines lines).withStructs decls entered = (s.withStructs decls entered).withLines lines := rfl

@[simp] theorem withLines_withLines (s : Sheet) (lines more : List SlotDecl) :
    (s.withLines lines).withLines more = s.withLines (lines ++ more) := by
  simp [Sheet.withLines, linesText_append, String.append_assoc]

theorem pushLine_withLines (s : Sheet) (d : SlotDecl) :
    { s with draft := s.draft.pushLine d.text } = s.withLines [d] := by
  simp [Sheet.withLines, Draft.pushLine, linesText, slotText_eq, String.append_assoc]

/-- One variable: what its type needs is declared, and its line follows. -/
theorem writeSlots_cons_ok_iff (r : Relay) (tested : Stage) (slot : Slot) (rest : List Slot) (earlier : List UInt32)
    (s s' : Sheet) :
    (writeSlots r tested (slot :: rest) earlier s).result = .ok s' ↔
      ∃ structs d, (structsOfAll slot.type?.toList s.entered).1.mapM StructType.decl = .ok structs ∧
        slotDecl r tested (earlier.count slot.location) slot = .ok d ∧
        (writeSlots r tested rest (slot.location :: earlier)
          ((s.withStructs structs (structsOfAll slot.type?.toList s.entered).2).withLines [d])).result = .ok s' := by
  rcases htype : slot.type? with _ | t
  · simp [writeSlots, structsOfAll, htype, pushLine_withLines]
  · simp only [writeSlots, htype, Traced.result_bind, Traced.result_ofExcept, bind_eq_ok_iff, declare_ok_iff t,
      Option.toList_some, structsOfAll, List.append_nil, pushLine_withLines]
    constructor
    · intro h
      obtain ⟨_, ⟨structs, hs, rfl⟩, d, hd, hrest⟩ := h
      exact ⟨structs, d, hs, hd, hrest⟩
    · intro h
      obtain ⟨structs, d, hs, hd, hrest⟩ := h
      exact ⟨_, ⟨structs, hs, rfl⟩, d, hd, hrest⟩

-- The induction is on the variables still to be written; `before` are those that were,
-- whose locations decide the names of the others.
theorem writeSlots_ok_iff (r : Relay) (tested : Stage) (rest before : List Slot) (s s' : Sheet) :
    (writeSlots r tested rest (before.map (·.location)).reverse s).result = .ok s' ↔
      ∃ structs decls, (structsOfAll (rest.filterMap (·.type?)) s.entered).1.mapM StructType.decl = .ok structs ∧
        (rest.zipIdx before.length).mapM
          (fun x => slotDecl r tested (earlierAt (before ++ rest) x.2 x.1.location) x.1) = .ok decls ∧
        (s.withStructs structs (structsOfAll (rest.filterMap (·.type?)) s.entered).2).withLines decls = s' := by
  induction rest generalizing before s with
  | nil => simp [writeSlots, structsOfAll]
  | cons slot rest ih =>
    have ih := ih (before ++ [slot])
    simp only [List.map_append, List.map_cons, List.map_nil, List.reverse_append, List.reverse_cons, List.reverse_nil,
      List.nil_append, List.singleton_append, List.append_assoc, List.length_append, List.length_singleton] at ih
    simp only [writeSlots_cons_ok_iff, count_locations before (slot :: rest), filterMap_type?_cons,
      structsOfAll_append, List.mapM_append, List.zipIdx_cons, List.mapM_cons, bind_eq_ok_iff, pure_eq_ok,
      Except.ok.injEq, ih]
    constructor
    · intro h
      obtain ⟨structs, d, hs, hd, more, ds, hmore, hds, rfl⟩ := h
      refine ⟨structs ++ more, d :: ds, ⟨structs, hs, more, hmore, rfl⟩, ⟨d, hd, ds, hds, rfl⟩, ?_⟩
      simp
    · intro h
      obtain ⟨_, _, ⟨structs, hs, more, hmore, rfl⟩, ⟨d, hd, ds, hds, rfl⟩, rfl⟩ := h
      refine ⟨structs, d, hs, hd, more, ds, hmore, hds, ?_⟩
      simp

/-! ## The text -/

/-- The text in front of the struct declarations. -/
def headText : String := version ++ "\n\n"

def layoutText (r : Relay) : String :=
  match r.stageLayout? with
  | some line => line ++ "\n\n"
  | none => ""

def mainText (r : Relay) : String := "void main() \x7b\n" ++ linesText (r.statements.map ("    " ++ ·)) ++ "\x7d\n"

/-- The text behind the struct declarations. -/
def tailText (r : Relay) (decls : List SlotDecl) : String :=
  r.layoutText ++ linesText (decls.map interfaceLine) ++ (if decls = [] then "" else "\n") ++ r.mainText

theorem linesText_head : linesText [version, ""] = headText := by decide

theorem linesText_stageLines (r : Relay) : linesText r.stageLines = r.layoutText := by
  cases r <;> decide

theorem linesText_mainLines (r : Relay) : linesText r.mainLines = r.mainText := by
  have hopen : linesText ["void main() \x7b"] = "void main() \x7b\n" := by decide
  have hclose : linesText ["\x7d"] = "\x7d\n" := by decide
  rw [mainLines, linesText_append, linesText_append, hopen, hclose]
  rfl

theorem pushLines_eq (d : Draft) (lines : List String) :
    lines.foldl Draft.pushLine d = { d with body := d.body ++ linesText lines } := by
  induction lines generalizing d with
  | nil => simp [linesText]
  | cons line lines ih => simp [ih, linesText, Draft.pushLine, String.append_assoc]

theorem opening_eq (r : Relay) :
    r.opening = { draft := { body := headText ++ r.layoutText }, header := byteSize headText.toList, entered := [] } := by
  have hhead : (({} : Draft).pushLine version).pushLine "" = { body := headText } := by
    rw [← linesText_head]
    exact (pushLines_eq {} [version, ""]).trans (by simp)
  simp only [opening, hhead, Draft.mark]
  rw [← linesText_stageLines]
  cases r <;> simp [stageLines, stageLayout?, linesText, Draft.pushLine, String.append_assoc]

theorem closing_eq (r : Relay) (d : Draft) : r.closing d = { d with body := d.body ++ r.mainText } := by
  rw [← linesText_mainLines, ← pushLines_eq]
  simp [closing, mainLines, List.foldl_map]

theorem outline_text_eq (r : Relay) (o : Outline) :
    o.text r = headText ++ linesText (o.structs.flatMap structLines) ++ r.tailText o.slots := by
  have hblank : linesText (if o.slots = [] then [] else [""]) = if o.slots = [] then "" else "\n" := by
    split <;> simp [linesText]
  rw [Outline.text, Outline.lines]
  simp only [linesText_append, linesText_head, linesText_stageLines, hblank, linesText_mainLines, tailText,
    String.append_assoc]

/-- The finished draft of a sheet that was opened, written to and closed. -/
theorem closed_text (r : Relay) (structs : List StructDecl) (decls : List SlotDecl) (entered : List String) :
    let s := (r.opening.withStructs structs entered).withLines decls
    (r.closing (if decls = [] then s.draft else s.draft.pushLine "")).text = (Outline.mk structs decls).text r := by
  intro s
  have hbody : (r.closing (if decls = [] then s.draft else s.draft.pushLine "")).body = headText ++ r.tailText decls := by
    rw [closing_eq]
    simp only [s, tailText, Sheet.withLines, Sheet.withStructs, opening_eq]
    split <;> simp [Draft.pushLine, linesText, Function.comp_def, String.append_assoc]
  have hpatches : (r.closing (if decls = [] then s.draft else s.draft.pushLine "")).patches =
      structs.map fun d => ⟨byteSize headText.toList, d.text⟩ := by
    rw [closing_eq]
    simp only [s, Sheet.withLines, Sheet.withStructs, opening_eq]
    split <;> simp [Draft.pushLine]
  rw [Draft.text_of_one_mark hbody, hpatches, outline_text_eq, linesText_structs]
  · simp [Function.comp_def]
  · intro p hp
    rw [hpatches] at hp
    obtain ⟨d, _, rfl⟩ := List.mem_map.mp hp
    rfl

/-! ## The source is its outline -/

theorem outline_eq_ok_iff {r : Relay} {tested : Stage} {slots : List Slot} {o : Outline} :
    r.outline tested slots = .ok o ↔
      (structTypes slots).mapM StructType.decl = .ok o.structs ∧ slotDecls r tested slots = .ok o.slots := by
  simp only [outline, bind_eq_ok_iff, pure_eq_ok, Except.ok.injEq]
  constructor
  · intro h
    obtain ⟨structs, hs, decls, hd, rfl⟩ := h
    exact ⟨hs, hd⟩
  · intro h
    obtain ⟨hs, hd⟩ := h
    exact ⟨_, hs, _, hd, rfl⟩

/-- There is one interface declaration for each variable. -/
theorem outline_slots_length {r : Relay} {tested : Stage} {slots : List Slot} {o : Outline}
    (h : r.outline tested slots = .ok o) : o.slots.length = slots.length := by
  have hd := (outline_eq_ok_iff.mp h).2
  rw [slotDecls, mapM_eq_ok_iff] at hd
  simpa using hd.length_eq.symm

/-- An interface declaration is that of a variable. -/
theorem exists_slot_of_mem {r : Relay} {tested : Stage} {slots : List Slot} {o : Outline}
    (ho : r.outline tested slots = .ok o) {d : SlotDecl} (hd : d ∈ o.slots) :
    ∃ slot ∈ slots, ∃ n, slotDecl r tested n slot = .ok d := by
  have hdecls := (outline_eq_ok_iff.mp ho).2
  rw [slotDecls] at hdecls
  obtain ⟨x, hx, hslot⟩ := (mem_iff_of_mapM_eq_ok hdecls).mp hd
  exact ⟨x.1, List.fst_mem_of_mem_zipIdx hx, _, hslot⟩

theorem source_ok_iff {r : Relay} {tested : Stage} {slots : List Slot} {text : String} :
    (r.source tested slots).result = .ok text ↔ ∃ o, r.outline tested slots = .ok o ∧ o.text r = text := by
  have hempty : ∀ o, r.outline tested slots = .ok o → (slots.isEmpty = true ↔ o.slots = []) := by
    intro o ho
    rw [List.isEmpty_iff, ← List.length_eq_zero_iff, ← outline_slots_length ho, List.length_eq_zero_iff]
  have hwrite := writeSlots_ok_iff r tested slots [] r.opening
  rw [show r.opening.entered = [] by rw [opening_eq]] at hwrite
  have hclosed := fun structs decls => closed_text r structs decls (structsOfAll (slots.filterMap (·.type?)) []).2
  simp only [source, Traced.result_bind, Traced.result_note, Traced.result_pure, bind_eq_ok_iff, Except.ok.injEq]
  constructor
  · intro h
    obtain ⟨s, hs, -, -, rfl⟩ := h
    obtain ⟨structs, decls, hstructs, hdecls, rfl⟩ := (hwrite s).mp hs
    have ho : r.outline tested slots = .ok ⟨structs, decls⟩ := outline_eq_ok_iff.mpr ⟨hstructs, hdecls⟩
    refine ⟨_, ho, ?_⟩
    rw [← hclosed structs decls]
    simp only [hempty _ ho]
  · intro h
    obtain ⟨⟨structs, decls⟩, ho, rfl⟩ := h
    obtain ⟨hstructs, hdecls⟩ := outline_eq_ok_iff.mp ho
    refine ⟨_, (hwrite _).mpr ⟨structs, decls, hstructs, hdecls, rfl⟩, (), trivial, ?_⟩
    rw [← hclosed structs decls]
    simp only [hempty _ ho]

/-- The line of the variable `slot`, the `k`-th of `slots`, whose type is spelled `type`. -/
def slotLine (r : Relay) (tested : Stage) (slots : List Slot) (k : Nat) (slot : Slot) (type : String) : String :=
  interfaceLine
    { location := slot.location
      component? := slot.component?
      qualifier := r.qualifier
      type
      name := slotName slot.location (earlierAt slots k slot.location)
      dims := slotDims r tested slot }

/-- The type of a variable: that of its description or, without one, that of its format. -/
inductive HasType (slot : Slot) : Ty → Prop
  | described {t : TypeTree} {ty : Ty} : slot.type? = some t → t.head.resolve slot.format = .ok ty → HasType slot ty
  | bare {ty : Ty} : slot.type? = none → slot.format.type? = some ty → HasType slot ty

theorem slotType_eq_ok_iff {slot : Slot} {type : String} :
    slotType slot = .ok type ↔ ∃ ty, HasType slot ty ∧ ty.spelling = type := by
  constructor
  · intro h
    rw [slotType] at h
    rcases ht : slot.type? with _ | t
    · rcases hf : slot.format.type? with _ | ty
      · simp [ht, hf] at h
      · simp only [ht, hf, Except.ok.injEq] at h
        exact ⟨ty, .bare ht hf, h⟩
    · rw [ht] at h
      obtain ⟨ty, hty, rfl⟩ := map_eq_ok_iff.mp h
      exact ⟨ty, .described ht hty, rfl⟩
  · rintro ⟨ty, hty, rfl⟩
    rw [slotType]
    cases hty with
    | described ht hr =>
      rw [ht]
      exact map_eq_ok_iff.mpr ⟨ty, hr, rfl⟩
    | bare ht hf => simp only [ht, hf]

/-- A variable has one type. -/
theorem HasType.unique {slot : Slot} {ty ty' : Ty} (h : HasType slot ty) (h' : HasType slot ty') : ty = ty' := by
  cases h with
  | described ht hr =>
    cases h' with
    | described ht' hr' =>
      cases ht.symm.trans ht'
      exact Except.ok.inj (hr.symm.trans hr')
    | bare ht' _ => cases ht.symm.trans ht'
  | bare ht hf =>
    cases h' with
    | described ht' _ => cases ht.symm.trans ht'
    | bare _ hf' => exact Option.some.inj (hf.symm.trans hf')

theorem slotDecl_ok_iff {r : Relay} {tested : Stage} {n : Nat} {slot : Slot} {d : SlotDecl} :
    slotDecl r tested n slot = .ok d ↔
      ∃ type, slotType slot = .ok type ∧
        ⟨slot.location, slot.component?, r.qualifier, type, slotName slot.location n, slotDims r tested slot⟩ = d :=
  map_eq_ok_iff

/-- The interface lines: the `k`-th is that of the `k`-th variable. -/
theorem getElem?_slotDecls {r : Relay} {tested : Stage} {slots : List Slot} {decls : List SlotDecl}
    (h : slotDecls r tested slots = .ok decls) {k : Nat} {slot : Slot} (hk : slots[k]? = some slot) :
    ∃ d type, decls[k]? = some d ∧ slotType slot = .ok type ∧ interfaceLine d = slotLine r tested slots k slot type := by
  rw [slotDecls] at h
  obtain ⟨d, hd, hslot⟩ := getElem?_of_mapM_zipIdx h hk
  obtain ⟨type, htype, rfl⟩ := slotDecl_ok_iff.mp hslot
  exact ⟨_, type, hd, htype, rfl⟩

end StageRig.Relay
