/-
  StageRig.Proofs.Document.RoundTrip — every document is read back as it was written.

  A type is carried by a schema when what is written for its values fits the schema and is
  read back from the data as the same value (`Carries`); lists, options, sets and variants
  of what is carried are carried, and so is each record of the data model. What stands
  between such a value and its document is then the depth alone: only types with members
  within members nest deeper than seven (`nesting_render_le`), and the reader goes 127 deep.
-/

import StageRig.Proofs.Document.Kind

namespace StageRig

open Datum Schema

/-! ## What is carried -/

/-- What is written for a value fits a schema and is read back as that value. -/
structure Carries {α : Type} (s : Schema RecordName) (write : α → Datum) (read : Datum → α) : Prop where
  fits : ∀ a, Fits RecordName.spec s (write a)
  reads : ∀ a, read (write a) = a

theorem carries_number : Carries .number .number toNumber := ⟨fun _ => rfl, fun _ => rfl⟩

theorem carries_text : Carries .text .text toText := ⟨fun _ => rfl, fun _ => rfl⟩

section

variable {α : Type} {s : Schema RecordName} {write : α → Datum} {read : Datum → α}

theorem carries_variant [DecidableEq α] {all : List α} {key : α → String} (hall : ∀ a, a ∈ all)
    (hkeys : (all.map key).Nodup) (x : α) :
    Carries (.variant (all.map key)) (fun a => .variant (all.idxOf a)) (fun d => all.getD d.toIndex x) where
  fits a := ⟨_, rfl, hkeys, by simpa using List.idxOf_lt_length_of_mem (hall a)⟩
  reads a := by
    have hlt : all.idxOf a < all.length := List.idxOf_lt_length_of_mem (hall a)
    rw [toIndex, List.getD_eq_getElem _ _ hlt, List.getElem_idxOf hlt]

theorem Carries.list (h : Carries s write read) :
    Carries (.list s) (fun l => .list (l.map write)) (fun d => d.toItems.map read) where
  fits l := ⟨s, rfl, allFit_iff.mpr (List.forall_mem_map.mpr fun a _ => h.fits a)⟩
  reads l := by
    rw [toItems, List.map_map]
    exact List.map_id'' h.reads l

theorem Carries.set {key : α → Nat} (h : Carries s write read) :
    Carries (.list s) (fun t : OrderedSet key => .list (t.elems.map write)) (fun d => .ofList (d.toItems.map read)) where
  fits t := h.list.fits t.elems
  reads t := by
    rw [h.list.reads t.elems, OrderedSet.ofList_elems]

theorem Carries.option (h : Carries s write read) (habsent : ∀ a, write a ≠ .absent) :
    Carries (.optional s) (ofOption write) (toOption read) where
  fits o := by
    cases o with
    | none => rfl
    | some a => exact fits_optional (h.fits a)
  reads o := by
    cases o with
    | none => rfl
    | some a =>
      have hsome : toOption read (write a) = some (read (write a)) := by
        cases hwrite : write a with
        | absent => exact absurd hwrite (habsent a)
        | _ => rfl
      rw [ofOption, hsome, h.reads]

end

theorem carries_stage : Carries .stage Stage.toDatum Stage.ofDatum := carries_variant Stage.mem_all Stage.nodup_keys .other

theorem carries_format : Carries .format Format.toDatum Format.ofDatum :=
  carries_variant Format.mem_all Format.nodup_names .undefined

theorem carries_shape : Carries .shape Shape.toDatum Shape.ofDatum := carries_variant Shape.mem_all Shape.nodup_keys .other

theorem carries_component : Carries .component Component.toDatum Component.ofDatum :=
  carries_variant Component.mem_all Component.nodup_keys .bool

theorem carries_descriptorKind : Carries .descriptorKind DescriptorKind.toDatum DescriptorKind.ofDatum :=
  carries_variant DescriptorKind.mem_all DescriptorKind.nodup_keys .sampler

theorem carries_stageSet : Carries .stages StageSet.toDatum StageSet.ofDatum := carries_stage.set

theorem carries_indexSet : Carries .numbers IndexSet.toDatum IndexSet.ofDatum := carries_number.set

/-! ## Records -/

theorem carries_entryPoint : Carries (.record .entryPoint) EntryPoint.toDatum EntryPoint.ofDatum where
  fits e := fits_record (.cons (carries_text.fits e.name) <| .cons (carries_stage.fits e.stage) .nil)
  reads e := by
    simp [EntryPoint.toDatum, EntryPoint.ofDatum, field, toText, carries_stage.reads]

theorem carries_scalarTraits : Carries (.record .scalarTraits) ScalarTraits.toDatum ScalarTraits.ofDatum where
  fits t := fits_record (.cons ((carries_component.option nofun).fits t.component?) <| .cons rfl <| .cons rfl .nil)
  reads t := by
    simp [ScalarTraits.toDatum, ScalarTraits.ofDatum, field, toNumber, (carries_component.option nofun).reads]

theorem carries_matrixTraits : Carries (.record .matrixTraits) MatrixTraits.toDatum MatrixTraits.ofDatum where
  fits _ := fits_record (.cons rfl <| .cons rfl .nil)
  reads _ := rfl

theorem fits_vectorTraits (n : UInt32) : Fits RecordName.spec (.record .vectorTraits) (.record [.number n]) :=
  fits_record (.cons rfl .nil)

theorem fits_arrayTraits (dims : List UInt32) : Fits RecordName.spec (.record .arrayTraits) (.record [.list (dims.map .number)]) :=
  fits_record (.cons (carries_number.list.fits dims) .nil)

mutual

theorem TypeTree.fits_toDatum : ∀ t : TypeTree, Fits RecordName.spec (.record .typeTree) t.toDatum
  | .node h ms => fits_record <|
    .cons ((carries_text.option nofun).fits h.typeName?) <| .cons ((carries_text.option nofun).fits h.memberName?) <|
    .cons (carries_shape.fits h.shape) <| .cons (carries_scalarTraits.fits h.scalar) <| .cons (fits_vectorTraits h.vectorSize) <|
    .cons (carries_matrixTraits.fits h.matrix) <| .cons (fits_arrayTraits h.dims) <|
    .cons ⟨_, rfl, TypeTree.fits_listToDatum ms⟩ .nil

theorem TypeTree.fits_listToDatum : ∀ ts : List TypeTree, AllFit RecordName.spec (.record .typeTree) (TypeTree.listToDatum ts)
  | [] => trivial
  | t :: ts => ⟨TypeTree.fits_toDatum t, TypeTree.fits_listToDatum ts⟩

end

theorem TypeHead.ofDatum_toDatum (h : TypeHead) :
    TypeHead.ofDatum (.record [ofOption .text h.typeName?, ofOption .text h.memberName?, h.shape.toDatum, h.scalar.toDatum,
      .record [.number h.vectorSize], h.matrix.toDatum, .record [.list (h.dims.map .number)]]) = h := by
  have hdims := carries_number.list.reads h.dims
  simp [TypeHead.ofDatum, field, toNumber, (carries_text.option nofun).reads, carries_shape.reads, carries_scalarTraits.reads,
    carries_matrixTraits.reads, hdims]

mutual

theorem TypeTree.ofDatum_toDatum : ∀ t : TypeTree, TypeTree.ofDatum t.toDatum = t
  | .node h ms => by rw [TypeTree.toDatum, TypeTree.ofDatum, TypeHead.ofDatum_toDatum, TypeTree.listOfDatum_listToDatum ms]

theorem TypeTree.listOfDatum_listToDatum : ∀ ts : List TypeTree, TypeTree.listOfDatum (TypeTree.listToDatum ts) = ts
  | [] => rfl
  | t :: ts => by rw [TypeTree.listToDatum, TypeTree.listOfDatum, TypeTree.ofDatum_toDatum t, TypeTree.listOfDatum_listToDatum ts]

end

theorem carries_typeTree : Carries (.record .typeTree) TypeTree.toDatum TypeTree.ofDatum :=
  ⟨TypeTree.fits_toDatum, TypeTree.ofDatum_toDatum⟩

theorem TypeTree.toDatum_ne_absent (t : TypeTree) : t.toDatum ≠ .absent := by
  cases t
  rw [TypeTree.toDatum]
  nofun

theorem carries_slot : Carries (.record .slot) Slot.toDatum Slot.ofDatum where
  fits s := fits_record <|
    .cons rfl <| .cons rfl <| .cons ((carries_number.option nofun).fits s.component?) <|
    .cons ((carries_text.option nofun).fits s.builtIn?) <| .cons (carries_format.fits s.format) <|
    .cons ((carries_typeTree.option TypeTree.toDatum_ne_absent).fits s.type?) .nil
  reads s := by
    simp [Slot.toDatum, Slot.ofDatum, field, toText, toNumber, (carries_number.option nofun).reads, (carries_text.option nofun).reads,
      carries_format.reads, (carries_typeTree.option TypeTree.toDatum_ne_absent).reads]

theorem carries_binding : Carries (.record .binding) Binding.toDatum Binding.ofDatum where
  fits b := fits_record <|
    .cons rfl <| .cons rfl <| .cons rfl <| .cons (carries_descriptorKind.fits b.kind) <|
    .cons (carries_number.list.fits b.dims) <| .cons ((carries_number.option nofun).fits b.attachmentIndex?) .nil
  reads b := by
    have hdims := carries_number.list.reads b.dims
    simp [Binding.toDatum, Binding.ofDatum, field, toText, toNumber, carries_descriptorKind.reads, hdims,
      (carries_number.option nofun).reads]

theorem carries_pushBlock : Carries (.record .pushBlock) PushBlock.toDatum PushBlock.ofDatum where
  fits _ := fits_record (.cons rfl <| .cons rfl <| .cons rfl .nil)
  reads _ := rfl

theorem carries_reflection : Carries (.record .reflection) Reflection.toDatum Reflection.ofDatum where
  fits r := fits_record <|
    .cons rfl <| .cons (carries_stage.fits r.stage) <| .cons (carries_entryPoint.list.fits r.entryPoints) <|
    .cons (carries_slot.list.fits r.inputs) <| .cons (carries_slot.list.fits r.outputs) <|
    .cons (carries_binding.list.fits r.bindings) <| .cons (carries_pushBlock.list.fits r.pushBlocks) .nil
  reads r := by
    have hentryPoints := carries_entryPoint.list.reads r.entryPoints
    have hinputs := carries_slot.list.reads r.inputs
    have houtputs := carries_slot.list.reads r.outputs
    have hbindings := carries_binding.list.reads r.bindings
    have hpushBlocks := carries_pushBlock.list.reads r.pushBlocks
    simp only [Reflection.toDatum, Reflection.ofDatum, field, toText, List.getD_cons_zero, List.getD_cons_succ, carries_stage.reads,
      hentryPoints, hinputs, houtputs, hbindings, hpushBlocks]

theorem carries_requirement : Carries (.record .requirement) Requirement.toDatum Requirement.ofDatum where
  fits r := fits_record <|
    .cons rfl <| .cons rfl <| .cons (carries_descriptorKind.fits r.kind) <| .cons rfl <| .cons (carries_stageSet.fits r.stages) <|
    .cons ((carries_number.option nofun).fits r.attachmentIndex?) .nil
  reads r := by
    simp [Requirement.toDatum, Requirement.ofDatum, field, toNumber, carries_descriptorKind.reads, carries_stageSet.reads,
      (carries_number.option nofun).reads]

theorem carries_setLayout : Carries (.record .setLayout) SetLayout.toDatum SetLayout.ofDatum where
  fits l := fits_record (.cons (carries_requirement.list.fits l.bindings) .nil)
  reads l := congrArg SetLayout.mk (carries_requirement.list.reads l.bindings)

theorem carries_pushRange : Carries (.record .pushRange) PushRange.toDatum PushRange.ofDatum where
  fits r := fits_record (.cons (carries_stageSet.fits r.stages) <| .cons rfl <| .cons rfl .nil)
  reads r := by
    simp [PushRange.toDatum, PushRange.ofDatum, field, toNumber, carries_stageSet.reads]

theorem carries_pipelineLayout : Carries (.record .pipelineLayout) PipelineLayout.toDatum PipelineLayout.ofDatum where
  fits l := fits_record (.cons (carries_setLayout.list.fits l.sets) <| .cons (carries_pushRange.list.fits l.pushRanges) .nil)
  reads l := congrArg₂ PipelineLayout.mk (carries_setLayout.list.reads l.sets) (carries_pushRange.list.reads l.pushRanges)

theorem carries_summary : Carries (.record .summary) Summary.toDatum Summary.ofDatum where
  fits s := fits_record <|
    .cons rfl <| .cons (carries_stage.fits s.stage) <| .cons rfl <| .cons (carries_stage.list.fits s.pipelineStages) <|
    .cons (carries_pipelineLayout.fits s.layout) <| .cons (carries_indexSet.fits s.attachments) .nil
  reads s := by
    have hstages := carries_stage.list.reads s.pipelineStages
    simp only [Summary.toDatum, Summary.ofDatum, field, toText, List.getD_cons_zero, List.getD_cons_succ, carries_stage.reads, hstages,
      carries_pipelineLayout.reads, carries_indexSet.reads]

/-- Every type of the data model is carried by its schema. -/
theorem carries_codec (k : DocumentKind) : Carries k.codec.schema k.codec.toDatum k.codec.ofDatum := by
  cases k
  case reflection => exact carries_reflection
  case entryPoint => exact carries_entryPoint
  case slot => exact carries_slot
  case typeTree => exact carries_typeTree
  case binding => exact carries_binding
  case pushBlock => exact carries_pushBlock
  case pipelineLayout => exact carries_pipelineLayout
  case summary => exact carries_summary
  case stageSet => exact carries_stageSet

/-! ## Depth -/

mutual

/-- How many levels of members a type has. -/
def TypeTree.memberDepth : TypeTree → Nat
  | .node _ ms => TypeTree.listMemberDepth ms

def TypeTree.listMemberDepth : List TypeTree → Nat
  | [] => 0
  | t :: ts => max (t.memberDepth + 1) (TypeTree.listMemberDepth ts)

end

def Slot.memberDepth (s : Slot) : Nat := s.type?.elim 0 TypeTree.memberDepth

def Reflection.memberDepth (r : Reflection) : Nat := ((r.inputs ++ r.outputs).map Slot.memberDepth).foldr max 0

/-- How many levels of members the types of a value have. -/
def DocumentKind.memberDepth : (k : DocumentKind) → k.Value → Nat
  | reflection, r => Reflection.memberDepth r
  | slot, s => Slot.memberDepth s
  | typeTree, t => TypeTree.memberDepth t
  | _, _ => 0

theorem depth_ofOption_le {α : Type} {write : α → Datum} {n : Nat} {o : Option α} (h : ∀ a ∈ o, (write a).depth ≤ n) :
    (ofOption write o).depth ≤ n := by
  cases o with
  | none => exact Nat.zero_le n
  | some a => exact h a rfl

theorem depth_ofOption {α : Type} {write : α → Datum} (h : ∀ a, (write a).depth = 0) (o : Option α) :
    (ofOption write o).depth = 0 :=
  Nat.le_zero.mp (depth_ofOption_le fun a _ => Nat.le_of_eq (h a))

theorem depth_numbers_le (ns : List UInt32) : (list (ns.map .number)).depth ≤ 1 := depth_list_le fun _ _ => Nat.le_refl 0

theorem depth_stages_le (stages : List Stage) : (list (stages.map Stage.toDatum)).depth ≤ 1 :=
  depth_list_le fun _ _ => Nat.le_refl 0

theorem depth_scalarTraits (t : ScalarTraits) : t.toDatum.depth = 1 := by
  have hcomponent := depth_ofOption (fun _ => rfl : ∀ c, (Component.toDatum c).depth = 0) t.component?
  simp [ScalarTraits.toDatum, depth, listDepth, hcomponent]

mutual

/-- The deepest of what each type has but members is an array's list of dimensions. -/
theorem depth_typeTree_le : ∀ t : TypeTree, t.toDatum.depth ≤ 3 + 2 * t.memberDepth
  | .node h ms => by
    have htypeName := depth_ofOption (fun _ => rfl : ∀ s, (text s).depth = 0) h.typeName?
    have hmemberName := depth_ofOption (fun _ => rfl : ∀ s, (text s).depth = 0) h.memberName?
    have hscalar := depth_scalarTraits h.scalar
    have hdims := depth_numbers_le h.dims
    have hmembers := listDepth_typeTrees_le ms
    simp only [TypeTree.toDatum, Shape.toDatum, MatrixTraits.toDatum, TypeTree.memberDepth, depth, listDepth] at *
    omega

theorem listDepth_typeTrees_le : ∀ ts : List TypeTree, listDepth (TypeTree.listToDatum ts) ≤ 1 + 2 * TypeTree.listMemberDepth ts
  | [] => Nat.zero_le _
  | t :: ts => by
    have ht := depth_typeTree_le t
    have hts := listDepth_typeTrees_le ts
    rw [TypeTree.listToDatum, listDepth, TypeTree.listMemberDepth]
    omega

end

theorem depth_entryPoint_le (e : EntryPoint) : e.toDatum.depth ≤ 1 := Nat.le_refl 1

theorem depth_slot_le (s : Slot) : s.toDatum.depth ≤ 4 + 2 * s.memberDepth := by
  have hcomponent := depth_ofOption (fun _ => rfl : ∀ n, (number n).depth = 0) s.component?
  have hbuiltIn := depth_ofOption (fun _ => rfl : ∀ s, (text s).depth = 0) s.builtIn?
  have htype : (ofOption TypeTree.toDatum s.type?).depth ≤ 3 + 2 * s.memberDepth := by
    refine depth_ofOption_le fun t ht => ?_
    rw [Slot.memberDepth, Option.mem_def.mp ht]
    exact depth_typeTree_le t
  simp only [Slot.toDatum, Format.toDatum, depth, listDepth]
  omega

theorem depth_binding_le (b : Binding) : b.toDatum.depth ≤ 2 := by
  have hdims := depth_numbers_le b.dims
  have hindex := depth_ofOption (fun _ => rfl : ∀ n, (number n).depth = 0) b.attachmentIndex?
  simp only [Binding.toDatum, DescriptorKind.toDatum, depth, listDepth] at *
  omega

theorem depth_pushBlock_le (b : PushBlock) : b.toDatum.depth ≤ 1 := Nat.le_refl 1

theorem depth_requirement_le (r : Requirement) : r.toDatum.depth ≤ 2 := by
  have hstages := depth_stages_le r.stages.elems
  have hindex := depth_ofOption (fun _ => rfl : ∀ n, (number n).depth = 0) r.attachmentIndex?
  simp only [Requirement.toDatum, DescriptorKind.toDatum, StageSet.toDatum, depth, listDepth] at *
  omega

theorem depth_setLayout_le (l : SetLayout) : l.toDatum.depth ≤ 4 := by
  have hbindings := depth_list_le fun x (_ : x ∈ l.bindings) => depth_requirement_le x
  simp only [SetLayout.toDatum, depth, listDepth] at *
  omega

theorem depth_pushRange_le (r : PushRange) : r.toDatum.depth ≤ 2 := by
  have hstages := depth_stages_le r.stages.elems
  simp only [PushRange.toDatum, StageSet.toDatum, depth, listDepth] at *
  omega

theorem depth_pipelineLayout_le (l : PipelineLayout) : l.toDatum.depth ≤ 6 := by
  have hsets := depth_list_le fun x (_ : x ∈ l.sets) => depth_setLayout_le x
  have hranges := depth_list_le fun x (_ : x ∈ l.pushRanges) => depth_pushRange_le x
  simp only [PipelineLayout.toDatum, depth, listDepth] at *
  omega

theorem depth_summary_le (s : Summary) : s.toDatum.depth ≤ 7 := by
  have hstages := depth_stages_le s.pipelineStages
  have hlayout := depth_pipelineLayout_le s.layout
  have hattachments := depth_numbers_le s.attachments.elems
  simp only [Summary.toDatum, Stage.toDatum, IndexSet.toDatum, depth, listDepth] at *
  omega

theorem le_foldr_max {n : Nat} {ns : List Nat} (h : n ∈ ns) : n ≤ ns.foldr max 0 := by
  induction ns with
  | nil => cases h
  | cons m ns ih =>
    rcases List.mem_cons.mp h with rfl | h
    · exact Nat.le_max_left _ _
    · exact (ih h).trans (Nat.le_max_right _ _)

theorem depth_reflection_le (r : Reflection) : r.toDatum.depth ≤ 6 + 2 * r.memberDepth := by
  have hslot : ∀ s ∈ r.inputs ++ r.outputs, s.toDatum.depth ≤ 4 + 2 * r.memberDepth := by
    intro s hs
    have hle : s.memberDepth ≤ r.memberDepth := le_foldr_max (List.mem_map_of_mem hs)
    have hdepth := depth_slot_le s
    omega
  have hentryPoints := depth_list_le fun e (_ : e ∈ r.entryPoints) => depth_entryPoint_le e
  have hinputs := depth_list_le fun s (hs : s ∈ r.inputs) => hslot s (List.mem_append_left _ hs)
  have houtputs := depth_list_le fun s (hs : s ∈ r.outputs) => hslot s (List.mem_append_right _ hs)
  have hbindings := depth_list_le fun b (_ : b ∈ r.bindings) => depth_binding_le b
  have hpushBlocks := depth_list_le fun b (_ : b ∈ r.pushBlocks) => depth_pushBlock_le b
  simp only [Reflection.toDatum, Stage.toDatum, depth, listDepth] at *
  omega

/-- Only members within members make a document deep. -/
theorem depth_codec_le (k : DocumentKind) (v : k.Value) : (k.codec.toDatum v).depth ≤ 7 + 2 * k.memberDepth v := by
  cases k
  case reflection => exact (depth_reflection_le v).trans (Nat.add_le_add_right (by decide) _)
  case entryPoint => exact (depth_entryPoint_le v).trans (Nat.le_add_right_of_le (by decide))
  case slot => exact (depth_slot_le v).trans (Nat.add_le_add_right (by decide) _)
  case typeTree => exact (depth_typeTree_le v).trans (Nat.add_le_add_right (by decide) _)
  case binding => exact (depth_binding_le v).trans (Nat.le_add_right_of_le (by decide))
  case pushBlock => exact (depth_pushBlock_le v).trans (Nat.le_add_right_of_le (by decide))
  case pipelineLayout => exact (depth_pipelineLayout_le v).trans (Nat.le_add_right_of_le (by decide))
  case summary => exact depth_summary_le v
  case stageSet => exact (depth_stages_le v.elems).trans (Nat.le_add_right_of_le (by decide))

/-! ## The round trip -/

theorem DocumentKind.load_render (k : DocumentKind) (v : k.Value) :
    k.codec.load (k.codec.render v) = if Json.nesting (k.codec.render v) ≤ depthLimit then .ok v else .error .malformed := by
  have hload := Schema.load_render RecordName.sound_spec ((carries_codec k).fits v)
  rw [Codec.load, Codec.render, hload]
  split
  · rw [Except.map, (carries_codec k).reads]
  · rfl

theorem DocumentKind.nesting_render_le (k : DocumentKind) (v : k.Value) :
    Json.nesting (k.codec.render v) ≤ 7 + 2 * k.memberDepth v :=
  (Schema.nesting_render_le _ _).trans (depth_codec_le k v)

theorem DocumentKind.load_render_of_shallow (k : DocumentKind) (v : k.Value) (h : k.memberDepth v = 0) :
    k.codec.load (k.codec.render v) = .ok v := by
  have hnesting := k.nesting_render_le v
  rw [k.load_render, if_pos]
  rw [h] at hnesting
  exact hnesting.trans (by decide)

/-- A document is read back as the value it was written for when it nests at most 127 containers, and is malformed when it
nests more. It takes members within members to nest more than seven, and layouts, sets of stages and summaries have none. -/
theorem load_written :
    (∀ (k : DocumentKind) (v : k.Value),
      k.codec.load (k.codec.render v) = (if Json.nesting (k.codec.render v) ≤ 127 then .ok v else .error .malformed) ∧
      Json.nesting (k.codec.render v) ≤ 7 + 2 * k.memberDepth v) ∧
    (∀ l : PipelineLayout, Codec.pipelineLayout.load (Codec.pipelineLayout.render l) = .ok l) ∧
    (∀ s : StageSet, Codec.stageSet.load (Codec.stageSet.render s) = .ok s) ∧
    (∀ s : Summary, Codec.summary.load (Codec.summary.render s) = .ok s) := by
  refine ⟨fun k v => ⟨k.load_render v, k.nesting_render_le v⟩, fun l => ?_, fun s => ?_, fun s => ?_⟩
  · exact DocumentKind.load_render_of_shallow .pipelineLayout l rfl
  · exact DocumentKind.load_render_of_shallow .stageSet s rfl
  · exact DocumentKind.load_render_of_shallow .summary s rfl

end StageRig
