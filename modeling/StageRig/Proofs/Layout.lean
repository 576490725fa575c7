/-
  StageRig.Proofs.Layout — the pipeline layout is what the bindings need.

  - `setLayouts` lists the sets by position, up to the last one in use
    (`length_setLayouts`, `getElem?_setLayouts`).
  - `layout_complete`: the layout of an interface holds one requirement for each pair of
    set and binding that is reflected, in order, and one range for each push block.
-/

import StageRig.Proofs.Interface
import StageRig.Proofs.Requirements

namespace StageRig

/-! ## Sets by position -/

/-- One past the last of some set indices. -/
def setCount (sets : List UInt32) : Nat :=
  match (sets.map UInt32.toNat).max? with
  | none => 0
  | some last => last + 1

theorem lt_setCount_iff {sets : List UInt32} {n : Nat} : n < setCount sets ↔ ∃ s ∈ sets, n ≤ s.toNat := by
  rw [setCount]
  cases h : (sets.map UInt32.toNat).max? with
  | none =>
    rw [List.max?_eq_none_iff, List.map_eq_nil_iff] at h
    simp [h]
  | some last =>
    obtain ⟨hmem, hle⟩ := List.max?_eq_some_iff.mp h
    obtain ⟨s, hs, rfl⟩ := List.mem_map.mp hmem
    constructor
    · intro hn
      exact ⟨s, hs, Nat.le_of_lt_succ hn⟩
    · intro h
      obtain ⟨u, hu, hn⟩ := h
      exact Nat.lt_succ_of_le (Nat.le_trans hn (hle _ (List.mem_map_of_mem hu)))

/-- The number of sets depends only on which indices there are. -/
theorem setCount_congr {sets sets' : List UInt32} (h : ∀ s, s ∈ sets ↔ s ∈ sets') : setCount sets = setCount sets' := by
  have hlt : ∀ n, n < setCount sets ↔ n < setCount sets' := by
    intro n
    simp only [lt_setCount_iff, h]
  exact Nat.le_antisymm (Nat.le_of_not_lt fun hlt' => Nat.lt_irrefl _ ((hlt _).mp hlt'))
    (Nat.le_of_not_lt fun hlt' => Nat.lt_irrefl _ ((hlt _).mpr hlt'))

theorem length_setLayouts (rs : List Requirement) : (setLayouts rs).length = setCount (rs.map (·.set)) := by
  rw [setLayouts, setCount, List.map_map]
  show _ = match (rs.map (·.set.toNat)).max? with | none => 0 | some last => last + 1
  cases (rs.map (·.set.toNat)).max? with
  | none => rfl
  | some last => simp

theorem getElem?_setLayouts {rs : List Requirement} {s : Nat} {layout : SetLayout}
    (h : (setLayouts rs)[s]? = some layout) : layout = ⟨rs.filter (·.set.toNat = s)⟩ := by
  rw [setLayouts] at h
  cases hmax : (rs.map (·.set.toNat)).max? with
  | none => simp [hmax] at h
  | some last =>
    simp only [hmax, List.getElem?_map, Option.map_eq_some_iff] at h
    obtain ⟨i, hi, rfl⟩ := h
    obtain ⟨_, rfl⟩ := List.getElem?_eq_some_iff.mp hi
    simp

/-- The sets hold the requirements they are made of and no others. -/
theorem mem_setLayouts_iff {rs : List Requirement} {q : Requirement} :
    (∃ layout ∈ setLayouts rs, q ∈ layout.bindings) ↔ q ∈ rs := by
  constructor
  · intro h
    obtain ⟨layout, hl, hq⟩ := h
    obtain ⟨s, hs⟩ := List.mem_iff_getElem?.mp hl
    rw [getElem?_setLayouts hs] at hq
    exact (List.mem_filter.mp hq).1
  · intro hq
    have hlt : q.set.toNat < (setLayouts rs).length := by
      rw [length_setLayouts, lt_setCount_iff]
      exact ⟨q.set, List.mem_map_of_mem hq, Nat.le_refl _⟩
    have hs := List.getElem?_eq_getElem hlt
    refine ⟨_, List.mem_of_getElem? hs, ?_⟩
    rw [getElem?_setLayouts hs]
    exact List.mem_filter.mpr ⟨hq, decide_eq_true rfl⟩

/-! ## The layout of a shader -/

/-- The sets hold what the bindings `bs` of a shader of stage `stage` need. -/
structure LaidOut (stage : Stage) (bs : List Binding) (sets : List SetLayout) : Prop where
  length : sets.length = setCount (bs.map (·.set))
  limit : sets.length ≤ 32
  pairs : ∀ (s : Nat) layout, sets[s]? = some layout → ∀ binding,
    (∃ q ∈ layout.bindings, q.binding = binding) ↔ ∃ b ∈ bs, b.set.toNat = s ∧ b.binding = binding
  ascending : ∀ layout ∈ sets, layout.bindings.Pairwise fun q p => q.binding < p.binding
  position : ∀ (s : Nat) layout, sets[s]? = some layout → ∀ q ∈ layout.bindings, q.set.toNat = s
  merges : ∀ layout ∈ sets, ∀ q ∈ layout.bindings, Merges stage bs q

theorem laidOut_of_gathered {stage : Stage} {bs : List Binding} {rs : List Requirement} (h : Gathered stage bs rs)
    (hlimit : ∀ b ∈ bs, b.set < setLimit) : LaidOut stage bs (setLayouts rs) := by
  have hsets : ∀ s, s ∈ rs.map (·.set) ↔ s ∈ bs.map (·.set) := by
    intro s
    constructor
    · intro hs
      obtain ⟨q, hq, rfl⟩ := List.mem_map.mp hs
      obtain ⟨b, hb, hset, _⟩ := (h.pairs q.set q.binding).mp ⟨q, hq, rfl, rfl⟩
      exact List.mem_map.mpr ⟨b, hb, hset⟩
    · intro hs
      obtain ⟨b, hb, rfl⟩ := List.mem_map.mp hs
      obtain ⟨q, hq, hset, _⟩ := (h.pairs b.set b.binding).mpr ⟨b, hb, rfl, rfl⟩
      exact List.mem_map.mpr ⟨q, hq, hset⟩
  have hlength : (setLayouts rs).length = setCount (bs.map (·.set)) :=
    (length_setLayouts rs).trans (setCount_congr hsets)
  have hlayout : ∀ layout ∈ setLayouts rs, ∃ s : Nat, layout = ⟨rs.filter (·.set.toNat = s)⟩ := by
    intro layout hl
    obtain ⟨s, hs⟩ := List.mem_iff_getElem?.mp hl
    exact ⟨s, getElem?_setLayouts hs⟩
  exact
    { length := hlength
      limit := by
        rw [hlength]
        refine Nat.le_of_not_lt fun hlt => ?_
        obtain ⟨s, hs, hle⟩ := lt_setCount_iff.mp hlt
        obtain ⟨b, hb, rfl⟩ := List.mem_map.mp hs
        have hb : b.set.toNat < setLimit.toNat := UInt32.lt_iff_toNat_lt.mp (hlimit b hb)
        exact Nat.not_lt.mpr hle hb
      pairs := by
        intro s layout hs binding
        rw [getElem?_setLayouts hs]
        constructor
        · intro h
          obtain ⟨q, hq, rfl⟩ := h
          obtain ⟨hq, hset⟩ := List.mem_filter.mp hq
          obtain ⟨b, hb, hbset, hbinding⟩ := (h.pairs q.set q.binding).mp ⟨q, hq, rfl, rfl⟩
          exact ⟨b, hb, by rw [hbset]; exact of_decide_eq_true hset, hbinding⟩
        · intro h
          obtain ⟨b, hb, rfl, rfl⟩ := h
          obtain ⟨q, hq, hset, hbinding⟩ := (h.pairs b.set b.binding).mpr ⟨b, hb, rfl, rfl⟩
          exact ⟨q, List.mem_filter.mpr ⟨hq, decide_eq_true (congrArg UInt32.toNat hset)⟩, hbinding⟩
      ascending := by
        intro layout hl
        obtain ⟨s, rfl⟩ := hlayout layout hl
        refine List.Pairwise.imp_of_mem ?_ (h.ascending.filter _)
        intro q p hq hp hprec
        have hqs : q.set.toNat = s := of_decide_eq_true (List.mem_filter.mp hq).2
        have hps : p.set.toNat = s := of_decide_eq_true (List.mem_filter.mp hp).2
        rw [Requirement.precedes_iff] at hprec
        rw [UInt32.lt_iff_toNat_lt]
        omega
      position := by
        intro s layout hs q hq
        rw [getElem?_setLayouts hs] at hq
        simpa using (List.mem_filter.mp hq).2
      merges := by
        intro layout hl q hq
        obtain ⟨s, rfl⟩ := hlayout layout hl
        exact h.merges q (List.mem_filter.mp hq).1 }

theorem layout_complete {r : Reflection} {i : Interface} (h : r.interface.result = .ok (.ok i)) :
    ∃ entry, r.entryPoints = [entry] ∧ LaidOut entry.stage r.bindings i.layout.sets ∧
      List.Forall₂ (fun b range => range.stages.toList = [entry.stage] ∧ range.offset = b.offset ∧ range.size = b.size)
        r.pushBlocks i.layout.pushRanges := by
  obtain ⟨entry, rs, hentry, hrs, rfl⟩ := interface_ok_iff.mp h
  obtain ⟨hpoints, hlimit⟩ := entryPoint_ok_iff.mp hentry
  refine ⟨entry, hpoints, laidOut_of_gathered (gathered_of_collect hrs) hlimit, ?_⟩
  rw [List.forall₂_map_right_iff, List.forall₂_same]
  intro b _
  exact ⟨rfl, rfl, rfl⟩

/-- A shader that reflects one pair twice, with different counts and kinds, and leaves a set out. -/
def shadow : Reflection where
  sourceName := "shadow.comp"
  stage := .compute
  entryPoints := [⟨"main", .compute⟩]
  bindings :=
    [ { set := 2, binding := 1, kind := .sampledImage, dims := [3] },
      { set := 0, binding := 5, kind := .uniformBuffer },
      { set := 2, binding := 1, kind := .storageImage, dims := [2, 2] },
      { set := 2, binding := 0, kind := .sampler } ]
  pushBlocks := [{ offset := 16, size := 64 }]

theorem shadow_layout : ∃ i, shadow.interface.result = .ok (.ok i) ∧
    ∃ entry, shadow.entryPoints = [entry] ∧ LaidOut entry.stage shadow.bindings i.layout.sets ∧
      List.Forall₂ (fun b range => range.stages.toList = [entry.stage] ∧ range.offset = b.offset ∧ range.size = b.size)
        shadow.pushBlocks i.layout.pushRanges := by
  have hentry : shadow.entryPoint = .ok ⟨"main", .compute⟩ := by rfl
  have hcollect : ∃ rs, (collect .compute shadow.bindings []).result = .ok rs := ⟨_, rfl⟩
  obtain ⟨rs, hrs⟩ := hcollect
  have hinterface := interface_ok_iff.mpr ⟨_, rs, hentry, hrs, rfl⟩
  exact ⟨_, hinterface, layout_complete hinterface⟩

end StageRig
