/-
  StageRig.Proofs.Interface — what an interface is made of.

  - `interface_ok_iff`: a reflection has an interface exactly when it has one entry point,
    every set index is usable and no descriptor count overflows.
  - `exists_arranged`: the variables of an interface are those of the reflection that are
    no built-ins, by location and then by position.
-/

import Mathlib.Data.List.Forall2
import StageRig.Interface
import StageRig.Proofs.Outcome
import StageRig.Proofs.StableSort

namespace StageRig

/-! ## The parts of an interface -/

theorem result_forM_note {ε : Type} (notes : List Note) :
    (notes.forM fun n => (Traced.note n.level n.text : Traced ε Unit)).result = .ok () := by
  induction notes with
  | nil => rfl
  | cons n notes ih => exact ih

theorem entryPoint_ok_iff {r : Reflection} {entry : EntryPoint} :
    r.entryPoint = .ok entry ↔ r.entryPoints = [entry] ∧ ∀ b ∈ r.bindings, b.set < setLimit := by
  rw [Reflection.entryPoint]
  rcases r.entryPoints with _ | ⟨e, _ | ⟨e', es⟩⟩
  · simp
  · dsimp only
    cases hb : r.bindings.find? (setLimit ≤ ·.set) with
    | none =>
      have hgood : ∀ b ∈ r.bindings, b.set < setLimit := by simpa using hb
      simpa using fun _ => hgood
    | some b =>
      have hbad : ∃ b ∈ r.bindings, setLimit ≤ b.set :=
        ⟨b, List.mem_of_find?_eq_some hb, by simpa using List.find?_some hb⟩
      simpa using fun _ => hbad
  · simp

theorem interface_ok_iff {r : Reflection} {i : Interface} :
    r.interface.result = .ok (.ok i) ↔
      ∃ entry rs, r.entryPoint = .ok entry ∧ (collect entry.stage r.bindings []).result = .ok rs ∧
        i =
          { stage := entry.stage
            entryPoint := entry.name
            inputs := interfaceSlots r.inputs
            outputs := interfaceSlots r.outputs
            layout := { sets := setLayouts rs, pushRanges := r.pushBlocks.map (·.range entry.stage) }
            attachments := .ofList ((rs.flatMap (·.attachments)).mergeSort fun a b => a ≤ b) } := by
  rw [Reflection.interface]
  rcases r.entryPoint with skip | entry
  · simp
  · simp only [Traced.result_bind, bind_eq_ok_iff, result_forM_note, Traced.result_pure, Except.ok.injEq]
    constructor
    · intro h
      obtain ⟨rs, hrs, _, _, rfl⟩ := h
      exact ⟨entry, rs, rfl, hrs, rfl⟩
    · intro h
      obtain ⟨_, rs, rfl, hrs, rfl⟩ := h
      exact ⟨rs, hrs, (), trivial, rfl⟩

/-! ## Variables by location -/

/-- `order` holds the positions of the variables of `slots` that are neither tagged as built-ins nor named like
one, by location and then by position. -/
structure Arranged (slots : List Slot) (order : List Nat) : Prop where
  mem : ∀ i, i ∈ order ↔ ∃ s, slots[i]? = some s ∧ s.builtIn? = none ∧ ¬ "gl_".toList <+: s.name.toList
  sorted : order.Pairwise fun i j => ∃ s u, slots[i]? = some s ∧ slots[j]? = some u ∧
    (s.location < u.location ∨ s.location = u.location ∧ i < j)

/-- No position occurs twice. -/
theorem Arranged.nodup {slots : List Slot} {order : List Nat} (h : Arranged slots order) : order.Nodup := by
  refine h.sorted.imp ?_
  intro i j h hij
  subst hij
  obtain ⟨s, u, hs, hu, hlt⟩ := h
  cases hs.symm.trans hu
  rcases hlt with hlt | ⟨_, hlt⟩
  · exact UInt32.lt_irrefl _ hlt
  · exact Nat.lt_irrefl _ hlt

theorem isBuiltIn_eq_false_iff {s : Slot} :
    s.isBuiltIn = false ↔ s.builtIn? = none ∧ ¬ "gl_".toList <+: s.name.toList := by
  simp only [Slot.isBuiltIn, builtInStem, Bool.or_eq_false_iff, Option.isSome_eq_false_iff, Option.isNone_iff_eq_none,
    ← List.isPrefixOf_iff_prefix, Bool.not_eq_true]

theorem pairwise_zipIdx {α : Type} (l : List α) : l.zipIdx.Pairwise fun x y => x.2 < y.2 := by
  have h : (l.zipIdx.map Prod.snd).Pairwise (· < ·) := by
    rw [List.zipIdx_map_snd]
    exact List.pairwise_lt_range'
  exact List.pairwise_map.mp h

theorem exists_arranged (slots : List Slot) :
    ∃ order, Arranged slots order ∧ List.Forall₂ (fun i s => slots[i]? = some s) order (interfaceSlots slots) := by
  -- the variables together with their positions, sorted in the same way
  let kept : List (Slot × Nat) := slots.zipIdx.filter fun x => !x.1.isBuiltIn
  let sorted : List (Slot × Nat) := kept.mergeSort fun x y => x.1.location ≤ y.1.location
  have hmem : ∀ s i, (s, i) ∈ sorted ↔ slots[i]? = some s ∧ s.isBuiltIn = false := by
    intro s i
    simp only [sorted, kept, List.mem_mergeSort, List.mem_filter, List.mk_mem_zipIdx_iff_getElem?, Bool.not_eq_true']
  have hslots : sorted.map Prod.fst = interfaceSlots slots := by
    have hfilter : kept.map Prod.fst = slots.filter (!·.isBuiltIn) := by
      have h := List.filter_map (f := Prod.fst) (p := fun s : Slot => !s.isBuiltIn) (l := slots.zipIdx)
      rw [List.zipIdx_map_fst] at h
      exact h.symm
    rw [interfaceSlots, ← hfilter]
    exact List.map_mergeSort fun _ _ _ _ => rfl
  have hsorted : sorted.Pairwise fun x y =>
      x.1.location < y.1.location ∨ x.1.location = y.1.location ∧ x.2 < y.2 := by
    have htrans : ∀ x y z : Slot × Nat, decide (x.1.location ≤ y.1.location) → decide (y.1.location ≤ z.1.location) →
        decide (x.1.location ≤ z.1.location) := by
      intro x y z hxy hyz
      exact decide_eq_true (UInt32.le_trans (of_decide_eq_true hxy) (of_decide_eq_true hyz))
    have htotal : ∀ x y : Slot × Nat, decide (x.1.location ≤ y.1.location) || decide (y.1.location ≤ x.1.location) := by
      intro x y
      simpa using UInt32.le_total x.1.location y.1.location
    refine (pairwise_mergeSort_stable htrans htotal ((pairwise_zipIdx slots).filter _)).imp ?_
    intro x y ⟨hle, hlt⟩
    rcases UInt32.lt_or_eq_of_le (of_decide_eq_true hle) with h | h
    · exact Or.inl h
    · exact Or.inr ⟨h, hlt (decide_eq_true (h ▸ UInt32.le_refl _))⟩
  refine ⟨sorted.map Prod.snd, ⟨?_, ?_⟩, ?_⟩
  · intro i
    simp only [List.mem_map, Prod.exists, exists_eq_right, hmem, isBuiltIn_eq_false_iff]
  · rw [List.pairwise_map]
    refine List.Pairwise.imp_of_mem ?_ hsorted
    intro ⟨s, i⟩ ⟨u, j⟩ hs hu hlt
    exact ⟨s, u, ((hmem s i).mp hs).1, ((hmem u j).mp hu).1, hlt⟩
  · rw [← hslots, List.forall₂_map_left_iff, List.forall₂_map_right_iff, List.forall₂_same]
    intro ⟨s, i⟩ hs
    exact ((hmem s i).mp hs).1

end StageRig
