/-
  StageRig.Proofs.Relay.Bounds — the array bounds that a variable is declared with.

  A relay takes over the dimensions of an array but for the outermost one. Beside a patch
  that one counts vertices on both sides, and it is left open; a vertex relay has no such
  dimension, and drops it where the tested stage has it.

  - `declaredDims_iff`: the dimensions of a variable are those of this rule (`DeclaredDims`).
  - `brackets_injective`: the dimensions can be read off the brackets that they are written in.
-/

import StageRig.Proofs.Text.Numbers
import StageRig.Relay.Source

namespace StageRig

/-- The description is that of an array. Some reflectors record dimensions without the shape. -/
def TypeHead.Arrayed (h : TypeHead) : Prop := h.shape = .array ∨ h.dims ≠ []

theorem TypeHead.isArray_eq_true_iff {h : TypeHead} : h.isArray = true ↔ h.Arrayed := by
  rw [isArray, Arrayed, Bool.or_eq_true, decide_eq_true_iff, Bool.not_eq_true', List.isEmpty_eq_false_iff]

namespace Relay

open Glsl

/-! ## Dimensions -/

/-- In a relay beside a shader of stage `tested`, the variable is declared with the dimensions `dims`. -/
structure DeclaredDims (r : Relay) (tested : Stage) (slot : Slot) (dims : List UInt32) : Prop where
  /-- Beside a patch the outermost dimension is left open. -/
  opened : ∀ t, slot.type? = some t → t.head.Arrayed → r = .tessControl ∨ r = .tessEval → dims = 0 :: t.head.dims.tail
  dropped : ∀ t, slot.type? = some t → t.head.Arrayed → r = .vertex →
    tested = .geometry ∨ tested = .tessControl ∨ tested = .tessEval → dims = t.head.dims.tail
  kept : ∀ t, slot.type? = some t → t.head.Arrayed → r = .vertex →
    ¬ (tested = .geometry ∨ tested = .tessControl ∨ tested = .tessEval) → dims = t.head.dims
  single : (∀ t, slot.type? = some t → ¬ t.head.Arrayed) → dims = []

section

variable {r : Relay} {tested : Stage} {slot : Slot} {dims dims' : List UInt32}

theorem perVertex_eq_true_iff : r.perVertex = true ↔ r = .tessControl ∨ r = .tessEval := by
  cases r <;> decide

theorem hasPerVertexInputs_eq_true_iff :
    tested.hasPerVertexInputs = true ↔ tested = .geometry ∨ tested = .tessControl ∨ tested = .tessEval := by
  cases tested <;> decide

theorem declaredDims_slotDims (r : Relay) (tested : Stage) (slot : Slot) :
    DeclaredDims r tested slot (slotDims r tested slot) where
  opened t ht harray hr := by
    rw [slotDims, ht]
    simp only [TypeHead.isArray_eq_true_iff.mpr harray, perVertex_eq_true_iff.mpr hr, if_true]
  dropped t ht harray hr htested := by
    subst hr
    rw [slotDims, ht]
    simp only [TypeHead.isArray_eq_true_iff.mpr harray, hasPerVertexInputs_eq_true_iff.mpr htested, if_true]
    rfl
  kept t ht harray hr htested := by
    subst hr
    have htested : tested.hasPerVertexInputs = false := by
      rwa [← hasPerVertexInputs_eq_true_iff, Bool.not_eq_true] at htested
    rw [slotDims, ht]
    simp only [TypeHead.isArray_eq_true_iff.mpr harray, htested, if_true]
    rfl
  single hsingle := by
    rw [slotDims]
    rcases ht : slot.type? with _ | t
    · rfl
    · have harray : t.head.isArray = false := by
        rw [← Bool.not_eq_true, TypeHead.isArray_eq_true_iff]
        exact hsingle t ht
      simp only [harray, Bool.false_eq_true, if_false]

/-- The rule leaves no choice. -/
theorem DeclaredDims.unique (h : DeclaredDims r tested slot dims) (h' : DeclaredDims r tested slot dims') :
    dims = dims' := by
  by_cases harray : ∃ t, slot.type? = some t ∧ t.head.Arrayed
  · obtain ⟨t, ht, harray⟩ := harray
    cases r with
    | vertex =>
      by_cases htested : tested = .geometry ∨ tested = .tessControl ∨ tested = .tessEval
      · rw [h.dropped t ht harray rfl htested, h'.dropped t ht harray rfl htested]
      · rw [h.kept t ht harray rfl htested, h'.kept t ht harray rfl htested]
    | tessControl => rw [h.opened t ht harray (Or.inl rfl), h'.opened t ht harray (Or.inl rfl)]
    | tessEval => rw [h.opened t ht harray (Or.inr rfl), h'.opened t ht harray (Or.inr rfl)]
  · have hsingle : ∀ t, slot.type? = some t → ¬ t.head.Arrayed := fun t ht hin => harray ⟨t, ht, hin⟩
    rw [h.single hsingle, h'.single hsingle]

theorem declaredDims_iff : DeclaredDims r tested slot dims ↔ slotDims r tested slot = dims := by
  constructor
  · intro h
    exact (declaredDims_slotDims r tested slot).unique h
  · rintro rfl
    exact declaredDims_slotDims r tested slot

end

/-! ## Brackets -/

/-- A bracket for each dimension, empty where it is zero. -/
def brackets (dims : List UInt32) : String :=
  String.join (dims.map fun n => "[" ++ (if n = 0 then "" else n.toNat.repr) ++ "]")

theorem bounds_eq_brackets (dims : List UInt32) : bounds dims = brackets dims := by
  rw [bounds, brackets]
  congr 2
  funext n
  split <;> rfl

/-- The digits of a dimension. -/
def dimDigits (n : UInt32) : List Char := if n = 0 then [] else n.toNat.repr.toList

theorem isDigit_of_mem_dimDigits {n : UInt32} {c : Char} (h : c ∈ dimDigits n) : c.isDigit = true := by
  rw [dimDigits] at h
  split at h
  · cases h
  · exact isDigit_of_mem_repr h

theorem dimDigits_injective {n n' : UInt32} (h : dimDigits n = dimDigits n') : n = n' := by
  have hne : ∀ m : Nat, m.repr.toList ≠ [] := fun m => by simp [Nat.repr_eq_ofList_toDigits]
  rw [dimDigits, dimDigits] at h
  by_cases h0 : n = 0 <;> by_cases h0' : n' = 0
  · rw [h0, h0']
  · rw [if_pos h0, if_neg h0'] at h
    exact absurd h.symm (hne _)
  · rw [if_neg h0, if_pos h0'] at h
    exact absurd h (hne _)
  · rw [if_neg h0, if_neg h0'] at h
    exact UInt32.toNat_inj.mp (repr_toList_injective h)

theorem toList_brackets (dims : List UInt32) :
    (brackets dims).toList = dims.flatMap fun n => '[' :: (dimDigits n ++ [']']) := by
  rw [brackets, String.toList_join, List.flatMap_map]
  congr 1
  funext n
  rw [dimDigits]
  split <;> simp

theorem brackets_injective {dims dims' : List UInt32} (h : brackets dims = brackets dims') : dims = dims' := by
  rw [← String.toList_inj, toList_brackets, toList_brackets] at h
  induction dims generalizing dims' with
  | nil =>
    cases dims' with
    | nil => rfl
    | cons n' dims' => simp at h
  | cons n dims ih =>
    cases dims' with
    | nil => simp at h
    | cons n' dims' =>
      simp only [List.flatMap_cons, List.cons_append, List.append_assoc, List.cons.injEq, true_and] at h
      obtain ⟨hn, -, hrest⟩ := append_inj_of_stop (fun _ => isDigit_of_mem_dimDigits)
        (fun _ => isDigit_of_mem_dimDigits) (by decide) (by decide) h
      rw [dimDigits_injective hn, ih hrest]

end Relay

end StageRig
