/-
  StageRig.Proofs.Document.Kind — the types of the data model, and what their schemas keep.

  Documents are loaded as values of nine types (`DocumentKind`). The records they are made
  of are sound (`sound_spec`): no record has two fields of one key, and what a field does
  not write is what it falls back on. The names of each kind of variant are different.
-/

import StageRig.Document.Codec
import StageRig.Proofs.Schema.RoundTrip

namespace StageRig

/-- The types that documents are loaded as. -/
inductive DocumentKind where
  | reflection
  | entryPoint
  | slot
  | typeTree
  | binding
  | pushBlock
  | pipelineLayout
  | summary
  | stageSet
  deriving DecidableEq, Repr

namespace DocumentKind

def Value : DocumentKind → Type
  | reflection => Reflection
  | entryPoint => EntryPoint
  | slot => Slot
  | typeTree => TypeTree
  | binding => Binding
  | pushBlock => PushBlock
  | pipelineLayout => PipelineLayout
  | summary => Summary
  | stageSet => StageSet

def codec : (k : DocumentKind) → Codec k.Value
  | reflection => .reflection
  | entryPoint => .entryPoint
  | slot => .slot
  | typeTree => .typeTree
  | binding => .binding
  | pushBlock => .pushBlock
  | pipelineLayout => .pipelineLayout
  | summary => .summary
  | stageSet => .stageSet

end DocumentKind

/-! ## Variants -/

theorem Format.mem_all (f : Format) : f ∈ Format.all := by
  cases f with
  | undefined => decide
  | packed channel more =>
    revert more
    cases channel <;> decide

theorem Shape.mem_all (s : Shape) : s ∈ Shape.all := by cases s <;> decide

theorem Component.mem_all (c : Component) : c ∈ Component.all := by cases c <;> decide

theorem DescriptorKind.mem_all (k : DescriptorKind) : k ∈ DescriptorKind.all := by cases k <;> decide

theorem Stage.nodup_keys : (Stage.all.map Stage.key).Nodup := by decide

theorem Format.nodup_names : (Format.all.map Format.name).Nodup := by decide

theorem Shape.nodup_keys : (Shape.all.map Shape.key).Nodup := by decide

theorem Component.nodup_keys : (Component.all.map Component.key).Nodup := by decide

theorem DescriptorKind.nodup_keys : (DescriptorKind.all.map DescriptorKind.key).Nodup := by decide

/-! ## Records -/

namespace RecordName

open Schema

theorem nodup_keys (r : RecordName) : (r.spec.fields.map (·.key)).Nodup := by cases r <;> decide

theorem eq_absent_of_isBlank {s : Schema RecordName} (hs : ∀ s', s.core ≠ .list s') {d : Datum} (hblank : d.isBlank = true)
    (hfits : Fits spec s d) : d = .absent := by
  cases d with
  | list ds =>
    obtain ⟨s', hs', -⟩ := hfits
    exact absurd hs' (hs s')
  | absent => rfl
  | _ => cases hblank

theorem eq_nil_of_isBlank {s : Schema RecordName} (hs : s.isOptional = false) {d : Datum} (hblank : d.isBlank = true)
    (hfits : Fits spec s d) : d = .list [] := by
  cases d with
  | absent => cases hs.symm.trans hfits
  | list ds =>
    cases ds with
    | nil => rfl
    | cons d ds => cases hblank
  | _ => cases hblank

/-- What a field does not write is what it falls back on. -/
theorem quiet_fields (r : RecordName) : ∀ f ∈ r.spec.fields, f.quiet = true →
    (f.fallback? = some .absent ∧ ∀ s', f.schema.core ≠ .list s') ∨
    (f.fallback? = some (.list []) ∧ f.schema.isOptional = false) := by
  cases r <;>
    simp [spec, FieldSpec.need, FieldSpec.orElse, FieldSpec.maybe, FieldSpec.listing, Schema.core, Schema.isOptional,
      Schema.component]

theorem sound_spec : Sound spec where
  keys := nodup_keys
  quiet r f hf hquiet d hblank hfits := by
    obtain ⟨hfallback, hs⟩ | ⟨hfallback, hs⟩ := quiet_fields r f hf hquiet
    · rw [hfallback, eq_absent_of_isBlank hs hblank hfits]
    · rw [hfallback, eq_nil_of_isBlank hs hblank hfits]

end RecordName

end StageRig
