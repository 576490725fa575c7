/-
  StageRig.Proofs.Relay.ArrayMembers — how members that are arrays are declared.

  The description of an array has the numbers of its element and not the element's shape.
  A matrix or a vector is told by its size. A scalar is told by its component, but not at
  once: the component is turned into a one-channel format, and the format into a scalar.
  There and back is no loss for numbers. Booleans have no format.

  - `scalar?_format`: which scalars come back from their formats.
  - `array_declared_as_element`: a member that is an array is declared as it would be with
    the shape of its element, or, if that is a boolean, not at all.
  - `bool_array_rejected`: a struct that has no source for an array of booleans.
-/

import StageRig.Proofs.Outcome
import StageRig.Relay.Source

namespace StageRig

open Glsl

/-! ## Elements -/

def Component.shape : Component → Shape
  | .bool => .bool
  | .int => .int
  | .float => .float

/-- The shape of an array's element, as far as the numbers tell it. -/
def TypeHead.elementShape? (h : TypeHead) : Option Shape :=
  if 0 < h.matrix.columns ∧ 0 < h.matrix.rows then some .matrix
  else if 0 < h.vectorSize then some .vector
  else h.scalar.component?.map Component.shape

/-- Only booleans are lost on the way over a format. -/
theorem scalar?_format (s : ScalarTraits) :
    s.format.scalar? = if s.component? = some .bool then none else s.scalar? := by
  rw [ScalarTraits.format, ScalarTraits.scalar?]
  rcases s.component? with _ | _ | _ | _
  · rfl
  · rfl
  · show (if s.signedness = 0 then Format.single .uint32 else Format.single .sint32).scalar? =
      some (ScalarTraits.intScalar s.signedness)
    rw [ScalarTraits.intScalar]
    split <;> rfl
  · show (if s.width = 64 then Format.single .float64 else Format.single .float32).scalar? =
      some (ScalarTraits.floatScalar s.width)
    rw [ScalarTraits.floatScalar]
    split <;> rfl

theorem exists_scalar {s : ScalarTraits} {c : Component} (hc : s.component? = some c) :
    ∃ scalar, s.scalar? = some scalar := by
  rw [ScalarTraits.scalar?, hc]
  cases c <;> exact ⟨_, rfl⟩

/-- Booleans have the format of nothing. -/
theorem format_of_bool {s : ScalarTraits} (hc : s.component? = some .bool) : s.format = .undefined := by
  rw [ScalarTraits.format, hc]

namespace TypeHead

variable {h : TypeHead} {s : Shape}

/-- What an array is made of, by what tells it. -/
theorem elementShape?_cases (hs : h.elementShape? = some s) :
    (0 < h.matrix.columns ∧ 0 < h.matrix.rows) ∧ s = .matrix ∨
      ¬ (0 < h.matrix.columns ∧ 0 < h.matrix.rows) ∧ 0 < h.vectorSize ∧ s = .vector ∨
      ¬ (0 < h.matrix.columns ∧ 0 < h.matrix.rows) ∧ ¬ 0 < h.vectorSize ∧
        ∃ c, h.scalar.component? = some c ∧ s = c.shape := by
  rw [elementShape?] at hs
  split at hs
  · exact Or.inl ⟨‹_›, (Option.some.inj hs).symm⟩
  · split at hs
    · exact Or.inr (Or.inl ⟨‹_›, ‹_›, (Option.some.inj hs).symm⟩)
    · obtain ⟨c, hc, rfl⟩ := Option.map_eq_some_iff.mp hs
      exact Or.inr (Or.inr ⟨‹_›, ‹_›, c, hc, rfl⟩)

@[simp] theorem structName?_withShape (h : TypeHead) (s : Shape) :
    structName? { h with shape := s } = h.structName? := rfl

theorem resolve_array (hname : h.structName? = none) (harray : h.shape = .array) (format : Format) :
    h.resolve format = h.elementType format := by
  simp only [resolve, hname, harray]

/-- Without the struct name and with the shape of its component, a description stands for a scalar. -/
theorem resolve_component (hname : h.structName? = none) {c : Component} (hc : h.scalar.component? = some c)
    {scalar : Scalar} (hscalar : h.scalar.scalar? = some scalar) (format : Format) :
    resolve { h with shape := c.shape } format = .ok (.scalar scalar) := by
  rw [ScalarTraits.scalar?, hc] at hscalar
  cases c <;> cases hscalar <;> simp only [resolve, structName?_withShape, hname, Component.shape]

/-- The scalar that an array has for an element comes back from its format, unless it is a boolean. -/
theorem elementType_component (hmatrix : ¬ (0 < h.matrix.columns ∧ 0 < h.matrix.rows)) (hvector : ¬ 0 < h.vectorSize)
    {c : Component} (hc : h.scalar.component? = some c) {scalar : Scalar} (hscalar : h.scalar.scalar? = some scalar) :
    h.elementType h.scalar.format =
      if c = .bool then .error (.unknownElement .undefined) else .ok (.scalar scalar) := by
  rw [elementType, if_neg hmatrix, if_neg hvector, scalar?_format, hc, hscalar]
  by_cases hbool : c = .bool
  · subst hbool
    rw [format_of_bool hc]
    rfl
  · have hne : some c ≠ some .bool := fun heq => hbool (Option.some.inj heq)
    rw [if_neg hne, if_neg hbool]

theorem resolve_array_element (hname : h.structName? = none) (harray : h.shape = .array)
    (hs : h.elementShape? = some s) : ∃ ty, resolve { h with shape := s } h.scalar.format = .ok ty ∧
      h.resolve h.scalar.format = if s = .bool then .error (.unknownElement .undefined) else .ok ty := by
  rw [resolve_array hname harray]
  rcases elementShape?_cases hs with ⟨hmatrix, rfl⟩ | ⟨hmatrix, hvector, rfl⟩ | ⟨hmatrix, hvector, c, hc, rfl⟩
  · refine ⟨h.matrixType h.scalar.format, by simp only [resolve, structName?_withShape, hname]; rfl, ?_⟩
    rw [elementType, if_pos hmatrix]
    rfl
  · refine ⟨h.vectorType h.scalar.format, by simp only [resolve, structName?_withShape, hname]; rfl, ?_⟩
    rw [elementType, if_neg hmatrix, if_pos hvector]
    rfl
  · obtain ⟨scalar, hscalar⟩ := exists_scalar hc
    refine ⟨.scalar scalar, resolve_component hname hc hscalar _, ?_⟩
    rw [elementType_component hmatrix hvector hc hscalar]
    cases c <;> rfl

end TypeHead

/-! ## Members -/

namespace Relay

theorem array_declared_as_element {h : TypeHead} (hname : h.structName? = none) (harray : h.shape = .array) {s : Shape}
    (hs : h.elementShape? = some s) (index : Nat) :
    ∃ d, memberDecl { h with shape := s } index = .ok d ∧
      memberDecl h index = if s = .bool then .error (.unknownElement .undefined) else .ok d := by
  obtain ⟨ty, helement, hmember⟩ := TypeHead.resolve_array_element hname harray hs
  refine ⟨⟨ty.spelling, memberName h index, h.dims⟩, ?_, ?_⟩
  · have hspell : TypeHead.spell { h with shape := s } h.scalar.format = .ok ty.spelling := by
      rw [TypeHead.spell, helement]
      rfl
    rw [memberDecl, hspell]
    rfl
  · rw [memberDecl, TypeHead.spell, hmember]
    split <;> rfl

/-- Four pairs of doubles: the element has a matrix of no rows, which does not count. -/
def pairs : TypeHead :=
  { memberName? := some "pairs", shape := .array, scalar := ⟨some .float, 64, 0⟩, vectorSize := 2,
    matrix := ⟨2, 0⟩, dims := [4] }

theorem pairs_declared_as_element : pairs.structName? = none ∧ pairs.shape = .array ∧
    pairs.elementShape? = some .vector ∧ ∃ d, memberDecl { pairs with shape := .vector } 1 = .ok d ∧
      memberDecl pairs 1 = .ok d ∧ d = ⟨"dvec2", "pairs", [4]⟩ := by
  have hshape : pairs.elementShape? = some .vector := by decide
  obtain ⟨d, helement, hmember⟩ := array_declared_as_element (h := pairs) rfl rfl hshape 1
  exact ⟨rfl, rfl, hshape, d, helement, hmember, Except.ok.inj (helement.symm.trans (by decide))⟩

/-- Two booleans. -/
def flags : TypeHead := { memberName? := some "flags", shape := .array, scalar := ⟨some .bool, 0, 0⟩, dims := [2] }

def switches : TypeTree := .node { typeName? := some "Switches", shape := .struct } [.node flags []]

/-- A boolean is declared, and an array of booleans is not: the struct that has one gives no source. -/
theorem bool_array_rejected : flags.structName? = none ∧ flags.shape = .array ∧ flags.elementShape? = some .bool ∧
    memberDecl { flags with shape := .bool } 0 = .ok ⟨"bool", "flags", [2]⟩ ∧
    memberDecl flags 0 = .error (.unknownElement .undefined) ∧
    (vertex.source .fragment [{ location := 0, type? := some switches }]).result =
      .error (.unknownElement .undefined) :=
  ⟨rfl, rfl, by decide, by decide, by decide, rfl⟩

end Relay

end StageRig
