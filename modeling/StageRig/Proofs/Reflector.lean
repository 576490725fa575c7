/-
  StageRig.Proofs.Reflector — what the data model keeps of a reflector's types.

  A reflector marks a type with the flags of all its layers: an array of float vectors is
  marked as an array, as a vector and as a float. Two searches read these flags, one for
  the shape and one for the component, each through a table of its own. Both tables list
  what they look for from the outside in (`Layered`), so both searches stop at the
  outermost layer that they know (`Layered.found_iff`).

  - `part?_tree`: a way through the members leads to what the reflector had there.
  - `shape_eq_iff`, `component?_eq_some_iff`: the shape is the outermost of all that is
    marked, the component the outermost of the scalars.
  - `component?_of_shape`: so a scalar's shape and its component cannot differ.
  - `types_kept`: every type is kept, part by part, and a scalar is told by its shape as by
    its component.
-/

import Mathlib.Data.Nat.Bitwise
import StageRig.Proofs.Relay.ArrayMembers
import StageRig.Proofs.TypeTree
import StageRig.Reflector

namespace StageRig.Reflector

/-! ## Flags -/

/-- The bit that marks a type as one of this shape. -/
def bit? : Shape → Option Nat
  | .bool => some 1
  | .int => some 2
  | .float => some 3
  | .vector => some 8
  | .matrix => some 9
  | .struct => some 28
  | .array => some 29
  | .other => none

/-- How far out a shape lies among the layers of one type. -/
def layer : Shape → Nat
  | .other => 0
  | .bool => 1
  | .int => 2
  | .float => 3
  | .vector => 4
  | .matrix => 5
  | .struct => 6
  | .array => 7

/-- The flags mark a type as one of this shape, among others perhaps. -/
def Marks (flags : UInt32) (s : Shape) : Prop := ∃ b, bit? s = some b ∧ flags.toNat.testBit b = true

/-- The shape is marked, and nothing that is marked lies further out. -/
structure Outermost (flags : UInt32) (s : Shape) : Prop where
  marked : Marks flags s
  outer : ∀ s', Marks flags s' → layer s' ≤ layer s

theorem layer_injective {s s' : Shape} (h : layer s = layer s') : s = s' := by
  cases s <;> cases s' <;> first | rfl | exact absurd h (by decide)

theorem Outermost.unique {flags : UInt32} {s s' : Shape} (h : Outermost flags s) (h' : Outermost flags s') : s = s' :=
  layer_injective (Nat.le_antisymm (h'.outer s h.marked) (h.outer s' h'.marked))

/-- A mask of one bit is there when the bit is. -/
theorem has_iff_testBit {flags mask : UInt32} {b : Nat} (hmask : mask.toNat = 2 ^ b) :
    has flags mask = true ↔ flags.toNat.testBit b = true := by
  rw [has, decide_eq_true_iff, ← UInt32.toNat_inj, UInt32.toNat_and, hmask, Nat.and_two_pow]
  cases flags.toNat.testBit b with
  | true => simp
  | false =>
    have hpos := Nat.two_pow_pos b
    simp only [Bool.toNat_false, Bool.false_eq_true, iff_false]
    omega

/-! ## Searches from the outside in -/

/-- Where the ranks fall along a list, its first hit is the hit of the highest rank. -/
theorem find?_eq_some_iff_highest {α : Type} {rank : α → Nat} {p : α → Bool} {l : List α}
    (hfall : l.Pairwise fun a b => rank b < rank a) {a : α} :
    l.find? p = some a ↔ a ∈ l ∧ p a = true ∧ ∀ b ∈ l, p b = true → rank b ≤ rank a := by
  constructor
  · intro h
    obtain ⟨hpa, front, back, rfl, hmiss⟩ := List.find?_eq_some_iff_append.mp h
    obtain ⟨-, hback, -⟩ := List.pairwise_append.mp hfall
    refine ⟨by simp, hpa, fun b hb hpb => ?_⟩
    rcases List.mem_append.mp hb with hb | hb
    · have hnot := hmiss b hb
      simp [hpb] at hnot
    · rcases List.mem_cons.mp hb with rfl | hb
      · exact Nat.le_refl _
      · exact Nat.le_of_lt ((List.pairwise_cons.mp hback).1 b hb)
  · rintro ⟨ha, hpa, hhighest⟩
    obtain ⟨front, back, rfl⟩ := List.append_of_mem ha
    obtain ⟨-, -, hfront⟩ := List.pairwise_append.mp hfall
    refine List.find?_eq_some_iff_append.mpr ⟨hpa, front, back, rfl, fun b hb => ?_⟩
    -- a hit in front would be of a higher rank
    have hlt : rank a < rank b := hfront b hb a List.mem_cons_self
    have hnot : ¬ p b = true := fun hpb => Nat.not_lt.mpr (hhighest b (List.mem_append_left _ hb) hpb) hlt
    simpa using hnot

/-- A table lists all that has a bit under the mask of this bit, and from the outside in. -/
structure Layered {α : Type} (shapeOf : α → Shape) (table : List (UInt32 × α)) : Prop where
  masks : ∀ e ∈ table, ∃ b, bit? (shapeOf e.2) = some b ∧ e.1.toNat = 2 ^ b
  complete : ∀ a, bit? (shapeOf a) ≠ none → ∃ e ∈ table, e.2 = a
  inward : table.Pairwise fun e e' => layer (shapeOf e'.2) < layer (shapeOf e.2)

section

variable {α : Type} {shapeOf : α → Shape} {table : List (UInt32 × α)}

theorem Layered.marks_iff (ht : Layered shapeOf table) {flags : UInt32} {a : α} :
    Marks flags (shapeOf a) ↔ ∃ e ∈ table, e.2 = a ∧ has flags e.1 = true := by
  constructor
  · rintro ⟨b, hb, hbit⟩
    obtain ⟨e, he, rfl⟩ := ht.complete a (by simp [hb])
    obtain ⟨b', hb', hmask⟩ := ht.masks e he
    obtain rfl : b' = b := Option.some.inj (hb'.symm.trans hb)
    exact ⟨e, he, rfl, (has_iff_testBit hmask).mpr hbit⟩
  · rintro ⟨e, he, rfl, hhas⟩
    obtain ⟨b, hb, hmask⟩ := ht.masks e he
    exact ⟨b, hb, (has_iff_testBit hmask).mp hhas⟩

/-- A search through such a table finds the outermost of what is marked. -/
theorem Layered.found_iff (ht : Layered shapeOf table) {flags : UInt32} {a : α} :
    (table.find? (has flags ·.1)).map (·.2) = some a ↔
      Marks flags (shapeOf a) ∧ ∀ a', Marks flags (shapeOf a') → layer (shapeOf a') ≤ layer (shapeOf a) := by
  constructor
  · intro h
    obtain ⟨e, hfind, rfl⟩ := Option.map_eq_some_iff.mp h
    obtain ⟨he, hhas, hhighest⟩ := (find?_eq_some_iff_highest ht.inward).mp hfind
    refine ⟨ht.marks_iff.mpr ⟨e, he, rfl, hhas⟩, fun a' ha' => ?_⟩
    obtain ⟨e', he', rfl, hhas'⟩ := ht.marks_iff.mp ha'
    exact hhighest e' he' hhas'
  · rintro ⟨hmarks, houter⟩
    obtain ⟨e, he, rfl, hhas⟩ := ht.marks_iff.mp hmarks
    have hfind : table.find? (has flags ·.1) = some e :=
      (find?_eq_some_iff_highest ht.inward).mpr
        ⟨he, hhas, fun e' he' hhas' => houter e'.2 (ht.marks_iff.mpr ⟨e', he', rfl, hhas'⟩)⟩
    rw [hfind]
    rfl

end

theorem layered_kindBits : Layered id kindBits where
  masks := by
    simp only [kindBits, List.forall_mem_cons]
    exact ⟨⟨29, rfl, rfl⟩, ⟨28, rfl, rfl⟩, ⟨9, rfl, rfl⟩, ⟨8, rfl, rfl⟩, ⟨3, rfl, rfl⟩, ⟨2, rfl, rfl⟩, ⟨1, rfl, rfl⟩,
      by simp⟩
  complete s hs := by
    cases s with
    | other => exact absurd rfl hs
    | _ => decide
  inward := by decide

theorem layered_componentBits : Layered Component.shape componentBits where
  masks := by
    simp only [componentBits, List.forall_mem_cons]
    exact ⟨⟨3, rfl, rfl⟩, ⟨2, rfl, rfl⟩, ⟨1, rfl, rfl⟩, by simp⟩
  complete c _ := by cases c <;> decide
  inward := by decide

/-! ## Shapes and components -/

namespace TypeFacts

variable {f : TypeFacts}

/-- The search for the shape finds the outermost of all that is marked. -/
theorem found_shape_iff {s : Shape} :
    (kindBits.find? (has f.flags ·.1)).map (·.2) = some s ↔ Outermost f.flags s := by
  constructor
  · intro h
    obtain ⟨hmarked, houter⟩ := layered_kindBits.found_iff.mp h
    exact ⟨hmarked, houter⟩
  · intro h
    exact layered_kindBits.found_iff.mpr ⟨h.marked, h.outer⟩

/-- So it is the shape, and where nothing is marked there is none. -/
theorem shape_eq_iff {s : Shape} :
    f.shape = s ↔ Outermost f.flags s ∨ s = .other ∧ ∀ s', ¬ Marks f.flags s' := by
  rw [shape]
  cases hfound : (kindBits.find? (has f.flags ·.1)).map (·.2) with
  | none =>
    have hnone : ∀ s', ¬ Marks f.flags s' := by
      intro s' hmarks
      obtain ⟨e, he, -, hhas⟩ := layered_kindBits.marks_iff.mp hmarks
      exact List.find?_eq_none.mp (Option.map_eq_none_iff.mp hfound) e he hhas
    constructor
    · intro h
      exact Or.inr ⟨h.symm, hnone⟩
    · rintro (h | ⟨rfl, -⟩)
      · exact absurd h.marked (hnone s)
      · rfl
  | some s' =>
    have houtermost : Outermost f.flags s' := found_shape_iff.mp hfound
    constructor
    · rintro rfl
      exact Or.inl houtermost
    · rintro (h | ⟨-, hnone⟩)
      · exact houtermost.unique h
      · exact absurd houtermost.marked (hnone s')

/-- The component is the outermost of the scalars that are marked. -/
theorem component?_eq_some_iff {c : Component} :
    f.component? = some c ↔
      Marks f.flags c.shape ∧ ∀ c' : Component, Marks f.flags c'.shape → layer c'.shape ≤ layer c.shape :=
  layered_componentBits.found_iff

/-- A scalar's shape is its component's. -/
theorem component?_of_shape {c : Component} (hs : f.shape = c.shape) : f.component? = some c := by
  rcases shape_eq_iff.mp hs with h | ⟨hother, -⟩
  · exact component?_eq_some_iff.mpr ⟨h.marked, fun c' hc' => h.outer c'.shape hc'⟩
  · cases c <;> cases hother

theorem nonempty?_eq_some_iff {text name : String} : nonempty? text = some name ↔ text = name ∧ name ≠ "" := by
  rw [nonempty?, Option.ite_none_left_eq_some, Option.some_inj]
  constructor
  · rintro ⟨hne, rfl⟩
    exact ⟨rfl, hne⟩
  · rintro ⟨rfl, hne⟩
    exact ⟨hne, rfl⟩

end TypeFacts

/-! ## Types -/

namespace TypeNode

/-- The type that a way through the members leads to. -/
def part? : TypeNode → List Nat → Option TypeNode
  | t, [] => some t
  | t, i :: way => t.members[i]?.bind (·.part? way)

theorem trees_eq_map (ts : List TypeNode) : trees ts = ts.map tree := by
  induction ts with
  | nil => rfl
  | cons t ts ih => rw [trees, ih, List.map_cons]

theorem members_tree (t : TypeNode) : t.tree.members = t.members.map tree := by
  cases t with
  | node f ms => exact trees_eq_map ms

theorem head_tree (t : TypeNode) : t.tree.head = t.facts.head := by
  cases t with
  | node f ms => rfl

/-- A tree keeps its form. -/
theorem part?_tree (t : TypeNode) (way : List Nat) : t.tree.part? way = (t.part? way).map tree := by
  induction way generalizing t with
  | nil => rfl
  | cons i way ih =>
    rw [TypeTree.part?_cons, members_tree, List.getElem?_map, part?]
    cases t.members[i]? with
    | none => rfl
    | some m => exact ih m

theorem exists_of_within_tree {t : TypeNode} {d : TypeTree} (h : d.Within t.tree) : ∃ n : TypeNode, n.tree = d := by
  obtain ⟨way, hway⟩ := TypeTree.within_iff_part?.mp h
  rw [part?_tree] at hway
  obtain ⟨n, -, hn⟩ := Option.map_eq_some_iff.mp hway
  exact ⟨n, hn⟩

end TypeNode

/-- What a description keeps of a reflector's facts: every number, the names that are not empty, and of the flags the
outermost of all and the outermost of the scalars. -/
structure Kept (f : TypeFacts) (h : TypeHead) : Prop where
  typeName : ∀ name, h.typeName? = some name ↔ f.typeName = name ∧ name ≠ ""
  memberName : ∀ name, h.memberName? = some name ↔ f.memberName = name ∧ name ≠ ""
  shape : ∀ s, h.shape = s ↔ Outermost f.flags s ∨ s = .other ∧ ∀ s', ¬ Marks f.flags s'
  component : ∀ c : Component, h.scalar.component? = some c ↔
    Marks f.flags c.shape ∧ ∀ c' : Component, Marks f.flags c'.shape → layer c'.shape ≤ layer c.shape
  width : h.scalar.width = f.width
  signedness : h.scalar.signedness = f.signedness
  vectorSize : h.vectorSize = f.vectorSize
  columns : h.matrix.columns = f.columns
  rows : h.matrix.rows = f.rows
  dims : h.dims = f.dims

theorem TypeFacts.kept (f : TypeFacts) : Kept f f.head where
  typeName _ := nonempty?_eq_some_iff
  memberName _ := nonempty?_eq_some_iff
  shape _ := shape_eq_iff
  component _ := component?_eq_some_iff
  width := rfl
  signedness := rfl
  vectorSize := rfl
  columns := rfl
  rows := rfl
  dims := rfl

/-- What a scalar is by its shape it is by its component too. -/
theorem TypeFacts.scalar_told_alike {f : TypeFacts} (hname : f.head.structName? = none) {c : Component}
    (hs : f.head.shape = c.shape) (format : Format) :
    ∃ s, f.head.resolve format = .ok (.scalar s) ∧ f.head.scalar.scalar? = some s ∧ f.head.component format = s := by
  have hc : f.head.scalar.component? = some c := component?_of_shape hs
  obtain ⟨s, hscalar⟩ := exists_scalar hc
  refine ⟨s, ?_, hscalar, ?_⟩
  · have hresolve := TypeHead.resolve_component hname hc hscalar format
    rwa [← hs] at hresolve
  · rw [TypeHead.component, hscalar]
    rfl

/-- A type and its tree have the same parts in the same places, and each part is kept. A part that has the shape of a scalar
and not the name of a struct stands for the scalar that its component tells, which is also the one that vectors and
matrices are made from, whatever the format. -/
theorem types_kept (t : TypeNode) :
    (∀ way, Option.Rel (fun n d => Kept n.facts d.head) (t.part? way) (t.tree.part? way)) ∧
      ∀ d : TypeTree, d.Within t.tree → d.structName? = none → ∀ c : Component, d.head.shape = c.shape →
        ∀ format, ∃ s, d.head.resolve format = .ok (.scalar s) ∧ d.head.scalar.scalar? = some s ∧
          d.head.component format = s := by
  constructor
  · intro way
    rw [TypeNode.part?_tree]
    cases t.part? way with
    | none => exact .none
    | some n =>
      refine .some ?_
      rw [TypeNode.head_tree]
      exact n.facts.kept
  · intro d hd hname c hs format
    obtain ⟨n, rfl⟩ := TypeNode.exists_of_within_tree hd
    rw [TypeTree.structName?, TypeNode.head_tree] at hname
    rw [TypeNode.head_tree] at hs ⊢
    exact TypeFacts.scalar_told_alike hname hs format

/-- A count that is marked as an integer and as a boolean. -/
def steps : TypeFacts := { memberName := "steps", flags := 0x6, width := 32 }

/-- A struct of an array of vectors, and of a struct that holds the count. -/
def lamp : TypeNode :=
  .node { typeName := "Lamp", flags := 0x10000000 }
    [ .node { memberName := "cone", flags := 0x20000108, width := 32, vectorSize := 3, dims := [4] } [],
      .node { typeName := "Dimmer", memberName := "dimmer", flags := 0x10000000 } [.node steps []] ]

/-- The count is an integer by its shape and by its component, also beside a format of floats. -/
theorem lamp_kept : lamp.part? [1, 0] = some (.node steps []) ∧ lamp.tree.part? [1, 0] = some (.node steps.head []) ∧
    Kept steps steps.head ∧ (TypeTree.node steps.head []).Within lamp.tree ∧ steps.head.structName? = none ∧
    steps.head.shape = Component.int.shape ∧ steps.head.resolve (.single .float32) = .ok (.scalar .uint) ∧
    steps.head.scalar.scalar? = some .uint ∧ steps.head.component (.single .float32) = .uint := by
  have hpart : lamp.part? [1, 0] = some (.node steps []) := rfl
  have htree : lamp.tree.part? [1, 0] = some (.node steps.head []) := rfl
  have hwithin : (TypeTree.node steps.head []).Within lamp.tree := TypeTree.within_of_part? htree
  have hshape : steps.head.shape = Component.int.shape := by decide
  obtain ⟨hparts, hscalars⟩ := types_kept lamp
  have hkept : Kept steps steps.head := by
    have h := hparts [1, 0]
    rw [hpart, htree] at h
    cases h with
    | some h => exact h
  obtain ⟨s, hresolve, hscalar, hcomponent⟩ := hscalars _ hwithin rfl .int hshape (.single .float32)
  have hs : s = .uint := Option.some.inj (hscalar.symm.trans (by decide))
  subst hs
  exact ⟨hpart, htree, hkept, hwithin, rfl, hshape, hresolve, hscalar, hcomponent⟩

end StageRig.Reflector
