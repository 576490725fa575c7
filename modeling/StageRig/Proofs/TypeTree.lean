/-
  StageRig.Proofs.TypeTree — descriptions inside descriptions.

  `Below` is proper descent through members, `Within` allows the description itself.
  A way down is a list of positions, and what lies within a tree is what such ways lead
  to (`within_iff_part?`).

  A tree nests no name in itself (`NoSelfNesting`) when no description in it has a
  descendant of its own struct name. Reflected types are like that: a struct cannot
  contain itself.
-/

import Mathlib.Logic.Relation
import StageRig.TypeTree

namespace StageRig.TypeTree

def Below (d t : TypeTree) : Prop := Relation.TransGen (fun c u => c ∈ members u) d t

def Within (d t : TypeTree) : Prop := d = t ∨ d.Below t

/-- The name of the struct that a description stands for, if it is a named one. -/
abbrev structName? (t : TypeTree) : Option String := t.head.structName?

theorem below_of_mem {m t : TypeTree} (h : m ∈ t.members) : m.Below t := .single h

theorem within_of_mem {m t : TypeTree} (h : m ∈ t.members) : m.Within t := Or.inr (below_of_mem h)

theorem below_iff {d t : TypeTree} : d.Below t ↔ ∃ m ∈ t.members, d.Within m := by
  constructor
  · intro h
    cases h with
    | single h => exact ⟨d, h, Or.inl rfl⟩
    | tail hd h => exact ⟨_, h, Or.inr hd⟩
  · intro h
    obtain ⟨m, hm, rfl | hd⟩ := h
    · exact .single hm
    · exact hd.tail hm

@[simp] theorem below_node {d : TypeTree} {head : TypeHead} {members : List TypeTree} :
    d.Below (.node head members) ↔ ∃ m ∈ members, d = m ∨ d.Below m := below_iff

theorem Below.trans {d u t : TypeTree} (h₁ : d.Below u) (h₂ : u.Below t) : d.Below t := Relation.TransGen.trans h₁ h₂

/-- What lies below something within a tree lies below the tree. -/
theorem Below.of_within {d u t : TypeTree} (h₁ : d.Below u) (h₂ : u.Within t) : d.Below t := by
  rcases h₂ with rfl | h₂
  · exact h₁
  · exact h₁.trans h₂

theorem Within.trans {d u t : TypeTree} (h₁ : d.Within u) (h₂ : u.Within t) : d.Within t := by
  rcases h₁ with rfl | h₁
  · exact h₂
  · exact Or.inr (h₁.of_within h₂)

/-! ## Ways down -/

/-- The description that a way leads to: at each step, the position of a member. -/
def part? : TypeTree → List Nat → Option TypeTree
  | t, [] => some t
  | t, i :: way => t.members[i]?.bind (·.part? way)

@[simp] theorem part?_nil (t : TypeTree) : t.part? [] = some t := rfl

@[simp] theorem part?_cons (t : TypeTree) (i : Nat) (way : List Nat) :
    t.part? (i :: way) = t.members[i]?.bind (·.part? way) := rfl

theorem within_of_part? {d t : TypeTree} {way : List Nat} (h : t.part? way = some d) : d.Within t := by
  induction way generalizing t with
  | nil => exact Or.inl (Option.some.inj h).symm
  | cons i way ih =>
    obtain ⟨m, hm, hd⟩ := Option.bind_eq_some_iff.mp h
    exact (ih hd).trans (within_of_mem (List.mem_of_getElem? hm))

theorem Below.exists_part? {d t : TypeTree} (h : d.Below t) : ∃ way, t.part? way = some d := by
  induction h with
  | single h =>
    obtain ⟨i, hi⟩ := List.getElem?_of_mem h
    exact ⟨[i], by simp [hi]⟩
  | tail _ h ih =>
    obtain ⟨i, hi⟩ := List.getElem?_of_mem h
    obtain ⟨way, hway⟩ := ih
    exact ⟨i :: way, by simp [hi, hway]⟩

theorem within_iff_part? {d t : TypeTree} : d.Within t ↔ ∃ way, t.part? way = some d := by
  constructor
  · rintro (rfl | h)
    · exact ⟨[], rfl⟩
    · exact h.exists_part?
  · rintro ⟨way, h⟩
    exact within_of_part? h

/-! ## Names nested in themselves -/

/-- No named description in the tree has a descendant of its name. -/
def NoSelfNesting (t : TypeTree) : Prop :=
  ∀ d : TypeTree, d.Within t → ∀ n, d.structName? = some n → ∀ e : TypeTree, e.Below d → e.structName? ≠ some n

theorem NoSelfNesting.of_within {d t : TypeTree} (h : t.NoSelfNesting) (hd : d.Within t) : d.NoSelfNesting :=
  fun _ he => h _ (he.trans hd)

theorem noSelfNesting_iff {t : TypeTree} :
    t.NoSelfNesting ↔ (∀ n, t.structName? = some n → ∀ e : TypeTree, e.Below t → e.structName? ≠ some n) ∧
      ∀ m ∈ t.members, m.NoSelfNesting := by
  constructor
  · intro h
    exact ⟨h t (Or.inl rfl), fun m hm => h.of_within (within_of_mem hm)⟩
  · intro ⟨hself, hmembers⟩ d hd
    rcases hd with rfl | hd
    · exact hself
    · obtain ⟨m, hm, hdm⟩ := below_iff.mp hd
      exact hmembers m hm d hdm

@[simp] theorem noSelfNesting_node {head : TypeHead} {members : List TypeTree} :
    (node head members).NoSelfNesting ↔
      (∀ n, head.structName? = some n → ∀ e : TypeTree, e.Below (.node head members) → e.structName? ≠ some n) ∧
        ∀ m ∈ members, m.NoSelfNesting := noSelfNesting_iff

end StageRig.TypeTree
