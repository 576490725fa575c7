/-
  StageRig.OrderedSet — finite sets kept as ascending lists.

  The order is given by a key into the natural numbers. Each set of keys has one
  representation, so two sets with the same members are equal (`ext_of_mem`), and what a
  set is written as does not depend on how it was built. Adding a member keeps the order
  (`pairwise_insertInto`); membership after adding is membership before, or being the new
  member (`mem_insert`).
-/

namespace StageRig

/-- Puts `a` at its place in an ascending list; an element with the same key stays as it is. -/
def insertInto {α : Type} (key : α → Nat) (a : α) : List α → List α
  | [] => [a]
  | b :: l =>
    if key a < key b then a :: b :: l
    else if key b < key a then b :: insertInto key a l
    else b :: l

structure OrderedSet {α : Type} (key : α → Nat) where
  elems : List α
  ascending : elems.Pairwise (fun a b => key a < key b)
  deriving DecidableEq

section

variable {α : Type} {key : α → Nat}

theorem mem_of_mem_insertInto {a x : α} {l : List α} (h : x ∈ insertInto key a l) : x = a ∨ x ∈ l := by
  induction l with
  | nil => simpa [insertInto] using h
  | cons b l ih =>
    simp only [insertInto] at h
    split at h
    · simpa using h
    · split at h
      · rcases List.mem_cons.mp h with h | h
        · exact Or.inr (by simp [h])
        · rcases ih h with h | h
          · exact Or.inl h
          · exact Or.inr (by simp [h])
      · exact Or.inr h

theorem pairwise_insertInto (a : α) {l : List α} (h : l.Pairwise (fun a b => key a < key b)) :
    (insertInto key a l).Pairwise (fun a b => key a < key b) := by
  induction l with
  | nil => simp [insertInto]
  | cons b l ih =>
    obtain ⟨hb, hl⟩ := List.pairwise_cons.mp h
    simp only [insertInto]
    split
    · rename_i hab
      refine List.pairwise_cons.mpr ⟨fun x hx => ?_, h⟩
      rcases List.mem_cons.mp hx with rfl | hx
      · exact hab
      · exact Nat.lt_trans hab (hb x hx)
    · split
      · rename_i hba
        refine List.pairwise_cons.mpr ⟨fun x hx => ?_, ih hl⟩
        rcases mem_of_mem_insertInto hx with rfl | hx
        · exact hba
        · exact hb x hx
      · exact h

theorem mem_insertInto_of_mem (a : α) {x : α} {l : List α} (h : x ∈ l) : x ∈ insertInto key a l := by
  induction l with
  | nil => cases h
  | cons b l ih =>
    simp only [insertInto]
    split
    · exact List.mem_cons_of_mem _ h
    · split
      · rcases List.mem_cons.mp h with h | h
        · simp [h]
        · exact List.mem_cons_of_mem _ (ih h)
      · exact h

theorem mem_insertInto_self (inj : ∀ a b, key a = key b → a = b) (a : α) (l : List α) :
    a ∈ insertInto key a l := by
  induction l with
  | nil => simp [insertInto]
  | cons b l ih =>
    simp only [insertInto]
    split
    · simp
    · split
      · exact List.mem_cons_of_mem _ ih
      · have : a = b := inj a b (by omega)
        simp [this]

theorem insertInto_of_lt {a : α} {l : List α} (h : ∀ b ∈ l, key a < key b) : insertInto key a l = a :: l := by
  cases l with
  | nil => rfl
  | cons b l => rw [insertInto, if_pos (h b List.mem_cons_self)]

end

namespace OrderedSet

variable {α : Type} {key : α → Nat}

instance : Membership α (OrderedSet key) where
  mem s a := a ∈ s.elems

def empty : OrderedSet key := ⟨[], .nil⟩

instance : Inhabited (OrderedSet key) := ⟨empty⟩

def single (a : α) : OrderedSet key := ⟨[a], by simp⟩

def insert (s : OrderedSet key) (a : α) : OrderedSet key :=
  ⟨insertInto key a s.elems, pairwise_insertInto a s.ascending⟩

/-- All of `l` added, from its end: an ascending list then costs one step an element. -/
def insertAll (s : OrderedSet key) (l : List α) : OrderedSet key := l.foldr (fun a s => s.insert a) s

def ofList (l : List α) : OrderedSet key := empty.insertAll l

def toList (s : OrderedSet key) : List α := s.elems

def union (s t : OrderedSet key) : OrderedSet key := s.insertAll t.elems

theorem mem_def {s : OrderedSet key} {a : α} : a ∈ s ↔ a ∈ s.elems := Iff.rfl

theorem not_mem_empty (a : α) : a ∉ (empty : OrderedSet key) := by simp [mem_def, empty]

theorem mem_insert (inj : ∀ a b, key a = key b → a = b) {s : OrderedSet key} {a x : α} :
    x ∈ s.insert a ↔ x = a ∨ x ∈ s := by
  constructor
  · exact mem_of_mem_insertInto
  · rintro (rfl | h)
    · exact mem_insertInto_self inj _ _
    · exact mem_insertInto_of_mem _ h

theorem mem_insertAll (inj : ∀ a b, key a = key b → a = b) {s : OrderedSet key} {l : List α} {x : α} :
    x ∈ s.insertAll l ↔ x ∈ l ∨ x ∈ s := by
  induction l with
  | nil => simp [insertAll]
  | cons a l ih =>
    rw [show s.insertAll (a :: l) = (s.insertAll l).insert a from rfl, mem_insert inj, ih]
    simp [or_assoc]

theorem mem_ofList (inj : ∀ a b, key a = key b → a = b) {l : List α} {x : α} :
    x ∈ (ofList l : OrderedSet key) ↔ x ∈ l := by
  rw [ofList, mem_insertAll inj]
  simp [not_mem_empty]

theorem ext_of_mem {s t : OrderedSet key} (h : ∀ a, a ∈ s ↔ a ∈ t) : s = t := by
  have hnodup : ∀ u : OrderedSet key, u.elems.Nodup := by
    intro u
    refine u.ascending.imp fun hab e => ?_
    subst e
    exact Nat.lt_irrefl _ hab
  have hperm := (List.perm_ext_iff_of_nodup (hnodup s) (hnodup t)).mpr h
  have helems : s.elems = t.elems :=
    hperm.eq_of_pairwise (fun _ _ _ _ hab hba => absurd hab (Nat.lt_asymm hba)) s.ascending t.ascending
  cases s
  cases t
  cases helems
  rfl

theorem elems_ofList {l : List α} (h : l.Pairwise (fun a b => key a < key b)) : (ofList l : OrderedSet key).elems = l := by
  induction l with
  | nil => rfl
  | cons a l ih =>
    obtain ⟨ha, hl⟩ := List.pairwise_cons.mp h
    have htail : (ofList l : OrderedSet key).elems = l := ih hl
    change insertInto key a (ofList l : OrderedSet key).elems = a :: l
    rw [htail, insertInto_of_lt ha]

/-- A set is what its members make. -/
theorem ofList_elems (s : OrderedSet key) : ofList s.elems = s := by
  refine ext_of_mem fun a => ?_
  rw [mem_def, elems_ofList s.ascending, mem_def]

end OrderedSet

end StageRig
