/-
  StageRig.Proofs.Requirements — one requirement for each pair of set and binding.

  Bindings come in any order, and several may share a pair. They are placed one after
  another into an ascending list of requirements; `Gathered` says what the list holds
  for the bindings placed so far.

  - `mem_place_iff`: placing a requirement merges it with the one that shares its pair,
    or else adds it, and leaves the others alone.
  - `Gathered.place`: one more binding keeps the list what it should be.
  - `gathered_of_collect`: what is collected from bindings is gathered from them.
-/

import StageRig.Proofs.DescriptorCount
import StageRig.Proofs.Outcome

namespace StageRig

/-! ## Counts -/

/-- How many descriptors a binding has: the product of its dimensions. -/
def Binding.descriptors (b : Binding) : Nat := (b.dims.map UInt32.toNat).prod

theorem toNat_of_descriptorCount? {b : Binding} {count : UInt32} (h : descriptorCount? b.dims = some count) :
    count.toNat = b.descriptors := toNat_eq_extent h

theorem toNat_max (m n : UInt32) : (max m n).toNat = max m.toNat n.toNat := by
  by_cases h : m ≤ n
  · rw [show max m n = n from if_pos h, Nat.max_eq_right (UInt32.le_iff_toNat_le.mp h)]
  · rw [show max m n = m from if_neg h, Nat.max_eq_left (Nat.le_of_not_le (mt UInt32.le_iff_toNat_le.mpr h))]

namespace Requirement

/-! ## The order of requirements -/

theorem shares_iff {r q : Requirement} : r.shares q = true ↔ r.set = q.set ∧ r.binding = q.binding := by
  simp [shares]

theorem precedes_iff {r q : Requirement} :
    r.precedes q = true ↔
      r.set.toNat < q.set.toNat ∨ r.set.toNat = q.set.toNat ∧ r.binding.toNat < q.binding.toNat := by
  simp [precedes, UInt32.lt_iff_toNat_lt, UInt32.toNat_inj]

theorem precedes_trans {r q p : Requirement} (h₁ : r.precedes q) (h₂ : q.precedes p) : r.precedes p := by
  rw [precedes_iff] at *
  omega

theorem shares_iff_toNat {r q : Requirement} :
    r.shares q = true ↔ r.set.toNat = q.set.toNat ∧ r.binding.toNat = q.binding.toNat := by
  rw [shares_iff, UInt32.toNat_inj, UInt32.toNat_inj]

theorem not_shares_of_precedes {r q : Requirement} (h : r.precedes q) : ¬ r.shares q := by
  rw [precedes_iff] at h
  rw [shares_iff_toNat]
  omega

/-- Behind a requirement with the pair there is none. -/
theorem not_shares_of_shares {r q p : Requirement} (h : r.shares q) (hq : q.precedes p) : ¬ r.shares p := by
  rw [shares_iff_toNat] at h
  rw [precedes_iff] at hq
  rw [shares_iff_toNat]
  omega

theorem precedes_of_not {r q : Requirement} (hshares : ¬ r.shares q) (hprec : ¬ r.precedes q) : q.precedes r := by
  rw [shares_iff_toNat] at hshares
  rw [precedes_iff] at hprec
  rw [precedes_iff]
  omega

/-- Requirements that stand in order, each pair once. -/
def Ascending (l : List Requirement) : Prop := l.Pairwise fun r q => r.precedes q

/-! ## Placing -/

theorem mem_place_of_none {r x : Requirement} {l : List Requirement} (hnone : ∀ q ∈ l, ¬ r.shares q) :
    x ∈ r.place l ↔ x = r ∨ x ∈ l := by
  induction l with
  | nil => simp [place]
  | cons q l ih =>
    rw [place, if_neg (hnone q List.mem_cons_self)]
    by_cases hprec : r.precedes q
    · rw [if_pos hprec]
      exact List.mem_cons
    · rw [if_neg hprec, List.mem_cons, ih fun p hp => hnone p (List.mem_cons_of_mem _ hp), List.mem_cons]
      exact or_left_comm

theorem mem_place_of_shares {r p x : Requirement} {l : List Requirement} (h : Ascending l) (hp : p ∈ l)
    (hshares : r.shares p) : x ∈ r.place l ↔ x = p.merge r ∨ x ∈ l ∧ ¬ r.shares x := by
  induction l with
  | nil => cases hp
  | cons q l ih =>
    obtain ⟨hq, hl⟩ := List.pairwise_cons.mp h
    rw [place]
    rcases List.mem_cons.mp hp with rfl | hp
    · have hrest : ∀ y ∈ l, ¬ r.shares y := fun y hy => not_shares_of_shares hshares (hq y hy)
      have hhead : x ∈ p :: l ∧ ¬ r.shares x ↔ x ∈ l := by
        constructor
        · intro ⟨hx, hnot⟩
          rcases List.mem_cons.mp hx with rfl | hx
          · exact absurd hshares hnot
          · exact hx
        · intro hx
          exact ⟨List.mem_cons_of_mem _ hx, hrest x hx⟩
      rw [if_pos hshares, List.mem_cons, hhead]
    · have hnot : ¬ r.shares q := fun hq' => not_shares_of_shares hq' (hq p hp) hshares
      have hafter : ¬ r.precedes q := fun hprec => not_shares_of_precedes (precedes_trans hprec (hq p hp)) hshares
      have hkept : x = q → ¬ r.shares x := fun hx => hx ▸ hnot
      rw [if_neg hnot, if_neg hafter, List.mem_cons, ih hl hp, List.mem_cons, or_and_right, and_iff_left_of_imp hkept]
      exact or_left_comm

theorem mem_place_iff {r x : Requirement} {l : List Requirement} (h : Ascending l) :
    x ∈ r.place l ↔
      x ∈ l ∧ ¬ r.shares x ∨ (∃ q ∈ l, r.shares q ∧ x = q.merge r) ∨ (∀ q ∈ l, ¬ r.shares q) ∧ x = r := by
  by_cases hshares : ∃ q ∈ l, r.shares q
  · obtain ⟨p, hp, hps⟩ := hshares
    constructor
    · intro hx
      rcases (mem_place_of_shares h hp hps).mp hx with hx | hx
      · exact Or.inr (Or.inl ⟨p, hp, hps, hx⟩)
      · exact Or.inl hx
    · intro hx
      rcases hx with hx | ⟨q, hq, hqs, hx⟩ | ⟨hnone, _⟩
      · exact (mem_place_of_shares h hp hps).mpr (Or.inr hx)
      · exact (mem_place_of_shares h hq hqs).mpr (Or.inl hx)
      · exact absurd hps (hnone p hp)
  · have hnone : ∀ q ∈ l, ¬ r.shares q := fun q hq hqs => hshares ⟨q, hq, hqs⟩
    rw [mem_place_of_none hnone]
    constructor
    · intro hx
      rcases hx with hx | hx
      · exact Or.inr (Or.inr ⟨hnone, hx⟩)
      · exact Or.inl ⟨hx, hnone x hx⟩
    · intro hx
      rcases hx with ⟨hx, _⟩ | ⟨q, hq, hqs, _⟩ | ⟨_, hx⟩
      · exact Or.inr hx
      · exact absurd hqs (hnone q hq)
      · exact Or.inl hx

/-- The pairs after placing are those before and the one placed. -/
theorem exists_pair_place {r : Requirement} {l : List Requirement} (h : Ascending l) {set binding : UInt32} :
    (∃ x ∈ r.place l, x.set = set ∧ x.binding = binding) ↔
      (∃ x ∈ l, x.set = set ∧ x.binding = binding) ∨ (r.set = set ∧ r.binding = binding) := by
  constructor
  · intro h
    obtain ⟨x, hx, hpair⟩ := h
    rcases (mem_place_iff h).mp hx with ⟨hx, _⟩ | ⟨q, hq, _, rfl⟩ | ⟨_, rfl⟩
    · exact Or.inl ⟨x, hx, hpair⟩
    · exact Or.inl ⟨q, hq, hpair⟩
    · exact Or.inr hpair
  · intro h
    rcases h with ⟨x, hx, hpair⟩ | hpair
    · by_cases hshares : r.shares x
      · exact ⟨x.merge r, (mem_place_iff h).mpr (Or.inr (Or.inl ⟨x, hx, hshares, rfl⟩)), hpair⟩
      · exact ⟨x, (mem_place_iff h).mpr (Or.inl ⟨hx, hshares⟩), hpair⟩
    · by_cases hshares : ∃ q ∈ l, r.shares q
      · obtain ⟨q, hq, hshares⟩ := hshares
        obtain ⟨hset, hbinding⟩ := shares_iff.mp hshares
        refine ⟨q.merge r, (mem_place_iff h).mpr (Or.inr (Or.inl ⟨q, hq, hshares, rfl⟩)), ?_⟩
        exact ⟨hset.symm.trans hpair.1, hbinding.symm.trans hpair.2⟩
      · refine ⟨r, (mem_place_iff h).mpr (Or.inr (Or.inr ⟨fun q hq hs => hshares ⟨q, hq, hs⟩, rfl⟩)), hpair⟩

theorem ascending_place {r : Requirement} {l : List Requirement} (h : Ascending l) : Ascending (r.place l) := by
  induction l with
  | nil => exact List.pairwise_singleton _ r
  | cons q l ih =>
    obtain ⟨hq, hl⟩ := List.pairwise_cons.mp h
    rw [place]
    by_cases hshares : r.shares q
    · rw [if_pos hshares]
      exact List.pairwise_cons.mpr ⟨hq, hl⟩
    · rw [if_neg hshares]
      by_cases hprec : r.precedes q
      · rw [if_pos hprec]
        refine List.pairwise_cons.mpr ⟨fun y hy => ?_, h⟩
        rcases List.mem_cons.mp hy with rfl | hy
        · exact hprec
        · exact precedes_trans hprec (hq y hy)
      · rw [if_neg hprec]
        refine List.pairwise_cons.mpr ⟨fun y hy => ?_, ih hl⟩
        rcases (mem_place_iff hl).mp hy with ⟨hy, _⟩ | ⟨p, hp, _, rfl⟩ | ⟨_, rfl⟩
        · exact hq y hy
        · exact hq p hp
        · exact precedes_of_not hshares hprec

end Requirement

/-! ## Gathering -/

/-- The bindings with one pair, in the order of the list. -/
def bindingsAt (bs : List Binding) (set binding : UInt32) : List Binding :=
  bs.filter fun b => b.set = set && b.binding = binding

/-- The requirement stands for the bindings with its pair: the first gives its kind and its attachment, and it
counts as many descriptors as the largest. -/
structure Merges (stage : Stage) (bs : List Binding) (q : Requirement) : Prop where
  stages : q.stages.toList = [stage]
  first : ∃ b, (bindingsAt bs q.set q.binding).head? = some b ∧ q.kind = b.kind ∧
    q.attachmentIndex? = b.attachmentIndex?
  count : (∃ b ∈ bindingsAt bs q.set q.binding, q.count.toNat = b.descriptors) ∧
    ∀ b ∈ bindingsAt bs q.set q.binding, b.descriptors ≤ q.count.toNat

/-- What has been found in the bindings `bs`: one requirement a pair, in order. -/
structure Gathered (stage : Stage) (bs : List Binding) (found : List Requirement) : Prop where
  ascending : Requirement.Ascending found
  pairs : ∀ set binding, (∃ q ∈ found, q.set = set ∧ q.binding = binding) ↔
    ∃ b ∈ bs, b.set = set ∧ b.binding = binding
  merges : ∀ q ∈ found, Merges stage bs q

theorem bindingsAt_append_of_ne {bs : List Binding} {b : Binding} {set binding : UInt32}
    (h : ¬ (b.set = set ∧ b.binding = binding)) : bindingsAt (bs ++ [b]) set binding = bindingsAt bs set binding := by
  have : ¬ ((b.set = set && b.binding = binding) = true) := by simpa using h
  simp [bindingsAt, List.filter_append, this]

theorem bindingsAt_append_of_eq {bs : List Binding} {b : Binding} {set binding : UInt32}
    (h : b.set = set ∧ b.binding = binding) :
    bindingsAt (bs ++ [b]) set binding = bindingsAt bs set binding ++ [b] := by
  simp [bindingsAt, List.filter_append, h]

theorem bindingsAt_eq_nil {bs : List Binding} {set binding : UInt32}
    (h : ¬ ∃ b ∈ bs, b.set = set ∧ b.binding = binding) : bindingsAt bs set binding = [] := by
  rw [bindingsAt, List.filter_eq_nil_iff]
  intro b hb hpair
  exact h ⟨b, hb, by simpa using hpair⟩

theorem union_single {stages : StageSet} {stage : Stage} (h : stages.toList = [stage]) :
    (stages.union (.single stage)).toList = [stage] := by
  show insertInto Stage.rank stage stages.elems = [stage]
  rw [show stages.elems = [stage] from h]
  simp [insertInto]

/-- A requirement of another pair stands for what it stood for. -/
theorem Merges.other {stage : Stage} {bs : List Binding} {q : Requirement} (hq : Merges stage bs q) {b : Binding}
    (h : ¬ (b.set = q.set ∧ b.binding = q.binding)) : Merges stage (bs ++ [b]) q where
  stages := hq.stages
  first := by rw [bindingsAt_append_of_ne h]; exact hq.first
  count := by rw [bindingsAt_append_of_ne h]; exact hq.count

/-- The requirement of a pair after one more binding with it. -/
theorem Merges.merge {stage : Stage} {bs : List Binding} {q : Requirement} (hq : Merges stage bs q) {b : Binding}
    (h : b.set = q.set ∧ b.binding = q.binding) {count : UInt32} (hcount : count.toNat = b.descriptors) :
    Merges stage (bs ++ [b]) (q.merge (b.requirement stage count)) where
  stages := union_single hq.stages
  first := by
    obtain ⟨c, hc, hkind, hattachment⟩ := hq.first
    refine ⟨c, ?_, hkind, hattachment⟩
    show (bindingsAt (bs ++ [b]) q.set q.binding).head? = some c
    rw [bindingsAt_append_of_eq h, List.head?_append, hc]
    rfl
  count := by
    obtain ⟨⟨c, hc, hcount'⟩, hle⟩ := hq.count
    show (∃ c ∈ bindingsAt (bs ++ [b]) q.set q.binding, (max q.count count).toNat = c.descriptors) ∧
      ∀ c ∈ bindingsAt (bs ++ [b]) q.set q.binding, c.descriptors ≤ (max q.count count).toNat
    rw [bindingsAt_append_of_eq h, toNat_max, hcount]
    constructor
    · rcases Nat.le_total q.count.toNat b.descriptors with hmax | hmax
      · exact ⟨b, by simp, Nat.max_eq_right hmax⟩
      · exact ⟨c, by simp [hc], by rw [Nat.max_eq_left hmax, hcount']⟩
    · intro d hd
      rcases List.mem_append.mp hd with hd | hd
      · exact Nat.le_trans (hle d hd) (Nat.le_max_left _ _)
      · rw [List.mem_singleton.mp hd]
        exact Nat.le_max_right _ _

/-- The requirement of a pair that no binding had before. -/
theorem Merges.new {stage : Stage} {bs : List Binding} {b : Binding}
    (h : ¬ ∃ c ∈ bs, c.set = b.set ∧ c.binding = b.binding) {count : UInt32} (hcount : count.toNat = b.descriptors) :
    Merges stage (bs ++ [b]) (b.requirement stage count) := by
  have hat : bindingsAt (bs ++ [b]) b.set b.binding = [b] := by
    rw [bindingsAt_append_of_eq ⟨rfl, rfl⟩, bindingsAt_eq_nil h]
    rfl
  exact
    { stages := rfl
      first := ⟨b, congrArg List.head? hat, rfl, rfl⟩
      count := by
        show (∃ c ∈ bindingsAt (bs ++ [b]) b.set b.binding, count.toNat = c.descriptors) ∧
          ∀ c ∈ bindingsAt (bs ++ [b]) b.set b.binding, c.descriptors ≤ count.toNat
        rw [hat, hcount]
        simp }

/-- One more binding is placed. -/
theorem Gathered.place {stage : Stage} {bs : List Binding} {found : List Requirement} (h : Gathered stage bs found)
    {b : Binding} {count : UInt32} (hcount : count.toNat = b.descriptors) :
    Gathered stage (bs ++ [b]) ((b.requirement stage count).place found) where
  ascending := Requirement.ascending_place h.ascending
  pairs set binding := by
    rw [Requirement.exists_pair_place h.ascending, h.pairs]
    simp only [List.mem_append, List.mem_singleton, or_and_right, exists_or, exists_eq_left]
    rfl
  merges q hq := by
    rcases (Requirement.mem_place_iff h.ascending).mp hq with ⟨hq, hnot⟩ | ⟨p, hp, hshares, rfl⟩ | ⟨hnone, rfl⟩
    · rw [Requirement.shares_iff] at hnot
      exact (h.merges q hq).other hnot
    · rw [Requirement.shares_iff] at hshares
      exact (h.merges p hp).merge hshares hcount
    · refine .new ?_ hcount
      rw [← h.pairs]
      intro h
      obtain ⟨q, hq, hset, hbinding⟩ := h
      exact hnone q hq (Requirement.shares_iff.mpr ⟨hset.symm, hbinding.symm⟩)

theorem gathered_nil (stage : Stage) : Gathered stage [] [] where
  ascending := .nil
  pairs set binding := by simp
  merges q hq := by cases hq

theorem collect_cons_ok_iff {stage : Stage} {b : Binding} {rest : List Binding} {found rs : List Requirement} :
    (collect stage (b :: rest) found).result = .ok rs ↔
      ∃ count, descriptorCount? b.dims = some count ∧
        (collect stage rest ((b.requirement stage count).place found)).result = .ok rs := by
  rw [collect]
  rcases descriptorCount? b.dims with _ | count
  · simp
  · dsimp only
    split <;> simp

-- The induction is on the bindings still to be placed; `bs` are those that were.
theorem Gathered.collect {stage : Stage} {bs rest : List Binding} {found rs : List Requirement}
    (h : Gathered stage bs found) (hrs : (collect stage rest found).result = .ok rs) : Gathered stage (bs ++ rest) rs := by
  induction rest generalizing bs found with
  | nil =>
    cases hrs
    rwa [List.append_nil]
  | cons b rest ih =>
    obtain ⟨count, hcount, hrs⟩ := collect_cons_ok_iff.mp hrs
    have hplaced := ih (h.place (toNat_of_descriptorCount? hcount)) hrs
    rwa [List.append_assoc] at hplaced

theorem gathered_of_collect {stage : Stage} {bs : List Binding} {rs : List Requirement}
    (h : (collect stage bs []).result = .ok rs) : Gathered stage bs rs :=
  (gathered_nil stage).collect h

end StageRig
