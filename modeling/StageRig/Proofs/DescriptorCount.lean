/-
  StageRig.Proofs.DescriptorCount — counting descriptors in 32 bits.

  The dimensions of a binding are multiplied up from the left, and there is no count once a
  product on the way does not fit. `extent` is what the dimensions come to without a limit.

  - `descriptorCount?_eq_none_iff_take`: there is no count exactly when the product of some
    first dimensions does not fit.
  - `descriptorCount_exact`: a count is the extent. Where no dimension is zero it exists
    exactly when the extent fits, so the order of the dimensions does not matter. A zero
    makes it matter: it brings the extent to zero, but only the dimensions in front of it
    decide whether it is reached.
-/

import Mathlib.Algebra.BigOperators.Ring.List
import Mathlib.Algebra.Ring.Nat
import StageRig.Interface

namespace StageRig

/-! ## Extents -/

/-- How many elements an array of these dimensions has. -/
def extent (dims : List UInt32) : Nat := (dims.map UInt32.toNat).prod

theorem extent_cons (d : UInt32) (dims : List UInt32) : extent (d :: dims) = d.toNat * extent dims := by
  simp [extent]

theorem extent_append (dims more : List UInt32) : extent (dims ++ more) = extent dims * extent more := by
  simp [extent]

theorem extent_eq_zero_iff {dims : List UInt32} : extent dims = 0 ↔ 0 ∈ dims := by
  rw [extent, List.prod_eq_zero_iff, List.mem_map]
  constructor
  · intro h
    obtain ⟨d, hd, hzero⟩ := h
    exact UInt32.toNat_inj.mp (hzero.trans UInt32.toNat_zero.symm) ▸ hd
  · intro h
    exact ⟨0, h, rfl⟩

theorem extent_of_perm {dims dims' : List UInt32} (h : dims.Perm dims') : extent dims = extent dims' :=
  (h.map _).prod_eq

/-- Without a zero, more dimensions make no smaller extent. -/
theorem extent_mono {before dims : List UInt32} (hzero : 0 ∉ dims) (h : before <+: dims) :
    extent before ≤ extent dims := by
  obtain ⟨after, rfl⟩ := h
  rw [extent_append]
  refine Nat.le_mul_of_pos_right _ (Nat.pos_of_ne_zero fun h => hzero ?_)
  exact List.mem_append_right _ (extent_eq_zero_iff.mp h)

/-! ## Multiplying up -/

theorem toNat_mul_of_lt {n d : UInt32} (h : n.toNat * d.toNat < UInt32.size) : (n * d).toNat = n.toNat * d.toNat := by
  rw [UInt32.toNat_mul]
  exact Nat.mod_eq_of_lt h

-- The induction is on the dimensions still to be multiplied; `n` is the product so far.
theorem toNat_of_foldlM {dims : List UInt32} {n count : UInt32}
    (h : dims.foldlM (fun n d => if n.toNat * d.toNat < UInt32.size then some (n * d) else none) n = some count) :
    count.toNat = n.toNat * extent dims := by
  induction dims generalizing n with
  | nil =>
    cases h
    exact (Nat.mul_one _).symm
  | cons d dims ih =>
    rw [List.foldlM_cons] at h
    by_cases hlt : n.toNat * d.toNat < UInt32.size
    · rw [if_pos hlt] at h
      rw [ih h, toNat_mul_of_lt hlt, extent_cons, Nat.mul_assoc]
    · rw [if_neg hlt] at h
      cases h

theorem foldlM_eq_none_iff {dims : List UInt32} {n : UInt32} :
    dims.foldlM (fun n d => if n.toNat * d.toNat < UInt32.size then some (n * d) else none) n = none ↔
      ∃ k, UInt32.size ≤ n.toNat * extent (dims.take k) := by
  induction dims generalizing n with
  | nil => simpa [extent] using n.toNat_lt
  | cons d dims ih =>
    rw [List.foldlM_cons]
    by_cases hlt : n.toNat * d.toNat < UInt32.size
    · have hstep : ∀ k, n.toNat * extent ((d :: dims).take (k + 1)) = (n * d).toNat * extent (dims.take k) := by
        intro k
        rw [List.take_succ_cons, extent_cons, toNat_mul_of_lt hlt, Nat.mul_assoc]
      rw [if_pos hlt]
      refine ih.trans ⟨fun h => ?_, fun h => ?_⟩
      · obtain ⟨k, hk⟩ := h
        exact ⟨k + 1, hstep k ▸ hk⟩
      · obtain ⟨k, hk⟩ := h
        cases k with
        | zero => exact absurd hk (by simpa [extent] using n.toNat_lt)
        | succ k => exact ⟨k, hstep k ▸ hk⟩
    · rw [if_neg hlt]
      exact iff_of_true rfl ⟨1, by simpa [extent] using hlt⟩

theorem toNat_eq_extent {dims : List UInt32} {n : UInt32} (h : descriptorCount? dims = some n) :
    n.toNat = extent dims := by
  rw [toNat_of_foldlM h]
  exact Nat.one_mul _

theorem descriptorCount?_eq_none_iff_take {dims : List UInt32} :
    descriptorCount? dims = none ↔ ∃ k, UInt32.size ≤ extent (dims.take k) := by
  rw [descriptorCount?, foldlM_eq_none_iff]
  simp only [UInt32.toNat_one, Nat.one_mul]

/-- There is a count exactly when everything on the way to it fits. -/
theorem exists_descriptorCount?_iff {dims : List UInt32} :
    (∃ n, descriptorCount? dims = some n) ↔ ∀ before, before <+: dims → extent before < UInt32.size := by
  rw [← Option.ne_none_iff_exists', ne_eq, descriptorCount?_eq_none_iff_take, not_exists]
  constructor
  · intro h before hbefore
    rw [List.prefix_iff_eq_take.mp hbefore]
    exact Nat.lt_of_not_le (h _)
  · intro h k
    exact Nat.not_le_of_lt (h _ (List.take_prefix k dims))

/-- Without a zero, everything on the way fits when the extent does. -/
theorem exists_descriptorCount?_of_ne_zero {dims : List UInt32} (hzero : 0 ∉ dims) :
    (∃ n, descriptorCount? dims = some n) ↔ extent dims < UInt32.size := by
  rw [exists_descriptorCount?_iff]
  constructor
  · intro h
    exact h dims List.prefix_rfl
  · intro h before hbefore
    exact Nat.lt_of_le_of_lt (extent_mono hzero hbefore) h

theorem descriptorCount?_of_ne_zero {dims : List UInt32} (hzero : 0 ∉ dims) :
    descriptorCount? dims = if extent dims < UInt32.size then some (extent dims).toUInt32 else none := by
  by_cases hfits : extent dims < UInt32.size
  · obtain ⟨n, hn⟩ := (exists_descriptorCount?_of_ne_zero hzero).mpr hfits
    rw [hn, if_pos hfits, ← toNat_eq_extent hn]
    simp
  · rw [if_neg hfits, ← Option.not_isSome_iff_eq_none, Option.isSome_iff_exists]
    exact mt (exists_descriptorCount?_of_ne_zero hzero).mp hfits

-- What comes on the way either stops in front of the zero, where no product is larger than the
-- last one, or contains it.
/-- A zero is reached exactly when the dimensions in front of it fit. -/
theorem descriptorCount?_append_zero {before after : List UInt32} (hzero : 0 ∉ before) :
    descriptorCount? (before ++ 0 :: after) = if extent before < UInt32.size then some 0 else none := by
  by_cases hfits : extent before < UInt32.size
  · have hall : ∀ front, front <+: before ++ 0 :: after → extent front < UInt32.size := by
      intro front hfront
      by_cases hin : 0 ∈ front
      · rw [extent_eq_zero_iff.mpr hin]
        decide
      · have hcut : before ++ [0] <+: before ++ 0 :: after := ⟨after, by simp⟩
        rcases List.prefix_or_prefix_of_prefix hfront hcut with h | h
        · rcases List.prefix_concat_iff.mp h with rfl | h
          · simp at hin
          · exact Nat.lt_of_le_of_lt (extent_mono hzero h) hfits
        · exact absurd (h.subset (by simp)) hin
    obtain ⟨n, hn⟩ := exists_descriptorCount?_iff.mpr hall
    have hextent : extent (before ++ 0 :: after) = 0 := extent_eq_zero_iff.mpr (by simp)
    have hn0 : n = 0 := UInt32.toNat_inj.mp (((toNat_eq_extent hn).trans hextent).trans UInt32.toNat_zero.symm)
    rw [hn, if_pos hfits, hn0]
  · rw [if_neg hfits, descriptorCount?_eq_none_iff_take]
    exact ⟨before.length, by simpa using hfits⟩

theorem descriptorCount_exact (dims : List UInt32) :
    ((∃ n, descriptorCount? dims = some n) ↔ ∀ before, before <+: dims → extent before < UInt32.size) ∧
      (∀ n, descriptorCount? dims = some n → n.toNat = extent dims) ∧
      (0 ∉ dims → ((∃ n, descriptorCount? dims = some n) ↔ extent dims < UInt32.size) ∧
        ∀ dims', dims.Perm dims' → descriptorCount? dims' = descriptorCount? dims) ∧
      (0 ∈ dims → descriptorCount? dims =
        if extent (dims.takeWhile (· ≠ 0)) < UInt32.size then some 0 else none) := by
  refine ⟨exists_descriptorCount?_iff, fun n => toNat_eq_extent, fun hzero => ⟨?_, fun dims' hperm => ?_⟩,
    fun hzero => ?_⟩
  · exact exists_descriptorCount?_of_ne_zero hzero
  · have hzero' : 0 ∉ dims' := mt hperm.mem_iff.mpr hzero
    rw [descriptorCount?_of_ne_zero hzero, descriptorCount?_of_ne_zero hzero', extent_of_perm hperm]
  · obtain ⟨before, after, rfl, hbefore⟩ := List.eq_append_cons_of_mem hzero
    have hne : ∀ d ∈ before, decide (d ≠ 0) = true := fun d hd => decide_eq_true fun h => hbefore (h ▸ hd)
    rw [List.takeWhile_append_of_pos hne, List.takeWhile_cons_of_neg (by simp), List.append_nil]
    exact descriptorCount?_append_zero hbefore

/-- Two sides of a square, and a zero behind them and in front of them. -/
theorem square_counts :
    (0 ∉ [65535, (65536 : UInt32)] ∧ [65535, (65536 : UInt32)].Perm [65536, 65535] ∧
      (∃ n, descriptorCount? [65535, 65536] = some n) ∧
      descriptorCount? [65536, 65535] = descriptorCount? [65535, 65536]) ∧
      (0 ∈ [65536, 65536, (0 : UInt32)] ∧ descriptorCount? [65536, 65536, 0] = none) ∧
      (0 ∈ [(0 : UInt32), 65536, 65536] ∧ descriptorCount? [0, 65536, 65536] = some 0) := by
  obtain ⟨_, _, hsquare, _⟩ := descriptorCount_exact [65535, 65536]
  obtain ⟨_, _, _, hbehind⟩ := descriptorCount_exact [65536, 65536, 0]
  obtain ⟨_, _, _, hfront⟩ := descriptorCount_exact [0, 65536, 65536]
  obtain ⟨hcount, hperm⟩ := hsquare (by decide)
  have hswap : [65535, (65536 : UInt32)].Perm [65536, 65535] := .swap _ _ _
  exact ⟨⟨by decide, hswap, hcount.mpr (by decide), hperm _ hswap⟩, ⟨by decide, hbehind (by decide)⟩,
    ⟨by decide, hfront (by decide)⟩⟩

end StageRig
