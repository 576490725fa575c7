/-
  StageRig.Proofs.StableSort — what sorting keeps.

  A sorted list holds the elements that compare equal to any one element in the order in
  which they stood before (`filter_mergeSort`), and so any relation between earlier and
  later elements still holds between those of them that compare equal
  (`pairwise_mergeSort_stable`).
-/

namespace StageRig

variable {α : Type} {le : α → α → Bool}

/-- Sorting does not touch the order of elements of which each is as large as every other. -/
theorem filter_mergeSort (trans : ∀ a b c, le a b → le b c → le a c) (total : ∀ a b, le a b || le b a)
    {same : α → Bool} (hsame : ∀ c d, same c → same d → le c d) (l : List α) :
    (l.mergeSort le).filter same = l.filter same := by
  have hpair : (l.filter same).Pairwise fun c d => le c d := by
    refine List.pairwise_of_forall_mem_list fun c hc d hd => ?_
    exact hsame c d (List.mem_filter.mp hc).2 (List.mem_filter.mp hd).2
  have hsub : (l.filter same).Sublist ((l.mergeSort le).filter same) := by
    have := (List.sublist_mergeSort trans total hpair List.filter_sublist).filter same
    rwa [List.filter_filter, show (fun c => same c && same c) = same from funext fun c => Bool.and_self _] at this
  exact (hsub.eq_of_length ((List.mergeSort_perm l le).filter same).length_eq.symm).symm

/-- In a sorted list, elements that compare equal stand in the order in which they stood before. -/
theorem pairwise_mergeSort_stable (trans : ∀ a b c, le a b → le b c → le a c) (total : ∀ a b, le a b || le b a)
    {R : α → α → Prop} {l : List α} (hl : l.Pairwise R) :
    (l.mergeSort le).Pairwise fun a b => le a b ∧ (le b a → R a b) := by
  have hsorted := List.pairwise_mergeSort trans total l
  rw [List.pairwise_iff_forall_sublist] at hsorted hl ⊢
  intro a b hab
  have hle : le a b := hsorted hab
  refine ⟨hle, fun hge => hl ?_⟩
  -- the elements that compare equal to `a`, before and after
  let same : α → Bool := fun c => le a c && le c a
  have hsame : (l.mergeSort le).filter same = l.filter same := by
    refine filter_mergeSort trans total (fun c d hc hd => ?_) l
    simp only [same, Bool.and_eq_true] at hc hd
    exact trans c a d hc.2 hd.1
  have hrefl : le a a := by simpa using total a a
  have hkept : [a, b].filter same = [a, b] := by
    simp [same, hrefl, hle, hge]
  have hsub := hab.filter same
  rw [hkept, hsame] at hsub
  exact hsub.trans List.filter_sublist

end StageRig
