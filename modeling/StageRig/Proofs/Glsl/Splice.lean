/-
  StageRig.Proofs.Glsl.Splice — what a finished draft reads, mark by mark.

  The patches of one mark come out together, in the order in which they were given, at
  the place in the body where the mark was taken (`text_of_one_mark`).
-/

import StageRig.Glsl.Draft

namespace StageRig.Glsl.Draft

/-- A patch whose mark was taken behind the characters `front`, counted from the cursor. -/
theorem splice_cons {cursor : Nat} {front : List Char} {p : Patch} (h : p.offset - cursor = byteSize front)
    (back : List Char) (ps : List Patch) :
    splice cursor (front ++ back) (p :: ps) = front ++ p.text.toList ++ splice p.offset back ps := by
  rw [splice, h, splitBytes_byteSize]

/-- Patches at the cursor stand before everything that follows. -/
theorem splice_at_cursor (cursor : Nat) (rest : List Char) (ps : List Patch) (h : ∀ p ∈ ps, p.offset = cursor) :
    splice cursor rest ps = ps.flatMap (fun p => p.text.toList) ++ rest := by
  induction ps with
  | nil => rfl
  | cons p ps ih =>
    have hp : p.offset = cursor := h p (by simp)
    have hhere : p.offset - cursor = byteSize [] := by simp [hp]
    have hcut := splice_cons hhere rest ps
    rw [hp, ih fun q hq => h q (by simp [hq])] at hcut
    simpa using hcut

/-- A draft whose patches all have the mark that was taken behind `head`. -/
theorem text_of_one_mark {d : Draft} {head tail : String} (hb : d.body = head ++ tail)
    (hp : ∀ p ∈ d.patches, p.offset = byteSize head.toList) :
    d.text = head ++ String.join (d.patches.map (·.text)) ++ tail := by
  have hsorted : d.patches.mergeSort (fun p q => p.offset ≤ q.offset) = d.patches := by
    apply List.mergeSort_of_pairwise
    refine List.pairwise_of_forall_mem_list fun p hp' q hq' => ?_
    simp [hp p hp', hp q hq']
  have hcut : splice 0 (head.toList ++ tail.toList) d.patches =
      head.toList ++ (d.patches.flatMap (fun p => p.text.toList) ++ tail.toList) := by
    cases hps : d.patches with
    | nil => simp [splice]
    | cons p ps =>
      rw [hps] at hp
      have hoff : p.offset = byteSize head.toList := hp p (by simp)
      have hrest : ∀ q ∈ ps, q.offset = p.offset := fun q hq => by rw [hoff, hp q (by simp [hq])]
      rw [splice_cons (by simpa using hoff), splice_at_cursor _ _ ps hrest]
      simp
  rw [Draft.text, hsorted, hb, String.toList_append, hcut, ← String.toList_inj]
  simp [String.toList_join, List.flatMap_map]

end StageRig.Glsl.Draft
