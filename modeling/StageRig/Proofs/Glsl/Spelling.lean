/-
  StageRig.Proofs.Glsl.Spelling — which types stand for structs, and that a spelling tells
  the type.

  Only a description with a struct name is resolved to a named type
  (`structName?_of_resolve`), and a format alone never is (`type?_ne_named`).

  A spelling keeps less than a type has: a square matrix is written with its size once, and
  matrices of all scalars but doubles are written alike. What comes about without a name
  (`Nameless`) never has a matrix of other scalars than floats and doubles, so nothing is
  lost there (`spelling_faithful`): a word without digits tells the kind and the scalar, and
  the numbers behind it tell the sizes.
-/

import StageRig.Glsl.Spelling
import StageRig.Proofs.Text.Numbers

namespace StageRig

open Glsl

theorem structName?_of_resolve {h : TypeHead} {format : Format} {n : String} (hr : h.resolve format = .ok (.named n)) :
    h.structName? = some n := by
  rw [TypeHead.resolve] at hr
  rcases hname : h.structName? with _ | name
  · have helement : h.elementType format ≠ .ok (.named n) := by
      rw [TypeHead.elementType]
      split
      · simp [TypeHead.matrixType]
      · split
        · simp [TypeHead.vectorType]
        · cases format.scalar? <;> simp
    rw [hname] at hr
    cases hshape : h.shape <;> simp [hshape, TypeHead.vectorType, TypeHead.matrixType, helement] at hr
  · rw [hname] at hr
    cases hr
    rfl

/-- A named description is spelled with its name, whatever else is known of it. -/
theorem spell_of_named {head : TypeHead} {name : String} (h : head.structName? = some name) (format : Format) :
    head.spell format = .ok name := by
  rw [TypeHead.spell, TypeHead.resolve, h]
  rfl

theorem type?_ne_named (format : Format) (n : String) : format.type? ≠ some (.named n) := by
  intro h
  rw [Format.type?.eq_def] at h
  split at h <;> cases h

namespace Glsl

/-! ## Types without a name -/

/-- The types that come about without the name of a struct: those of a description, and those of a format alone. -/
inductive Nameless : Ty → Prop
  | described {h : TypeHead} {format : Format} {ty : Ty} (hname : h.structName? = none) (hr : h.resolve format = .ok ty) :
      Nameless ty
  | bare {format : Format} {ty : Ty} (hf : format.type? = some ty) : Nameless ty

theorem Nameless.ne_named {n : String} (h : Nameless (.named n)) : False := by
  cases h with
  | described hname hr => cases hname.symm.trans (structName?_of_resolve hr)
  | bare hf => exact type?_ne_named _ n hf

theorem component_of_matrixType {h : TypeHead} {format : Format} {c : Scalar} {cols rows : UInt32}
    (hm : h.matrixType format = .matrix c cols rows) : c = .float ∨ c = .double := by
  rw [TypeHead.matrixType] at hm
  obtain ⟨rfl, -, -⟩ := Ty.matrix.inj hm
  split
  · exact Or.inr rfl
  · exact Or.inl rfl

/-- Matrices are of floats or of doubles. -/
theorem Nameless.matrix_component {c : Scalar} {cols rows : UInt32} (h : Nameless (.matrix c cols rows)) :
    c = .float ∨ c = .double := by
  cases h with
  | @described head format _ hname hr =>
    rw [TypeHead.resolve, hname] at hr
    cases hshape : head.shape with
    | matrix =>
      rw [hshape] at hr
      exact component_of_matrixType (Except.ok.inj hr)
    | array =>
      simp only [hshape, TypeHead.elementType] at hr
      split at hr
      · exact component_of_matrixType (Except.ok.inj hr)
      · split at hr
        · cases hr
        · split at hr <;> cases hr
    | _ => simp [hshape, TypeHead.vectorType] at hr
  | @bare format _ hf =>
    rw [Format.type?.eq_def] at hf
    split at hf <;> cases hf

/-! ## Words and numbers -/

/-- What a spelling starts with, in front of its numbers. -/
def Ty.stem : Ty → String
  | .named name => name
  | .scalar s => s.spelling
  | .vector c _ => c.vectorStem
  | .matrix c _ _ => c.matrixStem

/-- The numbers of a spelling. -/
def Ty.sizes : Ty → List Char
  | .named _ | .scalar _ => []
  | .vector _ n => n.toNat.repr.toList
  | .matrix _ cols rows => cols.toNat.repr.toList ++ if cols = rows then [] else 'x' :: rows.toNat.repr.toList

theorem toList_spelling (ty : Ty) : ty.spelling.toList = ty.stem.toList ++ ty.sizes := by
  cases ty with
  | named name => exact (List.append_nil _).symm
  | scalar s => exact (List.append_nil _).symm
  | vector c n => simp [Ty.spelling, Ty.stem, Ty.sizes, toString]
  | matrix c cols rows =>
    rw [Ty.spelling, Ty.sizes]
    split <;> simp [Ty.stem, toString]

theorem startsWithDigit_sizes (ty : Ty) : StartsWithDigit ty.sizes := by
  cases ty with
  | named name => exact startsWithDigit_nil
  | scalar s => exact startsWithDigit_nil
  | vector c n =>
    have h := startsWithDigit_repr n.toNat []
    rwa [List.append_nil] at h
  | matrix c cols rows => exact startsWithDigit_repr _ _

/-- The text has no digits. -/
def Digitless (s : String) : Prop := ∀ c ∈ s.toList, c.isDigit = false

instance (s : String) : Decidable (Digitless s) := List.decidableBAll (fun c : Char => c.isDigit = false) s.toList

theorem Nameless.digitless_stem {ty : Ty} (h : Nameless ty) : Digitless ty.stem := by
  cases ty with
  | named n => exact h.ne_named.elim
  | scalar s =>
    show Digitless s.spelling
    cases s <;> decide
  | vector c n =>
    show Digitless c.vectorStem
    cases c <;> decide
  | matrix c cols rows =>
    show Digitless c.matrixStem
    cases c <;> decide

/-! ## Scalars by their words -/

theorem Scalar.spelling_injective {s s' : Scalar} (h : s.spelling = s'.spelling) : s = s' := by
  cases s <;> cases s' <;> first | rfl | exact absurd h (by decide)

theorem Scalar.vectorStem_injective {s s' : Scalar} (h : s.vectorStem = s'.vectorStem) : s = s' := by
  cases s <;> cases s' <;> first | rfl | exact absurd h (by decide)

theorem Scalar.spelling_ne_vectorStem (s s' : Scalar) : s.spelling ≠ s'.vectorStem := by
  cases s <;> cases s' <;> decide

theorem Scalar.spelling_ne_matrixStem (s s' : Scalar) : s.spelling ≠ s'.matrixStem := by
  cases s <;> cases s' <;> decide

theorem Scalar.vectorStem_ne_matrixStem (s s' : Scalar) : s.vectorStem ≠ s'.matrixStem := by
  cases s <;> cases s' <;> decide

/-- Only floats and doubles are told from each other by the words of matrices. -/
theorem Scalar.eq_of_matrixStem {s s' : Scalar} (hs : s = .float ∨ s = .double) (hs' : s' = .float ∨ s' = .double)
    (h : s.matrixStem = s'.matrixStem) : s = s' := by
  rcases hs with rfl | rfl <;> rcases hs' with rfl | rfl <;> first | rfl | exact absurd h (by decide)

/-- Columns and rows, of which a square has one. -/
theorem sizes_injective {cols rows cols' rows' : UInt32} {c c' : Scalar}
    (h : (Ty.matrix c cols rows).sizes = (Ty.matrix c' cols' rows').sizes) : cols = cols' ∧ rows = rows' := by
  have hdigits : ∀ n : UInt32, ∀ d ∈ n.toNat.repr.toList, d.isDigit = true := fun n d hd => isDigit_of_mem_repr hd
  have htell : ∀ {n m : UInt32}, n.toNat.repr.toList = m.toNat.repr.toList → n = m :=
    fun h => UInt32.toNat_inj.mp (repr_toList_injective h)
  -- one more mark at the end, so that a square stops somewhere too
  have htext : cols.toNat.repr.toList ++ (if cols = rows then [';'] else 'x' :: (rows.toNat.repr.toList ++ [';'])) =
      cols'.toNat.repr.toList ++ if cols' = rows' then [';'] else 'x' :: (rows'.toNat.repr.toList ++ [';']) := by
    have := congrArg (· ++ [';']) h
    simp only [Ty.sizes, List.append_assoc] at this
    split at this <;> split at this <;> simp_all
  by_cases hsquare : cols = rows <;> by_cases hsquare' : cols' = rows'
  · rw [if_pos hsquare, if_pos hsquare'] at htext
    obtain ⟨hcols, -, -⟩ := append_inj_of_stop (hdigits _) (hdigits _) (by decide) (by decide) htext
    have hcols := htell hcols
    exact ⟨hcols, hsquare.symm.trans (hcols.trans hsquare')⟩
  · rw [if_pos hsquare, if_neg hsquare'] at htext
    obtain ⟨-, hstop, -⟩ := append_inj_of_stop (hdigits _) (hdigits _) (by decide) (by decide) htext
    exact absurd hstop (by decide)
  · rw [if_neg hsquare, if_pos hsquare'] at htext
    obtain ⟨-, hstop, -⟩ := append_inj_of_stop (hdigits _) (hdigits _) (by decide) (by decide) htext
    exact absurd hstop (by decide)
  · rw [if_neg hsquare, if_neg hsquare'] at htext
    obtain ⟨hcols, -, hrows⟩ := append_inj_of_stop (hdigits _) (hdigits _) (by decide) (by decide) htext
    exact ⟨htell hcols, htell (List.append_cancel_right hrows)⟩

/-! ## Types by their spellings -/

/-- A word and numbers make up one type at most. -/
theorem eq_of_stem_of_sizes {a b : Ty} (ha : Nameless a) (hb : Nameless b) (hstem : a.stem = b.stem)
    (hsizes : a.sizes = b.sizes) : a = b := by
  cases a with
  | named n => exact ha.ne_named.elim
  | scalar s =>
    cases b with
    | named n => exact hb.ne_named.elim
    | scalar s' => rw [Scalar.spelling_injective hstem]
    | vector c n => exact absurd hstem (Scalar.spelling_ne_vectorStem _ _)
    | matrix c cols rows => exact absurd hstem (Scalar.spelling_ne_matrixStem _ _)
  | vector c n =>
    cases b with
    | named n => exact hb.ne_named.elim
    | scalar s => exact absurd hstem.symm (Scalar.spelling_ne_vectorStem _ _)
    | vector c' n' =>
      have hn : n = n' := UInt32.toNat_inj.mp (repr_toList_injective hsizes)
      rw [Scalar.vectorStem_injective hstem, hn]
    | matrix c cols rows => exact absurd hstem (Scalar.vectorStem_ne_matrixStem _ _)
  | matrix c cols rows =>
    cases b with
    | named n => exact hb.ne_named.elim
    | scalar s => exact absurd hstem.symm (Scalar.spelling_ne_matrixStem _ _)
    | vector c' n => exact absurd hstem.symm (Scalar.vectorStem_ne_matrixStem _ _)
    | matrix c' cols' rows' =>
      obtain ⟨rfl, rfl⟩ := sizes_injective hsizes
      rw [Scalar.eq_of_matrixStem ha.matrix_component hb.matrix_component hstem]

theorem eq_of_spelling {a b : Ty} (ha : Nameless a) (hb : Nameless b) (h : a.spelling = b.spelling) : a = b := by
  have htext := congrArg String.toList h
  rw [toList_spelling, toList_spelling] at htext
  obtain ⟨hstem, hsizes⟩ := append_inj_of_numbers ha.digitless_stem hb.digitless_stem (startsWithDigit_sizes a)
    (startsWithDigit_sizes b) htext
  exact eq_of_stem_of_sizes ha hb (String.toList_inj.mp hstem) hsizes

/-- Two types without names are spelled alike exactly when they are the same scalar, or vectors of the same scalar and size,
or matrices of the same scalar, columns and rows. -/
theorem spelling_faithful {a b : Ty} (ha : Nameless a) (hb : Nameless b) :
    (a.spelling = b.spelling ↔ a = b) ∧
      (a = b ↔ (∃ s, a = .scalar s ∧ b = .scalar s) ∨ (∃ c n, a = .vector c n ∧ b = .vector c n) ∨
        ∃ c cols rows, a = .matrix c cols rows ∧ b = .matrix c cols rows) := by
  refine ⟨⟨eq_of_spelling ha hb, fun h => h ▸ rfl⟩, ⟨fun h => ?_, fun h => ?_⟩⟩
  · subst h
    cases a with
    | named n => exact ha.ne_named.elim
    | scalar s => exact Or.inl ⟨s, rfl, rfl⟩
    | vector c n => exact Or.inr (Or.inl ⟨c, n, rfl, rfl⟩)
    | matrix c cols rows => exact Or.inr (Or.inr ⟨c, cols, rows, rfl, rfl⟩)
  · rcases h with ⟨s, rfl, rfl⟩ | ⟨c, n, rfl, rfl⟩ | ⟨c, cols, rows, rfl, rfl⟩ <;> rfl

/-- Matrices of two columns and three rows, whose component is recorded as an integer, and whose element is recorded as a
vector too. -/
def grids : TypeHead := { shape := .array, scalar := ⟨some .int, 32, 1⟩, vectorSize := 3, matrix := ⟨2, 3⟩, dims := [4] }

/-- A matrix of twenty-three columns and rows, of which nothing else is known. -/
def sheet : TypeHead := { shape := .matrix, matrix := ⟨23, 23⟩ }

/-- An array of integer matrices is spelled like a matrix of floats and no other. -/
theorem grids_spelling : Nameless (.matrix .float 2 3) ∧ Nameless (.matrix .float 23 23) ∧
    grids.resolve .undefined = .ok (.matrix .float 2 3) ∧ sheet.resolve .undefined = .ok (.matrix .float 23 23) ∧
    (Ty.matrix .float 2 3).spelling = "mat2x3" ∧ (Ty.matrix .float 23 23).spelling = "mat23" ∧
    (Ty.matrix .float 2 3).spelling ≠ (Ty.matrix .float 23 23).spelling := by
  have hgrids : grids.resolve .undefined = .ok (.matrix .float 2 3) := rfl
  have hsheet : sheet.resolve .undefined = .ok (.matrix .float 23 23) := rfl
  have ha : Nameless (.matrix .float 2 3) := .described (h := grids) rfl hgrids
  have hb : Nameless (.matrix .float 23 23) := .described (h := sheet) rfl hsheet
  refine ⟨ha, hb, hgrids, hsheet, by decide, by decide, fun h => ?_⟩
  exact absurd ((spelling_faithful ha hb).1.mp h) (by decide)

end Glsl

end StageRig
