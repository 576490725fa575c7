/-
  StageRig.Proofs.Schema.RoundTrip — what is written is read back.

  Data that fit a schema (`Fits`) are written as a tree that means them (`means_toNode`).
  That asks two things of the records (`Sound`): no key may name two fields, and a field
  that is left out when it is blank has to fall back on what was left out. All containers
  of that tree are asked for by the schema, so the text is read back exactly when it nests
  no deeper than the reader goes, and is malformed otherwise (`load_render`).
-/

import Mathlib.Data.List.GetD
import Mathlib.Data.List.Nodup
import Mathlib.Order.MinMax
import StageRig.Proofs.Json.Nesting
import StageRig.Proofs.Schema.Print
import StageRig.Proofs.Schema.Reading

namespace StageRig

namespace Datum

mutual

/-- How many lists and records of data lie in each other. -/
def depth : Datum → Nat
  | .list ds | .record ds => listDepth ds + 1
  | _ => 0

def listDepth : List Datum → Nat
  | [] => 0
  | d :: ds => max d.depth (listDepth ds)

end

theorem listDepth_le_iff {ds : List Datum} {n : Nat} : listDepth ds ≤ n ↔ ∀ d ∈ ds, d.depth ≤ n := by
  induction ds with
  | nil => simp [listDepth]
  | cons d ds ih => rw [listDepth, Nat.max_le, ih, List.forall_mem_cons]

theorem depth_list_le {α : Type} {write : α → Datum} {n : Nat} {l : List α} (h : ∀ a ∈ l, (write a).depth ≤ n) :
    (list (l.map write)).depth ≤ n + 1 := by
  rw [depth, Nat.add_le_add_iff_right, listDepth_le_iff]
  exact List.forall_mem_map.mpr h

end Datum

namespace Schema

open Json

variable {ρ : Type}

section

variable (env : ρ → RecordSpec ρ)

mutual

/-- Data that a schema describes. -/
def Fits (s : Schema ρ) : Datum → Prop
  | .absent => s.isOptional = true
  | .number _ => s.core = .number
  | .text _ => s.core = .text
  | .variant i => ∃ names, s.core = .variant names ∧ names.Nodup ∧ i < names.length
  | .list ds => ∃ s', s.core = .list s' ∧ AllFit s' ds
  | .record ds => ∃ r, s.core = .record r ∧ FieldsFit (env r).fields ds

def AllFit (s : Schema ρ) : List Datum → Prop
  | [] => True
  | d :: ds => Fits s d ∧ AllFit s ds

def FieldsFit (fields : List (FieldSpec ρ)) : List Datum → Prop
  | [] => fields = []
  | d :: ds => ∃ f fs, fields = f :: fs ∧ Fits f.schema d ∧ FieldsFit fs ds

end

/-- Records whose fields can be told apart, and are left out only where they come back. -/
structure Sound : Prop where
  keys : ∀ r, ((env r).fields.map (·.key)).Nodup
  quiet : ∀ r, ∀ f ∈ (env r).fields, f.quiet = true →
    ∀ d : Datum, d.isBlank = true → Fits env f.schema d → f.fallback? = some d

end

variable {env : ρ → RecordSpec ρ}

/-- What fits a schema fits where it may be missing, too. -/
theorem fits_optional {s : Schema ρ} {d : Datum} (h : Fits env s d) : Fits env (.optional s) d := by
  cases d with
  | absent => rfl
  | _ => exact h

theorem allFit_iff {s : Schema ρ} {ds : List Datum} : AllFit env s ds ↔ ∀ d ∈ ds, Fits env s d := by
  induction ds with
  | nil => simp [AllFit]
  | cons d ds ih => simp [AllFit, ih]

/-- A record fits when each of its fields does. -/
theorem fits_record {r : ρ} {ds : List Datum} (h : List.Forall₂ (fun f d => Fits env f.schema d) (env r).fields ds) :
    Fits env (.record r) (.record ds) := by
  refine ⟨r, rfl, ?_⟩
  generalize (env r).fields = fs at h ⊢
  induction h with
  | nil => rfl
  | cons hd _ ih => exact ⟨_, _, rfl, hd, ih⟩

/-! ## What is written means what it was written for -/

theorem names_of_core {s : Schema ρ} {names : List String} (h : s.core = .variant names) : s.names = names := by
  induction s with
  | optional s ih => exact ih h
  | variant ns =>
    cases h
    rfl
  | _ => cases h

theorem item_of_core {s s' : Schema ρ} (h : s.core = .list s') : s.item = s' := by
  induction s with
  | optional s ih => exact ih h
  | list s =>
    cases h
    rfl
  | _ => cases h

theorem fields_of_core {s : Schema ρ} {r : ρ} (h : s.core = .record r) : s.fields env = (env r).fields := by
  induction s with
  | optional s ih => exact ih h
  | record r' =>
    cases h
    rfl
  | _ => cases h

theorem means_number {s : Schema ρ} (h : s.core = .number) (n : UInt32) :
    Means env s (.number false (figureOf n.toNat)) (.number n) := by
  refine ⟨0, ?_⟩
  have hsize : n.toNat < UInt32.size := n.toNat_lt_size
  have hfound : (figureOf n.toNat).found false = .ok (.integer n.toNat) := found_figureOf (hsize.trans (by decide))
  rw [decode.eq_def]
  simp only [h, hfound, bind, Except.bind, decodeNumber, Int.toNat_natCast]
  simp [hsize]

theorem means_text {s : Schema ρ} (h : s.core = .text) (t : String) : Means env s (.string (glyphsOf t)) (.text t) := by
  refine ⟨0, ?_⟩
  rw [decode.eq_def]
  simp [h, value_glyphsOf, Except.map]

theorem decodeName_glyphsOf {names : List String} (h : names.Nodup) {i : Nat} (hi : i < names.length) :
    decodeName names (glyphsOf (names.getD i "")) = .ok i := by
  have hidx : names.idxOf? (names.getD i "") = some i := by
    rw [List.getD_eq_getElem _ _ hi, List.idxOf?_eq_some_iff]
    refine ⟨hi, rfl, fun j hj heq => ?_⟩
    exact Nat.ne_of_lt hj ((List.Nodup.getElem_inj_iff h).mp heq)
  rw [decodeName, value_glyphsOf]
  simp only [bind, Except.bind, String.ofList_toList, hidx]

theorem means_variant {s : Schema ρ} {names : List String} (h : s.core = .variant names) (hnames : names.Nodup) {i : Nat}
    (hi : i < names.length) : Means env s (.string (glyphsOf (names.getD i ""))) (.variant i) := by
  refine ⟨0, ?_⟩
  rw [decode.eq_def]
  simp only [h, decodeName_glyphsOf hnames hi, Except.map]

/-- Every key that is written is that of a field. -/
theorem exists_field_of_mem_toMembers (ds : List Datum) (fs : List (FieldSpec ρ)) :
    ∀ m ∈ toMembers env ds fs, ∃ f ∈ fs, m.1.string? = some f.key := by
  induction ds generalizing fs with
  | nil => exact nofun
  | cons d ds ih =>
    cases fs with
    | nil => exact nofun
    | cons f fs =>
      have htail : ∀ m ∈ toMembers env ds fs, ∃ f' ∈ f :: fs, m.1.string? = some f'.key := by
        intro m hm
        obtain ⟨f', hf', hkey⟩ := ih fs m hm
        exact ⟨f', List.mem_cons_of_mem f hf', hkey⟩
      rw [toMembers]
      split
      · exact htail
      · exact List.forall_mem_cons.mpr ⟨⟨f, List.mem_cons_self, string?_glyphsOf f.key⟩, htail⟩

/-- The members of fields that are left to write, behind those of others. -/
theorem filled_toMembers {fs : List (FieldSpec ρ)} {ds : List Datum} (hkeys : (fs.map (·.key)).Nodup)
    {before : List (Glyphs × Node)} (hbefore : ∀ m ∈ before, ∀ f ∈ fs, m.1.string? ≠ some f.key)
    (h : List.Forall₂ (fun f d => Means env f.schema (toNode env d f.schema) d ∧
      (f.quiet = true → d.isBlank = true → f.fallback? = some d)) fs ds) :
    List.Forall₂ (Filled (Means env) (before ++ toMembers env ds fs)) fs ds := by
  -- by the fields: the member of each goes over to `before`, where it is in the way of no later one
  induction h generalizing before with
  | nil => exact .nil
  | @cons f d fs ds hd hds ih =>
    rw [List.map_cons, List.nodup_cons] at hkeys
    obtain ⟨hf, hkeys⟩ := hkeys
    have hother : ∀ f' ∈ fs, f.key ≠ f'.key := fun f' hf' h => hf (List.mem_map.mpr ⟨f', hf', h.symm⟩)
    have hnone : valuesOf f.key before = [] := valuesOf_eq_nil fun m hm => hbefore m hm f List.mem_cons_self
    have hlater : valuesOf f.key (toMembers env ds fs) = [] := by
      refine valuesOf_eq_nil fun m hm h => ?_
      obtain ⟨f', hf', hkey⟩ := exists_field_of_mem_toMembers ds fs m hm
      exact hother f' hf' (Option.some.inj (h.symm.trans hkey))
    rw [toMembers]
    split
    · rename_i hblank
      rw [Bool.and_eq_true] at hblank
      refine .cons (.inl ⟨?_, hd.2 hblank.1 hblank.2⟩) (ih hkeys fun m hm f' hf' => hbefore m hm f' (List.mem_cons_of_mem f hf'))
      rw [valuesOf_append, hnone, hlater]
      rfl
    · refine .cons (.inr ⟨toNode env d f.schema, ?_, hd.1⟩) ?_
      · rw [valuesOf_append, hnone, valuesOf_cons_own (string?_glyphsOf f.key), hlater]
        rfl
      · rw [List.append_cons]
        refine ih hkeys fun m hm f' hf' => ?_
        rcases List.mem_append.mp hm with hm | hm
        · exact hbefore m hm f' (List.mem_cons_of_mem f hf')
        · rw [List.mem_singleton.mp hm, string?_glyphsOf]
          exact fun h => hother f' hf' (Option.some.inj h)

mutual

/-- What data are written as means them. -/
theorem means_toNode (henv : Sound env) : ∀ (d : Datum) (s : Schema ρ), Fits env s d → Means env s (toNode env d s) d
  | .absent, s, h => ⟨0, if_pos h⟩
  | .number n, s, h => means_number h n
  | .text t, s, h => means_text h t
  | .variant i, s, h => by
    obtain ⟨names, hs, hnames, hi⟩ := h
    rw [toNode, names_of_core hs]
    exact means_variant hs hnames hi
  | .list ds, s, h => by
    obtain ⟨s', hs, h⟩ := h
    rw [toNode, item_of_core hs]
    exact (means_list_iff hs).mpr ⟨ds, rfl, means_toNodes henv ds s' h⟩
  | .record ds, s, h => by
    obtain ⟨r, hs, h⟩ := h
    rw [toNode, fields_of_core hs, means_members_iff hs (henv.keys r)]
    have hfields := means_toMembers henv r ds (env r).fields h fun f hf => hf
    have hnames : ∀ m ∈ toMembers env ds (env r).fields, m.1.string?.isSome = true := by
      intro m hm
      obtain ⟨f, -, hkey⟩ := exists_field_of_mem_toMembers ds _ m hm
      rw [hkey]
      rfl
    have hnone : ∀ m ∈ ([] : List (Glyphs × Node)), ∀ f ∈ (env r).fields, m.1.string? ≠ some f.key := nofun
    exact ⟨hnames, ds, rfl, filled_toMembers (henv.keys r) hnone hfields⟩

theorem means_toNodes (henv : Sound env) : ∀ (ds : List Datum) (s : Schema ρ), AllFit env s ds →
    List.Forall₂ (Means env s) (toNodes env ds s) ds
  | [], _, _ => .nil
  | d :: ds, s, h => .cons (means_toNode henv d s h.1) (means_toNodes henv ds s h.2)

theorem means_toMembers (henv : Sound env) (r : ρ) : ∀ (ds : List Datum) (fs : List (FieldSpec ρ)), FieldsFit env fs ds →
    (∀ f ∈ fs, f ∈ (env r).fields) →
    List.Forall₂ (fun f d => Means env f.schema (toNode env d f.schema) d ∧
      (f.quiet = true → d.isBlank = true → f.fallback? = some d)) fs ds
  | [], fs, h, hfs => by
    cases h
    exact .nil
  | d :: ds, fs, h, hfs => by
    obtain ⟨f, fs, rfl, hd, hds⟩ := h
    obtain ⟨hf, hfs⟩ := List.forall_mem_cons.mp hfs
    exact .cons ⟨means_toNode henv d f.schema hd, fun hquiet hblank => henv.quiet r f hf hquiet d hblank hd⟩
      (means_toMembers henv r ds fs hds hfs)

end

/-! ## Depth -/

mutual

/-- Every container that is written is one that the schema asks for. -/
theorem typedNesting_toNode (henv : Sound env) : ∀ (d : Datum) (s : Schema ρ), Fits env s d →
    typedNesting env s (toNode env d s) = (toNode env d s).depth
  | .absent, _, _ | .number _, _, _ | .text _, _, _ | .variant _, _, _ => rfl
  | .list ds, s, h => by
    obtain ⟨s', hs, h⟩ := h
    simp only [toNode, typedNesting, Node.depth, hs, item_of_core hs, itemsNesting_toNodes henv ds s' h]
  | .record ds, s, h => by
    obtain ⟨r, hs, h⟩ := h
    have hmembers := membersNesting_toMembers henv r ds (env r).fields h fun f hf => hf
    simp only [toNode, typedNesting, Node.depth, hs, fields_of_core hs, hmembers]

theorem itemsNesting_toNodes (henv : Sound env) : ∀ (ds : List Datum) (s : Schema ρ), AllFit env s ds →
    itemsNesting env s (toNodes env ds s) = itemsDepth (toNodes env ds s)
  | [], _, _ => rfl
  | d :: ds, s, h => by
    rw [toNodes, itemsNesting, itemsDepth, typedNesting_toNode henv d s h.1, itemsNesting_toNodes henv ds s h.2]

theorem membersNesting_toMembers (henv : Sound env) (r : ρ) : ∀ (ds : List Datum) (fs : List (FieldSpec ρ)), FieldsFit env fs ds →
    (∀ f ∈ fs, f ∈ (env r).fields) → membersNesting env (env r).fields (toMembers env ds fs) = membersDepth (toMembers env ds fs)
  | [], fs, h, _ => by
    cases h
    rfl
  | d :: ds, fs, h, hfs => by
    obtain ⟨f, fs, rfl, hd, hds⟩ := h
    obtain ⟨hf, hfs⟩ := List.forall_mem_cons.mp hfs
    have hlater := membersNesting_toMembers henv r ds fs hds hfs
    obtain ⟨i, hi⟩ := List.getElem?_of_mem hf
    rw [toMembers]
    split
    · exact hlater
    · simp only [membersNesting, membersDepth, fieldOf?_own (henv.keys r) hi (string?_glyphsOf f.key), hlater,
        typedNesting_toNode henv d f.schema hd]

end

mutual

/-- Nothing is written deeper than it is. -/
theorem depth_toNode_le : ∀ (d : Datum) (s : Schema ρ), (toNode env d s).depth ≤ d.depth
  | .absent, _ | .number _, _ | .text _, _ | .variant _, _ => Nat.le_refl _
  | .list ds, s => Nat.succ_le_succ (itemsDepth_toNodes_le ds s.item)
  | .record ds, s => Nat.succ_le_succ (membersDepth_toMembers_le ds (s.fields env))

theorem itemsDepth_toNodes_le : ∀ (ds : List Datum) (s : Schema ρ), itemsDepth (toNodes env ds s) ≤ Datum.listDepth ds
  | [], _ => Nat.le_refl _
  | d :: ds, s => max_le_max (depth_toNode_le d s) (itemsDepth_toNodes_le ds s)

theorem membersDepth_toMembers_le : ∀ (ds : List Datum) (fs : List (FieldSpec ρ)),
    membersDepth (toMembers env ds fs) ≤ Datum.listDepth ds
  | [], _ => Nat.le_refl _
  | _ :: _, [] => Nat.zero_le _
  | d :: ds, f :: fs => by
    rw [toMembers]
    split
    · exact (membersDepth_toMembers_le ds fs).trans (Nat.le_max_right _ _)
    · exact max_le_max (depth_toNode_le d f.schema) (membersDepth_toMembers_le ds fs)

end

theorem nesting_render_le (d : Datum) (s : Schema ρ) : nesting (render env s d) ≤ d.depth := by
  rw [nesting_of_spelledBy (render_spelledBy d s)]
  exact depth_toNode_le d s

/-! ## The round trip -/

/-- A document is read back as what it was written for, unless it nests deeper than the reader goes. -/
theorem load_render (henv : Sound env) {s : Schema ρ} {d : Datum} (h : Fits env s d) :
    load env s (render env s d) = if nesting (render env s d) ≤ depthLimit then .ok d else .error .malformed := by
  have hspelled : (toNode env d s).SpelledBy (render env s d) := render_spelledBy d s
  rw [load_spelled hspelled, decode_of_means (means_toNode henv d s h), typedNesting_toNode henv d s h,
    nesting_of_spelledBy hspelled]

end Schema

end StageRig
