/-
  StageRig.Proofs.Schema.Accepted — every text that is accepted spells a tree.

  Each reader, where it succeeds, has read a piece of the grammar; the readers of the parts
  are taken as given, so that one induction on the depth is enough.
-/

import StageRig.Proofs.Schema.Reading

namespace StageRig.Schema

open Json

variable {ρ : Type} {env : ρ → RecordSpec ρ} {steps : Nat} {cs rest : Rest}

/-- The reader reads nothing but values. -/
def ReadsValues {α : Type} (item : Rest → Except LoadError (α × Rest)) : Prop :=
  ∀ cs a rest, item cs = .ok (a, rest) → ∃ v : Node, v.Spells cs rest

/-! ## Values without items -/

theorem readsValues_number : ReadsValues readNumber := by
  intro cs d rest h
  rw [readNumber] at h
  split at h
  · cases h
  · rename_i cs₁ hcs
    obtain ⟨⟨found, cs₂⟩, hscan, h⟩ := bind_eq_ok_iff.mp h
    obtain ⟨f, hf⟩ := exists_figure_of_scanNumber hscan
    have hv : (Node.number true f).Spells cs cs₂ := ⟨cs₂, by rw [hcs, hf]; rfl, rfl⟩
    cases found
    case integer n =>
      dsimp only at h
      split at h
      · cases h
        exact ⟨_, hv⟩
      · cases h
    all_goals cases h
  · rename_i c cs₁ _ hcs
    split at h
    · obtain ⟨⟨found, cs₂⟩, hscan, h⟩ := bind_eq_ok_iff.mp h
      obtain ⟨f, hf⟩ := exists_figure_of_scanNumber hscan
      have hv : (Node.number false f).Spells cs cs₂ := ⟨cs₂, by rw [hcs, hf], rfl⟩
      cases found
      case integer n =>
        dsimp only at h
        split at h
        · cases h
          exact ⟨_, hv⟩
        · cases h
      all_goals cases h
    · cases h

theorem readsValues_text : ReadsValues readText := by
  intro cs d rest h
  rw [readText] at h
  split at h
  · cases h
  · rename_i cs' hcs
    obtain ⟨⟨s, rest'⟩, hscan, heq⟩ := map_eq_ok_iff.mp h
    cases heq
    obtain ⟨gs, rfl⟩ := exists_glyphs hscan
    exact ⟨.string gs, rest, by simp [hcs, Glyphs.quoted], rfl⟩
  · cases h

theorem exists_key_of_readName {names : List String} {i : Nat} (h : readName names cs = .ok (i, rest)) :
    ∃ gs : Glyphs, cs = gs.text ++ '"' :: rest := by
  obtain ⟨⟨name, rest'⟩, hscan, h⟩ := bind_eq_ok_iff.mp h
  dsimp only at h
  split at h
  · cases h
    exact exists_glyphs hscan
  · cases h

theorem spells_null_of_readNull (h : readNull cs = .ok rest) : Node.null.Spells cs rest := by
  rw [readNull] at h
  split at h
  · cases h
  · rename_i cs' hcs
    exact ⟨rest, by rw [hcs, eq_append_of_expectWord h]; rfl, rfl⟩
  · cases h

theorem readsValues_variant (nested : Bool) (names : List String) : ReadsValues (readVariant nested names) := by
  intro cs d rest h
  rw [readVariant] at h
  split at h
  · cases h
  · rename_i cs' hcs
    obtain ⟨⟨i, rest'⟩, hname, heq⟩ := map_eq_ok_iff.mp h
    cases heq
    obtain ⟨gs, rfl⟩ := exists_key_of_readName hname
    exact ⟨.string gs, rest, by simp [hcs, Glyphs.quoted], rfl⟩
  · rename_i cs' hcs
    split at h
    · cases h
    · split at h
      · cases h
      · rename_i cs₁ hcs₁
        obtain ⟨⟨i, cs₂⟩, hname, h⟩ := bind_eq_ok_iff.mp h
        obtain ⟨cs₃, hcolon, h⟩ := bind_eq_ok_iff.mp h
        obtain ⟨cs₄, hnull, h⟩ := bind_eq_ok_iff.mp h
        split at h
        · cases h
        · rename_i cs₅ hclose
          cases h
          obtain ⟨gs, rfl⟩ := exists_key_of_readName hname
          refine ⟨.map [(gs, .null)], Node.spells_map.mpr ⟨cs', hcs, spaced_members.mpr ?_⟩⟩
          exact ⟨cs₃, spaced_key_iff.mpr ⟨cs₂, hcs₁, hcolon⟩, cs₄, spells_null_of_readNull hnull, rest, hclose, rfl⟩
        · cases h
      · cases h
  · cases h

/-! ## Lists -/

/-- One value and those behind it. -/
theorem exists_items_of_bind {x : Except LoadError (Datum × Rest)} {next : Rest → Except LoadError (List Datum × Rest)} {stop : Rest}
    (hx : ∀ d mid, x = .ok (d, mid) → ∃ v : Node, v.Spells cs mid)
    (hnext : ∀ {mid : Rest} {ds : List Datum}, next mid = .ok (ds, stop) → ∃ vs, Spaced (itemTokens false vs) mid rest)
    {ds : List Datum} (h : (x >>= fun p => next p.2 >>= fun q => .ok (p.1 :: q.1, q.2)) = .ok (ds, stop)) :
    ∃ v vs, Spaced (itemTokens true (v :: vs)) cs rest := by
  obtain ⟨⟨d, mid⟩, hd, h⟩ := bind_eq_ok_iff.mp h
  obtain ⟨⟨ds', mid'⟩, hds, h⟩ := bind_eq_ok_iff.mp h
  cases h
  obtain ⟨v, hv⟩ := hx d mid hd
  obtain ⟨vs, hvs⟩ := hnext hds
  exact ⟨v, vs, spaced_items.mpr ⟨mid, hv, hvs⟩⟩

theorem exists_items_first (h : ∃ v vs, Spaced (itemTokens true (v :: vs)) (skipBlanks cs) rest) :
    ∃ vs, Spaced (itemTokens true vs) cs rest := by
  obtain ⟨v, vs, h⟩ := h
  obtain ⟨mid, hv, hvs⟩ := spaced_items.mp h
  exact ⟨v :: vs, spaced_items.mpr ⟨mid, Node.spells_skipBlanks.mp hv, hvs⟩⟩

theorem exists_items_next {mid : Rest} (hcs : skipBlanks cs = ',' :: mid)
    (h : ∃ v vs, Spaced (itemTokens true (v :: vs)) (skipBlanks mid) rest) : ∃ vs, Spaced (itemTokens false vs) cs rest := by
  obtain ⟨v, vs, h⟩ := h
  obtain ⟨mid', hv, hvs⟩ := spaced_items.mp h
  exact ⟨v :: vs, spaced_items_next.mpr ⟨mid, hcs, spaced_items.mpr ⟨mid', Node.spells_skipBlanks.mp hv, hvs⟩⟩⟩

theorem spaced_of_readItems {item : Rest → Except LoadError (Datum × Rest)} (hitem : ReadsValues item) (k : Nat) {first : Bool}
    {ds : List Datum} (h : readItems item k first cs = .ok (ds, rest)) : ∃ vs, Spaced (itemTokens first vs) cs rest := by
  -- by the steps, of which each passes one value
  induction k generalizing cs first ds with
  | zero => cases h
  | succ k ih =>
    rw [readItems] at h
    split at h
    · cases h
    · rename_i mid hcs
      cases h
      exact ⟨[], _, hcs, rfl⟩
    · rename_i c mid _ hcs
      cases first with
      | true =>
        rw [if_pos rfl, ← hcs] at h
        exact exists_items_first (exists_items_of_bind (hitem _) ih h)
      | false =>
        rw [if_neg Bool.false_ne_true] at h
        split at h
        · cases h
        · rename_i hcomma
          rw [not_not] at hcomma
          rw [hcomma] at hcs
          split at h
          · cases h
          · cases h
          · exact exists_items_next hcs (exists_items_of_bind (hitem _) ih h)

theorem closeList_eq_ok_iff : closeList cs = .ok rest ↔ skipBlanks cs = ']' :: rest := by
  rw [closeList]
  split <;> simp_all

/-- A list that ends has no items. -/
theorem eq_nil_of_spaced {vs : List Node} {mid : Rest} {first : Bool} (h : Spaced (itemTokens first vs) cs rest)
    (hcs : skipBlanks cs = ']' :: mid) : vs = [] := by
  cases vs with
  | nil => rfl
  | cons v vs =>
    cases first with
    | true =>
      obtain ⟨mid', hv, -⟩ := spaced_items.mp h
      obtain ⟨c, t, hcs', -, hc, -⟩ := hv.exists_ne_mark
      rw [hcs] at hcs'
      cases hcs'
      exact absurd rfl hc
    | false =>
      obtain ⟨mid', hcs', -⟩ := spaced_items_next.mp h
      rw [hcs] at hcs'
      cases hcs'

theorem spaced_of_readPositions {reader : Schema ρ → Rest → Except LoadError (Datum × Rest)}
    (hreader : ∀ s, ReadsValues (reader s)) {spec : RecordSpec ρ} {fields : List (FieldSpec ρ)} {i : Nat}
    {ds : List Datum} {cs' : Rest} (h : readPositions reader spec i fields cs = .ok (ds, cs')) (hclose : closeList cs' = .ok rest) :
    ∃ vs, Spaced (itemTokens (i = 0) vs) cs rest := by
  induction fields generalizing cs i ds with
  | nil =>
    cases h
    exact ⟨[], rest, closeList_eq_ok_iff.mp hclose, rfl⟩
  | cons f fs ih =>
    rw [readPositions] at h
    split at h
    · cases h
    · -- the list ends here, and the fields that are left fall back
      rename_i mid hcs
      split at h
      · obtain ⟨⟨ds', cs₂⟩, hds, h⟩ := bind_eq_ok_iff.mp h
        cases h
        obtain ⟨vs, hvs⟩ := ih hds
        cases eq_nil_of_spaced hvs hcs
        exact ⟨[], hvs⟩
      · cases h
    · rename_i c mid _ hcs
      cases i with
      | zero =>
        rw [if_pos rfl, ← hcs] at h
        exact exists_items_first (exists_items_of_bind (hreader _ _) ih h)
      | succ i =>
        rw [if_neg (Nat.succ_ne_zero i)] at h
        split at h
        · cases h
        · rename_i hcomma
          rw [not_not] at hcomma
          rw [hcomma] at hcs
          split at h
          · cases h
          · cases h
          · exact exists_items_next hcs (exists_items_of_bind (hreader _ _) ih h)

/-! ## Objects -/

theorem spaced_of_readMembers {reader : Schema ρ → Rest → Except LoadError (Datum × Rest)} (hreader : ∀ s, ReadsValues (reader s))
    {fields : List (FieldSpec ρ)} (k : Nat) {first : Bool} {values : List (Option Datum)} {ds : List Datum}
    (h : readMembers reader fields k first values cs = .ok (ds, rest)) : ∃ ms, Spaced (memberTokens first ms) cs rest := by
  induction k generalizing cs first values ds with
  | zero => cases h
  | succ k ih =>
    have hmember : ∀ cs cs₁ ds, skipBlanks cs = '"' :: cs₁ →
        ((scanString cs₁).bind fun q => onMember fields values q.1
          (fun i f => expectColon q.2 >>= fun cs => reader f.schema cs >>= fun p =>
            readMembers reader fields k false (values.set i (some p.1)) p.2)
          (expectColon q.2 >>= fun cs => skipValue k cs >>= readMembers reader fields k false values)) = .ok (ds, rest) →
          ∃ m ms, Spaced (memberTokens true (m :: ms)) cs rest := by
      intro cs cs₁ ds hcs h
      obtain ⟨⟨name, cs₂⟩, hname, h⟩ := bind_eq_ok_iff.mp h
      obtain ⟨key, hkey⟩ := exists_glyphs hname
      rw [hkey] at hcs
      rcases onMember_eq_ok h with ⟨i, f, h⟩ | h
      · obtain ⟨cs₃, hcolon, h⟩ := bind_eq_ok_iff.mp h
        obtain ⟨⟨d, cs₄⟩, hd, h⟩ := bind_eq_ok_iff.mp h
        obtain ⟨v, hv⟩ := hreader _ _ _ _ hd
        obtain ⟨ms, hms⟩ := ih h
        exact ⟨(key, v), ms, spaced_members.mpr ⟨cs₃, spaced_key_iff.mpr ⟨cs₂, hcs, hcolon⟩, cs₄, hv, hms⟩⟩
      · obtain ⟨cs₃, hcolon, h⟩ := bind_eq_ok_iff.mp h
        obtain ⟨cs₄, hskip, h⟩ := bind_eq_ok_iff.mp h
        obtain ⟨v, hv⟩ := exists_spelled_of_skipValue hskip
        obtain ⟨ms, hms⟩ := ih h
        exact ⟨(key, v), ms, spaced_members.mpr ⟨cs₃, spaced_key_iff.mpr ⟨cs₂, hcs, hcolon⟩, cs₄, hv, hms⟩⟩
    rw [readMembers] at h
    split at h
    · cases h
    · rename_i cs₁ hcs
      obtain ⟨ds', -, heq⟩ := map_eq_ok_iff.mp h
      cases heq
      exact ⟨[], rest, hcs, rfl⟩
    · rename_i c cs₁ _ hcs
      cases first with
      | true =>
        rw [if_pos rfl] at h
        split at h
        · rename_i hc
          rw [hc] at hcs
          obtain ⟨m, ms, hms⟩ := hmember _ _ _ hcs h
          exact ⟨m :: ms, hms⟩
        · cases h
      | false =>
        rw [if_neg Bool.false_ne_true] at h
        split at h
        · cases h
        · rename_i hcomma
          rw [not_not] at hcomma
          rw [hcomma] at hcs
          split at h
          · cases h
          · rename_i cs₂ hcs₁
            obtain ⟨m, ms, hms⟩ := hmember _ _ _ hcs₁ h
            exact ⟨m :: ms, spaced_members_next.mpr ⟨cs₁, hcs, hms⟩⟩
          · cases h

/-! ## Values -/

theorem readsValues_readWith {inner? : Option (Reader ρ)} (hinner : ∀ inner ∈ inner?, ∀ s, ReadsValues (inner s)) (s : Schema ρ) :
    ReadsValues (readWith env steps inner? s) := by
  induction s with
  | number => exact readsValues_number
  | text => exact readsValues_text
  | variant names => exact readsValues_variant _ names
  | optional s ih =>
    intro cs d rest h
    rw [readWith] at h
    split at h
    · rename_i cs₁ hcs
      obtain ⟨rest', hword, heq⟩ := map_eq_ok_iff.mp h
      cases heq
      exact ⟨.null, rest, by rw [hcs, eq_append_of_expectWord hword]; rfl, rfl⟩
    · obtain ⟨v, hv⟩ := ih _ _ _ h
      exact ⟨v, Node.spells_skipBlanks.mp hv⟩
  | list s ih =>
    clear ih
    intro cs d rest h
    rw [readWith.eq_def] at h
    dsimp only at h
    split at h
    · cases h
    · rename_i cs₁ inner hcs
      obtain ⟨⟨ds, rest'⟩, hitems, heq⟩ := map_eq_ok_iff.mp h
      cases heq
      obtain ⟨vs, hvs⟩ := spaced_of_readItems (hinner inner rfl s) steps hitems
      exact ⟨.list vs, Node.spells_list.mpr ⟨cs₁, hcs, hvs⟩⟩
    · cases h
    · cases h
  | record r =>
    intro cs d rest h
    rw [readWith.eq_def] at h
    dsimp only at h
    split at h
    · cases h
    · rename_i cs₁ inner hcs
      rw [readList_eq] at h
      obtain ⟨⟨ds, rest'⟩, hpositions, heq⟩ := map_eq_ok_iff.mp h
      cases heq
      obtain ⟨⟨ds', cs₂⟩, hpositions, h'⟩ := bind_eq_ok_iff.mp hpositions
      obtain ⟨cs₃, hclose, h'⟩ := bind_eq_ok_iff.mp h'
      cases h'
      obtain ⟨vs, hvs⟩ := spaced_of_readPositions (hinner inner rfl) hpositions hclose
      exact ⟨.list vs, Node.spells_list.mpr ⟨cs₁, hcs, hvs⟩⟩
    · rename_i cs₁ inner hcs
      obtain ⟨⟨ds, rest'⟩, hmembers, heq⟩ := map_eq_ok_iff.mp h
      cases heq
      obtain ⟨ms, hms⟩ := spaced_of_readMembers (hinner inner rfl) steps hmembers
      exact ⟨.map ms, Node.spells_map.mpr ⟨cs₁, hcs, hms⟩⟩
    · cases h
    · cases h
    · cases h

/-- Whatever is read is a value. -/
theorem readsValues_read (n : Nat) (s : Schema ρ) : ReadsValues (read env steps n s) := by
  induction n generalizing s with
  | zero => exact readsValues_readWith (by simp) s
  | succ n ih => exact readsValues_readWith (by simpa using ih) s

/-- A text that is accepted spells a value. -/
theorem exists_spelledBy {s : Schema ρ} {text : String} {d : Datum} (h : load env s text = .ok d) :
    ∃ v : Node, v.SpelledBy text := by
  rw [load] at h
  split at h
  · cases h
  · rename_i d' cs hread
    split at h
    · rename_i hcs
      obtain ⟨v, hv⟩ := readsValues_read _ _ _ _ _ hread
      exact ⟨v, cs, hv, hcs⟩
    · cases h

end StageRig.Schema
