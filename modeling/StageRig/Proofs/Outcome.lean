/-
  StageRig.Proofs.Outcome — when a sequence of fallible steps succeeds.

  A sequence succeeds exactly when its steps do, each with the value that the next one
  takes; a map over a list succeeds exactly when it does at every element
  (`mapM_eq_ok_iff`). A sequence that fails ends in the error of its first step that
  fails (`bind_eq_error_iff`), and `FailsFirst` says the same of a list.

  A computation need not go through a list to fail like one: `FailsAlong` says that it
  fails exactly where one of the checks in a list does, with the first one's error. It
  is kept by sequencing, where the lists are appended (`FailsAlong.bind`).
-/

import Mathlib.Data.List.Forall2

namespace StageRig

variable {ε α β : Type}

@[simp] theorem bind_eq_ok_iff {x : Except ε α} {f : α → Except ε β} {b : β} :
    (x >>= f) = .ok b ↔ ∃ a, x = .ok a ∧ f a = .ok b := by
  rcases x with e | a
  · constructor
    · intro h; cases h
    · intro h
      obtain ⟨a, h, _⟩ := h
      cases h
  · constructor
    · intro h; exact ⟨a, rfl, h⟩
    · intro h
      obtain ⟨a', h, hf⟩ := h
      cases h
      exact hf

theorem bind_eq_error_iff {x : Except ε α} {f : α → Except ε β} {e : ε} :
    (x >>= f) = .error e ↔ x = .error e ∨ ∃ a, x = .ok a ∧ f a = .error e := by
  rcases x with e' | a
  · constructor
    · intro h
      cases h
      exact Or.inl rfl
    · intro h
      rcases h with h | ⟨a, h, _⟩
      · cases h
        rfl
      · cases h
  · constructor
    · intro h
      exact Or.inr ⟨a, rfl, h⟩
    · intro h
      rcases h with h | ⟨a', h, hf⟩
      · cases h
      · cases h
        exact hf

@[simp] theorem pure_eq_ok (a : α) : (pure a : Except ε α) = .ok a := rfl

@[simp] theorem map_eq_ok_iff {x : Except ε α} {f : α → β} {b : β} :
    x.map f = .ok b ↔ ∃ a, x = .ok a ∧ f a = b := by
  rcases x with e | a <;> simp [Except.map]

@[simp] theorem map_eq_error_iff {x : Except ε α} {f : α → β} {e : ε} : x.map f = .error e ↔ x = .error e := by
  rcases x with e' | a <;> simp [Except.map]

@[simp] theorem mapError_eq_ok_iff {ε' : Type} {x : Except ε α} {f : ε → ε'} {a : α} :
    x.mapError f = .ok a ↔ x = .ok a := by
  rcases x with e | a <;> simp [Except.mapError]

theorem mapM_eq_ok_iff {f : α → Except ε β} {l : List α} {l' : List β} :
    l.mapM f = .ok l' ↔ List.Forall₂ (fun a b => f a = .ok b) l l' := by
  induction l generalizing l' with
  | nil => rw [List.mapM_nil, pure_eq_ok, Except.ok.injEq, List.forall₂_nil_left_iff, eq_comm]
  | cons a l ih =>
    simp only [List.mapM_cons, bind_eq_ok_iff, pure_eq_ok, Except.ok.injEq, List.forall₂_cons_left_iff]
    constructor
    · intro h
      obtain ⟨b, hb, bs, hbs, rfl⟩ := h
      exact ⟨b, bs, hb, ih.mp hbs, rfl⟩
    · intro h
      obtain ⟨b, bs, hb, hbs, rfl⟩ := h
      exact ⟨b, hb, bs, ih.mpr hbs, rfl⟩

theorem exists_mapM_eq_ok {f : α → Except ε β} {l : List α} (h : ∀ a ∈ l, ∃ b, f a = .ok b) :
    ∃ l', l.mapM f = .ok l' := by
  induction l with
  | nil => exact ⟨[], rfl⟩
  | cons a l ih =>
    obtain ⟨b, hb⟩ := h a (by simp)
    obtain ⟨bs, hbs⟩ := ih fun x hx => h x (by simp [hx])
    exact ⟨b :: bs, by simp [hb, hbs]⟩

/-- What a map over a list makes of one element is among its values. -/
theorem exists_of_mapM_eq_ok {f : α → Except ε β} {l : List α} {l' : List β} (h : l.mapM f = .ok l') {a : α}
    (ha : a ∈ l) : ∃ b ∈ l', f a = .ok b := by
  rw [mapM_eq_ok_iff] at h
  induction h with
  | nil => cases ha
  | cons hb _ ih =>
    rcases List.mem_cons.mp ha with rfl | ha
    · exact ⟨_, List.mem_cons_self, hb⟩
    · obtain ⟨b, hb, hf⟩ := ih ha
      exact ⟨b, List.mem_cons_of_mem _ hb, hf⟩

/-- The values of a map over a list are those of its elements. -/
theorem mem_iff_of_mapM_eq_ok {f : α → Except ε β} {l : List α} {l' : List β} (h : l.mapM f = .ok l') {b : β} :
    b ∈ l' ↔ ∃ a ∈ l, f a = .ok b := by
  constructor
  · intro hb
    rw [mapM_eq_ok_iff] at h
    obtain ⟨k, hk, rfl⟩ := List.getElem_of_mem hb
    have hk' : k < l.length := by rw [h.length_eq]; exact hk
    exact ⟨l[k], List.getElem_mem hk', h.get hk' hk⟩
  · intro hb
    obtain ⟨a, ha, hf⟩ := hb
    obtain ⟨b', hb', hf'⟩ := exists_of_mapM_eq_ok h ha
    cases hf.symm.trans hf'
    exact hb'

/-- The values of a map over the numbered elements of a list, by position. -/
theorem getElem?_of_mapM_zipIdx {f : α × Nat → Except ε β} {l : List α} {l' : List β}
    (h : l.zipIdx.mapM f = .ok l') {k : Nat} {a : α} (ha : l[k]? = some a) : ∃ b, l'[k]? = some b ∧ f (a, k) = .ok b := by
  rw [mapM_eq_ok_iff] at h
  have hk : k < l.length := (List.getElem?_eq_some_iff.mp ha).1
  have hk' : k < l'.length := by rw [← h.length_eq]; simpa using hk
  refine ⟨l'[k], List.getElem?_eq_getElem hk', ?_⟩
  have := h.get (by simpa using hk) hk'
  simpa [(List.getElem?_eq_some_iff.mp ha).2] using this

/-- The first element of the list at which `f` fails gives the error `e`. -/
def FailsFirst (f : α → Except ε β) (l : List α) (e : ε) : Prop :=
  ∃ before a after, l = before ++ a :: after ∧ (∀ x ∈ before, ∃ b, f x = .ok b) ∧ f a = .error e

theorem failsFirst_nil {f : α → Except ε β} {e : ε} : ¬ FailsFirst f [] e := by
  simp [FailsFirst]

theorem failsFirst_cons {f : α → Except ε β} {a : α} {l : List α} {e : ε} :
    FailsFirst f (a :: l) e ↔ f a = .error e ∨ ∃ b, f a = .ok b ∧ FailsFirst f l e := by
  constructor
  · intro h
    obtain ⟨before, c, after, hl, hbefore, hc⟩ := h
    cases before with
    | nil =>
      obtain ⟨rfl, rfl⟩ := List.cons.inj hl
      exact Or.inl hc
    | cons x before =>
      obtain ⟨rfl, rfl⟩ := List.cons.inj hl
      obtain ⟨⟨b, ha⟩, hbefore⟩ := List.forall_mem_cons.mp hbefore
      exact Or.inr ⟨b, ha, before, c, after, rfl, hbefore, hc⟩
  · intro h
    rcases h with h | ⟨b, ha, before, c, after, rfl, hbefore, hc⟩
    · exact ⟨[], a, l, rfl, by simp, h⟩
    · exact ⟨a :: before, c, after, rfl, List.forall_mem_cons.mpr ⟨⟨b, ha⟩, hbefore⟩, hc⟩

theorem failsFirst_append {f : α → Except ε β} {l l' : List α} {e : ε} :
    FailsFirst f (l ++ l') e ↔ FailsFirst f l e ∨ (∀ a ∈ l, ∃ b, f a = .ok b) ∧ FailsFirst f l' e := by
  induction l with
  | nil => simp [failsFirst_nil]
  | cons a l ih =>
    rw [List.cons_append, failsFirst_cons, failsFirst_cons, ih, List.forall_mem_cons]
    constructor
    · intro h
      rcases h with h | ⟨b, hb, h | ⟨hl, h⟩⟩
      · exact Or.inl (Or.inl h)
      · exact Or.inl (Or.inr ⟨b, hb, h⟩)
      · exact Or.inr ⟨⟨⟨b, hb⟩, hl⟩, h⟩
    · intro h
      rcases h with (h | ⟨b, hb, h⟩) | ⟨⟨⟨b, hb⟩, hl⟩, h⟩
      · exact Or.inl h
      · exact Or.inr ⟨b, hb, Or.inl h⟩
      · exact Or.inr ⟨b, hb, Or.inr ⟨hl, h⟩⟩

theorem FailsFirst.exists_error {f : α → Except ε β} {l : List α} {e : ε} (h : FailsFirst f l e) :
    ∃ a ∈ l, f a = .error e := by
  obtain ⟨before, a, after, rfl, _, ha⟩ := h
  exact ⟨a, by simp, ha⟩

theorem not_failsFirst_of_forall_ok {f : α → Except ε β} {l : List α} (h : ∀ a ∈ l, ∃ b, f a = .ok b) (e : ε) :
    ¬ FailsFirst f l e := by
  intro he
  obtain ⟨a, ha, hfa⟩ := he.exists_error
  obtain ⟨b, hb⟩ := h a ha
  cases hfa.symm.trans hb

/-- A list without a first failure has no failure. -/
theorem forall_ok_of_not_failsFirst {f : α → Except ε β} {l : List α} (h : ∀ e, ¬ FailsFirst f l e) :
    ∀ a ∈ l, ∃ b, f a = .ok b := by
  induction l with
  | nil => simp
  | cons a l ih =>
    simp only [failsFirst_cons, not_or] at h
    cases ha : f a with
    | error e => exact absurd ha (h e).1
    | ok b => exact List.forall_mem_cons.mpr ⟨⟨b, ha⟩, ih fun e he => (h e).2 ⟨b, ha, he⟩⟩

/-! ## Failing like a list of checks -/

/-- `x` fails where one of the checks of the list fails, with the error of the first that does. -/
def FailsAlong {γ : Type} (f : α → Except ε β) (l : List α) (x : Except ε γ) : Prop :=
  ∀ e, x = .error e ↔ FailsFirst f l e

namespace FailsAlong

variable {γ δ : Type} {f : α → Except ε β} {l l' : List α} {x : Except ε γ}

theorem ok (c : γ) : FailsAlong f [] (.ok c : Except ε γ) := fun e => by simp [failsFirst_nil]

theorem one (a : α) : FailsAlong f [a] (f a) := fun e => by simp [failsFirst_cons, failsFirst_nil]

theorem map (h : FailsAlong f l x) (g : γ → δ) : FailsAlong f l (x.map g) :=
  fun e => map_eq_error_iff.trans (h e)

theorem forall_ok (h : FailsAlong f l x) {c : γ} (hx : x = .ok c) : ∀ a ∈ l, ∃ b, f a = .ok b := by
  refine forall_ok_of_not_failsFirst fun e he => ?_
  cases ((h e).mpr he).symm.trans hx

/-- The checks of the second step count only where all of the first one's are passed. -/
theorem bind (hx : FailsAlong f l x) {g : γ → Except ε δ} (hg : ∀ c, x = .ok c → FailsAlong f l' (g c)) :
    FailsAlong f (l ++ l') (x >>= g) := by
  intro e
  rw [bind_eq_error_iff, failsFirst_append, hx e]
  refine or_congr_right ⟨?_, ?_⟩
  · intro h
    obtain ⟨c, hc, he⟩ := h
    exact ⟨hx.forall_ok hc, (hg c hc e).mp he⟩
  · intro h
    obtain ⟨hok, he⟩ := h
    cases hc : x with
    | error e' => exact absurd ((hx e').mp hc) (not_failsFirst_of_forall_ok hok e')
    | ok c => exact ⟨c, rfl, (hg c hc e).mpr he⟩

/-- A last step that cannot fail adds no check. -/
theorem bind_ok (h : FailsAlong f l x) (g : γ → δ) : FailsAlong f l (x >>= fun c => .ok (g c)) := by
  rw [← List.append_nil l]
  exact h.bind fun c _ => ok (g c)

/-- It fails exactly where some check does. -/
theorem exists_error_iff (h : FailsAlong f l x) : (∃ e, x = .error e) ↔ ∃ a ∈ l, ∃ e, f a = .error e := by
  constructor
  · intro hx
    obtain ⟨e, he⟩ := hx
    obtain ⟨a, ha, hfa⟩ := ((h e).mp he).exists_error
    exact ⟨a, ha, e, hfa⟩
  · intro hl
    obtain ⟨a, ha, e, hfa⟩ := hl
    cases hx : x with
    | error e' => exact ⟨e', rfl⟩
    | ok c =>
      obtain ⟨b, hb⟩ := h.forall_ok hx a ha
      cases hfa.symm.trans hb

end FailsAlong

end StageRig
