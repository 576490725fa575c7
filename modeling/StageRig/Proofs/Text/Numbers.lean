/-
  StageRig.Proofs.Text.Numbers — numbers in a text, and where they end.

  A number is written with digits only, and its digits tell it. A part of a text ends at
  the first character that cannot belong to it, so what stands in front of a number, the
  number, and what follows it can be told from each other.

  - `append_inj_of_stop`: two texts with a part that stops have the same part and the same
    rest.
  - `append_inj_of_numbers`: a word without digits is told from the numbers behind it, even
    if there are none.
-/

namespace StageRig

section

variable {p : Char → Bool} {a b : List Char} {s s' : Char} {rest rest' : List Char}

/-- A part whose characters all satisfy `p` ends at the first one that does not. -/
theorem append_inj_of_stop (ha : ∀ c ∈ a, p c = true) (hb : ∀ c ∈ b, p c = true) (hs : p s = false) (hs' : p s' = false)
    (h : a ++ s :: rest = b ++ s' :: rest') : a = b ∧ s = s' ∧ rest = rest' := by
  have htake : ∀ {c : List Char} {t : Char} {more : List Char}, (∀ x ∈ c, p x = true) → p t = false →
      (c ++ t :: more).takeWhile p = c := by
    intro c t more hc ht
    rw [List.takeWhile_append_of_pos hc, List.takeWhile_cons_of_neg (by simp [ht]), List.append_nil]
  have hab : a = b := by rw [← @htake a s rest ha hs, h, htake hb hs']
  subst hab
  have htail := List.append_cancel_left h
  exact ⟨rfl, List.cons.inj htail⟩

end

/-! ## Digits -/

theorem isDigit_of_mem_repr {n : Nat} {c : Char} (h : c ∈ n.repr.toList) : c.isDigit = true := by
  rw [Nat.repr_eq_ofList_toDigits, String.toList_ofList] at h
  exact Nat.isDigit_of_mem_toDigits (by decide) (by decide) h

theorem repr_toList_injective {n m : Nat} (h : n.repr.toList = m.repr.toList) : n = m := by
  simp only [Nat.repr_eq_ofList_toDigits, String.toList_ofList] at h
  rw [← Nat.ofDigitChars_ten_toDigits (n := n), h, Nat.ofDigitChars_ten_toDigits]

/-- The text starts with a digit, if it is not empty. -/
def StartsWithDigit (cs : List Char) : Prop := ∀ c, cs.head? = some c → c.isDigit = true

theorem startsWithDigit_nil : StartsWithDigit [] := by
  intro c hc
  cases hc

theorem startsWithDigit_repr (n : Nat) (cs : List Char) : StartsWithDigit (n.repr.toList ++ cs) := by
  have hne : n.repr.toList ≠ [] := by
    rw [Nat.repr_eq_ofList_toDigits, String.toList_ofList]
    exact Nat.toDigits_ne_nil
  obtain ⟨d, ds, hd⟩ := List.exists_cons_of_ne_nil hne
  intro c hc
  rw [hd] at hc
  cases hc
  exact isDigit_of_mem_repr (n := n) (by rw [hd]; exact List.mem_cons_self)

/-- Numbers begin where the word in front of them, which has no digits, ends. -/
theorem append_inj_of_numbers {a b x y : List Char} (ha : ∀ c ∈ a, c.isDigit = false) (hb : ∀ c ∈ b, c.isDigit = false)
    (hx : StartsWithDigit x) (hy : StartsWithDigit y) (h : a ++ x = b ++ y) : a = b ∧ x = y := by
  have hword : ∀ {w z : List Char}, (∀ c ∈ w, c.isDigit = false) → StartsWithDigit z →
      (w ++ z).takeWhile (fun c => !c.isDigit) = w := by
    intro w z hw hz
    rw [List.takeWhile_append_of_pos fun c hc => by simp [hw c hc]]
    cases z with
    | nil => exact List.append_nil w
    | cons d z => rw [List.takeWhile_cons_of_neg (by simp [hz d rfl]), List.append_nil]
  have hab : a = b := by rw [← hword ha hx, h, hword hb hy]
  subst hab
  exact ⟨rfl, List.append_cancel_left h⟩

end StageRig
