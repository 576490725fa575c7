/-
  StageRig.Proofs.Relay.Lines — the lines that a source is made of.

  A declaration is written as one piece of text with the ends of its lines inside. Here it
  is spelled line by line, apart from how it is written: a struct is an opening line, a
  line for each member, a closing line and a blank one (`structLines`), and a variable is
  one line (`interfaceLine`).

  - `linesText_structLines`, `slotText_eq`: what is written for a declaration is these lines.
  - `linesText_injective`: a text tells its lines, if no line has the end of one inside.
  - `count_opening_structs`: a struct is opened as often as it is declared. Lines are told
    by their first letters, and only the opening lines of structs begin with an `s`.
  - `isSlotLine_interfaceLine`, `not_isSlotLine`: the lines of the interface are told from all
    others by how they begin.
-/

import StageRig.Proofs.Relay.Bounds

namespace StageRig

/-- The text is a part of one line. -/
def Inline (s : String) : Prop := '\n' ∉ s.toList

instance (s : String) : Decidable (Inline s) := inferInstanceAs (Decidable ('\n' ∉ s.toList))

@[simp] theorem inline_append {s t : String} : Inline (s ++ t) ↔ Inline s ∧ Inline t := by
  simp only [Inline, String.toList_append, List.mem_append, not_or]

theorem Inline.bne {s : String} (h : Inline s) : ∀ c ∈ s.toList, (c != '\n') = true := by
  intro c hc
  have hne : c ≠ '\n' := fun heq => h (heq ▸ hc)
  simpa using hne

namespace Relay

open Glsl

/-! ## Text and lines -/

def linesText (lines : List String) : String := String.join (lines.map (· ++ "\n"))

theorem linesText_append (lines more : List String) : linesText (lines ++ more) = linesText lines ++ linesText more := by
  simp [linesText]

theorem toList_linesText (lines : List String) : (linesText lines).toList = lines.flatMap fun s => s.toList ++ ['\n'] := by
  simp [linesText, String.toList_join, List.flatMap_map]

/-- Texts of one line each can be told apart again. -/
theorem linesText_injective {lines lines' : List String} (h : ∀ s ∈ lines, Inline s) (h' : ∀ s ∈ lines', Inline s)
    (heq : linesText lines = linesText lines') : lines = lines' := by
  rw [← String.toList_inj, toList_linesText, toList_linesText] at heq
  induction lines generalizing lines' with
  | nil =>
    cases lines' with
    | nil => rfl
    | cons s' lines' => simp at heq
  | cons s lines ih =>
    cases lines' with
    | nil => simp at heq
    | cons s' lines' =>
      simp only [List.flatMap_cons, List.append_assoc, List.singleton_append] at heq
      obtain ⟨hs, -, hrest⟩ := append_inj_of_stop (p := (· != '\n')) (h s List.mem_cons_self).bne
        (h' s' List.mem_cons_self).bne (by decide) (by decide) heq
      rw [String.toList_inj.mp hs, ih (fun t ht => h t (List.mem_cons_of_mem _ ht))
        (fun t ht => h' t (List.mem_cons_of_mem _ ht)) hrest]

/-! ## Structs -/

def memberLine (m : MemberDecl) : String := "    " ++ m.type ++ " " ++ m.name ++ brackets m.dims ++ ";"

def structOpening (name : String) : String := "struct " ++ name ++ " \x7b"

/-- The lines of a struct declaration, the blank one behind it included. -/
def structLines (d : StructDecl) : List String :=
  structOpening d.name :: (d.members.map memberLine ++ ["\x7d;", ""])

theorem linesText_structLines (d : StructDecl) : linesText (structLines d) = d.text := by
  have hmembers : linesText (d.members.map memberLine) = String.join (d.members.map MemberDecl.text) := by
    simp only [linesText, List.map_map]
    congr 2
    funext m
    simp [memberLine, MemberDecl.text, bounds_eq_brackets, toString, String.append_assoc]
  rw [structLines, ← List.singleton_append, linesText_append, linesText_append, hmembers]
  simp [linesText, structOpening, StructDecl.text, toString, String.append_assoc]

theorem linesText_structs (ds : List StructDecl) :
    linesText (ds.flatMap structLines) = String.join (ds.map (·.text)) := by
  induction ds with
  | nil => rfl
  | cons d ds ih => simp [linesText_append, linesText_structLines, ih]

theorem structOpening_inj {n n' : String} : structOpening n = structOpening n' ↔ n = n' := by
  simp [structOpening]

/-! ## Variables -/

def interfaceLine (d : SlotDecl) : String :=
  "layout(location = " ++ d.location.toNat.repr ++
    (match d.component? with
      | some c => ", component = " ++ c.toNat.repr ++ ")"
      | none => ")") ++
    " " ++ d.qualifier ++ " " ++ d.type ++ " " ++ d.name ++ brackets d.dims ++ ";"

theorem slotText_eq (d : SlotDecl) : d.text = interfaceLine d := by
  unfold SlotDecl.text SlotDecl.layout interfaceLine
  cases d.component? <;> simp only [bounds_eq_brackets, toString, String.append_assoc]

theorem exists_interfaceLine (d : SlotDecl) : ∃ rest, interfaceLine d = "layout(location = " ++ rest := by
  unfold interfaceLine
  cases d.component? <;> exact ⟨_, by simp only [String.append_assoc]; rfl⟩

/-! ## The lines that all sources of a relay have -/

/-- The stage's layout line and a blank one, for relays that have a layout. -/
def stageLines (r : Relay) : List String := r.stageLayout?.toList.flatMap fun line => [line, ""]

/-- The lines of the main function. -/
def mainLines (r : Relay) : List String :=
  ["void main() \x7b"] ++ r.statements.map (fun line => s!"    {line}") ++ ["\x7d"]

/-! ## First letters -/

def initial (line : String) : Option Char := line.toList.head?

theorem initial_append {front : String} {c : Char} (h : initial front = some c) (back : String) :
    initial (front ++ back) = some c := by
  rw [initial] at h
  rw [initial, String.toList_append, List.head?_append, h]
  rfl

theorem initial_structOpening (n : String) : initial (structOpening n) = some 's' := by
  rw [structOpening, String.append_assoc]
  exact initial_append (by decide) _

theorem initial_memberLine (m : MemberDecl) : initial (memberLine m) = some ' ' := by
  simp only [memberLine, String.append_assoc]
  exact initial_append (by decide) _

theorem initial_interfaceLine (d : SlotDecl) : initial (interfaceLine d) = some 'l' := by
  obtain ⟨rest, hrest⟩ := exists_interfaceLine d
  rw [hrest]
  exact initial_append (by decide) rest

/-- Behind the opening line of a struct stand lines with other first letters. -/
theorem initial_of_mem_tail {d : StructDecl} {s : String} (hs : s ∈ d.members.map memberLine ++ ["\x7d;", ""]) :
    initial s ≠ some 's' ∧ initial s ≠ some 'l' := by
  simp only [List.mem_append, List.mem_map, List.mem_cons, List.not_mem_nil, or_false] at hs
  rcases hs with ⟨m, -, rfl⟩ | rfl | rfl
  · rw [initial_memberLine]
    decide
  · decide
  · decide

theorem initial_of_mem_structLines {d : StructDecl} {s : String} (hs : s ∈ structLines d) : initial s ≠ some 'l' := by
  rcases List.mem_cons.mp hs with rfl | hs
  · rw [initial_structOpening]
    decide
  · exact (initial_of_mem_tail hs).2

theorem initial_of_mem_stageLines {r : Relay} {s : String} (hs : s ∈ r.stageLines) : initial s ≠ some 's' := by
  revert s
  cases r <;> decide

theorem initial_of_mem_mainLines {r : Relay} {s : String} (hs : s ∈ r.mainLines) :
    initial s ≠ some 's' ∧ initial s ≠ some 'l' := by
  revert s
  cases r <;> decide

/-! ### Openings -/

theorem not_opening {lines : List String} (h : ∀ s ∈ lines, initial s ≠ some 's') (n : String) :
    structOpening n ∉ lines := by
  intro hmem
  exact h _ hmem (initial_structOpening n)

theorem count_opening_structLines (n : String) (d : StructDecl) :
    (structLines d).count (structOpening n) = if d.name = n then 1 else 0 := by
  have htail : (d.members.map memberLine ++ ["\x7d;", ""]).count (structOpening n) = 0 :=
    List.count_eq_zero.mpr (not_opening (fun _ hs => (initial_of_mem_tail hs).1) n)
  rw [structLines, List.count_cons, htail, Nat.zero_add]
  simp only [beq_iff_eq, structOpening_inj]

theorem count_opening_structs (n : String) (ds : List StructDecl) :
    (ds.flatMap structLines).count (structOpening n) = (ds.map (·.name)).count n := by
  induction ds with
  | nil => rfl
  | cons d ds ih =>
    rw [List.flatMap_cons, List.count_append, count_opening_structLines, ih, List.map_cons, List.count_cons,
      Nat.add_comm]
    simp only [beq_iff_eq]

/-! ### Lines of the interface -/

/-- The line begins like those of the interface. -/
def isSlotLine (s : String) : Bool := "layout(location".toList.isPrefixOf s.toList

theorem isSlotLine_interfaceLine (d : SlotDecl) : isSlotLine (interfaceLine d) = true := by
  obtain ⟨rest, hrest⟩ := exists_interfaceLine d
  have hstem : "layout(location".toList <+: "layout(location = ".toList := by decide
  rw [isSlotLine, List.isPrefixOf_iff_prefix, hrest, String.toList_append]
  exact hstem.trans (List.prefix_append _ _)

theorem not_isSlotLine {s : String} (h : initial s ≠ some 'l') : isSlotLine s = false := by
  rw [isSlotLine, Bool.eq_false_iff, Ne, List.isPrefixOf_iff_prefix]
  rintro ⟨rest, hrest⟩
  rw [initial, ← hrest] at h
  exact h rfl

end Relay

end StageRig
