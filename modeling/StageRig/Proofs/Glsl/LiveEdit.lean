/-
  StageRig.Proofs.Glsl.LiveEdit — a draft and an editor that puts every patch in at once.

  A draft keeps its patches aside and marks places by the bytes of the lines in front of
  them. A live editor (`Live`) has only the current text: a mark has a position in it, an
  insertion happens there, and every mark at or behind the place that was used moves on
  by what was inserted.

  Between them stands the body with each patch at its place, patches of one place in the
  order in which they were given (`weave`).

  - `text_eq_weave`: a finished draft reads so, whichever way the patches came in.
  - `finish?_eq_some`: finishing cuts the body in order, in range and between characters.
  - `Tracks.step`: a step of a draft and the same step of a live editor keep the text of
    the editor equal to the finished text, and each mark's position at the end of what
    stands in front of it.
  - `finish_eq_live`: after any steps, and after any number of the first of them, both
    read the same.
-/

import Mathlib.Data.List.Forall2
import StageRig.Proofs.Glsl.Splice
import StageRig.Proofs.StableSort

namespace StageRig.Glsl

/-! ## Cuts that can fail -/

/-- The text cut behind `n` bytes; none where the text is shorter or a character would be cut in two. -/
def cut? : Nat → List Char → Option (List Char × List Char)
  | 0, cs => some ([], cs)
  | _ + 1, [] => none
  | n + 1, c :: cs =>
    if c.utf8Size ≤ n + 1 then (cut? (n + 1 - c.utf8Size) cs).map fun (front, back) => (c :: front, back) else none

/-- The bytes of a text from `start` to `stop`; none where these are out of order or cannot be cut at. -/
def slice? (cs : List Char) (start stop : Nat) : Option (List Char) :=
  if start ≤ stop then (cut? stop cs).bind fun (front, _) => (cut? start front).map fun (_, part) => part else none

theorem cut?_byteSize (a b : List Char) : cut? (byteSize a) (a ++ b) = some (a, b) := by
  induction a with
  | nil => cases b <;> rfl
  | cons c cs ih =>
    have hpos : 0 < c.utf8Size := c.utf8Size_pos
    obtain ⟨n, hn⟩ : ∃ n, byteSize (c :: cs) = n + 1 := ⟨byteSize (c :: cs) - 1, by simp; omega⟩
    have hrest : n + 1 - c.utf8Size = byteSize cs := by simp at hn; omega
    have hfits : c.utf8Size ≤ n + 1 := by simp at hn; omega
    rw [hn, List.cons_append, cut?, if_pos hfits, hrest, ih]
    rfl

theorem slice?_byteSize (a b c : List Char) : slice? (a ++ b ++ c) (byteSize a) (byteSize (a ++ b)) = some b := by
  have hle : byteSize a ≤ byteSize (a ++ b) := by simp
  simp only [slice?, if_pos hle, cut?_byteSize, Option.bind_some, Option.map_some]

namespace Draft

/-- The body from `cursor` on with the patches in it, as long as every cut of the body can be made. -/
def splice? (body : List Char) (cursor : Nat) : List Patch → Option (List Char)
  | [] => slice? body cursor (byteSize body)
  | p :: ps => do
    let part ← slice? body cursor p.offset
    let rest ← splice? body p.offset ps
    pure (part ++ p.text.toList ++ rest)

/-- The finished text, if every cut of the body can be made. -/
def finish? (d : Draft) : Option String :=
  (splice? d.body.toList 0 (d.patches.mergeSort fun p q => p.offset ≤ q.offset)).map String.ofList

/-- Every patch belongs to a place between two characters of the body, or at an end of it. -/
def Fits (ps : List Patch) (body : List Char) : Prop := ∀ p ∈ ps, ∃ front, front <+: body ∧ p.offset = byteSize front

theorem Fits.append {ps : List Patch} {body : List Char} (h : Fits ps body) (more : List Char) : Fits ps (body ++ more) := by
  intro p hp
  obtain ⟨front, hfront, hoff⟩ := h p hp
  exact ⟨front, hfront.trans (List.prefix_append body more), hoff⟩

theorem Fits.offset_le {ps : List Patch} {body : List Char} (h : Fits ps body) : ∀ p ∈ ps, p.offset ≤ byteSize body := by
  intro p hp
  obtain ⟨front, ⟨back, rfl⟩, hoff⟩ := h p hp
  rw [hoff, byteSize_append]
  omega

/-- Of two beginnings of a text the one with fewer bytes begins the other. -/
theorem prefix_of_byteSize_le {a b body : List Char} (ha : a <+: body) (hb : b <+: body)
    (h : byteSize a ≤ byteSize b) : a <+: b := by
  rcases List.prefix_or_prefix_of_prefix ha hb with hab | ⟨rest, rfl⟩
  · exact hab
  · cases rest with
    | nil => simp
    | cons c cs =>
      have := c.utf8Size_pos
      simp at h
      omega

/-! ## The body with its patches in place -/

/-- The patches of one place, in the order in which they were given. -/
def patchesAt (ps : List Patch) (o : Nat) : List Char := (ps.filter (·.offset = o)).flatMap (·.text.toList)

/-- A part of the body that starts at the offset `o`, with the patches behind each of its characters. -/
def weaveFrom (ps : List Patch) : Nat → List Char → List Char
  | _, [] => []
  | o, c :: cs => c :: patchesAt ps (o + c.utf8Size) ++ weaveFrom ps (o + c.utf8Size) cs

/-- A beginning of the body with all its patches in place. -/
def weave (ps : List Patch) (front : List Char) : List Char := patchesAt ps 0 ++ weaveFrom ps 0 front

theorem weaveFrom_append (ps : List Patch) (o : Nat) (a b : List Char) :
    weaveFrom ps o (a ++ b) = weaveFrom ps o a ++ weaveFrom ps (o + byteSize a) b := by
  induction a generalizing o with
  | nil => simp [weaveFrom]
  | cons c cs ih => simp [weaveFrom, ih, Nat.add_assoc]

theorem weave_append (ps : List Patch) (a b : List Char) :
    weave ps (a ++ b) = weave ps a ++ weaveFrom ps (byteSize a) b := by
  simp [weave, weaveFrom_append]

theorem weaveFrom_congr {ps qs : List Patch} (h : ∀ o, patchesAt ps o = patchesAt qs o) (o : Nat) (cs : List Char) :
    weaveFrom ps o cs = weaveFrom qs o cs := by
  induction cs generalizing o with
  | nil => rfl
  | cons c cs ih => simp [weaveFrom, h, ih]

theorem patchesAt_eq_nil {ps : List Patch} {o : Nat} (h : ∀ p ∈ ps, p.offset ≠ o) : patchesAt ps o = [] := by
  rw [patchesAt, List.filter_eq_nil_iff.mpr fun p hp => by simpa using h p hp]
  rfl

/-- Behind the last patch stands the body alone. -/
theorem weaveFrom_of_le {ps : List Patch} {o : Nat} (h : ∀ p ∈ ps, p.offset ≤ o) (cs : List Char) :
    weaveFrom ps o cs = cs := by
  induction cs generalizing o with
  | nil => rfl
  | cons c cs ih =>
    have hpos := c.utf8Size_pos
    have hnone : patchesAt ps (o + c.utf8Size) = [] := by
      refine patchesAt_eq_nil fun p hp => ?_
      have := h p hp
      omega
    rw [weaveFrom, hnone, ih fun p hp => ?_]
    · rfl
    · have := h p hp
      omega

/-! ### One more patch -/

theorem patchesAt_snoc (ps : List Patch) (p : Patch) (o : Nat) :
    patchesAt (ps ++ [p]) o = patchesAt ps o ++ if p.offset = o then p.text.toList else [] := by
  by_cases h : p.offset = o <;> simp [patchesAt, h]

theorem patchesAt_cons (ps : List Patch) (p : Patch) (o : Nat) :
    patchesAt (p :: ps) o = (if p.offset = o then p.text.toList else []) ++ patchesAt ps o := by
  by_cases h : p.offset = o <;> simp [patchesAt, h]

/-- A patch changes nothing behind its place. -/
theorem weaveFrom_snoc_of_le {ps : List Patch} {p : Patch} {o : Nat} (h : p.offset ≤ o) (cs : List Char) :
    weaveFrom (ps ++ [p]) o cs = weaveFrom ps o cs := by
  induction cs generalizing o with
  | nil => rfl
  | cons c cs ih =>
    have hpos := c.utf8Size_pos
    have hne : p.offset ≠ o + c.utf8Size := by omega
    rw [weaveFrom, weaveFrom, patchesAt_snoc, if_neg hne, List.append_nil, ih (by omega)]

theorem weaveFrom_cons_of_le {ps : List Patch} {p : Patch} {o : Nat} (h : p.offset ≤ o) (cs : List Char) :
    weaveFrom (p :: ps) o cs = weaveFrom ps o cs := by
  induction cs generalizing o with
  | nil => rfl
  | cons c cs ih =>
    have hpos := c.utf8Size_pos
    have hne : p.offset ≠ o + c.utf8Size := by omega
    rw [weaveFrom, weaveFrom, patchesAt_cons, if_neg hne, List.nil_append, ih (by omega)]

/-- A patch changes nothing in front of its place. -/
theorem weave_snoc_of_lt {ps : List Patch} {p : Patch} {front : List Char} (h : byteSize front < p.offset) :
    weave (ps ++ [p]) front = weave ps front := by
  have hfrom : ∀ o cs, o + byteSize cs < p.offset → weaveFrom (ps ++ [p]) o cs = weaveFrom ps o cs := by
    intro o cs
    induction cs generalizing o with
    | nil => intro _; rfl
    | cons c cs ih =>
      intro hlt
      rw [byteSize_cons] at hlt
      have hne : p.offset ≠ o + c.utf8Size := by omega
      rw [weaveFrom, weaveFrom, patchesAt_snoc, if_neg hne, List.append_nil, ih _ (by omega)]
  have hne : p.offset ≠ 0 := by omega
  rw [weave, weave, patchesAt_snoc, if_neg hne, List.append_nil, hfrom 0 front (by omega)]

/-- A patch stands behind the earlier ones of its place. -/
theorem weave_snoc {ps : List Patch} {p : Patch} {front : List Char} (h : p.offset = byteSize front) :
    weave (ps ++ [p]) front = weave ps front ++ p.text.toList := by
  rcases List.eq_nil_or_concat front with rfl | ⟨a, c, rfl⟩
  · have hzero : p.offset = 0 := h
    simp [weave, weaveFrom, patchesAt_snoc, hzero]
  · have hpos := c.utf8Size_pos
    have hend : p.offset = byteSize a + c.utf8Size := by simpa using h
    rw [List.concat_eq_append, weave_append, weave_append, weave_snoc_of_lt (by omega)]
    simp only [weaveFrom, List.append_nil, patchesAt_snoc, if_pos hend, List.cons_append, List.append_assoc]

/-! ## Finishing weaves -/

/-- A part of the body without patches inside, and with the patches at both its ends. -/
theorem weaveFrom_gap {ps : List Patch} {o : Nat} {cs : List Char} (h : ∀ p ∈ ps, o + byteSize cs ≤ p.offset) :
    patchesAt ps o ++ weaveFrom ps o cs = cs ++ patchesAt ps (o + byteSize cs) := by
  induction cs generalizing o with
  | nil => simp [weaveFrom]
  | cons c cs ih =>
    have hpos := c.utf8Size_pos
    have hnone : patchesAt ps o = [] := by
      refine patchesAt_eq_nil fun p hp => ?_
      have := h p hp
      rw [byteSize_cons] at this
      omega
    have hrest := ih (o := o + c.utf8Size) fun p hp => by
      have := h p hp
      rw [byteSize_cons] at this
      omega
    rw [hnone, weaveFrom, List.nil_append, List.cons_append, hrest, byteSize_cons, Nat.add_assoc]
    rfl

-- The induction is on the patches that are left; `front` is the part of the body that
-- the cursor has passed, and the order of the offsets keeps the next one behind it.
theorem splice_eq_weave {front back : List Char} {ps : List Patch} (hfits : Fits ps (front ++ back))
    (hsorted : ps.Pairwise fun p q => p.offset ≤ q.offset) (hle : ∀ p ∈ ps, byteSize front ≤ p.offset) :
    splice (byteSize front) back ps = patchesAt ps (byteSize front) ++ weaveFrom ps (byteSize front) back ∧
      splice? (front ++ back) (byteSize front) ps = some (splice (byteSize front) back ps) := by
  induction ps generalizing front back with
  | nil =>
    constructor
    · rw [splice, weaveFrom_of_le (by simp)]
      rfl
    · have := slice?_byteSize front back []
      simpa [splice?, splice] using this
  | cons p ps ih =>
    obtain ⟨hp, hsorted⟩ := List.pairwise_cons.mp hsorted
    obtain ⟨upto, hupto, hoff⟩ := hfits p List.mem_cons_self
    obtain ⟨mid, rfl⟩ := prefix_of_byteSize_le (List.prefix_append front back) hupto
      (hoff ▸ hle p List.mem_cons_self)
    obtain ⟨back, rfl⟩ := (List.prefix_append_right_inj front).mp hupto
    have hnext := @ih (front ++ mid) back
      (fun q hq => by rw [List.append_assoc]; exact hfits q (List.mem_cons_of_mem _ hq)) hsorted
      (fun q hq => hoff ▸ hp q hq)
    rw [← hoff] at hnext
    have hcut : p.offset - byteSize front = byteSize mid := by rw [hoff, byteSize_append]; omega
    have hend : byteSize front + byteSize mid = p.offset := by rw [hoff, byteSize_append]
    rw [splice_cons hcut]
    constructor
    · have hgap : patchesAt (p :: ps) (byteSize front) ++ weaveFrom (p :: ps) (byteSize front) mid =
          mid ++ patchesAt (p :: ps) p.offset := by
        rw [weaveFrom_gap fun q hq => ?_, hend]
        rcases List.mem_cons.mp hq with rfl | hq
        · omega
        · have := hp q hq
          omega
      rw [weaveFrom_append, ← List.append_assoc, hgap, hend, weaveFrom_cons_of_le (Nat.le_refl _), hnext.1,
        patchesAt_cons, if_pos rfl]
      simp
    · have hslice := slice?_byteSize front mid back
      rw [← hoff, List.append_assoc] at hslice
      rw [splice?, hslice, ← List.append_assoc, hnext.2]
      rfl

theorem patchesAt_sorted (ps : List Patch) (o : Nat) :
    patchesAt (ps.mergeSort fun p q => p.offset ≤ q.offset) o = patchesAt ps o := by
  have htrans : ∀ p q r : Patch, decide (p.offset ≤ q.offset) → decide (q.offset ≤ r.offset) →
      decide (p.offset ≤ r.offset) := by
    intro p q r hpq hqr
    exact decide_eq_true (Nat.le_trans (of_decide_eq_true hpq) (of_decide_eq_true hqr))
  have htotal : ∀ p q : Patch, decide (p.offset ≤ q.offset) || decide (q.offset ≤ p.offset) := by
    intro p q
    simpa using Nat.le_total p.offset q.offset
  rw [patchesAt, filter_mergeSort htrans htotal fun p q hp hq => ?_]
  · rfl
  · rw [of_decide_eq_true hp, of_decide_eq_true hq]
    exact decide_eq_true (Nat.le_refl o)

/-- A draft whose marks were all taken in it can be finished, and has every patch at its place. -/
theorem finish?_eq_some {d : Draft} (h : Fits d.patches d.body.toList) :
    d.text.toList = weave d.patches d.body.toList ∧ d.finish? = some d.text := by
  let sorted := d.patches.mergeSort fun p q => p.offset ≤ q.offset
  have hfits : Fits sorted ([] ++ d.body.toList) := fun p hp => h p (List.mem_mergeSort.mp hp)
  have hsorted : sorted.Pairwise fun p q => p.offset ≤ q.offset := by
    have htrans : ∀ p q r : Patch, decide (p.offset ≤ q.offset) = true → decide (q.offset ≤ r.offset) = true →
        decide (p.offset ≤ r.offset) = true :=
      fun p q r hpq hqr => decide_eq_true (Nat.le_trans (of_decide_eq_true hpq) (of_decide_eq_true hqr))
    have htotal : ∀ p q : Patch, (decide (p.offset ≤ q.offset) || decide (q.offset ≤ p.offset)) = true := by
      intro p q
      simpa using Nat.le_total p.offset q.offset
    exact (List.pairwise_mergeSort htrans htotal d.patches).imp of_decide_eq_true
  obtain ⟨hweave, hsplice⟩ := splice_eq_weave hfits hsorted fun p _ => Nat.zero_le _
  constructor
  · rw [text, String.toList_ofList]
    refine hweave.trans ?_
    rw [weave, patchesAt_sorted, weaveFrom_congr (patchesAt_sorted d.patches)]
    rfl
  · exact congrArg (Option.map String.ofList) hsplice

end Draft

/-! ## Steps -/

/-- One step in the making of a source. Marks are numbered in the order in which they are taken. -/
inductive Edit where
  | pushLine (line : String)
  | mark
  | insert (mark : Nat) (text : String)
  deriving DecidableEq, Repr

/-- A draft and the marks that were taken in it. -/
structure Session where
  draft : Draft := {}
  marks : List Nat := []
  deriving DecidableEq, Repr

/-- One step; an insertion needs a mark that was taken before. -/
def Session.step (s : Session) : Edit → Option Session
  | .pushLine line => some { s with draft := s.draft.pushLine line }
  | .mark => some { s with marks := s.marks ++ [s.draft.mark] }
  | .insert i text => s.marks[i]?.map fun m => { s with draft := s.draft.insert m text }

def Session.run (edits : List Edit) : Option Session := edits.foldlM Session.step {}

/-- A mark of a live editor. -/
structure LiveMark where
  /-- The bytes of the lines in front of it. -/
  offset : Nat
  /-- The bytes of everything in front of it. -/
  position : Nat
  deriving DecidableEq, Repr

/-- A text that is edited in place. -/
structure Live where
  text : String := ""
  /-- The bytes of the lines so far. -/
  pushed : Nat := 0
  marks : List LiveMark := []
  deriving DecidableEq, Repr

/-- Makes room for `n` bytes inserted at a place: every mark there or behind it moves on. -/
def LiveMark.shift (place n : Nat) (m : LiveMark) : LiveMark :=
  if place ≤ m.offset then { m with position := m.position + n } else m

/-- One step; an insertion goes into the text at once. -/
def Live.step (l : Live) : Edit → Option Live
  | .pushLine line =>
    some { l with text := l.text ++ line ++ "\n", pushed := l.pushed + byteSize (line ++ "\n").toList }
  | .mark => some { l with marks := l.marks ++ [⟨l.pushed, byteSize l.text.toList⟩] }
  | .insert i text => do
    let m ← l.marks[i]?
    let (front, back) ← cut? m.position l.text.toList
    pure
      { l with
        text := String.ofList front ++ text ++ String.ofList back
        marks := l.marks.map (.shift m.offset (byteSize text.toList)) }

def Live.run (edits : List Edit) : Option Live := edits.foldlM Live.step {}

/-! ## The two editors agree -/

/-- The mark `m` of a draft with this body and these patches is where the live editor has it. -/
def Aligned (body : List Char) (ps : List Patch) (m : Nat) (n : LiveMark) : Prop :=
  n.offset = m ∧ ∃ front, front <+: body ∧ m = byteSize front ∧ n.position = byteSize (Draft.weave ps front)

/-- A live editor that was given the same steps. -/
structure Tracks (s : Session) (l : Live) : Prop where
  fits : Draft.Fits s.draft.patches s.draft.body.toList
  text : l.text.toList = Draft.weave s.draft.patches s.draft.body.toList
  pushed : l.pushed = byteSize s.draft.body.toList
  marks : List.Forall₂ (Aligned s.draft.body.toList s.draft.patches) s.marks l.marks

theorem Aligned.append {body : List Char} {ps : List Patch} {m : Nat} {n : LiveMark} (h : Aligned body ps m n)
    (more : List Char) : Aligned (body ++ more) ps m n := by
  obtain ⟨hm, front, hfront, hoff, hpos⟩ := h
  exact ⟨hm, front, hfront.trans (List.prefix_append body more), hoff, hpos⟩

/-- A mark moves on exactly when the patch stands in front of it. -/
theorem Aligned.shift {body : List Char} {p : Patch} {ps : List Patch} {m : Nat} {n : LiveMark}
    (h : Aligned body ps m n) {at_ : List Char} (hat : at_ <+: body) (hoff : p.offset = byteSize at_) :
    Aligned body (ps ++ [p]) m (n.shift p.offset (byteSize p.text.toList)) := by
  obtain ⟨hm, front, hfront, hmoff, hpos⟩ := h
  by_cases hle : p.offset ≤ n.offset
  · rw [LiveMark.shift, if_pos hle]
    refine ⟨hm, front, hfront, hmoff, ?_⟩
    obtain ⟨rest, rfl⟩ := Draft.prefix_of_byteSize_le hat hfront (by omega)
    rw [Draft.weave_append] at hpos ⊢
    rw [Draft.weave_snoc hoff, Draft.weaveFrom_snoc_of_le (by omega)]
    simp only [byteSize_append] at hpos ⊢
    show n.position + byteSize p.text.toList = _
    omega
  · rw [LiveMark.shift, if_neg hle]
    refine ⟨hm, front, hfront, hmoff, ?_⟩
    rw [Draft.weave_snoc_of_lt (by omega), hpos]

theorem Tracks.pushLine {s : Session} {l : Live} (h : Tracks s l) (line : String) :
    ∃ l', l.step (.pushLine line) = some l' ∧ Tracks { s with draft := s.draft.pushLine line } l' := by
  have hbody : (s.draft.pushLine line).body.toList = s.draft.body.toList ++ (line ++ "\n").toList := by
    simp [Draft.pushLine]
  refine ⟨_, rfl, ⟨?_, ?_, ?_, ?_⟩⟩
  · rw [hbody]
    exact h.fits.append _
  · have hlast := Draft.weaveFrom_of_le h.fits.offset_le (line ++ "\n").toList
    rw [hbody, Draft.weave_append]
    show (l.text ++ line ++ "\n").toList = Draft.weave s.draft.patches _ ++ Draft.weaveFrom s.draft.patches _ _
    rw [hlast, ← h.text, String.append_assoc, String.toList_append]
  · rw [hbody, byteSize_append, ← h.pushed]
  · rw [hbody]
    exact h.marks.imp fun _ _ hm => hm.append _

theorem Tracks.mark {s : Session} {l : Live} (h : Tracks s l) :
    ∃ l', l.step .mark = some l' ∧ Tracks { s with marks := s.marks ++ [s.draft.mark] } l' := by
  refine ⟨_, rfl, ⟨h.fits, h.text, h.pushed, ?_⟩⟩
  refine List.rel_append h.marks (.cons ⟨h.pushed, s.draft.body.toList, List.prefix_rfl, rfl, ?_⟩ .nil)
  rw [h.text]

theorem Tracks.insert {s : Session} {l : Live} (h : Tracks s l) {i m : Nat} (hi : s.marks[i]? = some m) (text : String) :
    ∃ l', l.step (.insert i text) = some l' ∧ Tracks { s with draft := s.draft.insert m text } l' := by
  obtain ⟨hlt, rfl⟩ := List.getElem?_eq_some_iff.mp hi
  have hlt' : i < l.marks.length := h.marks.length_eq ▸ hlt
  obtain ⟨hoff, front, hfront, hsize, hpos⟩ := h.marks.get hlt hlt'
  simp only [List.get_eq_getElem] at hoff hsize hpos
  obtain ⟨back, hback⟩ := hfront
  have hplace : (⟨s.marks[i], text⟩ : Patch).offset = byteSize front := hsize
  have htext : l.text.toList = Draft.weave s.draft.patches front ++ Draft.weaveFrom s.draft.patches (byteSize front) back := by
    rw [h.text, ← hback, Draft.weave_append]
  have hcut : cut? l.marks[i].position l.text.toList =
      some (Draft.weave s.draft.patches front, Draft.weaveFrom s.draft.patches (byteSize front) back) := by
    rw [hpos, htext, cut?_byteSize]
  have hstep : l.step (.insert i text) = some
      { l with
        text := String.ofList (Draft.weave s.draft.patches front) ++ text ++
          String.ofList (Draft.weaveFrom s.draft.patches (byteSize front) back)
        marks := l.marks.map (.shift l.marks[i].offset (byteSize text.toList)) } := by
    simp only [Live.step, List.getElem?_eq_getElem hlt', Option.bind_eq_bind, Option.bind_some, hcut]
    rfl
  refine ⟨_, hstep, ⟨?_, ?_, h.pushed, ?_⟩⟩
  · intro p hp
    rcases List.mem_append.mp hp with hp | hp
    · exact h.fits p hp
    · rw [List.mem_singleton.mp hp]
      exact ⟨front, ⟨back, hback⟩, hsize⟩
  · show (_ ++ text ++ _ : String).toList = Draft.weave (s.draft.patches ++ [⟨s.marks[i], text⟩]) s.draft.body.toList
    rw [← hback, Draft.weave_append, Draft.weave_snoc hplace, Draft.weaveFrom_snoc_of_le (Nat.le_of_eq hplace)]
    simp
  · rw [hoff]
    refine List.forall₂_map_right_iff.mpr (h.marks.imp fun _ _ hm => ?_)
    exact hm.shift ⟨back, hback⟩ hplace

theorem Tracks.step {s s' : Session} {l : Live} (h : Tracks s l) {e : Edit} (hs : s.step e = some s') :
    ∃ l', l.step e = some l' ∧ Tracks s' l' := by
  cases e with
  | pushLine line =>
    cases hs
    exact h.pushLine line
  | mark =>
    cases hs
    exact h.mark
  | insert i text =>
    obtain ⟨m, hi, rfl⟩ := Option.map_eq_some_iff.mp hs
    exact h.insert hi text

theorem tracks_init : Tracks {} {} where
  fits := fun _ hp => nomatch hp
  text := rfl
  pushed := rfl
  marks := .nil

theorem Tracks.run {s s' : Session} {l : Live} (h : Tracks s l) {edits : List Edit}
    (hs : edits.foldlM Session.step s = some s') : ∃ l', edits.foldlM Live.step l = some l' ∧ Tracks s' l' := by
  induction edits generalizing s l with
  | nil =>
    cases hs
    exact ⟨l, rfl, h⟩
  | cons e edits ih =>
    rw [List.foldlM_cons] at hs
    obtain ⟨s₁, hs₁, hs⟩ := Option.bind_eq_some_iff.mp hs
    obtain ⟨l₁, hl₁, h₁⟩ := h.step hs₁
    obtain ⟨l', hl', h'⟩ := ih h₁ hs
    exact ⟨l', by rw [List.foldlM_cons, hl₁]; exact hl', h'⟩

/-- The first of some steps can be made when all of them can. -/
theorem run_take {edits : List Edit} {s : Session} (h : Session.run edits = some s) (n : Nat) :
    ∃ s', Session.run (edits.take n) = some s' := by
  rw [Session.run, ← List.take_append_drop n edits, List.foldlM_append] at h
  obtain ⟨s', hs', -⟩ := Option.bind_eq_some_iff.mp h
  exact ⟨s', hs'⟩

/-- A line that is pushed before or after an insertion makes no difference to the draft. -/
theorem insert_pushLine (s : Session) (i : Nat) (text line : String) :
    (s.step (.insert i text)).bind (·.step (.pushLine line)) =
      (s.step (.pushLine line)).bind (·.step (.insert i text)) := by
  cases h : s.marks[i]? <;> simp [Session.step, Draft.insert, Draft.pushLine, h]

/-- Whenever the steps of a draft are made, and after any number of the first of them, it can be finished and reads what
the live editor has at that moment: the body with every patch at its place, patches of one place in the order in which
they were given. A line that is pushed before or after an insertion makes no difference. -/
theorem finish_eq_live {edits : List Edit} {s : Session} (h : Session.run edits = some s) :
    (∀ n, ∃ s' l, Session.run (edits.take n) = some s' ∧ Live.run (edits.take n) = some l ∧
      s'.draft.finish? = some l.text ∧ s'.draft.text = l.text ∧
      l.text.toList = Draft.weave s'.draft.patches s'.draft.body.toList) ∧
    ∀ before after i text line, edits = before ++ .insert i text :: .pushLine line :: after →
      Session.run (before ++ .pushLine line :: .insert i text :: after) = some s := by
  constructor
  · intro n
    obtain ⟨s', hs'⟩ := run_take h n
    obtain ⟨l, hl, htracks⟩ := tracks_init.run hs'
    obtain ⟨hweave, hfinish⟩ := Draft.finish?_eq_some htracks.fits
    have htext : s'.draft.text = l.text := by
      rw [← String.toList_inj, hweave, htracks.text]
    exact ⟨s', l, hs', hl, htext ▸ hfinish, htext, htracks.text⟩
  · intro before after i text line hedits
    rw [Session.run, hedits, List.foldlM_append] at h
    obtain ⟨s₁, hs₁, h⟩ := Option.bind_eq_some_iff.mp h
    rw [Session.run, List.foldlM_append, hs₁]
    have hswap := insert_pushLine s₁ i text line
    simp only [List.foldlM_cons, ← Option.bind_assoc, Option.bind_eq_bind, Option.bind_some] at h ⊢
    rw [← hswap]
    exact h

/-- Two marks of one place with a line and a patch at another one in between. -/
def tangled : List Edit :=
  [ .pushLine "é", .mark, .mark, .insert 1 "first\n", .pushLine "last", .mark, .insert 2 "end\n", .insert 0 "second\n",
    .pushLine "" ]

theorem tangled_finished :
    (∃ s, Session.run tangled = some s ∧ s.draft.text = "é\nfirst\nsecond\nlast\nend\n\n") ∧
      ∃ l, Live.run tangled = some l ∧ l.text = "é\nfirst\nsecond\nlast\nend\n\n" := by
  have hrun : ∃ s, Session.run tangled = some s := ⟨_, rfl⟩
  obtain ⟨s, hs⟩ := hrun
  obtain ⟨s', l, hs', hl, -, htext, -⟩ := (finish_eq_live hs).1 tangled.length
  rw [List.take_length] at hs' hl
  have hread : (Live.run tangled).map (·.text) = some "é\nfirst\nsecond\nlast\nend\n\n" := by decide +kernel
  have hlive : l.text = "é\nfirst\nsecond\nlast\nend\n\n" := by simpa [hl] using hread
  exact ⟨⟨s', hs', htext.trans hlive⟩, l, hl, hlive⟩

end StageRig.Glsl
