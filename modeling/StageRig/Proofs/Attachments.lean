/-
  StageRig.Proofs.Attachments — which input attachments a shader reads.

  An input attachment takes one index for each descriptor, at least one, from its own index
  on. The largest index is never taken: what would reach it is cut off in front of it
  (`Spans`).

  - `attachments_exact`: the indices of an interface are those that the requirements of its
    layout take.
  - `attachments_of_bindings`: the same from the bindings. Of those that share a pair of set
    and binding, the first says whether there is an attachment and where it starts, and the
    largest how far it goes. The indices that a binding refers to are all there when the
    first of its pair starts where it does.
  - `second_attachment_lost`: they need not be there when it starts elsewhere.
-/

import StageRig.Proofs.Layout

namespace StageRig

/-! ## The indices of one requirement -/

/-- `k` is one of `count` indices from `first` on, or `first` itself, and is not the largest index. -/
def Spans (first : UInt32) (count : Nat) (k : UInt32) : Prop :=
  first.toNat ≤ k.toNat ∧ k.toNat < min (first.toNat + max count 1) (UInt32.size - 1)

theorem Spans.mono {first k : UInt32} {m n : Nat} (h : Spans first m k) (hle : m ≤ n) : Spans first n k := by
  simp only [Spans] at *
  omega

namespace Requirement

/-- The requirement is an input attachment that takes the index `k`. -/
def Covers (q : Requirement) (k : UInt32) : Prop :=
  q.kind = .inputAttachment ∧ ∃ first, q.attachmentIndex? = some first ∧ Spans first q.count.toNat k

theorem attachments_of_index {q : Requirement} {first : UInt32} (hkind : q.kind = .inputAttachment)
    (hfirst : q.attachmentIndex? = some first) :
    q.attachments = (List.range (min (first.toNat + max q.count.toNat 1) (UInt32.size - 1) - first.toNat)).map
      fun i => (first.toNat + i).toUInt32 := by
  simp only [attachments, hkind, hfirst]

theorem attachments_eq_nil {q : Requirement} (h : q.kind ≠ .inputAttachment ∨ q.attachmentIndex? = none) :
    q.attachments = [] := by
  rw [attachments]
  split
  · rename_i first hkind hfirst
    rcases h with h | h
    · exact absurd hkind h
    · cases hfirst.symm.trans h
  · rfl

/-- The indices are consecutive numbers: no sum wraps around. -/
theorem toNat_attachments {q : Requirement} {first : UInt32} (hkind : q.kind = .inputAttachment)
    (hfirst : q.attachmentIndex? = some first) :
    q.attachments.map UInt32.toNat =
      List.range' first.toNat (min (first.toNat + max q.count.toNat 1) (UInt32.size - 1) - first.toNat) := by
  rw [attachments_of_index hkind hfirst, List.map_map, List.range'_eq_map_range]
  refine List.map_congr_left fun i hi => ?_
  have hlt : first.toNat + i < UInt32.size := by
    have := List.mem_range.mp hi
    omega
  exact UInt32.toNat_ofNat_of_lt' hlt

theorem mem_attachments_iff {q : Requirement} {k : UInt32} : k ∈ q.attachments ↔ q.Covers k := by
  by_cases hkind : q.kind = .inputAttachment
  · cases hfirst : q.attachmentIndex? with
    | none => simp [attachments_eq_nil (Or.inr hfirst), Covers, hfirst]
    | some first =>
      have hmem : k ∈ q.attachments ↔ k.toNat ∈ q.attachments.map UInt32.toNat :=
        (List.mem_map_of_injective fun _ _ => UInt32.toNat_inj.mp).symm
      rw [hmem, toNat_attachments hkind hfirst, List.mem_range'_1]
      simp only [Covers, hkind, hfirst, Option.some.injEq, true_and, exists_eq_left', Spans]
      omega
  · simp [attachments_eq_nil (Or.inl hkind), Covers, hkind]

end Requirement

theorem mem_attachmentSet_iff {rs : List Requirement} {k : UInt32} :
    k ∈ (.ofList ((rs.flatMap (·.attachments)).mergeSort fun a b => a ≤ b) : IndexSet) ↔ ∃ q ∈ rs, q.Covers k := by
  rw [OrderedSet.mem_ofList fun _ _ => UInt32.toNat_inj.mp, List.mem_mergeSort, List.mem_flatMap]
  simp only [Requirement.mem_attachments_iff]

/-! ## From the layout -/

theorem exists_covers_setLayouts_iff {rs : List Requirement} {k : UInt32} :
    (∃ layout ∈ setLayouts rs, ∃ q ∈ layout.bindings, q.Covers k) ↔ ∃ q ∈ rs, q.Covers k := by
  constructor
  · intro h
    obtain ⟨layout, hl, q, hq, hk⟩ := h
    exact ⟨q, mem_setLayouts_iff.mp ⟨layout, hl, hq⟩, hk⟩
  · intro h
    obtain ⟨q, hq, hk⟩ := h
    obtain ⟨layout, hl, hq⟩ := mem_setLayouts_iff.mpr hq
    exact ⟨layout, hl, q, hq, hk⟩

theorem attachments_exact {r : Reflection} {i : Interface} (h : r.interface.result = .ok (.ok i)) :
    (∀ k, k ∈ i.attachments ↔ ∃ layout ∈ i.layout.sets, ∃ q ∈ layout.bindings, q.kind = .inputAttachment ∧
        ∃ first, q.attachmentIndex? = some first ∧ first.toNat ≤ k.toNat ∧
          k.toNat < min (first.toNat + max q.count.toNat 1) (UInt32.size - 1)) ∧
      (∀ k ∈ i.attachments, k.toNat ≠ UInt32.size - 1) ∧
      ∀ layout ∈ i.layout.sets, ∀ q ∈ layout.bindings,
        (q.kind ≠ .inputAttachment ∨ q.attachmentIndex? = none → q.attachments = []) ∧
          ∀ first, q.kind = .inputAttachment → q.attachmentIndex? = some first →
            q.attachments.map UInt32.toNat =
              List.range' first.toNat (min (first.toNat + max q.count.toNat 1) (UInt32.size - 1) - first.toNat) := by
  obtain ⟨entry, rs, _, _, rfl⟩ := interface_ok_iff.mp h
  have hcovers : ∀ k : UInt32, _ ↔ ∃ layout ∈ setLayouts rs, ∃ q ∈ layout.bindings, q.Covers k :=
    fun _ => mem_attachmentSet_iff.trans exists_covers_setLayouts_iff.symm
  refine ⟨hcovers, fun k hk => ?_, fun layout _ q _ => ⟨q.attachments_eq_nil, fun _ => q.toNat_attachments⟩⟩
  obtain ⟨_, _, q, _, _, first, _, _, hlt⟩ := (hcovers k).mp hk
  omega

/-- A fragment shader with these bindings and nothing else. -/
def subpass (bindings : List Binding) : Reflection where
  sourceName := "subpass.frag"
  stage := .fragment
  entryPoints := [⟨"main", .fragment⟩]
  bindings

/-- An array of attachments that would go past the last index. -/
def edge : Reflection :=
  subpass
    [ { set := 0, binding := 0, kind := .inputAttachment, dims := [2, 2], attachmentIndex? := some 4294967294 },
      { set := 0, binding := 1, kind := .sampler, attachmentIndex? := some 7 } ]

theorem edge_attachments : ∃ i, edge.interface.result = .ok (.ok i) ∧ 4294967294 ∈ i.attachments ∧
    4294967295 ∉ i.attachments ∧ 7 ∉ i.attachments := by
  have hrs : (collect .fragment edge.bindings []).result =
      .ok [⟨0, 0, .inputAttachment, 4, .single .fragment, some 4294967294⟩,
        ⟨0, 1, .sampler, 1, .single .fragment, some 7⟩] := rfl
  have hinterface := interface_ok_iff.mpr ⟨⟨"main", .fragment⟩, _, rfl, hrs, rfl⟩
  obtain ⟨hexact, hlast, -⟩ := attachments_exact hinterface
  refine ⟨_, hinterface, (hexact _).mpr ?_, fun h => hlast _ h rfl, fun h => ?_⟩
  · exact ⟨_, List.mem_cons_self, _, List.mem_cons_self, rfl, 4294967294, rfl, by decide⟩
  · obtain ⟨layout, hl, q, hq, hkind, first, hfirst, hle, -⟩ := (hexact _).mp h
    rcases List.mem_cons.mp (mem_setLayouts_iff.mp ⟨layout, hl, hq⟩) with rfl | hq
    · cases hfirst
      exact absurd hle (by decide)
    · cases List.mem_singleton.mp hq
      cases hkind

/-! ## From the bindings -/

namespace Binding

/-- The binding is an input attachment that takes the index `k`, by its own dimensions. -/
def RefersTo (b : Binding) (k : UInt32) : Prop :=
  b.kind = .inputAttachment ∧ ∃ first, b.attachmentIndex? = some first ∧ Spans first b.descriptors k

/-- The first of the bindings with its pair. -/
def Leads (b : Binding) (bs : List Binding) : Prop := (bindingsAt bs b.set b.binding).head? = some b

theorem Leads.mem {b : Binding} {bs : List Binding} (h : b.Leads bs) : b ∈ bs :=
  (List.mem_filter.mp (List.mem_of_head? h)).1

end Binding

theorem mem_bindingsAt_iff {bs : List Binding} {b : Binding} {set binding : UInt32} :
    b ∈ bindingsAt bs set binding ↔ b ∈ bs ∧ b.set = set ∧ b.binding = binding := by
  simp [bindingsAt]

/-- Each pair has a first binding. -/
theorem exists_leads {bs : List Binding} {b : Binding} (hb : b ∈ bs) :
    ∃ c : Binding, c.Leads bs ∧ c.set = b.set ∧ c.binding = b.binding := by
  have hmem : b ∈ bindingsAt bs b.set b.binding := mem_bindingsAt_iff.mpr ⟨hb, rfl, rfl⟩
  cases hhead : (bindingsAt bs b.set b.binding).head? with
  | none => simp [List.head?_eq_none_iff.mp hhead] at hmem
  | some c =>
    obtain ⟨_, hset, hbinding⟩ := mem_bindingsAt_iff.mp (List.mem_of_head? hhead)
    exact ⟨c, by rw [Binding.Leads, hset, hbinding, hhead], hset, hbinding⟩

-- A requirement has the kind and the index of the first binding with its pair, and counts as
-- much as some binding with it: the largest. So a smaller one spans no further.
/-- What the requirements take is what the first bindings of the pairs start. -/
theorem exists_covers_iff {stage : Stage} {bs : List Binding} {rs : List Requirement} (h : Gathered stage bs rs)
    {k : UInt32} :
    (∃ q ∈ rs, q.Covers k) ↔
      ∃ (b c : Binding) (first : UInt32), b.Leads bs ∧ b.kind = .inputAttachment ∧ b.attachmentIndex? = some first ∧
        c ∈ bindingsAt bs b.set b.binding ∧ Spans first c.descriptors k := by
  constructor
  · intro hq
    obtain ⟨q, hq, hkind, first, hfirst, hspans⟩ := hq
    obtain ⟨b, hb, hbkind, hbfirst⟩ := (h.merges q hq).first
    obtain ⟨c, hc, hcount⟩ := (h.merges q hq).count.1
    obtain ⟨_, hset, hbinding⟩ := mem_bindingsAt_iff.mp (List.mem_of_head? hb)
    refine ⟨b, c, first, ?_, hbkind ▸ hkind, hbfirst ▸ hfirst, ?_, hcount ▸ hspans⟩
    · rw [Binding.Leads, hset, hbinding, hb]
    · rw [hset, hbinding]
      exact hc
  · intro hb
    obtain ⟨b, c, first, hb, hkind, hfirst, hc, hspans⟩ := hb
    obtain ⟨q, hq, hset, hbinding⟩ := (h.pairs b.set b.binding).mpr ⟨b, hb.mem, rfl, rfl⟩
    obtain ⟨b', hb', hbkind, hbfirst⟩ := (h.merges q hq).first
    rw [hset, hbinding] at hb'
    cases Option.some.inj (hb.symm.trans hb')
    have hle : c.descriptors ≤ q.count.toNat := (h.merges q hq).count.2 c (by rw [hset, hbinding]; exact hc)
    exact ⟨q, hq, hbkind.trans hkind, first, hbfirst.trans hfirst, hspans.mono hle⟩

theorem attachments_of_bindings {r : Reflection} {i : Interface} (h : r.interface.result = .ok (.ok i)) :
    (∀ k, k ∈ i.attachments ↔ ∃ (b c : Binding) (first : UInt32), b.Leads r.bindings ∧ b.kind = .inputAttachment ∧
        b.attachmentIndex? = some first ∧ c ∈ bindingsAt r.bindings b.set b.binding ∧ Spans first c.descriptors k) ∧
      ∀ b ∈ r.bindings, ∀ k, b.RefersTo k →
        (∀ c : Binding, c.Leads r.bindings → c.set = b.set → c.binding = b.binding →
          c.kind = b.kind ∧ c.attachmentIndex? = b.attachmentIndex?) →
        k ∈ i.attachments := by
  obtain ⟨entry, rs, _, hrs, rfl⟩ := interface_ok_iff.mp h
  have hleads := fun k => mem_attachmentSet_iff.trans (exists_covers_iff (gathered_of_collect hrs) (k := k))
  refine ⟨hleads, fun b hb k hk hfirst => (hleads k).mpr ?_⟩
  obtain ⟨hkind, first, hindex, hspans⟩ := hk
  obtain ⟨c, hc, hset, hbinding⟩ := exists_leads hb
  obtain ⟨hckind, hcindex⟩ := hfirst c hc hset hbinding
  refine ⟨c, b, first, hc, hckind.trans hkind, hcindex.trans hindex, ?_, hspans⟩
  rw [hset, hbinding]
  exact mem_bindingsAt_iff.mpr ⟨hb, rfl, rfl⟩

/-- An array of three attachments. -/
def stack : Binding := { set := 0, binding := 0, kind := .inputAttachment, dims := [3], attachmentIndex? := some 1 }

/-- The array behind a single attachment that has its pair and its index. -/
def layered : Reflection :=
  subpass [{ set := 0, binding := 0, kind := .inputAttachment, attachmentIndex? := some 1 }, stack]

theorem layered_attachments : ∃ i, layered.interface.result = .ok (.ok i) ∧ stack ∈ layered.bindings ∧
    stack.RefersTo 3 ∧
    (∀ c : Binding, c.Leads layered.bindings → c.set = stack.set → c.binding = stack.binding →
      c.kind = stack.kind ∧ c.attachmentIndex? = stack.attachmentIndex?) ∧ 3 ∈ i.attachments := by
  have hrs : (collect .fragment layered.bindings []).result =
      .ok [⟨0, 0, .inputAttachment, 3, .single .fragment, some 1⟩] := rfl
  have hinterface := interface_ok_iff.mpr ⟨⟨"main", .fragment⟩, _, rfl, hrs, rfl⟩
  have hmem : stack ∈ layered.bindings := List.mem_cons_of_mem _ List.mem_cons_self
  have hrefers : stack.RefersTo 3 := ⟨rfl, 1, rfl, by unfold Spans; decide⟩
  have hfirst : ∀ c : Binding, c.Leads layered.bindings → c.set = stack.set → c.binding = stack.binding →
      c.kind = stack.kind ∧ c.attachmentIndex? = stack.attachmentIndex? := by
    intro c hc hset hbinding
    rw [Binding.Leads, hset, hbinding] at hc
    cases Option.some.inj hc
    exact ⟨rfl, rfl⟩
  exact ⟨_, hinterface, hmem, hrefers, hfirst, (attachments_of_bindings hinterface).2 stack hmem 3 hrefers hfirst⟩

/-- Two attachments that share a pair and start at different indices. -/
def overlaid : Reflection :=
  subpass
    [ { name := "albedo", set := 0, binding := 0, kind := .inputAttachment, attachmentIndex? := some 1 },
      { name := "depth", set := 0, binding := 0, kind := .inputAttachment, attachmentIndex? := some 5 } ]

/-- The second one's index is not among those that the shader reads. -/
theorem second_attachment_lost : ∃ i, overlaid.interface.result = .ok (.ok i) ∧
    ∃ b ∈ overlaid.bindings, b.RefersTo 5 ∧ 5 ∉ i.attachments := by
  have hrs : (collect .fragment overlaid.bindings []).result =
      .ok [⟨0, 0, .inputAttachment, 1, .single .fragment, some 1⟩] := rfl
  have hinterface := interface_ok_iff.mpr ⟨⟨"main", .fragment⟩, _, rfl, hrs, rfl⟩
  have hrefers : Binding.RefersTo ⟨"depth", 0, 0, .inputAttachment, [], some 5⟩ 5 :=
    ⟨rfl, 5, rfl, by unfold Spans; decide⟩
  refine ⟨_, hinterface, _, List.mem_cons_of_mem _ List.mem_cons_self, hrefers, fun h => ?_⟩
  -- the one requirement starts at the first binding's index and counts one descriptor
  obtain ⟨q, hq, -, first, hfirst, -, hlt⟩ := mem_attachmentSet_iff.mp h
  cases List.mem_singleton.mp hq
  cases hfirst
  exact absurd hlt (by decide)

end StageRig
