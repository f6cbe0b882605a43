import ParseTree.Proofs.Tree.Checked
import ParseTree.Proofs.Tree.Last

/-!
# Where the nodes of a tree lie

In document order every composite is placed where the leaf before it ends. If the leaves follow each
other, so do the nodes: the spans of the children of a composite tile its own, and no node starts
before one that comes before it.

## Main definitions

* `Moored`: the composites of a traversal are placed where the leaves before them end
* `Lies`: in addition, the leaves follow each other
* `Consecutive`: spans that follow each other from one offset to another

## Main results

* `Moored.concat`, `Moored.interpose`, `Moored.contract`: the edits of a tree keep composites placed
* `Moored.lies`: composites that are placed so, among leaves that tile
* `Lies.span`: a node covers what its traversal covers
* `Lies.consecutive`, `Lies.consecutive_children`: the spans on the stack of a traversal tile it,
  the children of a composite tile the composite
* `Lies.sorted`: in document order the nodes start one after the other
-/

namespace ParseTree

/-- The spans follow each other from one offset to another. -/
inductive Consecutive : ℕ → List Span → ℕ → Prop where
  /-- No span covers nothing. -/
  | nil {a : ℕ} : Consecutive a [] a
  /-- The first span starts at the offset, and the others where it ends. -/
  | cons {b : ℕ} {span : Span} {spans : List Span} (h : Consecutive span.stop spans b) :
    Consecutive span.start (span :: spans) b

namespace Tree

/-- The leaves among the nodes, in order. -/
def leavesAmong (t : Tree) (l : List NodeId) : List Leaf :=
  l.filterMap fun x => (t.node x).leaf?

/-- The composites among the nodes are placed where the leaf before them ends, the first ones at an
offset. The last leaf ends at another offset. -/
inductive Moored (t : Tree) : ℕ → List NodeId → ℕ → Prop where
  /-- Without nodes there is nothing to place. -/
  | nil {a : ℕ} : Moored t a [] a
  /-- A leaf ends where the next nodes are placed. -/
  | leaf {a b : ℕ} {x : NodeId} {l : List NodeId} {leaf : Leaf} (h : (t.node x).leaf? = some leaf)
    (rest : Moored t leaf.span.stop l b) : Moored t a (x :: l) b
  /-- A composite is placed at the offset. -/
  | composite {a b : ℕ} {x : NodeId} {l : List NodeId} (h : (t.node x).leaf? = none)
    (anchor : (t.node x).anchor = a) (rest : Moored t a l b) : Moored t a (x :: l) b

/-- The nodes follow each other: each leaf starts where the one before it ends, and the composites
in between are placed there. -/
inductive Lies (t : Tree) : ℕ → List NodeId → ℕ → Prop where
  /-- No node covers nothing. -/
  | nil {a : ℕ} : Lies t a [] a
  /-- A leaf starts at the offset and ends where the next nodes start. -/
  | leaf {b : ℕ} {x : NodeId} {l : List NodeId} {leaf : Leaf} (h : (t.node x).leaf? = some leaf)
    (le : leaf.span.start ≤ leaf.span.stop) (rest : Lies t leaf.span.stop l b) :
    Lies t leaf.span.start (x :: l) b
  /-- A composite is placed at the offset. -/
  | composite {a b : ℕ} {x : NodeId} {l : List NodeId} (h : (t.node x).leaf? = none)
    (anchor : (t.node x).anchor = a) (rest : Lies t a l b) : Lies t a (x :: l) b

section LeavesAmong

variable {t : Tree} {x : NodeId} {l : List NodeId} {leaf : Leaf}

theorem leavesAmong_cons_leaf (h : (t.node x).leaf? = some leaf) (l : List NodeId) :
    t.leavesAmong (x :: l) = leaf :: t.leavesAmong l := by
  simp [leavesAmong, h]

theorem leavesAmong_cons_composite (h : (t.node x).leaf? = none) (l : List NodeId) :
    t.leavesAmong (x :: l) = t.leavesAmong l := by
  simp [leavesAmong, h]

/-- The leaves among some nodes are those of the nodes that are leaves. -/
theorem map_filter_isLeaf (t : Tree) (l : List NodeId) :
    (l.filter t.isLeaf).map (fun x => (t.node x).leaf?) = (t.leavesAmong l).map some := by
  induction l with
  | nil => rfl
  | cons x l ih =>
    cases hx : (t.node x).leaf? with
    | none =>
      rw [List.filter_cons_of_neg (by simp [isLeaf, hx]), leavesAmong_cons_composite hx, ih]
    | some leaf =>
      rw [List.filter_cons_of_pos (by simp [isLeaf, hx]), leavesAmong_cons_leaf hx, List.map_cons,
        List.map_cons, ih, hx]

theorem bind_leafSpan? {o : Option NodeId} {leaf? : Option Leaf}
    (h : o.map (fun x => (t.node x).leaf?) = leaf?.map some) :
    o.bind t.leafSpan? = leaf?.map (·.span) := by
  cases o with
  | none =>
    cases leaf? with
    | none => rfl
    | some leaf => cases h
  | some x =>
    cases leaf? with
    | none => cases h
    | some leaf =>
      have hx : (t.node x).leaf? = some leaf := Option.some.inj h
      exact congrArg (Option.map (·.span)) hx

end LeavesAmong

/-! ## Composites that are placed where the leaves before them end -/

section Moored

variable {t t' : Tree} {a b c : ℕ} {l l' : List NodeId} {x inner outer child : NodeId}

theorem Moored.concat (h : t.Moored a l b) (h' : t.Moored b l' c) : t.Moored a (l ++ l') c := by
  induction h with
  | nil => exact h'
  | leaf hx _ ih => exact .leaf hx (ih h')
  | composite hx anchor _ ih => exact .composite hx anchor (ih h')

/-- Only the nodes of the list count. -/
theorem Moored.congr (h : t.Moored a l b) (hleaf : ∀ x ∈ l, (t'.node x).leaf? = (t.node x).leaf?)
    (hanchor : ∀ x ∈ l, (t'.node x).anchor = (t.node x).anchor) : t'.Moored a l b := by
  induction h with
  | nil => exact .nil
  | leaf hx _ ih =>
    obtain ⟨hleafx, hleaf⟩ := List.forall_mem_cons.mp hleaf
    exact .leaf (hleafx.trans hx) (ih hleaf fun y hy => hanchor y (List.mem_cons_of_mem _ hy))
  | composite hx anchor _ ih =>
    obtain ⟨hleafx, hleaf⟩ := List.forall_mem_cons.mp hleaf
    obtain ⟨hanchorx, hanchor⟩ := List.forall_mem_cons.mp hanchor
    exact .composite (hleafx.trans hx) (hanchorx.trans anchor) (ih hleaf hanchor)

/-- The nodes end with the last leaf among them. -/
theorem Moored.stop_eq (h : t.Moored a l b) :
    b = ((t.leavesAmong l).getLast?.map (·.span.stop)).getD a := by
  induction h with
  | nil => rfl
  | @leaf a b x l leaf hx _ ih =>
    rw [leavesAmong_cons_leaf hx, List.getLast?_cons, ih]
    cases (t.leavesAmong l).getLast? <;> rfl
  | composite hx _ _ ih => rw [leavesAmong_cons_composite hx, ← ih]

/-- A composite that is inserted above another one is placed where that one is. -/
theorem Moored.interpose (h : t.Moored a l b) (hinner : (t.node inner).leaf? = none)
    (houter : (t.node outer).leaf? = none)
    (hanchor : (t.node outer).anchor = (t.node inner).anchor) :
    t.Moored a (l.flatMap fun x => if x = inner then [outer, inner] else [x]) b := by
  induction h with
  | nil => exact .nil
  | @leaf a b x l leaf hx _ ih =>
    have hne : x ≠ inner := by
      rintro rfl
      simp [hinner] at hx
    rw [List.flatMap_cons, if_neg hne]
    exact .leaf hx ih
  | @composite a b x l hx anchor _ ih =>
    rw [List.flatMap_cons]
    split_ifs with heq
    · subst heq
      exact .composite houter (hanchor.trans anchor) (.composite hx anchor ih)
    · exact .composite hx anchor ih

/-- A composite may be left out. -/
theorem Moored.contract (h : t.Moored a l b) (hchild : (t.node child).leaf? = none) :
    t.Moored a (l.filter fun x => x ≠ child) b := by
  induction h with
  | nil => exact .nil
  | @leaf a b x l leaf hx _ ih =>
    have hne : x ≠ child := by
      rintro rfl
      simp [hchild] at hx
    rw [List.filter_cons_of_pos (by simpa using hne)]
    exact .leaf hx ih
  | @composite a b x l hx anchor _ ih =>
    by_cases heq : x = child
    · rw [List.filter_cons_of_neg (by simpa using heq)]
      exact ih
    · rw [List.filter_cons_of_pos (by simpa using heq)]
      exact .composite hx anchor ih

/-- Composites that are placed where the leaves before them end, among leaves that follow each
other. -/
theorem Moored.lies {stop : ℕ} {previous : Option ℕ} (h : t.Moored a l b)
    (htiles : Tiles a previous (t.leavesAmong l) stop)
    (hle : ∀ x ∈ l, ∀ leaf, (t.node x).leaf? = some leaf → leaf.span.start ≤ leaf.span.stop) :
    t.Lies a l b := by
  induction h generalizing previous with
  | nil => exact .nil
  | @leaf a b x l leaf hx _ ih =>
    obtain ⟨hlex, hle⟩ := List.forall_mem_cons.mp hle
    rw [leavesAmong_cons_leaf hx] at htiles
    cases htiles with
    | cons start _ rest =>
      rw [← start]
      exact .leaf hx (hlex leaf hx) (ih rest hle)
  | composite hx anchor _ ih =>
    rw [leavesAmong_cons_composite hx] at htiles
    exact .composite hx anchor (ih htiles fun y hy => hle y (List.mem_cons_of_mem _ hy))

end Moored

/-! ## Nodes that follow each other -/

section Lies

variable {t : Tree} {a b : ℕ} {l l₁ l₂ stack : List NodeId} {x : NodeId} {leaf : Leaf}

theorem Lies.split (h : t.Lies a (l₁ ++ l₂) b) : ∃ m, t.Lies a l₁ m ∧ t.Lies m l₂ b := by
  induction l₁ generalizing a with
  | nil => exact ⟨a, .nil, h⟩
  | cons x l₁ ih =>
    cases h with
    | leaf hx le rest =>
      obtain ⟨m, h₁, h₂⟩ := ih rest
      exact ⟨m, .leaf hx le h₁, h₂⟩
    | composite hx anchor rest =>
      obtain ⟨m, h₁, h₂⟩ := ih rest
      exact ⟨m, .composite hx anchor h₁, h₂⟩

theorem Lies.le (h : t.Lies a l b) : a ≤ b := by
  induction h with
  | nil => exact le_rfl
  | leaf _ le _ ih => exact le.trans ih
  | composite _ _ _ ih => exact ih

theorem Lies.moored (h : t.Lies a l b) : t.Moored a l b := by
  induction h with
  | nil => exact .nil
  | leaf hx _ _ ih => exact .leaf hx ih
  | composite hx anchor _ ih => exact .composite hx anchor ih

/-- The first leaf starts where the nodes start. -/
theorem Lies.start_of_head? (h : t.Lies a l b) (hleaf : (t.leavesAmong l).head? = some leaf) :
    leaf.span.start = a := by
  induction h with
  | nil => cases hleaf
  | leaf hx _ _ _ =>
    rw [leavesAmong_cons_leaf hx] at hleaf
    rw [← Option.some.inj hleaf]
  | composite hx _ _ ih =>
    rw [leavesAmong_cons_composite hx] at hleaf
    exact ih hleaf

/-- The last leaf ends where the nodes end. -/
theorem Lies.stop_of_getLast? (h : t.Lies a l b) (hleaf : (t.leavesAmong l).getLast? = some leaf) :
    leaf.span.stop = b := by
  rw [h.moored.stop_eq, hleaf]
  rfl

/-- Leaves lie between the ends of the nodes. -/
theorem Lies.bounds (h : t.Lies a l b) (hleaf : leaf ∈ t.leavesAmong l) :
    a ≤ leaf.span.start ∧ leaf.span.start ≤ leaf.span.stop ∧ leaf.span.stop ≤ b := by
  induction h with
  | nil => cases hleaf
  | leaf hx le rest ih =>
    rw [leavesAmong_cons_leaf hx] at hleaf
    rcases List.mem_cons.mp hleaf with rfl | hleaf
    · exact ⟨le_rfl, le, rest.le⟩
    · obtain ⟨h₁, h₂⟩ := ih hleaf
      exact ⟨le.trans h₁, h₂⟩
  | composite hx _ _ ih =>
    rw [leavesAmong_cons_composite hx] at hleaf
    exact ih hleaf

section WellFormed

variable (hw : t.shape.WellFormed)

include hw

/-- A node covers what its traversal covers. -/
theorem Lies.span (h : t.Lies a l b) (hc : t.Contains x) (ht : t.shape.Traversal [x] l) :
    t.span x = ⟨a, b⟩ := by
  have hleaves : t.leaves x = l.filter t.isLeaf := by rw [leaves, descendants_eq hw hc ht]
  have hfirst : (t.firstLeaf? x).bind t.leafSpan? = (t.leavesAmong l).head?.map (·.span) := by
    rw [firstLeaf?, hleaves]
    refine bind_leafSpan? ?_
    rw [← List.head?_map, map_filter_isLeaf, List.head?_map]
  have hlast : (t.lastLeaf? x).bind t.leafSpan? = (t.leavesAmong l).getLast?.map (·.span) := by
    rw [lastLeaf?_eq hw hc, hleaves]
    refine bind_leafSpan? ?_
    rw [← List.getLast?_map, map_filter_isLeaf, List.getLast?_map]
  cases hx : (t.node x).leaf? with
  | some leaf =>
    have hnil : t.shape.children x = [] := by
      rw [children_shape, children_eq_nil_of_isLeaf (by simp [isLeaf, hx])]
    cases ht with
    | cons ht =>
      rw [hnil] at ht
      cases ht
      rw [span_of_leaf? hx]
      have hone : t.leavesAmong [x] = [leaf] := leavesAmong_cons_leaf hx []
      have hstart : leaf.span.start = a := h.start_of_head? (by rw [hone]; rfl)
      have hstop : leaf.span.stop = b := h.stop_of_getLast? (by rw [hone]; rfl)
      rw [← hstart, ← hstop]
  | none =>
    rw [span_of_leaf?_eq_none hx, hfirst, hlast]
    have hstop := h.moored.stop_eq
    cases hl : t.leavesAmong l with
    | nil =>
      rw [hl] at hstop
      obtain rfl : b = a := hstop
      cases ht with
      | cons ht =>
        cases h with
        | leaf hleaf _ _ => rw [hx] at hleaf; cases hleaf
        | composite _ anchor _ => rw [← anchor]; rfl
    | cons first rest =>
      obtain ⟨last, hlast⟩ : ∃ last, (first :: rest).getLast? = some last := by
        simp [List.getLast?_cons]
      rw [hlast]
      rw [← hl] at hlast
      have hstart : first.span.start = a := h.start_of_head? (by rw [hl]; rfl)
      have hstop := h.stop_of_getLast? hlast
      have hmem : first ∈ t.leavesAmong l := hl ▸ List.mem_cons_self
      have hboundsFirst := h.bounds hmem
      have hboundsLast := h.bounds (List.mem_of_getLast? hlast)
      show (⟨min first.span.start last.span.start, max first.span.stop last.span.stop⟩ : Span) =
        ⟨a, b⟩
      rw [Span.mk.injEq]
      omega

/-- The spans of the nodes on the stack of a traversal follow each other. -/
theorem Lies.consecutive (h : t.Lies a l b) (hc : ∀ x ∈ stack, t.Contains x)
    (ht : t.shape.Traversal stack l) : Consecutive a (stack.map t.span) b := by
  induction stack generalizing a l with
  | nil =>
    cases ht
    cases h
    exact .nil
  | cons x stack ih =>
    obtain ⟨hx, hc⟩ := List.forall_mem_cons.mp hc
    obtain ⟨l₁, l₂, rfl, h₁, h₂⟩ := ht.split_cons
    obtain ⟨m, hl₁, hl₂⟩ := h.split
    have hspan := hl₁.span hw hx h₁
    have hrest := ih hl₂ hc h₂
    rw [List.map_cons, hspan]
    exact @Consecutive.cons b ⟨a, m⟩ _ hrest

/-- The spans of the children of a composite follow each other from its start to its end. -/
theorem Lies.consecutive_children (h : t.Lies a l b) (hc : ∀ x ∈ stack, t.Contains x)
    (ht : t.shape.Traversal stack l) (hx : x ∈ l) (hleaf : (t.node x).leaf? = none) :
    Consecutive (t.span x).start ((t.children x).map t.span) (t.span x).stop := by
  obtain ⟨c, hcx, hbelow⟩ := (ht.mem_iff hw).mp hx
  have hcx := contains_of_below (hc c hcx) hbelow
  obtain ⟨l₁, l₂, l₃, rfl, h₂⟩ := ht.exists_part hx
  obtain ⟨m, h, -⟩ := h.split
  obtain ⟨m', -, h⟩ := h.split
  rw [h.span hw hcx h₂]
  cases h₂ with
  | cons h₂ =>
    rw [List.append_nil] at h₂
    cases h with
    | leaf hx _ _ =>
      rw [hleaf] at hx
      cases hx
    | composite _ _ rest =>
      exact rest.consecutive hw (fun y hy => contains_of_parent? (hw.parent?_of_mem hy)) h₂

/-- In document order the nodes start one after the other. -/
theorem Lies.sorted (h : t.Lies a l b) (hc : ∀ x ∈ stack, t.Contains x)
    (ht : t.shape.Traversal stack l) :
    (l.map fun x => (t.span x).start).Pairwise (· ≤ ·) ∧ ∀ x ∈ l, a ≤ (t.span x).start := by
  induction ht generalizing a with
  | nil => exact ⟨List.Pairwise.nil, fun _ hx => by cases hx⟩
  | @cons id stack l ht ih =>
    obtain ⟨hid, hc⟩ := List.forall_mem_cons.mp hc
    have hc' : ∀ x ∈ t.shape.children id ++ stack, t.Contains x := by
      intro x hx
      rcases List.mem_append.mp hx with hx | hx
      · exact contains_of_parent? (hw.parent?_of_mem hx)
      · exact hc x hx
    obtain ⟨l₁, l₂, hl, h₁, -⟩ := (Shape.Traversal.cons ht).split_cons
    obtain ⟨m, hl₁, -⟩ := Lies.split (hl ▸ h)
    have hspan := hl₁.span hw hid h₁
    have hrest : ∃ m, a ≤ m ∧ t.Lies m l b := by
      cases h with
      | leaf _ le rest => exact ⟨_, le, rest⟩
      | composite _ _ rest => exact ⟨a, le_rfl, rest⟩
    obtain ⟨m', hle, hrest⟩ := hrest
    obtain ⟨hsorted, hfrom⟩ := ih hrest hc'
    have hfrom' : ∀ x ∈ l, a ≤ (t.span x).start := fun x hx => hle.trans (hfrom x hx)
    rw [List.map_cons, List.pairwise_cons, hspan, List.forall_mem_cons, hspan]
    refine ⟨⟨?_, hsorted⟩, le_rfl, hfrom'⟩
    intro offset hoffset
    obtain ⟨x, hx, rfl⟩ := List.mem_map.mp hoffset
    exact hfrom' x hx

end WellFormed

end Lies

end Tree

end ParseTree
