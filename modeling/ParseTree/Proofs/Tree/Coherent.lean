import ParseTree.Proofs.Tree.Checked
import ParseTree.Proofs.Tree.Descent
import ParseTree.SyntaxTree

/-!
# What the check of a tree decides

The check runs on any nodes whatsoever. Their links may disagree, a node may be listed twice or
below itself, and leaves may cover anything. Yet the walk ends without a defect only if it has
followed a traversal of all nodes that the root leads to, and then it has seen everything that makes
a tree coherent.

## Main definitions

* `Tree.Coherent`: the nodes form one tree over a text, with the primary nodes in it

## Main results

* `exists_traversal_of_checkFrom`: a walk without a defect follows a traversal
* `Coherent.exists_traversal`: a coherent tree has a document order
* `coherent_of_tiles`: a well-formed tree is coherent if its leaves tile the text
* `violation?_eq_none_iff_coherent`: the check finds no defect if and only if the tree is coherent
-/

namespace ParseTree.Tree

variable {t : Tree} {stack l : List NodeId} {p p' : Progress} {source : String}
  {primary : List NodeId}

/-- The nodes that the root leads to form one tree over a text. Nothing is said about what the root
does not lead to. -/
structure Coherent (t : Tree) (source : String) (primary : List NodeId) : Prop where
  /-- Nothing is above the root. -/
  root : t.parent? root = none
  /-- Going down children, each node is reached in at most one way. -/
  once : t.shape.ReachedOnce Tree.root
  /-- A node that is reached is what its children have above them. -/
  parent : ∀ x, t.shape.Reached Tree.root x → ∀ c ∈ t.children x, t.parent? c = some x
  /-- In document order the leaves follow each other, in the order of their tokens, and end with the
  text. -/
  leaves : ∀ nodes, t.shape.Traversal [Tree.root] nodes →
    Tiles 0 none (nodes.filterMap fun x => (t.node x).leaf?) source.utf8ByteSize
  /-- The primary nodes are reached. -/
  primary : ∀ x ∈ primary, t.shape.Reached Tree.root x

/-- A walk without a defect follows a traversal. It meets unvisited nodes, each of them once, and
only children that agree on the node above. -/
theorem exists_traversal_of_checkFrom (hp : p.unvisited.Nodup) (h : t.checkFrom p stack = .ok p') :
    ∃ l, t.shape.Traversal stack l ∧ l.Nodup ∧
      ∀ x ∈ l, x ∈ p.unvisited ∧ t.checkChildren? x = none := by
  -- Along the walk: what it meets after a node was removed from what is unvisited.
  fun_induction checkFrom t p stack with
  | case1 => exact ⟨[], .nil, List.nodup_nil, by simp⟩
  | case2 | case3 => cases h
  | case4 p id stack hid hc _ ih =>
    obtain ⟨l, hl, hn, hu⟩ := ih (by rw [unvisited_visit]; exact hp.erase id) h
    rw [unvisited_visit] at hu
    refine ⟨id :: l, .cons hl, List.nodup_cons.mpr ⟨?_, hn⟩, List.forall_mem_cons.mpr ⟨?_, ?_⟩⟩
    · intro hmem
      exact (hp.mem_erase_iff.mp (hu id hmem).1).1 rfl
    · exact ⟨hid, hc⟩
    · intro x hx
      exact (hu x hx).imp_left List.mem_of_mem_erase
  | case5 => cases h

/-- What the root leads to is in the tree, since it has something above it. -/
theorem contains_of_reached (hr : t.Contains root)
    (hp : ∀ x, t.shape.Reached root x → ∀ c ∈ t.children x, t.parent? c = some x) {x : NodeId}
    (h : t.shape.Reached root x) : t.Contains x := by
  obtain ⟨path, hpath⟩ := h
  induction path using List.reverseRecOn generalizing x with
  | nil => rwa [← Option.some.inj hpath]
  | append_singleton path i _ =>
    rw [Shape.descend?_append] at hpath
    obtain ⟨y, hy, hi⟩ := Option.bind_eq_some_iff.mp hpath
    obtain ⟨c, hc, hx⟩ := Option.bind_eq_some_iff.mp hi
    obtain rfl := Option.some.inj hx
    exact contains_of_parent? (hp y ⟨path, hy⟩ c (List.mem_of_getElem? hc))

/-- What the root leads to is a tree, if it is coherent. -/
theorem Coherent.isTreeBelow (hr : t.Contains Tree.root) (h : t.Coherent source primary) :
    t.IsTreeBelow Tree.root :=
  ⟨fun _ => contains_of_reached hr h.parent, h.once⟩

/-- A coherent tree has a document order. -/
theorem Coherent.exists_traversal (hr : t.Contains Tree.root) (h : t.Coherent source primary) :
    ∃ l, t.shape.Traversal [Tree.root] l :=
  ⟨_, (h.isTreeBelow hr).traversal_descendants⟩

/-- What the check accepts is coherent. -/
theorem coherent_of_violation? (hsize : source.utf8ByteSize < Span.limit)
    (h : t.violation? source primary = none) : t.Coherent source primary := by
  rw [violation?, saturate_of_lt hsize] at h
  cases hroot : t.parent? root with
  | some parent => simp [hroot] at h
  | none =>
    rw [hroot] at h
    cases hrun : t.checkFrom ⟨(List.range t.size).map NodeId.mk, 0, none⟩ [root] with
    | error v => simp [hrun] at h
    | ok p =>
      simp only [hrun] at h
      split_ifs at h with hoff
      obtain ⟨l, hl, hn, hu⟩ := exists_traversal_of_checkFrom t.nodup_range_nodes hrun
      have hreached (x : NodeId) : x ∈ l ↔ t.shape.Reached root x := by
        simp [hl.mem_iff_reached]
      have hspec := checkFrom_spec (p := ⟨_, 0, none⟩) hl hn (fun x hx => (hu x hx).2)
        t.nodup_range_nodes (fun x hx => (hu x hx).1)
      rw [hrun] at hspec
      exact {
        root := hroot
        once := hl.nodup_iff_reachedOnce.mp hn
        parent := fun x hx => checkChildren?_eq_none_iff.mp (hu x ((hreached x).mpr hx)).2
        leaves := fun nodes hnodes => hnodes.unique hl ▸ not_not.mp hoff ▸ hspec.2
        primary := by
          intro x hx
          have hfind := List.find?_eq_none.mp (Option.map_eq_none_iff.mp h) x hx
          rw [decide_eq_true_eq, hspec.1, mem_range_nodes] at hfind
          rw [← hreached x]
          tauto }

/-- The check accepts a coherent tree. -/
theorem Coherent.violation? (hsize : source.utf8ByteSize < Span.limit) (hr : t.Contains Tree.root)
    (h : t.Coherent source primary) : t.violation? source primary = none := by
  obtain ⟨l, hl⟩ := h.exists_traversal hr
  have ht := h.leaves l hl
  have hreached (x : NodeId) : x ∈ l ↔ t.shape.Reached Tree.root x := by
    simp [hl.mem_iff_reached]
  have hcontains : ∀ x ∈ l, t.Contains x := fun x hx =>
    contains_of_reached hr h.parent ((hreached x).mp hx)
  have hspec := checkFrom_spec (p := ⟨_, 0, none⟩) hl (hl.nodup_iff_reachedOnce.mpr h.once)
    (fun x hx => checkChildren?_eq_none_iff.mpr (h.parent x ((hreached x).mp hx)))
    t.nodup_range_nodes (fun x hx => mem_range_nodes.mpr (hcontains x hx))
  rw [Tree.violation?, h.root, saturate_of_lt hsize]
  dsimp only
  split at hspec
  · next p hok =>
    have hoff : p.offset = source.utf8ByteSize := hspec.2.stop_unique ht
    have hfind := find?_primary_eq_none (fun x hx => ((hspec.1 x).mp hx).2) hcontains
      fun x hx => (hreached x).mpr (h.primary x hx)
    rw [hok]
    simp only [hoff, ne_eq, not_true_eq_false, if_false, hfind, Option.map_none]
  · exact absurd ht (hspec.2 _)

/-- A well-formed tree whose leaves tile the text is coherent. -/
theorem coherent_of_tiles (hw : t.shape.WellFormed) (hr : t.Contains Tree.root)
    (hroot : t.parent? Tree.root = none) (ht : Tiles 0 none t.yield source.utf8ByteSize)
    (hprimary : ∀ x ∈ primary, t.shape.Below x Tree.root) : t.Coherent source primary where
  root := hroot
  once := (traversal_descendants hw hr).nodup_iff_reachedOnce.mp (nodup_descendants hw hr)
  parent _ _ _ hc := hw.parent?_of_mem hc
  leaves _ hnodes := hnodes.unique (traversal_descendants hw hr) ▸ ht
  primary x hx := by
    have hmem := (mem_descendants_iff hw hr).mpr (hprimary x hx)
    simpa [(traversal_descendants hw hr).mem_iff_reached] using hmem

end ParseTree.Tree

namespace ParseTree.SyntaxTree

open ParseTree.Tree

/-- The check finds no defect if and only if the tree is coherent, whatever its nodes refer to and
as long as all offsets into the text have 32 bits. -/
theorem violation?_eq_none_iff_coherent (t : SyntaxTree) (hr : t.tree.Contains Tree.root)
    (hsize : t.source.utf8ByteSize < Span.limit) :
    t.violation? = none ↔ t.tree.Coherent t.source (t.primary.map (·.2)) :=
  ⟨coherent_of_violation? hsize, Coherent.violation? hsize hr⟩

/-- A tree whose root lists a node of its own twice. -/
def listedTwice : SyntaxTree where
  tree := ⟨#[
    ⟨none, .composite ⟨[⟨1⟩, ⟨1⟩], 0, [], 0⟩, [], none, none⟩,
    ⟨some root, .leaf ⟨0, ⟨3⟩, ⟨0, 1⟩, false, none⟩, [], none, none⟩]⟩
  source := "a"
  primary := []

/-- All links agree and the text is covered, but the node is reached twice. -/
theorem not_coherent_listedTwice :
    listedTwice.violation? = some (.duplicateNode ⟨1⟩) ∧
      ¬ listedTwice.tree.Coherent listedTwice.source (listedTwice.primary.map (·.2)) := by
  have hv : listedTwice.violation? = some (.duplicateNode ⟨1⟩) := by decide +kernel
  refine ⟨hv, fun h => ?_⟩
  have hr : listedTwice.tree.Contains Tree.root := by decide
  have hsize : listedTwice.source.utf8ByteSize < Span.limit := by decide
  exact absurd (hv.symm.trans ((violation?_eq_none_iff_coherent listedTwice hr hsize).mpr h))
    (by simp)

end ParseTree.SyntaxTree
