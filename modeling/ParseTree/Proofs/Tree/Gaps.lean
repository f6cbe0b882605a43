import ParseTree.Proofs.Tree.Yield

/-!
# Hidden leaves and the leaf after them

Hidden tokens lie in the gaps between visible ones. Their leaves stay with the leaf after them if
any two leaves that follow each other, the first of which is hidden, are neighbours below one node.

## Main definitions

* `Tree.Joined`: a hidden leaf is next to the leaf after it

## Main results

* `Joined.mono`: this depends on the neighbours among the leaves only
* `Joined.exists_children`: runs of hidden leaves are consecutive siblings, with the leaf after them
-/

namespace ParseTree.Tree

variable {t t' : Tree} {x y : NodeId} {l run : List NodeId}

/-- A hidden leaf and the leaf after it are neighbours below one node. -/
def Joined (t : Tree) : Prop :=
  ∀ x y, [x, y] <:+: t.leaves root → t.isHidden x → ∃ c, [x, y] <:+: t.children c

theorem isHidden_congr (h : (t'.node x).leaf? = (t.node x).leaf?) :
    t'.isHidden x = t.isHidden x :=
  congrArg (·.any (·.isHidden)) h

/-- Leaves that were neighbours before have to be so afterwards. -/
theorem Joined.mono (h : t.Joined) (hl : t'.leaves root = t.leaves root)
    (hleaf : ∀ x, (t'.node x).leaf? = (t.node x).leaf?)
    (hc : ∀ x y c, t.isLeaf x → t.isLeaf y → [x, y] <:+: t.children c →
      ∃ c', [x, y] <:+: t'.children c') : t'.Joined := by
  intro x y hxy hx
  rw [hl] at hxy
  rw [isHidden_congr (hleaf x)] at hx
  obtain ⟨c, hxyc⟩ := h x y hxy hx
  have hmem (z : NodeId) (hz : z ∈ [x, y]) : t.isLeaf z :=
    (List.mem_filter.mp (hxy.subset hz)).2
  exact hc x y c (hmem x (by simp)) (hmem y (by simp)) hxyc

/-- In a list without repetitions, a pair and the rest that starts with its second element are one
piece. -/
theorem infix_of_pair (hl : l.Nodup) (hxy : [x, y] <:+: l) (hrun : y :: run <:+: l) :
    x :: y :: run <:+: l := by
  obtain ⟨a, b, hab⟩ := hxy
  obtain ⟨a', b', hab'⟩ := hrun
  have hsplit : (a ++ [x]) ++ y :: b = a' ++ y :: (run ++ b') := by
    simpa using hab.trans hab'.symm
  have hy : y ∉ a' ++ (run ++ b') := by
    rw [← hab', List.append_assoc] at hl
    exact (List.nodup_cons.mp (List.nodup_middle.mp hl)).1
  rw [List.mem_append, not_or] at hy
  obtain ⟨rfl, -, -⟩ := (List.append_cons_inj_of_notMem hy.1 hy.2).mp hsplit.symm
  exact ⟨a, b', by simpa using hab'⟩

/-- Leaves that follow each other and are hidden but for the last one are consecutive siblings. -/
theorem Joined.exists_children (h : t.Joined) (hw : t.shape.WellFormed)
    (hroot : t.IsComposite root) (hrun : run <:+: t.leaves root) (hne : run ≠ [])
    (hhidden : ∀ x ∈ run.dropLast, t.isHidden x) :
    ∃ c ∈ t.descendants root, run <:+: t.children c := by
  induction run with
  | nil => exact absurd rfl hne
  | cons x run ih =>
    cases run with
    | nil =>
      obtain ⟨hx, hleaf⟩ := List.mem_filter.mp (hrun.subset (List.mem_singleton_self x))
      have hbelow := (mem_descendants_iff hw hroot.contains).mp hx
      rcases Relation.ReflTransGen.cases_head hbelow with rfl | ⟨p, hp, hroot'⟩
      · rw [isLeaf, hroot.leaf?] at hleaf
        cases hleaf
      · exact ⟨p, (mem_descendants_iff hw hroot.contains).mpr hroot',
          (List.singleton_infix_iff ..).mpr (hw.mem_of_parent? hp)⟩
    | cons y run =>
      rw [List.dropLast_cons_cons] at hhidden
      obtain ⟨c, hc, hchildren⟩ := ih ((List.suffix_cons x _).isInfix.trans hrun)
        (List.cons_ne_nil y run) fun z hz => hhidden z (List.mem_cons_of_mem x hz)
      obtain ⟨c', hpair⟩ := h x y ((List.prefix_append [x, y] run).isInfix.trans hrun)
        (hhidden x List.mem_cons_self)
      have hy := hw.parent?_of_mem (hchildren.subset List.mem_cons_self)
      have hy' := hw.parent?_of_mem (hpair.subset (List.mem_cons_of_mem x List.mem_cons_self))
      obtain rfl := Option.some.inj (hy.symm.trans hy')
      exact ⟨c, hc, infix_of_pair (hw.nodup c) hpair hchildren⟩

end ParseTree.Tree
