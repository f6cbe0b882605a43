import ParseTree.Proofs.Tree.Checked
import ParseTree.Proofs.Tree.Last

/-!
# Trees with contracted chains

One tree is another one in which composites were merged with their only children, some of them one
after the other. So each of its nodes stands for a chain of nodes of the other tree, in which each
node has the next one as its only child.

## Main definitions

* `Chains`: a partition of the nodes into chains
* `Tree.Contracts`: a tree is another one with chains contracted

## Main results

* `Contracts.descendants`: document order goes through the chains
* `Contracts.leaves`, `Contracts.lastLeaf?`: the leaves are the same
-/

namespace ParseTree

/-- The nodes are divided into chains. A chain is named by its first node. -/
structure Chains where
  /-- The first node of the chain that a node belongs to. -/
  head : NodeId → NodeId
  /-- The nodes of the chain with a name. -/
  chain : NodeId → List NodeId
  /-- Every node belongs to its chain and no other. -/
  mem_chain_iff : ∀ c x, c ∈ chain x ↔ head c = x
  /-- The first node comes first. -/
  head?_chain : ∀ c, (chain (head c)).head? = some (head c)

namespace Chains

variable {h : Chains} {c x id child : NodeId}

theorem mem_chain_head (h : Chains) (c : NodeId) : c ∈ h.chain (h.head c) :=
  (h.mem_chain_iff c _).mpr rfl

@[simp] theorem head_head (h : Chains) (c : NodeId) : h.head (h.head c) = h.head c :=
  (h.mem_chain_iff _ _).mp (List.mem_of_mem_head? (h.head?_chain c))

theorem exists_chain_eq_cons (hx : h.head x = x) : ∃ l, h.chain x = x :: l := by
  have hhead := h.head?_chain x
  rw [hx] at hhead
  exact List.head?_eq_some_iff.mp hhead

theorem head_of_single (hx : h.chain x = [x]) : h.head x = x :=
  (h.mem_chain_iff x x).mp (by simp [hx])

/-- A node with a chain of its own belongs to no other. -/
theorem eq_of_mem_chain (hc : c ∈ h.chain x) (hs : h.chain c = [c]) : c = x :=
  (head_of_single hs).symm.trans ((h.mem_chain_iff c x).mp hc)

theorem mem_chain_of_single (hs : h.chain c = [c]) : c ∈ h.chain x ↔ x = c := by
  rw [h.mem_chain_iff, head_of_single hs, eq_comm]

/-- Every node has a chain of its own. -/
def single : Chains where
  head x := x
  chain x := [x]
  mem_chain_iff _ _ := List.mem_singleton
  head?_chain _ := rfl

/-- The chain of one node is continued by that of another. -/
def join (h : Chains) (id child : NodeId) (hid : h.head id = id) (hne : child ≠ id) : Chains where
  head x := if h.head x = child then id else h.head x
  chain x := if x = id then h.chain id ++ h.chain child else if x = child then [] else h.chain x
  mem_chain_iff c x := by
    by_cases hx : x = id
    · rw [if_pos hx, List.mem_append, h.mem_chain_iff, h.mem_chain_iff, hx]
      split_ifs with hh <;> simp [hh]
    · rw [if_neg hx]
      by_cases hxc : x = child
      · rw [if_pos hxc, hxc]
        split_ifs with hh <;> simp [hh, hne.symm]
      · rw [if_neg hxc, h.mem_chain_iff]
        split_ifs with hh <;> simp [hh, Ne.symm hx, Ne.symm hxc]
  head?_chain c := by
    have hhead := h.head?_chain
    by_cases hh : h.head c = child
    · have hid' := hhead id
      rw [hid] at hid'
      simp [hh, List.head?_append, hid']
    · by_cases hi : h.head c = id
      · have hid' := hhead c
        rw [hi] at hid'
        simp [hi, hne.symm, List.head?_append, hid']
      · simp [hh, hi, hhead c]

section Join

variable (h : Chains) (hid : h.head id = id) (hne : child ≠ id)

theorem head_join (x : NodeId) :
    (h.join id child hid hne).head x = if h.head x = child then id else h.head x := rfl

theorem chain_join (x : NodeId) : (h.join id child hid hne).chain x =
    if x = id then h.chain id ++ h.chain child else if x = child then [] else h.chain x := rfl

end Join

end Chains

namespace Node

/-- Two nodes that say the same, up to where they are and to the errors of composites. -/
structure Agrees (n m : Node) : Prop where
  /-- They stand for the same token. -/
  leaf? : n.leaf? = m.leaf?
  /-- Leaves carry the same error. -/
  error : n.leaf? ≠ none → n.error = m.error
  /-- They have the same children. -/
  children : n.children = m.children
  /-- They represent the same grammar elements. -/
  grammar : n.grammar = m.grammar
  /-- They are bound to the same element. -/
  semantic : n.semantic = m.semantic
  /-- They have the same lookahead leaves. -/
  lookahead : ∀ y, y ∈ n.lookaheadLeaves ↔ y ∈ m.lookaheadLeaves

theorem Agrees.refl (n : Node) : n.Agrees n :=
  ⟨rfl, fun _ => rfl, rfl, rfl, rfl, fun _ => Iff.rfl⟩

end Node

namespace Tree

/-- The tree is another one in which each chain is merged into its first node. -/
structure Contracts (h : Chains) (t u : Tree) : Prop where
  /-- There are as many nodes. -/
  size : t.size = u.size
  /-- They stand for the same tokens. -/
  leaf? : ∀ x, (t.node x).leaf? = (u.node x).leaf?
  /-- The leaves carry the same errors. -/
  error : ∀ x, (t.node x).leaf? ≠ none → (t.node x).error = (u.node x).error
  /-- What is no node has a chain of its own. -/
  outside : ∀ x, ¬ u.Contains x → h.chain x = [x]
  /-- In a chain each node has the next one, which is a composite, as its only child. -/
  links : ∀ x, (h.chain x).IsChain fun p c => u.children p = [c] ∧ (u.node c).leaf? = none
  /-- Above the first node of a chain is that of another one; the others have nothing above. -/
  parent? : ∀ x, t.parent? x = if h.head x = x then (u.parent? x).map h.head else none
  /-- Below a chain is what is below its last node. -/
  children : ∀ x, t.children x = (h.chain x).getLast?.elim [] u.children
  /-- The first node of a chain represents what the others did, outermost first. -/
  grammar : ∀ x, (t.node x).grammar = (h.chain x).flatMap fun c => (u.node c).grammar
  /-- It is bound to the element that any of them is bound to. -/
  semantic : ∀ x e, (t.node x).semantic = some e ↔ ∃ c ∈ h.chain x, (u.node c).semantic = some e
  /-- It has all their lookahead leaves. -/
  lookahead : ∀ x y, y ∈ t.lookaheadLeaves x ↔ ∃ c ∈ h.chain x, y ∈ u.lookaheadLeaves c

theorem contracts_refl (t : Tree) : Contracts .single t t where
  size := rfl
  leaf? _ := rfl
  error _ _ := rfl
  outside _ _ := rfl
  links _ := .singleton _
  parent? x := by simp [Chains.single]
  children _ := rfl
  grammar x := by simp [Chains.single]
  semantic x e := by simp [Chains.single]
  lookahead x y := by simp [Chains.single]

namespace Contracts

variable {h : Chains} {t u t' u' : Tree} {c p x y : NodeId} {l stack : List NodeId}

/-- In a chain all but the first node come after another one. -/
theorem exists_rel_of_isChain {R : NodeId → NodeId → Prop} (hl : (p :: l).IsChain R)
    (hx : x ∈ l) : ∃ q, R q x := by
  induction l generalizing p with
  | nil => cases hx
  | cons a l ih =>
    cases hl with
    | cons_cons hpa hl =>
      rcases List.mem_cons.mp hx with rfl | hx
      · exact ⟨p, hpa⟩
      · exact ih hl hx

/-- A traversal of a chain goes down to the children of its last node. -/
theorem traversal_chain {q : NodeId} (hl : (q :: l).IsChain fun p c => u.children p = [c] ∧
    (u.node c).leaf? = none) {m : List NodeId}
    (hm : u.shape.Traversal ((q :: l).getLast?.elim [] u.children ++ stack) m) :
    u.shape.Traversal (q :: stack) (q :: l ++ m) := by
  induction l generalizing q with
  | nil => exact .cons hm
  | cons c l ih =>
    cases hl with
    | cons_cons hlink hl =>
      refine .cons ?_
      rw [children_shape, hlink.1]
      exact ih hl hm

section

variable (hc : Contracts h t u)

include hc

/-- A node that is not the first of its chain is a composite. -/
theorem leaf?_of_head_ne (hx : h.head x ≠ x) :
    ∃ q, u.children q = [x] ∧ (u.node x).leaf? = none := by
  obtain ⟨l, hl⟩ := h.exists_chain_eq_cons (h.head_head x)
  have hmem := h.mem_chain_head x
  have hlinks := hc.links (h.head x)
  rw [hl] at hmem hlinks
  exact exists_rel_of_isChain hlinks ((List.mem_cons.mp hmem).resolve_left hx.symm)

/-- A leaf has a chain of its own. -/
theorem chain_of_leaf (hx : (u.node x).leaf? ≠ none) : h.chain x = [x] := by
  have hhead : h.head x = x := by
    by_contra hne
    obtain ⟨-, -, hleaf⟩ := hc.leaf?_of_head_ne hne
    exact hx hleaf
  obtain ⟨l, hl⟩ := h.exists_chain_eq_cons hhead
  have hlinks := hc.links x
  rw [hl] at hlinks
  cases hlinks with
  | singleton => exact hl
  | @cons_cons _ c _ hlink _ =>
    have hmem : c ∈ u.children x := by
      rw [hlink.1]
      exact List.mem_singleton_self c
    exact absurd (isComposite_of_mem_children hmem).leaf? hx

/-- A node with a chain of its own says the same in both trees. -/
theorem agrees (hx : h.chain x = [x]) : (t.node x).Agrees (u.node x) where
  leaf? := hc.leaf? x
  error := hc.error x
  children := by
    show t.children x = u.children x
    simp [hc.children, hx]
  grammar := by simp [hc.grammar, hx]
  semantic := by
    ext e
    simp [hc.semantic, hx]
  lookahead y := by
    show y ∈ t.lookaheadLeaves x ↔ y ∈ u.lookaheadLeaves x
    simp [hc.lookahead, hx]

theorem contains_iff (x : NodeId) : t.Contains x ↔ u.Contains x := by
  rw [Contains, Contains, hc.size]

/-- The tree has all nodes of a chain or none. -/
theorem contains_head_iff (x : NodeId) : t.Contains (h.head x) ↔ u.Contains x := by
  rw [hc.contains_iff]
  constructor
  · intro hx
    by_contra hn
    rw [Chains.head_of_single (hc.outside x hn)] at hx
    exact hn hx
  · intro hx
    by_contra hn
    have hmem := h.mem_chain_head x
    rw [hc.outside _ hn, List.mem_singleton] at hmem
    exact hn (hmem ▸ hx)

/-- A chain that has a composite consists of composites. -/
theorem isComposite_head_iff (hw : u.shape.WellFormed) (c : NodeId) :
    t.IsComposite (h.head c) ↔ u.IsComposite c := by
  by_cases hcc : h.head c = c
  · rw [hcc]
    exact ⟨fun ht => ⟨(hc.contains_iff c).mp ht.contains, (hc.leaf? c).symm.trans ht.leaf?⟩,
      fun hu => ⟨(hc.contains_iff c).mpr hu.contains, (hc.leaf? c).trans hu.leaf?⟩⟩
  · obtain ⟨q, hq, hleaf⟩ := hc.leaf?_of_head_ne hcc
    have hmem : c ∈ u.shape.children q := by
      rw [children_shape, hq]
      exact List.mem_singleton_self c
    refine iff_of_true ?_ ⟨contains_of_parent? (hw.parent?_of_mem hmem), hleaf⟩
    have hne : h.chain (h.head c) ≠ [h.head c] := by
      intro hs
      have hmem := h.mem_chain_head c
      rw [hs, List.mem_singleton] at hmem
      exact hcc hmem.symm
    have hcontains : u.Contains (h.head c) := by
      by_contra hn
      exact hne (hc.outside _ hn)
    refine ⟨(hc.contains_iff _).mpr hcontains, ?_⟩
    by_contra hl
    exact hne (hc.chain_of_leaf (hc.leaf? _ ▸ hl))

/-- Children are first nodes. -/
theorem head_of_mem_children (hw : t.shape.WellFormed) (hy : y ∈ t.children x) :
    h.head y = y := by
  have hp : t.parent? y = some x := hw.parent?_of_mem hy
  rw [hc.parent?] at hp
  by_contra hne
  rw [if_neg hne] at hp
  cases hp

/-! ### Document order -/

/-- Document order goes through the chains one after the other. -/
theorem traversal (hw : t.shape.WellFormed) (hs : ∀ x ∈ stack, h.head x = x)
    (hl : t.shape.Traversal stack l) : u.shape.Traversal stack (l.flatMap h.chain) := by
  induction hl with
  | nil => exact .nil
  | @cons x stack l hl ih =>
    obtain ⟨m, hm⟩ := h.exists_chain_eq_cons (hs x List.mem_cons_self)
    have hlinks := hc.links x
    rw [List.flatMap_cons, hm]
    rw [hm] at hlinks
    refine traversal_chain hlinks ?_
    rw [← hm, ← hc.children]
    refine ih fun y hy => ?_
    rcases List.mem_append.mp hy with hy | hy
    · exact hc.head_of_mem_children hw hy
    · exact hs y (List.mem_cons_of_mem _ hy)

section WellFormed

variable (ht : t.shape.WellFormed) (hu : u.shape.WellFormed) (hx : t.Contains x)
  (hhead : h.head x = x)

include ht hu hx hhead

omit hu in
/-- The nodes below a first node are first nodes. -/
theorem head_of_mem_descendants (hy : y ∈ t.descendants x) : h.head y = y := by
  rcases Relation.ReflTransGen.cases_head ((mem_descendants_iff ht hx).mp hy) with
    rfl | ⟨p, hp, -⟩
  · exact hhead
  · exact hc.head_of_mem_children ht (ht.mem_of_parent? hp)

/-- The nodes below a node are those of the chains below it. -/
theorem descendants : u.descendants x = (t.descendants x).flatMap h.chain := by
  refine descendants_eq hu ((hc.contains_iff x).mp hx) ?_
  exact hc.traversal ht (by simpa using hhead) (traversal_descendants ht hx)

/-- The leaves below a node are the same. -/
theorem leaves : t.leaves x = u.leaves x := by
  rw [Tree.leaves, Tree.leaves, hc.descendants ht hu hx hhead, List.filter_flatMap]
  have hheads : ∀ y ∈ t.descendants x, h.head y = y := by
    intro y hy
    exact hc.head_of_mem_descendants ht hx hhead hy
  generalize t.descendants x = l at hheads
  induction l with
  | nil => rfl
  | cons y l ih =>
    rw [List.flatMap_cons, ← ih fun z hz => hheads z (List.mem_cons_of_mem _ hz)]
    have hy := hheads y List.mem_cons_self
    by_cases hleaf : (u.node y).leaf? = none
    · have hnone : (h.chain y).filter u.isLeaf = [] := by
        refine List.filter_eq_nil_iff.mpr fun c hcy => ?_
        have hcu : (u.node c).leaf? = none := by
          by_contra hne
          rw [h.eq_of_mem_chain hcy (hc.chain_of_leaf hne)] at hne
          exact hne hleaf
        simp [isLeaf, hcu]
      rw [hnone, List.filter_cons_of_neg (by simp [isLeaf, hc.leaf?, hleaf]), List.nil_append]
    · have hsome := Option.isSome_iff_ne_none.mpr hleaf
      rw [hc.chain_of_leaf hleaf, List.filter_cons_of_pos (by simpa [isLeaf, hc.leaf?] using hsome),
        List.filter_cons_of_pos (by simpa [isLeaf] using hsome)]
      rfl

theorem lastLeaf? : t.lastLeaf? x = u.lastLeaf? x := by
  rw [lastLeaf?_eq ht hx, lastLeaf?_eq hu ((hc.contains_iff x).mp hx),
    hc.leaves ht hu hx hhead]

end WellFormed

end

end Contracts

end Tree

end ParseTree
