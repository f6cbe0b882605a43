import ParseTree.Proofs.Session.Binding
import ParseTree.Proofs.Session.Counterpart

/-!
# What can be observed of open composites

Of all that was built, operations only ask for the elements of open composites and for the text
below the innermost one. What becomes of composites that were closed does not show.

## Main definitions

* `TokenStream.wording`, `Tree.wording`: the texts of visible tokens, of those below a node
* `OpenAlike`: nodes of two trees, and those above them, cannot be told apart
* `Tree.Extends`: leaves were made below a node, and nothing above it changed

## Main results

* `OpenAlike.extend`: nodes remain alike if the same is added below them
* `Growth.extends`, `extends_newComposite`, `extends_wrapCurrent`, `extends_merge`: what operations
  do to open composites
-/

namespace ParseTree

open Session Relation

variable {σ γ : Type}

/-- The texts of visible tokens. -/
def TokenStream.wording (ts : TokenStream) (l : List Token) : List String :=
  (l.filter fun t => !t.isHidden).map ts.textOf

/-- The texts of the visible tokens below a node. -/
def Tree.wording (ts : TokenStream) (t : Tree) (x : NodeId) : List String :=
  ts.wording ((t.yieldBelow x).map Leaf.toToken)

/-- The nodes stand for each other and, as far as operations can tell, are the same. -/
structure NodeAlike (ts ts' : TokenStream) (R : NodeId → NodeId → Prop) (t u : Tree)
    (x y : NodeId) : Prop where
  /-- They stand for each other. -/
  related : R x y
  /-- They are bound to the same element. -/
  semantic : (t.node x).semantic = (u.node y).semantic
  /-- The visible tokens below them say the same. -/
  wording : t.wording ts x = u.wording ts' y

/-- The nodes are alike, and so are those above them. -/
inductive OpenAlike (ts ts' : TokenStream) (R : NodeId → NodeId → Prop) (t u : Tree) :
    NodeId → NodeId → Prop
  /-- Nothing is above. -/
  | root {x y : NodeId} (h : NodeAlike ts ts' R t u x y) (hx : t.parent? x = none)
    (hy : u.parent? y = none) : OpenAlike ts ts' R t u x y
  /-- Nodes above are alike. -/
  | child {x y p q : NodeId} (h : NodeAlike ts ts' R t u x y) (hx : t.parent? x = some p)
    (hy : u.parent? y = some q) (up : OpenAlike ts ts' R t u p q) : OpenAlike ts ts' R t u x y

/-- Visible tokens were added below a node. Otherwise the node and those above it are the same. -/
structure Tree.Extends (ts : TokenStream) (t t' : Tree) (x : NodeId) (words : List String) :
    Prop where
  /-- The links remain. -/
  parent? : ∀ y, t.shape.Below x y → t'.parent? y = t.parent? y
  /-- So do the bindings. -/
  semantic : ∀ y, t.shape.Below x y → (t'.node y).semantic = (t.node y).semantic
  /-- The tokens come last. -/
  wording : ∀ y, t.shape.Below x y → t'.wording ts y = t.wording ts y ++ words

section Wording

variable {env : Setting σ γ} {s : Session σ γ}

theorem TokenStream.wording_append (ts : TokenStream) (l l' : List Token) :
    ts.wording (l ++ l') = ts.wording l ++ ts.wording l' := by
  rw [wording, wording, wording, List.filter_append, List.map_append]

/-- The tokens between places of the same ranks say the same. -/
theorem TokenStream.Agrees.wording_slice {ts ts' : TokenStream} {i i' j j' : ℕ} (h : ts.Agrees ts')
    (hij : i ≤ j) (hij' : i' ≤ j') (hi : ts.rank i = ts'.rank i') (hj : ts.rank j = ts'.rank j') :
    ts.wording (ts.slice i j) = ts'.wording (ts'.slice i' j') := by
  have htext {l l' : List Token} (hl : List.Forall₂ (ts.Twins ts') l l') :
      l.map ts.textOf = l'.map ts'.textOf := by
    induction hl with
    | nil => rfl
    | cons ht _ ih => rw [List.map_cons, List.map_cons, (ht.wording h).2, ih]
  exact htext (h.twins_slice hij hij' hi hj)

theorem Tree.wording_of_yieldBelow {ts : TokenStream} {t t' : Tree} {x y : NodeId}
    (h : t'.yieldBelow y = t.yieldBelow x) : t'.wording ts y = t.wording ts x := by
  rw [wording, wording, h]

/-- The text of a datatype rule is what is said below the open composite. -/
theorem currentText_eq (env : Setting σ γ) (s : Session σ γ) :
    s.currentText env = String.join (s.tree.wording env.stream s.current) := by
  rw [currentText, Tree.wording, Tree.yieldBelow_eq, TokenStream.wording, Tree.leaves]
  refine congrArg String.join ?_
  induction s.tree.descendants s.current with
  | nil => rfl
  | cons x l ih =>
    cases hx : (s.tree.node x).leaf? with
    | none => simpa [Tree.isLeaf, hx] using ih
    | some leaf =>
      have htext : s.tree.text env.stream.text x = env.stream.textOf leaf.toToken := by
        rw [Tree.text, Tree.span_of_leaf? hx]
        rfl
      cases hv : leaf.isHidden <;>
        simpa [Tree.isLeaf, Tree.isHidden, hx, hv, Leaf.toToken, Token.isHidden, htext] using ih

end Wording

/-! ## Adding below open composites -/

section Extend

variable {ts ts' : TokenStream} {R R' : NodeId → NodeId → Prop} {t t' u u' : Tree} {x y : NodeId}
  {words : List String}

theorem OpenAlike.nodeAlike (h : OpenAlike ts ts' R t u x y) : NodeAlike ts ts' R t u x y := by
  cases h with
  | root h _ _ => exact h
  | child h _ _ _ => exact h

theorem Tree.Extends.up {p : NodeId} (h : t.Extends ts t' x words) (hp : t.parent? x = some p) :
    t.Extends ts t' p words where
  parent? y hy := h.parent? y (ReflTransGen.head hp hy)
  semantic y hy := h.semantic y (ReflTransGen.head hp hy)
  wording y hy := h.wording y (ReflTransGen.head hp hy)

theorem NodeAlike.extend (h : NodeAlike ts ts' R t u x y) (ht : t.Extends ts t' x words)
    (hu : u.Extends ts' u' y words) (hR : ∀ x y, R x y → R' x y) :
    NodeAlike ts ts' R' t' u' x y where
  related := hR x y h.related
  semantic := by
    rw [ht.semantic x ReflTransGen.refl, hu.semantic y ReflTransGen.refl, h.semantic]
  wording := by
    rw [ht.wording x ReflTransGen.refl, hu.wording y ReflTransGen.refl, h.wording]

/-- Nodes remain alike if the same is added below them. -/
theorem OpenAlike.extend (h : OpenAlike ts ts' R t u x y) (ht : t.Extends ts t' x words)
    (hu : u.Extends ts' u' y words) (hR : ∀ x y, R x y → R' x y) :
    OpenAlike ts ts' R' t' u' x y := by
  induction h with
  | root h hx hy =>
    refine .root (h.extend ht hu hR) ?_ ?_
    · rw [ht.parent? _ ReflTransGen.refl, hx]
    · rw [hu.parent? _ ReflTransGen.refl, hy]
  | child h hx hy _ ih =>
    refine .child (h.extend ht hu hR) ?_ ?_ (ih (ht.up hx) (hu.up hy))
    · rw [ht.parent? _ ReflTransGen.refl, hx]
    · rw [hu.parent? _ ReflTransGen.refl, hy]

/-- Nodes remain alike if an element is bound to nodes that stand for each other. -/
theorem OpenAlike.bind {a b : NodeId} {e : SemanticId} (h : OpenAlike ts ts' R t u x y)
    (hR : PreservesOrder R) (hc : ∀ x y, R x y → t.Contains x ∧ u.Contains y) (hab : R a b)
    (hwt : t.shape.WellFormed) (hwu : u.shape.WellFormed) (ht : t.bind? a e = some t')
    (hu : u.bind? b e = some u') : OpenAlike ts ts' R t' u' x y := by
  have hnt := Tree.sameNodes_bind? ht
  have hnu := Tree.sameNodes_bind? hu
  have hnode {x y : NodeId} (h : NodeAlike ts ts' R t u x y) : NodeAlike ts ts' R t' u' x y := by
    obtain ⟨hx, hy⟩ := hc x y h.related
    refine ⟨h.related, ?_, ?_⟩
    · rw [Tree.semantic_bind? ht (hc a b hab).1, Tree.semantic_bind? hu (hc a b hab).2, h.semantic]
      simp only [hR.eq_iff_eq h.related hab]
    · rw [Tree.wording_of_yieldBelow (hnt.yieldBelow hwt hx),
        Tree.wording_of_yieldBelow (hnu.yieldBelow hwu hy), h.wording]
  induction h with
  | root h hx hy => exact .root (hnode h) ((hnt.parent? _).trans hx) ((hnu.parent? _).trans hy)
  | child h hx hy _ ih =>
    exact .child (hnode h) ((hnt.parent? _).trans hx) ((hnu.parent? _).trans hy) ih

end Extend

/-! ## What operations do to open composites -/

section Session

variable {env : Setting σ γ} {s s' : Session σ γ} {d : ℕ} {p child : NodeId} {us : List Token}

/-- New leaves come last below every open composite. -/
theorem Growth.extends (hg : Growth env s us s') (hs : SameBindings s s') (hr : Rooted s d) :
    s.tree.Extends env.stream s'.tree s.current (env.stream.wording us) where
  parent? y hy := (hg.parent? hr.toLinked (hr.contains_of_below hy)).1
  semantic y _ := hs.semantic y
  wording y hy := by
    obtain ⟨n, hn⟩ := hr.spine_of_below hy
    rw [Tree.wording, hg.yieldBelow hr hn (hr.contains_of_below hy), TokenStream.wording_append,
      Tree.wording]

theorem extends_enterRule (hr : Rooted s d) :
    s.tree.Extends env.stream s.enterRule.tree s.current [] := by
  have hn := sameButLookahead_enterRule s
  refine ⟨fun y _ => hn.parent? y, fun y _ => hn.semantic y, fun y hy => ?_⟩
  rw [List.append_nil]
  exact Tree.wording_of_yieldBelow (hn.yieldBelow hr.wellFormed (hr.contains_of_below hy))

theorem parent?_newComposite (hl : Linked s) (element : ElementId) (x : NodeId) :
    (s.newComposite env element).tree.parent? x =
      if x = s.tree.nextId then some s.current else s.tree.parent? x := by
  rw [← Tree.parent?_shape]
  show (s.tree.addComposite ..).shape.parent? x = _
  rw [Tree.shape_addComposite hl.current, Shape.parent?_append, Tree.parent?_shape]

/-- A composite that is opened adds nothing to what is said below those above it. -/
theorem extends_newComposite (env : Setting σ γ) (hr : Rooted s d) (element : ElementId) :
    s.tree.Extends env.stream (s.newComposite env element).tree s.current [] := by
  refine ⟨fun y hy => ?_, fun y _ => Tree.semantic_addComposite y, fun y hy => ?_⟩
  · rw [parent?_newComposite hr.toLinked,
      if_neg (Tree.ne_nextId_of_contains (hr.contains_of_below hy))]
  · obtain ⟨n, hn⟩ := hr.spine_of_below hy
    rw [List.append_nil]
    exact Tree.wording_of_yieldBelow (Tree.yieldBelow_addComposite hr.wellFormed
      (hr.contains_of_below hy) hn hr.current ..)

/-- Nothing is said below a composite that was just opened. -/
theorem wording_newComposite (env : Setting σ γ) (hr : Rooted s d) (element : ElementId) :
    (s.newComposite env element).tree.wording env.stream s.tree.nextId = [] := by
  have hr' : Rooted (s.newComposite env element) (d + 1) := hr.newComposite element
  have hchildren : (s.newComposite env element).tree.children s.tree.nextId = [] := by
    rw [← Tree.children_shape]
    show (s.tree.addComposite ..).shape.children _ = _
    rw [Tree.shape_addComposite hr.current, Shape.children_append,
      if_neg (Tree.ne_nextId_of_contains hr.current.contains).symm, s.tree.isolated_nextId.children]
  have hleaf : ((s.newComposite env element).tree.node s.tree.nextId).leaf? = none :=
    hr'.current.leaf?
  have hwalk : (s.newComposite env element).tree.descendants s.tree.nextId = [s.tree.nextId] :=
    Tree.descendants_of_children_eq_nil hr'.wellFormed hr'.current.contains hchildren
  rw [Tree.wording, Tree.yieldBelow, hwalk, List.filterMap_cons, hleaf]
  rfl

theorem semantic_nextId (s : Session σ γ) : (s.tree.node s.tree.nextId).semantic = none := by
  rw [Tree.node_of_not_contains s.tree.not_contains_nextId]
  rfl

theorem parent?_wrapCurrent (hl : Linked s) (action : ElementId) (x : NodeId) :
    (s.wrapCurrent action).tree.parent? x = if x = s.tree.nextId then s.tree.parent? s.current
      else if x = s.current then some s.tree.nextId else s.tree.parent? x := by
  rw [← Tree.parent?_shape, shape_wrapCurrent hl, Shape.parent?_interpose, Tree.parent?_shape]

/-- A wrapper adds nothing to what is said below the composites above it. -/
theorem extends_wrapCurrent (stream : TokenStream) (hr : Rooted s d)
    (hp : s.tree.parent? s.current = some p) (action : ElementId) :
    s.tree.Extends stream (s.wrapCurrent action).tree p [] := by
  have hbelow (y : NodeId) (hy : s.tree.shape.Below p y) : s.tree.Contains y ∧ y ≠ s.current := by
    refine ⟨hr.contains_of_below (ReflTransGen.head hp hy), ?_⟩
    rintro rfl
    exact hr.wellFormed.not_below_of_parent? hp hy
  refine ⟨fun y hy => ?_, fun y _ => (sameBindings_wrapCurrent s action).semantic y,
    fun y hy => ?_⟩
  · rw [parent?_wrapCurrent hr.toLinked, if_neg (Tree.ne_nextId_of_contains (hbelow y hy).1),
      if_neg (hbelow y hy).2]
  · have hyield := yieldBelow_wrapCurrent hr (hbelow y hy).1 action
    rw [if_neg (hbelow y hy).2] at hyield
    rw [List.append_nil]
    exact Tree.wording_of_yieldBelow hyield

/-- What was said below the open composite is said below its wrapper. -/
theorem wording_wrapCurrent (ts : TokenStream) (hr : Rooted s d) (action : ElementId) :
    (s.wrapCurrent action).tree.wording ts s.tree.nextId = s.tree.wording ts s.current := by
  have hyield := yieldBelow_wrapCurrent hr hr.current.contains action
  rw [if_pos rfl] at hyield
  exact Tree.wording_of_yieldBelow hyield

/-- A merge does not show above the composite that is closed. -/
theorem extends_merge (hr : Rooted s d) (hm : s.tree.Mergeable s.current child)
    (hp : s.tree.parent? s.current = some p) :
    s.tree.Extends env.stream (s.merge child).tree p [] := by
  have hchild : s.tree.shape.parent? child = some s.current := hm.parent? hr.wellFormed
  have hnot (y : NodeId) (hy : s.tree.shape.Below p y) : ¬ s.tree.shape.Below y s.current :=
    fun h => hr.wellFormed.not_below_of_parent? hp (hy.trans h)
  have hcurrent (y : NodeId) (hy : s.tree.shape.Below p y) : y ≠ s.current := by
    rintro rfl
    exact hnot _ hy ReflTransGen.refl
  have hne (y : NodeId) (hy : s.tree.shape.Below p y) : y ≠ child := by
    rintro rfl
    exact hnot _ hy (Shape.below_of_parent? hchild)
  refine ⟨fun y hy => ?_, fun y hy => ?_, fun y hy => ?_⟩
  · have hgrand : y ∉ s.tree.shape.children child := by
      intro h
      have hy' := hr.wellFormed.parent?_of_mem h
      exact hnot y hy ((Shape.below_of_parent? hy').trans (Shape.below_of_parent? hchild))
    rw [← Tree.parent?_shape, shape_merge hr.toLinked hm, Shape.parent?_contract,
      if_neg (hne y hy), if_neg hgrand, Tree.parent?_shape]
  · rw [semantic_merge hr.toLinked hm, if_neg (hcurrent y hy), if_neg (hne y hy)]
  · rw [List.append_nil]
    exact Tree.wording_of_yieldBelow (yieldBelow_merge hr hm
      (hr.contains_of_below (ReflTransGen.head hp hy)) (hne y hy).symm)

end Session

end ParseTree
