import ParseTree.Proofs.Text.Cut
import ParseTree.Proofs.Tree.Yield
import ParseTree.Tree.Check

/-!
# What the check of a tree finds

In a well-formed tree the walk of the check is the traversal of the tree. It never meets a broken
link or a node twice, so only leaves can stop it, and they do so exactly when they do not follow
each other.

## Main definitions

* `Tiles`: leaves that follow each other, in the order of their tokens
* `Violation.IsOfLeaf`: a defect of the leaves
* `Tree.checkLeaves`: the leaves are checked one after the other

## Main results

* `Tiles.join_slice`, `Tiles.legible_of_join`: leaves that tile a text make up the text if they are
  legible, and only then if they are in order
* `checkFrom_spec`: the outcome of a walk whose links agree
* `violation?_cases`: the defects that a well-formed tree can have
* `violation?_eq`: the leaves and what is above the root decide on the defect
-/

namespace ParseTree

/-- The leaves start at an offset and after a token, follow each other, and stop at another
offset. -/
inductive Tiles : ℕ → Option ℕ → List Leaf → ℕ → Prop where
  /-- Without leaves nothing is covered. -/
  | nil {offset : ℕ} {previous : Option ℕ} : Tiles offset previous [] offset
  /-- A leaf starts at the offset, and the others where it ends. -/
  | cons {offset stop : ℕ} {previous : Option ℕ} {leaf : Leaf} {leaves : List Leaf}
    (start : leaf.span.start = offset) (order : ∀ q ∈ previous, q < leaf.token)
    (rest : Tiles leaf.span.stop (some leaf.token) leaves stop) :
    Tiles offset previous (leaf :: leaves) stop

theorem Tiles.stop_unique {offset stop stop' : ℕ} {previous : Option ℕ} {leaves : List Leaf}
    (h : Tiles offset previous leaves stop) (h' : Tiles offset previous leaves stop') :
    stop = stop' := by
  induction h with
  | nil => cases h'; rfl
  | cons _ _ _ ih =>
    cases h' with
    | cons _ _ rest => exact ih rest

/-- The leaves that follow a cut of the text go on with what comes next. -/
theorem Tiles.exists_split {text : String} {offset stop : ℕ} {previous : Option ℕ}
    {leaves : List Leaf} {l r : List Char} (h : Tiles offset previous leaves stop)
    (hs : ∀ leaf ∈ leaves, leaf.span.Legible text)
    (hsplit : Text.splitBytes? text.toList offset = some (l, r)) :
    ∃ r', Text.splitBytes? text.toList stop =
      some (l ++ leaves.flatMap fun leaf => ((leaf.span.slice? text).getD "").toList, r') := by
  induction h generalizing l r with
  | nil => exact ⟨r, by rw [hsplit, List.flatMap_nil, List.append_nil]⟩
  | @cons offset stop previous leaf leaves start _ _ ih =>
    obtain ⟨hleaf, hs⟩ := List.forall_mem_cons.mp hs
    rw [← start] at hsplit
    obtain ⟨r₁, hr₁⟩ := hleaf.exists_split hsplit
    obtain ⟨r₂, hr₂⟩ := ih hs hr₁
    exact ⟨r₂, by rw [hr₂, List.flatMap_cons, List.append_assoc]⟩

/-- Legible leaves that tile a text make up the text. -/
theorem Tiles.join_slice {text : String} {previous : Option ℕ} {leaves : List Leaf}
    (h : Tiles 0 previous leaves text.utf8ByteSize)
    (hs : ∀ leaf ∈ leaves, leaf.span.Legible text) :
    String.join (leaves.map fun leaf => (leaf.span.slice? text).getD "") = text := by
  obtain ⟨r, hr⟩ := h.exists_split hs (Text.splitBytes?_zero _)
  obtain ⟨happend, hlength⟩ := Text.splitBytes?_eq_some_iff.mp hr
  have hrest : r = [] := by
    have hbytes := congrArg Text.byteLength happend
    rw [Text.byteLength_append, hlength, Text.byteLength_toList] at hbytes
    exact Text.eq_nil_of_byteLength_eq_zero (Nat.add_eq_left.mp hbytes)
  rw [hrest, List.append_nil, List.nil_append] at happend
  apply String.toList_inj.mp
  rw [String.toList_join, List.flatMap_map]
  exact happend

/-- Leaves in order have no more text than they cover. If they have as much, all are legible. -/
theorem Tiles.add_sum_le {text : String} {offset stop : ℕ} {previous : Option ℕ}
    {leaves : List Leaf} (h : Tiles offset previous leaves stop)
    (hm : ∀ leaf ∈ leaves, leaf.span.start ≤ leaf.span.stop) :
    let size := (leaves.map fun leaf => ((leaf.span.slice? text).getD "").utf8ByteSize).sum
    offset + size ≤ stop ∧ (offset + size = stop → ∀ leaf ∈ leaves, leaf.span.Legible text) := by
  induction h with
  | nil => exact ⟨Nat.le_refl _, fun _ _ hleaf => absurd hleaf List.not_mem_nil⟩
  | @cons offset stop previous leaf leaves start _ _ ih =>
    obtain ⟨hleaf, hm⟩ := List.forall_mem_cons.mp hm
    obtain ⟨hle, hall⟩ := ih hm
    have hsize := leaf.span.utf8ByteSize_slice?_le text
    have hlength : leaf.span.start + leaf.span.length = leaf.span.stop :=
      Nat.add_sub_cancel' hleaf
    rw [List.map_cons, List.sum_cons]
    refine ⟨by omega, fun heq => List.forall_mem_cons.mpr ⟨?_, hall (by omega)⟩⟩
    exact Span.legible_of_length_le hleaf (by omega)

/-- Leaves in order that follow each other within a text make it up only if they tile it and all of
them are legible. -/
theorem Tiles.legible_of_join {text : String} {previous : Option ℕ} {leaves : List Leaf} {stop : ℕ}
    (h : Tiles 0 previous leaves stop) (hstop : stop ≤ text.utf8ByteSize)
    (hm : ∀ leaf ∈ leaves, leaf.span.start ≤ leaf.span.stop)
    (hjoin : String.join (leaves.map fun leaf => (leaf.span.slice? text).getD "") = text) :
    stop = text.utf8ByteSize ∧ ∀ leaf ∈ leaves, leaf.span.Legible text := by
  obtain ⟨hle, hall⟩ := @Tiles.add_sum_le text 0 stop previous leaves h hm
  have hsize : (leaves.map fun leaf => ((leaf.span.slice? text).getD "").utf8ByteSize).sum =
      text.utf8ByteSize := by
    conv_rhs => rw [← hjoin]
    rw [Text.utf8ByteSize_join, List.map_map]
    rfl
  rw [hsize, Nat.zero_add] at hle hall
  exact ⟨Nat.le_antisymm hstop hle, hall (Nat.le_antisymm hle hstop)⟩

/-- A leaf does not follow the leaf before it. -/
def Violation.IsOfLeaf : Violation → Prop
  | gap .. | tokenOrder .. => True
  | _ => False

namespace Tree

variable {t : Tree} {id x : NodeId} {l stack : List NodeId} {p : Progress} {v : Violation}

theorem checkLeaf?_eq_none_iff (p : Progress) (id : NodeId) (leaf : Leaf) :
    checkLeaf? p id leaf = none ↔
      leaf.span.start = p.offset ∧ ∀ q ∈ p.previous, q < leaf.token := by
  rw [checkLeaf?]
  split_ifs with hs
  · simp [hs]
  · cases hp : p.previous <;> simp [not_not.mp hs]

theorem isOfLeaf_of_checkLeaf? {leaf : Leaf} (h : checkLeaf? p id leaf = some v) :
    v.IsOfLeaf := by
  rw [checkLeaf?] at h
  split_ifs at h
  · obtain rfl := Option.some.inj h
    trivial
  · cases hp : p.previous with
    | none => simp [hp] at h
    | some q =>
      simp only [hp] at h
      split_ifs at h
      obtain rfl := Option.some.inj h
      trivial

theorem checkChildren?_eq_none_iff :
    t.checkChildren? id = none ↔ ∀ c ∈ t.children id, t.parent? c = some id := by
  rw [checkChildren?, Option.map_eq_none_iff, List.find?_eq_none]
  simp

theorem checkChildren?_eq_none (hw : t.shape.WellFormed) (id : NodeId) :
    t.checkChildren? id = none :=
  checkChildren?_eq_none_iff.mpr fun _ hc => hw.parent?_of_mem hc

theorem unvisited_visit (p : Progress) (id : NodeId) (leaf? : Option Leaf) :
    (p.visit id leaf?).unvisited = p.unvisited.erase id := by
  cases leaf? <;> rfl

/-- A walk visits what the traversal lists, if it meets no node twice and no child that names
another parent, unless the leaves do not follow each other. -/
theorem checkFrom_spec (h : t.shape.Traversal stack l) (hl : l.Nodup)
    (hc : ∀ x ∈ l, t.checkChildren? x = none) (hp : p.unvisited.Nodup)
    (hu : ∀ x ∈ l, x ∈ p.unvisited) :
    match t.checkFrom p stack with
    | .ok p' => (∀ x, x ∈ p'.unvisited ↔ x ∈ p.unvisited ∧ x ∉ l) ∧
        Tiles p.offset p.previous (l.filterMap fun x => (t.node x).leaf?) p'.offset
    | .error v => v.IsOfLeaf ∧
        ∀ stop, ¬ Tiles p.offset p.previous (l.filterMap fun x => (t.node x).leaf?) stop := by
  -- Along the traversal: a node is still unvisited when its turn comes, as none comes twice.
  induction h generalizing p with
  | nil =>
    rw [checkFrom]
    exact ⟨by simp, .nil⟩
  | @cons id stack l _ ih =>
    obtain ⟨hid, hl⟩ := List.nodup_cons.mp hl
    obtain ⟨hcid, hc⟩ := List.forall_mem_cons.mp hc
    have hrest : ∀ x ∈ l, x ∈ p.unvisited.erase id := by
      intro x hx
      have hne : x ≠ id := fun h => hid (h ▸ hx)
      exact (List.mem_erase_of_ne hne).mpr (hu x (List.mem_cons_of_mem _ hx))
    have ih := ih (p := p.visit id (t.node id).leaf?) hl hc
      (by rw [unvisited_visit]; exact hp.erase id) (by rwa [unvisited_visit])
    have hmem (x : NodeId) : (x ∈ p.unvisited.erase id ∧ x ∉ l) ↔
        x ∈ p.unvisited ∧ x ∉ id :: l := by
      rw [hp.mem_erase_iff, List.mem_cons, not_or]
      tauto
    rw [checkFrom, if_pos (hu id List.mem_cons_self), hcid]
    cases hleaf : (t.node id).leaf? with
    | none =>
      rw [hleaf] at ih
      simp only [Option.bind_none, List.filterMap_cons, hleaf, ← children_shape]
      simp only [← hmem]
      exact ih
    | some leaf =>
      rw [hleaf] at ih
      simp only [Option.bind_some, List.filterMap_cons, hleaf]
      cases hc : checkLeaf? p id leaf with
      | some v =>
        refine ⟨isOfLeaf_of_checkLeaf? hc, ?_⟩
        intro stop ht
        cases ht with
        | cons start order _ =>
          have := (checkLeaf?_eq_none_iff p id leaf).mpr ⟨start, order⟩
          exact absurd (hc.symm.trans this) (by simp)
      | none =>
        obtain ⟨start, order⟩ := (checkLeaf?_eq_none_iff p id leaf).mp hc
        simp only [← children_shape]
        split at ih
        · simp only [← hmem]
          exact ⟨ih.1, .cons start order ih.2⟩
        · refine ⟨ih.1, ?_⟩
          intro stop ht
          cases ht with
          | cons _ _ rest => exact ih.2 stop rest

/-- The leaves after an offset and a token are checked one after the other. -/
def checkLeaves (offset : ℕ) (previous : Option ℕ) : List (NodeId × Leaf) → Except Violation ℕ
  | [] => .ok offset
  | (id, leaf) :: leaves =>
    match checkLeaf? ⟨[], offset, previous⟩ id leaf with
    | some v => .error v
    | none => checkLeaves leaf.span.stop (some leaf.token) leaves

/-- The leaves below a node with what they say, in document order. -/
def leavesWith (t : Tree) (id : NodeId) : List (NodeId × Leaf) :=
  (t.descendants id).filterMap fun x => (t.node x).leaf?.map (x, ·)

theorem leavesWith_eq (t : Tree) (id : NodeId) :
    t.leavesWith id = (t.leaves id).filterMap fun x => (t.node x).leaf?.map (x, ·) := by
  rw [leavesWith, leaves, List.filterMap_filter]
  refine List.filterMap_congr fun x _ => ?_
  rw [isLeaf]
  cases (t.node x).leaf? <;> rfl

/-- A walk over a well-formed tree checks the leaves and nothing else. -/
theorem checkFrom_leaves (hw : t.shape.WellFormed) (h : t.shape.Traversal stack l) (hl : l.Nodup)
    (hp : p.unvisited.Nodup) (hu : ∀ x ∈ l, x ∈ p.unvisited) :
    (t.checkFrom p stack).map (·.offset) = checkLeaves p.offset p.previous
      (l.filterMap fun x => (t.node x).leaf?.map (x, ·)) := by
  induction h generalizing p with
  | nil =>
    rw [checkFrom]
    rfl
  | @cons id stack l _ ih =>
    obtain ⟨hid, hl⟩ := List.nodup_cons.mp hl
    have hrest : ∀ x ∈ l, x ∈ p.unvisited.erase id := by
      intro x hx
      have hne : x ≠ id := fun h => hid (h ▸ hx)
      exact (List.mem_erase_of_ne hne).mpr (hu x (List.mem_cons_of_mem _ hx))
    have ih := ih (p := p.visit id (t.node id).leaf?) hl
      (by rw [unvisited_visit]; exact hp.erase id) (by rwa [unvisited_visit])
    rw [checkFrom, if_pos (hu id List.mem_cons_self), checkChildren?_eq_none hw]
    cases hleaf : (t.node id).leaf? with
    | none =>
      rw [hleaf] at ih
      simp only [Option.bind_none, List.filterMap_cons, hleaf, Option.map_none, ← children_shape]
      exact ih
    | some leaf =>
      rw [hleaf] at ih
      simp only [Option.bind_some, List.filterMap_cons, hleaf, Option.map_some, checkLeaves]
      have hcheck : checkLeaf? p id leaf = checkLeaf? ⟨[], p.offset, p.previous⟩ id leaf := rfl
      rw [← hcheck]
      cases checkLeaf? p id leaf with
      | some v => rfl
      | none =>
        simp only [← children_shape]
        exact ih

/-- No node was visited yet. -/
theorem mem_range_nodes : x ∈ (List.range t.size).map NodeId.mk ↔ t.Contains x := by
  rw [List.mem_map]
  constructor
  · rintro ⟨i, hi, rfl⟩
    exact List.mem_range.mp hi
  · intro h
    exact ⟨x.index, List.mem_range.mpr h, rfl⟩

theorem nodup_range_nodes (t : Tree) : ((List.range t.size).map NodeId.mk).Nodup :=
  List.nodup_range.map fun a b h => (NodeId.mk.injEq a b).mp h

/-- No primary node is missing where all of them were met. -/
theorem find?_primary_eq_none {p : Progress} {primary : List NodeId} {met : NodeId → Prop}
    (hu : ∀ x ∈ p.unvisited, ¬ met x) (hc : ∀ x, met x → t.Contains x)
    (hp : ∀ x ∈ primary, met x) :
    primary.find? (fun x => x ∈ p.unvisited ∨ ¬ t.Contains x) = none := by
  refine List.find?_eq_none.mpr fun x hx => ?_
  rw [decide_eq_true_eq]
  exact not_or.mpr ⟨fun h => hu x h (hp x hx), not_not.mpr (hc x (hp x hx))⟩

section WellFormed

variable (hw : t.shape.WellFormed) (hr : t.Contains root)

include hw hr

/-- The walk from the root checks the leaves below it. -/
theorem checkFrom_root_leaves :
    (t.checkFrom ⟨(List.range t.size).map NodeId.mk, 0, none⟩ [root]).map (·.offset) =
      checkLeaves 0 none (t.leavesWith root) := by
  refine checkFrom_leaves (p := ⟨_, 0, none⟩) hw (traversal_descendants hw hr)
    (nodup_descendants hw hr) t.nodup_range_nodes ?_
  intro x hx
  exact mem_range_nodes.mpr (contains_of_below hr ((mem_descendants_iff hw hr).mp hx))

/-- The outcome of the walk from the root. -/
theorem checkFrom_root :
    match t.checkFrom ⟨(List.range t.size).map NodeId.mk, 0, none⟩ [root] with
    | .ok p => (∀ x, x ∈ p.unvisited ↔ t.Contains x ∧ ¬ t.shape.Below x root) ∧
        Tiles 0 none t.yield p.offset
    | .error v => v.IsOfLeaf ∧ ∀ stop, ¬ Tiles 0 none t.yield stop := by
  have hu : ∀ x ∈ t.descendants root, x ∈ (List.range t.size).map NodeId.mk := by
    intro x hx
    exact mem_range_nodes.mpr (contains_of_below hr ((mem_descendants_iff hw hr).mp hx))
  have h := checkFrom_spec (p := ⟨_, 0, none⟩) (traversal_descendants hw hr)
    (nodup_descendants hw hr) (fun x _ => checkChildren?_eq_none hw x)
    t.nodup_range_nodes hu
  simp only [mem_range_nodes, mem_descendants_iff hw hr] at h
  exact h

/-- The defects that a well-formed tree can have. -/
theorem violation?_cases {source : String} {primary : List NodeId}
    (h : t.violation? source primary = some v) :
    (∃ parent, t.parent? root = some parent ∧ v = .rootHasParent parent) ∨
      v.IsOfLeaf ∨
      (∃ covered length, v = .incompleteCoverage covered length) ∨
      (∃ x ∈ primary, t.parent? root = none ∧ Tiles 0 none t.yield (saturate source.utf8ByteSize) ∧
        ¬ t.shape.Below x root ∧ v = .detachedSemanticNode x) := by
  rw [violation?] at h
  cases hp : t.parent? root with
  | some parent =>
    rw [hp] at h
    exact Or.inl ⟨parent, rfl, (Option.some.inj h).symm⟩
  | none =>
    rw [hp] at h
    have hc := checkFrom_root hw hr
    split at h
    next h' => exact absurd h' (by simp)
    split at h
    · next w hw' =>
      rw [hw'] at hc
      obtain rfl := Option.some.inj h
      exact Or.inr (Or.inl hc.1)
    · next p hok =>
      rw [hok] at hc
      split_ifs at h with hoff
      · exact Or.inr (Or.inr (Or.inl ⟨_, _, (Option.some.inj h).symm⟩))
      · obtain ⟨x, hx, rfl⟩ := Option.map_eq_some_iff.mp h
        have hb : ¬ t.shape.Below x root := by
          have hx : x ∈ p.unvisited ∨ ¬ t.Contains x := by simpa using List.find?_some hx
          rw [hc.1] at hx
          exact hx.elim And.right fun hx hb => hx (contains_of_below hr hb)
        exact Or.inr (Or.inr (Or.inr ⟨x, List.mem_of_find?_eq_some hx, rfl,
          not_not.mp hoff ▸ hc.2, hb, rfl⟩))

/-- What is above the root and then the leaves decide on the defect, if every element has its node
below the root. -/
theorem violation?_eq {source : String} {primary : List NodeId}
    (hprimary : t.parent? root = none → ∀ x ∈ primary, t.shape.Below x root) :
    t.violation? source primary = match t.parent? root with
      | some parent => some (.rootHasParent parent)
      | none =>
        match checkLeaves 0 none (t.leavesWith root) with
        | .error v => some v
        | .ok covered =>
          if covered ≠ saturate source.utf8ByteSize then
            some (.incompleteCoverage covered (saturate source.utf8ByteSize))
          else none := by
  rw [violation?]
  cases hp : t.parent? root with
  | some parent => rfl
  | none =>
    have hc := checkFrom_root hw hr
    have hleaves := checkFrom_root_leaves hw hr
    dsimp only
    rw [← hleaves]
    cases hrun : t.checkFrom ⟨(List.range t.size).map NodeId.mk, 0, none⟩ [root] with
    | error v => rfl
    | ok p =>
      rw [hrun] at hc
      have hfind := find?_primary_eq_none (fun x hx => ((hc.1 x).mp hx).2)
        (fun x hb => contains_of_below hr hb) (hprimary hp)
      simp only [hfind, Option.map_none]
      rfl

end WellFormed

end Tree

end ParseTree
