import ParseTree.Proofs.Session.Coverage
import ParseTree.Proofs.Session.Move

/-!
# Messages and the nodes they go to

A message about the syntax is put into the slot of the session, comes from the lexer or from the
factory. Which node it goes to follows from the sessions around an operation: the first visible leaf
that is made takes what the slot holds, a leaf without a valid token what the lexer says, and the
last operation of a parse sweeps out the slot.

## Main definitions

* `SyntaxError.join`: one error for messages in a row
* `Transition.posted?`: the error whose message an operation puts into the slot
* `Transition.refusal?`: the refusal of a value that becomes a message
* `Delivery`, `Transition.deliveries`: a message and its node, those of an operation
* `Factory.NamesAbove`: refusals name nodes on the way up from the value at most

## Main results

* `join_concat`: one more message is merged into the error
* `slot_leavesDeliveries`, `lexer_leavesDeliveries`: what new leaves take from the slot and from the
  lexer
-/

namespace ParseTree

open Session

variable {σ γ : Type}

namespace SyntaxError

/-- One error for messages in a row, with the first code among them. -/
def join : List SyntaxError → Option SyntaxError
  | [] => none
  | es => some ⟨"; ".intercalate (es.map (·.message)), es.findSome? (·.code)⟩

theorem join_concat (es : List SyntaxError) (e : SyntaxError) :
    join (es ++ [e]) = mergeInto (join es) e := by
  cases es with
  | nil => simp [join, mergeInto]
  | cons f es =>
    have hm := String.intercalate_append_of_ne_nil (s := "; ") (l := (f :: es).map (·.message))
      (m := [e.message]) (by simp) (by simp)
    have hc : (f :: es ++ [e]).findSome? (·.code) = ((f :: es).findSome? (·.code)).or e.code := by
      rw [List.findSome?_append]
      simp
    show some _ = some (merge _ e)
    rw [merge, hc, List.map_append, List.map_singleton, hm, String.intercalate_singleton]

/-- Messages that follow others are merged into the error one after the other. -/
theorem foldl_mergeInto_join (es fs : List SyntaxError) :
    fs.foldl mergeInto (join es) = join (es ++ fs) := by
  induction fs generalizing es with
  | nil => rw [List.append_nil]; rfl
  | cons f fs ih => rw [List.foldl_cons, ← join_concat, ih, List.append_assoc]; rfl

theorem join_eq_none {es : List SyntaxError} : join es = none ↔ es = [] := by
  cases es <;> simp [join]

end SyntaxError

/-! ## What is put into the slot -/

/-- The error that a match repairs by passing over a token or making one up. -/
def Session.matchError? (env : Setting σ γ) (s : Session σ γ) (expected : TokenKind)
    (follow : TokenSet) : Option RecognitionError :=
  match s.matchRepair? env expected follow with
  | some .deletion => some ⟨.unwanted expected, s.currentToken env, s.cursor.position⟩
  | some .insertion =>
    some ⟨.missing expected (.placeholder expected (s.currentToken env).span.start),
      s.currentToken env, s.cursor.position⟩
  | _ => none

/-- The error that an operation reports, if it reports one that counts. -/
def Operation.reported? (env : Setting σ γ) (s : Session σ γ) :
    (op : Operation) → op.Answer → Option RecognitionError
  | .command (.recover e), _ | .catchError (.recognition e), _ => some e
  | .command (.report e), _ | .groupFailure _ _, e => if s.isRecovering then none else some e
  | .matchToken expected follow, _ =>
    if s.isRecovering then none else s.matchError? env expected follow
  | _, _ => none

/-- The error whose message an operation puts into the slot, unless another waits there. -/
def Transition.posted? (env : Setting σ γ) (tr : Transition σ γ) : Option RecognitionError :=
  if tr.before.pending.isSome then none else tr.op.reported? env tr.before tr.answer

/-- The message that an operation puts into the slot. -/
def Transition.message? (env : Setting σ γ) (tr : Transition σ γ) : Option SyntaxError :=
  (tr.posted? env).map (tr.before.syntaxError env)

/-! ## What a factory refuses -/

/-- The answer of the factory to a value that was read from a node. -/
def Session.offer (env : Setting σ γ) (s : Session σ γ) (mode : AssignMode) (a : Assignment)
    (node : NodeId) : Except ConversionError Unit × σ :=
  match mode with
  | .set => env.factory.set a (s.view env node) s.factory
  | .add => env.factory.add a (s.view env node) s.factory

/-- The refusal of a value, unless it ends the parse. -/
def Session.refusal? (env : Setting σ γ) (s : Session σ γ) (mode : AssignMode) (a : Assignment)
    (node : NodeId) : Option ConversionError :=
  match (s.offer env mode a node).1 with
  | .ok () => none
  | .error e => if e.isInternal then none else some e

/-- The refusal of the value of an assigned action. -/
def Session.assignedRefusal? (env : Setting σ γ) (s : Session σ γ) (element : SemanticId)
    (assigned : Option (String × AssignOp)) (value : Option SemanticId) : Option ConversionError :=
  match assigned, value with
  | some (feature, operator), some value =>
    s.refusal? env operator.mode ⟨element, feature, .element value, none⟩ s.current
  | _, _ => none

/-- The refusal of the value that an action takes up in its element. -/
def Session.actionRefusal? (env : Setting σ γ) (s : Session σ γ) (action : ElementId)
    (value : Option SemanticId) : Option ConversionError :=
  match (env.grammar.visit action).toOption.map Entry.element with
  | some (.action classifier assigned) =>
    match s.make env classifier with
    | (.ok element, s) => s.assignedRefusal? env element assigned value
    | (.error _, _) => none
  | _ => none

/-- The refusal of a value that an operation comes to, unless it ends the parse. -/
def Operation.refused? (env : Setting σ γ) (s : Session σ γ) :
    Operation → Option ConversionError
  | .assign source mode a => s.refusal? env mode a (s.sourceNode source)
  | .createWrapper action value => s.actionRefusal? env action value
  | _ => none

/-- The node that a refusal names is the one that the value was read from or one above it. -/
def Factory.NamesAbove (f : Factory σ) : Prop :=
  ∀ a v state e, ((f.set a v state).1 = .error e ∨ (f.add a v state).1 = .error e) →
    ∀ x, e.node = some x → v.tree.shape.Below v.id x

/-! ## Deliveries -/

/-- How a message came to its node. -/
inductive Origin where
  /-- It waited in the slot until the leaf was made. -/
  | waiting
  /-- The lexer says it of a leaf. -/
  | lexer
  /-- A value was refused. -/
  | value
  /-- It still waited in the slot when the last leaf was made. -/
  | swept
deriving DecidableEq

/-- The message was in the slot. -/
def Origin.isSlot : Origin → Bool
  | waiting | swept => true
  | lexer | value => false

/-- A message that was given to a node. -/
structure Delivery where
  /-- The node. -/
  node : NodeId
  /-- The message. -/
  error : SyntaxError
  /-- How it came there. -/
  origin : Origin
deriving DecidableEq

/-- A refused value, given to the node that it names, to the last child of the open composite or to
that composite. -/
def Session.refusal (env : Setting σ γ) (s : Session σ γ) (e : ConversionError) : Delivery :=
  ⟨s.refusalTarget e, env.messages.value ⟨e, s.view env s.current⟩, .value⟩

/-- The messages that were given to a node. -/
def given (ds : List Delivery) (x : NodeId) : List SyntaxError :=
  (ds.filter (·.node = x)).map (·.error)

/-- The leaves of a tree from a number of nodes on, in the order of their creation. -/
def Tree.leavesFrom (t : Tree) (n : ℕ) : List (NodeId × Leaf) :=
  (List.range' n (t.size - n)).filterMap fun i => (t.node ⟨i⟩).leaf?.map (⟨i⟩, ·)

/-- What the lexer says of the token of a leaf. -/
def lexerError? (stream : TokenStream) (l : Leaf) : Option SyntaxError :=
  if l.kind = .invalid then
    some ⟨(stream.message? l.token).getD "invalid token", some .invalidToken⟩
  else none

/-- The message that a new leaf takes from the slot. -/
def taken (slot : Option SyntaxError) (l : Leaf) : Option SyntaxError :=
  if l.isHidden then none else slot

/-- What the slot holds after a leaf was made. -/
def left (slot : Option SyntaxError) (l : Leaf) : Option SyntaxError :=
  if l.isHidden then slot else none

/-- The messages that a new leaf gets. -/
def leafDeliveries (stream : TokenStream) (slot : Option SyntaxError) (x : NodeId × Leaf) :
    List Delivery :=
  (taken slot x.2).toList.map (⟨x.1, ·, .waiting⟩) ++
    (lexerError? stream x.2).toList.map (⟨x.1, ·, .lexer⟩)

/-- The messages that new leaves get, made one after the other. -/
def leavesDeliveries (stream : TokenStream) : Option SyntaxError → List (NodeId × Leaf) →
    List Delivery
  | _, [] => []
  | slot, x :: xs => leafDeliveries stream slot x ++ leavesDeliveries stream (left slot x.2) xs

namespace Transition

variable (env : Setting σ γ) (tr : Transition σ γ)

/-- The leaves that an operation made, in order. -/
def newLeaves : List (NodeId × Leaf) :=
  tr.after.tree.leavesFrom tr.before.tree.size

/-- What the slot holds before the leaves are made. -/
def slot : Option SyntaxError :=
  tr.before.pending.or (tr.message? env)

/-- What the slot holds after the leaves were made. -/
def rest : Option SyntaxError :=
  tr.newLeaves.foldl (fun slot x => left slot x.2) (tr.slot env)

/-- The refusal of a value, given to its node. -/
def refusal? : Option Delivery :=
  (tr.op.refused? env tr.before).map (tr.before.refusal env)

/-- What is swept out of the slot, given to the last leaf of the open composite or to that
composite. -/
def sweep? : Option Delivery :=
  if tr.op = .command .appendAll then
    (tr.rest env).map
      (⟨(tr.after.tree.lastLeaf? tr.after.current).getD tr.after.current, ·, .swept⟩)
  else none

/-- The messages that an operation gives to nodes, in order. -/
def deliveries : List Delivery :=
  leavesDeliveries env.stream (tr.slot env) tr.newLeaves ++ (tr.refusal? env).toList ++
    (tr.sweep? env).toList

end Transition

/-! ## Leaves and their messages -/

section Leaves

variable {t t' t'' : Tree} {stream : TokenStream} {slot : Option SyntaxError}
  {ls ls' : List (NodeId × Leaf)} {n : ℕ}

theorem mem_leavesFrom {x : NodeId} {l : Leaf} :
    (x, l) ∈ t.leavesFrom n ↔ n ≤ x.index ∧ t.Contains x ∧ (t.node x).leaf? = some l := by
  simp only [Tree.leavesFrom, List.mem_filterMap, List.mem_range'_1, Option.map_eq_some_iff,
    Prod.mk.injEq, Tree.Contains]
  constructor
  · rintro ⟨i, hi, l', hl, rfl, rfl⟩
    exact ⟨hi.1, by dsimp only; omega, hl⟩
  · rintro ⟨hn, hx, hl⟩
    exact ⟨x.index, by omega, l, hl, rfl, rfl⟩

theorem leavesFrom_size (t : Tree) : t.leavesFrom t.size = [] := by
  simp [Tree.leavesFrom]

/-- Later leaves come after those that were there before. -/
theorem leavesFrom_append (hn : n ≤ t.size) (hs : t.size ≤ t'.size)
    (hl : ∀ x, t.Contains x → (t'.node x).leaf? = (t.node x).leaf?) :
    t'.leavesFrom n = t.leavesFrom n ++ t'.leavesFrom t.size := by
  have hsplit : List.range' n (t'.size - n) =
      List.range' n (t.size - n) ++ List.range' t.size (t'.size - t.size) := by
    have h := List.range'_append_1 (s := n) (m := t.size - n) (n := t'.size - t.size)
    rw [show n + (t.size - n) = t.size by omega] at h
    rw [h]
    congr 1
    omega
  rw [Tree.leavesFrom, hsplit, List.filterMap_append]
  refine congrArg (· ++ _) (List.filterMap_congr fun i hi => ?_)
  rw [hl ⟨i⟩]
  have := List.mem_range'_1.mp hi
  show i < t.size
  omega

theorem leavesDeliveries_append : leavesDeliveries stream slot (ls ++ ls') =
    leavesDeliveries stream slot ls ++
      leavesDeliveries stream (ls.foldl (fun slot x => left slot x.2) slot) ls' := by
  induction ls generalizing slot with
  | nil => rfl
  | cons x ls ih => simp only [List.cons_append, leavesDeliveries, ih, List.foldl_cons,
      List.append_assoc]

theorem given_eq_nil {ds : List Delivery} {x : NodeId} (h : ∀ d ∈ ds, d.node ≠ x) :
    given ds x = [] := by
  rw [given, List.map_eq_nil_iff, List.filter_eq_nil_iff]
  exact fun d hd hx => h d hd (of_decide_eq_true hx)

theorem given_append (ds ds' : List Delivery) (x : NodeId) :
    given (ds ++ ds') x = given ds x ++ given ds' x := by
  simp [given]

theorem leavesFrom_congr (hs : t'.size = t.size)
    (hl : ∀ x, (t'.node x).leaf? = (t.node x).leaf?) (n : ℕ) :
    t'.leavesFrom n = t.leavesFrom n := by
  simp only [Tree.leavesFrom, hs, hl]

theorem leavesFrom_eq_nil (hl : ∀ x, (t'.node x).leaf? = (t.node x).leaf?) :
    t'.leavesFrom t.size = [] := by
  refine List.filterMap_eq_nil_iff.mpr fun i hi => ?_
  have hn : ¬ t.Contains ⟨i⟩ := Nat.not_lt_of_le (List.mem_range'_1.mp hi).1
  rw [hl, Tree.node_of_not_contains hn]
  rfl

end Leaves

section Deliveries

variable {stream : TokenStream} {slot : Option SyntaxError} {ls : List (NodeId × Leaf)}
  {d : Delivery} {x : NodeId} {l : Leaf}

theorem mem_leafDeliveries (h : d ∈ leafDeliveries stream slot (x, l)) :
    d.node = x ∧ (d.origin = .waiting ∨ d.origin = .lexer) := by
  simp only [leafDeliveries, List.mem_append, List.mem_map] at h
  rcases h with ⟨e, -, rfl⟩ | ⟨e, -, rfl⟩
  · exact ⟨rfl, Or.inl rfl⟩
  · exact ⟨rfl, Or.inr rfl⟩

theorem given_leafDeliveries (stream : TokenStream) (slot : Option SyntaxError) (x : NodeId)
    (l : Leaf) : given (leafDeliveries stream slot (x, l)) x =
      (taken slot l).toList ++ (lexerError? stream l).toList := by
  rw [leafDeliveries]
  cases taken slot l <;> cases lexerError? stream l <;> simp [given]

theorem mem_leavesDeliveries (h : d ∈ leavesDeliveries stream slot ls) :
    ∃ p ∈ ls, d.node = p.1 ∧ (d.origin = .waiting ∨ d.origin = .lexer) := by
  induction ls generalizing slot with
  | nil => cases h
  | cons p ls ih =>
    rcases List.mem_append.mp h with h | h
    · exact ⟨p, List.mem_cons_self, mem_leafDeliveries h⟩
    · obtain ⟨q, hq, hd⟩ := ih h
      exact ⟨q, List.mem_cons_of_mem _ hq, hd⟩

/-- What was in the slot was given to a leaf or is still there. -/
theorem slot_leavesDeliveries : ((leavesDeliveries stream slot ls).filter (·.origin.isSlot)).map
      (·.error) ++ (ls.foldl (fun slot x => left slot x.2) slot).toList = slot.toList := by
  induction ls generalizing slot with
  | nil => rfl
  | cons p ls ih =>
    have hone : ((leafDeliveries stream slot p).filter (·.origin.isSlot)).map (·.error) ++
        (left slot p.2).toList = slot.toList := by
      rw [leafDeliveries, taken, left]
      cases p.2.isHidden <;> cases slot <;> cases lexerError? stream p.2 <;> rfl
    rw [leavesDeliveries, List.filter_append, List.map_append, List.append_assoc, List.foldl_cons,
      ih, hone]

/-- The lexer has its say about every leaf. -/
theorem lexer_leavesDeliveries : (leavesDeliveries stream slot ls).filter (·.origin = .lexer) =
    ls.flatMap fun p => (lexerError? stream p.2).toList.map (⟨p.1, ·, .lexer⟩) := by
  induction ls generalizing slot with
  | nil => rfl
  | cons p ls ih =>
    rw [leavesDeliveries, List.filter_append, ih, List.flatMap_cons, leafDeliveries,
      List.filter_append]
    cases taken slot p.2 <;> cases lexerError? stream p.2 <;> rfl

/-- The messages of one of several leaves are those that it gets itself. -/
theorem filter_leavesDeliveries (stream : TokenStream) (slot : Option SyntaxError)
    (hls : ls.Pairwise fun p q => p.1 ≠ q.1) (h : (x, l) ∈ ls) :
    ∃ slot', (leavesDeliveries stream slot ls).filter (·.node = x) =
      leafDeliveries stream slot' (x, l) := by
  have hself (slot) (p : NodeId × Leaf) (hp : p.1 = x) :
      (leafDeliveries stream slot p).filter (·.node = x) = leafDeliveries stream slot p :=
    List.filter_eq_self.mpr fun d hd => decide_eq_true ((mem_leafDeliveries hd).1.trans hp)
  have hother (slot) (p : NodeId × Leaf) (hp : p.1 ≠ x) :
      (leafDeliveries stream slot p).filter (·.node = x) = [] :=
    List.filter_eq_nil_iff.mpr fun d hd h =>
      hp ((mem_leafDeliveries hd).1.symm.trans (of_decide_eq_true h))
  induction ls generalizing slot with
  | nil => cases h
  | cons p ls ih =>
    obtain ⟨hp, hls⟩ := List.pairwise_cons.mp hls
    rw [leavesDeliveries, List.filter_append]
    rcases List.mem_cons.mp h with rfl | h
    · refine ⟨slot, ?_⟩
      rw [hself slot _ rfl, List.filter_eq_nil_iff.mpr, List.append_nil]
      intro d hd hx
      obtain ⟨q, hq, hd, -⟩ := mem_leavesDeliveries hd
      exact hp q hq ((of_decide_eq_true hx).symm.trans hd)
    · rw [hother slot p (hp _ h), List.nil_append]
      exact ih _ hls h

/-- The first visible leaf gets what is in the slot. -/
theorem given_leavesDeliveries_of_find? (hls : ls.Pairwise fun p q => p.1 ≠ q.1)
    (h : (ls.find? fun p => !p.2.isHidden) = some (x, l)) :
    given (leavesDeliveries stream slot ls) x = slot.toList ++ (lexerError? stream l).toList := by
  induction ls with
  | nil => cases h
  | cons p ls ih =>
    obtain ⟨hp, hls⟩ := List.pairwise_cons.mp hls
    rw [leavesDeliveries, given_append]
    rw [List.find?_cons] at h
    cases hv : p.2.isHidden with
    | false =>
      rw [hv] at h
      obtain rfl := Option.some.inj h
      have hnil : given (leavesDeliveries stream (left slot l) ls) x = [] := by
        refine given_eq_nil fun d hd hx => ?_
        obtain ⟨q, hq, hnode, -⟩ := mem_leavesDeliveries hd
        exact hp q hq (hx.symm.trans hnode)
      rw [given_leafDeliveries, hnil, taken, if_neg (Bool.eq_false_iff.mp hv), List.append_nil]
    | true =>
      rw [hv] at h
      have hnil : given (leafDeliveries stream slot p) x = [] :=
        given_eq_nil fun d hd hx =>
          hp _ (List.mem_of_find?_eq_some h) ((mem_leafDeliveries hd).1.symm.trans hx)
      rw [hnil, List.nil_append, left, if_pos hv]
      exact ih hls h

theorem pairwise_leavesFrom (t : Tree) (n : ℕ) :
    (t.leavesFrom n).Pairwise fun p q => p.1 ≠ q.1 := by
  refine List.Pairwise.filterMap _ ?_ (List.pairwise_lt_range' (s := n) (n := t.size - n))
  intro i j hij p hp q hq
  obtain ⟨_, -, rfl⟩ := Option.map_eq_some_iff.mp hp
  obtain ⟨_, -, rfl⟩ := Option.map_eq_some_iff.mp hq
  intro h
  exact Nat.ne_of_lt hij (congrArg NodeId.index h)

end Deliveries

end ParseTree
