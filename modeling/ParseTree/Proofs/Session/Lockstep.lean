import ParseTree.Proofs.Model.Refused
import ParseTree.Proofs.Session.Parallel

/-!
# Operations with and without merges

Sessions in parallel answer the same to every operation, one of them merging the composites that are
closed and the other one not.

## Main definitions

* `Alike`: two computations fail alike, or answer the same and leave sessions in parallel
* `AssignMode.edit`: what storing a value does to the element of a model

## Main results

* `Parallel.create`, `Parallel.assign`, `Parallel.createWrapper`: semantic actions
* `Parallel.step`: all operations
-/

namespace ParseTree

open Session Relation

variable {σ γ : Type}

namespace Parallel

variable {h : Chains} {s u : Session σ γ}

theorem isSome_primary? (hp : Parallel h s u) (element : SemanticId) :
    (s.primary? element).isSome = (u.primary? element).isSome := by
  have hmem (l : List (SemanticId × NodeId)) :
      (l.lookup element).isSome ↔ element ∈ l.map (·.1) := by
    simp [List.lookup_isSome_iff]
  rw [Bool.eq_iff_iff, primary?, primary?, hmem, hmem, hp.primary]

/-- A node with a chain of its own is bound in both sessions or in none. -/
theorem associate (hp : Parallel h s u) {node : NodeId} (hs : h.chain node = [node])
    (element : SemanticId) :
    (s.associate node element).1 = (u.associate node element).1 ∧
      Parallel h (s.associate node element).2 (u.associate node element).2 := by
  have hbind := hp.tree.bind? hs element
  rw [Session.associate, Session.associate, hp.isSome_primary?]
  cases ht : s.tree.bind? node element with
  | none =>
    cases hu : u.tree.bind? node element with
    | none => exact ⟨rfl, hp⟩
    | some t' =>
      rw [ht, hu] at hbind
      cases hbind
  | some t =>
    cases hu : u.tree.bind? node element with
    | none =>
      rw [ht, hu] at hbind
      cases hbind
    | some t' =>
      rw [ht, hu] at hbind
      cases hbind with
      | some hc =>
        refine ⟨rfl, ?_⟩
        refine (hp.withTree (Tree.sameNodes_bind? ht) (Tree.sameNodes_bind? hu) hc).withPrimary ?_
        split_ifs
        · exact hp.primary
        · simp [hp.primary]

theorem make (hp : Parallel h s u) (env : Setting σ γ) (classifier : String) :
    (s.make env classifier).1 = (u.make env classifier).1 ∧
      Parallel h (s.make env classifier).2 (u.make env classifier).2 := by
  refine ⟨?_, hp.outer (f := fun s => (s.make env classifier).2) (fun _ => rfl) rfl⟩
  rw [← hp.rest]
  rfl

theorem siteNode (hp : Parallel h s u) (site : BindingSite) :
    s.siteNode site = u.siteNode site ∧ h.chain (u.siteNode site) = [u.siteNode site] := by
  cases site with
  | current => exact ⟨hp.current, hp.chain_current⟩
  | parent =>
    rw [Session.siteNode, Session.siteNode, hp.parent?]
    cases hparent : s.tree.parent? s.current with
    | none => exact ⟨hp.current, hp.chain_current⟩
    | some p => exact ⟨rfl, hp.opened p (Or.inl (Shape.below_of_parent? hparent))⟩

end Parallel

/-- The computations fail alike, or they answer the same and leave sessions in parallel. -/
inductive Alike {α : Type} :
    Except WalkFault (α × Session σ γ) → Except WalkFault (α × Session σ γ) → Prop
  /-- Both fail. -/
  | fault (fault : WalkFault) : Alike (.error fault) (.error fault)
  /-- Both answer. -/
  | answer (a : α) {h : Chains} {s u : Session σ γ} (hp : Parallel h s u) :
    Alike (.ok (a, s)) (.ok (a, u))

theorem alike_of_eq {α : Type} {h : Chains} {x y : α × Session σ γ}
    (he : x.1 = y.1 ∧ Parallel h x.2 y.2) : Alike (.ok x) (.ok y) := by
  obtain ⟨a, s⟩ := x
  obtain ⟨b, u⟩ := y
  obtain ⟨rfl, hp⟩ := he
  exact .answer _ hp

namespace Parallel

variable {h : Chains} {s u : Session σ γ}

theorem newLeaf (hp : Parallel h s u) (env : Setting σ γ) (t : Token) (element : ElementId) :
    Alike (s.step env (.command (.newLeaf t element)))
      (u.step env (.command (.newLeaf t element))) := by
  have hlast : s.lastToken = u.lastToken := (congrArg Session.lastToken hp.rest).symm
  have hnext := hp.nextToken
  rw [step, step, perform, perform, Session.newLeaf, Session.newLeaf, hlast, hnext]
  cases hi : t.index with
  | none => exact .answer () hp
  | some i =>
    dsimp only
    split_ifs
    · exact .answer () hp
    · cases env.grammar.feature element with
      | error fault => exact .fault fault
      | ok feature =>
        have hrange := hp.appendRange env u.nextToken i
        have hleaf := hrange.createLeaf env t i (some element) feature
        have hp' := (hleaf.withLastToken (some i)).withLastNode
          (Chains.head_of_single hrange.tree.chain_nextId)
        dsimp only [bind, Except.bind, pure, Except.pure]
        rw [hrange.nextId]
        exact .answer () hp'

theorem create (hp : Parallel h s u) (env : Setting σ γ) (site : BindingSite) (rule : ElementId) :
    Alike (s.create env site rule) (u.create env site rule) := by
  rw [Session.create, Session.create, (hp.siteNode site).1]
  cases env.grammar.visit rule with
  | error fault => exact .fault fault
  | ok _ =>
    cases env.grammar.ruleClassifier? rule with
    | none =>
      cases env.grammar.describe rule with
      | error fault => exact .fault fault
      | ok name => exact .answer _ hp
    | some classifier =>
      obtain ⟨hanswer, hp'⟩ := hp.make env classifier
      dsimp only [bind, Except.bind, pure, Except.pure]
      rcases hs : s.make env classifier with ⟨result, s'⟩
      rcases hu : u.make env classifier with ⟨result', u'⟩
      rw [hs, hu] at hanswer hp'
      obtain rfl : result = result' := hanswer
      cases result with
      | error e => exact .answer _ hp'
      | ok element => exact alike_of_eq (hp'.associate (hp.siteNode site).2 element)

end Parallel

/-! ## Values -/

/-- What storing a value does to the element of a model. -/
def AssignMode.edit (mode : AssignMode) (a : Assignment) (value : Value) (e : ModelElement) :
    ModelElement :=
  match mode with
  | .set => e.assign a.feature value
  | .add => e.append a.feature value

/-- A value is stored in a model or refused. -/
theorem assignAt_modelled (env : Setting Model γ) (s : Session Model γ) (mode : AssignMode)
    (a : Assignment) (node : NodeId) :
    s.assignAt env.modelled mode a node =
      match s.factory.store a (mode.edit a) node with
      | .ok factory => (.ok (), { s with factory })
      | .error e => s.refuse env.modelled e := by
  cases mode with
  | set =>
    have hset : env.modelled.factory.set a (s.view env.modelled node) s.factory =
        s.factory.outcome () (s.factory.store a (AssignMode.set.edit a) node) := rfl
    rw [Session.assignAt, hset]
    cases s.factory.store a (AssignMode.set.edit a) node <;> rfl
  | add =>
    have hadd : env.modelled.factory.add a (s.view env.modelled node) s.factory =
        s.factory.outcome () (s.factory.store a (AssignMode.add.edit a) node) := rfl
    rw [Session.assignAt, hadd]
    cases s.factory.store a (AssignMode.add.edit a) node <;> rfl

namespace Parallel

variable {h : Chains} {s u : Session Model γ}

/-- The message about a refused value goes to the same node, or to the one it was merged into. -/
theorem refusalTarget (hp : Parallel h s u) (e : ConversionError) :
    s.refusalTarget (e.rename h.head) = h.head (u.refusalTarget e) := by
  have hcontains (x : NodeId) := hp.tree.contains_head_iff x
  have hchildren : s.tree.children s.current = u.tree.children u.current := by
    rw [hp.current]
    exact (hp.tree.agrees hp.chain_current).children
  have hnode : ((e.node.map h.head).filter fun x => decide (s.tree.Contains x)) =
      (e.node.filter fun x => decide (u.tree.Contains x)).map h.head := by
    cases e.node with
    | none => rfl
    | some x => by_cases hx : u.tree.Contains x <;> simp [Option.filter, hcontains, hx]
  have hlast : ((u.tree.children u.current).getLast?).map h.head =
      (u.tree.children u.current).getLast? := by
    rw [← hchildren]
    cases hl : (s.tree.children s.current).getLast? with
    | none => rfl
    | some y =>
      have hy := List.mem_of_getLast? hl
      rw [Option.map_some, hp.tree.head_of_mem_children hp.left.wellFormed hy]
  have hor (o : Option NodeId) : (o.map h.head).or (u.tree.children u.current).getLast? =
      (o.or (u.tree.children u.current).getLast?).map h.head := by
    rw [Option.map_or, hlast]
  rw [Session.refusalTarget, Session.refusalTarget, ConversionError.rename, hnode, hchildren, hor,
    hp.current]
  cases (e.node.filter fun x => decide (u.tree.Contains x)).or
    (u.tree.children u.current).getLast? with
  | none => exact hp.head_current.symm
  | some x => rfl

theorem refuse (hp : Parallel h s u) (env : Setting Model γ) {e : ConversionError}
    (he : e.isInternal → e.node = none) :
    (s.refuse env.modelled (e.rename h.head)).1 = (u.refuse env.modelled e).1 ∧
      Parallel h (s.refuse env.modelled (e.rename h.head)).2 (u.refuse env.modelled e).2 := by
  have hinternal : (e.rename h.head).isInternal = e.isInternal := rfl
  rw [Session.refuse, Session.refuse, hinternal]
  split_ifs with hi
  · obtain ⟨message, node, isInternal⟩ := e
    obtain rfl : node = none := he hi
    exact ⟨rfl, hp⟩
  · refine ⟨rfl, ?_⟩
    rw [hp.refusalTarget]
    exact hp.attachError ..

theorem assignAt (hp : Parallel h s u) (env : Setting Model γ) (mode : AssignMode) (a : Assignment)
    (node : NodeId) :
    (s.assignAt env.modelled mode a (h.head node)).1 = (u.assignAt env.modelled mode a node).1 ∧
      Parallel h (s.assignAt env.modelled mode a (h.head node)).2
        (u.assignAt env.modelled mode a node).2 := by
  rw [assignAt_modelled, assignAt_modelled, hp.factory, Model.store_rename]
  cases hstore : u.factory.store a (mode.edit a) node with
  | ok factory =>
    exact ⟨rfl, hp.outer (f := fun s => { s with factory }) (fun _ => rfl) rfl⟩
  | error e => exact hp.refuse env (Model.node_eq_none_of_store hstore)

theorem sourceNode (hp : Parallel h s u) (source : ValueSource) :
    s.sourceNode source = h.head (u.sourceNode source) := by
  cases source with
  | current => exact hp.current.trans hp.head_current.symm
  | last =>
    rw [Session.sourceNode, Session.sourceNode, hp.lastNode, hp.current]
    cases u.lastNode with
    | none => exact hp.head_current.symm
    | some x => rfl

theorem assign (hp : Parallel h s u) (env : Setting Model γ) (source : ValueSource)
    (mode : AssignMode) (a : Assignment) :
    (s.assign env.modelled source mode a).1 = (u.assign env.modelled source mode a).1 ∧
      Parallel h (s.assign env.modelled source mode a).2
        (u.assign env.modelled source mode a).2 := by
  rw [Session.assign, Session.assign, hp.sourceNode]
  exact hp.assignAt env mode a _

theorem assignAction (hp : Parallel h s u) (env : Setting Model γ) (element : SemanticId)
    (assigned : Option (String × AssignOp)) (value : Option SemanticId) :
    (s.assignAction env.modelled element assigned value).1 =
        (u.assignAction env.modelled element assigned value).1 ∧
      Parallel h (s.assignAction env.modelled element assigned value).2
        (u.assignAction env.modelled element assigned value).2 := by
  unfold Session.assignAction
  split
  · exact hp.assign env ..
  · exact ⟨rfl, hp⟩

/-- The open composite is wrapped in both sessions. -/
theorem wrapCurrent {σ : Type} {s u : Session σ γ} (hp : Parallel h s u) (action : ElementId) :
    Parallel h (s.wrapCurrent action) (u.wrapCurrent action) := by
  have hnext := hp.nextId
  have hcurrent := hp.current
  have hs := linked_wrapCurrent hp.left action
  have hu := linked_wrapCurrent hp.right action
  have hwrap : (s.tree.wrap action u.current).Contracts h (u.tree.wrap action u.current) := by
    refine hp.tree.wrap hp.left.wellFormed hp.right.wellFormed ?_ hp.chain_current ?_ action
    · rw [← hcurrent]
      exact hp.left.current.contains
    · intro p hparent
      rw [← hcurrent] at hparent
      exact hp.opened p (Or.inl (Shape.below_of_parent? hparent))
  have hs' : (s.tree.wrap action u.current).IsComposite u.tree.nextId := by
    rw [← hcurrent, ← hnext]
    exact ((sameButLookahead_wrapCurrent s action).isComposite_iff _).mp hs.current
  have hu' : (u.tree.wrap action u.current).IsComposite u.tree.nextId :=
    ((sameButLookahead_wrapCurrent u action).isComposite_iff _).mp hu.current
  obtain ⟨hattribution, htree⟩ := Attribution.contracts_transfer hp.attribution hwrap hs' hu'
    hp.chain_current hp.tree.chain_nextId
  have htransfer : s.attribution.transfer (s.tree.wrap action u.current) u.current u.tree.nextId =
      ((s.wrapCurrent action).attribution, (s.wrapCurrent action).tree) := by
    rw [← hcurrent, ← hnext]
    rfl
  rw [htransfer] at hattribution htree
  refine ⟨hs, hu, ?_, htree, ?_, hattribution, hp.lastNode, hp.primary, ?_⟩
  · rw [Tree.Contains, size_wrapCurrent]
    exact Nat.lt_succ_of_lt hp.root
  · intro x hx
    rcases Tree.IsOpen.of_interpose hp.left.wellFormed hp.root (shape_wrapCurrent hp.left action) hx
      with rfl | hx
    · rw [hnext]
      exact hp.tree.chain_nextId
    · exact hp.opened x hx
  · obtain ⟨b, rfl⟩ := hp.exists_graft
    exact congrArg (fun c => { (u.graft b).wrapCurrent action with current := c }) hnext.symm

/-- An action does the same in both sessions. -/
theorem createWrapper (hp : Parallel h s u) (env : Setting Model γ) (action : ElementId)
    (value : Option SemanticId) :
    Alike (s.createWrapper env.modelled action value)
      (u.createWrapper env.modelled action value) := by
  rw [Session.createWrapper, Session.createWrapper]
  cases env.modelled.grammar.visit action with
  | error fault => exact .fault fault
  | ok entry =>
    dsimp only [bind, Except.bind, pure, Except.pure]
    split
    · next classifier assigned _ =>
      obtain ⟨hanswer, hp'⟩ := hp.make env.modelled classifier
      rcases hs : s.make env.modelled classifier with ⟨result, s'⟩
      rcases hu : u.make env.modelled classifier with ⟨result', u'⟩
      rw [hs, hu] at hanswer hp'
      obtain rfl : result = result' := hanswer
      cases result with
      | error e => exact .answer _ hp'
      | ok element =>
        obtain ⟨hanswer, hp''⟩ := hp'.assignAction env element assigned value
        rcases hs : s'.assignAction env.modelled element assigned value with ⟨result, s''⟩
        rcases hu : u'.assignAction env.modelled element assigned value with ⟨result', u''⟩
        rw [hs, hu] at hanswer hp''
        obtain rfl : result = result' := hanswer
        dsimp only
        rw [hs, hu]
        cases result with
        | error e => exact .answer _ hp''
        | ok _ =>
          have hwrap := hp''.wrapCurrent action
          have hassociate := hwrap.associate hwrap.chain_current element
          dsimp only
          rw [hwrap.current]
          exact alike_of_eq hassociate
    · cases env.modelled.grammar.describe action with
      | error fault => exact .fault fault
      | ok name => exact .answer _ hp

/-! ### All operations -/

theorem currentText {σ : Type} {s u : Session σ γ} (hp : Parallel h s u) (env : Setting σ γ) :
    s.currentText env = u.currentText env := by
  have hleaves : s.tree.leaves s.current = u.tree.leaves u.current := by
    rw [hp.current]
    exact hp.tree.leaves hp.left.wellFormed hp.right.wellFormed
      (hp.current ▸ hp.left.current.contains) hp.head_current
  have hhidden : s.tree.isHidden = u.tree.isHidden := by
    funext x
    rw [Tree.isHidden, Tree.isHidden, hp.tree.leaf?]
  rw [Session.currentText, Session.currentText, hleaves, hhidden]
  refine congrArg String.join (List.map_congr_left fun x hx => ?_)
  have hx := (List.mem_filter.mp (List.mem_filter.mp hx).1).2
  obtain ⟨leaf, hleaf⟩ := Option.isSome_iff_exists.mp hx
  rw [Tree.text, Tree.text, Tree.span_of_leaf? hleaf,
    Tree.span_of_leaf? ((hp.tree.leaf? x).trans hleaf)]

/-- An operation that neither looks at what was built nor changes it. -/
theorem outerAnswer {σ α : Type} {s u : Session σ γ} {f : Session σ γ → α × Session σ γ}
    (hp : Parallel h s u) (hf : ∀ s, f (u.graft s) = ((f u).1, (f u).2.graft s))
    (hc : (f u).2.current = u.current) : Alike (.ok (f s)) (.ok (f u)) := by
  have hs := hf s
  rw [hp.rest] at hs
  rw [hs]
  exact .answer _ (hp.of_graft (congrArg Prod.snd (hf u)).symm hc)

theorem report (hp : Parallel h s u) (env : Setting Model γ) (e : RecognitionError) :
    Parallel h (s.report env.modelled e) (u.report env.modelled e) :=
  hp.outer (f := (·.report env.modelled e)) (fun s => report_graft env u s e)
    (steady_report _ u e).current

theorem recover (hp : Parallel h s u) (env : Setting Model γ) (e : RecognitionError) :
    Parallel h (s.recover env.modelled e) (u.recover env.modelled e) :=
  hp.outer (f := (·.recover env.modelled e)) (fun s => recover_graft env u s e)
    (steady_recover _ u e).current

theorem withGroups {σ : Type} {s u : Session σ γ} (hp : Parallel h s u) (f : γ → γ) :
    Parallel h { s with groups := f s.groups } { u with groups := f u.groups } :=
  hp.outer (f := fun s => { s with groups := f s.groups }) (fun _ => rfl) rfl

/-- A command that closes nothing keeps sessions in parallel. -/
theorem performModelled (hp : Parallel h s u) (env : Setting Model γ) {c : Command}
    (hop : c ≠ .afterRuleCall) :
    Alike (s.step env.modelled (.command c)) (u.step env.modelled (.command c)) := by
  cases c with
  | enterRule => exact .answer () hp.enterRule
  | leaveRule => exact .answer () hp.leaveRule
  | newComposite element => exact .answer () (hp.newComposite env.modelled element)
  | afterRuleCall => exact absurd rfl hop
  | newLeaf t element => exact hp.newLeaf env.modelled t element
  | appendSkipped => exact .answer () (hp.appendSkipped env.modelled)
  | appendTrailing => exact .answer () (hp.appendTrailing env.modelled)
  | appendAll => exact .answer () (hp.appendAll env.modelled)
  | report e => exact .answer () (hp.report env e)
  | recover e => exact .answer () (hp.recover env e)
  | pushFollow set => exact .answer () (hp.outer (f := (·.pushFollow set)) (fun _ => rfl) rfl)
  | popFollow => exact .answer () (hp.outer (f := (·.popFollow)) (fun _ => rfl) rfl)
  | enterGroup group => exact .answer () (hp.withGroups (env.groups.enter group))
  | leaveGroup group => exact .answer () (hp.withGroups (env.groups.leave group))
  | selectMember group member => exact .answer () (hp.withGroups (env.groups.select group member))
  | returnFromMember group => exact .answer () (hp.withGroups (env.groups.returnFrom group))

/-- An operation that closes nothing answers the same and keeps sessions in parallel. -/
theorem stepModelled (hp : Parallel h s u) (env : Setting Model γ) {op : Operation}
    (hop : op ≠ .command .afterRuleCall) :
    Alike (s.step env.modelled op) (u.step env.modelled op) := by
  cases op with
  | command c => exact hp.performModelled env fun hc => hop (congrArg _ hc)
  | lookAt steps =>
    exact hp.outerAnswer (f := fun s => ((s.cursor.lookAt env.modelled.stream steps).1,
      { s with cursor := (s.cursor.lookAt env.modelled.stream steps).2 })) (fun _ => rfl) rfl
  | textOf token => exact .answer _ hp
  | currentText =>
    rw [step, step, hp.currentText env.modelled]
    exact .answer _ hp
  | matchToken expected follow =>
    exact hp.outerAnswer (f := (·.matchToken env.modelled expected follow))
      (fun s => matchToken_graft env u s expected follow)
      (steady_matchToken _ u expected follow).current
  | errorHere fault =>
    exact hp.outerAnswer (f := fun s => (s.errorHere env.modelled fault, s)) (fun _ => rfl) rfl
  | groupFailure rule group =>
    have hs := groupFailure_graft env u s rule group
    have hu := groupFailure_graft env u u rule group
    rw [hp.rest] at hs
    rw [step, step, hs]
    cases hg : u.groupFailure env.modelled rule group with
    | error fault => exact .fault fault
    | ok r =>
      rw [show u.graft u = u from rfl, hg] at hu
      exact .answer _ (hp.of_graft (congrArg Prod.snd (Except.ok.inj hu)).symm
        (steady_groupFailure hg).current)
  | catchError e =>
    cases e with
    | recognition e => exact .answer _ ((hp.recover env e).appendSkipped env.modelled)
    | _ => exact .answer _ hp
  | canSelect group member =>
    exact hp.outerAnswer (f := fun s => (env.modelled.groups.canSelect group member s.groups, s))
      (fun _ => rfl) rfl
  | canLeave group =>
    exact hp.outerAnswer (f := fun s => (env.modelled.groups.canLeave group s.groups, s))
      (fun _ => rfl) rfl
  | create site rule => exact hp.create env.modelled site rule
  | createWrapper action value => exact hp.createWrapper env action value
  | assign source mode a => exact alike_of_eq (hp.assign env source mode a)

/-- Every operation answers the same with and without merges and keeps sessions in parallel. -/
theorem step {A : NodeId → Prop} (hp : Parallel h s u) (env : Setting Model γ)
    (hi : Intact A s.tree s.current) (op : Operation) :
    Alike (s.step (env.compressing true).modelled op)
      (u.step (env.compressing false).modelled op) := by
  by_cases hop : op = .command .afterRuleCall
  · rw [hop]
    obtain ⟨h', hp'⟩ := hp.afterRuleCall (env.compressing true).modelled
      (env.compressing false).modelled hi rfl
    exact .answer () hp'
  · rw [step_compressing env s true hop, step_compressing env u false hop]
    exact hp.stepModelled env hop

end Parallel

end ParseTree
