import ParseTree.Session.Leaves

/-!
# Building nodes and elements

The boundaries of rules open and close composites; semantic actions create elements, bind them to
composites and assign their features.

## Main definitions

* `Session.enterRule`, `leaveRule`, `newComposite`, `afterRuleCall`: the boundaries of rules
* `Session.create`, `Session.createWrapper`: an element for a rule, for an action
* `Session.assign`: a feature gets a value
* `Session.currentText`: the text of a datatype rule
-/

namespace ParseTree

/-- How an assignment stores its value. -/
inductive AssignMode where
  /-- As the one value. -/
  | set
  /-- As one more value. -/
  | add
deriving DecidableEq, Repr

/-- Flags are stored like single values. -/
def AssignOp.mode : AssignOp → AssignMode
  | add => .add
  | set | flag => .set

/-- The node that the element of a rule is bound to. -/
inductive BindingSite where
  /-- The open composite. -/
  | current
  /-- The node above it, or the open composite itself if there is none. -/
  | parent
deriving DecidableEq, Repr

/-- The node that a value is read from. -/
inductive ValueSource where
  /-- The open composite. -/
  | current
  /-- The node finished last, or the open composite if none was. -/
  | last
deriving DecidableEq, Repr

namespace Session

variable {σ γ : Type}

/-- A rule starts: the tokens looked at to get here are handed to the open composite. -/
def enterRule (s : Session σ γ) : Session σ γ :=
  let (attribution, tree) := s.attribution.claimAll s.tree s.current s.cursor.recorded
  { s with attribution, tree, cursor := s.cursor.forget }

/-- A rule ends. -/
def leaveRule (s : Session σ γ) : Session σ γ :=
  { s with cursor := s.cursor.forget, lastNode := some s.current }

/-- The end of the last token that got a leaf, where a composite without leaves is placed. -/
def anchor (env : Setting σ γ) (s : Session σ γ) : Nat :=
  (s.lastToken.bind env.stream.token?).elim 0 fun t => t.span.stop

/-- Opens a composite for an element below the open one. -/
def newComposite (env : Setting σ γ) (s : Session σ γ) (element : ElementId) : Session σ γ :=
  { s with
    tree := s.tree.addComposite element (saturate s.cursor.recorded.length) (s.anchor env)
      s.current
    current := s.tree.nextId }

/-- The node, or another one if it is the one that was merged. -/
def redirect (absorbed target id : NodeId) : NodeId :=
  if id = absorbed then target else id

/-- Merges the open composite with its only child, if it can be. Whatever referred to the child
refers to the composite afterwards. -/
def compress (s : Session σ γ) : Session σ γ :=
  match s.tree.compress? s.current with
  | none => s
  | some c =>
    let (attribution, tree) := s.attribution.transfer c.tree c.absorbed s.current
    { s with
      attribution
      tree
      primary := s.primary.map fun p =>
        if some p.1 = c.semantic then (p.1, redirect c.absorbed s.current p.2) else p
      lastNode := s.lastNode.map (redirect c.absorbed s.current) }

/-- Closes the composite of a called rule; the root stays open. -/
def afterRuleCall (env : Setting σ γ) (s : Session σ γ) : Session σ γ :=
  match s.tree.parent? s.current with
  | none => s
  | some parent =>
    { (if env.config.compressNodes then s.compress else s) with current := parent }

/-- The text of the visible leaves of the open composite. -/
def currentText (env : Setting σ γ) (s : Session σ γ) : String :=
  String.join (((s.tree.leaves s.current).filter fun id => !s.tree.isHidden id).map
    (s.tree.text env.stream.text))

/-- Binds an element to a node. The first node of an element is its primary node. -/
def associate (s : Session σ γ) (node : NodeId) (element : SemanticId) :
    Except ParseError SemanticId × Session σ γ :=
  match s.tree.bind? node element with
  | none => (.error (.reassignment node), s)
  | some tree =>
    (.ok element,
      { s with
        tree
        primary := if (s.primary? element).isSome then s.primary
          else s.primary ++ [(element, node)] })

/-- The element that the factory makes of a classifier. -/
def make (env : Setting σ γ) (s : Session σ γ) (classifier : String) :
    Except ParseError SemanticId × Session σ γ :=
  let (result, factory) := env.factory.create classifier s.factory
  (result.mapError .internal, { s with factory })

/-- The node at a binding site. -/
def siteNode (s : Session σ γ) : BindingSite → NodeId
  | .current => s.current
  | .parent => (s.tree.parent? s.current).getD s.current

/-- Creates an element of a rule and binds it to the node at a site. -/
def create (env : Setting σ γ) (s : Session σ γ) (site : BindingSite) (rule : ElementId) :
    Except WalkFault (Except ParseError SemanticId × Session σ γ) := do
  let _ ← env.grammar.visit rule
  match env.grammar.ruleClassifier? rule with
  | none => return (.error (.unknownRule (← env.grammar.describe rule)), s)
  | some classifier =>
    let node := s.siteNode site
    match s.make env classifier with
    | (.error e, s) => return (.error e, s)
    | (.ok element, s) => return s.associate node element

/-- Where the message about a refused value goes: to the node that the refusal names, else to the
last child of the open composite, else to the composite. -/
def refusalTarget (s : Session σ γ) (e : ConversionError) : NodeId :=
  ((e.node.filter fun id => decide (s.tree.Contains id)).or
    (s.tree.children s.current).getLast?).getD s.current

/-- Deals with the refusal of a value: a message in the tree, or the end of the parse. -/
def refuse (env : Setting σ γ) (s : Session σ γ) (e : ConversionError) :
    Except ParseError Unit × Session σ γ :=
  if e.isInternal then (.error (.internal e), s)
  else
    (.ok (),
      { s with tree := s.tree.attachError (s.refusalTarget e)
                (env.messages.value ⟨e, s.view env s.current⟩) })

/-- A feature gets a value that was read from a node. -/
def assignAt (env : Setting σ γ) (s : Session σ γ) (mode : AssignMode) (a : Assignment)
    (node : NodeId) : Except ParseError Unit × Session σ γ :=
  let operation := match mode with
    | .set => env.factory.set
    | .add => env.factory.add
  match operation a (s.view env node) s.factory with
  | (.ok (), factory) => (.ok (), { s with factory })
  | (.error e, factory) => refuse env { s with factory } e

/-- The node that a value is read from. -/
def sourceNode (s : Session σ γ) : ValueSource → NodeId
  | .current => s.current
  | .last => s.lastNode.getD s.current

/-- A feature gets a value that was read from the node of a source. -/
def assign (env : Setting σ γ) (s : Session σ γ) (source : ValueSource) (mode : AssignMode)
    (a : Assignment) : Except ParseError Unit × Session σ γ :=
  s.assignAt env mode a (s.sourceNode source)

/-- Wraps the open composite into a new one for an action, which is open afterwards. -/
def wrapCurrent (s : Session σ γ) (action : ElementId) : Session σ γ :=
  let (attribution, tree) :=
    s.attribution.transfer (s.tree.wrap action s.current) s.current s.tree.nextId
  { s with attribution, tree, current := s.tree.nextId }

/-- Stores the value of an assigned action in the new element. -/
def assignAction (env : Setting σ γ) (s : Session σ γ) (element : SemanticId)
    (assigned : Option (String × AssignOp)) (value : Option SemanticId) :
    Except ParseError Unit × Session σ γ :=
  match assigned, value with
  | some (feature, operator), some value =>
    s.assign env .current operator.mode ⟨element, feature, .element value, none⟩
  | _, _ => (.ok (), s)

/-- Runs an action: creates its element, stores the value, wraps the open composite and binds the
element to the wrapper. -/
def createWrapper (env : Setting σ γ) (s : Session σ γ) (action : ElementId)
    (value : Option SemanticId) :
    Except WalkFault (Except ParseError SemanticId × Session σ γ) := do
  match (← env.grammar.visit action).element with
  | .action classifier assigned =>
    match s.make env classifier with
    | (.error e, s) => return (.error e, s)
    | (.ok element, s) =>
      match s.assignAction env element assigned value with
      | (.error e, s) => return (.error e, s)
      | (.ok (), s) =>
        let s := s.wrapCurrent action
        return s.associate s.current element
  | _ => return (.error (.unknownRule (← env.grammar.describe action)), s)

end Session

end ParseTree
