import ParseTree.Text.Quoted

/-!
# Grammars

A grammar is a sequence of elements. Each element but the rules lies in a container, so the elements
form trees below their rules; elements refer to each other by position.

## Main definitions

* `Element`: the element kinds
* `Grammar`: the elements with their containers and cardinalities
* `Grammar.rule?`: the rule of a name; the last declaration counts
* `Grammar.members`: the members of a group
-/

namespace ParseTree

/-- The position of an element in its grammar. -/
structure ElementId where
  /-- The position. -/
  index : Nat
deriving DecidableEq, Repr, BEq, ReflBEq, LawfulBEq

/-- The identifier as inspection output writes it. -/
def ElementId.inspect (id : ElementId) : String :=
  s!"ElementId({id.index})"

/-- How often an element may occur. -/
inductive Cardinality where
  /-- Exactly once. -/
  | one
  /-- At most once. -/
  | optional
  /-- Any number of times. -/
  | many
  /-- At least once. -/
  | oneOrMore
deriving DecidableEq, Repr

/-- The element may be absent. -/
def Cardinality.isOptional : Cardinality → Bool
  | .optional | .many => true
  | .one | .oneOrMore => false

/-- The name of a cardinality. -/
def Cardinality.inspect : Cardinality → String
  | .one => "One"
  | .optional => "Optional"
  | .many => "Many"
  | .oneOrMore => "OneOrMore"

/-- What a rule produces. -/
inductive RuleKind where
  /-- Semantic elements. -/
  | parser
  /-- Values, converted from their text. -/
  | datatype
  /-- Tokens. -/
  | terminal
  /-- Literals of an enumeration. -/
  | enumeration
deriving DecidableEq, Repr

/-- The name of a rule kind. -/
def RuleKind.inspect : RuleKind → String
  | .parser => "Parser"
  | .datatype => "Datatype"
  | .terminal => "Terminal"
  | .enumeration => "Enum"

/-- How an assignment stores its value. -/
inductive AssignOp where
  /-- One value. -/
  | set
  /-- One more value. -/
  | add
  /-- A flag, raised when the assigned part is present. -/
  | flag
deriving DecidableEq, Repr

/-- The operator as grammars write it. -/
def AssignOp.symbol : AssignOp → String
  | .set => "="
  | .add => "+="
  | .flag => "?="

/-- The name of an operator. -/
def AssignOp.inspect : AssignOp → String
  | .set => "Set"
  | .add => "Add"
  | .flag => "Flag"

/-- A grammar element. -/
inductive Element where
  /-- A rule, its body being the first element added under it. -/
  | rule (name : String) (kind : RuleKind) (classifier : Option String) (body : Option ElementId)
  /-- A fixed piece of text. -/
  | keyword (value : String)
  /-- A call of a rule. -/
  | ruleCall (name : String)
  /-- An assignment of a part to a feature. -/
  | assignment (feature : String) (operator : AssignOp) (terminal : Option ElementId)
  /-- The creation of an element, which may take up the current one in a feature. -/
  | action (classifier : String) (assigned : Option (String × AssignOp))
  /-- One of the members. -/
  | alternatives (members : List ElementId)
  /-- All members in order. -/
  | group (members : List ElementId)
  /-- All members in any order, each at most once. -/
  | unorderedGroup (members : List ElementId)
  /-- A reference to an element elsewhere. -/
  | crossReference (classifier : String) (terminal : Option ElementId)
deriving DecidableEq, Repr

namespace Element

/-- The short name of the kind of element. -/
def kindName : Element → String
  | rule .. => "rule"
  | keyword .. => "keyword"
  | ruleCall .. => "rule call"
  | assignment .. => "assignment"
  | action .. => "action"
  | alternatives .. => "alternatives"
  | group .. => "group"
  | unorderedGroup .. => "unordered group"
  | crossReference .. => "cross reference"

/-- The element is a rule. -/
def isRule : Element → Bool
  | rule .. => true
  | _ => false

/-- The members of a group of any kind, and nothing for other elements. -/
def members : Element → List ElementId
  | alternatives ms | group ms | unorderedGroup ms => ms
  | _ => []

/-- The elements directly inside, in order. -/
def children : Element → List ElementId
  | rule _ _ _ child | assignment _ _ child | crossReference _ child => child.toList
  | alternatives ms | group ms | unorderedGroup ms => ms
  | keyword _ | ruleCall _ | action _ _ => []

/-- The operator of an assignment or of an assigning action. -/
def operator? : Element → Option AssignOp
  | assignment _ op _ => some op
  | action _ assigned => assigned.map (·.2)
  | _ => none

/-- The element with all its parts. -/
def inspect : Element → String
  | rule name kind classifier body =>
    Text.inspectRecord "Rule"
      [("name", Text.quoted name), ("kind", kind.inspect),
       ("classifier", Text.inspectOption Text.quoted classifier),
       ("body", Text.inspectOption ElementId.inspect body)]
  | keyword value => Text.inspectRecord "Keyword" [("value", Text.quoted value)]
  | ruleCall name => Text.inspectRecord "RuleCall" [("rule", Text.quoted name)]
  | assignment feature operator terminal =>
    Text.inspectRecord "Assignment"
      [("feature", Text.quoted feature), ("operator", operator.inspect),
       ("terminal", Text.inspectOption ElementId.inspect terminal)]
  | action classifier assigned =>
    Text.inspectRecord "Action"
      [("classifier", Text.quoted classifier),
       ("feature", Text.inspectOption (fun a => Text.quoted a.1) assigned),
       ("operator", Text.inspectOption (fun a => a.2.inspect) assigned)]
  | alternatives ms => Text.inspectRecord "Alternatives" [("elements", inspectAll ms)]
  | group ms => Text.inspectRecord "Group" [("elements", inspectAll ms)]
  | unorderedGroup ms => Text.inspectRecord "UnorderedGroup" [("elements", inspectAll ms)]
  | crossReference classifier terminal =>
    Text.inspectRecord "CrossReference"
      [("classifier", Text.quoted classifier),
       ("terminal", Text.inspectOption ElementId.inspect terminal)]
where
  /-- A list of identifiers. -/
  inspectAll (ids : List ElementId) : String :=
    Text.inspectList (ids.map ElementId.inspect)

end Element

/-- An element in its place. -/
structure Entry where
  /-- The element. -/
  element : Element
  /-- The element it lies in; rules lie in none. -/
  container : Option ElementId
  /-- How often it may occur. -/
  cardinality : Cardinality
deriving DecidableEq, Repr

/-- A grammar: a name and its elements in order of declaration. -/
structure Grammar where
  /-- The name. -/
  name : String
  /-- The elements. -/
  entries : Array Entry
deriving Repr

namespace Grammar

/-- The number of elements. -/
def size (g : Grammar) : Nat :=
  g.entries.size

/-- The entry of an element. -/
def entry? (g : Grammar) (id : ElementId) : Option Entry :=
  g.entries[id.index]?

/-- An element by its identifier. -/
def element? (g : Grammar) (id : ElementId) : Option Element :=
  (g.entry? id).map (·.element)

/-- The identifiers of all elements. -/
def ids (g : Grammar) : List ElementId :=
  (List.range g.size).map ElementId.mk

/-- The name of the rule with an identifier. -/
def ruleName? (g : Grammar) (id : ElementId) : Option String :=
  match g.element? id with
  | some (.rule name ..) => some name
  | _ => none

/-- The rule of a name: the last one declared. -/
def rule? (g : Grammar) (name : String) : Option ElementId :=
  g.ids.reverse.find? fun id => g.ruleName? id = some name

/-- The classifier of the elements that a rule creates, which is its name unless it declares one. -/
def ruleClassifier? (g : Grammar) (id : ElementId) : Option String :=
  match g.element? id with
  | some (.rule name _ classifier _) => some (classifier.getD name)
  | _ => none

/-- The names of the rules with the rule each one denotes, sorted by name. -/
def rules (g : Grammar) : List (String × ElementId) :=
  (g.ids.filterMap fun id => do
    let name ← g.ruleName? id
    if g.rule? name = some id then some (name, id) else none).mergeSort fun a b => a.1 ≤ b.1

/-- The rule that a rule call refers to, if it is declared. -/
def calledRule? (g : Grammar) (id : ElementId) : Option ElementId :=
  match g.element? id with
  | some (.ruleCall name) => g.rule? name
  | _ => none

/-- The members of a group of any kind. -/
def members (g : Grammar) (id : ElementId) : List ElementId :=
  (g.element? id).elim [] Element.members

/-- The element need not occur. -/
def isOptional (g : Grammar) (id : ElementId) : Bool :=
  (g.entry? id).any (·.cardinality.isOptional)

end Grammar

end ParseTree
