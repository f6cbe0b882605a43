import ParseTree.Grammar.Basic

/-!
# Walks through a grammar

Some questions about an element are answered by walking to its containers or to its parts. A
container is declared before its parts, so walks to containers descend and walks to parts ascend;
an element that was declared inside itself is the one place where a walk would not end.

## Main definitions

* `WalkFault`: why a walk has no answer
* `Grammar.containingRule`: the rule an element belongs to
* `Grammar.feature`: the feature an element is assigned to
* `Grammar.describe`: a description of an element for messages
-/

namespace ParseTree

/-- Why a walk through a grammar has no answer. -/
inductive WalkFault where
  /-- It reaches an identifier that no element has. -/
  | unknownElement (id : ElementId)
  /-- It comes back to the same element for ever. -/
  | endless (id : ElementId)
deriving DecidableEq, Repr

/-- What stands between the members of a group in its description. -/
def Element.separator : Element → String
  | alternatives _ => " | "
  | unorderedGroup _ => " & "
  | _ => " "

namespace Grammar

/-- The element with an identifier, as a step of a walk. -/
def visit (g : Grammar) (id : ElementId) : Except WalkFault Entry :=
  match g.entry? id with
  | some entry => .ok entry
  | none => .error (.unknownElement id)

/-- The rule that an element lies in, at any depth; a rule lies in itself. -/
def containingRule (g : Grammar) (id : ElementId) : Except WalkFault (Option ElementId) := do
  let entry ← g.visit id
  if entry.element.isRule then return some id
  match entry.container with
  | none => return none
  | some container =>
    if container.index < id.index then g.containingRule container
    else throw (.endless id)
termination_by id.index

/-- The feature that an element is assigned to: that of the first assignment above it, with only
rule calls, keywords, cross references and alternatives in between. -/
def feature (g : Grammar) (id : ElementId) : Except WalkFault (Option String) := do
  let entry ← g.visit id
  match entry.element with
  | .assignment feature .. => return some feature
  | .ruleCall _ | .keyword _ | .crossReference .. | .alternatives _ =>
    match entry.container with
    | none => return none
    | some container =>
      if container.index < id.index then g.feature container
      else throw (.endless id)
  | _ => return none
termination_by id.index

/-- The description of an element in messages: rules by name, keywords in quotes, groups by their
members. -/
def describe (g : Grammar) (id : ElementId) : Except WalkFault String := do
  let entry ← g.visit id
  match entry.element with
  | .rule name .. | .ruleCall name => return name
  | .keyword value => return "'" ++ value ++ "'"
  | .assignment feature _ none => return feature
  | .assignment feature _ (some part) =>
    if id.index < part.index ∧ part.index < g.size then
      return feature ++ "=" ++ (← g.describe part)
    else throw (.endless id)
  | .action classifier _ => return "\x7b" ++ classifier ++ "\x7d"
  | .crossReference classifier _ => return "[" ++ classifier ++ "]"
  | .alternatives ms | .group ms | .unorderedGroup ms =>
    let parts ← ms.mapM fun part =>
      (if id.index < part.index ∧ part.index < g.size then g.describe part
        else throw (.endless id))
    return "(" ++ entry.element.separator.intercalate parts ++ ")"
termination_by g.size - id.index

/-- The description of an element, empty where there is none. -/
def describeD (g : Grammar) (id : ElementId) : String :=
  (g.describe id).toOption.getD ""

end Grammar

end ParseTree
