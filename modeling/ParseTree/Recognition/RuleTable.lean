import ParseTree.Grammar.Basic
import ParseTree.Recognition.Error

/-!
# Entry rules

The rules at which a parse can start, each with its procedure. A rule is found under its name, under
its name after `rule`, and under its name after `entryRule`.

## Main definitions

* `entryName`: the form in which rule names are compared
* `RuleTable`: the registered rules
* `RuleTable.register`, `RuleTable.find?`: one more rule, the rule of a name
-/

namespace ParseTree

/-- The form in which rule names are compared: `Model`, `ruleModel` and `entryRuleModel` all become
`entryRuleModel`. -/
def entryName (name : String) : String :=
  if "entryRule".toList.isPrefixOf name.toList then name
  else if "rule".toList.isPrefixOf name.toList then
    "entryR" ++ String.ofList (name.toList.drop 1)
  else "entryRule" ++ name

/-- The rules at which a parse can start, with procedures of a type. -/
structure RuleTable (π : Type) where
  /-- The rules by entry name, in the order of registration. -/
  entries : List (String × ElementId × π)

namespace RuleTable

variable {π : Type}

/-- No rule is registered. -/
def empty : RuleTable π :=
  ⟨[]⟩

/-- The element and the procedure of a rule, in any spelling of its name. -/
def find? (t : RuleTable π) (name : String) : Option (ElementId × π) :=
  t.entries.lookup (entryName name)

/-- The table with one more rule of a grammar. -/
def register (t : RuleTable π) (g : Grammar) (rule : String) (procedure : π) :
    Except ParseError (RuleTable π) :=
  match g.rule? rule with
  | none => .error (.unknownRule rule)
  | some id =>
    if (t.find? rule).isSome then .error (.duplicateRule (entryName rule))
    else .ok ⟨t.entries ++ [(entryName rule, id, procedure)]⟩

/-- The table of rules registered in order. -/
def ofList (g : Grammar) (rules : List (String × π)) : Except ParseError (RuleTable π) :=
  rules.foldlM (fun t r => t.register g r.1 r.2) empty

/-- The number of rules. -/
def size (t : RuleTable π) : Nat :=
  t.entries.length

/-- The entry name of the rule registered first. -/
def firstName? (t : RuleTable π) : Option String :=
  t.entries.head?.map (·.1)

/-- The table as inspection output writes it, with the entry names sorted. -/
def inspect (t : RuleTable π) : String :=
  Text.inspectRecord "RuleTable"
    [("entries", Text.inspectList ((t.entries.map (·.1)).mergeSort.map Text.quoted)),
     ("first", Text.inspectOption Text.quoted t.firstName?)]

end RuleTable

end ParseTree
