import ParseTree.Recognition.RuleTable
import ParseTree.Session.Operation

/-!
# Scripts

A script is a rule procedure written as data: a list of steps over registers that hold tokens,
elements and errors. A program is a list of scripts, which call each other by position.

## Main definitions

* `Step`, `Condition`: what a script does, what it branches on
* `Script`, `Program`: the scripts of a grammar
* `Program.table`: the entry rules of a program
* `EntryPoint`: where a run of a program starts
-/

namespace ParseTree

/-- A token, directly or by the register that holds it. -/
inductive TokenArgument where
  /-- The token in a register. -/
  | register (name : String)
  /-- The token itself. -/
  | token (t : Token)
deriving DecidableEq

/-- A semantic element, directly or by the register that holds it. -/
inductive ElementArgument where
  /-- The element in a register. -/
  | register (name : String)
  /-- The element itself. -/
  | element (id : SemanticId)
deriving DecidableEq

/-- A value for a feature. -/
inductive Operand where
  /-- The text of a token. -/
  | textOf (token : TokenArgument)
  /-- An element. -/
  | element (source : ElementArgument)
  /-- A truth value. -/
  | bool (value : Bool)
  /-- A fixed text. -/
  | text (value : String)
  /-- The text of the open composite. -/
  | currentText
deriving DecidableEq

/-- What a script branches on. -/
inductive Condition where
  /-- The token some steps away is of one of some kinds. -/
  | lookahead (steps : Int) (kinds : List TokenKind)
  /-- The member of an unordered group is still available. -/
  | canSelect (group : ElementId) (member : Nat)
  /-- Nothing that has to occur in an unordered group is missing. -/
  | canLeave (group : ElementId)
  /-- The element is there. -/
  | has (element : ElementArgument)
  /-- The condition does not hold. -/
  | not (c : Condition)
  /-- All conditions hold. -/
  | all (cs : List Condition)
  /-- One of the conditions holds. -/
  | any (cs : List Condition)

/-- A step of a script. Steps that need an empty register do nothing. -/
inductive Step where
  /-- Runs a command. -/
  | command (c : Command)
  /-- Looks at the kind of a token. -/
  | kindAt (steps : Int)
  /-- Looks at a token and maybe keeps it. -/
  | tokenAt (steps : Int) (into : Option String)
  /-- Takes the text of the open composite. -/
  | currentText
  /-- Matches the current token and keeps it. -/
  | matchToken (expected : TokenKind) (follow : TokenSet) (into : String)
  /-- Matches the current token and keeps it, or the error. -/
  | tryMatch (expected : TokenKind) (follow : TokenSet) (into failure : String)
  /-- Makes the leaf of a token. -/
  | newLeaf (token : TokenArgument) (element : ElementId)
  /-- Creates an element of a rule and keeps it. -/
  | create (site : BindingSite) (rule : ElementId) (into : String)
  /-- Creates an element of a rule, unless the register holds one already. -/
  | ensure (site : BindingSite) (rule : ElementId) (into : String)
  /-- Runs an action that takes up nothing and keeps its element. -/
  | createWrapper (action : ElementId) (into : String)
  /-- Runs an action that takes up an element and keeps its own element. The mode does not matter:
  the action says how it stores the element. -/
  | createWrapperWith (mode : AssignMode) (action : ElementId) (value : ElementArgument)
      (into : String)
  /-- Gives a value to a feature. -/
  | assign (source : ValueSource) (mode : AssignMode) (element : ElementArgument) (feature : String)
      (value : Operand) (rule : Option String)
  /-- Calls another script and maybe keeps its element. -/
  | call (script : Nat) (into : Option String)
  /-- Runs steps and recovers if they fail. -/
  | attempt (body : List Step)
  /-- Runs steps and afterwards others, whether the first ones fail or not. -/
  | ensuring (body cleanup : List Step)
  /-- Runs the first or the second steps. -/
  | branch (c : Condition) (yes no : List Step)
  /-- Runs steps as long as a condition holds. -/
  | loop (c : Condition) (body : List Step)
  /-- Makes a recognition error at the current token. -/
  | errorHere (fault : RecognitionFault) (into : String)
  /-- Makes the error of an unordered group that is left too early. -/
  | groupFailure (rule group : ElementId) (into : String)
  /-- Reports a kept error. -/
  | report (failure : String)
  /-- Recovers from a kept error. -/
  | recover (failure : String)
  /-- Fails with a kept error. -/
  | raise (failure : String)

/-- A rule procedure written as data. -/
structure Script where
  /-- The rule it is registered for, if it is. -/
  rule : Option String
  /-- The steps. -/
  body : List Step

/-- The scripts of a grammar. -/
structure Program where
  /-- The scripts by number. -/
  scripts : Array Script

namespace Program

/-- The names of the registered rules, each with the number of its script, in order. -/
def entries (p : Program) : List (String × Nat) :=
  p.scripts.toList.zipIdx.filterMap fun s => s.1.rule.map (·, s.2)

/-- The table of the registered rules; scripts are known by their numbers. -/
def table (p : Program) (g : Grammar) : Except ParseError (RuleTable Nat) :=
  RuleTable.ofList g p.entries

end Program

/-- Where a run of a program starts. -/
inductive EntryPoint where
  /-- At a registered rule. -/
  | rule (name : String)
  /-- At any script, for any grammar element. -/
  | script (element : ElementId) (index : Nat)
deriving DecidableEq

/-- The grammar element and the number of the script at which a run starts. -/
def EntryPoint.resolve (t : RuleTable Nat) : EntryPoint → Except ParseError (ElementId × Nat)
  | rule name =>
    match t.find? name with
    | some entry => .ok entry
    | none => .error (.unknownRule name)
  | script element index => .ok (element, index)

end ParseTree
