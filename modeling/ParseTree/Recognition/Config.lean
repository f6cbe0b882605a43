import ParseTree.Token.Basic

/-!
# Settings of a recognizer

## Main definitions

* `Config`: token names and the switches of a parse
* `Config.install`: more token names
* `Config.tokenName`, `Config.lexerRule?`: the readable name of a kind, the rule that makes it
-/

namespace ParseTree

/-- Settings that all parses of a recognizer share. -/
structure Config where
  /-- Readable names of token kinds, the newest first. -/
  names : List (TokenKind × String)
  /-- Lexical rules of token kinds, the newest first. -/
  lexerRules : List (TokenKind × String)
  /-- Composites with a composite as only child are merged with it. -/
  compressNodes : Bool
  /-- Finished trees are checked. -/
  checkInvariants : Bool
deriving DecidableEq, Repr

namespace Config

/-- No names, all switches on. -/
def standard : Config :=
  ⟨[], [], true, true⟩

/-- The mark of a token name that denotes a lexical rule. -/
def ruleMark : List Char :=
  "RULE_".toList

/-- The lexical rule that a token name denotes. -/
def ruleOfName? (name : String) : Option String :=
  if ruleMark.isPrefixOf name.toList then some (String.ofList (name.toList.drop ruleMark.length))
  else none

/-- The settings with a name for a kind. A name that denotes a lexical rule sets that rule too. -/
def install (c : Config) (kind : TokenKind) (name : String) : Config :=
  { c with
    names := (kind, name) :: c.names
    lexerRules := match ruleOfName? name with
      | some rule => (kind, rule) :: c.lexerRules
      | none => c.lexerRules }

/-- The settings with names for kinds. -/
def installAll (c : Config) (names : List (TokenKind × String)) : Config :=
  names.foldl (fun c n => c.install n.1 n.2) c

/-- The readable name of a kind. -/
def tokenName (c : Config) (kind : TokenKind) : String :=
  (c.names.lookup kind).getD kind.inspect

/-- The lexical rule that makes tokens of a kind. -/
def lexerRule? (c : Config) (kind : TokenKind) : Option String :=
  c.lexerRules.lookup kind

end Config

end ParseTree
