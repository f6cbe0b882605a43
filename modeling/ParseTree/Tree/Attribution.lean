import ParseTree.Tree.Edit

/-!
# Attributing lookahead

When a rule is entered, the tokens that were looked at to get there are handed to the composite of
the rule. A token that has a leaf is attached to the composite at once; otherwise the composite
waits until the leaf is made.

## Main definitions

* `Attribution`: the leaf of each token and the composites that wait for one
* `Attribution.claim`: a composite is handed a token
* `Attribution.resolve`: the leaf of a token is made
* `Attribution.transfer`: one composite takes the place of another

## Main results

* `leafOf?_transfer`: the leaves of tokens stay when composites change places
-/

namespace ParseTree

/-- The leaves made so far and the composites that wait for others. -/
structure Attribution where
  /-- The leaf of each token of the stream. -/
  leaves : Array (Option NodeId)
  /-- The composites that wait for the leaf of a token, by token. -/
  deferred : List (Nat × List NodeId)
deriving DecidableEq, Repr

namespace Attribution

/-- No token of a stream of the given size has a leaf, and nothing waits. -/
def start (size : Nat) : Attribution :=
  ⟨Array.replicate size none, []⟩

/-- The leaf of a token. -/
def leafOf? (a : Attribution) (token : Nat) : Option NodeId :=
  (a.leaves[token]?).join

/-- The composites that wait for the leaf of a token. -/
def waiting (a : Attribution) (token : Nat) : List NodeId :=
  (a.deferred.lookup token).getD []

/-- The list with an item, unless it is there already. -/
def adjoin (id : NodeId) (ids : List NodeId) : List NodeId :=
  if id ∈ ids then ids else ids ++ [id]

/-- A composite waits for the leaf of a token. -/
def defer (a : Attribution) (token : Nat) (composite : NodeId) : Attribution :=
  if (a.deferred.lookup token).isSome then
    { a with deferred := a.deferred.map fun entry =>
        if entry.1 == token then (entry.1, adjoin composite entry.2) else entry }
  else { a with deferred := a.deferred ++ [(token, [composite])] }

/-- A composite is handed a token that was looked at. -/
def claim (composite : NodeId) (s : Attribution × Tree) (token : Nat) : Attribution × Tree :=
  match s.1.leafOf? token with
  | some leaf => (s.1, s.2.addLookaheadLeaf composite leaf)
  | none => (s.1.defer token composite, s.2)

/-- A composite is handed the tokens that were looked at, in order. -/
def claimAll (a : Attribution) (t : Tree) (composite : NodeId) (tokens : List Token) :
    Attribution × Tree :=
  (tokens.filterMap (·.index)).foldl (claim composite) (a, t)

/-- The leaf of a token is made: it belongs to all composites that wait for it. -/
def resolve (a : Attribution) (t : Tree) (token : Nat) (leaf : NodeId) : Attribution × Tree :=
  (⟨a.leaves.setIfInBounds token (some leaf), a.deferred.filter (·.1 != token)⟩,
    (a.waiting token).foldl (fun t composite => t.addLookaheadLeaf composite leaf) t)

/-- The waiting list of a token after one composite took the place of another. -/
def replace (source target : NodeId) (ids : List NodeId) : List NodeId :=
  let rest := ids.filter (· != source)
  if source ∈ ids then adjoin target rest else rest

/-- One composite takes the place of another, for resolved and for deferred tokens. -/
def transfer (a : Attribution) (t : Tree) (source target : NodeId) : Attribution × Tree :=
  ({ a with deferred := a.deferred.map fun entry => (entry.1, replace source target entry.2) },
    t.moveLookaheadLeaves source target)

/-- The number of tokens that composites still wait for. -/
def unresolved (a : Attribution) : Nat :=
  a.deferred.length

@[simp] theorem leafOf?_defer (a : Attribution) (token other : Nat) (composite : NodeId) :
    (a.defer token composite).leafOf? other = a.leafOf? other := by
  unfold defer; split <;> rfl

@[simp] theorem leafOf?_transfer (a : Attribution) (t : Tree) (source target : NodeId)
    (token : Nat) : (a.transfer t source target).1.leafOf? token = a.leafOf? token := rfl

end Attribution

end ParseTree
