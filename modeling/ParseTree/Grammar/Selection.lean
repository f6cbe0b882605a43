import ParseTree.Grammar.Basic
import ParseTree.Token.Set

/-!
# Selections from unordered groups

While an unordered group is recognized, an activation of it remembers which members were selected.
Activations of one group nest; only the innermost one counts. The members of an activation are the
bits of 64-bit words, of which there are as many as the largest selected member needs.

## Main definitions

* `MemberSet`: sets of members
* `Selections`: the activations of the unordered groups of a grammar
* `Selections.enter`, `leave`, `select`: the changes of state
* `Selections.canSelect`, `canLeave`: what is still allowed
-/

namespace ParseTree

/-- A set of members of a group, which are known by their position. -/
structure MemberSet where
  /-- The bits of the members: position `64 * i + b` is bit `b` of word `i`. -/
  words : List (BitVec 64)
deriving DecidableEq, Repr

namespace MemberSet

instance : EmptyCollection MemberSet := ⟨⟨[]⟩⟩

/-- The set and one more member. -/
def insert (s : MemberSet) (member : Nat) : MemberSet :=
  ⟨(TokenSet.padded s.words (member / 64 + 1)).modify (member / 64)
    (· ||| BitVec.twoPow 64 (member % 64))⟩

/-- The set has the member. -/
def contains (s : MemberSet) (member : Nat) : Bool :=
  (s.words[member / 64]?).any fun w => w.getLsbD (member % 64)

/-- The set of the listed members. -/
def ofList (members : List Nat) : MemberSet :=
  members.foldl insert ∅

end MemberSet

/-- An unordered group and its activations. -/
structure GroupState where
  /-- The group. -/
  group : ElementId
  /-- The number of members. -/
  size : Nat
  /-- The members that must occur. -/
  mandatory : MemberSet
  /-- The members selected in each activation, the innermost activation first. -/
  activations : List MemberSet
deriving DecidableEq, Repr

/-- The activations of all unordered groups of a grammar. -/
structure Selections where
  /-- The groups in grammar order. -/
  groups : List GroupState
deriving DecidableEq, Repr

namespace Selections

/-- An unordered group before its first activation. -/
def initialState (g : Grammar) (id : ElementId) : Option GroupState :=
  match g.element? id with
  | some (.unorderedGroup ms) =>
    some
      { group := id
        size := ms.length
        mandatory := .ofList ((ms.zipIdx.filter fun m => !g.isOptional m.1).map (·.2))
        activations := [] }
  | _ => none

/-- No group of the grammar is active. -/
def ofGrammar (g : Grammar) : Selections :=
  ⟨g.ids.filterMap (initialState g)⟩

/-- The state of a group. -/
def find? (s : Selections) (group : ElementId) : Option GroupState :=
  s.groups.find? (·.group == group)

/-- The activations of a group, the innermost first. -/
def activations (s : Selections) (group : ElementId) : List MemberSet :=
  (s.find? group).elim [] (·.activations)

/-- The state after a change of the activations of one group. -/
def update (s : Selections) (group : ElementId) (f : List MemberSet → List MemberSet) :
    Selections :=
  ⟨s.groups.map fun st =>
    if st.group == group then { st with activations := f st.activations } else st⟩

/-- A new activation of a group starts. -/
def enter (s : Selections) (group : ElementId) : Selections :=
  s.update group (∅ :: ·)

/-- The innermost activation of a group ends. -/
def leave (s : Selections) (group : ElementId) : Selections :=
  s.update group List.tail

/-- A member is selected in the innermost activation. -/
def select (s : Selections) (group : ElementId) (member : Nat) : Selections :=
  s.update group fun
    | [] => []
    | selected :: outer => selected.insert member :: outer

/-- The member is one of an active group and was not selected in the innermost activation. -/
def canSelect (s : Selections) (group : ElementId) (member : Nat) : Bool :=
  (s.find? group).any fun st =>
    decide (member < st.size) && st.activations.head?.any fun selected => !selected.contains member

/-- The innermost activation, if there is one, has selected every member that must occur. -/
def canLeave (s : Selections) (group : ElementId) : Bool :=
  (s.find? group).all fun st =>
    st.activations.head?.all fun selected =>
      (List.range st.size).all fun member =>
        !st.mandatory.contains member || selected.contains member

theorem find?_update (s : Selections) (group other : ElementId)
    (f : List MemberSet → List MemberSet) :
    (s.update group f).find? other =
      (s.find? other).map fun st =>
        if st.group == group then { st with activations := f st.activations } else st := by
  simp only [find?, update, List.find?_map]
  congr 2
  funext st
  simp only [Function.comp]
  split <;> rfl

end Selections

end ParseTree
