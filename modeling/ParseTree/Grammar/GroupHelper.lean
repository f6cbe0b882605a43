import ParseTree.Grammar.Selection

/-!
# Helpers for unordered groups

A parse keeps track of its unordered groups through a helper, which may be replaced.

## Main definitions

* `GroupHelper`: the operations on states of a type
* `GroupHelper.standard`: the helper that remembers selections
* `GroupHelper.constant`: the helper that always gives the same answers
-/

namespace ParseTree

/-- The bookkeeping of unordered groups, with states of a type. -/
structure GroupHelper (γ : Type) where
  /-- A new activation of a group starts. -/
  enter : ElementId → γ → γ
  /-- The innermost activation of a group ends. -/
  leave : ElementId → γ → γ
  /-- A member of a group is selected. -/
  select : ElementId → Nat → γ → γ
  /-- The selected member of a group was recognized. -/
  returnFrom : ElementId → γ → γ
  /-- The member of a group is still available. -/
  canSelect : ElementId → Nat → γ → Bool
  /-- Nothing that has to occur in the group is missing. -/
  canLeave : ElementId → γ → Bool

namespace GroupHelper

/-- The helper that remembers the selections in each activation. -/
def standard : GroupHelper Selections where
  enter group s := s.enter group
  leave group s := s.leave group
  select group member s := s.select group member
  returnFrom _ s := s
  canSelect group member s := s.canSelect group member
  canLeave group s := s.canLeave group

/-- The helper that remembers nothing and always gives the same two answers. -/
def constant (canSelect canLeave : Bool) : GroupHelper Unit where
  enter _ s := s
  leave _ s := s
  select _ _ s := s
  returnFrom _ s := s
  canSelect _ _ _ := canSelect
  canLeave _ _ := canLeave

end GroupHelper

end ParseTree
