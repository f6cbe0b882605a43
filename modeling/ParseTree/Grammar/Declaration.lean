import ParseTree.Grammar.Basic

/-!
# Declaring a grammar

A grammar is declared element by element, containers before their parts. An element takes its place
in the sequence before its container is looked up.

## Main definitions

* `Declaration`: one step of a declaration
* `Element.adopt?`: an element with one more part
* `Grammar.declare`, `Grammar.ofDeclarations`: the grammar after one step, after all steps

## Main results

* `size_attach`: a part is one element more
-/

namespace ParseTree

/-- A step in the declaration of a grammar. -/
inductive Declaration where
  /-- A rule. -/
  | rule (name : String) (kind : RuleKind) (classifier : Option String)
  /-- An element inside another one. -/
  | part (container : ElementId) (element : Element)
  /-- How often an element may occur. -/
  | cardinality (id : ElementId) (cardinality : Cardinality)
deriving DecidableEq, Repr

/-- Why a declaration is refused. -/
inductive DeclarationFault where
  /-- No element has the identifier. -/
  | unknownElement (id : ElementId)
  /-- The container has its only part already. -/
  | occupied (container : ElementId)
  /-- Elements of this kind have no parts. -/
  | noParts (kindName : String)
deriving DecidableEq, Repr

/-- The wording of a refusal; unknown identifiers have none. -/
def DeclarationFault.message : DeclarationFault → String
  | unknownElement _ => ""
  | occupied container => "grammar element " ++ container.inspect ++ " already has a child"
  | noParts kindName => "a " ++ kindName ++ " cannot contain grammar elements"

/-- The element at position `self` with one more part. -/
def Element.adopt? (self part : ElementId) : Element → Except DeclarationFault Element
  | rule name kind classifier none => .ok (rule name kind classifier (some part))
  | assignment feature operator none => .ok (assignment feature operator (some part))
  | crossReference classifier none => .ok (crossReference classifier (some part))
  | rule _ _ _ (some _) | assignment _ _ (some _) | crossReference _ (some _) =>
    .error (.occupied self)
  | alternatives ms => .ok (alternatives (ms ++ [part]))
  | group ms => .ok (group (ms ++ [part]))
  | unorderedGroup ms => .ok (unorderedGroup (ms ++ [part]))
  | e => .error (.noParts e.kindName)

namespace Grammar

/-- The grammar without elements. -/
def empty (name : String) : Grammar :=
  ⟨name, #[]⟩

/-- The grammar with one more element, which nothing refers to yet. -/
def append (g : Grammar) (element : Element) (container : Option ElementId) : Grammar :=
  { g with entries := g.entries.push ⟨element, container, .one⟩ }

/-- The identifier of the element declared next. -/
def nextId (g : Grammar) : ElementId :=
  ⟨g.size⟩

/-- The grammar in which the container has one more part. -/
def attach (g : Grammar) (container part : ElementId) : Except DeclarationFault Grammar :=
  match g.entry? container with
  | none => .error (.unknownElement container)
  | some entry =>
    (entry.element.adopt? container part).map fun element =>
      { g with entries := g.entries.setIfInBounds container.index { entry with element } }

/-- The grammar after a step. -/
def declare (g : Grammar) : Declaration → Except DeclarationFault Grammar
  | .rule name kind classifier => .ok (g.append (.rule name kind classifier none) none)
  | .part container element => (g.append element (some container)).attach container g.nextId
  | .cardinality id cardinality =>
    match g.entry? id with
    | none => .error (.unknownElement id)
    | some entry =>
      .ok { g with entries := g.entries.setIfInBounds id.index { entry with cardinality } }

/-- The grammar after all steps. -/
def ofDeclarations (name : String) (steps : List Declaration) : Except DeclarationFault Grammar :=
  steps.foldlM declare (empty name)

@[simp] theorem size_append (g : Grammar) (element : Element) (container : Option ElementId) :
    (g.append element container).size = g.size + 1 := by
  simp [append, size]

theorem size_attach {g g' : Grammar} {container part : ElementId}
    (h : g.attach container part = .ok g') : g'.size = g.size := by
  unfold attach at h
  split at h
  · cases h
  · next entry _ =>
    cases hp : Element.adopt? container part entry.element with
    | error => rw [hp] at h; cases h
    | ok e => rw [hp] at h; cases h; simp [size]

end Grammar

end ParseTree
