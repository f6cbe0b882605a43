import Mathlib.Data.List.Induction
import Mathlib.Data.List.Nodup
import ParseTree.Proofs.Model.Refused
import ParseTree.Session.Building

/-!
# Models after any calls

Elements and features are built by calls: one creates an element, one assigns a feature. A log notes
each call with its answer. It alone says what the model holds: the accepted calls number the
elements, order the features and make up the values, the refused ones leave no trace.

## Main definitions

* `AssignMode.update`: what a feature holds after an assignment, by what it held before
* `Registry.denote`: the value that a raw value denotes
* `Model.Call`, `Model.perform`: a call, with its answer and the model afterwards
* `Model.Created`, `Model.Stored`: what a call changes that is accepted, and what it leaves
* `Model.Outcome`: what a call answers and does, with a case for each way it can end
* `Model.Log`: the calls with their answers
* `Model.Log.Tells`: the log says what the model holds

## Main results

* `Model.outcome_perform`: each call has an outcome
* `Model.Log.tells_after`: the log says what the model holds, whatever was called
* `Model.model_after_calls`: both, for every next call after any calls
-/

namespace ParseTree

/-- What a feature holds after an assignment: the value alone, or a list of what was held before and
then the value. A list that was held goes on; a single value becomes the first of the list. -/
def AssignMode.update : AssignMode → Option Value → Value → Value
  | .set, _, v => v
  | .add, none, v => .list [v]
  | .add, some (.list vs), v => .list (vs ++ [v])
  | .add, some w, v => .list [w, v]

theorem AssignMode.update_add (held : Option Value) (v : Value) :
    add.update held v = .list (held.elim [] Value.items ++ [v]) := by
  cases held with
  | none => rfl
  | some w => cases w <;> rfl

namespace Value

/-- The value is a list. -/
def IsList (v : Value) : Prop :=
  ∃ vs, v = .list vs

/-- A list holds no list. -/
def IsFlat (v : Value) : Prop :=
  ∀ vs, v = .list vs → ∀ w ∈ vs, ¬ w.IsList

theorem isFlat_of_not_isList {v : Value} (h : ¬ v.IsList) : v.IsFlat :=
  fun vs hv => absurd ⟨vs, hv⟩ h

theorem not_isList_of_mem_items {v w : Value} (hv : v.IsFlat) (hw : w ∈ v.items) :
    ¬ w.IsList := by
  cases v with
  | list vs => exact hv vs rfl w hw
  | int | decimal | text | bool | element =>
    obtain rfl := List.mem_singleton.mp hw
    rintro ⟨vs, h⟩
    cases h

/-- Adding to a flat value gives a flat value. -/
theorem isFlat_update {mode : AssignMode} {held : Option Value} {v : Value} (hv : ¬ v.IsList)
    (hheld : ∀ w, held = some w → w.IsFlat) : (mode.update held v).IsFlat := by
  cases mode with
  | set => exact isFlat_of_not_isList hv
  | add =>
    rintro vs hvs w hw
    rw [AssignMode.update_add] at hvs
    obtain rfl := Value.list.inj hvs
    rcases List.mem_append.mp hw with hw | hw
    · cases held with
      | none => cases hw
      | some u => exact not_isList_of_mem_items (hheld u rfl) hw
    · rwa [List.mem_singleton.mp hw]

end Value

/-! ## The values of raw values -/

theorem Converter.not_isList_of_toValue {library : DecimalLibrary} {c : Converter} {text : String}
    {v : Value} (h : c.toValue library text = .ok v) : ¬ v.IsList := by
  rintro ⟨vs, rfl⟩
  cases c with
  | int =>
    rw [toValue] at h
    split at h
    · cases h
    · cases hn : readInt64? text.toList <;> rw [hn] at h <;> cases h
  | identifier =>
    rw [toValue] at h
    split at h <;> cases h
  | string =>
    rw [toValue] at h
    cases hd : StringLiteral.decode text.toList <;> rw [hd] at h <;> cases h
  | decimal =>
    rw [toValue] at h
    cases hd : readDecimal library text <;> rw [hd] at h <;> cases h
  | fraction =>
    rw [toValue] at h
    cases hd : readFraction library text <;> rw [hd] at h <;> cases h

/-- The value that a raw value denotes: texts of a rule are converted, all else is kept. -/
def Registry.denote (r : Registry) : RawValue → Option String → Except ConversionFault Value
  | .element id, _ => .ok (.element id)
  | .bool b, _ => .ok (.bool b)
  | .text s, none => .ok (.text s)
  | .text s, some rule => r.toValue rule s

theorem Registry.not_isList_of_denote {r : Registry} {value : RawValue} {rule : Option String}
    {v : Value} (h : r.denote value rule = .ok v) : ¬ v.IsList := by
  rintro ⟨vs, rfl⟩
  cases value with
  | element | bool => cases rule <;> cases h
  | text s =>
    cases rule with
    | none => cases h
    | some rule =>
      rw [denote, toValue] at h
      cases hf : r.find? rule with
      | none =>
        rw [hf] at h
        cases h
      | some c =>
        rw [hf] at h
        exact Converter.not_isList_of_toValue h ⟨vs, rfl⟩

namespace ModelElement

variable {e : ModelElement}

/-- The names of the features. -/
def names (e : ModelElement) : List String :=
  e.features.map (·.1)

/-- A feature keeps its place, a new one comes last. -/
theorem names_assign (e : ModelElement) (name : String) (v : Value) :
    (e.assign name v).names = if name ∈ e.names then e.names else e.names ++ [name] := by
  have hmap (fs : List (String × Value)) : (assignIn name v fs).map (·.1) =
      if name ∈ fs.map (·.1) then fs.map (·.1) else fs.map (·.1) ++ [name] := by
    induction fs with
    | nil => rfl
    | cons f fs ih =>
      by_cases hf : f.1 = name
      · simp [assignIn, hf]
      · have hne : ¬ name = f.1 := fun h => hf h.symm
        simp only [assignIn, beq_iff_eq, hf, ↓reduceIte, List.map_cons, List.mem_cons, hne,
          false_or, ih, List.cons_append]
        split <;> rfl
  exact hmap e.features

end ModelElement

namespace Model

variable {m m' : Model} {a : Assignment} {mode : AssignMode} {v : Value}

/-! ## Calls -/

/-- A call of an operation. -/
inductive Call where
  /-- Makes an element of a classifier. -/
  | create (classifier : String)
  /-- Assigns a feature with a value read from a node. -/
  | assign (mode : AssignMode) (a : Assignment) (view : NodeView)

/-- What is answered to a call: the new element, if it creates one, or a refusal. -/
abbrev Answer :=
  Except ConversionError (Option SemanticId)

/-- The answer to a call, and the model afterwards. -/
def perform (m : Model) : Call → Answer × Model
  | .create classifier => ((factory.create classifier m).1.map some, (factory.create classifier m).2)
  | .assign .set a view => ((factory.set a view m).1.map fun _ => none, (factory.set a view m).2)
  | .assign .add a view => ((factory.add a view m).1.map fun _ => none, (factory.add a view m).2)

/-- An assignment stores what the update of the held value gives. -/
theorem perform_assign (m : Model) (mode : AssignMode) (a : Assignment) (view : NodeView) :
    m.perform (.assign mode a view) = m.outcome none (m.store a
      (fun v e => e.assign a.feature (mode.update (e.feature? a.feature) v)) view.id) := by
  have hmap (result : Except ConversionError Model) :
      ((m.outcome () result).1.map fun _ => (none : Option SemanticId),
        (m.outcome () result).2) = m.outcome none result := by
    cases result <;> rfl
  cases mode with
  | set => exact hmap (m.set a view.id)
  | add =>
    simp only [AssignMode.update_add]
    exact hmap (m.add a view.id)

theorem convert_eq_denote (m : Model) (value : RawValue) (rule : Option String) (node : NodeId) :
    m.convert value rule node = (m.converters.denote value rule).mapError fun fault =>
      (ConversionError.recoverable fault.message).orNode node := by
  cases value <;> cases rule <;> rfl

/-! ## What a call does -/

/-- The model after an element was made: it has no features yet, all else is as before. -/
structure Created (m : Model) (classifier : String) (m' : Model) : Prop where
  /-- There is one element more. -/
  size : m'.size = m.size + 1
  /-- The converters stay. -/
  converters : m'.converters = m.converters
  /-- The element has the next handle. -/
  element : m'.element? ⟨m.size⟩ = some ⟨classifier, []⟩
  /-- Other elements stay. -/
  elements : ∀ id, id ≠ ⟨m.size⟩ → m'.element? id = m.element? id

/-- The model after a value was stored: the feature is updated, all else is as before. -/
structure Stored (m : Model) (mode : AssignMode) (a : Assignment) (v : Value) (m' : Model) :
    Prop where
  /-- There are no other elements. -/
  size : m'.size = m.size
  /-- The converters stay. -/
  converters : m'.converters = m.converters
  /-- Elements keep their classifiers. -/
  classifier : ∀ id, (m'.element? id).map (·.classifier) = (m.element? id).map (·.classifier)
  /-- The feature holds what it held, updated with the value. -/
  updated : m'.get? a.element a.feature = some (mode.update (m.get? a.element a.feature) v)
  /-- Other elements stay. -/
  elements : ∀ id, id ≠ a.element → m'.element? id = m.element? id
  /-- Other features stay. -/
  features : ∀ name, name ≠ a.feature → m'.get? a.element name = m.get? a.element name
  /-- The feature keeps its place, or comes last if it is new. -/
  names : ∀ e, m.element? a.element = some e → (m'.element? a.element).map (·.names) =
    some (if a.feature ∈ e.names then e.names else e.names ++ [a.feature])

/-- What a call answers and which model it leaves. -/
inductive Outcome (m : Model) : Call → Answer → Model → Prop where
  /-- The next handle goes to a new element. -/
  | created {classifier : String} {m' : Model} (named : classifier ≠ "") (room : m.size < capacity)
    (created : m.Created classifier m') :
    Outcome m (.create classifier) (.ok (some ⟨m.size⟩)) m'
  /-- There is no element without a classifier. -/
  | unnamed :
    Outcome m (.create "")
      (.error (.internal "cannot create an element without classifier")) m
  /-- There is no handle for a further element. -/
  | full {classifier : String} (named : classifier ≠ "") (room : capacity ≤ m.size) :
    Outcome m (.create classifier) (.error (.internal "too many semantic elements")) m
  /-- The value is stored. -/
  | stored {mode : AssignMode} {a : Assignment} {view : NodeView} {v : Value} {m' : Model}
    (denoted : m.converters.denote a.value a.rule = .ok v) (known : a.element.index < m.size)
    (stored : m.Stored mode a v m') :
    Outcome m (.assign mode a view) (.ok none) m'
  /-- The text denotes no value. -/
  | refused {mode : AssignMode} {a : Assignment} {view : NodeView} {fault : ConversionFault}
    (denoted : m.converters.denote a.value a.rule = .error fault) :
    Outcome m (.assign mode a view) (.error ⟨fault.message, some view.id, false⟩) m
  /-- There is no such element. -/
  | unknown {mode : AssignMode} {a : Assignment} {view : NodeView} {v : Value}
    (denoted : m.converters.denote a.value a.rule = .ok v) (unknown : m.size ≤ a.element.index) :
    Outcome m (.assign mode a view) (.error (.internal ("unknown element " ++ a.element.inspect))) m

theorem created_push (m : Model) (classifier : String) :
    m.Created classifier ⟨m.elements.push ⟨classifier, []⟩, m.converters⟩ where
  size := Array.size_push _
  converters := rfl
  element := Array.getElem?_push_size
  elements id hid := by
    rw [element?, element?, Array.getElem?_push, if_neg]
    intro h
    cases id
    exact hid (congrArg SemanticId.mk h)

theorem element?_setIfInBounds (m : Model) (id other : SemanticId) (e : ModelElement)
    (h : id.index < m.size) :
    element? ⟨m.elements.setIfInBounds id.index e, m.converters⟩ other =
      if other = id then some e else m.element? other := by
  have hlt : id.index < m.elements.size := h
  rw [element?, element?, Array.getElem?_setIfInBounds]
  by_cases ho : other = id
  · rw [ho, if_pos rfl, if_pos rfl, if_pos hlt]
  · have hi : id.index ≠ other.index := by
      intro hi
      cases id
      cases other
      exact ho (congrArg SemanticId.mk hi.symm)
    rw [if_neg hi, if_neg ho]

theorem stored_assign {e : ModelElement} (he : m.element? a.element = some e) :
    m.Stored mode a v
      ⟨m.elements.setIfInBounds a.element.index
        (e.assign a.feature (mode.update (e.feature? a.feature) v)), m.converters⟩ := by
  have hlt : a.element.index < m.size := (Array.getElem?_eq_some_iff.mp he).1
  have hel := element?_setIfInBounds m a.element (h := hlt)
  have hself := fun e' => (hel a.element e').trans (if_pos rfl)
  constructor
  case size => exact Array.size_setIfInBounds
  case converters => rfl
  case classifier =>
    intro id
    rw [hel]
    split
    · next h => rw [h, he]; rfl
    · rfl
  case updated =>
    rw [get?, hself, get?, he]
    exact ModelElement.feature?_assign_self _ _ _
  case elements =>
    intro id hid
    rw [hel, if_neg hid]
  case features =>
    intro name hname
    rw [get?, hself, get?, he]
    exact ModelElement.feature?_assign_of_ne hname _ _
  case names =>
    intro e' he'
    obtain rfl := Option.some.inj (he.symm.trans he')
    rw [hself, Option.map_some, ModelElement.names_assign]

/-- Each call has an outcome. -/
theorem outcome_perform (m : Model) (c : Call) : m.Outcome c (m.perform c).1 (m.perform c).2 := by
  cases c with
  | create classifier =>
    show m.Outcome _ ((m.outcome m.nextId (m.create classifier)).1.map some)
      (m.outcome m.nextId (m.create classifier)).2
    rw [create]
    by_cases hname : classifier = ""
    · rw [hname]
      exact .unnamed
    · have hempty : ¬ classifier.isEmpty := fun h => hname (String.isEmpty_iff.mp h)
      rw [if_neg hempty]
      by_cases hroom : m.size < capacity
      · rw [if_pos hroom]
        exact .created hname hroom (created_push m classifier)
      · rw [if_neg hroom]
        exact .full hname (Nat.le_of_not_lt hroom)
  | assign mode a view =>
    rw [perform_assign, store, convert_eq_denote]
    cases hd : m.converters.denote a.value a.rule with
    | error fault => exact .refused hd
    | ok v =>
      show m.Outcome _ (m.outcome none (m.update a.element _)).1
        (m.outcome none (m.update a.element _)).2
      rw [update]
      cases he : m.element? a.element with
      | none => exact .unknown hd (Array.getElem?_eq_none_iff.mp he)
      | some e => exact .stored hd (Array.getElem?_eq_some_iff.mp he).1 (stored_assign he)

/-- A refusal leaves the model as it was. -/
theorem eq_of_outcome_error {c : Call} {e : ConversionError} (h : m.Outcome c (.error e) m') :
    m' = m := by
  cases h <;> rfl

/-! ## Logs -/

/-- A model, and the calls that it was built by with their answers. -/
structure Log where
  /-- The model. -/
  model : Model
  /-- The calls with their answers. -/
  entries : List (Call × Answer)

namespace Log

variable {l : Log} {r : Registry}

/-- Nothing was called yet. -/
def start (r : Registry) : Log :=
  ⟨empty r, []⟩

/-- The log after one more call. -/
def enter (l : Log) (c : Call) : Log :=
  ⟨(l.model.perform c).2, l.entries ++ [(c, (l.model.perform c).1)]⟩

/-- The log after calls. -/
def after (r : Registry) (calls : List Call) : Log :=
  calls.foldl enter (start r)

/-- The new element of an entry, with its classifier. -/
def created? : Call × Answer → Option (SemanticId × String)
  | (.create classifier, .ok (some id)) => some (id, classifier)
  | _ => none

/-- The assignment of an entry to an element, if it was accepted. -/
def accepted? (id : SemanticId) : Call × Answer → Option (AssignMode × Assignment)
  | (.assign mode a _, .ok _) => if a.element = id then some (mode, a) else none
  | _ => none

/-- The elements that were created, with their classifiers. -/
def created (l : Log) : List (SemanticId × String) :=
  l.entries.filterMap created?

/-- The assignments to an element that were accepted. -/
def accepted (l : Log) (id : SemanticId) : List (AssignMode × Assignment) :=
  l.entries.filterMap (accepted? id)

/-- What a feature holds after one more assignment to its element. -/
def hold (r : Registry) (name : String) (held : Option Value) (p : AssignMode × Assignment) :
    Option Value :=
  if p.2.feature = name then
    match r.denote p.2.value p.2.rule with
    | .ok v => some (p.1.update held v)
    | .error _ => held
  else held

/-- What a feature of an element holds by the assignments that were accepted. -/
def held (l : Log) (id : SemanticId) (name : String) : Option Value :=
  (l.accepted id).foldl (hold l.model.converters name) none

/-- The log says what the model holds. -/
structure Tells (l : Log) (r : Registry) : Prop where
  /-- The converters are the registered ones. -/
  converters : l.model.converters = r
  /-- The handles of new elements are the numbers from zero on. -/
  handles : l.created.map (·.1) = (List.range l.model.size).map SemanticId.mk
  /-- Elements have the classifiers that they were created with. -/
  classifiers : l.created.map (some ·.2) =
    (List.range l.model.size).map fun i => (l.model.element? ⟨i⟩).map (·.classifier)
  /-- Only elements are assigned to. -/
  assigned : ∀ id, l.model.size ≤ id.index → l.accepted id = []
  /-- The features of an element have different names. -/
  distinct : ∀ id e, l.model.element? id = some e → e.names.Nodup
  /-- The features of an element stand in the order of their first assignment. -/
  names : ∀ id e, l.model.element? id = some e →
    e.names = ((l.accepted id).map (·.2.feature)).eraseDups
  /-- A feature holds what its assignments make up. -/
  values : ∀ id name, l.model.get? id name = l.held id name
  /-- No list holds a list. -/
  flat : ∀ id name v, l.model.get? id name = some v → v.IsFlat

theorem created_concat (l : Log) (m' : Model) (p : Call × Answer) :
    created ⟨m', l.entries ++ [p]⟩ = l.created ++ (created? p).toList := by
  rw [created, created, List.filterMap_append]
  cases h : created? p <;> simp [h]

theorem accepted_concat (l : Log) (m' : Model) (p : Call × Answer) (id : SemanticId) :
    accepted ⟨m', l.entries ++ [p]⟩ id = l.accepted id ++ (accepted? id p).toList := by
  rw [accepted, accepted, List.filterMap_append]
  cases h : accepted? id p <;> simp [h]

theorem tells_start (r : Registry) : (start r).Tells r where
  converters := rfl
  handles := rfl
  classifiers := rfl
  assigned _ _ := rfl
  distinct _ _ he := nomatch he
  names _ _ he := nomatch he
  values _ _ := rfl
  flat _ _ _ h := nomatch h

/-- A refused call leaves no trace. -/
theorem Tells.refuse (h : l.Tells r) (c : Call) (e : ConversionError) :
    Tells ⟨l.model, l.entries ++ [(c, .error e)]⟩ r := by
  have hcreated : created ⟨l.model, l.entries ++ [(c, .error e)]⟩ = l.created := by
    rw [created_concat]
    cases c <;> exact List.append_nil _
  have haccepted (id) : accepted ⟨l.model, l.entries ++ [(c, .error e)]⟩ id = l.accepted id := by
    rw [accepted_concat]
    cases c <;> exact List.append_nil _
  have hheld (id name) : held ⟨l.model, l.entries ++ [(c, .error e)]⟩ id name = l.held id name := by
    rw [held, held, haccepted]
  exact {
    converters := h.converters
    handles := hcreated ▸ h.handles
    classifiers := hcreated ▸ h.classifiers
    assigned := fun id hid => haccepted id ▸ h.assigned id hid
    distinct := h.distinct
    names := fun id e' he => haccepted id ▸ h.names id e' he
    values := fun id name => (h.values id name).trans (hheld id name).symm
    flat := h.flat }

theorem Tells.create (h : l.Tells r) {m' : Model} {classifier : String}
    (hc : l.model.Created classifier m') :
    Tells ⟨m', l.entries ++ [(.create classifier, .ok (some ⟨l.model.size⟩))]⟩ r := by
  have haccepted (id) : accepted ⟨m', l.entries ++
      [(.create classifier, .ok (some ⟨l.model.size⟩))]⟩ id = l.accepted id :=
    (accepted_concat ..).trans (List.append_nil _)
  have hnone : l.model.element? ⟨l.model.size⟩ = none := Array.getElem?_eq_none (Nat.le_refl _)
  have hget (id name) : m'.get? id name = l.model.get? id name := by
    rw [get?, get?]
    by_cases hid : id = ⟨l.model.size⟩
    · rw [hid, hc.element, hnone]
      rfl
    · rw [hc.elements id hid]
  constructor
  case converters => exact hc.converters.trans h.converters
  case handles =>
    rw [created_concat, hc.size, List.range_succ, List.map_append, List.map_append, h.handles]
    rfl
  case classifiers =>
    rw [created_concat, hc.size, List.range_succ, List.map_append, List.map_append, h.classifiers]
    congr 1
    · refine List.map_congr_left fun i hi => ?_
      rw [hc.elements]
      intro heq
      exact Nat.ne_of_lt (List.mem_range.mp hi) (congrArg SemanticId.index heq)
    · simp [created?, hc.element]
  case assigned =>
    intro id hid
    rw [hc.size] at hid
    rw [haccepted]
    exact h.assigned id (Nat.le_of_lt hid)
  case distinct =>
    intro id e he
    by_cases hid : id = ⟨l.model.size⟩
    · rw [hid, hc.element] at he
      obtain rfl := Option.some.inj he
      exact List.nodup_nil
    · rw [hc.elements id hid] at he
      exact h.distinct id e he
  case names =>
    intro id e he
    rw [haccepted]
    by_cases hid : id = ⟨l.model.size⟩
    · rw [hid, hc.element] at he
      obtain rfl := Option.some.inj he
      rw [hid, h.assigned ⟨l.model.size⟩ (Nat.le_refl l.model.size)]
      rfl
    · rw [hc.elements id hid] at he
      exact h.names id e he
  case values =>
    intro id name
    rw [hget, h.values, held, held, haccepted, hc.converters]
  case flat =>
    intro id name v hv
    rw [hget] at hv
    exact h.flat id name v hv

/-- A repeated name changes nothing, a new one comes last. -/
theorem eraseDups_concat (names : List String) (name : String) :
    (names ++ [name]).eraseDups =
      if name ∈ names.eraseDups then names.eraseDups else names.eraseDups ++ [name] := by
  rw [List.eraseDups_append]
  by_cases h : name ∈ names <;> simp [h, List.removeAll, List.eraseDups_cons]

theorem Tells.store (h : l.Tells r) {m' : Model} {mode : AssignMode} {a : Assignment}
    {view : NodeView} {v : Value} (hd : l.model.converters.denote a.value a.rule = .ok v)
    (hk : a.element.index < l.model.size) (hs : l.model.Stored mode a v m') :
    Tells ⟨m', l.entries ++ [(.assign mode a view, .ok none)]⟩ r := by
  obtain ⟨e₀, he₀⟩ : ∃ e, l.model.element? a.element = some e :=
    ⟨_, Array.getElem?_eq_getElem hk⟩
  have hself : accepted ⟨m', l.entries ++ [(.assign mode a view, .ok none)]⟩ a.element =
      l.accepted a.element ++ [(mode, a)] := by
    rw [accepted_concat, accepted?, if_pos rfl]
    rfl
  have hother {id} (hid : id ≠ a.element) :
      accepted ⟨m', l.entries ++ [(.assign mode a view, .ok none)]⟩ id = l.accepted id := by
    rw [accepted_concat, accepted?, if_neg hid.symm]
    exact List.append_nil _
  have hnames {e} (he : m'.element? a.element = some e) :
      e.names = if a.feature ∈ e₀.names then e₀.names else e₀.names ++ [a.feature] := by
    have hm := hs.names e₀ he₀
    rw [he] at hm
    exact Option.some.inj hm
  constructor
  case converters => exact hs.converters.trans h.converters
  case handles =>
    rw [created_concat, hs.size, ← h.handles]
    exact congrArg _ (List.append_nil _)
  case classifiers =>
    rw [created_concat, hs.size]
    simp only [hs.classifier, ← h.classifiers]
    exact congrArg _ (List.append_nil _)
  case assigned =>
    intro id hid
    rw [hs.size] at hid
    have hne : id ≠ a.element := by
      rintro rfl
      omega
    rw [hother hne, h.assigned id hid]
  case distinct =>
    intro id e he
    by_cases hid : id = a.element
    · rw [hid] at he
      rw [hnames he]
      split
      · exact h.distinct _ _ he₀
      · next hn => exact List.concat_eq_append ▸ (h.distinct _ _ he₀).concat hn
    · rw [hs.elements id hid] at he
      exact h.distinct id e he
  case names =>
    intro id e he
    by_cases hid : id = a.element
    · rw [hid] at he ⊢
      rw [hnames he, hself, List.map_append, List.map_singleton, eraseDups_concat,
        h.names _ _ he₀]
    · rw [hs.elements id hid] at he
      rw [hother hid, h.names id e he]
  case values =>
    intro id name
    by_cases hid : id = a.element
    · rw [hid, held, hself, List.foldl_concat, hs.converters, ← held, ← h.values, hold]
      by_cases hn : name = a.feature
      · rw [hn, if_pos rfl, hd, hs.updated]
      · rw [if_neg (Ne.symm hn), hs.features name hn]
    · rw [held, hother hid, hs.converters, ← held, ← h.values, get?, hs.elements id hid, get?]
  case flat =>
    intro id name w hw
    by_cases hid : id = a.element
    · by_cases hn : name = a.feature
      · rw [hid, hn, hs.updated] at hw
        obtain rfl := Option.some.inj hw
        exact Value.isFlat_update (Registry.not_isList_of_denote hd) (h.flat _ _)
      · rw [hid, hs.features name hn] at hw
        exact h.flat _ _ w hw
    · rw [get?, hs.elements id hid] at hw
      exact h.flat id name w hw

/-- What a call does is what its entry tells. -/
theorem Tells.extend (h : l.Tells r) {c : Call} {answer : Answer} {m' : Model}
    (ho : l.model.Outcome c answer m') : Tells ⟨m', l.entries ++ [(c, answer)]⟩ r := by
  cases ho with
  | created named room created => exact h.create created
  | stored denoted known stored => exact h.store denoted known stored
  | unnamed | full | refused | unknown => exact h.refuse _ _

/-- The log says what the model holds, whatever was called. -/
theorem tells_after (r : Registry) (calls : List Call) : (after r calls).Tells r := by
  induction calls using List.reverseRecOn with
  | nil => exact tells_start r
  | append_singleton calls c ih =>
    rw [after, List.foldl_concat]
    exact ih.extend (outcome_perform _ c)

end Log

/-- After any calls the log says what the model holds: the handles count up from zero, the features
of an element have different names in the order of their first assignment, each holds what its
assignments make up, and no list holds a list. A next call creates an element, stores a value or is
refused, in the one way that its outcome states; when it is refused the model stays as it was. -/
theorem model_after_calls (r : Registry) (calls : List Call) :
    (Log.after r calls).Tells r ∧
      ∀ c, (Log.after r calls).model.Outcome c ((Log.after r calls).model.perform c).1
          ((Log.after r calls).model.perform c).2 ∧
        ∀ e, ((Log.after r calls).model.perform c).1 = .error e →
          ((Log.after r calls).model.perform c).2 = (Log.after r calls).model := by
  refine ⟨Log.tells_after r calls, fun c => ⟨outcome_perform _ c, fun e he => ?_⟩⟩
  have ho := outcome_perform (Log.after r calls).model c
  rw [he] at ho
  exact eq_of_outcome_error ho

/-- A value that was assigned is the first of many once others are added. -/
example (library : DecimalLibrary) (view : NodeView) : (Log.after (.empty library) [.create "Pair",
    .assign .set ⟨⟨0⟩, "left", .bool true, none⟩ view,
    .assign .add ⟨⟨0⟩, "left", .bool false, none⟩ view]).model.get? ⟨0⟩ "left" =
      some (.list [.bool true, .bool false]) := by
  rfl

end Model

end ParseTree
