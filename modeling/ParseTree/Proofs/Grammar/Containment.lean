import Mathlib.Data.List.Induction
import ParseTree.Grammar.Declaration

/-!
# Containers and parts

Elements are linked twice: an element knows its container, and the container lists it among its
parts. Whatever is declared, the two links agree, parts are listed in the order of their declaration
and no container comes after its part. An element may be its own container, but not if containers
are declared first.

## Main definitions

* `Grammar.container?`, `Grammar.parts`, `Grammar.isRule`: the links of an element
* `Declaration.Fresh`: a declared part comes without parts of its own
* `Declaration.answers`, `Declaration.TopDown`: containers are declared before their parts
* `Grammar.Linked`: the links agree and are ordered

## Main results

* `linked_ofDeclarations`: the links of a declared grammar agree
* `topDown_iff`: containers are declared first exactly if they come first
-/

namespace ParseTree

theorem ElementId.index_inj {c p : ElementId} : c.index = p.index ↔ c = p := by
  rw [ElementId.mk.injEq]

/-! ### Links -/

namespace Grammar

/-- The element that an element lies in. -/
def container? (g : Grammar) (id : ElementId) : Option ElementId :=
  (g.entry? id).bind (·.container)

/-- The elements directly inside an element, in order: its body, its terminal or its members. -/
def parts (g : Grammar) (id : ElementId) : List ElementId :=
  (g.element? id).elim [] Element.children

/-- The element is a rule. -/
def isRule (g : Grammar) (id : ElementId) : Bool :=
  (g.element? id).any Element.isRule

variable {g g' : Grammar} {c id p : ElementId} {element : Element} {container : Option ElementId}
  {entry : Entry}

theorem entry?_eq_none_iff : g.entry? id = none ↔ g.size ≤ id.index :=
  Array.getElem?_eq_none_iff

theorem lt_size_of_entry (h : g.entry? id = some entry) : id.index < g.size :=
  (Array.getElem?_eq_some_iff.mp h).1

theorem exists_entry (h : id.index < g.size) : ∃ entry, g.entry? id = some entry :=
  ⟨_, Array.getElem?_eq_getElem h⟩

theorem entry?_nextId : g.entry? g.nextId = none :=
  entry?_eq_none_iff.mpr (Nat.le_refl _)

theorem container?_nextId : g.container? g.nextId = none := by
  rw [container?, entry?_nextId]
  rfl

theorem parts_nextId : g.parts g.nextId = [] := by
  rw [parts, element?, entry?_nextId]
  rfl

theorem lt_size_of_container? (h : g.container? c = some p) : c.index < g.size := by
  obtain ⟨entry, hentry, -⟩ := Option.bind_eq_some_iff.mp h
  exact lt_size_of_entry hentry

/-! ### One more element -/

/-- A grammar has one more element, which is the last part of its container if it has one. -/
structure Grows (g : Grammar) (element : Element) (container : Option ElementId) (g' : Grammar) :
    Prop where
  /-- It has one more element. -/
  size : g'.size = g.size + 1
  /-- The new element has the container, the others have theirs. -/
  container? : ∀ id, g'.container? id = if id = g.nextId then container else g.container? id
  /-- The container has the new element after its other parts. -/
  parts : ∀ id, g'.parts id = (if id = g.nextId then element.children else g.parts id) ++
    if container = some id then [g.nextId] else []
  /-- The new element is a rule or not, and so are the others. -/
  isRule : ∀ id, g'.isRule id = if id = g.nextId then element.isRule else g.isRule id
  /-- The container is there. -/
  le : ∀ p, container = some p → p.index ≤ g.size

/-- The links of two grammars are the same. -/
structure SameLinks (g g' : Grammar) : Prop where
  /-- There are as many elements. -/
  size : g'.size = g.size
  /-- Elements have the same containers. -/
  container? : ∀ id, g'.container? id = g.container? id
  /-- Elements have the same parts. -/
  parts : ∀ id, g'.parts id = g.parts id
  /-- The same elements are rules. -/
  isRule : ∀ id, g'.isRule id = g.isRule id

theorem entry?_append (id : ElementId) :
    Grammar.entry? (g.append element container) id =
      if id = g.nextId then some ⟨element, container, .one⟩ else g.entry? id := by
  rw [ entry?, append, Array.getElem?_push]
  exact if_congr (ElementId.index_inj (p := g.nextId)) rfl rfl

/-- The entries after one of them was replaced. -/
theorem entry?_setIfInBounds (h : p.index < g.size) (id : ElementId) :
    Grammar.entry? { g with entries := g.entries.setIfInBounds p.index entry } id =
      if id = p then some entry else g.entry? id := by
  rw [ entry?, Array.getElem?_setIfInBounds, if_pos (show p.index < g.entries.size from h)]
  exact if_congr (eq_comm.trans ElementId.index_inj) rfl rfl

end Grammar

/-- A part is taken up after the other parts, and nothing else changes. -/
theorem Element.children_of_adopt? {self part : ElementId} {e e' : Element}
    (h : e.adopt? self part = .ok e') :
    e'.children = e.children ++ [part] ∧ e'.isRule = e.isRule := by
  unfold adopt? at h
  split at h <;> cases h <;> exact ⟨rfl, rfl⟩

namespace Grammar

variable {g g' : Grammar} {c id p : ElementId} {element : Element} {container : Option ElementId}
  {entry : Entry}

/-- Of an element that is attached to a container only the container takes notice. -/
theorem exists_of_attach (h : g.attach p c = .ok g') :
    ∃ entry e, g.entry? p = some entry ∧ entry.element.adopt? p c = .ok e ∧
      ∀ id, g'.entry? id = if id = p then some { entry with element := e } else g.entry? id := by
  unfold attach at h
  split at h
  · cases h
  · next entry hentry =>
    cases he : entry.element.adopt? p c with
    | error => rw [he] at h; cases h
    | ok e =>
      rw [he] at h
      cases h
      exact ⟨entry, e, hentry, he, entry?_setIfInBounds (lt_size_of_entry hentry)⟩

/-- Of an attached part only the container takes notice. -/
theorem links_attach (h : g.attach p c = .ok g') (id : ElementId) :
    g'.container? id = g.container? id ∧ g'.isRule id = g.isRule id ∧
      g'.parts id = g.parts id ++ if some p = some id then [c] else [] := by
  obtain ⟨entry, e, hentry, he, hg'⟩ := exists_of_attach h
  obtain ⟨hchildren, hrule⟩ := Element.children_of_adopt? he
  simp only [container?, isRule, parts, element?, hg']
  by_cases hid : id = p
  · subst hid
    rw [if_pos rfl, if_pos rfl, hentry]
    exact ⟨rfl, hrule, hchildren⟩
  · rw [if_neg hid, if_neg fun hp => hid (Option.some.inj hp).symm, List.append_nil]
    exact ⟨rfl, rfl, rfl⟩

theorem container?_append (id : ElementId) : (g.append element container).container? id =
    if id = g.nextId then container else g.container? id := by
  rw [container?, entry?_append]
  split <;> rfl

theorem isRule_append (id : ElementId) : (g.append element container).isRule id =
    if id = g.nextId then element.isRule else g.isRule id := by
  rw [isRule, element?, entry?_append]
  split <;> rfl

theorem parts_append (id : ElementId) : (g.append element container).parts id =
    if id = g.nextId then element.children else g.parts id := by
  rw [parts, element?, entry?_append]
  split <;> rfl

theorem grows_rule (name : String) (kind : RuleKind) (classifier : Option String) :
    g.Grows (.rule name kind classifier none) none
      (g.append (.rule name kind classifier none) none) where
  size := size_append g _ none
  container? := container?_append
  parts id := (parts_append id).trans (List.append_nil _).symm
  isRule := isRule_append
  le _ h := absurd h (Option.some_ne_none _).symm

theorem grows_part (h : g.declare (.part p element) = .ok g') : g.Grows element (some p) g' where
  size := by rw [size_attach h, size_append]
  container? id := (links_attach h id).1.trans (container?_append id)
  parts id := by rw [(links_attach h id).2.2, parts_append]
  isRule id := (links_attach h id).2.1.trans (isRule_append id)
  le q hq := by
    cases hq
    obtain ⟨entry, -, hentry, -⟩ := exists_of_attach h
    have hlt := lt_size_of_entry hentry
    rw [size_append] at hlt
    exact Nat.le_of_lt_succ hlt

theorem sameLinks_cardinality {cardinality : Cardinality}
    (h : g.declare (.cardinality id cardinality) = .ok g') :
    g.SameLinks g' ∧ id.index < g.size := by
  simp only [declare] at h
  split at h
  · cases h
  · next entry hentry =>
    cases h
    have hid := lt_size_of_entry hentry
    have hentries : ∀ x, _ = if x = id then some { entry with cardinality } else g.entry? x :=
      entry?_setIfInBounds hid
    refine ⟨⟨by simp [size], fun x => ?_, fun x => ?_, fun x => ?_⟩, hid⟩
    all_goals
      simp only [container?, parts, isRule, element?, hentries]
      split
      · next hx => rw [hx, hentry]; rfl
      · rfl

/-! ### Links after all declarations -/

/-- The links agree and are ordered: parts are listed in the order of their declaration, no
container comes after its part, and only rules have none. -/
structure Linked (g : Grammar) : Prop where
  /-- An element has a container if and only if the container has it as a part. -/
  container_iff : ∀ c p, g.container? c = some p ↔ c ∈ g.parts p
  /-- Parts are listed in the order of their declaration, each of them once. -/
  ascending : ∀ p, (g.parts p).Pairwise (·.index < ·.index)
  /-- No container comes after its part. -/
  le : ∀ c p, g.container? c = some p → p.index ≤ c.index
  /-- The elements without container are the rules. -/
  root_iff : ∀ e, e.index < g.size → (g.container? e = none ↔ g.isRule e = true)

theorem linked_empty (name : String) : (empty name).Linked where
  container_iff _ _ := iff_of_false nofun (List.not_mem_nil)
  ascending _ := List.Pairwise.nil
  le _ _ h := nomatch h
  root_iff _ h := absurd h (Nat.not_lt_zero _)

theorem Linked.lt_size_of_mem_parts (hg : g.Linked) (h : c ∈ g.parts p) : c.index < g.size :=
  lt_size_of_container? ((hg.container_iff c p).mpr h)

/-- Links survive an element that comes without parts, if it has a container or is a rule. -/
theorem Linked.grows (hg : g.Linked) (h : g.Grows element container g')
    (hparts : element.children = []) (hrule : container = none ↔ element.isRule = true) :
    g'.Linked := by
  have hparts' : ∀ id, g'.parts id =
      g.parts id ++ if container = some id then [g.nextId] else [] := by
    intro id
    rw [h.parts]
    split
    · next hid => rw [hid, hparts, parts_nextId]
    · rfl
  have hnew : ∀ p, g.nextId ∉ g.parts p := fun p hp => Nat.lt_irrefl _ (hg.lt_size_of_mem_parts hp)
  refine ⟨fun c p => ?_, fun p => ?_, fun c p hc => ?_, fun e he => ?_⟩
  · rw [h.container?, hparts', List.mem_append]
    split
    · next hc =>
      rw [hc, or_iff_right (hnew p)]
      split <;> simp_all
    · next hc =>
      rw [hg.container_iff, or_iff_left]
      split <;> simp [hc]
  · rw [hparts', List.pairwise_append]
    refine ⟨hg.ascending p, by split <;> simp, fun a ha b hb => ?_⟩
    split at hb
    · rw [List.mem_singleton.mp hb]
      exact hg.lt_size_of_mem_parts ha
    · cases hb
  · rw [h.container?] at hc
    split at hc
    · next hid => exact hid ▸ h.le p hc
    · exact hg.le c p hc
  · rw [h.size] at he
    rw [h.container?, h.isRule]
    split
    · exact hrule
    · next hid =>
      refine hg.root_iff e (Nat.lt_of_le_of_ne (Nat.le_of_lt_succ he) fun heq => hid ?_)
      exact ElementId.index_inj.mp heq

theorem Linked.sameLinks (hg : g.Linked) (h : g.SameLinks g') : g'.Linked where
  container_iff c p := by rw [h.container?, h.parts, hg.container_iff]
  ascending p := by rw [h.parts]; exact hg.ascending p
  le c p := by rw [h.container?]; exact hg.le c p
  root_iff e := by rw [h.size, h.container?, h.isRule]; exact hg.root_iff e

end Grammar

/-- A declared part is no rule and comes without parts of its own. -/
def Declaration.Fresh : Declaration → Prop
  | part _ element => element.isRule = false ∧ element.children = []
  | rule .. | cardinality .. => True

instance : DecidablePred Declaration.Fresh
  | .part _ _ => inferInstanceAs (Decidable (_ ∧ _))
  | .rule .. | .cardinality .. => inferInstanceAs (Decidable True)

namespace Grammar

variable {g g' : Grammar} {name : String} {ds : List Declaration} {d : Declaration}

theorem Linked.declare (hg : g.Linked) (hd : d.Fresh) (h : g.declare d = .ok g') : g'.Linked := by
  cases d with
  | rule name kind classifier =>
    cases h
    exact hg.grows (grows_rule name kind classifier) rfl (iff_of_true rfl rfl)
  | part p element =>
    refine hg.grows (grows_part h) hd.2 (iff_of_false nofun ?_)
    exact hd.1 ▸ Bool.false_ne_true
  | cardinality id cardinality => exact hg.sameLinks (sameLinks_cardinality h).1

/-- What was declared last was declared in the grammar of the others. -/
theorem ofDeclarations_concat (h : ofDeclarations name (ds ++ [d]) = .ok g) :
    ∃ g₀, ofDeclarations name ds = .ok g₀ ∧ g₀.declare d = .ok g := by
  rw [ofDeclarations, List.foldlM_append] at h
  cases hg : ds.foldlM declare (empty name) with
  | error => rw [hg] at h; cases h
  | ok g₀ =>
    rw [hg] at h
    have hd : [d].foldlM declare g₀ = .ok g := h
    exact ⟨g₀, hg, by simpa only [List.foldlM_cons, List.foldlM_nil, bind_pure] using hd⟩

/-- **The links of a declared grammar agree**, whatever containers were named. -/
theorem linked_ofDeclarations (hds : ∀ d ∈ ds, d.Fresh) (h : ofDeclarations name ds = .ok g) :
    g.Linked := by
  induction ds using List.reverseRecOn generalizing g with
  | nil =>
    cases h
    exact linked_empty name
  | append_singleton ds d ih =>
    obtain ⟨g₀, hg₀, hd⟩ := ofDeclarations_concat h
    have hlinked := ih (fun d' hd' => hds d' (List.mem_append_left _ hd')) hg₀
    exact hlinked.declare (hds d (List.mem_append_right _ (List.mem_singleton_self d))) hd

end Grammar

/-! ### Containers that are declared first -/

namespace Declaration

/-- The identifiers that declarations answer with, where there are `n` elements already: that of the
new element, or that of the element whose cardinality was set. -/
def answers : Nat → List Declaration → List ElementId
  | _, [] => []
  | n, rule .. :: ds | n, part .. :: ds => ⟨n⟩ :: answers (n + 1) ds
  | n, cardinality id _ :: ds => id :: answers n ds

/-- The container that a declaration names. -/
def container? : Declaration → Option ElementId
  | part container _ => some container
  | rule .. | cardinality .. => none

/-- Every container was the answer of an earlier declaration. -/
def TopDown (ds : List Declaration) : Prop :=
  ∀ i < ds.length, ∀ p, ds[i]?.bind container? = some p → p ∈ answers 0 (ds.take i)

instance : DecidablePred TopDown := fun ds =>
  inferInstanceAs (Decidable (∀ i < ds.length, ∀ p ∈ ds[i]?.bind container?,
    p ∈ answers 0 (ds.take i)))

theorem topDown_concat_iff {ds : List Declaration} {d : Declaration} :
    TopDown (ds ++ [d]) ↔ TopDown ds ∧ ∀ p, d.container? = some p → p ∈ answers 0 ds := by
  rw [TopDown, List.length_append, List.length_singleton, Nat.forall_lt_succ_right]
  refine and_congr (forall₂_congr fun i hi => ?_) ?_
  · rw [List.getElem?_append_left hi, List.take_append_of_le_length (Nat.le_of_lt hi)]
  · rw [List.getElem?_concat_length, List.take_left]
    rfl

end Declaration

namespace Grammar

variable {g g' : Grammar} {name : String} {ds : List Declaration} {d : Declaration}

/-- The elements of a grammar are those whose identifiers were answered. -/
theorem lt_size_iff_mem_answers (h : ds.foldlM declare g = .ok g') (id : ElementId) :
    id.index < g'.size ↔ id.index < g.size ∨ id ∈ Declaration.answers g.size ds := by
  induction ds generalizing g with
  | nil =>
    cases h
    simp [Declaration.answers]
  | cons d ds ih =>
    rw [List.foldlM_cons] at h
    cases hd : g.declare d with
    | error => rw [hd] at h; cases h
    | ok g₁ =>
      rw [hd] at h
      have hids := ih h
      have hmk : id.index = g.size ↔ id = ⟨g.size⟩ := ElementId.index_inj (p := g.nextId)
      cases d with
      | rule name kind classifier =>
        cases hd
        rw [size_append] at hids
        rw [hids, Declaration.answers, List.mem_cons, ← hmk, Nat.lt_succ_iff_lt_or_eq, or_assoc]
      | part p element =>
        rw [(grows_part hd).size] at hids
        rw [hids, Declaration.answers, List.mem_cons, ← hmk, Nat.lt_succ_iff_lt_or_eq, or_assoc]
      | cardinality other cardinality =>
        obtain ⟨hlinks, hother⟩ := sameLinks_cardinality hd
        rw [hlinks.size] at hids
        rw [hids, Declaration.answers, List.mem_cons]
        constructor
        · exact Or.imp_right Or.inr
        · rintro (hid | rfl | hid)
          exacts [Or.inl hid, Or.inl hother, Or.inr hid]

/-- Of a new element only its own container has to be looked at. -/
theorem Grows.container?_lt_iff {element : Element} {container : Option ElementId}
    (h : g.Grows element container g') :
    (∀ c p, g'.container? c = some p → p.index < c.index) ↔
      (∀ c p, g.container? c = some p → p.index < c.index) ∧
        ∀ p, container = some p → p.index < g.size := by
  have hc : ∀ c p, g'.container? c = some p ↔
      g.container? c = some p ∨ c = g.nextId ∧ container = some p := by
    intro c p
    rw [h.container?]
    split
    · next hc => simp [hc, container?_nextId]
    · next hc => simp [hc]
  simp only [hc, or_imp, forall_and, and_imp]
  exact and_congr_right fun _ => ⟨fun h p => h _ p rfl, fun h _ p hc => hc ▸ h p⟩

/-- **Containers are declared first if and only if no element comes before its container**, and none
is its own. -/
theorem topDown_iff (h : ofDeclarations name ds = .ok g) :
    Declaration.TopDown ds ↔ ∀ c p, g.container? c = some p → p.index < c.index := by
  induction ds using List.reverseRecOn generalizing g with
  | nil =>
    cases h
    exact iff_of_true (fun _ h => absurd h (Nat.not_lt_zero _)) nofun
  | append_singleton ds d ih =>
    obtain ⟨g₀, hg₀, hd⟩ := ofDeclarations_concat h
    have hanswers : ∀ id : ElementId, id ∈ Declaration.answers 0 ds ↔ id.index < g₀.size :=
      fun id => by
        have hsize : (empty name).size = 0 := rfl
        rw [lt_size_iff_mem_answers hg₀, hsize, or_iff_right (Nat.not_lt_zero _)]
    simp only [Declaration.topDown_concat_iff, ih hg₀, hanswers]
    cases d with
    | rule name kind classifier =>
      cases hd
      exact (grows_rule name kind classifier).container?_lt_iff.symm
    | part p element => exact (grows_part hd).container?_lt_iff.symm
    | cardinality id cardinality =>
      obtain ⟨hlinks, -⟩ := sameLinks_cardinality hd
      simp only [hlinks.container?]
      exact and_iff_left nofun

end Grammar

end ParseTree
