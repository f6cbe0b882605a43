import ParseTree.Proofs.Session.Similar
import ParseTree.Session.Parse

/-!
# Making leaves

However a token gets its leaf, the leaf goes to the end of the open composite. Sessions whose
tokens are those of the stream make leaves in the order of the stream and leave no token out.

## Main definitions

* `Growth`: leaves were made for tokens
* `LeafClosed`: a relation that holds wherever leaves are made
* `InOrder`: the tokens are the next ones of the stream
* `Operation.IsTidy`: the operation makes leaves for tokens of the stream, in order

## Main results

* `shape_createLeaf`, `leaf?_createLeaf`: the tree with one more leaf
* `growth_newLeaf`, `growth_appendSkipped`, `growth_appendTrailing`, `growth_appendAll`: operations
  make leaves and do nothing else
-/

namespace ParseTree

open Session

variable {σ γ : Type}

/-- Leaves were made for tokens, one after the other. -/
inductive Growth (env : Setting σ γ) (s : Session σ γ) : List Token → Session σ γ → Prop
  /-- Nothing was made yet. -/
  | done : Growth env s [] s
  /-- One more leaf was made. -/
  | leaf {ts : List Token} {s' : Session σ γ} {t : Token} {i : ℕ} (h : Growth env s ts s')
    (hi : t.index = some i) (element : Option ElementId) (feature : Option String) :
    Growth env s (ts ++ [t]) (s'.createLeaf env t i element feature)
  /-- No leaf was made. -/
  | rest {ts : List Token} {s' s'' : Session σ γ} (h : Growth env s ts s') (hs : Similar s' s'') :
    Growth env s ts s''

section CreateLeaf

variable {env : Setting σ γ} {s s' : Session σ γ} {ts : List Token}

section

variable (env : Setting σ γ) (s : Session σ γ) (t : Token) (i : ℕ) (element : Option ElementId)
  (feature : Option String)

/-- The tree with the leaf of a token, before composites that waited for the leaf get it. -/
def leafTree : Tree :=
  s.tree.addLeaf ⟨i, t.kind, t.span, t.isHidden, feature⟩ (element.or (lexicalElement? env t))
    (s.leafError env t i) s.current

theorem tree_createLeaf :
    (s.createLeaf env t i element feature).tree =
      (leafTree env s t i element feature).addLookaheadLeaves
        ((s.attribution.waiting i).map (·, s.tree.nextId)) := by
  rw [Tree.addLookaheadLeaves_map_leaf]
  rfl

theorem sameButLookahead_createLeaf :
    (leafTree env s t i element feature).SameButLookahead
      (s.createLeaf env t i element feature).tree := by
  rw [tree_createLeaf]
  exact Tree.sameButLookahead_addLookaheadLeaves ..

theorem shape_createLeaf (hl : Linked s) :
    (s.createLeaf env t i element feature).tree.shape =
      s.tree.shape.append s.current s.tree.nextId := by
  rw [(sameButLookahead_createLeaf ..).shape]
  exact Tree.shape_addLeaf hl.current ..

theorem size_createLeaf :
    (s.createLeaf env t i element feature).tree.size = s.tree.size + 1 := by
  rw [(sameButLookahead_createLeaf ..).size]
  exact Tree.size_addLeaf ..

theorem leaf?_createLeaf (x : NodeId) :
    ((s.createLeaf env t i element feature).tree.node x).leaf? =
      if x = s.tree.nextId then some ⟨i, t.kind, t.span, t.isHidden, feature⟩
      else (s.tree.node x).leaf? := by
  rw [(sameButLookahead_createLeaf ..).leaf?]
  exact Tree.leaf?_addLeaf x

end

theorem linked_createLeaf (hl : Linked s) (t : Token) (i : ℕ) (element : Option ElementId)
    (feature : Option String) : Linked (s.createLeaf env t i element feature) := by
  have h := (sameButLookahead_createLeaf env s t i element feature).toSameNodes
  refine ⟨?_, (h.isComposite_iff _).mpr hl.current.addLeaf⟩
  rw [shape_createLeaf env s t i element feature hl]
  exact hl.wellFormed.append s.tree.isolated_nextId
    (Tree.ne_nextId_of_contains hl.current.contains)

theorem Growth.linked (h : Growth env s ts s') (hl : Linked s) : Linked s' := by
  induction h with
  | done => exact hl
  | leaf _ _ _ _ ih => exact linked_createLeaf ih ..
  | rest _ hs ih => exact hs.linked ih

theorem Growth.trans {us : List Token} {s'' : Session σ γ} (h : Growth env s ts s')
    (h' : Growth env s' us s'') : Growth env s (ts ++ us) s'' := by
  induction h' with
  | done => rwa [List.append_nil]
  | leaf _ hi element feature ih =>
    rw [← List.append_assoc]
    exact ih.leaf hi element feature
  | rest _ hs ih => exact ih.rest hs

theorem Growth.current (h : Growth env s ts s') : s'.current = s.current := by
  induction h with
  | done => rfl
  | leaf _ _ _ _ ih => exact ih
  | rest _ hs ih => exact hs.current.trans ih

/-- Leaves are added below the open composite; all other links remain. -/
theorem Growth.parent? (h : Growth env s ts s') (hl : Linked s) {x : NodeId}
    (hx : s.tree.Contains x) : s'.tree.parent? x = s.tree.parent? x ∧ s'.tree.Contains x := by
  induction h with
  | done => exact ⟨rfl, hx⟩
  | @leaf ts s' t i hg _ element feature ih =>
    have hne := Tree.ne_nextId_of_contains ih.2
    constructor
    · rw [← Tree.parent?_shape, shape_createLeaf env s' t i element feature (hg.linked hl),
        Shape.parent?_append, if_neg hne]
      exact ih.1
    · rw [Tree.Contains, size_createLeaf]
      exact Nat.lt_succ_of_lt ih.2
  | rest _ hs ih => exact ⟨(hs.nodes.parent? x).trans ih.1, (hs.nodes.contains_iff x).mpr ih.2⟩

end CreateLeaf

/-! ## Relations that hold wherever leaves are made -/

/-- A relation between sessions that holds where one leaf is made and where the last token or node
is noted. -/
structure LeafClosed (env : Setting σ γ) (R : Session σ γ → Session σ γ → Prop) : Prop where
  /-- It holds where nothing is made. -/
  refl : ∀ s, R s s
  /-- It holds where one thing is made after another. -/
  trans : ∀ {s s' s''}, R s s' → R s' s'' → R s s''
  /-- It holds where a leaf is made. -/
  createLeaf : ∀ s t i element feature, R s (s.createLeaf env t i element feature)
  /-- It holds where the last token or node is noted. -/
  note : ∀ s lastToken lastNode, R s { s with lastToken, lastNode }

namespace LeafClosed

variable {env : Setting σ γ} {R : Session σ γ → Session σ γ → Prop} {s s' : Session σ γ}

theorem foldl (h : LeafClosed env R) (s : Session σ γ) (l : List ℕ) :
    R s (l.foldl (appendToken env) s) := by
  induction l generalizing s with
  | nil => exact h.refl s
  | cons i l ih =>
    refine h.trans ?_ (ih _)
    rw [appendToken]
    split
    · exact h.refl s
    · split
      · exact h.refl s
      · exact h.createLeaf ..

theorem newLeaf (h : LeafClosed env R) {t : Token} {element : ElementId}
    (hs : s.newLeaf env t element = .ok s') : R s s' := by
  rw [Session.newLeaf] at hs
  split at hs
  · obtain rfl := Except.ok.inj hs
    exact h.refl s
  · split_ifs at hs
    · obtain rfl := Except.ok.inj hs
      exact h.refl s
    · obtain ⟨feature, -, hs⟩ := exists_of_bind_eq_ok hs
      obtain rfl := Except.ok.inj hs
      exact h.trans (h.trans (h.foldl s _) (h.createLeaf ..)) (h.note ..)

theorem appendSkipped (h : LeafClosed env R) (s : Session σ γ) : R s (s.appendSkipped env) := by
  rw [Session.appendSkipped]
  split
  · exact h.refl s
  · split_ifs
    · exact h.trans (h.foldl s _) (h.note ..)
    · exact h.refl s

theorem appendRest (h : LeafClosed env R) (s : Session σ γ) (start : ℕ) :
    R s (s.appendRest env start) := by
  rw [Session.appendRest]
  split_ifs
  · exact h.trans (h.foldl s _) (h.note ..)
  · exact h.refl s

theorem appendTrailing (h : LeafClosed env R) (s : Session σ γ) : R s (s.appendTrailing env) := by
  rw [Session.appendTrailing]
  split
  · exact h.refl s
  · exact h.appendRest ..

end LeafClosed

/-! ## Leaves in the order of the stream -/

/-- The tokens are the next ones of the stream; no token before the last one is left out. -/
structure InOrder (stream : TokenStream) (s s' : Session σ γ) (ts : List Token) : Prop where
  /-- The tokens lie between the two sessions. -/
  tokens : ts = stream.slice s.nextToken s'.nextToken
  /-- No leaf is lost. -/
  le : s.nextToken ≤ s'.nextToken
  /-- The tokens belong to the stream. -/
  bound : s.nextToken ≤ stream.size → s'.nextToken ≤ stream.size

/-- The operation makes no leaf for a token that is none of the stream or out of order. -/
def Operation.IsTidy (env : Setting σ γ) (s : Session σ γ) : Operation → Prop
  | .command (.newLeaf t _) => ∀ i, t.index = some i → env.stream.token? i = some t
  | .command .appendTrailing =>
    ∀ last, (s.cursor.previous? env.stream).bind (·.index) = some last → last < s.nextToken
  | _ => True

section InOrder

variable {env : Setting σ γ} {s s' : Session σ γ} {stream : TokenStream}

theorem nextToken_congr (h : s'.lastToken = s.lastToken) : s'.nextToken = s.nextToken := by
  rw [nextToken, nextToken, h]

theorem inOrder_of_lastToken (h : s'.lastToken = s.lastToken) : InOrder stream s s' [] := by
  have hn := nextToken_congr h
  exact ⟨by rw [hn, TokenStream.slice_self], hn.ge, fun h => hn ▸ h⟩

theorem InOrder.trans {s'' : Session σ γ} {ts us : List Token} (h : InOrder stream s s' ts)
    (h' : InOrder stream s' s'' us) : InOrder stream s s'' (ts ++ us) := by
  refine ⟨?_, h.le.trans h'.le, fun hb => h'.bound (h.bound hb)⟩
  rw [h.tokens, h'.tokens]
  exact TokenStream.slice_append_slice stream h.le h'.le

/-- The leaves of the tokens from a position on. -/
theorem growth_foldl (env : Setting σ γ) (s : Session σ γ) (start n : ℕ) :
    ∃ ts, Growth env s ts ((List.range' start n).foldl (appendToken env) s) ∧
      (env.stream.Contract → start + n ≤ env.stream.size →
        ts = env.stream.slice start (start + n)) := by
  induction n with
  | zero => exact ⟨[], .done, fun _ _ => (TokenStream.slice_self _ _).symm⟩
  | succ n ih =>
    obtain ⟨ts, hg, hts⟩ := ih
    rw [List.range'_concat, List.foldl_append, List.foldl_cons, List.foldl_nil, one_mul]
    set s' := (List.range' start n).foldl (appendToken env) s
    cases ht : env.stream.token? (start + n) with
    | none =>
      refine ⟨ts, ?_, ?_⟩
      · rw [appendToken, ht]
        exact hg
      · intro _ hn
        have := TokenStream.token?_eq_none_iff.mp ht
        omega
    | some t =>
      cases hi : t.index with
      | none =>
        refine ⟨ts, ?_, ?_⟩
        · rw [appendToken, ht]
          simp only [hi]
          exact hg
        · intro hc _
          exact absurd ((hc.index _ t ht).symm.trans hi) (by simp)
      | some i =>
        refine ⟨ts ++ [t], ?_, ?_⟩
        · rw [appendToken, ht]
          simp only [hi]
          exact hg.leaf hi none none
        · intro hc hn
          rw [← Nat.add_assoc, TokenStream.slice_succ (Nat.le_add_right ..) ht, hts hc (by omega)]

theorem growth_appendRange (env : Setting σ γ) (s : Session σ γ) (start stop : ℕ) :
    ∃ ts, Growth env s ts (s.appendRange env start stop) ∧
      (env.stream.Contract → start ≤ stop → stop ≤ env.stream.size →
        ts = env.stream.slice start stop) := by
  obtain ⟨ts, hg, hts⟩ := growth_foldl env s start (min stop env.stream.size - start)
  refine ⟨ts, hg, ?_⟩
  intro hc hle hs
  rw [Nat.min_eq_left hs] at hts
  rw [hts hc (by omega), Nat.add_sub_cancel' hle]

theorem similar_lastToken (s : Session σ γ) (lastToken : Option ℕ) :
    Similar s { s with lastToken } :=
  similar_of_eq rfl rfl rfl id rfl (Or.inl rfl)

theorem similar_lastNode {x : NodeId} (hx : s.tree.parent? x ≠ none) (lastToken : Option ℕ) :
    Similar s { s with lastToken, lastNode := some x } :=
  { similar_lastToken s lastToken with
    lastNode := fun _ hy => Or.inr (Or.inr (Option.some.inj hy ▸ hx)) }

/-- A leaf that was made is below the open composite. -/
theorem parent?_nextId_createLeaf (hl : Linked s) (t : Token) (i : ℕ) (element : Option ElementId)
    (feature : Option String) :
    (s.createLeaf env t i element feature).tree.parent? s.tree.nextId = some s.current := by
  rw [← Tree.parent?_shape, shape_createLeaf env s t i element feature hl, Shape.parent?_append,
    if_pos rfl]

theorem growth_newLeaf {t : Token} {element : ElementId} (hl : Linked s)
    (h : s.newLeaf env t element = .ok s') :
    ∃ ts, Growth env s ts s' ∧ (env.stream.Contract →
      Operation.IsTidy env s (.command (.newLeaf t element)) → InOrder env.stream s s' ts) := by
  have hdone : ∃ ts, Growth env s ts s ∧ (env.stream.Contract →
      Operation.IsTidy env s (.command (.newLeaf t element)) → InOrder env.stream s s ts) :=
    ⟨[], .done, fun _ _ => inOrder_of_lastToken rfl⟩
  rw [newLeaf] at h
  cases hi : t.index with
  | none =>
    simp only [hi] at h
    obtain rfl := Except.ok.inj h
    exact hdone
  | some i =>
    simp only [hi] at h
    split_ifs at h with hpassed
    · obtain rfl := Except.ok.inj h
      exact hdone
    · obtain ⟨feature, -, h⟩ := exists_of_bind_eq_ok h
      obtain rfl := Except.ok.inj h
      obtain ⟨ts, hg, hts⟩ := growth_appendRange env s s.nextToken i
      have hg' := hg.leaf hi (some element) feature
      refine ⟨ts ++ [t], hg'.rest ?_, ?_⟩
      · refine similar_lastNode (s := createLeaf env _ t i (some element) feature) ?_ (some i)
        rw [parent?_nextId_createLeaf (hg.linked hl)]
        exact Option.some_ne_none _
      · intro hc ht
        have hle : s.nextToken ≤ i := by
          rw [nextToken]
          cases hlast : s.lastToken with
          | none => exact Nat.zero_le _
          | some last => simpa [hlast, Nat.succ_le_iff] using hpassed
        have hi' := ht i hi
        have hlt := TokenStream.lt_size_of_token? hi'
        refine ⟨?_, Nat.le_succ_of_le hle, fun _ => hlt⟩
        rw [hts hc hle (Nat.le_of_lt hlt), ← TokenStream.slice_succ hle hi']
        rfl

theorem growth_appendSkipped (env : Setting σ γ) (s : Session σ γ) :
    ∃ ts, Growth env s ts (s.appendSkipped env) ∧
      (env.stream.Contract → InOrder env.stream s (s.appendSkipped env) ts) := by
  rw [appendSkipped]
  cases hp : (s.cursor.previous? env.stream).bind (·.index) with
  | none => exact ⟨[], .done, fun _ => inOrder_of_lastToken rfl⟩
  | some last =>
    dsimp only
    split_ifs with hle
    · obtain ⟨ts, hg, hts⟩ := growth_appendRange env s s.nextToken (last + 1)
      refine ⟨ts, hg.rest (similar_lastToken ..), ?_⟩
      intro hc
      have hlt : last < env.stream.size := by
        obtain ⟨t, ht, hi⟩ := Option.bind_eq_some_iff.mp hp
        obtain ⟨j, -, hj⟩ := TokenStream.token?_of_lookBack ht
        rw [hc.index j t hj] at hi
        exact Option.some.inj hi ▸ TokenStream.lt_size_of_token? hj
      exact ⟨hts hc (Nat.le_succ_of_le hle) hlt, Nat.le_succ_of_le hle, fun _ => hlt⟩
    · exact ⟨[], .done, fun _ => inOrder_of_lastToken rfl⟩

theorem growth_appendRest (env : Setting σ γ) (s : Session σ γ) (start : ℕ) :
    ∃ ts, Growth env s ts (s.appendRest env start) ∧
      (env.stream.Contract → start = s.nextToken →
        InOrder env.stream s (s.appendRest env start) ts) := by
  rw [appendRest]
  split_ifs with hlt
  · obtain ⟨ts, hg, hts⟩ := growth_appendRange env s start env.stream.size
    refine ⟨ts, hg.rest (similar_lastToken ..), ?_⟩
    intro hc hs
    have hsize : env.stream.size - 1 + 1 = env.stream.size :=
      Nat.succ_pred_eq_of_pos (Nat.zero_lt_of_lt hlt)
    refine ⟨?_, ?_, ?_⟩
    · rw [hts hc (Nat.le_of_lt hlt) le_rfl, hs]
      exact congrArg _ hsize.symm
    · rw [← hs]
      exact (Nat.le_of_lt hlt).trans hsize.ge
    · intro _
      exact hsize.le
  · exact ⟨[], .done, fun _ _ => inOrder_of_lastToken rfl⟩

theorem growth_appendTrailing (env : Setting σ γ) (s : Session σ γ) :
    ∃ ts, Growth env s ts (s.appendTrailing env) ∧
      (env.stream.Contract → Operation.IsTidy env s (.command .appendTrailing) →
        InOrder env.stream s (s.appendTrailing env) ts) := by
  rw [appendTrailing]
  cases hp : (s.cursor.previous? env.stream).bind (·.index) with
  | none => exact ⟨[], .done, fun _ _ => inOrder_of_lastToken rfl⟩
  | some last =>
    obtain ⟨ts, hg, hts⟩ := growth_appendRest env s (max s.nextToken (last + 1))
    exact ⟨ts, hg, fun hc ht => hts hc (Nat.max_eq_left (ht last hp))⟩

/-- After the last leaves the cursor goes to the end, and what waits is attached. -/
theorem exists_appendAll (env : Setting σ γ) (s : Session σ γ) :
    ∃ tree pending, s.appendAll env = { s.appendRest env s.nextToken with
      cursor := (s.appendRest env s.nextToken).cursor.finish env.stream, tree, pending } := by
  rw [appendAll, flushPending]
  split
  · exact ⟨_, _, rfl⟩
  · exact ⟨_, _, rfl⟩

theorem lastToken_appendAll (env : Setting σ γ) (s : Session σ γ) :
    (s.appendAll env).lastToken = (s.appendRest env s.nextToken).lastToken := by
  obtain ⟨_, _, h⟩ := exists_appendAll env s
  rw [h]

theorem nextToken_appendAll (env : Setting σ γ) (s : Session σ γ) :
    (s.appendAll env).nextToken = (s.appendRest env s.nextToken).nextToken :=
  nextToken_congr (lastToken_appendAll env s)

/-- All tokens have their leaves in the end. -/
theorem size_le_nextToken_appendAll (env : Setting σ γ) (s : Session σ γ) :
    env.stream.size ≤ (s.appendAll env).nextToken := by
  rw [nextToken_appendAll, appendRest]
  split_ifs with h
  · show env.stream.size ≤ env.stream.size - 1 + 1
    omega
  · exact Nat.le_of_not_lt h

theorem growth_appendAll (env : Setting σ γ) (hl : Linked s) :
    ∃ ts, Growth env s ts (s.appendAll env) ∧
      (env.stream.Contract → InOrder env.stream s (s.appendAll env) ts) := by
  obtain ⟨ts, hg, hts⟩ := growth_appendRest env s s.nextToken
  have hfinish : Similar (s.appendRest env s.nextToken) (s.appendAll env) := by
    have hcursor : Similar (s.appendRest env s.nextToken) { s.appendRest env s.nextToken with
        cursor := (s.appendRest env s.nextToken).cursor.finish env.stream } :=
      similar_of_eq rfl rfl rfl id rfl (Or.inl rfl)
    exact hcursor.trans (similar_flushPending (hcursor.linked (hg.linked hl)))
  refine ⟨ts, hg.rest hfinish, ?_⟩
  intro hc
  have hn := nextToken_appendAll env s
  have h := hts hc rfl
  exact ⟨hn ▸ h.tokens, hn ▸ h.le, hn ▸ h.bound⟩

theorem growth_catchError (env : Setting σ γ) (s : Session σ γ) (e : ParseError) :
    ∃ ts, Growth env s ts (s.catchError env e).2 ∧
      (env.stream.Contract → InOrder env.stream s (s.catchError env e).2 ts) := by
  cases e with
  | recognition e =>
    have hr := steady_recover env s e
    obtain ⟨ts, hg, hts⟩ := growth_appendSkipped env (s.recover env e)
    refine ⟨ts, (Growth.done.rest hr.toSimilar).trans hg, ?_⟩
    intro hc
    have hn := nextToken_congr hr.lastToken
    have h := hts hc
    exact ⟨hn ▸ h.tokens, hn ▸ h.le, hn ▸ h.bound⟩
  | _ => exact ⟨[], .done, fun _ => inOrder_of_lastToken rfl⟩

theorem growth_expectEnd (env : Setting σ γ) (s : Session σ γ) :
    ∃ ts, Growth env s ts (s.expectEnd env) ∧
      (env.stream.Contract → InOrder env.stream s (s.expectEnd env) ts) := by
  have hm := steady_matchToken env s .endOfInput ∅
  rw [expectEnd]
  split
  · next t h =>
    rw [h] at hm
    exact ⟨[], Growth.done.rest hm.toSimilar, fun _ => inOrder_of_lastToken hm.lastToken⟩
  · next e t h =>
    rw [h] at hm
    obtain ⟨ts, hg, hts⟩ := growth_catchError env t (.recognition e)
    exact ⟨[] ++ ts, (Growth.done.rest hm.toSimilar).trans hg,
      fun hc => (inOrder_of_lastToken hm.lastToken).trans (hts hc)⟩

theorem cursor_foldl_appendToken (env : Setting σ γ) (s : Session σ γ) (l : List ℕ) :
    (l.foldl (appendToken env) s).cursor = s.cursor := by
  induction l generalizing s with
  | nil => rfl
  | cons i l ih =>
    rw [List.foldl_cons, ih, appendToken]
    split
    · rfl
    · split <;> rfl

/-- After the skipped tokens have their leaves, only hidden ones trail. -/
theorem isTidy_appendTrailing (env : Setting σ γ) (s : Session σ γ) :
    Operation.IsTidy env (s.appendSkipped env) (.command .appendTrailing) := by
  intro last hlast
  have hcur : (s.appendSkipped env).cursor = s.cursor := by
    rw [appendSkipped]
    split
    · rfl
    · split_ifs
      · exact cursor_foldl_appendToken ..
      · rfl
  rw [hcur] at hlast
  rw [appendSkipped, hlast]
  dsimp only
  split_ifs with hle
  · exact Nat.lt_succ_self last
  · exact Nat.lt_of_not_le hle

/-- The end of a parse makes leaves for all tokens that have none. -/
theorem growth_finish (env : Setting σ γ) (hl : Linked s) :
    ∃ ts, Growth env s ts (s.finish env) ∧ (env.stream.Contract →
      InOrder env.stream s (s.finish env) ts ∧
        (s.nextToken ≤ env.stream.size → (s.finish env).nextToken = env.stream.size)) := by
  have hp : Steady s s.popFollow := steady_with ..
  obtain ⟨ts₁, hg₁, ho₁⟩ := growth_expectEnd env s.popFollow
  obtain ⟨ts₂, hg₂, ho₂⟩ := growth_appendSkipped env (s.popFollow.expectEnd env)
  obtain ⟨ts₃, hg₃, ho₃⟩ :=
    growth_appendTrailing env ((s.popFollow.expectEnd env).appendSkipped env)
  have hg := (((Growth.done.rest hp.toSimilar).trans hg₁).trans hg₂).trans hg₃
  obtain ⟨ts₄, hg₄, ho₄⟩ := growth_appendAll env (hg.linked hl)
  refine ⟨_, hg.trans hg₄, ?_⟩
  intro hc
  have ho := (((inOrder_of_lastToken hp.lastToken).trans (ho₁ hc)).trans (ho₂ hc)).trans
    (ho₃ hc (isTidy_appendTrailing env _))
  refine ⟨ho.trans (ho₄ hc), fun hb => Nat.le_antisymm ((ho₄ hc).bound (ho.bound hb)) ?_⟩
  exact size_le_nextToken_appendAll ..

end InOrder

end ParseTree
