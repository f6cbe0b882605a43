import ParseTree.Proofs.Text.Cut
import ParseTree.Token.Cursor

/-!
# What a stream promises

The source of the tokens promises that they tile the text and know their position. A cursor only
answers tokens of its stream, or the end of the input; going forward it passes every visible token
once.

## Main definitions

* `TokenStream.Contract`: what the source of the tokens promises
* `TokenStream.slice`, `TokenStream.visibleBefore`: the tokens between two positions, the visible
  ones before a position
* `Cursor.Rests`, `Cursor.Records`: where a cursor can be, what it can have recorded

## Main results

* `length_lt`, `atEnd_eq`: the end of the text has an offset, and the end of the input is there
* `token?_of_index_peek`: an answered token is the one of the stream at its position
* `visibleBefore_advance`: a cursor passes the current token only
-/

namespace ParseTree

namespace TokenStream

variable {ts : TokenStream} {a b i j : ℕ} {t u : Token}

/-- The promise of the source of the tokens: they know their position, tile the text on character
boundaries at offsets of 32 bits, and none stands for the end of the input. -/
structure Contract (ts : TokenStream) : Prop where
  /-- A token carries its position. -/
  index : ∀ i t, ts.token? i = some t → t.index = some i
  /-- The first token starts with the text. -/
  start : ∀ t, ts.token? 0 = some t → t.span.start = 0
  /-- Each token starts where the one before it ends. -/
  next : ∀ i t u, ts.token? i = some t → ts.token? (i + 1) = some u → u.span.start = t.span.stop
  /-- The last token ends with the text. -/
  stop : ts.stop = ts.length
  /-- Tokens start and end on character boundaries. -/
  boundary : ∀ i t, ts.token? i = some t → (t.span.slice? ts.text).isSome
  /-- The end of the input is no token. -/
  kind : ∀ i t, ts.token? i = some t → t.kind ≠ .endOfInput
  /-- Offsets are numbers of 32 bits. -/
  fits : ∀ i t, ts.token? i = some t → t.span.stop < Span.limit

/-- The tokens from one position up to another. -/
def slice (ts : TokenStream) (a b : ℕ) : List Token :=
  (ts.tokens.toList.take b).drop a

/-- The visible tokens before a position. -/
def visibleBefore (ts : TokenStream) (i : ℕ) : List Token :=
  (ts.tokens.toList.take i).filter fun t => !t.isHidden

theorem lt_size_of_token? (h : ts.token? i = some t) : i < ts.size := by
  by_contra hn
  rw [token?_eq_none_iff.mpr (Nat.le_of_not_lt hn)] at h
  exact absurd h (by simp)

theorem exists_token? (h : i < ts.size) : ∃ t, ts.token? i = some t := by
  apply Option.ne_none_iff_exists'.mp
  intro hn
  exact absurd h (Nat.not_lt.mpr (token?_eq_none_iff.mp hn))

/-- Only the positions of the stream have to be looked at. -/
theorem contract_iff (ts : TokenStream) : ts.Contract ↔
    (∀ i < ts.size, ∀ t ∈ ts.token? i, t.index = some i ∧ (t.span.slice? ts.text).isSome ∧
      t.kind ≠ .endOfInput ∧ t.span.stop < Span.limit ∧
        ∀ u ∈ ts.token? (i + 1), u.span.start = t.span.stop) ∧
    (∀ t ∈ ts.token? 0, t.span.start = 0) ∧ ts.stop = ts.length := by
  constructor
  · intro h
    exact ⟨fun i _ t ht => ⟨h.index i t ht, h.boundary i t ht, h.kind i t ht, h.fits i t ht,
      fun u hu => h.next i t u ht hu⟩, h.start, h.stop⟩
  · rintro ⟨h, hstart, hstop⟩
    have h' (i : ℕ) (t : Token) (ht : ts.token? i = some t) := h i (lt_size_of_token? ht) t ht
    exact ⟨fun i t ht => (h' i t ht).1, hstart, fun i t u ht hu => (h' i t ht).2.2.2.2 u hu, hstop,
      fun i t ht => (h' i t ht).2.1, fun i t ht => (h' i t ht).2.2.1,
      fun i t ht => (h' i t ht).2.2.2.1⟩

instance (ts : TokenStream) : Decidable ts.Contract :=
  decidable_of_iff' _ ts.contract_iff

theorem back?_eq (h : ts.token? i = some t) (hi : i + 1 = ts.size) :
    ts.tokens.back? = some t := by
  rw [Array.back?, show ts.tokens.size - 1 = i from Nat.sub_eq_of_eq_add hi.symm]
  exact h

theorem back?_eq_none (h : ts.size = 0) : ts.tokens.back? = none := by
  rw [Array.back?, Array.getElem?_eq_none (Nat.le_trans (Nat.le_of_eq h) (Nat.zero_le _))]

@[simp] theorem slice_self (ts : TokenStream) (a : ℕ) : ts.slice a a = [] := by
  rw [slice, List.drop_eq_nil_iff, List.length_take]
  exact Nat.min_le_left ..

theorem take_append_slice (ts : TokenStream) (h : a ≤ b) :
    ts.tokens.toList.take a ++ ts.slice a b = ts.tokens.toList.take b := by
  have hsplit := List.take_append_drop a (ts.tokens.toList.take b)
  rwa [List.take_take, Nat.min_eq_left h] at hsplit

theorem slice_append_slice (ts : TokenStream) {c : ℕ} (h : a ≤ b) (h' : b ≤ c) :
    ts.slice a b ++ ts.slice b c = ts.slice a c := by
  apply (List.append_right_inj (ts.tokens.toList.take a)).mp
  rw [← List.append_assoc, take_append_slice ts h, take_append_slice ts h',
    take_append_slice ts (Nat.le_trans h h')]

theorem length_slice (h : b ≤ ts.size) : (ts.slice a b).length = b - a := by
  rw [slice, List.length_drop, List.length_take, Array.length_toList]
  exact congrArg (· - a) (Nat.min_eq_left h)

theorem mem_slice : t ∈ ts.slice a b ↔ ∃ i, a ≤ i ∧ i < b ∧ ts.token? i = some t := by
  rw [slice, List.mem_iff_getElem?]
  simp only [List.getElem?_drop, List.getElem?_take, Array.getElem?_toList]
  constructor
  · rintro ⟨k, hk⟩
    split_ifs at hk with hlt
    exact ⟨a + k, Nat.le_add_right .., hlt, hk⟩
  · rintro ⟨i, ha, hi, ht⟩
    refine ⟨i - a, ?_⟩
    rw [Nat.add_sub_cancel' ha, if_pos hi]
    exact ht

theorem Contract.index_slice (hc : ts.Contract) {k : ℕ} (h : (ts.slice a b)[k]? = some t) :
    t.index = some (a + k) := by
  rw [slice, List.getElem?_drop, List.getElem?_take] at h
  split_ifs at h
  rw [Array.getElem?_toList] at h
  exact hc.index (a + k) t h

theorem take_succ (h : ts.token? i = some t) :
    ts.tokens.toList.take (i + 1) = ts.tokens.toList.take i ++ [t] := by
  rw [token?, ← Array.getElem?_toList] at h
  rw [List.take_add_one, h]
  rfl

theorem slice_succ (h : a ≤ b) (hb : ts.token? b = some t) :
    ts.slice a (b + 1) = ts.slice a b ++ [t] := by
  have hl := lt_size_of_token? hb
  rw [slice, take_succ hb, List.drop_append_of_le_length, slice]
  rw [List.length_take, Array.length_toList]
  exact Nat.le_min.mpr ⟨h, Nat.le_trans h (Nat.le_of_lt hl)⟩

theorem visibleBefore_succ (h : ts.token? i = some t) :
    ts.visibleBefore (i + 1) = ts.visibleBefore i ++ if t.isHidden then [] else [t] := by
  rw [visibleBefore, take_succ h, List.filter_append, visibleBefore]
  cases ht : t.isHidden <;> simp [ht]

theorem Contract.map_index (hc : ts.Contract) :
    ts.tokens.toList.map (·.index) = (List.range ts.size).map some := by
  refine List.ext_getElem? ?_
  intro i
  rw [List.getElem?_map, List.getElem?_map, Array.getElem?_toList]
  by_cases hi : i < ts.size
  · obtain ⟨t, ht⟩ := exists_token? hi
    rw [show ts.tokens[i]? = some t from ht, List.getElem?_range hi]
    exact congrArg some (hc.index i t ht)
  · rw [Array.getElem?_eq_none (Nat.le_of_not_lt hi), List.getElem?_eq_none]
    · rfl
    · rw [List.length_range]
      exact Nat.le_of_not_lt hi

theorem Contract.start_le_stop (hc : ts.Contract) (h : ts.token? i = some t) :
    t.span.start ≤ t.span.stop :=
  Span.start_le_stop_of_slice? (hc.boundary i t h)

/-- Later tokens start at or after the end of earlier ones. -/
theorem Contract.stop_le_start (hc : ts.Contract) (h : ts.token? i = some t)
    (h' : ts.token? j = some u) (hij : i < j) : t.span.stop ≤ u.span.start := by
  induction hij generalizing u with
  | refl => exact Nat.le_of_eq (hc.next i t u h h').symm
  | @step j hij ih =>
    obtain ⟨v, hv⟩ := exists_token? (Nat.lt_of_succ_lt (lt_size_of_token? h'))
    rw [hc.next j v u hv h']
    exact Nat.le_trans (ih hv) (hc.start_le_stop hv)

theorem Contract.stop_le_length (hc : ts.Contract) (h : ts.token? i = some t) :
    t.span.stop ≤ ts.length := by
  have hi := lt_size_of_token? h
  obtain ⟨u, hu⟩ := exists_token? (Nat.sub_one_lt_of_lt hi)
  have hlast : u.span.stop = ts.length := by
    have hpred := Nat.sub_one_add_one_eq_of_pos (Nat.zero_lt_of_lt hi)
    rw [← hc.stop, TokenStream.stop, back?_eq hu hpred]
    rfl
  rw [← hlast]
  rcases Nat.lt_or_eq_of_le (Nat.le_sub_one_of_lt hi) with hlt | heq
  · exact Nat.le_trans (hc.stop_le_start h hu hlt) (hc.start_le_stop hu)
  · rw [heq, hu] at h
    exact Nat.le_of_eq (congrArg (·.span.stop) (Option.some.inj h).symm)

/-- The text ends where the last token does, at an offset of 32 bits. -/
theorem Contract.length_lt (hc : ts.Contract) : ts.length < Span.limit := by
  rw [← hc.stop, TokenStream.stop]
  cases hback : ts.tokens.back? with
  | none => exact Nat.zero_lt_succ _
  | some t =>
    rw [Array.back?] at hback
    exact hc.fits _ t hback

/-- The end of the input is at the end of the text. -/
theorem Contract.atEnd_eq (hc : ts.Contract) : ts.atEnd = .atEnd ts.length :=
  congrArg Token.atEnd (saturate_of_lt hc.length_lt)

/-- Hidden tokens are skipped. -/
theorem visibleBefore_nextVisible (ts : TokenStream) (i : ℕ) :
    ts.visibleBefore (ts.nextVisible i) = ts.visibleBefore i := by
  fun_induction nextVisible ts i with
  | case1 i hi hh ih =>
    rw [ih, visibleBefore_succ (Array.getElem?_eq_getElem hi), if_pos hh, List.append_nil]
  | case2 => rfl
  | case3 i hi =>
    have hs : ts.tokens.toList.length ≤ i := by simpa using hi
    rw [visibleBefore, visibleBefore, List.take_of_length_le hs, size, ← Array.length_toList,
      List.take_length]

/-! ## Answered tokens -/

theorem token?_of_lookBack {n : ℕ} (h : ts.lookBack i n = some t) :
    ∃ j < i, ts.token? j = some t := by
  induction i generalizing n with
  | zero => exact absurd h (by simp [lookBack])
  | succ i ih =>
    rw [lookBack] at h
    cases hi : ts.token? i with
    | none => simp [hi] at h
    | some u =>
      simp only [hi] at h
      split_ifs at h
      · obtain ⟨j, hj, ht⟩ := ih h
        exact ⟨j, Nat.lt_succ_of_lt hj, ht⟩
      · obtain rfl := Option.some.inj h
        exact ⟨i, Nat.lt_succ_self i, hi⟩
      · obtain ⟨j, hj, ht⟩ := ih h
        exact ⟨j, Nat.lt_succ_of_lt hj, ht⟩

/-- A cursor answers the end of the input or a token of the stream. -/
theorem peek_cases (ts : TokenStream) (pos : ℕ) (i : Int) :
    ts.peek pos i = ts.atEnd ∨ ∃ j, ts.token? j = some (ts.peek pos i) := by
  rcases i with (- | n) | n
  · exact Or.inl rfl
  · rw [peek]
    cases h : ts.token? (ts.forward pos n) with
    | none => exact Or.inl rfl
    | some t => exact Or.inr ⟨_, h⟩
  · rw [peek]
    cases h : ts.lookBack (min pos ts.size) (n + 1) with
    | none => exact Or.inl rfl
    | some t =>
      obtain ⟨j, -, hj⟩ := token?_of_lookBack h
      exact Or.inr ⟨j, hj⟩

/-- A token that is answered is the one of the stream at its position. -/
theorem Contract.token?_of_index_peek (hc : ts.Contract) {pos : ℕ} {i : Int}
    (h : (ts.peek pos i).index = some j) : ts.token? j = some (ts.peek pos i) := by
  rcases ts.peek_cases pos i with he | ⟨k, hk⟩
  · rw [he] at h
    exact absurd h (by simp [atEnd])
  · rw [hc.index k _ hk] at h
    rw [← Option.some.inj h]
    exact hk

end TokenStream

namespace Cursor

variable {ts : TokenStream} {c : Cursor}

/-- The cursor is on a visible token or at the end. -/
def Rests (ts : TokenStream) (c : Cursor) : Prop :=
  c.position ≤ ts.size ∧ ∀ t, ts.token? c.position = some t → t.isHidden = false

theorem current_eq (c : Cursor) (ts : TokenStream) :
    c.current ts = (ts.token? c.position).getD ts.atEnd := rfl

/-- Past the current token is the token two steps away. -/
theorem current_advance (c : Cursor) (ts : TokenStream) :
    (c.advance ts).current ts = c.peek ts 2 := by
  show _ = (ts.token? (ts.forward c.position 1)).getD ts.atEnd
  rw [current_eq, Cursor.advance, TokenStream.forward]
  split_ifs <;> rfl

theorem rests_nextVisible (ts : TokenStream) (i : ℕ) (recorded : List Token) :
    Rests ts ⟨ts.nextVisible i, recorded⟩ := by
  refine ⟨ts.nextVisible_le_size i, ?_⟩
  intro t ht
  obtain ⟨u, hu, hv⟩ := TokenStream.token?_nextVisible (TokenStream.lt_size_of_token? ht)
  rw [Option.some.inj (ht.symm.trans hu)]
  exact hv

theorem rests_start (ts : TokenStream) : Rests ts (.start ts) :=
  rests_nextVisible ts 0 []

theorem Rests.of_position {c' : Cursor} (h : Rests ts c) (hp : c'.position = c.position) :
    Rests ts c' := by
  rwa [Rests, hp]

theorem rests_of_position_eq_size (h : c.position = ts.size) : Rests ts c := by
  refine ⟨Nat.le_of_eq h, fun t ht => ?_⟩
  exact absurd h (Nat.ne_of_lt (TokenStream.lt_size_of_token? ht))

theorem Rests.advance (h : Rests ts c) : Rests ts (c.advance ts) := by
  rw [Cursor.advance]
  split_ifs
  · exact h
  · exact rests_nextVisible ts _ _

/-- Going forward, a cursor passes the current token and no other visible one. -/
theorem visibleBefore_advance (hc : ts.Contract) (h : Rests ts c) :
    ts.visibleBefore (c.advance ts).position =
      ts.visibleBefore c.position ++
        if (c.current ts).isSynthetic then [] else [c.current ts] := by
  rw [Cursor.advance, current_eq]
  split_ifs with hs hy hy
  · exact (List.append_nil _).symm
  · rw [TokenStream.token?_eq_none_iff.mpr hs] at hy
    exact absurd rfl hy
  · obtain ⟨t, ht⟩ := TokenStream.exists_token? (Nat.lt_of_not_le hs)
    rw [ht, Option.getD_some, Token.isSynthetic, hc.index _ t ht] at hy
    exact absurd hy (by simp)
  · obtain ⟨t, ht⟩ := TokenStream.exists_token? (Nat.lt_of_not_le hs)
    rw [TokenStream.visibleBefore_nextVisible, TokenStream.visibleBefore_succ ht, ht,
      Option.getD_some, if_neg (by simp [h.2 t ht])]

/-- A cursor on the end of the input has passed all visible tokens. -/
theorem position_eq_size (hc : ts.Contract) (h : Rests ts c)
    (he : (c.current ts).kind = .endOfInput) : c.position = ts.size := by
  by_contra hne
  obtain ⟨t, ht⟩ := TokenStream.exists_token? (Nat.lt_of_le_of_ne h.1 hne)
  rw [current_eq, ht, Option.getD_some] at he
  exact hc.kind _ t ht he

/-! ## Recorded tokens -/

/-- The recorded tokens are those of the stream. -/
def Records (ts : TokenStream) (c : Cursor) : Prop :=
  ∀ t ∈ c.recorded, ∃ i, ts.token? i = some t

/-- The end of the input is not recorded. -/
theorem Records.lookAt (h : Records ts c) (steps : Int) : Records ts (c.lookAt ts steps).2 := by
  rw [Cursor.lookAt]
  dsimp only
  split_ifs
  · rw [record]
    split_ifs with hskip
    · exact h
    · intro t ht
      rcases List.mem_append.mp ht with ht | ht
      · exact h t ht
      · rcases ts.peek_cases c.position steps with he | hi
        · rw [Bool.or_eq_true, not_or, Cursor.peek, he] at hskip
          exact absurd rfl hskip.1
        · rw [List.mem_singleton.mp ht]
          exact hi
  · exact h

theorem Records.index_lt (hc : ts.Contract) (h : Records ts c) {i : ℕ}
    (hi : i ∈ c.recorded.filterMap (·.index)) : i < ts.size := by
  obtain ⟨t, ht, hti⟩ := List.mem_filterMap.mp hi
  obtain ⟨j, hj⟩ := h t ht
  rw [← Option.some.inj ((hc.index j t hj).symm.trans hti)]
  exact TokenStream.lt_size_of_token? hj

end Cursor

end ParseTree
