import Mathlib.Data.Nat.Init
import Mathlib.Order.Nat
import ParseTree.Proofs.Token.Contract

/-!
# Visible tokens

Recognition only sees the visible tokens of a stream. A cursor rests on one of them or at the end,
and the number of visible tokens before its position tells where it is: what it answers and where it
goes depends on that number only.

## Main definitions

* `TokenStream.visible`: the visible tokens of a stream
* `TokenStream.rank`: the number of visible tokens before a position
* `TokenStream.IsPlace`: the positions at which a cursor can rest

## Main results

* `find?_slice`, `lookBack_one`: the next visible token after a position, the last one before it
* `peek_ofNat_succ`, `peek_negSucc`: what a cursor answers, by its rank
* `rank_forward`, `rank_advance`: where it goes
* `rank_lt_rank_iff`: ranks are in the order of the positions
* `filter_slice`: the visible tokens between two positions
* `position_advance_le`, `exists_previous`: a cursor leaves out no visible token
-/

namespace ParseTree

namespace TokenStream

variable {ts : TokenStream} {a b i j k n : ℕ} {t : Token}

/-! ### The next visible token -/

theorem slice_eq_cons (ha : a < b) (h : ts.token? a = some t) :
    ts.slice a b = t :: ts.slice (a + 1) b := by
  have hone : ts.slice a (a + 1) = [t] := by
    rw [slice_succ le_rfl h, slice_self, List.nil_append]
  rw [← slice_append_slice ts (Nat.le_succ a) ha, hone]
  rfl

theorem nextVisible_of_token? (h : ts.token? a = some t) :
    ts.nextVisible a = if t.isHidden then ts.nextVisible (a + 1) else a := by
  have ha : a < ts.tokens.size := lt_size_of_token? h
  have ht : ts.tokens[a] = t := Option.some.inj ((Array.getElem?_eq_getElem ha).symm.trans h)
  rw [nextVisible, dif_pos ha, ht]

/-- The first visible token of a slice is the next one from its start on; without one, the next one
comes after the slice. -/
theorem find?_slice (hab : a ≤ b) (hb : b ≤ ts.size) :
    match (ts.slice a b).find? fun t => !t.isHidden with
    | some t => ts.token? (ts.nextVisible a) = some t
    | none => ts.nextVisible a = ts.nextVisible b := by
  induction hab using Nat.decreasingInduction with
  | self => simp
  | @of_succ a ha ih =>
    obtain ⟨t, ht⟩ := exists_token? (Nat.lt_of_lt_of_le ha hb)
    rw [slice_eq_cons ha ht, List.find?_cons, nextVisible_of_token? ht]
    cases hh : t.isHidden with
    | true => exact ih
    | false => exact ht

theorem nextVisible_of_size_le (h : ts.size ≤ a) : ts.nextVisible a = ts.size := by
  have h' : ¬ a < ts.tokens.size := Nat.not_lt_of_le h
  rw [nextVisible, dif_neg h']

theorem nextVisible_position {c : Cursor} (h : c.Rests ts) :
    ts.nextVisible c.position = c.position := by
  by_cases hlt : c.position < ts.size
  · obtain ⟨t, ht⟩ := exists_token? hlt
    rw [nextVisible_of_token? ht, if_neg (by simp [h.2 t ht])]
  · rw [nextVisible_of_size_le (Nat.le_of_not_lt hlt)]
    exact Nat.le_antisymm (Nat.le_of_not_lt hlt) h.1

/-- Looking back, the last visible token is found, with only hidden ones after it. -/
theorem lookBack_one (hb : b ≤ ts.size) :
    match ts.lookBack b 1 with
    | some t => ∃ a < b, ts.token? a = some t ∧ ts.nextVisible (a + 1) = ts.nextVisible b
    | none => ts.nextVisible 0 = ts.nextVisible b := by
  induction b with
  | zero => rfl
  | succ b ih =>
    obtain ⟨t, ht⟩ := exists_token? hb
    simp only [lookBack, ht]
    cases hh : t.isHidden with
    | false => exact ⟨b, Nat.lt_succ_self b, ht, rfl⟩
    | true =>
      have hnext : ts.nextVisible b = ts.nextVisible (b + 1) := by
        rw [nextVisible_of_token? ht, if_pos hh]
      have ih := ih (Nat.le_of_succ_le hb)
      rw [if_pos rfl]
      cases hl : ts.lookBack b 1 with
      | none =>
        rw [hl] at ih
        exact ih.trans hnext
      | some u =>
        rw [hl] at ih
        obtain ⟨a, ha, hu, hn⟩ := ih
        exact ⟨a, Nat.lt_succ_of_lt ha, hu, hn.trans hnext⟩

theorem nextVisible_mono (h : a ≤ b) : ts.nextVisible a ≤ ts.nextVisible b := by
  by_cases hb : b ≤ ts.size
  · induction h using Nat.decreasingInduction with
    | self => exact le_rfl
    | @of_succ a ha ih =>
      obtain ⟨t, ht⟩ := exists_token? (Nat.lt_of_lt_of_le ha hb)
      rw [nextVisible_of_token? ht]
      split_ifs
      · exact ih
      · exact (Nat.le_of_lt ha).trans (le_nextVisible hb)
  · rw [nextVisible_of_size_le (Nat.le_of_not_le hb)]
    exact nextVisible_le_size ..

/-! ### Ranks -/

/-- The visible tokens, in the order of the stream. -/
def visible (ts : TokenStream) : List Token :=
  ts.tokens.toList.filter fun t => !t.isHidden

/-- The number of visible tokens before a position. -/
def rank (ts : TokenStream) (i : ℕ) : ℕ :=
  (ts.visibleBefore i).length

/-- A cursor can rest at the position: a visible token is there, or the end. -/
def IsPlace (ts : TokenStream) (i : ℕ) : Prop :=
  ts.nextVisible i = i

theorem visibleBefore_append_drop (ts : TokenStream) (i : ℕ) :
    ts.visibleBefore i ++ (ts.tokens.toList.drop i).filter (fun t => !t.isHidden) = ts.visible := by
  rw [visibleBefore, ← List.filter_append, List.take_append_drop, visible]

theorem visibleBefore_eq_take (ts : TokenStream) (i : ℕ) :
    ts.visibleBefore i = ts.visible.take (ts.rank i) := by
  rw [← visibleBefore_append_drop ts i, rank, List.take_left]

theorem rank_le_length (ts : TokenStream) (i : ℕ) : ts.rank i ≤ ts.visible.length := by
  rw [rank, visibleBefore_eq_take, List.length_take]
  exact Nat.min_le_right ..

theorem rank_succ (h : ts.token? i = some t) :
    ts.rank (i + 1) = ts.rank i + if t.isHidden then 0 else 1 := by
  rw [rank, visibleBefore_succ h, List.length_append, ← rank]
  split_ifs <;> rfl

theorem rank_succ_of_visible (h : ts.token? i = some t) (hv : t.isHidden = false) :
    ts.rank (i + 1) = ts.rank i + 1 := by
  rw [rank_succ h, hv]
  rfl

theorem rank_mono (h : a ≤ b) : ts.rank a ≤ ts.rank b := by
  rw [rank, rank, visibleBefore, visibleBefore]
  exact ((List.take_prefix_take_left h).filter _).length_le

theorem rank_of_size_le (h : ts.size ≤ i) : ts.rank i = ts.visible.length := by
  rw [rank, visibleBefore, List.take_of_length_le, visible]
  rwa [Array.length_toList]

@[simp] theorem rank_nextVisible (ts : TokenStream) (i : ℕ) :
    ts.rank (ts.nextVisible i) = ts.rank i := by
  rw [rank, rank, visibleBefore_nextVisible]

/-- A visible token is found by its rank. -/
theorem getElem?_rank (h : ts.token? i = some t) (hv : t.isHidden = false) :
    ts.visible[ts.rank i]? = some t := by
  rw [token?, ← Array.getElem?_toList] at h
  obtain ⟨hi, rfl⟩ := List.getElem?_eq_some_iff.mp h
  rw [← visibleBefore_append_drop ts i, List.drop_eq_getElem_cons hi,
    List.filter_cons_of_pos (by rw [hv]; rfl), rank, List.getElem?_append_right le_rfl,
    Nat.sub_self]
  rfl

/-- What a filter keeps comes after as many kept items as its place tells. -/
theorem exists_of_getElem?_filter {α : Type} {p : α → Bool} {l : List α} {x : α}
    (h : (l.filter p)[k]? = some x) :
    ∃ i, l[i]? = some x ∧ p x = true ∧ ((l.take i).filter p).length = k := by
  induction l generalizing k with
  | nil => cases h
  | cons y l ih =>
    by_cases hy : p y = true
    · rw [List.filter_cons_of_pos hy] at h
      cases k with
      | zero =>
        obtain rfl := Option.some.inj h
        exact ⟨0, rfl, hy, rfl⟩
      | succ k =>
        obtain ⟨i, hi, hx, hlen⟩ := ih h
        refine ⟨i + 1, hi, hx, ?_⟩
        rw [List.take_succ_cons, List.filter_cons_of_pos hy, List.length_cons, hlen]
    · rw [List.filter_cons_of_neg hy] at h
      obtain ⟨i, hi, hx, hlen⟩ := ih h
      refine ⟨i + 1, hi, hx, ?_⟩
      rw [List.take_succ_cons, List.filter_cons_of_neg hy, hlen]

/-- Every visible token is somewhere in the stream. -/
theorem exists_of_getElem?_visible (h : ts.visible[k]? = some t) :
    ∃ i, ts.token? i = some t ∧ t.isHidden = false ∧ ts.rank i = k := by
  obtain ⟨i, hi, hv, hrank⟩ := exists_of_getElem?_filter h
  rw [Array.getElem?_toList] at hi
  exact ⟨i, hi, by simpa using hv, hrank⟩

/-! ### Places -/

theorem isPlace_nextVisible (ts : TokenStream) (i : ℕ) : ts.IsPlace (ts.nextVisible i) := by
  by_cases hlt : ts.nextVisible i < ts.size
  · obtain ⟨t, ht, hv⟩ := token?_nextVisible hlt
    rw [IsPlace, nextVisible_of_token? ht, if_neg (by simp [hv])]
  · have he := Nat.le_antisymm (ts.nextVisible_le_size i) (Nat.le_of_not_lt hlt)
    rw [IsPlace, nextVisible_of_size_le (Nat.le_of_eq he.symm), he]

theorem isPlace_size (ts : TokenStream) : ts.IsPlace ts.size :=
  nextVisible_of_size_le le_rfl

theorem isPlace_of_visible (h : ts.token? i = some t) (hv : t.isHidden = false) : ts.IsPlace i := by
  rw [IsPlace, nextVisible_of_token? h, if_neg (by simp [hv])]

theorem IsPlace.le_size (h : ts.IsPlace i) : i ≤ ts.size :=
  h.symm.le.trans (ts.nextVisible_le_size i)

theorem IsPlace.visible (h : ts.IsPlace i) (ht : ts.token? i = some t) : t.isHidden = false := by
  obtain ⟨u, hu, hv⟩ := token?_nextVisible (h.symm ▸ lt_size_of_token? ht)
  rw [h, ht] at hu
  rw [Option.some.inj hu]
  exact hv

/-- What is at a place is known from its rank. -/
theorem token?_of_isPlace (h : ts.IsPlace i) : ts.token? i = ts.visible[ts.rank i]? := by
  cases ht : ts.token? i with
  | none => rw [rank_of_size_le (token?_eq_none_iff.mp ht), List.getElem?_eq_none le_rfl]
  | some t => exact (getElem?_rank ht (h.visible ht)).symm

/-- The rank of a visible token tells which positions it comes before. -/
theorem rank_lt_rank_iff (h : ts.token? i = some t) (hv : t.isHidden = false) :
    ts.rank i < ts.rank j ↔ i < j := by
  constructor
  · intro hlt
    by_contra hn
    exact absurd (rank_mono (Nat.le_of_not_lt hn)) (Nat.not_le_of_lt hlt)
  · intro hlt
    have hle : ts.rank (i + 1) ≤ ts.rank j := rank_mono (Nat.succ_le_of_lt hlt)
    rwa [rank_succ_of_visible h hv] at hle

/-- Ranks are in the order of the places. -/
theorem IsPlace.rank_lt_rank_iff (hi : ts.IsPlace i) (hj : ts.IsPlace j) :
    ts.rank i < ts.rank j ↔ i < j := by
  cases ht : ts.token? i with
  | some t => exact TokenStream.rank_lt_rank_iff ht (hi.visible ht)
  | none =>
    have hs := token?_eq_none_iff.mp ht
    rw [rank_of_size_le hs]
    exact iff_of_false (Nat.not_lt_of_le (ts.rank_le_length j))
      (Nat.not_lt_of_le (hj.le_size.trans hs))

theorem IsPlace.eq_of_rank_eq (hi : ts.IsPlace i) (hj : ts.IsPlace j) (h : ts.rank i = ts.rank j) :
    i = j := by
  refine Nat.le_antisymm (Nat.le_of_not_lt fun hlt => ?_) (Nat.le_of_not_lt fun hlt => ?_)
  · exact Nat.ne_of_lt ((hj.rank_lt_rank_iff hi).mpr hlt) h.symm
  · exact Nat.ne_of_lt ((hi.rank_lt_rank_iff hj).mpr hlt) h

/-! ### Answers and moves -/

/-- One step ahead of a place is the place of the next rank, unless the end is reached. -/
theorem rank_step (h : ts.IsPlace i) (hi : i < ts.size) :
    ts.rank (ts.nextVisible (i + 1)) = ts.rank i + 1 := by
  obtain ⟨t, ht⟩ := exists_token? hi
  rw [rank_nextVisible, rank_succ_of_visible ht (h.visible ht)]

theorem isPlace_forward (h : ts.IsPlace i) (n : ℕ) : ts.IsPlace (ts.forward i n) := by
  induction n generalizing i with
  | zero => exact h
  | succ n ih =>
    rw [forward]
    split_ifs
    · exact h
    · exact ih (ts.isPlace_nextVisible _)

theorem rank_forward (h : ts.IsPlace i) (n : ℕ) :
    ts.rank (ts.forward i n) = min (ts.rank i + n) ts.visible.length := by
  induction n generalizing i with
  | zero => exact (Nat.min_eq_left (ts.rank_le_length i)).symm
  | succ n ih =>
    rw [forward]
    split_ifs with hs
    · rw [rank_of_size_le hs]
      exact (Nat.min_eq_right (Nat.le_add_right ..)).symm
    · rw [ih (ts.isPlace_nextVisible _), rank_step h (Nat.lt_of_not_le hs), Nat.add_right_comm,
        Nat.add_assoc]

/-- Looking ahead, a cursor answers the visible tokens from its rank on. -/
theorem peek_ofNat_succ (h : ts.IsPlace i) (n : ℕ) :
    ts.peek i (.ofNat (n + 1)) = (ts.visible[ts.rank i + n]?).getD ts.atEnd := by
  rw [peek, token?_of_isPlace (isPlace_forward h n), rank_forward h]
  rcases Nat.le_total (ts.rank i + n) ts.visible.length with hle | hle
  · rw [Nat.min_eq_left hle]
  · rw [Nat.min_eq_right hle, List.getElem?_eq_none le_rfl, List.getElem?_eq_none hle]

theorem lookBack_succ (hi : i ≤ ts.size) (n : ℕ) :
    ts.lookBack i (n + 1) = (ts.visibleBefore i).reverse[n]? := by
  induction i generalizing n with
  | zero => rfl
  | succ i ih =>
    obtain ⟨t, ht⟩ := exists_token? hi
    have ih := ih (Nat.le_of_succ_le hi)
    simp only [lookBack, ht]
    rw [visibleBefore_succ ht]
    cases hv : t.isHidden with
    | true =>
      rw [if_pos rfl, if_pos rfl, List.append_nil]
      exact ih n
    | false =>
      rw [if_neg Bool.false_ne_true, if_neg Bool.false_ne_true, List.reverse_concat]
      cases n with
      | zero => rfl
      | succ n =>
        rw [if_neg (Nat.succ_succ_ne_one n)]
        exact ih n

/-- Looking back, a cursor answers the visible tokens before its rank. -/
theorem peek_negSucc (hi : i ≤ ts.size) (n : ℕ) :
    ts.peek i (.negSucc n) =
      ((ts.visible.take (ts.rank i)).reverse[n]?).getD ts.atEnd := by
  rw [peek, Nat.min_eq_left hi, lookBack_succ hi, visibleBefore_eq_take]

/-- Looking back finds no hidden token. -/
theorem isHidden_of_lookBack {n : ℕ} (h : ts.lookBack i n = some t) : t.isHidden = false := by
  induction i generalizing n with
  | zero => cases h
  | succ i ih =>
    rw [lookBack] at h
    cases hi : ts.token? i with
    | none => simp [hi] at h
    | some u =>
      simp only [hi] at h
      split_ifs at h with hv
      · exact ih h
      · exact Option.some.inj h ▸ Bool.eq_false_iff.mpr hv
      · exact ih h

/-- A cursor answers no hidden token. -/
theorem IsPlace.isHidden_peek (h : ts.IsPlace i) (steps : Int) :
    (ts.peek i steps).isHidden = false := by
  rcases steps with (- | n) | n
  · rfl
  · rw [peek]
    cases ht : ts.token? (ts.forward i n) with
    | none => rfl
    | some t => exact (isPlace_forward h n).visible ht
  · rw [peek]
    cases ht : ts.lookBack (min i ts.size) (n + 1) with
    | none => rfl
    | some t => exact isHidden_of_lookBack ht

/-- The visible tokens between two positions. -/
theorem filter_slice (h : a ≤ b) : (ts.slice a b).filter (fun t => !t.isHidden) =
    (ts.visible.take (ts.rank b)).drop (ts.rank a) := by
  rw [← visibleBefore_eq_take, visibleBefore, ← take_append_slice ts h, List.filter_append,
    ← visibleBefore, rank, List.drop_left]

end TokenStream

namespace Cursor

variable {ts : TokenStream} {c : Cursor} {i : ℕ} {t : Token}

theorem rests_iff : c.Rests ts ↔ ts.IsPlace c.position :=
  ⟨fun h => TokenStream.nextVisible_position h, fun h => ⟨h.le_size, fun _ => h.visible⟩⟩

/-- Going forward, a cursor passes one visible token, unless it is at the end. -/
theorem rank_advance (h : ts.IsPlace c.position) :
    ts.rank (c.advance ts).position = min (ts.rank c.position + 1) ts.visible.length := by
  rw [advance]
  split_ifs with hs
  · rw [TokenStream.rank_of_size_le hs]
    exact (Nat.min_eq_right (Nat.le_succ _)).symm
  · rw [TokenStream.rank_step h (Nat.lt_of_not_le hs), ← TokenStream.rank_step h
      (Nat.lt_of_not_le hs)]
    exact (Nat.min_eq_left (ts.rank_le_length _)).symm

theorem isPlace_advance (h : ts.IsPlace c.position) : ts.IsPlace (c.advance ts).position :=
  rests_iff.mp (rests_iff.mpr h).advance

/-- Going forward, a cursor does not pass the next visible token. -/
theorem position_advance_le (hlt : c.position < i) (ht : ts.token? i = some t)
    (hv : t.isHidden = false) : (c.advance ts).position ≤ i := by
  have hsize := hlt.trans (TokenStream.lt_size_of_token? ht)
  rw [Cursor.advance, if_neg (Nat.not_le_of_lt hsize)]
  calc ts.nextVisible (c.position + 1)
    _ ≤ ts.nextVisible i := TokenStream.nextVisible_mono hlt
    _ = i := TokenStream.isPlace_of_visible ht hv

/-- A cursor with a visible token behind it looks back at this token or at a later one. -/
theorem exists_previous (hc : ts.Contract) (hb : c.position ≤ ts.size)
    (hlt : i < c.position) (ht : ts.token? i = some t) (hv : t.isHidden = false) :
    ∃ last, (c.previous? ts).bind (·.index) = some last ∧ i ≤ last := by
  have hback := TokenStream.lookBack_one hb
  have hnext : i < ts.nextVisible c.position := hlt.trans_le (TokenStream.le_nextVisible hb)
  have hplace : ts.nextVisible i = i := TokenStream.isPlace_of_visible ht hv
  rw [Cursor.previous?, Nat.min_eq_left hb]
  cases hl : ts.lookBack c.position 1 with
  | none =>
    rw [hl] at hback
    have hle : ts.nextVisible 0 ≤ ts.nextVisible i := TokenStream.nextVisible_mono (Nat.zero_le i)
    omega
  | some u =>
    rw [hl] at hback
    obtain ⟨last, -, hu, hlast⟩ := hback
    refine ⟨last, hc.index last u hu, Nat.le_of_not_lt fun hlater => ?_⟩
    have hle : ts.nextVisible (last + 1) ≤ ts.nextVisible i := TokenStream.nextVisible_mono hlater
    omega

end Cursor

end ParseTree
