import Mathlib.Data.List.Forall2
import Mathlib.Order.Monotone.Basic
import ParseTree.Proofs.Token.Visible

/-!
# Two streams that differ in hidden tokens

Two streams agree if their visible tokens have the same kinds and texts, whatever is hidden between
them. What a cursor meets in the one has a counterpart in the other: the token, the position or the
offset with as many visible tokens before it.

## Main definitions

* `TokenStream.Agrees`: the streams say the same with their visible tokens
* `TokenStream.SamePlace`, `TokenStream.SameOffset`: positions and offsets of the same rank
* `TokenStream.Twins`, `Token.Counterpart`: tokens of the same rank, or made up at the same offset
* `Cursor.Counterpart`: cursors at the same place, with the same recorded lookahead

## Main results

* `SamePlace.eq_iff_eq`, `SameOffset.le_of_lt`: counterparts are in the same order
* `Counterpart.kind`, `Counterpart.textOf`: they say the same
* `Cursor.Counterpart.peek`, `Cursor.Counterpart.advance`: cursors go on at the same place
-/

namespace ParseTree

namespace TokenStream

/-- Both streams keep their promise, and their visible tokens agree in kind and text. -/
structure Agrees (ts ts' : TokenStream) : Prop where
  /-- The one keeps its promise. -/
  left : ts.Contract
  /-- So does the other. -/
  right : ts'.Contract
  /-- The visible tokens say the same. -/
  wording : ts.visible.map (fun t => (t.kind, ts.textOf t)) =
    ts'.visible.map fun t => (t.kind, ts'.textOf t)

/-- The tokens have the same rank among the visible ones. -/
def Twins (ts ts' : TokenStream) (t t' : Token) : Prop :=
  ∃ k : ℕ, ts.visible[k]? = some t ∧ ts'.visible[k]? = some t'

/-- The positions are places of the same rank. -/
structure SamePlace (ts ts' : TokenStream) (i i' : ℕ) : Prop where
  /-- The one is a place. -/
  left : ts.IsPlace i
  /-- So is the other. -/
  right : ts'.IsPlace i'
  /-- As many visible tokens come before. -/
  rank : ts.rank i = ts'.rank i'

/-- Where the visible token of a rank starts; where the text ends, after the last one. -/
def offset (ts : TokenStream) (k : ℕ) : ℕ :=
  (ts.visible[k]?).elim ts.length (·.span.start)

/-- The offsets are those of the same rank. -/
def SameOffset (ts ts' : TokenStream) (o o' : ℕ) : Prop :=
  ∃ k, ts.offset k = o ∧ ts'.offset k = o'

variable {ts ts' : TokenStream} {i i' j j' k n o o' p p' : ℕ} {t t' u u' : Token}

/-! ### Order -/

theorem SamePlace.eq_iff_eq (h : ts.SamePlace ts' i i') (h' : ts.SamePlace ts' j j') :
    i = j ↔ i' = j' := by
  constructor
  · rintro rfl
    exact h.right.eq_of_rank_eq h'.right (h.rank.symm.trans h'.rank)
  · rintro rfl
    exact h.left.eq_of_rank_eq h'.left (h.rank.trans h'.rank.symm)

theorem offset_mono (hc : ts.Contract) : Monotone ts.offset := by
  intro k l hkl
  rw [offset, offset]
  cases hl : ts.visible[l]? with
  | none =>
    cases hk : ts.visible[k]? with
    | none => exact le_rfl
    | some t =>
      obtain ⟨i, hi, -, -⟩ := exists_of_getElem?_visible hk
      exact (hc.start_le_stop hi).trans (hc.stop_le_length hi)
  | some u =>
    obtain ⟨j, hj, hvj, rfl⟩ := exists_of_getElem?_visible hl
    obtain ⟨t, ht⟩ : ∃ t, ts.visible[k]? = some t :=
      ⟨_, List.getElem?_eq_getElem (hkl.trans_lt (List.getElem?_eq_some_iff.mp hl).1)⟩
    obtain ⟨i, hi, hvi, rfl⟩ := exists_of_getElem?_visible ht
    rw [ht]
    rcases hkl.lt_or_eq with hlt | heq
    · have hij := (rank_lt_rank_iff hi hvi).mp hlt
      exact (hc.start_le_stop hi).trans (hc.stop_le_start hi hj hij)
    · rw [heq, hl] at ht
      rw [Option.some.inj ht]

/-- Offsets of the same ranks are in the same order. Tokens without text may make them coincide in
one of the streams. -/
theorem SameOffset.le_of_lt (hc : ts.Contract) (hc' : ts'.Contract) (h : ts.SameOffset ts' o o')
    (h' : ts.SameOffset ts' p p') (hlt : o < p) : o' ≤ p' := by
  obtain ⟨k, rfl, rfl⟩ := h
  obtain ⟨l, rfl, rfl⟩ := h'
  exact offset_mono hc' ((offset_mono hc).reflect_lt hlt).le

/-! ### Twins -/

theorem Twins.exists_index (hc : ts.Contract) (hc' : ts'.Contract) (h : ts.Twins ts' t t') :
    ∃ i i', t.index = some i ∧ t'.index = some i' ∧ ts.token? i = some t ∧
      ts'.token? i' = some t' ∧ ts.SamePlace ts' i i' := by
  obtain ⟨k, hk, hk'⟩ := h
  obtain ⟨i, hi, hv, hrank⟩ := exists_of_getElem?_visible hk
  obtain ⟨i', hi', hv', hrank'⟩ := exists_of_getElem?_visible hk'
  exact ⟨i, i', hc.index i t hi, hc'.index i' t' hi', hi, hi', isPlace_of_visible hi hv,
    isPlace_of_visible hi' hv', hrank.trans hrank'.symm⟩

theorem Twins.isHidden (h : ts.Twins ts' t t') : t.isHidden = false ∧ t'.isHidden = false := by
  obtain ⟨k, hk, hk'⟩ := h
  obtain ⟨-, -, hv, -⟩ := exists_of_getElem?_visible hk
  obtain ⟨-, -, hv', -⟩ := exists_of_getElem?_visible hk'
  exact ⟨hv, hv'⟩

theorem Twins.sameOffset (h : ts.Twins ts' t t') :
    ts.SameOffset ts' t.span.start t'.span.start := by
  obtain ⟨k, hk, hk'⟩ := h
  exact ⟨k, by rw [offset, hk]; rfl, by rw [offset, hk']; rfl⟩

section Agrees

variable (h : ts.Agrees ts')

include h

theorem Agrees.length_visible : ts.visible.length = ts'.visible.length := by
  have := congrArg List.length h.wording
  rwa [List.length_map, List.length_map] at this

theorem Twins.wording (ht : ts.Twins ts' t t') :
    t.kind = t'.kind ∧ ts.textOf t = ts'.textOf t' := by
  obtain ⟨k, hk, hk'⟩ := ht
  have := congrArg (fun l : List (TokenKind × String) => l[k]?) h.wording
  simp only [List.getElem?_map, hk, hk'] at this
  exact Prod.mk.inj (Option.some.inj this)

/-- A token is known by its position if and only if its twin is. -/
theorem Twins.any_index (ht : ts.Twins ts' t t') {l l' : List Token}
    (hl : List.Forall₂ (ts.Twins ts') l l') :
    (l.any (·.index == t.index)) = l'.any (·.index == t'.index) := by
  obtain ⟨i, i', hi, hi', -, -, hp⟩ := ht.exists_index h.left h.right
  induction hl with
  | nil => rfl
  | @cons u u' l l' hu _ ih =>
    obtain ⟨j, j', hj, hj', -, -, hp'⟩ := hu.exists_index h.left h.right
    have heq : (u.index == t.index) = (u'.index == t'.index) := by
      rw [Bool.eq_iff_iff, beq_iff_eq, beq_iff_eq, hi, hi', hj, hj', Option.some_inj,
        Option.some_inj]
      exact hp'.eq_iff_eq hp
    rw [List.any_cons, List.any_cons, heq, ih]

theorem Agrees.twins_visible : List.Forall₂ (ts.Twins ts') ts.visible ts'.visible := by
  refine List.forall₂_iff_get.mpr ⟨h.length_visible, fun k hk hk' => ⟨k, ?_, ?_⟩⟩
  · exact List.getElem?_eq_getElem hk
  · exact List.getElem?_eq_getElem hk'

/-- The visible tokens between positions of the same ranks. -/
theorem Agrees.twins_slice (hij : i ≤ j) (hij' : i' ≤ j') (hi : ts.rank i = ts'.rank i')
    (hj : ts.rank j = ts'.rank j') :
    List.Forall₂ (ts.Twins ts') ((ts.slice i j).filter fun t => !t.isHidden)
      ((ts'.slice i' j').filter fun t => !t.isHidden) := by
  rw [filter_slice hij, filter_slice hij', hi, hj]
  exact List.forall₂_drop _ (List.forall₂_take _ h.twins_visible)

end Agrees

/-- Items at the same index of related lists are related. -/
theorem rel_getElem? {α β : Type} {R : α → β → Prop} {l : List α} {l' : List β}
    (h : List.Forall₂ R l l') (n : ℕ) : Option.Rel R l[n]? l'[n]? := by
  induction h generalizing n with
  | nil => exact .none
  | cons hr _ ih =>
    cases n with
    | zero => exact .some hr
    | succ n => exact ih n

end TokenStream

open TokenStream

variable {ts ts' : TokenStream} {i i' j j' k n o o' p p' : ℕ} {t t' u u' : Token}

/-! ### Answered tokens -/

/-- The tokens have the same rank, or are made up for the same kind at offsets of the same rank. -/
inductive Token.Counterpart (ts ts' : TokenStream) : Token → Token → Prop
  /-- Tokens of the streams. -/
  | twins {t t' : Token} (h : ts.Twins ts' t t') : Counterpart ts ts' t t'
  /-- Tokens that are made up. -/
  | synthetic (kind : TokenKind) {o o' : ℕ} (h : ts.SameOffset ts' o o') :
    Counterpart ts ts' (.placeholder kind o) (.placeholder kind o')

namespace Token.Counterpart

theorem atEnd (h : ts.Agrees ts') : Counterpart ts ts' ts.atEnd ts'.atEnd := by
  rw [h.left.atEnd_eq, h.right.atEnd_eq]
  refine .synthetic .endOfInput ⟨ts.visible.length, ?_, ?_⟩
  · rw [offset, List.getElem?_eq_none le_rfl]
    rfl
  · rw [h.length_visible, offset, List.getElem?_eq_none le_rfl]
    rfl

theorem sameOffset (h : Counterpart ts ts' t t') :
    ts.SameOffset ts' t.span.start t'.span.start := by
  cases h with
  | twins h => exact h.sameOffset
  | synthetic kind h => exact h

theorem kind (h : ts.Agrees ts') (ht : Counterpart ts ts' t t') : t.kind = t'.kind := by
  cases ht with
  | twins ht => exact (ht.wording h).1
  | synthetic => rfl

theorem isSynthetic (h : ts.Agrees ts') (ht : Counterpart ts ts' t t') :
    t.isSynthetic = t'.isSynthetic := by
  cases ht with
  | twins ht =>
    obtain ⟨i, i', hi, hi', -⟩ := ht.exists_index h.left h.right
    rw [Token.isSynthetic, Token.isSynthetic, hi, hi']
    rfl
  | synthetic => rfl

/-- A token that is made up has no text. -/
theorem textOf_placeholder (ts : TokenStream) (kind : TokenKind) (o : ℕ) :
    ts.textOf (.placeholder kind o) = "" := by
  show ((Text.slice? ts.text o o).getD "") = ""
  rw [Text.slice?, if_pos (Nat.le_refl o), Nat.sub_self]
  cases Text.splitBytes? ts.text.toList o with
  | none => rfl
  | some p => simp

theorem textOf (h : ts.Agrees ts') (ht : Counterpart ts ts' t t') :
    ts.textOf t = ts'.textOf t' := by
  cases ht with
  | twins ht => exact (ht.wording h).2
  | synthetic => rw [textOf_placeholder, textOf_placeholder]

theorem getD {a a' : Option Token} (h : ts.Agrees ts') (ha : Option.Rel (ts.Twins ts') a a') :
    Counterpart ts ts' (a.getD ts.atEnd) (a'.getD ts'.atEnd) := by
  cases ha with
  | some ht => exact .twins ht
  | none => exact .atEnd h

end Token.Counterpart

/-! ### Cursors -/

/-- The cursors are at the same place and have recorded the same tokens. -/
structure Cursor.Counterpart (ts ts' : TokenStream) (c c' : Cursor) : Prop where
  /-- They are at the same place. -/
  place : ts.SamePlace ts' c.position c'.position
  /-- They have recorded the same tokens. -/
  recorded : List.Forall₂ (ts.Twins ts') c.recorded c'.recorded

namespace Cursor.Counterpart

variable {c c' : Cursor}

theorem start (ts ts' : TokenStream) : Counterpart ts ts' (.start ts) (.start ts') where
  place := ⟨ts.isPlace_nextVisible 0, ts'.isPlace_nextVisible 0, by
    rw [Cursor.start, Cursor.start, rank_nextVisible, rank_nextVisible]
    rfl⟩
  recorded := .nil

variable (h : ts.Agrees ts') (hc : Counterpart ts ts' c c')

include h hc

/-- The tokens at the same distance are counterparts. -/
theorem peek (i : Int) : Token.Counterpart ts ts' (c.peek ts i) (c'.peek ts' i) := by
  rw [Cursor.peek, Cursor.peek]
  rcases i with (_ | n) | n
  · exact .atEnd h
  · rw [peek_ofNat_succ hc.place.left, peek_ofNat_succ hc.place.right, hc.place.rank]
    exact .getD h (rel_getElem? h.twins_visible _)
  · rw [peek_negSucc hc.place.left.le_size, peek_negSucc hc.place.right.le_size, hc.place.rank]
    refine .getD h (rel_getElem? ?_ n)
    exact List.forall₂_reverse_iff.mpr (List.forall₂_take _ h.twins_visible)

theorem previous? : Option.Rel (ts.Twins ts') (c.previous? ts) (c'.previous? ts') := by
  have hle := hc.place.left.le_size
  have hle' := hc.place.right.le_size
  rw [Cursor.previous?, Cursor.previous?, Nat.min_eq_left hle, Nat.min_eq_left hle',
    lookBack_succ hle 0, lookBack_succ hle' 0, visibleBefore_eq_take, visibleBefore_eq_take,
    hc.place.rank]
  refine rel_getElem? ?_ 0
  exact List.forall₂_reverse_iff.mpr (List.forall₂_take _ h.twins_visible)

theorem record (ht : Token.Counterpart ts ts' t t') :
    Counterpart ts ts' (c.record t) (c'.record t') := by
  cases ht with
  | twins ht =>
    rw [Cursor.record, Cursor.record, ht.any_index h hc.recorded,
      (Token.Counterpart.twins ht).isSynthetic h]
    split_ifs
    · exact hc
    · exact ⟨hc.place, List.rel_append hc.recorded (.cons ht .nil)⟩
  | synthetic => exact hc

theorem lookAt (i : Int) : Counterpart ts ts' (c.lookAt ts i).2 (c'.lookAt ts' i).2 := by
  rw [Cursor.lookAt, Cursor.lookAt]
  dsimp only
  split_ifs
  · exact hc.record h (hc.peek h i)
  · exact hc

theorem advance : Counterpart ts ts' (c.advance ts) (c'.advance ts') where
  place := ⟨isPlace_advance hc.place.left, isPlace_advance hc.place.right, by
    rw [rank_advance hc.place.left, rank_advance hc.place.right, hc.place.rank, h.length_visible]⟩
  recorded := by
    rw [recorded_advance, recorded_advance]
    exact hc.recorded

theorem finish : Counterpart ts ts' (c.finish ts) (c'.finish ts') where
  place := ⟨ts.isPlace_size, ts'.isPlace_size, by
    rw [position_finish, position_finish, rank_of_size_le le_rfl, rank_of_size_le le_rfl,
      h.length_visible]⟩
  recorded := hc.recorded

omit h

theorem forget : Counterpart ts ts' c.forget c'.forget :=
  ⟨hc.place, .nil⟩

end Cursor.Counterpart

end ParseTree
