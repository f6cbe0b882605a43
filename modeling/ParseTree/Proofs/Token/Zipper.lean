import Mathlib.Data.List.Nodup
import ParseTree.Proofs.Token.Visible

/-!
# Zippers

To recognition a cursor is a cut through the visible tokens of the stream: those before it and those
from it on. The calls on a cursor only depend on the two lists, and they change them as they should:
going forward moves the first token ahead behind the cursor, at the end nothing happens. The hidden
tokens, the bounds of the stream and the direction of a search are of no concern.

What is recorded are the tokens ahead that were asked for, once each, in the order of the first
request. Looking back and peeking leave no trace, nor does the end of the input.

## Main definitions

* `Zipper`: the visible tokens before a cut and those after it, with the calls on it
* `Cursor.Call`: the calls on a cursor, with `Cursor.after` and `Cursor.reply`
* `Cursor.zipper`: the zipper of a cursor
* `Zipper.requests`: the tokens ahead that calls ask for
* `TokenStream.Distinct`: the tokens of the stream can be told apart by their index

## Main results

* `zipper_after`, `reply_eq`: what one call does to the zipper and what it replies
* `recorded_after`: what one call records
* `refines_reached`: whatever is called, a cursor is its zipper
-/

namespace ParseTree

/-- The visible tokens before a cut and those after it. -/
structure Zipper where
  /-- The tokens before the cut. -/
  before : List Token
  /-- The tokens after the cut. -/
  rest : List Token
deriving DecidableEq, Repr

namespace Cursor

/-- The calls on a cursor. -/
inductive Call where
  /-- Past the current token. -/
  | advance
  /-- To the end of the stream. -/
  | finish
  /-- The kind of the token some steps away, recorded. -/
  | kindAt (steps : Int)
  /-- The token some steps away, recorded. -/
  | lookAt (steps : Int)
  /-- The token some steps away. -/
  | peek (steps : Int)
  /-- Forgets what was recorded. -/
  | forget
  /-- Forgets the token recorded last. -/
  | forgetLast
deriving DecidableEq, Repr

/-- The type of the reply to a call. -/
abbrev Call.Reply : Call → Type
  | .kindAt _ => TokenKind
  | .lookAt _ | .peek _ => Token
  | .advance | .finish | .forget | .forgetLast => Unit

/-- The call takes nothing away from what is recorded. -/
def Call.keeps : Call → Bool
  | .forget | .forgetLast => false
  | _ => true

/-- What a call replies. -/
def reply (ts : TokenStream) (c : Cursor) : (call : Call) → call.Reply
  | .kindAt steps => (c.lookAt ts steps).1.kind
  | .lookAt steps => (c.lookAt ts steps).1
  | .peek steps => c.peek ts steps
  | .advance | .finish | .forget | .forgetLast => ()

/-- The cursor after a call. -/
def after (ts : TokenStream) (c : Cursor) : Call → Cursor
  | .advance => c.advance ts
  | .finish => c.finish ts
  | .kindAt steps | .lookAt steps => (c.lookAt ts steps).2
  | .peek _ => c
  | .forget => c.forget
  | .forgetLast => c.forgetLast

end Cursor

namespace Zipper

open Cursor (Call)

/-- All tokens lie ahead. -/
def start (ts : TokenStream) : Zipper :=
  ⟨[], ts.visible⟩

/-- The token some steps after the cut, or before it for negative steps; `none` stands for both
ends. -/
def peek? (z : Zipper) : Int → Option Token
  | .ofNat 0 => none
  | .ofNat (n + 1) => z.rest[n]?
  | .negSucc n => z.before.reverse[n]?

/-- The cut moves past the first token after it. -/
def advance (z : Zipper) : Zipper :=
  match z.rest with
  | [] => z
  | t :: rest => ⟨z.before ++ [t], rest⟩

/-- What a call replies if the end of the input is at an offset. -/
def reply (z : Zipper) (stop : ℕ) : (call : Call) → call.Reply
  | .kindAt steps => ((z.peek? steps).getD (.atEnd stop)).kind
  | .lookAt steps | .peek steps => (z.peek? steps).getD (.atEnd stop)
  | .advance | .finish | .forget | .forgetLast => ()

/-- The zipper after a call. -/
def after (z : Zipper) : Call → Zipper
  | .advance => z.advance
  | .finish => ⟨z.before ++ z.rest, []⟩
  | _ => z

/-- The token ahead that a call asks for, if there is one. -/
def request? (z : Zipper) : Call → Option Token
  | .kindAt steps | .lookAt steps => if 0 < steps then z.peek? steps else none
  | _ => none

/-- The tokens ahead that calls ask for, in the order of the requests. -/
def requests (z : Zipper) : List Call → List Token
  | [] => []
  | call :: calls => (z.request? call).toList ++ (z.after call).requests calls

end Zipper

namespace Token

/-- The tokens that are not known yet, each where it comes first. -/
def fresh (known tokens : List Token) : List Token :=
  (tokens.filter (· ∉ known)).eraseDups

variable {known : List Token} {t : Token}

theorem mem_fresh {tokens : List Token} : t ∈ fresh known tokens ↔ t ∈ tokens ∧ t ∉ known := by
  rw [fresh, List.mem_eraseDups, List.mem_filter, decide_eq_true_iff]

theorem fresh_singleton_of_mem (h : t ∈ known) : fresh known [t] = [] := by
  rw [fresh, List.filter_singleton, decide_eq_false (not_not.mpr h)]
  rfl

theorem fresh_singleton_of_not_mem (h : t ∉ known) : fresh known [t] = [t] := by
  rw [fresh, List.filter_singleton, decide_eq_true h]
  rfl

/-- What comes first is known to what comes after it. -/
theorem fresh_append (known xs ys : List Token) :
    fresh known (xs ++ ys) = fresh known xs ++ fresh (known ++ fresh known xs) ys := by
  have hkeep : (ys.filter (· ∉ known)).removeAll (xs.filter (· ∉ known)) =
      ys.filter (· ∉ known ++ fresh known xs) := by
    rw [List.removeAll, List.filter_filter]
    refine List.filter_congr fun t _ => ?_
    rw [Bool.eq_iff_iff]
    simp only [Bool.and_eq_true, Bool.not_eq_true', List.elem_eq_mem, decide_eq_false_iff_not,
      decide_eq_true_iff, List.mem_append, mem_fresh, List.mem_filter]
    tauto
  rw [fresh, List.filter_append, List.eraseDups_append, hkeep]
  rfl

end Token

/-! ### One call -/

section Zipper

namespace TokenStream

variable {ts : TokenStream} {i : ℕ} {t : Token}

/-- The visible tokens from a position on. -/
def visibleFrom (ts : TokenStream) (i : ℕ) : List Token :=
  (ts.tokens.toList.drop i).filter fun t => !t.isHidden

theorem visibleFrom_eq_drop (ts : TokenStream) (i : ℕ) :
    ts.visibleFrom i = ts.visible.drop (ts.rank i) := by
  rw [← visibleBefore_append_drop ts i, rank, List.drop_left, visibleFrom]

theorem visibleFrom_nextVisible (ts : TokenStream) (i : ℕ) :
    ts.visibleFrom (ts.nextVisible i) = ts.visibleFrom i := by
  rw [visibleFrom_eq_drop, rank_nextVisible, visibleFrom_eq_drop]

theorem visibleFrom_of_size_le (h : ts.size ≤ i) : ts.visibleFrom i = [] := by
  rw [visibleFrom_eq_drop, rank_of_size_le h, List.drop_length]

theorem visibleFrom_of_visible (h : ts.token? i = some t) (hv : t.isHidden = false) :
    ts.visibleFrom i = t :: ts.visibleFrom (i + 1) := by
  obtain ⟨hi, ht⟩ := List.getElem?_eq_some_iff.mp (getElem?_rank h hv)
  rw [visibleFrom_eq_drop, List.drop_eq_getElem_cons hi, ht, visibleFrom_eq_drop,
    rank_succ_of_visible h hv]

end TokenStream

namespace Cursor

variable {ts : TokenStream} {c : Cursor}

/-- The zipper of a cursor: the cut lies at its position. -/
def zipper (ts : TokenStream) (c : Cursor) : Zipper :=
  ⟨ts.visibleBefore c.position, ts.visibleFrom c.position⟩

theorem zipper_congr {c' : Cursor} (h : c'.position = c.position) :
    c'.zipper ts = c.zipper ts := by
  rw [zipper, zipper, h]

theorem zipper_start (ts : TokenStream) : (start ts).zipper ts = .start ts := by
  rw [zipper, start, TokenStream.visibleBefore_nextVisible, TokenStream.visibleFrom_nextVisible]
  rfl

theorem zipper_advance (h : ts.IsPlace c.position) :
    (c.advance ts).zipper ts = (c.zipper ts).advance := by
  rw [advance]
  split_ifs with hs
  · rw [zipper, TokenStream.visibleFrom_of_size_le hs]
    rfl
  · obtain ⟨t, ht⟩ := TokenStream.exists_token? (Nat.lt_of_not_le hs)
    have hv := h.visible ht
    rw [zipper, TokenStream.visibleBefore_nextVisible, TokenStream.visibleFrom_nextVisible,
      TokenStream.visibleBefore_succ ht, hv, zipper, TokenStream.visibleFrom_of_visible ht hv]
    rfl

theorem zipper_finish (ts : TokenStream) (c : Cursor) :
    (c.finish ts).zipper ts = (c.zipper ts).after .finish := by
  have hnil : ts.visibleFrom ts.size = [] := TokenStream.visibleFrom_of_size_le le_rfl
  have hall : ts.visibleBefore c.position ++ ts.visibleFrom c.position = ts.visible :=
    ts.visibleBefore_append_drop c.position
  have hsize : ts.visibleBefore ts.size ++ ts.visibleFrom ts.size = ts.visible :=
    ts.visibleBefore_append_drop ts.size
  rw [hnil, List.append_nil] at hsize
  rw [zipper, position_finish, hnil, hsize, ← hall]
  rfl

/-- A cursor answers what its zipper has there, or the end of the input. -/
theorem peek_eq (h : ts.IsPlace c.position) (steps : Int) :
    c.peek ts steps = ((c.zipper ts).peek? steps).getD ts.atEnd := by
  rcases steps with (- | n) | n
  · rfl
  · show ts.peek c.position (.ofNat (n + 1)) = ((ts.visibleFrom c.position)[n]?).getD ts.atEnd
    rw [TokenStream.peek_ofNat_succ h, TokenStream.visibleFrom_eq_drop, List.getElem?_drop]
  · show ts.peek c.position (.negSucc n) =
      ((ts.visibleBefore c.position).reverse[n]?).getD ts.atEnd
    rw [TokenStream.peek_negSucc h.le_size, TokenStream.visibleBefore_eq_take]

theorem reply_eq (h : ts.IsPlace c.position) (call : Call) :
    c.reply ts call = (c.zipper ts).reply (saturate ts.length) call := by
  cases call with
  | kindAt steps => exact congrArg Token.kind (peek_eq h steps)
  | lookAt steps | peek steps => exact peek_eq h steps
  | advance | finish | forget | forgetLast => rfl

theorem zipper_after (h : ts.IsPlace c.position) (call : Call) :
    (c.after ts call).zipper ts = (c.zipper ts).after call := by
  cases call with
  | advance => exact zipper_advance h
  | finish => exact zipper_finish ts c
  | kindAt steps | lookAt steps => exact zipper_congr (position_lookAt c ts steps)
  | peek _ | forget | forgetLast => rfl

theorem isPlace_after (h : ts.IsPlace c.position) (call : Call) :
    ts.IsPlace (c.after ts call).position := by
  cases call with
  | advance => exact isPlace_advance h
  | finish => exact ts.isPlace_size
  | kindAt steps | lookAt steps =>
    rw [after, position_lookAt]
    exact h
  | peek _ | forget | forgetLast => exact h

end Cursor

end Zipper

/-! ### What is recorded -/

section Recorded

/-- Every token carries an index, and no two of them the same. -/
def TokenStream.Distinct (ts : TokenStream) : Prop :=
  (∀ t ∈ ts.tokens.toList, t.isSynthetic = false) ∧ (ts.tokens.toList.map (·.index)).Nodup

instance (ts : TokenStream) : Decidable ts.Distinct :=
  inferInstanceAs (Decidable (_ ∧ _))

variable {ts : TokenStream} {c : Cursor} {t u : Token} {i j : ℕ}

namespace TokenStream

theorem mem_tokens_iff : t ∈ ts.tokens.toList ↔ ∃ i, ts.token? i = some t := by
  simp only [List.mem_iff_getElem?, Array.getElem?_toList, token?]

/-- The positions that a source promises tell its tokens apart. -/
theorem Contract.distinct (hc : ts.Contract) : ts.Distinct := by
  refine ⟨?_, ?_⟩
  · intro t ht
    obtain ⟨i, hi⟩ := mem_tokens_iff.mp ht
    rw [Token.isSynthetic, hc.index i t hi]
    rfl
  · rw [hc.map_index]
    exact List.nodup_range.map fun _ _ h => Option.some.inj h

theorem Distinct.eq_of_index (hd : ts.Distinct) (ht : ts.token? i = some t)
    (hu : ts.token? j = some u) (h : t.index = u.index) : t = u :=
  List.inj_on_of_nodup_map hd.2 (mem_tokens_iff.mpr ⟨i, ht⟩) (mem_tokens_iff.mpr ⟨j, hu⟩) h

end TokenStream

namespace Cursor

theorem exists_token?_of_peek? {steps : Int} (h : (c.zipper ts).peek? steps = some t) :
    ∃ i, ts.token? i = some t := by
  rw [← TokenStream.mem_tokens_iff]
  rcases steps with (- | n) | n
  · cases h
  · exact List.mem_of_mem_drop (List.mem_of_mem_filter (List.mem_of_getElem? h))
  · have hmem := List.mem_reverse.mp (List.mem_of_getElem? h)
    exact List.mem_of_mem_take (List.mem_of_mem_filter hmem)

/-- A token of the stream is recorded unless it is recorded already: a token with its index is the
token itself. -/
theorem recorded_record (hd : ts.Distinct) (hr : c.Records ts) (ht : ts.token? i = some t) :
    (c.record t).recorded = c.recorded ++ Token.fresh c.recorded [t] := by
  have hreal : t.isSynthetic = false := hd.1 t (TokenStream.mem_tokens_iff.mpr ⟨i, ht⟩)
  have hknown : c.recorded.any (·.index == t.index) = true ↔ t ∈ c.recorded := by
    rw [List.any_eq_true]
    constructor
    · rintro ⟨u, hu, he⟩
      obtain ⟨j, hj⟩ := hr u hu
      rwa [← hd.eq_of_index hj ht (eq_of_beq he)]
    · exact fun hmem => ⟨t, hmem, beq_self_eq_true _⟩
  rw [record, hreal, Bool.false_or]
  by_cases hmem : t ∈ c.recorded
  · rw [if_pos (hknown.mpr hmem), Token.fresh_singleton_of_mem hmem, List.append_nil]
  · rw [if_neg (fun h => hmem (hknown.mp h)), Token.fresh_singleton_of_not_mem hmem]

theorem recorded_lookAt (hd : ts.Distinct) (h : ts.IsPlace c.position) (hr : c.Records ts)
    (steps : Int) : (c.lookAt ts steps).2.recorded =
      c.recorded ++ Token.fresh c.recorded ((c.zipper ts).request? (.lookAt steps)).toList := by
  simp only [lookAt, peek_eq h, Zipper.request?]
  split_ifs
  · cases hp : (c.zipper ts).peek? steps with
    | none => exact (List.append_nil _).symm
    | some t =>
      obtain ⟨i, hi⟩ := exists_token?_of_peek? hp
      exact recorded_record hd hr hi
  · exact (List.append_nil _).symm

/-- A call records what it asks for ahead, if that is not recorded yet. -/
theorem recorded_after (hd : ts.Distinct) (h : ts.IsPlace c.position) (hr : c.Records ts)
    {call : Call} (hk : call.keeps = true) : (c.after ts call).recorded =
      c.recorded ++ Token.fresh c.recorded ((c.zipper ts).request? call).toList := by
  cases call with
  | kindAt steps | lookAt steps => exact recorded_lookAt hd h hr steps
  | advance =>
    rw [after, recorded_advance]
    exact (List.append_nil _).symm
  | finish | peek _ => exact (List.append_nil _).symm
  | forget | forgetLast => cases hk

theorem Records.after (hr : c.Records ts) (call : Call) : (c.after ts call).Records ts := by
  cases call with
  | kindAt steps | lookAt steps => exact hr.lookAt steps
  | advance =>
    rw [Records, Cursor.after, recorded_advance]
    exact hr
  | forget => exact fun t ht => absurd ht List.not_mem_nil
  | forgetLast => exact fun t ht => hr t ((List.dropLast_sublist _).subset ht)
  | finish | peek _ => exact hr

/-- The recorded tokens have different indices. -/
def Separate (c : Cursor) : Prop :=
  (c.recorded.map (·.index)).Nodup

theorem Separate.record (h : c.Separate) (t : Token) : (c.record t).Separate := by
  rw [Cursor.record]
  split_ifs with hskip
  · exact h
  · rw [Bool.or_eq_true, not_or, List.any_eq_true] at hskip
    rw [Separate, List.map_append, List.nodup_append]
    refine ⟨h, List.nodup_singleton _, ?_⟩
    intro a ha b hb he
    obtain ⟨u, hu, rfl⟩ := List.mem_map.mp ha
    exact hskip.2 ⟨u, hu, beq_iff_eq.mpr (he.trans (List.mem_singleton.mp hb))⟩

theorem Separate.after (h : c.Separate) (ts : TokenStream) (call : Call) :
    (c.after ts call).Separate := by
  cases call with
  | kindAt steps | lookAt steps =>
    rw [Cursor.after, lookAt]
    dsimp only
    split_ifs
    · exact h.record _
    · exact h
  | advance =>
    rw [Separate, Cursor.after, recorded_advance]
    exact h
  | forget => exact List.nodup_nil
  | forgetLast => exact h.sublist ((List.dropLast_sublist _).map _)
  | finish | peek _ => exact h

end Cursor

end Recorded

/-! ### Many calls -/

section Calls

variable {ts : TokenStream} {c : Cursor}

/-- The cursor after calls. -/
def Cursor.afterCalls (ts : TokenStream) (c : Cursor) (calls : List Cursor.Call) : Cursor :=
  calls.foldl (Cursor.after ts) c

/-- The zipper after calls. -/
def Zipper.afterCalls (z : Zipper) (calls : List Cursor.Call) : Zipper :=
  calls.foldl Zipper.after z

/-- The cursor does what the zipper does, and it has recorded no token twice. -/
structure Cursor.Refines (ts : TokenStream) (c : Cursor) (z : Zipper) : Prop where
  /-- The cursor is at the end or on a visible token. -/
  rests : c.position = ts.size ∨ ∃ t, ts.token? c.position = some t ∧ t.isHidden = false
  /-- Before the cut are the visible tokens before the position. -/
  before : ts.visibleBefore c.position = z.before
  /-- After the cut are the visible tokens from the position on. -/
  rest : ts.visibleFrom c.position = z.rest
  /-- Each call has the same reply, the end of the input being at the end of the text. -/
  reply : ts.length < Span.limit → ∀ call, c.reply ts call = z.reply ts.length call
  /-- The end of a text whose last offsets do not fit 32 bits is taken to be at the last one. -/
  reply_saturate : ∀ call, c.reply ts call = z.reply (saturate ts.length) call
  /-- No token is recorded twice. -/
  nodup : c.recorded.Nodup

namespace Cursor

/-- What calls preserve: the position is a place, and what is recorded are tokens of the stream with
different indices. -/
structure Fit (ts : TokenStream) (c : Cursor) : Prop where
  /-- The cursor can rest at its position. -/
  isPlace : ts.IsPlace c.position
  /-- The recorded tokens are those of the stream. -/
  records : c.Records ts
  /-- They have different indices. -/
  separate : c.Separate

theorem fit_start (ts : TokenStream) : (start ts).Fit ts :=
  ⟨ts.isPlace_nextVisible 0, fun _ ht => absurd ht List.not_mem_nil, List.nodup_nil⟩

theorem Fit.after (h : c.Fit ts) (call : Call) : (c.after ts call).Fit ts :=
  ⟨isPlace_after h.isPlace call, h.records.after call, h.separate.after ts call⟩

theorem Fit.afterCalls (h : c.Fit ts) (calls : List Call) : (c.afterCalls ts calls).Fit ts := by
  induction calls generalizing c with
  | nil => exact h
  | cons call calls ih => exact ih (h.after call)

theorem Fit.refines (h : c.Fit ts) : c.Refines ts (c.zipper ts) where
  rests := by
    cases ht : ts.token? c.position with
    | none => exact .inl (Nat.le_antisymm h.isPlace.le_size (TokenStream.token?_eq_none_iff.mp ht))
    | some t => exact .inr ⟨t, rfl, h.isPlace.visible ht⟩
  before := rfl
  rest := rfl
  reply hsize := saturate_of_lt hsize ▸ reply_eq h.isPlace
  reply_saturate := reply_eq h.isPlace
  nodup := .of_map _ h.separate

theorem zipper_afterCalls (h : c.Fit ts) (calls : List Call) :
    (c.afterCalls ts calls).zipper ts = (c.zipper ts).afterCalls calls := by
  induction calls generalizing c with
  | nil => rfl
  | cons call calls ih =>
    show ((c.after ts call).afterCalls ts calls).zipper ts = _
    rw [ih (h.after call), zipper_after h.isPlace]
    rfl

/-- Unless calls forget something, what was recorded stays, followed by what they ask for ahead and
is new. -/
theorem recorded_afterCalls (hd : ts.Distinct) (h : c.Fit ts) {calls : List Call}
    (hk : ∀ call ∈ calls, call.keeps = true) : (c.afterCalls ts calls).recorded =
      c.recorded ++ Token.fresh c.recorded ((c.zipper ts).requests calls) := by
  induction calls generalizing c with
  | nil => exact (List.append_nil _).symm
  | cons call calls ih =>
    have hcall := recorded_after hd h.isPlace h.records (hk call List.mem_cons_self)
    have hcalls := ih (h.after call) fun call' h' => hk call' (List.mem_cons_of_mem _ h')
    rw [zipper_after h.isPlace, hcall] at hcalls
    show ((c.after ts call).afterCalls ts calls).recorded = _
    rw [hcalls, Zipper.requests, Token.fresh_append, List.append_assoc]

/-- A cursor refines a zipper over the visible tokens, whatever is called on it. If the tokens have
different indices, then what calls record in turn are the tokens ahead that they ask for. -/
theorem refines_reached (ts : TokenStream) (calls : List Call) :
    ((start ts).afterCalls ts calls).Refines ts ((Zipper.start ts).afterCalls calls) ∧
    (ts.Distinct → ∀ more : List Call, (∀ call ∈ more, call.keeps = true) →
      ((start ts).afterCalls ts (calls ++ more)).recorded =
        ((start ts).afterCalls ts calls).recorded ++
          Token.fresh ((start ts).afterCalls ts calls).recorded
            (((Zipper.start ts).afterCalls calls).requests more)) := by
  have hfit := (fit_start ts).afterCalls calls
  have hz := zipper_afterCalls (fit_start ts) calls
  rw [zipper_start] at hz
  rw [← hz]
  refine ⟨hfit.refines, fun hd more hk => ?_⟩
  rw [← recorded_afterCalls hd hfit hk, afterCalls, List.foldl_append]
  rfl

end Cursor

end Calls

namespace Sample

/-- Two words between blanks. -/
def words : TokenStream :=
  .ofLexemes " a b " [.token ⟨6⟩ 1 .hidden, .token ⟨5⟩ 1 .visible, .token ⟨6⟩ 1 .hidden,
    .token ⟨7⟩ 1 .visible, .token ⟨6⟩ 1 .hidden]

/-- Goes to the second word and looks at it, at the first one and past the end. -/
def calls : List Cursor.Call :=
  [.peek 2, .lookAt 1, .advance, .kindAt 1, .lookAt (-1), .lookAt 2, .finish]

end Sample

open Sample in
/-- The end of the input is at the end of the text, which is short. The second word was recorded at
first, so only the first one is new. -/
theorem refines_words : words.Distinct ∧ (∀ call ∈ calls, call.keeps = true) ∧
    (Cursor.start words).Refines words (.start words) ∧
    (∀ call, (Cursor.start words).reply words call = (Zipper.start words).reply 5 call) ∧
    ((Cursor.start words).afterCalls words ([.lookAt 2] ++ calls)).recorded.map (·.kind) =
      [⟨7⟩, ⟨5⟩] := by
  have hd : words.Distinct := by decide +kernel
  have hk : ∀ call ∈ calls, call.keeps = true := by decide
  have hrecorded := (Cursor.refines_reached words [.lookAt 2]).2 hd calls hk
  have hrefines := (Cursor.refines_reached words []).1
  refine ⟨hd, hk, hrefines, hrefines.reply (by decide +kernel), ?_⟩
  rw [hrecorded]
  decide +kernel

end ParseTree
