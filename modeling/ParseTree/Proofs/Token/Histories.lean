import Mathlib.Data.Finset.Lattice.Fold
import Mathlib.Logic.Function.Basic
import Mathlib.Order.Lattice.Nat
import ParseTree.Proofs.Token.Members

/-!
# Token sets as finite sets

Whatever calls make and change token sets, each of them is the finite set that the calls describe:
it contains the members and no other kind, it lists them in ascending order, and it is empty if the
finite set is. The listing computes the code of a kind from the place of its bit; no set has so many
words that this leaves the 16-bit codes.

Equality is another matter, since it compares the words. A set keeps its words when it loses a kind,
so two sets are equal if and only if they have the same members and the greatest words in which they
ever had a member are the same.

## Main definitions

* `TokenSet.Operations`: what the calls need, whatever stands for a set
* `TokenSet.Call`, `Operations.run`: the calls on any number of sets, their effect
* `Operations.stored`, `Operations.described`, `Operations.held`: token sets, the finite sets that
  calls describe, the finite sets of all a set ever had
* `TokenSet.Represents`: a token set answers as a finite set

## Main results

* `Operations.Related.run`: what relates the operations relates the sets that calls make
* `mem_run`, `length_run`: the members and the words of a set after calls
* `represents_run`: token sets are finite sets
* `run_eq_run_iff`: when two token sets are equal
-/

namespace ParseTree.TokenSet

/-! ### Calls -/

/-- The operations on sets of kinds, for anything that stands for a set. -/
structure Operations (α : Type) where
  /-- The set without members. -/
  empty : α
  /-- The set and one more member. -/
  insert : α → TokenKind → α
  /-- The set without a member. -/
  erase : α → TokenKind → α
  /-- The members of either set. -/
  union : α → α → α

/-- The calls that make and change sets, which are told apart by numbers. -/
inductive Call where
  /-- A new set. -/
  | create (set : ℕ)
  /-- A new set, into which the listed kinds are inserted. -/
  | list (set : ℕ) (kinds : List TokenKind)
  /-- The set becomes another one and one more kind. -/
  | extend (set source : ℕ) (kind : TokenKind)
  /-- One more kind in the set. -/
  | insert (set : ℕ) (kind : TokenKind)
  /-- One kind less in the set. -/
  | erase (set : ℕ) (kind : TokenKind)
  /-- The kinds of another set are put into the set. -/
  | unite (set source : ℕ)
deriving DecidableEq, Repr

namespace Operations

variable {α β : Type}

/-- The sets after a call. -/
def after (ops : Operations α) (sets : ℕ → α) : Call → ℕ → α
  | .create set => Function.update sets set ops.empty
  | .list set kinds => Function.update sets set (kinds.foldl ops.insert ops.empty)
  | .extend set source kind => Function.update sets set (ops.insert (sets source) kind)
  | .insert set kind => Function.update sets set (ops.insert (sets set) kind)
  | .erase set kind => Function.update sets set (ops.erase (sets set) kind)
  | .unite set source => Function.update sets set (ops.union (sets set) (sets source))

/-- The sets after calls; at first all are empty. -/
def run (ops : Operations α) (calls : List Call) : ℕ → α :=
  calls.foldl ops.after fun _ => ops.empty

/-- The operations respect a relation between what stands for sets on both sides. -/
structure Related (R : α → β → Prop) (ops : Operations α) (ops' : Operations β) : Prop where
  /-- The empty sets are related. -/
  empty : R ops.empty ops'.empty
  /-- One more member on both sides. -/
  insert : ∀ {s m} k, R s m → R (ops.insert s k) (ops'.insert m k)
  /-- One member less on both sides. -/
  erase : ∀ {s m} k, R s m → R (ops.erase s k) (ops'.erase m k)
  /-- Unions on both sides. -/
  union : ∀ {s m t n}, R s m → R t n → R (ops.union s t) (ops'.union m n)

variable {R : α → β → Prop} {ops : Operations α} {ops' : Operations β}

theorem Related.foldl (h : Related R ops ops') (kinds : List TokenKind) {s : α} {m : β}
    (hs : R s m) : R (kinds.foldl ops.insert s) (kinds.foldl ops'.insert m) := by
  induction kinds generalizing s m with
  | nil => exact hs
  | cons k kinds ih => exact ih (h.insert k hs)

theorem Related.update {sets : ℕ → α} {sets' : ℕ → β} (hsets : ∀ i, R (sets i) (sets' i))
    {s : α} {m : β} (hs : R s m) (set i : ℕ) :
    R (Function.update sets set s i) (Function.update sets' set m i) := by
  by_cases hi : i = set
  · subst hi
    rwa [Function.update_self, Function.update_self]
  · rw [Function.update_of_ne hi, Function.update_of_ne hi]
    exact hsets i

/-- One call keeps all sets related. -/
theorem Related.after (h : Related R ops ops') {sets : ℕ → α} {sets' : ℕ → β}
    (hsets : ∀ i, R (sets i) (sets' i)) (call : Call) (i : ℕ) :
    R (ops.after sets call i) (ops'.after sets' call i) := by
  cases call with
  | create set => exact Related.update hsets h.empty set i
  | list set kinds => exact Related.update hsets (h.foldl kinds h.empty) set i
  | extend set source kind => exact Related.update hsets (h.insert kind (hsets source)) set i
  | insert set kind => exact Related.update hsets (h.insert kind (hsets set)) set i
  | erase set kind => exact Related.update hsets (h.erase kind (hsets set)) set i
  | unite set source => exact Related.update hsets (h.union (hsets set) (hsets source)) set i

/-- What relates the operations relates the sets that calls make. -/
theorem Related.run (h : Related R ops ops') (calls : List Call) (i : ℕ) :
    R (ops.run calls i) (ops'.run calls i) := by
  induction calls using List.reverseRecOn generalizing i with
  | nil => exact h.empty
  | append_singleton calls call ih =>
    rw [Operations.run, Operations.run, List.foldl_concat, List.foldl_concat]
    exact h.after ih call i

/-- The operations on token sets. -/
def stored : Operations TokenSet :=
  ⟨∅, TokenSet.insert, TokenSet.erase, TokenSet.union⟩

/-- The operations on finite sets. -/
def described : Operations (Finset TokenKind) :=
  ⟨∅, fun m k => Insert.insert k m, Finset.erase, (· ∪ ·)⟩

/-- The operations on finite sets, except that no kind is lost. -/
def held : Operations (Finset TokenKind) :=
  { described with erase := fun m _ => m }

end Operations

open Operations

/-! ### Members and words -/

variable {s t : TokenSet} {k : TokenKind}

theorem related_mem : Related (fun s m => ∀ k, k ∈ s ↔ k ∈ m) stored described where
  empty k := iff_of_false (not_mem_empty k) (Finset.notMem_empty k)
  insert {s m} a h k := by
    show k ∈ s.insert a ↔ k ∈ Insert.insert a m
    rw [mem_insert, Finset.mem_insert, h k]
  erase {s m} a h k := by
    show k ∈ s.erase a ↔ k ∈ m.erase a
    rw [mem_erase, Finset.mem_erase, h k]
  union {s m t n} h h' k := by
    show k ∈ s.union t ↔ k ∈ m ∪ n
    rw [mem_union, Finset.mem_union, h k, h' k]

/-- A set has the members that the calls describe. -/
theorem mem_run (calls : List Call) (i : ℕ) (k : TokenKind) :
    k ∈ stored.run calls i ↔ k ∈ described.run calls i :=
  related_mem.run calls i k

/-- The number of words that it takes to hold the kinds. -/
def breadth (m : Finset TokenKind) : ℕ :=
  m.sup fun k => wordOf k + 1

theorem length_padded (words : List (BitVec 64)) (n : ℕ) :
    (padded words n).length = max words.length n := by
  rw [padded, List.length_append, List.length_replicate]
  omega

theorem related_length : Related (fun s m => s.words.length = breadth m) stored held where
  empty := rfl
  insert {s m} a h := by
    show ((padded _ _).modify _ _).length = (Insert.insert a m).sup _
    rw [List.length_modify, length_padded, Finset.sup_insert, h, max_comm]
    rfl
  erase {s m} a h := by
    show (s.words.modify _ _).length = breadth m
    rw [List.length_modify, h]
  union {s m t n} h h' := by
    show (List.zipWith _ _ _).length = (m ∪ n).sup _
    rw [List.length_zipWith, length_padded, length_padded, Finset.sup_union, h, h',
      max_comm (breadth n), min_self]
    rfl

/-- A set has the words that hold all it ever had. -/
theorem length_run (calls : List Call) (i : ℕ) :
    (stored.run calls i).words.length = breadth (held.run calls i) :=
  related_length.run calls i

/-- So many words hold all kinds. -/
def maxWords : ℕ := 1024

theorem breadth_le (m : Finset TokenKind) : breadth m ≤ maxWords := by
  refine Finset.sup_le fun k _ => ?_
  have hcode := k.code.toNat_lt
  rw [wordOf, maxWords]
  omega

theorem length_run_le (calls : List Call) (i : ℕ) :
    (stored.run calls i).words.length ≤ maxWords :=
  (length_run calls i).trans_le (breadth_le _)

/-! ### The places of the bits -/

/-- The kind whose bit is at a place. -/
def kindAt (i b : ℕ) : TokenKind :=
  ⟨UInt16.ofNat (64 * i + b)⟩

variable {i b : ℕ}

theorem code_lt (hi : i < maxWords) (hb : b < 64) : 64 * i + b < UInt16.size := by
  rw [maxWords] at hi
  rw [UInt16.size]
  omega

theorem toNat_code_kindAt (hi : i < maxWords) (hb : b < 64) :
    (kindAt i b).code.toNat = 64 * i + b :=
  UInt16.toNat_ofNat_of_lt (code_lt hi hb)

theorem wordOf_kindAt (hi : i < maxWords) (hb : b < 64) : wordOf (kindAt i b) = i := by
  rw [wordOf, toNat_code_kindAt hi hb]
  omega

theorem bitOf_kindAt (hi : i < maxWords) (hb : b < 64) : bitOf (kindAt i b) = b := by
  rw [bitOf, toNat_code_kindAt hi hb]
  omega

theorem kindAt_wordOf_bitOf (k : TokenKind) : kindAt (wordOf k) (bitOf k) = k := by
  rw [kindAt, wordOf, bitOf, Nat.div_add_mod, UInt16.ofNat_toNat]

/-- A bit in one of the words is that of a member. -/
theorem kindAt_mem_iff (hi : i < maxWords) (hb : b < 64) :
    kindAt i b ∈ s ↔ bit s.words i b = true := by
  rw [mem_iff_bit, wordOf_kindAt hi hb, bitOf_kindAt hi hb]

/-! ### Listing -/

/-- The members whose bits are in a word. -/
def listWord (w : BitVec 64) (i : ℕ) : List TokenKind :=
  (List.range 64).filterMap fun b => if w.getLsbD b then some (kindAt i b) else none

theorem mem_listWord {w : BitVec 64} :
    k ∈ listWord w i ↔ ∃ b < 64, w.getLsbD b = true ∧ kindAt i b = k := by
  simp only [listWord, List.mem_filterMap, List.mem_range, Option.ite_none_right_eq_some,
    Option.some.injEq]

theorem toList_eq (s : TokenSet) :
    s.toList = s.words.zipIdx.flatMap fun p => listWord p.1 p.2 := rfl

theorem mem_toList (hs : s.words.length ≤ maxWords) : k ∈ s.toList ↔ k ∈ s := by
  rw [toList_eq, List.mem_flatMap]
  constructor
  · rintro ⟨⟨w, i⟩, hw, hk⟩
    obtain ⟨b, hb, hbit, rfl⟩ := mem_listWord.mp hk
    have hget := List.mem_zipIdx_iff_getElem?.mp hw
    have hi := (List.getElem?_eq_some_iff.mp hget).1
    rw [kindAt_mem_iff (hi.trans_le hs) hb, bit, hget]
    exact hbit
  · intro hk
    rw [mem_iff_bit, bit, Option.any_eq_true] at hk
    obtain ⟨w, hw, hbit⟩ := hk
    exact ⟨(w, wordOf k), List.mem_zipIdx_iff_getElem?.mpr hw,
      mem_listWord.mpr ⟨bitOf k, bitOf_lt k, hbit, kindAt_wordOf_bitOf k⟩⟩

/-- The kinds of two places are in the order of the places. -/
theorem code_kindAt_lt_iff {j c : ℕ} (hi : i < maxWords) (hb : b < 64) (hj : j < maxWords)
    (hc : c < 64) : (kindAt i b).code < (kindAt j c).code ↔ 64 * i + b < 64 * j + c := by
  rw [UInt16.lt_iff_toNat_lt, toNat_code_kindAt hi hb, toNat_code_kindAt hj hc]

theorem pairwise_listWord (w : BitVec 64) (hi : i < maxWords) :
    (listWord w i).Pairwise (·.code < ·.code) := by
  rw [listWord, List.pairwise_filterMap]
  refine (List.pairwise_lt_range (n := 64)).imp_of_mem ?_
  intro b c hb hc hlt k hk l hl
  rw [Option.ite_none_right_eq_some, Option.some.injEq] at hk hl
  obtain ⟨-, rfl⟩ := hk
  obtain ⟨-, rfl⟩ := hl
  rw [code_kindAt_lt_iff hi (List.mem_range.mp hb) hi (List.mem_range.mp hc)]
  omega

theorem pairwise_toList (hs : s.words.length ≤ maxWords) :
    s.toList.Pairwise (·.code < ·.code) := by
  rw [toList_eq, List.pairwise_flatMap]
  constructor
  · intro p hp
    exact pairwise_listWord p.1 ((List.snd_lt_of_mem_zipIdx hp).trans_le hs)
  · have hindices : s.words.zipIdx.Pairwise (·.2 < ·.2) := by
      rw [← List.pairwise_map (f := Prod.snd), List.zipIdx_map_snd]
      exact List.pairwise_lt_range'
    refine hindices.imp_of_mem ?_
    intro p q hp hq hlt k hk l hl
    obtain ⟨b, hb, -, rfl⟩ := mem_listWord.mp hk
    obtain ⟨c, hc, -, rfl⟩ := mem_listWord.mp hl
    rw [code_kindAt_lt_iff ((List.snd_lt_of_mem_zipIdx hp).trans_le hs) hb
      ((List.snd_lt_of_mem_zipIdx hq).trans_le hs) hc]
    omega

/-! ### Emptiness and equality -/

/-- The words are known from the members, if their number is. -/
theorem eq_of_forall_mem_iff (hs : s.words.length ≤ maxWords)
    (hlength : s.words.length = t.words.length) (h : ∀ k, k ∈ s ↔ k ∈ t) : s = t := by
  cases s with | mk words =>
  cases t with | mk words' =>
  refine congrArg TokenSet.mk (List.ext_getElem hlength fun i hi hi' => ?_)
  refine BitVec.eq_of_getLsbD_eq fun b hb => ?_
  have hbit := h (kindAt i b)
  rw [kindAt_mem_iff (hi.trans_le hs) hb, kindAt_mem_iff (hi.trans_le hs) hb, bit, bit,
    List.getElem?_eq_getElem hi, List.getElem?_eq_getElem hi', Option.any_some, Option.any_some,
    ← Bool.eq_iff_iff] at hbit
  exact hbit

theorem isEmpty_iff (hs : s.words.length ≤ maxWords) : s.isEmpty = true ↔ ∀ k, k ∉ s := by
  rw [isEmpty, List.all_eq_true]
  constructor
  · intro h k hk
    rw [mem_iff_bit, bit, Option.any_eq_true] at hk
    obtain ⟨w, hw, hbit⟩ := hk
    obtain rfl := eq_of_beq (h w (List.mem_of_getElem? hw))
    exact Bool.false_ne_true (BitVec.getLsbD_zero.symm.trans hbit)
  · intro h w hw
    obtain ⟨i, hi, rfl⟩ := List.mem_iff_getElem.mp hw
    refine beq_iff_eq.mpr (BitVec.eq_of_getLsbD_eq fun b hb => ?_)
    have hnot := h (kindAt i b)
    rw [kindAt_mem_iff (hi.trans_le hs) hb, bit, List.getElem?_eq_getElem hi, Option.any_some,
      Bool.not_eq_true] at hnot
    exact hnot.trans BitVec.getLsbD_zero.symm

/-! ### After any calls -/

/-- A token set answers as a finite set. -/
structure Represents (s : TokenSet) (m : Finset TokenKind) : Prop where
  /-- It contains the members. -/
  contains : ∀ k, s.contains k = true ↔ k ∈ m
  /-- It lists the members. -/
  listed : ∀ k, k ∈ s.toList ↔ k ∈ m
  /-- It lists each of them once. -/
  once : s.toList.Nodup
  /-- It lists them in strictly ascending order. -/
  ascending : s.toList.Pairwise (·.code < ·.code)
  /-- The codes that the listing computes fit 16 bits. -/
  codes : ∀ i < s.words.length, ∀ b < 64, 64 * i + b < UInt16.size
  /-- It is empty if there are no members. -/
  isEmpty : s.isEmpty = true ↔ m = ∅

/-- **Token sets are finite sets**, whatever calls make and change them. -/
theorem represents_run (calls : List Call) (i : ℕ) :
    Represents (stored.run calls i) (described.run calls i) := by
  have hs := length_run_le calls i
  have hascending := pairwise_toList hs
  exact {
    contains := mem_run calls i
    listed := fun k => (mem_toList hs).trans (mem_run calls i k)
    once := hascending.imp fun hlt => ne_of_apply_ne _ (UInt16.ne_of_lt hlt)
    ascending := hascending
    codes := fun j hj b hb => code_lt (hj.trans_le hs) hb
    isEmpty := by
      rw [isEmpty_iff hs, Finset.eq_empty_iff_forall_notMem]
      exact forall_congr' fun k => not_congr (mem_run calls i k) }

/-- Two token sets are equal if and only if they have the same members and the kinds that they ever
had are held by the same number of words. -/
theorem run_eq_run_iff (calls calls' : List Call) (i j : ℕ) :
    stored.run calls i = stored.run calls' j ↔
      (∀ k, (stored.run calls i).contains k = (stored.run calls' j).contains k) ∧
        breadth (held.run calls i) = breadth (held.run calls' j) := by
  rw [← length_run, ← length_run]
  constructor
  · intro h
    rw [h]
    exact ⟨fun _ => rfl, rfl⟩
  · rintro ⟨hmem, hlength⟩
    refine eq_of_forall_mem_iff (length_run_le calls i) hlength fun k => ?_
    rw [mem_iff_contains, mem_iff_contains, hmem k]

/-- A set that had a kind of the fourth word and a set that never had any: neither has a member, but
they are not equal. -/
theorem not_equal_of_erased :
    ¬ ∀ (calls calls' : List Call) (i j : ℕ), stored.run calls i = stored.run calls' j ↔
      ∀ k, (stored.run calls i).contains k = (stored.run calls' j).contains k := by
  intro h
  refine absurd ((h [.list 0 [⟨200⟩], .erase 0 ⟨200⟩] [] 0 0).mpr fun k => ?_) (by decide)
  rw [Bool.eq_iff_iff, ← mem_iff_contains, ← mem_iff_contains, mem_run, mem_run]
  rfl

end ParseTree.TokenSet
