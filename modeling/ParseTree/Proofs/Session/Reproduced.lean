import ParseTree.Proofs.Session.Sound
import ParseTree.Proofs.Tree.Coherent

/-!
# What an accepted tree says of the text

The check compares where leaves start and end. It takes neither the order of the two ends nor the
characters of the text into account, so a stream with strange spans gets a tree past the check whose
leaves do not make up the text. If all leaves are legible, they do, unless the text is so long that
its last bytes have no offset.

## Main results

* `tiles_of_violation?_eq_none`: the leaves of an accepted tree tile what has offsets of the text
* `join_text_of_parse`: they make up a text that is not too long if they are legible, and only then
  if their ends are in order
-/

namespace ParseTree

open Session

variable {σ γ : Type} {env : Setting σ γ} {factory : σ} {groups : γ} {rule : ElementId}
  {p : RuleProcedure} {parse : Parse} {t : Session σ γ}

/-- In an accepted tree the leaves follow each other from the start of the text to its end, or to
the last offset of 32 bits. -/
theorem tiles_of_violation?_eq_none {tree : Tree} (hw : tree.shape.WellFormed)
    (hr : tree.Contains Tree.root) {source : String} {primary : List NodeId}
    (h : tree.violation? source primary = none) :
    Tiles 0 none tree.yield (saturate source.utf8ByteSize) := by
  have hwalk := Tree.checkFrom_root hw hr
  rw [Tree.violation?] at h
  split at h
  · cases h
  · split at h
    · cases h
    · next p hok =>
      rw [hok] at hwalk
      split_ifs at h with hoff
      exact not_not.mp hoff ▸ hwalk.2

/-- If the check is on, the tree of a completed parse is accepted. -/
theorem violation?_of_parse {s : Session σ γ} (hcheck : env.config.checkInvariants = true)
    (h : s.parse env rule p = .ok (.ok parse, t)) :
    parse.syntaxTree = t.syntaxTree env ∧ parse.syntaxTree.violation? = none := by
  obtain ⟨outcome, s', -, hc⟩ := exists_run_of_parse h
  cases outcome with
  | error e => cases (Prod.mk.inj hc).1
  | ok element =>
    obtain ⟨hresult, rfl⟩ := Prod.mk.inj hc
    rw [Session.result, if_pos hcheck] at hresult
    split at hresult
    · cases hresult
    · next hv =>
      obtain rfl := Except.ok.inj hresult
      exact ⟨rfl, hv⟩

/-- The leaves of a parse that passed the check make up the text if all of them are legible and the
offsets of the text have 32 bits. Unless a leaf ends before it starts, they do so only then. -/
theorem join_text_of_parse (hcheck : env.config.checkInvariants = true)
    (h : (start env factory groups).parse env rule p = .ok (.ok parse, t)) :
    (env.stream.length < Span.limit →
      (∀ leaf ∈ parse.syntaxTree.tree.yield, leaf.span.Legible env.stream.text) →
      String.join (parse.syntaxTree.leaves.map fun x => (parse.syntaxTree.view x).text) =
        env.stream.text) ∧
    ((∀ leaf ∈ parse.syntaxTree.tree.yield, leaf.span.start ≤ leaf.span.stop) →
      String.join (parse.syntaxTree.leaves.map fun x => (parse.syntaxTree.view x).text) =
        env.stream.text →
      env.stream.length < Span.limit ∧
        ∀ leaf ∈ parse.syntaxTree.tree.yield, leaf.span.Legible env.stream.text) := by
  obtain ⟨htree, hv⟩ := violation?_of_parse hcheck h
  obtain ⟨ts, hts⟩ := exists_reaches_of_parse h
  have hs := sound_of_reaches hts
  rw [htree] at hv ⊢
  have ht : Tiles 0 none t.tree.yield (saturate env.stream.length) :=
    tiles_of_violation?_eq_none hs.wellFormed hs.intact.contains_root hv
  have htext := congrArg String.join (t.tree.map_text_leaves env.stream.text Tree.root)
  refine ⟨fun hsize hl => ?_, fun hm hjoin => ?_⟩
  · rw [saturate_of_lt hsize] at ht
    exact htext.trans (ht.join_slice hl)
  · obtain ⟨hstop, hl⟩ := ht.legible_of_join (saturate_le _) hm (htext.symm.trans hjoin)
    exact ⟨hstop.ge.trans_lt (saturate_lt _), hl⟩

open Sample in
/-- All leaves of the sample are legible. -/
theorem join_text_of_sample : ∃ parse t, session.parse setting ⟨0⟩ procedure = .ok (.ok parse, t) ∧
    String.join (parse.syntaxTree.leaves.map fun x => (parse.syntaxTree.view x).text) = "a b" := by
  have hcompleted : ((session.parse setting ⟨0⟩ procedure).toOption.bind (·.1.toOption)).any
      fun parse => ∀ leaf ∈ parse.syntaxTree.tree.yield, leaf.span.Legible "a b" := by
    decide +kernel
  obtain ⟨parse, t, hparse, hl⟩ := exists_parse_of_any hcompleted
  obtain ⟨hjoin, -⟩ := join_text_of_parse (by decide) hparse
  exact ⟨parse, t, hparse, hjoin (by decide) (of_decide_eq_true hl)⟩

namespace Sample

/-- Two tokens that share a character of two bytes. -/
def halves : Setting Unit Unit :=
  { setting with stream := .ofLexemes "é" [.token ⟨5⟩ 1 .visible, .token ⟨7⟩ 1 .visible] }

/-- The second token goes back to where the third one starts again. -/
def backwards : Setting Unit Unit :=
  { setting with
    stream := ⟨"abc", #[⟨⟨5⟩, .visible, ⟨0, 3⟩, some 0⟩, ⟨⟨6⟩, .visible, ⟨3, 1⟩, some 1⟩,
      ⟨⟨7⟩, .visible, ⟨1, 3⟩, some 2⟩], []⟩ }

end Sample

open Sample in
/-- The check accepts leaves that meet within a character, and leaves that go back. -/
theorem join_text_ne_of_illegible :
    (∃ parse t, (start halves () ()).parse halves ⟨0⟩
        (word ⟨5⟩ ⟨2⟩ (word ⟨7⟩ ⟨4⟩ (.pure (.ok none)))) = .ok (.ok parse, t) ∧
      halves.config.checkInvariants = true ∧
      String.join (parse.syntaxTree.leaves.map fun x => (parse.syntaxTree.view x).text) ≠
        halves.stream.text) ∧
    ∃ parse t, (start backwards () ()).parse backwards ⟨0⟩
        (word ⟨5⟩ ⟨2⟩ (word ⟨6⟩ ⟨2⟩ (word ⟨7⟩ ⟨4⟩ (.pure (.ok none))))) = .ok (.ok parse, t) ∧
      backwards.config.checkInvariants = true ∧
      String.join (parse.syntaxTree.leaves.map fun x => (parse.syntaxTree.view x).text) ≠
        backwards.stream.text := by
  have hhalves : (((start halves () ()).parse halves ⟨0⟩
      (word ⟨5⟩ ⟨2⟩ (word ⟨7⟩ ⟨4⟩ (.pure (.ok none))))).toOption.bind (·.1.toOption)).any
      fun parse =>
        parse.syntaxTree.leaves.map (fun x => (parse.syntaxTree.view x).text) = ["", ""] := by
    decide +kernel
  have hbackwards : (((start backwards () ()).parse backwards ⟨0⟩
      (word ⟨5⟩ ⟨2⟩ (word ⟨6⟩ ⟨2⟩ (word ⟨7⟩ ⟨4⟩ (.pure (.ok none)))))).toOption.bind
      (·.1.toOption)).any fun parse =>
        parse.syntaxTree.leaves.map (fun x => (parse.syntaxTree.view x).text) =
          ["abc", "", "bc"] := by
    decide +kernel
  obtain ⟨parse, t, hparse, h⟩ := exists_parse_of_any hhalves
  obtain ⟨parse', t', hparse', h'⟩ := exists_parse_of_any hbackwards
  refine ⟨⟨parse, t, hparse, rfl, ?_⟩, ⟨parse', t', hparse', rfl, ?_⟩⟩
  · rw [of_decide_eq_true h]
    decide
  · rw [of_decide_eq_true h']
    decide

end ParseTree
