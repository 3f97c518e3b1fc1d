import Dil.Proofs.Peg.Bare
import Dil.Syntax.OfTree
import Dil.Proofs.Reading.Words

/-!
What a parsing expression reads of a list of tokens, wherever and however they are laid out: the
trees, up to their places, and the tokens that it leaves. One rule for each operator, so that what a
construct reads follows from what its parts read.
-/

namespace Dil.Reading

open Rule (Part spellings keyword)

def Reads (p : Part) (tokens : List String) (ts : List Build.Node) (left : List String) : Prop :=
  ∀ c, Stands c tokens → ∃ us d, grammar.Settles true p c (.matched us d) ∧ Tree.bares us = ts
    ∧ Laid d.rest left

/-- Reads further parts of a repetition, from before the layout that separates them. -/
def ReadsMore (p : Part) (tokens : List String) (ts : List Build.Node) (left : List String) : Prop :=
  ∀ c, Laid c.rest tokens → ∃ us d, grammar.Settles true (.more p) c (.matched us d)
    ∧ Tree.bares us = ts ∧ Laid d.rest left

def Declines (p : Part) (tokens : List String) : Prop :=
  ∀ c, Stands c tokens → grammar.Settles true p c .refused

section Rules

variable {p a b : Part} {r : Rule} {tokens middle left : List String} {ts us : List Build.Node}

theorem reads_end : Reads .endOfInput [] [] [] :=
  fun c stands => ⟨[], c, .atEnd stands.nil, rfl, stands.laid⟩

theorem reads_seq (first : Reads a tokens ts middle) (second : Reads b middle us left) :
    Reads (.seq a b) tokens (ts ++ us) left := by
  intro c stands
  obtain ⟨vs, d, readsA, bareA, laidA⟩ := first c stands
  obtain ⟨ws, e, readsB, bareB, laidB⟩ := second _ laidA.stands
  exact ⟨vs ++ ws, e, .seq readsA readsB, by rw [Tree.bares_append, bareA, bareB], laidB⟩

theorem reads_skip (first : Reads a tokens [] middle) (second : Reads b middle us left) :
    Reads (.seq a b) tokens us left := reads_seq first second

theorem reads_close (first : Reads a tokens ts middle) (second : Reads b middle [] left) :
    Reads (.seq a b) tokens ts left := by
  have both := reads_seq first second
  rwa [List.append_nil] at both

theorem declines_seq (first : Declines a tokens) : Declines (.seq a b) tokens :=
  fun c stands => .seqRefused (first c stands)

theorem declines_second (first : Reads a tokens ts middle) (second : Declines b middle) :
    Declines (.seq a b) tokens := by
  intro c stands
  obtain ⟨vs, d, readsA, _, laidA⟩ := first c stands
  exact .seq readsA (second _ laidA.stands)

theorem reads_alt (first : Reads a tokens ts left) : Reads (.alt a b) tokens ts left := by
  intro c stands
  obtain ⟨vs, d, readsA, bare, laid⟩ := first c stands
  exact ⟨vs, d, .altFirst readsA, bare, laid⟩

theorem reads_alt_second (first : Declines a tokens) (second : Reads b tokens ts left) :
    Reads (.alt a b) tokens ts left := by
  intro c stands
  obtain ⟨vs, d, readsB, bare, laid⟩ := second c stands
  exact ⟨vs, d, .altSecond (first c stands) readsB, bare, laid⟩

theorem reads_first {before after : List Part} (others : ∀ q ∈ before, Declines q tokens)
    (taken : Reads p tokens ts left) : Reads (Peg.first (before ++ p :: after)) tokens ts left := by
  intro c stands
  obtain ⟨vs, d, reads, bare, laid⟩ := taken c stands
  exact ⟨vs, d, Grammar.settles_first (fun q member => others q member c stands) reads, bare, laid⟩

theorem reads_opt (first : Reads a tokens ts left) : Reads (.opt a) tokens ts left := by
  intro c stands
  obtain ⟨vs, d, readsA, bare, laid⟩ := first c stands
  exact ⟨vs, d, .opt readsA, bare, laid⟩

theorem reads_opt_none (first : Declines a tokens) : Reads (.opt a) tokens [] tokens :=
  fun c stands => ⟨[], c, .optNone (first c stands), rfl, stands.laid⟩

theorem reads_star (first : Reads a tokens ts middle) (others : ReadsMore a middle us left) :
    Reads (.star a) tokens (ts ++ us) left := by
  intro c stands
  obtain ⟨vs, d, readsA, bareA, laidA⟩ := first c stands
  obtain ⟨ws, e, readsB, bareB, laidB⟩ := others d laidA
  exact ⟨vs ++ ws, e, .star readsA readsB, by rw [Tree.bares_append, bareA, bareB], laidB⟩

theorem reads_star_none (first : Declines a tokens) : Reads (.star a) tokens [] tokens :=
  fun c stands => ⟨[], c, .starNone (first c stands), rfl, stands.laid⟩

theorem reads_more (first : Reads a tokens ts middle) (others : ReadsMore a middle us left) :
    ReadsMore a tokens (ts ++ us) left := by
  intro c laid
  obtain ⟨vs, d, readsA, bareA, laidA⟩ := first _ laid.stands
  obtain ⟨ws, e, readsB, bareB, laidB⟩ := others d laidA
  exact ⟨vs ++ ws, e, .more readsA readsB, by rw [Tree.bares_append, bareA, bareB], laidB⟩

theorem reads_more_none (first : Declines a tokens) : ReadsMore a tokens [] tokens :=
  fun c laid => ⟨[], c, .moreNone (first _ laid.stands), rfl, laid⟩

theorem reads_ahead (first : Reads a tokens ts left) : Reads (.ahead a) tokens [] tokens := by
  intro c stands
  obtain ⟨vs, d, reads, _⟩ := first c stands
  exact ⟨[], c, .ahead reads, rfl, stands.laid⟩

theorem reads_unless (first : Declines a tokens) : Reads (.unless a) tokens [] tokens :=
  fun c stands => ⟨[], c, .absent (first c stands), rfl, stands.laid⟩

theorem declines_unless (first : Reads a tokens ts left) : Declines (.unless a) tokens := by
  intro c stands
  obtain ⟨vs, d, reads, _⟩ := first c stands
  exact .present reads

theorem reads_rule (spaced : Rule.kind r = .spaced) (inner : Reads (Rule.body r) tokens ts left) :
    Reads (.rule r) tokens [.node r .nowhere ts] left := by
  intro c stands
  obtain ⟨vs, d, reads, bare, laid⟩ := inner c stands
  have gathered : grammar.Settles true (.rule r) c
      ((Verdict.matched vs d).gather (Rule.kind r) r c) := by
    refine .rule ?_
    rw [show grammar.kind r = .spaced from spaced]
    exact reads
  rw [spaced] at gathered
  exact ⟨_, d, gathered, by rw [Tree.bares, Tree.bares, Tree.bare, bare], laid⟩

theorem declines_rule (spaced : Rule.kind r = .spaced) (inner : Declines (Rule.body r) tokens) :
    Declines (.rule r) tokens := by
  intro c stands
  refine Grammar.settles_rule_refused ?_
  rw [show grammar.kind r = .spaced from spaced]
  exact inner c stands

theorem reads_token {t : String} (token : Rule.kind r = .token)
    (inner : ∀ c rest, c.rest = t.toList ++ rest → Apart t.toList rest →
      grammar.Settles false (Rule.body r) c (.matched [] (c.past t.toList rest))) :
    Reads (.rule r) (t :: left) [.leaf r .nowhere t.toList] left := by
  intro c stands
  obtain ⟨rest, next, _, apart, laid⟩ := stands.cons
  have text : c.textUpTo (c.past t.toList rest) = t.toList :=
    (Cursor.past_reads next).textUpTo
  exact ⟨_, _, Grammar.settles_token token (inner c rest next apart),
    by rw [Tree.bares, Tree.bares, Tree.bare, text], laid⟩

theorem declines_token (token : Rule.kind r = .token)
    (inner : ∀ c, Stands c tokens → grammar.Settles false (Rule.body r) c .refused) :
    Declines (.rule r) tokens :=
  fun c stands => Grammar.settles_token_refused token (inner c stands)

theorem reads_word {t : String} : Reads (Peg.word t) (t :: left) [] left := by
  intro c stands
  obtain ⟨rest, next, _, _, laid⟩ := stands.cons
  exact ⟨[], _, Grammar.settles_word next, rfl, laid⟩

end Rules

end Dil.Reading
