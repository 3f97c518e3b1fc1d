import Dil.Proofs.Reading.Fields
import Dil.Proofs.Seam.Mates

/-!
Ways from one source to another on which all is found again. What a construct reads in the first source
it reads also in the second one. Only what comes next could make it read on, or read otherwise; so each
construct is given what may follow it, and before whatever follows, none of its parts that was not there
before is found.
-/

namespace Dil

open Reading (behindWord)
open Relayout (shy)
open Rule (Part spellings wholeWord classEnd)

namespace Seam

/-- The rules whose matches end with a token, so that no layout is skipped at their end. -/
def isShut (r : Rule) : Bool :=
  isLexeme r || [Rule.typeSuffix, .fieldSegment, .indexSegment, .primaryExpr, .parenExpr, .newExpr,
    .mapLiteral, .arrayLiteral, .mapKey].contains r

def shuts : Part → Bool
  | .text _ => true
  | .rule r => isShut r
  | .seq _ b => shuts b
  | .alt a b => shuts a && shuts b
  | _ => false

theorem shuts_body {r : Rule} (shut : isShut r = true) (spaced : Rule.kind r = .spaced) :
    shuts (Rule.body r) = true := by
  revert shut spaced
  cases r <;> decide

theorem settles_least {p : Part} {c d : Cursor} {ts : List (Tree Rule)} (settles : grammar.Settles true p c (.matched ts d)) :
    d.rest.length + p.least Rule.least ≤ c.rest.length := grammar_bounded.length_le settles

def isKeyword (kw : Rule) : Bool :=
  isLexeme kw && shy false true (wholeWord kw) && decide (0 < (wholeWord kw).least Rule.least)

abbrev Next := Cursor → Prop

def Then (b : Part) (F : Next) : Next :=
  fun q => ∃ us d, grammar.Settles true b q (.matched us d) ∧ F (Layout.skip d)

def Again (a : Part) (F : Next) : Next :=
  fun q => F q ∨ ∃ us d, grammar.Settles true a q (.matched us d)

def Stops (a : Part) (F : Next) : Prop :=
  ∀ q, Layout.skip q = q → F q → grammar.Settles true a q .refused

def fieldParts : Part :=
  Peg.all [.rule .keyIdent, Peg.word ":", .rule .arithExpr, .opt (.rule .typeSuffix),
    .opt (.rule .overwriteModifier), Peg.word ";"]

def isInner (r : Rule) : Bool :=
  Rule.kind r == .spaced && r != .program && r != .standaloneExpression && r != .endOfInput

theorem spaced_of_inner {r : Rule} (inner : isInner r = true) : Rule.kind r = .spaced := by
  simp only [isInner, Bool.and_eq_true, beq_iff_eq] at inner
  exact inner.1.1.1

/-- Whatever the part did not find where it stood, it does not find before what comes next either. -/
inductive Local (follow : Rule → Next) : Next → Part → Prop where
  | text {F : Next} {w : List Char} (some : w ≠ []) (plain : w.all Relayout.isPlain = true) :
      Local follow F (.text w)
  | lexeme {F : Next} {r : Rule} (lexeme : isLexeme r = true) : Local follow F (.rule r)
  | word {F : Next} {kw : Rule} (keyword : isKeyword kw = true) :
      Local follow F (.seq (.ahead (.rule kw)) (Peg.words (spellings kw)))
  | rule {F : Next} {r : Rule} (inner : isInner r = true)
      (next : ∀ q, Layout.skip q = q → F q → follow r q) : Local follow F (.rule r)
  | seq {F : Next} {a b : Part} (first : Local follow (Then b F) a) (second : Local follow F b) :
      Local follow F (.seq a b)
  /-- A field, which is looked for only where the class does not end. -/
  | field {F : Next} (parts : Local follow F fieldParts) :
      Local follow F (.seq (.unless classEnd) fieldParts)
  | alt {F : Next} {a b : Part} (first : Local follow F a) (second : Local follow F b)
      (apart : Stops a (Then b F)) : Local follow F (.alt a b)
  | opt {F : Next} {a : Part} (inner : Local follow F a) (stops : Stops a F) :
      Local follow F (.opt a)
  | star {F : Next} {a : Part} (inner : Local follow (Again a F) a) (stops : Stops a F) :
      Local follow F (.star a)
  | more {F : Next} {a : Part} (inner : Local follow (Again a F) a) (stops : Stops a F) :
      Local follow F (.more a)

/-- The parts that skip no layout inside. -/
inductive IsToken : Part → Prop where
  | text {w : List Char} (some : w ≠ []) (plain : w.all Relayout.isPlain = true) : IsToken (.text w)
  | lexeme {r : Rule} (lexeme : isLexeme r = true) : IsToken (.rule r)
  | word {kw : Rule} (keyword : isKeyword kw = true) : IsToken (wholeWord kw)

end Seam

/-- Readers of two sources that may be in places that belong together, and what their trees have to do
with one another. -/
structure Sides where
  Mate : Cursor → Cursor → Prop
  Beside : Tree Rule → Tree Rule → Prop
  /-- Where both end with a token. -/
  Level : Nat → Nat → Prop
  /-- So much the first reader leaves unread. -/
  bound : Nat

/-- Mates with no layout ahead. -/
structure Sides.Stand (P : Sides) (c c' : Cursor) : Prop where
  mate : P.Mate c c'
  still : Layout.skip c = c
  still' : Layout.skip c' = c'

/-- What is read from `c'` is beside the trees, and ends where `d` does. -/
def Sides.Carried (P : Sides) (p : Part) (c' : Cursor) (ts : List (Tree Rule)) (d : Cursor) : Prop :=
  ∃ us d', grammar.Settles true p c' (.matched us d') ∧ List.Forall₂ P.Beside ts us ∧ P.Mate d d'
    ∧ (Seam.shuts p = true → P.Level d.offset d'.offset)

/-- A way from one source to another: layouts and tokens of the first one are found in the second one,
and a keyword is not found where it was not. -/
structure Passage extends Sides where
  skip {c c' : Cursor} (mate : Mate c c') (within : bound ≤ (Layout.skip c).rest.length) :
    Mate (Layout.skip c) (Layout.skip c')
  token {p : Part} {c c' d : Cursor} {ts : List (Tree Rule)} (token : Seam.IsToken p)
    (stand : toSides.Stand c c') (settles : grammar.Settles true p c (.matched ts d))
    (within : bound ≤ d.rest.length) : toSides.Carried p c' ts d
  node {r : Rule} {c c' d d' : Cursor} {ts us : List (Tree Rule)} (stand : toSides.Stand c c')
    (stop : Mate d d')
    (first : grammar.Settles true (.rule r) c (.matched [.node r (c.spanTo d) ts] d))
    (second : grammar.Settles true (.rule r) c' (.matched [.node r (c'.spanTo d') us] d'))
    (shut : Seam.isShut r = true → Level d.offset d'.offset) (inside : List.Forall₂ Beside ts us) :
    Beside (.node r (c.spanTo d) ts) (.node r (c'.spanTo d') us)
  word {kw : Rule} {c c' : Cursor} (keyword : Seam.isKeyword kw = true) (stand : toSides.Stand c c')
    (missed : grammar.Settles true (wholeWord kw) c .refused) (ahead : bound < c.rest.length)
    (within : bound ≤ (behindWord c).rest.length) : grammar.Settles true (wholeWord kw) c' .refused

namespace Seam

section Carries

variable {P : Passage} {follow : Rule → Next} {F : Next} {p a b : Part} {c c' d : Cursor}
  {ts : List (Tree Rule)}

theorem ends_seq {x : Char} (settles : grammar.Settles true (.seq a b) c (.matched ts d))
    (second : ∀ e us, grammar.Settles true b e (.matched us d) → ∃ s, e.rest = s ++ x :: d.rest) :
    ∃ s, c.rest = s ++ x :: d.rest := by
  obtain ⟨_, e, _, left, right, -⟩ := settles.matched_seq
  obtain ⟨s, reads, -⟩ := left.reads grammar_bounded.forward grammar_bounded.enough
  obtain ⟨t, layout⟩ := Layout.skip_reads e
  obtain ⟨u, rest⟩ := second _ _ right
  have whole : (Layout.skip e).rest = u ++ x :: d.rest := rest
  exact ⟨s ++ (t ++ u), by rw [reads.rest, layout.rest, whole]; simp⟩

theorem word_ends {x : Char} {s t : List Char} (other : Rule.isWordChar x = false) (rest : c.rest = s ++ x :: t) :
    t.length ≤ (behindWord c).rest.length := by
  have split : c.rest.dropWhile Rule.isWordChar = (behindWord c).rest := rfl
  rw [← split, rest, List.dropWhile_append]
  split
  · simp [other]
  · simp
    omega

theorem missed_classEnd (stand : P.Stand c c') (missed : grammar.Settles true classEnd c .refused)
    (field : grammar.Settles true fieldParts c (.matched ts d)) (within : P.bound ≤ d.rest.length) :
    grammar.Settles true classEnd c' .refused := by
  obtain ⟨_, e, _, name, others, -⟩ := field.matched_seq
  obtain ⟨_, f, _, colon, value, -⟩ := others.matched_seq
  obtain ⟨_, rfl⟩ := name.matched_rule
  obtain ⟨-, -, rfl, -⟩ := Reading.matched_keyIdent name
  obtain ⟨s, semicolon⟩ : ∃ s, (Layout.skip f).rest = s ++ ';' :: d.rest :=
    ends_seq value fun _ _ others => ends_seq others fun _ _ others => ends_seq others fun _ _ sign =>
      ⟨[], Relayout.matched_text sign⟩
  have aheadValue : P.bound < (Layout.skip f).rest.length := by
    rw [semicolon, List.length_append, List.length_cons]
    omega
  have withinColon : P.bound ≤ f.rest.length :=
    Nat.le_trans (Nat.le_of_lt aheadValue) (Grammar.skipIf_le grammar_bounded.forward true f)
  have aheadColon : P.bound < (Layout.skip (behindWord c)).rest.length :=
    Nat.lt_of_le_of_lt withinColon (settles_least colon)
  have withinName : P.bound ≤ (behindWord c).rest.length :=
    Nat.le_trans (Nat.le_of_lt aheadColon) (Grammar.skipIf_le grammar_bounded.forward true (behindWord c))
  have aheadName : P.bound < c.rest.length := Nat.lt_of_le_of_lt withinName (settles_least name)
  rcases missed.refused_seq with word | ⟨_, _, word, missed⟩
  · exact .seqRefused (P.word rfl stand word aheadName withinName)
  obtain ⟨-, -, rfl⟩ := Reading.matched_wholeWord rfl stand.still word
  obtain ⟨_, e', word', -, mate, -⟩ := P.token (.word rfl) stand word withinName
  refine .seq (v := .refused) word' ?_
  have standColon : P.Stand (Layout.skip (behindWord c)) (Layout.skip e') :=
    ⟨P.skip mate (Nat.le_of_lt aheadColon), Layout.skip_skip _, Layout.skip_skip _⟩
  rcases missed.refused_seq with sign | ⟨_, _, sign, missed⟩
  · cases sign.unique colon
  cases sign.unique colon
  obtain ⟨_, f', sign', -, mate, -⟩ := P.token (.text (by decide) (by decide)) standColon sign withinColon
  refine .seq (v := .refused) sign' ?_
  have standValue : P.Stand (Layout.skip f) (Layout.skip f') :=
    ⟨P.skip mate (Nat.le_of_lt aheadValue), Layout.skip_skip _, Layout.skip_skip _⟩
  rcases missed.refused_seq with word | ⟨_, _, _, missed⟩
  · exact .seqRefused (P.word rfl standValue word aheadValue (Nat.le_trans within (word_ends rfl semicolon)))
  · cases missed

theorem carried_next (carried : P.Carried b c' ts d)
    (next : ∀ d', P.Mate d d' → F (Layout.skip d')) : Then b F c' := by
  obtain ⟨us, d', settles, -, mate, -⟩ := carried
  exact ⟨us, d', settles, next d' mate⟩

theorem carried_again {e : Cursor} (carried : P.Carried (.more a) e ts d)
    (next : ∀ d', P.Mate d d' → F (Layout.skip d')) : Again a F (Layout.skip e) := by
  obtain ⟨us, d', settles, -, mate, -⟩ := carried
  generalize verdict : Verdict.matched us d' = v at settles
  cases settles with
  | more first => exact .inr ⟨_, _, first⟩
  | moreNone =>
      cases verdict
      exact .inl (next _ mate)

theorem carried_rule {r : Rule} (stand : P.Stand c c') (isInner : isInner r = true)
    (settles : grammar.Settles true (.rule r) c (.matched ts d))
    (inside : ∀ us, grammar.Settles true (Rule.body r) c (.matched us d) → P.Carried (Rule.body r) c' us d) :
    P.Carried (.rule r) c' ts d := by
  have kind := spaced_of_inner isInner
  obtain ⟨t, rfl⟩ := settles.matched_rule
  obtain ⟨vs, rfl, body⟩ := settles.matched_node kind
  obtain ⟨us, d', settles', beside, mate, level⟩ := inside vs body
  have second := Grammar.settles_node kind settles'
  have shut (shut : isShut r = true) := level (shuts_body shut kind)
  exact ⟨_, d', second, .cons (P.node stand mate settles second shut beside) .nil, mate, shut⟩

theorem carried_seq {e : Cursor} {us vs : List (Tree Rule)} (first : P.Carried a c' us e)
    (second : ∀ e', P.Mate e e' → P.Carried b (Layout.skip e') vs d) : P.Carried (.seq a b) c' (us ++ vs) d := by
  obtain ⟨us', e', settles, beside, mate, -⟩ := first
  obtain ⟨vs', d', settles', beside', ends⟩ := second e' mate
  exact ⟨us' ++ vs', d', .seq settles settles', List.rel_append beside beside', ends⟩

theorem carried_star {e : Cursor} {us vs : List (Tree Rule)} (first : P.Carried a c' us e)
    (others : ∀ e', P.Mate e e' → P.Carried (.more a) e' vs d) : P.Carried (.star a) c' (us ++ vs) d := by
  obtain ⟨us', e', settles, beside, mate, -⟩ := first
  obtain ⟨vs', d', settles', beside', mate', -⟩ := others e' mate
  exact ⟨us' ++ vs', d', .star settles settles', List.rel_append beside beside', mate', nofun⟩

theorem carried_more {e : Cursor} {us vs : List (Tree Rule)} (first : P.Carried a (Layout.skip c') us e)
    (others : ∀ e', P.Mate e e' → P.Carried (.more a) e' vs d) : P.Carried (.more a) c' (us ++ vs) d := by
  obtain ⟨us', e', settles, beside, mate, -⟩ := first
  obtain ⟨vs', d', settles', beside', mate', -⟩ := others e' mate
  exact ⟨us' ++ vs', d', .more settles settles', List.rel_append beside beside', mate', nofun⟩

/-- What a part reads in the one source it reads in the other, if what comes next there is what may
follow it. -/
theorem carries (P : Passage) (table : ∀ r, isInner r = true → Local follow (follow r) (Rule.body r))
    (closed : Local follow F p) {spaced : Bool} {v : Verdict Rule}
    (settles : grammar.Settles spaced p c v) (layout : spaced = true) (matched : v = .matched ts d)
    (mate : P.Mate c c') (start : (Layout.skip c = c ∧ Layout.skip c' = c') ∨ ∃ a, p = .more a)
    (within : P.bound ≤ d.rest.length)
    (next : ∀ d', P.Mate d d' → F (Layout.skip d')) : P.Carried p c' ts d := by
  -- What may follow changes from part to part, so that `F` goes along with the induction.
  induction settles generalizing F c' ts d with
  | nothing | atEnd | char | absent | ahead => cases closed
  | beforeEnd | charRefused | textRefused | seqRefused | aheadRefused | present => cases matched
  | text found =>
      subst layout
      obtain ⟨still, still'⟩ | ⟨_, ⟨⟩⟩ := start
      cases closed with
      | text some plain =>
          exact P.token (.text some plain) ⟨mate, still, still'⟩ (matched ▸ .text found) within
  | @rule _ r c v inner ih =>
      subst layout
      obtain ⟨still, still'⟩ | ⟨_, ⟨⟩⟩ := start
      have stand : P.Stand c c' := ⟨mate, still, still'⟩
      have first : grammar.Settles true (.rule r) c (.matched ts d) := matched ▸ .rule inner
      cases closed with
      | lexeme lexeme => exact P.token (.lexeme lexeme) stand first within
      | rule isInner follows =>
          refine carried_rule stand isInner first fun us body => ?_
          have spacing : (grammar.kind r).spacing true = true := by
            rw [show grammar.kind r = .spaced from spaced_of_inner isInner]
            rfl
          rw [spacing] at inner
          exact ih (table r isInner) spacing (inner.unique body) mate (.inl ⟨still, still'⟩) within
            fun d' mate' => follows _ (Layout.skip_skip d') (next d' mate')
  | @seq _ a b c e us v first second ihA ihB =>
      subst layout
      obtain ⟨still, still'⟩ | ⟨_, ⟨⟩⟩ := start
      obtain ⟨vs, rfl, rfl⟩ := Verdict.of_after_matched matched
      have shorter := settles_least second
      have skipped := Grammar.skipIf_le (g := grammar) Layout.skip_reads true e
      have within' : P.bound ≤ e.rest.length := by omega
      have skips : P.bound ≤ (Layout.skip e).rest.length :=
        Nat.le_trans within (Nat.le_trans (Nat.le_add_right ..) shorter)
      cases closed with
      | seq closedA closedB =>
          -- The second part goes first: that it is carried is what may follow the first one.
          have later (e' : Cursor) (mate : P.Mate e e') : P.Carried b (Layout.skip e') vs d :=
            ihB closedB rfl rfl (P.skip mate skips)
              (.inl ⟨Layout.skip_skip e, Layout.skip_skip e'⟩) within next
          have first' := ihA closedA rfl rfl mate (.inl ⟨still, still'⟩) within' fun e' mate' =>
            carried_next (later e' mate') next
          exact carried_seq first' later
      | word keyword =>
          exact P.token (.word keyword) ⟨mate, still, still'⟩ (.seq first second) within
      | field parts =>
          cases first with
          | absent first =>
              -- The class does not end here in the second source either, so that a field is tried.
              have stay : grammar.skipIf true c = c := still
              rw [stay] at second
              have refused := missed_classEnd ⟨mate, still, still'⟩ first second within
              obtain ⟨vs', d', second', carried⟩ :=
                ihB parts rfl rfl (by rw [stay]; exact mate) (.inl ⟨by rw [stay]; exact still, still'⟩) within next
              rw [← show grammar.skipIf true c' = c' from still'] at second'
              exact ⟨vs', d', .seq (.absent refused) second', carried⟩
  | altFirst _ ih =>
      subst layout
      obtain still | ⟨_, ⟨⟩⟩ := start
      cases closed with
      | alt closedA _ _ =>
          obtain ⟨us, d', first, beside, mate', level⟩ := ih closedA rfl matched mate (.inl still) within next
          refine ⟨us, d', .altFirst first, beside, mate', fun shut => level ?_⟩
          rw [shuts, Bool.and_eq_true] at shut
          exact shut.1
  | @altSecond _ a b c v first second ihA ihB =>
      subst layout
      obtain ⟨still, still'⟩ | ⟨_, ⟨⟩⟩ := start
      cases closed with
      | alt _ closedB apart =>
          -- That the first choice is refused there too follows from what the second one reads.
          have carried := ihB closedB rfl matched mate (.inl ⟨still, still'⟩) within next
          have refused := apart c' still' (carried_next carried next)
          obtain ⟨us, d', second', beside, mate', level⟩ := carried
          refine ⟨us, d', .altSecond refused second', beside, mate', fun shut => level ?_⟩
          rw [shuts, Bool.and_eq_true] at shut
          exact shut.2
  | opt _ ih =>
      subst layout
      obtain still | ⟨_, ⟨⟩⟩ := start
      cases closed with
      | opt closedA stops =>
          obtain ⟨us, d', first, beside, mate', -⟩ := ih closedA rfl matched mate (.inl still) within next
          exact ⟨us, d', .opt first, beside, mate', nofun⟩
  | @optNone _ a c _ _ =>
      cases matched
      subst layout
      obtain ⟨still, still'⟩ | ⟨_, ⟨⟩⟩ := start
      cases closed with
      | opt _ stops =>
          have follows := next c' mate
          rw [still'] at follows
          exact ⟨[], c', .optNone (stops c' still' follows), .nil, mate, nofun⟩
  | @star _ a c e us v first others ihA ihB =>
      subst layout
      obtain still | ⟨_, ⟨⟩⟩ := start
      obtain ⟨vs, rfl, rfl⟩ := Verdict.of_after_matched matched
      have shorter := settles_least others
      have within' : P.bound ≤ e.rest.length := by omega
      cases closed with
      | star closedA stops =>
          have later (e' : Cursor) (mate : P.Mate e e') : P.Carried (.more a) e' vs d :=
            ihB (.more closedA stops) rfl rfl mate (.inr ⟨a, rfl⟩) within next
          have first' := ihA closedA rfl rfl mate (.inl still) within' fun e' mate' =>
            carried_again (later e' mate') next
          exact carried_star first' later
  | @starNone _ a c _ _ =>
      cases matched
      subst layout
      obtain ⟨still, still'⟩ | ⟨_, ⟨⟩⟩ := start
      cases closed with
      | star _ stops =>
          have follows := next c' mate
          rw [still'] at follows
          exact ⟨[], c', .starNone (stops c' still' follows), .nil, mate, nofun⟩
  | @more _ a c e us v first others ihA ihB =>
      subst layout
      obtain ⟨vs, rfl, rfl⟩ := Verdict.of_after_matched matched
      have shorter := settles_least others
      have within' : P.bound ≤ e.rest.length := by omega
      have skips : P.bound ≤ (Layout.skip c).rest.length :=
        Nat.le_trans within' (Nat.le_trans (Nat.le_add_right ..) (settles_least first))
      have closed' := closed
      cases closed with
      | more closedA stops =>
          have later (e' : Cursor) (mate : P.Mate e e') : P.Carried (.more a) e' vs d :=
            ihB closed' rfl rfl mate (.inr ⟨a, rfl⟩) within next
          have first' := ihA closedA rfl rfl (P.skip mate skips)
            (.inl ⟨Layout.skip_skip c, Layout.skip_skip c'⟩) within' fun e' mate' => carried_again (later e' mate') next
          exact carried_more first' later
  | @moreNone _ a c _ _ =>
      cases matched
      subst layout
      cases closed with
      | more _ stops =>
          exact ⟨[], c', .moreNone (stops _ (Layout.skip_skip c') (next c' mate)), .nil, mate, nofun⟩

end Carries

end Seam

end Dil
