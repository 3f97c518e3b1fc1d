import Dil.Proofs.Grammar.Bounds
import Dil.Proofs.Reading.Lexemes
import Dil.Proofs.Relayout.Runs

/-!
Reading two texts that differ in one gap between tokens. Wherever a reader of the one stands before
the gap, a reader of the other can stand at the same place, and behind the gap both see the same text;
so they do the same, and the trees they read differ in their places only.
-/

namespace Dil.Relayout

open Layout (Quiet behind isBlank)
open Rule (Part)
open Reading (settles_string)

def isPlain (c : Char) : Bool := !isBlank c && c != '/' && c != '"'

/-- Two texts before which every word of plain characters ends. -/
structure Rift (g h : List Char) : Prop where
  here : ∀ d ∈ g.head?, isPlain d = false
  there : ∀ d ∈ h.head?, isPlain d = false

/-- Two texts that begin with layout, the second one with a blank, and go on alike behind it. -/
structure Gap (g h : List Char) : Prop where
  alike : behind h = behind g
  layout : behind g ≠ g
  blank : ∃ c s, h = c :: s ∧ isBlank c = true

/-- What two readers have left. `even` says that both are behind the gap, and `still` that there is
no layout to be skipped. -/
inductive Twin (g h : List Char) (even still : Bool) : List Char → List Char → Prop where
  | behind (t : List Char) : Twin g h even still t t
  | before {x : List Char} (uneven : even = false) (quiet : Quiet g x)
      (settled : still = true → x ≠ [] ∧ behind (x ++ g) = x ++ g) : Twin g h even still (x ++ g) (x ++ h)

/-- Whether an expression leaves layout and quotes to the rules that are for them, so that what it
reads ends before a gap. A slash alone may be read where no layout starts. The end of all input is
looked for between tokens only. -/
def shy (spaced still : Bool) : Part → Bool
  | .nothing => true
  | .endOfInput => spaced
  | .char accepts => !([' ', '\t', '\r', '\n', '/', '"'].any accepts)
  | .text word => word.all isPlain || still && word == ['/']
  | .rule r => still && r != .stringInner && (spaced || Rule.kind r == .token)
  | .seq a b => shy spaced still a && shy spaced spaced b
  | .alt a b => shy spaced still a && shy spaced still b
  | .opt a | .ahead a | .unless a => shy spaced still a
  | .star a => shy spaced still a && shy spaced spaced a
  | .more a => shy spaced spaced a

theorem shy_body {r : Rule} (unquoted : r ≠ .stringLiteral ∧ r ≠ .stringInner) :
    shy ((Rule.kind r).spacing true) true (Rule.body r) = true := by
  cases r <;> first | decide | simp at unquoted

theorem spacing_token {r : Rule} (token : Rule.kind r = .token) (spaced : Bool) :
    (Rule.kind r).spacing spaced = false := by
  rw [token]
  rfl

theorem still_of_shy {spaced still : Bool} {r : Rule} (fit : shy spaced still (.rule r) = true) :
    still = true := by
  simp only [shy, Bool.and_eq_true] at fit
  exact fit.1.1

theorem shy_inside {spaced still : Bool} {r : Rule} (fit : shy spaced still (.rule r) = true)
    (unquoted : r ≠ .stringLiteral) :
    shy ((Rule.kind r).spacing spaced) still (Rule.body r) = true := by
  simp only [shy, Bool.and_eq_true, Bool.or_eq_true, bne_iff_ne, beq_iff_eq] at fit
  obtain ⟨⟨rfl, notInner⟩, rfl | token⟩ := fit
  · exact shy_body ⟨unquoted, notInner⟩
  · have fits := shy_body ⟨unquoted, notInner⟩
    rwa [spacing_token token] at fits ⊢

theorem plain_of_accepted {accepts : Char → Bool} {c : Char}
    (layout : (!([' ', '\t', '\r', '\n', '/', '"'].any accepts)) = true) (accepted : accepts c = true) :
    isPlain c = true := by
  simp only [List.any_cons, List.any_nil, Bool.or_false, Bool.not_eq_true', Bool.or_eq_false_iff]
    at layout
  obtain ⟨space, tab, carriage, newline, slash, quote⟩ := layout
  have differs (d : Char) (refused : accepts d = false) : c ≠ d := by
    rintro rfl
    rw [accepted] at refused
    cases refused
  simp [isPlain, isBlank, differs _ space, differs _ tab, differs _ carriage, differs _ newline,
    differs _ slash, differs _ quote]

section Texts

variable {g h x y w : List Char} {c : Char} {even still : Bool}

theorem tail_of_plain (quiet : Quiet g (c :: x)) (plain : isPlain c = true) : Quiet g x := by
  simp only [isPlain, Bool.and_eq_true, Bool.not_eq_true', bne_iff_ne, ne_eq] at plain
  exact quiet.tail plain.1.1 ⟨plain.1.2, plain.2⟩

theorem drop_of_plain (quiet : Quiet g (w ++ x)) (plain : w.all isPlain = true) : Quiet g x := by
  induction w with
  | nil => exact quiet
  | cons c w ih =>
      simp only [List.all_cons, Bool.and_eq_true] at plain
      exact ih (tail_of_plain quiet plain.1) plain.2

theorem prefix_of_plain (plain : w.all isPlain = true) (other : ∀ d ∈ g.head?, isPlain d = false)
    (begins : w <+: x ++ g) : ∃ y, x = w ++ y := by
  induction w generalizing x with
  | nil => exact ⟨x, rfl⟩
  | cons c w ih =>
      simp only [List.all_cons, Bool.and_eq_true] at plain
      cases x with
      | nil =>
          obtain ⟨rest, split⟩ := begins
          have next : g.head? = some c := by rw [← List.nil_append g, ← split]; rfl
          rw [other c next] at plain
          cases plain.1
      | cons d x =>
          obtain ⟨rfl, later⟩ := List.cons_prefix_cons.mp begins
          obtain ⟨y, rfl⟩ := ih plain.2 later
          exact ⟨y, rfl⟩

theorem Gap.head (gap : Gap g h) : g ≠ [] ∧ ∀ d ∈ g.head?, isPlain d = false := by
  constructor
  · rintro rfl
    exact gap.layout rfl
  · intro d next
    obtain ⟨s, rfl⟩ := List.head?_eq_some_iff.mp next
    by_contra plain
    simp only [isPlain, Bool.not_eq_false, Bool.and_eq_true, Bool.not_eq_true', bne_iff_ne] at plain
    exact gap.layout (Layout.behind_unblank s plain.1.1 plain.1.2)

theorem Gap.head_blank (gap : Gap g h) : ∀ d ∈ h.head?, isBlank d = true := by
  obtain ⟨c, s, rfl, blank⟩ := gap.blank
  rintro d ⟨⟩
  exact blank

theorem Gap.head_other (gap : Gap g h) : h ≠ [] ∧ ∀ d ∈ h.head?, isPlain d = false := by
  obtain ⟨c, s, rfl, blank⟩ := gap.blank
  refine ⟨List.cons_ne_nil c s, ?_⟩
  rintro d ⟨⟩
  simp [isPlain, blank]

theorem Gap.rift (gap : Gap g h) : Rift g h := ⟨gap.head.2, gap.head_other.2⟩

theorem Twin.weaken {even' : Bool} {t u : List Char} (twin : Twin g h even still t u)
    (less : even' = true → even = true) : Twin g h even' false t u := by
  cases twin with
  | behind => exact .behind _
  | before uneven quiet settled =>
      refine .before ?_ quiet Bool.false_ne_true.elim
      cases even' with
      | false => rfl
      | true => rw [less rfl] at uneven; cases uneven

theorem Twin.behind_both {t u : List Char} (gap : Gap g h) (twin : Twin g h even still t u) :
    Twin g h even true (Layout.behind t) (Layout.behind u) := by
  cases twin with
  | behind => exact .behind _
  | @before x uneven quiet _ =>
      rcases quiet.behind_cases fun _ => Layout.alone_blank gap.head_blank with
        ⟨first, second⟩ | ⟨y, some, quiet', first, second⟩
      · rw [first, second, gap.alike]
        exact .behind _
      · have settled := Layout.behind_behind (x ++ g)
        rw [first] at settled
        rw [first, second]
        exact .before uneven quiet' fun _ => ⟨some, settled⟩

theorem Twin.skipIf {spaced : Bool} (gap : spaced = true → Gap g h) {c d : Cursor}
    (twin : Twin g h even false c.rest d.rest) : Twin g h even spaced (grammar.skipIf spaced c).rest (grammar.skipIf spaced d).rest := by
  cases spaced with
  | false => exact twin
  | true =>
      have skipped (c : Cursor) : (grammar.skipIf true c).rest = Layout.behind c.rest :=
        Layout.skip_rest c
      rw [skipped, skipped]
      exact twin.behind_both (gap rfl)

theorem Twin.cases {t u : List Char} (twin : Twin g h even still t u) :
    t = u ∨ ∃ x, even = false ∧ Quiet g x ∧
      (still = true → x ≠ [] ∧ Layout.behind (x ++ g) = x ++ g) ∧ t = x ++ g ∧ u = x ++ h := by
  cases twin with
  | behind => exact .inl rfl
  | before uneven quiet settled => exact .inr ⟨_, uneven, quiet, settled, rfl, rfl⟩

theorem Twin.nil_iff {t u : List Char} (twin : Twin g h even still t u)
    (fit : Gap g h ∨ even = true) : t = [] ↔ u = [] := by
  cases twin with
  | behind => exact Iff.rfl
  | before uneven =>
      subst uneven
      have gap := fit.resolve_right Bool.false_ne_true
      simp [gap.head.1, gap.head_other.1]

theorem Twin.char (rift : Rift g h) {t u : List Char} (twin : Twin g h even still t u)
    {accepts : Char → Bool}
    (fit : even = true ∨ (!([' ', '\t', '\r', '\n', '/', '"'].any accepts)) = true) :
    (∀ c xs, t = c :: xs → accepts c = true → ∃ ys, u = c :: ys ∧ Twin g h even false xs ys) ∧
    ((∀ c xs, t = c :: xs → accepts c = false) → ∀ c ys, u = c :: ys → accepts c = false) := by
  obtain rfl | ⟨x, rfl, quiet, _, rfl, rfl⟩ := twin.cases
  · refine ⟨?_, id⟩
    rintro c xs rfl _
    exact ⟨xs, rfl, .behind xs⟩
  · replace fit := fit.resolve_left Bool.false_ne_true
    have refused {f : List Char} (other : ∀ d ∈ f.head?, isPlain d = false) {c : Char}
        {xs : List Char} (next : f = c :: xs) : accepts c = false := by
      by_contra accepted
      have plain := plain_of_accepted fit (Bool.of_not_eq_false accepted)
      rw [other c (by rw [next]; rfl)] at plain
      cases plain
    cases x with
    | nil =>
        refine ⟨fun c xs next accepted => ?_, fun _ c ys next => refused rift.there next⟩
        rw [refused rift.here next] at accepted
        cases accepted
    | cons d x =>
        constructor
        · rintro c xs ⟨⟩ accepted
          exact ⟨x ++ h, rfl, .before rfl (tail_of_plain quiet (plain_of_accepted fit accepted)) Bool.false_ne_true.elim⟩
        · rintro other c ys ⟨⟩
          exact other _ _ rfl

theorem Twin.text (rift : Rift g h) {t u : List Char} (twin : Twin g h even still t u)
    (fit : even = true ∨ (w.all isPlain || still && w == ['/']) = true) :
    (∀ rest, t = w ++ rest → ∃ rest', u = w ++ rest' ∧ Twin g h even false rest rest') ∧
    (¬ w <+: t → ¬ w <+: u) := by
  obtain rfl | ⟨x, rfl, quiet, settled, rfl, rfl⟩ := twin.cases
  · exact ⟨fun rest split => ⟨rest, split, .behind rest⟩, id⟩
  · replace fit := fit.resolve_left Bool.false_ne_true
    simp only [Bool.or_eq_true, Bool.and_eq_true, beq_iff_eq] at fit
    rcases fit with plain | ⟨rfl, rfl⟩
    · constructor
      · intro rest split
        obtain ⟨y, rfl⟩ := prefix_of_plain plain rift.here ⟨rest, split.symm⟩
        rw [List.append_assoc, List.append_cancel_left_eq] at split
        subst split
        exact ⟨y ++ h, List.append_assoc .., .before rfl (drop_of_plain quiet plain) Bool.false_ne_true.elim⟩
      · intro other begins
        obtain ⟨y, rfl⟩ := prefix_of_plain plain rift.there begins
        exact other ⟨y ++ g, (List.append_assoc ..).symm⟩
    · obtain ⟨some, settled⟩ := settled rfl
      cases x with
      | nil => exact absurd rfl some
      | cons d x =>
          constructor
          · rintro rest ⟨⟩
            exact ⟨x ++ h, rfl, .before rfl (quiet.tail_slash settled) Bool.false_ne_true.elim⟩
          · intro other begins
            rw [List.cons_append, List.cons_prefix_cons] at begins other
            exact other ⟨begins.1, List.nil_prefix⟩

end Texts

/-- Two verdicts that differ in places only. Without layout the same text was read. -/
inductive Alike (g h : List Char) (even spaced : Bool) (c c' : Cursor) :
    Verdict Rule → Verdict Rule → Prop where
  | refused : Alike g h even spaced c c' .refused .refused
  | matched {ts us : List (Tree Rule)} {d d' : Cursor} (bare : Tree.bares us = Tree.bares ts)
      (twin : Twin g h even false d.rest d'.rest)
      (joined : spaced = false → ∃ s, c.rest = s ++ d.rest ∧ c'.rest = s ++ d'.rest) :
      Alike g h even spaced c c' (.matched ts d) (.matched us d')

section Readers

variable {g h : List Char} {even still spaced : Bool} {c c' d d' : Cursor} {v w : Verdict Rule}
  {ts us : List (Tree Rule)}

theorem Alike.after (bare : Tree.bares us = Tree.bares ts)
    (joined : spaced = false → ∃ s, c.rest = s ++ d.rest ∧ c'.rest = s ++ d'.rest)
    (second : Alike g h even spaced d d' v w) :
    Alike g h even spaced c c' (v.after ts) (w.after us) := by
  cases second with
  | refused => exact .refused
  | matched bare' twin joined' =>
      refine .matched (by rw [Tree.bares_append, Tree.bares_append, bare, bare']) twin fun tight => ?_
      obtain ⟨s, first, first'⟩ := joined tight
      obtain ⟨t, second, second'⟩ := joined' tight
      exact ⟨s ++ t, by rw [first, second, List.append_assoc], by rw [first', second', List.append_assoc]⟩

theorem text_of_settles {p : Part} {s : List Char}
    (settles : grammar.Settles spaced p c (.matched ts d)) (read : c.rest = s ++ d.rest) :
    c.textUpTo d = s := by
  obtain ⟨t, reads, _⟩ := settles.reads grammar_bounded.forward grammar_bounded.enough
  have same := reads.rest
  rw [read, List.append_cancel_right_eq] at same
  rw [reads.textUpTo, same]

theorem spacing_false (kind : RuleKind) : kind.spacing false = false := by
  cases kind <;> rfl

theorem Alike.gather {r : Rule}
    (settles : grammar.Settles ((Rule.kind r).spacing spaced) (Rule.body r) c v)
    (settles' : grammar.Settles ((Rule.kind r).spacing spaced) (Rule.body r) c' w)
    (alike : Alike g h even ((Rule.kind r).spacing spaced) c c' v w) :
    Alike g h even spaced c c' (v.gather (Rule.kind r) r c) (w.gather (Rule.kind r) r c') := by
  cases alike with
  | refused => exact .refused
  | matched bare twin joined =>
      have outer (tight : spaced = false) : (Rule.kind r).spacing spaced = false := by
        rw [tight, spacing_false]
      cases kind : Rule.kind r with
      | token =>
          obtain ⟨s, read, read'⟩ := joined (spacing_token kind spaced)
          refine .matched ?_ twin fun tight => joined (outer tight)
          simp only [Tree.bares, Tree.bare, text_of_settles settles read, text_of_settles settles' read']
      | spaced | joined =>
          refine .matched ?_ twin fun tight => joined (outer tight)
          simp only [Tree.bares, Tree.bare, bare]

/-- A quoted text that starts before the gap ends before it. -/
theorem string_twin {x : List Char} (quiet : Quiet g x) (some : x ≠ []) (here : c.rest = x ++ g) (there : c'.rest = x ++ h)
    (settles : grammar.Settles spaced (.rule .stringLiteral) c v) :
    ∃ w, grammar.Settles spaced (.rule .stringLiteral) c' w ∧ Alike g h false spaced c c' v w := by
  cases x with
  | nil => exact absurd rfl some
  | cons a x =>
      by_cases quote : a = '"'
      · subst quote
        obtain ⟨t, y, rfl, inside, quiet'⟩ := quiet.unquoted
        have split (f : List Char) : '"' :: (t ++ '"' :: y) ++ f = '"' :: (t ++ '"' :: (y ++ f)) := by simp
        rw [split] at here there
        rw [settles.unique (settles_string inside here)]
        refine ⟨_, settles_string inside there, .matched rfl (.before rfl quiet' Bool.false_ne_true.elim) fun _ => ?_⟩
        exact ⟨'"' :: (t ++ ['"']), by simp [here, Cursor.past], by simp [there, Cursor.past]⟩
      · have refused {c : Cursor} {f : List Char} (next : c.rest = a :: x ++ f) :
            grammar.Settles spaced (.rule .stringLiteral) c .refused := by
          refine Grammar.settles_rule_refused (.seqRefused (Grammar.settles_word_refused ?_))
          rintro ⟨rest, split⟩
          rw [next] at split
          exact quote (List.cons.inj split).1.symm
        rw [settles.unique (refused here)]
        exact ⟨_, refused there, .refused⟩

theorem Alike.weaken {even' : Bool} (alike : Alike g h even spaced c c' v w)
    (less : even' = true → even = true) : Alike g h even' spaced c c' v w := by
  cases alike with
  | refused => exact .refused
  | matched bare twin joined => exact .matched bare (twin.weaken less) joined

theorem Twin.stays (twin : Twin g h even still c.rest c'.rest) :
    Alike g h even spaced c c' (.matched [] c) (.matched [] c') :=
  .matched rfl (twin.weaken id) fun _ => ⟨[], rfl, rfl⟩

/-- On two texts that differ in the gap only, the same is settled. In a token nothing depends on what
the gap is. -/
theorem settles_twin (rift : Rift g h) {p : Part} (settles : grammar.Settles spaced p c v)
    (gap : spaced = true → Gap g h)
    (twin : Twin g h even still c.rest c'.rest) (fit : even = true ∨ shy spaced still p = true) :
    ∃ w, grammar.Settles spaced p c' w ∧ Alike g h even spaced c c' v w := by
  induction settles generalizing even still c' with
  | nothing => exact ⟨_, .nothing, twin.stays⟩
  | atEnd nothingLeft =>
      exact ⟨_, .atEnd ((twin.nil_iff (fit.symm.imp_left gap)).mp nothingLeft), twin.stays⟩
  | beforeEnd left =>
      refine ⟨_, .beforeEnd fun none => left ?_, .refused⟩
      exact (twin.nil_iff (fit.symm.imp_left gap)).mpr none
  | @char _ accepts c x xs next accepted =>
      obtain ⟨ys, next', twin'⟩ := (twin.char rift fit).1 x xs next accepted
      exact ⟨_, .char next' accepted, .matched rfl twin' fun _ => ⟨[x], next, next'⟩⟩
  | charRefused refused => exact ⟨_, .charRefused ((twin.char rift fit).2 refused), .refused⟩
  | @text _ word c d next =>
      have reads := Cursor.read?_eq_some_iff.mp next
      obtain ⟨rest, next', twin'⟩ := (twin.text rift fit).1 d.rest reads.rest
      exact ⟨_, Grammar.settles_word next', .matched rfl twin' fun _ => ⟨word, reads.rest, next'⟩⟩
  | textRefused other =>
      have refused := (twin.text rift fit).2 (Cursor.read?_eq_none_iff.mp other)
      exact ⟨_, Grammar.settles_word_refused refused, .refused⟩
  | @rule spaced r c v inner ih =>
      have inside (within : (Rule.kind r).spacing spaced = true) : Gap g h := by
        refine gap (Bool.of_not_eq_false fun tight => ?_)
        rw [tight, spacing_false] at within
        cases within
      obtain same | ⟨x, rfl, quiet, settled, here, there⟩ := twin.cases
      -- Behind the gap the texts are the same, and no part of the rule can be unfit.
      · have twin' : Twin g h true still c.rest c'.rest := same ▸ .behind _
        obtain ⟨_, inner', alike⟩ := ih inside twin' (.inl rfl)
        have gathered : Alike g h true spaced c c' _ _ := alike.gather inner inner'
        exact ⟨_, .rule inner', gathered.weaken fun _ => rfl⟩
      · replace fit := fit.resolve_left Bool.false_ne_true
        obtain rfl := still_of_shy fit
        by_cases quoted : r = .stringLiteral
        · subst quoted
          exact string_twin quiet (settled rfl).1 here there (.rule inner)
        · obtain ⟨_, inner', alike⟩ := ih inside twin (.inr (shy_inside fit quoted))
          exact ⟨_, .rule inner', alike.gather inner inner'⟩
  | @seq spaced a b c d ts v _ _ ihA ihB =>
      have fitA : even = true ∨ shy spaced still a = true := by
        simp only [shy, Bool.and_eq_true] at fit
        exact fit.imp_right And.left
      have fitB : even = true ∨ shy spaced spaced b = true := by
        simp only [shy, Bool.and_eq_true] at fit
        exact fit.imp_right And.right
      obtain ⟨_, first, alike⟩ := ihA gap twin fitA
      cases alike with
      | matched bare twin' joined =>
          obtain ⟨_, second, alike'⟩ := ihB gap (twin'.skipIf gap) fitB
          refine ⟨_, .seq first second, .after bare (fun tight => ?_) alike'⟩
          subst tight
          exact joined rfl
  | seqRefused _ ih =>
      simp only [shy, Bool.and_eq_true] at fit
      obtain ⟨_, first, alike⟩ := ih gap twin (fit.imp_right And.left)
      cases alike
      exact ⟨_, .seqRefused first, .refused⟩
  | altFirst _ ih =>
      simp only [shy, Bool.and_eq_true] at fit
      obtain ⟨_, first, alike⟩ := ih gap twin (fit.imp_right And.left)
      cases alike with
      | matched bare twin' joined => exact ⟨_, .altFirst first, .matched bare twin' joined⟩
  | altSecond _ _ ihA ihB =>
      simp only [shy, Bool.and_eq_true] at fit
      obtain ⟨_, first, alike⟩ := ihA gap twin (fit.imp_right And.left)
      cases alike
      obtain ⟨_, second, alike'⟩ := ihB gap twin (fit.imp_right And.right)
      exact ⟨_, .altSecond first second, alike'⟩
  | opt _ ih =>
      obtain ⟨_, first, alike⟩ := ih gap twin fit
      cases alike with
      | matched bare twin' joined => exact ⟨_, .opt first, .matched bare twin' joined⟩
  | optNone _ ih =>
      obtain ⟨_, first, alike⟩ := ih gap twin fit
      cases alike
      exact ⟨_, .optNone first, twin.stays⟩
  | star _ _ ihA ihB =>
      simp only [shy, Bool.and_eq_true] at fit
      obtain ⟨_, first, alike⟩ := ihA gap twin (fit.imp_right And.left)
      cases alike with
      | matched bare twin' joined =>
          obtain ⟨_, others, alike'⟩ := ihB gap twin' (fit.imp_right And.right)
          exact ⟨_, .star first others, .after bare joined alike'⟩
  | starNone _ ih =>
      simp only [shy, Bool.and_eq_true] at fit
      obtain ⟨_, first, alike⟩ := ih gap twin (fit.imp_right And.left)
      cases alike
      exact ⟨_, .starNone first, twin.stays⟩
  | @more spaced a c d ts v _ _ ihA ihB =>
      obtain ⟨_, first, alike⟩ := ihA gap ((twin.weaken id).skipIf gap) fit
      cases alike with
      | matched bare twin' joined =>
          obtain ⟨_, others, alike'⟩ := ihB gap twin' fit
          refine ⟨_, .more first others, .after bare (fun tight => ?_) alike'⟩
          subst tight
          exact joined rfl
  | @moreNone spaced a c _ ih =>
      obtain ⟨_, first, alike⟩ := ih gap ((twin.weaken id).skipIf gap) fit
      cases alike
      exact ⟨_, .moreNone first, twin.stays⟩
  | ahead _ ih =>
      obtain ⟨_, first, alike⟩ := ih gap twin fit
      cases alike with
      | matched => exact ⟨_, .ahead first, twin.stays⟩
  | aheadRefused _ ih =>
      obtain ⟨_, first, alike⟩ := ih gap twin fit
      cases alike
      exact ⟨_, .aheadRefused first, .refused⟩
  | absent _ ih =>
      obtain ⟨_, first, alike⟩ := ih gap twin fit
      cases alike
      exact ⟨_, .absent first, twin.stays⟩
  | present _ ih =>
      obtain ⟨_, first, alike⟩ := ih gap twin fit
      cases alike with
      | matched => exact ⟨_, .present first, .refused⟩

theorem settles_elsewhere {p : Part} (settles : grammar.Settles spaced p c (.matched ts d))
    (same : c'.rest = c.rest) : ∃ us d', grammar.Settles spaced p c' (.matched us d')
      ∧ Tree.bares us = Tree.bares ts ∧ d'.rest = d.rest := by
  have blank : Gap [' '] [' '] := ⟨rfl, by decide, ' ', [], rfl, rfl⟩
  have twin : Twin [' '] [' '] true false c.rest c'.rest := same ▸ .behind _
  obtain ⟨w, settles', alike⟩ := settles_twin blank.rift settles (fun _ => blank) twin (.inl rfl)
  cases alike with
  | matched bare twin =>
      obtain rest | ⟨_, ⟨⟩, _⟩ := twin.cases
      exact ⟨_, _, settles', bare, rest.symm⟩

end Readers

end Dil.Relayout
