import Dil.Proofs.Seam.Numbers

/-!
What may follow each construct, and that behind it nothing is found in the construct that was not there
before: no suffix of an expression, no further item, no other reading of a choice.
-/

namespace Dil.Seam

open Layout (behind)
open Reading (leading)
open Rule (Part spellings wholeWord pathSegment items classEnd isWordChar)

/-- Something that the part matches comes next. -/
def Ahead (a : Part) : Next := fun q => ∃ us d, grammar.Settles true a q (.matched us d)

def closers : List Start :=
  [([], some ';'), ([], some ')'), ([], some ']'), ([], some ','), ([], some '}'), ([], none)]
    ++ ["THEN", "then", "DO", "do"].map spelled

def tails : List Start := spelled "as" :: ([], some '$') :: closers

/-- What may follow each construct. -/
def follow : Rule → Next
  | .expression => Begins closers
  | .mapEntry => Begins [([], some ','), ([], some '}')]
  | .arithExpr => Begins tails
  | .prefixExpr | .postfixExpr => fun q => Begins tails q ∨ Ahead (.rule .binaryOp) q
  | .primaryExpr => fun q => (Begins tails q ∨ Ahead (.rule .binaryOp) q) ∨ Ahead pathSegment q
  | .statement | .classDecl | .ifStmt | .foreachStmt | .forStmt => fun q => q.rest.head? ≠ some ';'
  | .block | .elseClause => fun q =>
    q.rest.head? ≠ some ';' ∧ grammar.Settles true (.rule .statement) q .refused
  | _ => fun _ => True

section Follow

variable {F : Next} {a b : Part} {r : Rule} {q : Cursor} {s : String} {x : Char}

theorem local_sign (check : (!s.toList.isEmpty && s.toList.all Relayout.isPlain) = true) :
    Local follow F (Peg.word s) := by
  simp only [Bool.and_eq_true, Bool.not_eq_true', List.isEmpty_eq_false_iff] at check
  exact .text check.1 check.2

theorem local_free (inner : isInner r = true) (free : follow r = fun _ => True) :
    Local follow F (.rule r) :=
  .rule inner fun _ _ _ => by rw [free]; trivial

theorem local_before {M : List Start} (inner : isInner r = true) (follows : follow r = Begins M)
    (check : (starts startsDepth none b).any (fun L => L.all fun x => M.contains x) = true) :
    Local follow (Then b F) (.rule r) := by
  refine .rule inner fun q still next => ?_
  rw [follows]
  exact begins_then none (fun _ _ _ => known_none) check q still next

theorem local_opt (inner : Local follow (Then b F) a)
    (check : (starts startsDepth none b).any (refusesAll a) = true) :
    Local follow (Then b F) (.opt a) := .opt inner (stops_then check)

theorem startOf_of_head (other : isWordChar x = false) (head : q.rest.head? = some x) :
    startOf q = ([], some x) := by
  obtain ⟨xs, rest⟩ := List.head?_eq_some_iff.mp head
  simp [startOf, leading, rest, other]

theorem head_of_begins {L : List Start} (other : isWordChar x = false)
    (absent : L.contains ([], some x) = false) (begins : Begins L q) : q.rest.head? ≠ some x := by
  intro head
  rw [Begins, startOf_of_head other head] at begins
  simp [begins] at absent

theorem begins_weaken {L M : List Start} (check : (L.all fun x => M.contains x) = true)
    (begins : Begins L q) : Begins M q :=
  List.contains_iff_mem.mp (List.all_eq_true.mp check _ begins)

theorem head_of_ahead (other : isWordChar x = false) (check : refusesAll a [([], some x)] = true)
    (still : Layout.skip q = q) (ahead : Ahead a q) : q.rest.head? ≠ some x := by
  intro head
  obtain ⟨us, d, settles⟩ := ahead
  have refused := refused_of_begins check still (List.mem_singleton.mpr (startOf_of_head other head))
  cases settles.unique refused

theorem stops_sign (other : ∀ q, Layout.skip q = q → F q → q.rest.head? ≠ some x) :
    Stops (.text [x]) F := by
  intro q still next
  refine Grammar.settles_word_refused fun begins => other q still next ?_
  obtain ⟨rest, split⟩ := begins
  rw [← split]
  rfl

theorem local_expression : Local follow (follow .expression) (Rule.body .expression) := by
  refine .seq (.rule rfl ?_) (.opt (local_free rfl rfl) (stops_begins (by decide)))
  refine begins_then (some closers) ?_ (by decide)
  rintro q - begins L ⟨⟩
  exact begins

theorem local_typeSuffix : Local follow F (Rule.body .typeSuffix) := .seq (.word rfl) (.lexeme rfl)

theorem again_of_star (still : Layout.skip q = q) (next : Then (.star a) F q) : Again a F q := by
  obtain ⟨us, d, settles, follows⟩ := next
  generalize verdict : Verdict.matched us d = v at settles
  cases settles with
  | star first => exact .inr ⟨_, _, first⟩
  | starNone =>
      cases verdict
      rw [still] at follows
      exact .inl follows

theorem then_seq (next : Then (.seq a b) F q) : Then a (Then b F) q := by
  obtain ⟨us, d, settles, follows⟩ := next
  obtain ⟨ts, e, vs, first, second, -⟩ := settles.matched_seq
  exact ⟨ts, e, first, vs, d, second, follows⟩

theorem ahead_of_seq (ahead : Ahead (.seq a b) q) : Ahead a q := by
  obtain ⟨us, d, settles⟩ := ahead
  obtain ⟨ts, e, _, first, -⟩ := settles.matched_seq
  exact ⟨ts, e, first⟩

theorem local_arithExpr : Local follow (follow .arithExpr) (Rule.body .arithExpr) := by
  have next (q : Cursor) (again : Again (.seq (.rule .binaryOp) (.rule .prefixExpr)) (Begins tails) q) :
      follow .prefixExpr q := again.imp_right ahead_of_seq
  refine .seq (.rule rfl fun q still follows => next q (again_of_star still follows)) (.star ?_ ?_)
  · exact .seq (.lexeme rfl) (.rule rfl fun q _ => next q)
  · exact stops_begins (by decide)

theorem local_prefixExpr : Local follow (follow .prefixExpr) (Rule.body .prefixExpr) :=
  .seq (.star (.lexeme rfl) (stops_of_starts (by decide))) (.rule rfl fun _ _ follows => follows)

theorem arrow_of_operator (ahead : Ahead (.rule .binaryOp) q) : ¬ ['-', '>'] <+: q.rest := by
  rintro ⟨rest, arrow⟩
  have other {ss : List String} (signs : ∀ s ∈ ss, ∃ x xs, s.toList = x :: xs ∧ x ≠ '-')
      (read : ∃ s ∈ ss, ∃ left, q.rest = s.toList ++ left) : False := by
    obtain ⟨s, member, left, split⟩ := read
    obtain ⟨x, xs, sign, differs⟩ := signs s member
    rw [sign, ← arrow] at split
    exact differs (List.cons.inj split).1.symm
  obtain ⟨us, d, settles⟩ := ahead
  obtain ⟨_, -, inner⟩ := settles.matched_body
  cases inner with
  | altFirst first =>
      obtain ⟨s, member, read⟩ := Relayout.matched_words first
      exact other (by simp) ⟨s, member, _, read⟩
  | altSecond _ second =>
      cases second with
      | altFirst first =>
          obtain ⟨_, e, _, minus, head, -⟩ := first.matched_seq
          have read : q.rest = '-' :: e.rest := Relayout.matched_text minus
          rw [← arrow] at read
          have next : (grammar.skipIf false e).rest = '>' :: rest := (List.cons.inj read).2.symm
          cases head with
          | absent refused => cases refused.unique (Grammar.settles_word next)
      | altSecond _ third =>
          obtain ⟨s, member, read⟩ := Relayout.matched_words third
          exact other (by simp) ⟨s, member, _, read⟩

theorem stops_segment : Stops pathSegment (follow .postfixExpr) := by
  rintro q still (begins | ahead)
  · exact refused_of_begins (by decide) still begins
  · have arrow := arrow_of_operator ahead
    have bracket := head_of_ahead (x := '[') rfl (by decide) still ahead
    have noArrow : grammar.Settles true (.rule .fieldSegment) q .refused :=
      Grammar.settles_rule_refused (.seqRefused (Grammar.settles_word_refused arrow))
    have noIndex : grammar.Settles true (.rule .indexSegment) q .refused :=
      Grammar.settles_rule_refused (.seqRefused (Grammar.settles_word_refused fun begins => by
        obtain ⟨rest, split⟩ := begins
        rw [← split] at bracket
        exact bracket rfl))
    exact .altSecond noArrow noIndex

theorem local_segment : Local follow F pathSegment :=
  .alt (local_free rfl rfl) (local_free rfl rfl) (stops_then (by decide))

theorem local_postfixExpr : Local follow (follow .postfixExpr) (Rule.body .postfixExpr) :=
  .seq (.rule rfl fun _ still follows => again_of_star still follows) (.star local_segment stops_segment)

theorem local_fieldSegment : Local follow F (Rule.body .fieldSegment) :=
  .seq (local_sign rfl) (.lexeme rfl)

theorem local_indexSegment : Local follow F (Rule.body .indexSegment) :=
  .seq (local_sign rfl) (.seq (local_before rfl rfl (by decide)) (local_sign rfl))

theorem local_parenExpr : Local follow F (Rule.body .parenExpr) :=
  .seq (local_sign rfl) (.seq (local_before rfl rfl (by decide)) (local_sign rfl))

theorem local_newExpr : Local follow F (Rule.body .newExpr) :=
  .seq (.lexeme rfl) (.seq (local_sign rfl) (.word rfl))

theorem local_mapKey : Local follow F (Rule.body .mapKey) :=
  .alt (.lexeme rfl) (.lexeme rfl) (stops_then (by decide))

theorem local_mapEntry : Local follow (follow .mapEntry) (Rule.body .mapEntry) := by
  refine .seq (local_free rfl rfl) (.seq (local_sign rfl) (.rule rfl fun q _ begins => ?_))
  exact begins_weaken (by decide) begins

section Items

variable {close : Char} (sign : isWordChar close = false) (other : close ≠ ',')

theorem begins_closing (sign : isWordChar close = false) (follows : Then (.text [close]) F q) :
    Begins [([], some close)] q := by
  obtain ⟨us, d, settles, -⟩ := follows
  exact List.mem_singleton.mpr (startOf_of_text sign settles)

theorem begins_comma (ahead : Ahead (Peg.word ",") q) : Begins [([], some ','), ([], some close)] q := by
  obtain ⟨us, d, settles⟩ := ahead
  rw [Begins, startOf_of_text rfl settles]
  exact List.mem_cons_self

include other

theorem comma_refused (begins : Begins [([], some close)] q) :
    grammar.Settles true (Peg.word ",") q .refused := by
  refine Grammar.settles_word_refused fun comma => other ?_
  obtain ⟨rest, split⟩ := comma
  have head := congrArg Prod.snd (List.mem_singleton.mp begins)
  rw [startOf, ← split] at head
  exact (Option.some.inj head).symm

include sign

theorem stops_comma : Stops (Peg.word ",") (Then (.text [close]) F) :=
  fun _ _ follows => comma_refused other (begins_closing sign follows)

theorem stops_item (refused : refusesAll (.rule r) [([], some close)] = true) :
    Stops (.seq (Peg.word ",") (.rule r)) (Then (.opt (Peg.word ",")) (Then (.text [close]) F)) := by
  rintro q still ⟨us, d, settles, follows⟩
  have closing := begins_closing sign follows
  cases settles with
  | opt first => exact .seq first (refused_of_begins refused (Layout.skip_skip d) closing)
  | optNone =>
      rw [still] at closing
      exact .seqRefused (comma_refused other closing)

omit other in
theorem begins_further (still : Layout.skip q = q)
    (follows : Then (.opt (Peg.word ",")) (Then (.text [close]) F) q) :
    Begins [([], some ','), ([], some close)] q := by
  obtain ⟨us, d, settles, follows⟩ := follows
  have closing := begins_closing sign follows
  cases settles with
  | opt first => exact begins_comma ⟨_, _, first⟩
  | optNone =>
      rw [still] at closing
      exact List.mem_cons_of_mem _ closing

/-- Items before a closing sign. -/
theorem local_items (inner : isInner r = true)
    (refused : refusesAll (.rule r) [([], some close)] = true)
    (next : ∀ q, Begins [([], some ','), ([], some close)] q → follow r q) :
    Local follow (Then (.text [close]) F) (items (.rule r)) := by
  have further (q : Cursor) (still : Layout.skip q = q)
      (again : Again (.seq (Peg.word ",") (.rule r)) (Then (.opt (Peg.word ",")) (Then (.text [close]) F)) q) :
      follow r q := by
    rcases again with follows | ahead
    · exact next q (begins_further sign still follows)
    · exact next q (begins_comma (ahead_of_seq ahead))
  refine .opt (.seq (.rule inner fun q still follows => ?_) (.seq (.star ?_ ?_) ?_)) ?_
  · exact further q still (again_of_star still (then_seq follows))
  · exact .seq (local_sign rfl) (.rule inner further)
  · exact stops_item sign other refused
  · exact .opt (local_sign rfl) (stops_comma sign other)
  · exact fun q still follows => .seqRefused (refused_of_begins refused still (begins_closing sign follows))

end Items

theorem local_arrayLiteral : Local follow F (Rule.body .arrayLiteral) :=
  .seq (local_sign rfl) (.seq (local_items rfl (by decide) rfl (by decide)
    fun _ begins => begins_weaken (by decide) begins) (local_sign rfl))

theorem local_mapLiteral : Local follow F (Rule.body .mapLiteral) :=
  .seq (local_sign rfl) (.seq (local_items rfl (by decide) rfl (by decide)
    fun _ begins => begins) (local_sign rfl))

theorem stops_newExpr : Stops (.rule .newExpr)
    (Then (.alt (.rule .identifier) (.rule .parenExpr)) (follow .primaryExpr)) := by
  rintro q still ⟨us, d, settles, follows⟩
  refine Grammar.settles_rule_refused ?_
  cases settles with
  | altSecond refused _ => exact .seqRefused refused
  | altFirst found =>
      have still' := Layout.skip_skip d
      have colon : (Layout.skip d).rest.head? ≠ some ':' := by
        rcases follows with (begins | ahead) | ahead
        · exact head_of_begins rfl (by decide) begins
        · exact head_of_ahead rfl (by decide) still' ahead
        · exact head_of_ahead rfl (by decide) still' ahead
      refine .seq found (.seqRefused (Grammar.settles_word_refused fun begins => colon ?_))
      obtain ⟨rest, split⟩ := begins
      rw [show (Layout.skip d).rest = ':' :: rest from split.symm]
      rfl

theorem head_behind_value (still : Layout.skip q = q) (follows : follow .primaryExpr q) :
    ∀ x ∈ q.rest.head?, x ≠ '.' ∧ x ≠ 'e' ∧ x ≠ 'E' := by
  have mark (L : List Start) (begins : startOf q ∈ L)
      (others : ∀ s ∈ L, s.2 ≠ some '.' ∧ s.2 ≠ some 'e' ∧ s.2 ≠ some 'E') :
      ∀ x ∈ q.rest.head?, x ≠ '.' ∧ x ≠ 'e' ∧ x ≠ 'E' := by
    intro x next
    have other := others _ begins
    rw [startOf, show q.rest.head? = some x from next] at other
    simpa using other
  have ahead {a : Part} (first : Ahead a q)
      (check : (starts startsDepth none a).any (fun L => L.all fun s =>
        s.2 != some '.' && s.2 != some 'e' && s.2 != some 'E') = true) :
      ∀ x ∈ q.rest.head?, x ≠ '.' ∧ x ≠ 'e' ∧ x ≠ 'E' := by
    obtain ⟨us, d, settles⟩ := first
    obtain ⟨L, found, others⟩ := (Option.any_eq_true ..).mp check
    refine mark L (starts_sound startsDepth (stay_of_still still) settles known_none L found) fun s member => ?_
    have other := List.all_eq_true.mp others s member
    simpa [and_assoc] using other
  rcases follows with (begins | operator) | segment
  · exact mark tails begins (by decide)
  · exact ahead operator (by decide)
  · exact ahead segment (by decide)

theorem local_primaryExpr : Local follow (follow .primaryExpr) (Rule.body .primaryExpr) :=
  .alt (.lexeme rfl)
    (.alt (.lexeme rfl)
      (.alt (.lexeme rfl)
        (.alt (.lexeme rfl)
          (.alt (.lexeme rfl)
            (.alt (local_free rfl rfl)
              (.alt (local_free rfl rfl)
                (.alt (local_free rfl rfl)
                  (.alt (.lexeme rfl) (local_free rfl rfl) (stops_then (by decide)))
                  stops_newExpr)
                (stops_of_starts (by decide)))
              (stops_of_starts (by decide)))
            (stops_of_starts (by decide)))
          stops_int)
        (stops_float fun _ => head_behind_value))
      (stops_word rfl (by decide)))
    (stops_word rfl (by decide))

theorem local_letStmt : Local follow F (Rule.body .letStmt) :=
  .seq (.word rfl) (.seq (.lexeme rfl) (.seq (local_sign rfl)
    (.seq (local_before rfl rfl (by decide)) (local_sign rfl))))

theorem local_getStmt : Local follow F (Rule.body .getStmt) :=
  .seq (.word rfl) (.seq (local_before rfl rfl (by decide)) (local_sign rfl))

theorem local_assignStmt : Local follow F (Rule.body .assignStmt) :=
  .seq (.lexeme rfl) (.seq (.star local_segment (stops_then (by decide))) (.seq (local_sign rfl)
    (.seq (local_before rfl rfl (by decide)) (local_sign rfl))))

theorem local_statement : Local follow (follow .statement) (Rule.body .statement) := by
  have same : ∀ q : Cursor, Layout.skip q = q → q.rest.head? ≠ some ';' → q.rest.head? ≠ some ';' :=
    fun _ _ other => other
  exact .alt (.rule rfl same) (.alt (local_free rfl rfl) (.alt (local_free rfl rfl)
    (.alt (.rule rfl same) (.alt (.rule rfl same) (.alt (.rule rfl same) (local_free rfl rfl)
      (stops_of_starts (by decide))) (stops_of_starts (by decide))) (stops_of_starts (by decide)))
    (stops_of_starts (by decide))) (stops_of_starts (by decide))) (stops_of_starts (by decide))

theorem local_block : Local follow (follow .block) (Rule.body .block) := by
  refine .star (.rule rfl ?_) fun _ _ follows => follows.2
  rintro q still (follows | ahead)
  · exact follows.1
  · exact head_of_ahead rfl (by decide) still ahead

theorem local_block_before (inner : isInner r = true) (same : follow r = follow .block)
    (check : (starts startsDepth none b).any (fun L =>
      refusesAll (.rule .statement) L && !L.contains ([], some ';')) = true) :
    Local follow (Then b F) (.rule r) := by
  obtain ⟨L, found, both⟩ := (Option.any_eq_true ..).mp check
  rw [Bool.and_eq_true, Bool.not_eq_true'] at both
  refine .rule inner ?_
  rintro q still ⟨us, d, settles, -⟩
  have begins := starts_sound startsDepth (stay_of_still still) settles known_none L found
  rw [same]
  exact ⟨head_of_begins rfl both.2 begins, refused_of_begins both.1 still begins⟩

theorem stops_semicolon (check : refusesAll (.seq (Rule.body .block) b) [([], some ';')] = true) :
    Stops (Peg.word ";") (Then (.seq (.rule .block) b) F) := by
  refine stops_sign fun q still next => head_of_ahead rfl check still ?_
  obtain ⟨us, d, settles, -⟩ := next
  obtain ⟨_, e, _, first, second, -⟩ := settles.matched_seq
  obtain ⟨t, rfl⟩ := first.matched_rule
  obtain ⟨_, -, inner⟩ := first.matched_node rfl
  exact ⟨_, _, .seq inner second⟩

theorem local_elseClause : Local follow (follow .elseClause) (Rule.body .elseClause) := by
  refine .seq (.word rfl) (.seq (.opt (local_sign rfl) (stops_sign ?_)) (.rule rfl fun _ _ follows => follows))
  rintro q still ⟨us, d, settles, follows⟩ head
  -- The block would be empty, and the semicolon what comes next.
  have refused : grammar.Settles true (.rule .statement) q .refused :=
    refused_of_begins (L := [([], some ';')]) (by decide) still
      (List.mem_singleton.mpr (startOf_of_head rfl head))
  obtain ⟨t, rfl⟩ := settles.matched_rule
  obtain ⟨_, -, inner⟩ := settles.matched_node rfl
  cases inner.unique (.starNone refused)
  rw [still] at follows
  exact follows.1 head

theorem local_ifStmt : Local follow (follow .ifStmt) (Rule.body .ifStmt) :=
  .seq (.word rfl) (.seq (local_before rfl rfl (by decide)) (.seq (.word rfl)
    (.seq (.opt (local_sign rfl) (stops_semicolon (by decide)))
      (.seq (local_block_before rfl rfl (by decide))
        (.seq (local_opt (local_block_before rfl rfl (by decide)) (by decide))
          (.seq (.word rfl) (.opt (local_sign rfl) (stops_sign fun _ _ other => other))))))))

theorem local_foreachStmt : Local follow (follow .foreachStmt) (Rule.body .foreachStmt) :=
  .seq (.word rfl) (.seq (.lexeme rfl)
    (.seq (local_opt (.seq (local_sign rfl) (.lexeme rfl)) (by decide)) (.seq (.word rfl)
      (.seq (local_before rfl rfl (by decide)) (.seq (.word rfl)
        (.seq (.opt (local_sign rfl) (stops_semicolon (by decide)))
          (.seq (local_block_before rfl rfl (by decide)) (.seq (.word rfl)
            (.opt (local_sign rfl) (stops_sign fun _ _ other => other))))))))))

theorem local_forStmt : Local follow (follow .forStmt) (Rule.body .forStmt) :=
  .seq (.word rfl) (.seq (.lexeme rfl) (.seq (.word rfl)
    (.seq (local_before rfl rfl (by decide)) (.seq (.word rfl)
      (.seq (.opt (local_sign rfl) (stops_semicolon (by decide)))
        (.seq (local_block_before rfl rfl (by decide)) (.seq (.word rfl)
          (.opt (local_sign rfl) (stops_sign fun _ _ other => other)))))))))

theorem local_classDecl : Local follow (follow .classDecl) (Rule.body .classDecl) := by
  refine .seq (.word rfl) (.seq (.lexeme rfl) (.seq (local_sign rfl) (.seq (.star (local_free rfl rfl) ?_) ?_)))
  · rintro q - ⟨us, d, settles, -⟩
    exact Grammar.settles_rule_refused (.seqRefused (.present settles))
  · exact .seq (.word rfl) (.seq (local_sign rfl) (.seq (.word rfl)
      (.opt (local_sign rfl) (stops_sign fun _ _ other => other))))

theorem local_fieldDecl : Local follow F (Rule.body .fieldDecl) :=
  .field (.seq (.lexeme rfl) (.seq (local_sign rfl) (.seq (local_before rfl rfl (by decide))
    (.seq (local_opt (local_free rfl rfl) (by decide))
      (.seq (local_opt (local_free rfl rfl) (by decide)) (local_sign rfl))))))

theorem local_body (r : Rule) (inner : isInner r = true) : Local follow (follow r) (Rule.body r) := by
  cases r with
  | endOfInput | program | standaloneExpression => cases inner
  | statement => exact local_statement
  | classDecl => exact local_classDecl
  | fieldDecl => exact local_fieldDecl
  | overwriteModifier => exact local_sign rfl
  | letStmt => exact local_letStmt
  | getStmt => exact local_getStmt
  | assignStmt => exact local_assignStmt
  | block => exact local_block
  | ifStmt => exact local_ifStmt
  | elseClause => exact local_elseClause
  | foreachStmt => exact local_foreachStmt
  | forStmt => exact local_forStmt
  | expression => exact local_expression
  | typeSuffix => exact local_typeSuffix
  | arithExpr => exact local_arithExpr
  | prefixExpr => exact local_prefixExpr
  | postfixExpr => exact local_postfixExpr
  | fieldSegment => exact local_fieldSegment
  | indexSegment => exact local_indexSegment
  | primaryExpr => exact local_primaryExpr
  | parenExpr => exact local_parenExpr
  | newExpr => exact local_newExpr
  | mapLiteral => exact local_mapLiteral
  | mapEntry => exact local_mapEntry
  | mapKey => exact local_mapKey
  | arrayLiteral => exact local_arrayLiteral
  | _ => cases inner

end Follow

/-- All that is read before a seam is read in the other source as well. -/
def passage (S : Seam) : Passage where
  Mate := S.Mate
  Beside := S.Beside
  Level := S.Level
  bound := (behind S.left).length
  skip mate _ := mate.skip.toMate
  token token stand settles within := by
    obtain ⟨us, d', settles', beside, mate, level⟩ :=
      Stand.token ⟨stand.mate, stand.still, stand.still'⟩ token settles within
    exact ⟨us, d', settles', beside, mate, fun _ => level⟩
  node stand stop first second shut inside :=
    .node ⟨stand.mate, stand.still, stand.still'⟩ stop first second shut inside
  word keyword stand missed ahead _ := by
    obtain ⟨_, missed', both⟩ := Stand.word ⟨stand.mate, stand.still, stand.still'⟩ ahead keyword missed
    cases both
    exact missed'

end Dil.Seam
