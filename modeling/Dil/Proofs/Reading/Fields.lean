import Dil.Proofs.Reading.Reprint

/-!
Fields of classes. A field may be called `class`, but then its default does not start with the word
`end`, because the grammar would take the two for the end of the class. Whether an expression starts
with that word shows in its print.
-/

namespace Dil.Reading

open Build (Node)
open Rule (Part wholeWord spellings)

section Starts

variable {c d : Cursor} {r q : Rule} {t : Node} {ts us : List Node} {e : Expr} {a b : Part}

theorem matched_start (spaced : Rule.kind r = .spaced) (body : Rule.body r = .seq (.rule q) b)
    (settles : grammar.Settles true (.rule r) c (.matched [t] d)) :
    ∃ s u us e, t = .node r s (u :: us) ∧ grammar.Settles true (.rule q) c (.matched [u] e) := by
  obtain ⟨vs, rfl, inner⟩ := settles.matched_node spaced
  rw [show grammar.body r = _ from body] at inner
  obtain ⟨us, e, ws, first, -, rfl⟩ := inner.matched_seq
  obtain ⟨u, rfl⟩ := first.matched_rule
  exact ⟨_, u, ws, e, rfl, first⟩

/-- If the first token of the expression is a name, it stands at the position. -/
def StartsAt (c : Cursor) (e : Expr) : Prop :=
  ∀ t ∈ e.tokens.head?, isName (leading t.toList) = true → leading c.rest = leading t.toList

theorem startsAt_of_other {t : String} {ts : List String} (tokens : e.tokens = t :: ts)
    (other : isName (leading t.toList) = false) : StartsAt c e := by
  intro u first name
  rw [tokens] at first
  cases first
  rw [other] at name
  cases name

theorem startsAt_name {w : List Char} {ts : List String}
    (tokens : e.tokens = String.ofList w :: ts) (here : w = leading c.rest) : StartsAt c e := by
  intro u first _
  rw [tokens] at first
  cases first
  rw [String.toList_ofList, here, leading_leading]

theorem StartsAt.more {f : Expr} {ts : List String} (starts : StartsAt c f)
    (tokens : e.tokens = f.tokens ++ ts) (some : f.tokens ≠ []) : StartsAt c e := by
  intro u first
  rw [tokens, List.head?_append_of_ne_nil _ some] at first
  exact starts u first

theorem tokens_ne_nil : ∀ e : Expr, e.tokens ≠ []
  | .null _ | .bool _ _ | .int _ _ | .float _ _ | .str _ _ | .map _ _ | .array _ _ | .create _ _
  | .var _ _ | .unary _ _ _ | .paren _ _ => by simp [Expr.tokens]
  | .path _ base _ => by simp [Expr.tokens, tokens_ne_nil base]
  | .binary _ _ left _ => by simp [Expr.tokens]
  | .cast _ value _ => by simp [Expr.tokens]

theorem isName_digits {n : Int64} (positive : 0 ≤ n.toInt) :
    isName (leading (int64Text n).toList) = false := by
  obtain ⟨digits, nonempty⟩ := int64Text_digits positive
  cases text : (int64Text n).toList with
  | nil => exact absurd text nonempty
  | cons x xs =>
      have digit := digits x (by simp [text])
      have notStart : Rule.isWordStart x = false := by
        by_contra start
        rw [Bool.not_eq_false] at start
        have other := isDigit_of_start start
        simp [Rule.isDigit, digit] at other
      have first : leading (x :: xs) = x :: leading xs := by
        rw [leading, List.takeWhile_cons, if_pos (isWordChar_of_digit digit), leading]
      simp [first, isName, isWord, notStart]

theorem primary_startsAt (still : Layout.skip c = c)
    (settles : grammar.Settles true (.rule .primaryExpr) c (.matched [t] d))
    (built : Build.expr t = .ok e) (floatless : e.floats = []) : StartsAt c e := by
  obtain ⟨us, rfl, inner⟩ := settles.matched_node rfl
  obtain ⟨q, among, settled⟩ := inner.matched_first
  obtain ⟨a, rfl⟩ := settled.matched_rule
  have grown : grammar.Grown q a := ⟨c, d, still, settled⟩
  change Build.primary _ a = .ok e at built
  simp only [List.mem_cons, List.not_mem_nil, or_false] at among
  rcases among with rfl | rfl | rfl | rfl | rfl | rfl | rfl | rfl | rfl | rfl
  · obtain ⟨s, _, _, _, rfl, -⟩ := grown.leaf rfl
    cases built
    exact startsAt_of_other rfl (by decide)
  · obtain ⟨s, _, _, _, rfl, -⟩ := grown.leaf rfl
    cases built
    have other (b : Bool) : isName (leading (boolText b).toList) = false := by cases b <;> decide
    exact startsAt_of_other rfl (other _)
  · obtain ⟨s, _, _, _, rfl, -⟩ := grown.leaf rfl
    obtain ⟨x, _, done⟩ := bind_eq_ok_iff.mp built
    cases done
    cases floatless
  · obtain ⟨s, _, _, _, rfl, -⟩ := grown.leaf rfl
    obtain ⟨n, found, done⟩ := bind_eq_ok_iff.mp built
    cases done
    exact startsAt_of_other rfl (isName_digits (Build.intLiteral_nonneg found))
  · obtain ⟨s, ts, rfl⟩ := grown.joined rfl
    obtain ⟨text, rfl⟩ := built_string built
    refine startsAt_of_other rfl ?_
    rw [quote_toList]
    rfl
  · obtain ⟨s, ts, rfl, -⟩ := grown_mapLiteral grown
    obtain ⟨entries, _, done⟩ := bind_eq_ok_iff.mp built
    cases done
    exact startsAt_of_other rfl (by decide)
  · obtain ⟨s, ts, rfl, -⟩ := grown_arrayLiteral grown
    obtain ⟨items, _, done⟩ := bind_eq_ok_iff.mp built
    cases done
    exact startsAt_of_other rfl (by decide)
  · obtain ⟨s, u, us, _, rfl, first⟩ := matched_start rfl rfl settled
    obtain ⟨s', rfl, -⟩ := matched_identifier first
    obtain ⟨_, _, same, -⟩ := grown_newExpr grown
    cases same
    cases built
    exact startsAt_name rfl rfl
  · obtain ⟨s', rfl, -⟩ := matched_identifier settled
    cases built
    exact startsAt_name rfl rfl
  · obtain ⟨s, b, rfl, -⟩ := grown_parenExpr grown
    obtain ⟨f, _, done⟩ := bind_eq_ok_iff.mp built
    cases done
    exact startsAt_of_other rfl (by decide)

theorem postfix_startsAt (still : Layout.skip c = c)
    (settles : grammar.Settles true (.rule .postfixExpr) c (.matched [t] d))
    (built : Build.expr t = .ok e) (floatless : e.floats = []) : StartsAt c e := by
  obtain ⟨s, a, ts, _, rfl, first⟩ := matched_start rfl rfl settles
  cases ts with
  | nil => exact primary_startsAt still first built floatless
  | cons u us =>
      obtain ⟨f, base, built⟩ := bind_eq_ok_iff.mp built
      obtain ⟨path, _, done⟩ := bind_eq_ok_iff.mp built
      cases done
      rw [Expr.floats, List.append_eq_nil_iff] at floatless
      exact (primary_startsAt still first base floatless.1).more rfl (tokens_ne_nil f)

theorem prefix_startsAt (still : Layout.skip c = c)
    (settles : grammar.Settles true (.rule .prefixExpr) c (.matched [t] d))
    (built : Build.expr t = .ok e) (floatless : e.floats = []) : StartsAt c e := by
  obtain ⟨us, rfl, inner⟩ := settles.matched_node rfl
  obtain ⟨signs, c', vs, first, second, rfl⟩ := inner.matched_seq
  obtain ⟨a, rfl⟩ := second.matched_rule
  obtain ⟨s, signs', a', same, root, each⟩ := grown_prefixExpr ⟨c, d, still, settles⟩
  obtain ⟨rfl, rfl, rfl⟩ : c.spanTo d = s ∧ signs = signs' ∧ a = a' := by simpa using same
  obtain ⟨ops, f, found, rfl, length⟩ := operations_cases (unaryOp_leaves each) root built
  obtain ⟨-, tokens, floats⟩ := foldr_unary ops f
  cases ops with
  | cons op ops => exact startsAt_of_other tokens (by cases op <;> decide)
  | nil =>
      cases List.length_eq_zero_iff.mp length.symm
      -- Without a sign the operand itself stands here.
      generalize verdict : Verdict.matched [] c' = v at first
      cases first with
      | star sign others =>
          obtain ⟨ts, -, joined⟩ := Verdict.of_after_matched verdict.symm
          obtain ⟨u, rfl⟩ := sign.matched_rule
          cases joined
      | starNone =>
          cases verdict
          rw [show grammar.skipIf true c = c from still] at second
          exact postfix_startsAt still second found floatless

theorem arith_startsAt (still : Layout.skip c = c)
    (settles : grammar.Settles true (.rule .arithExpr) c (.matched [t] d))
    (built : Build.expr t = .ok e) (floatless : e.floats = []) : StartsAt c e := by
  obtain ⟨s, a, ts, _, rfl, first⟩ := matched_start rfl rfl settles
  obtain ⟨f, found, built⟩ := bind_eq_ok_iff.mp built
  obtain ⟨links, _, done⟩ := bind_eq_ok_iff.mp built
  cases done
  rw [Chain.fold_floats, List.append_eq_nil_iff] at floatless
  exact (prefix_startsAt still first found floatless.1).more (Chain.fold_tokens f links)
    (tokens_ne_nil f)

end Starts

section ClassEnd

variable {c d : Cursor} {t : Node} {w : String} {kw : Rule}

theorem settles_wholeWord (member : w ∈ spellings kw) (word : leading c.rest = w.toList)
    (still : Layout.skip c = c) :
    grammar.Settles true (wholeWord kw) c (.matched [] (behindWord c)) := by
  obtain ⟨token, body⟩ := keyword_of_spelling member
  have spelt := spellings_areSpellings kw
  have keyword := settles_keyword spelt member word
  rw [← body] at keyword
  have whole : grammar.Settles true (Peg.words (spellings kw)) c (.matched [] (behindWord c)) := by
    rw [behindWord, word]
    exact settles_spelling spelt member word
  have here : grammar.Settles true (Peg.words (spellings kw)) (grammar.skipIf true c)
      (.matched [] (behindWord c)) := by
    rw [show grammar.skipIf true c = c from still]
    exact whole
  exact .seq (.ahead (Grammar.settles_token token keyword)) here

theorem keyword_refused {spaced : Bool} (some : (spellings kw).isEmpty = false)
    (other : leading c.rest ∉ (spellings kw).map String.toList) :
    grammar.Settles spaced (.rule kw) c .refused := by
  have same : wordsOf kw = spellings kw := by
    cases kw <;> first | rfl | cases some
  apply refusesWord_refuses
  apply refusesWord_of_absent
  · rw [same]
    exact List.isEmpty_eq_false_iff.mp some
  · rwa [same]

theorem settles_word_among (among : leading c.rest ∈ (spellings kw).map String.toList)
    (still : Layout.skip c = c) : grammar.Settles true (wholeWord kw) c (.matched [] (behindWord c)) := by
  obtain ⟨w, member, word⟩ := List.mem_map.mp among
  exact settles_wholeWord member word.symm still

theorem wholeWord_refused_iff (some : (spellings kw).isEmpty = false) (still : Layout.skip c = c) :
    grammar.Settles true (wholeWord kw) c .refused ↔ leading c.rest ∉ (spellings kw).map String.toList := by
  constructor
  · intro refused among
    cases refused.unique (settles_word_among among still)
  · exact fun other => .seqRefused (.aheadRefused (keyword_refused some other))

theorem matched_wholeWord {ts : List Node} (some : (spellings kw).isEmpty = false) (still : Layout.skip c = c)
    (settles : grammar.Settles true (wholeWord kw) c (.matched ts d)) :
    leading c.rest ∈ (spellings kw).map String.toList ∧ ts = [] ∧ d = behindWord c := by
  by_cases among : leading c.rest ∈ (spellings kw).map String.toList
  · cases settles.unique (settles_word_among among still)
    exact ⟨among, rfl, rfl⟩
  · cases settles.unique ((wholeWord_refused_iff some still).mpr among)

theorem settles_opt_word (w : String) (c : Cursor) :
    ∃ ts e, grammar.Settles true (.opt (Peg.word w)) c (.matched ts e) := by
  by_cases next : w.toList <+: c.rest
  · obtain ⟨rest, split⟩ := next
    exact ⟨_, _, .opt (Grammar.settles_word split.symm)⟩
  · exact ⟨_, _, .optNone (Grammar.settles_word_refused next)⟩

/-- The default of a field called `class` does not start with the word `end`. -/
theorem matched_fieldDecl (still : Layout.skip c = c)
    (settles : grammar.Settles true (.rule .fieldDecl) c (.matched [t] d)) :
    ∃ s s' a ts c' d', t = .node .fieldDecl s (.leaf .keyIdent s' (leading c.rest) :: a :: ts)
      ∧ isWord (leading c.rest) = true
      ∧ Layout.skip c' = c' ∧ grammar.Settles true (.rule .arithExpr) c' (.matched [a] d')
      ∧ (leading c.rest = "class".toList → leading c'.rest ≠ "end".toList) := by
  obtain ⟨us, rfl, inner⟩ := settles.matched_node rfl
  obtain ⟨none, c₀, _, ahead, named, rfl⟩ := inner.matched_seq
  generalize verdict : Verdict.matched none c₀ = v at ahead
  cases ahead with
  | present => cases verdict
  | absent noEnd =>
      cases verdict
      rw [show grammar.skipIf true c = c from still] at named
      obtain ⟨names, d₁, _, name, marked, rfl⟩ := named.matched_seq
      obtain ⟨n, rfl⟩ := name.matched_rule
      obtain ⟨s, rfl, rfl, word⟩ := matched_keyIdent name
      obtain ⟨marks, d₂, _, colon, valued, rfl⟩ := marked.matched_seq
      obtain ⟨values, d₃, vs, value, -, rfl⟩ := valued.matched_seq
      obtain ⟨a, rfl⟩ := value.matched_rule
      generalize verdict : Verdict.matched marks d₂ = v at colon
      cases colon with
      | textRefused => cases verdict
      | text next =>
          cases verdict
          refine ⟨_, s, a, vs, _, d₃, rfl, word, Layout.skip_skip _, value, fun isClass isEnd => ?_⟩
          have first : grammar.Settles true (wholeWord .kwClass) c _ :=
            settles_wholeWord List.mem_cons_self isClass still
          have third : grammar.Settles true (wholeWord .kwEnd) (Layout.skip d₂) _ :=
            settles_wholeWord List.mem_cons_self isEnd (Layout.skip_skip _)
          obtain ⟨_, _, fourth⟩ := settles_opt_word ";" (Layout.skip (behindWord (Layout.skip d₂)))
          have whole : grammar.Settles true Rule.classEnd c _ :=
            .seq first (.seq (.text next) (.seq third fourth))
          cases noEnd.unique whole

end ClassEnd

/-- The print spells the field. -/
structure PrintsField (f : FieldDecl) : Prop where
  spells : Spelt (.rule .fieldDecl) Build.fieldDecl (fun _ => True) f.unplaced f.tokens
  solids : Solids f.tokens

section Fields

variable {t : Node} {f : FieldDecl}

theorem fieldDecl_parts {s : Span} {name a : Node} {rest : List Node}
    (built : Build.fieldDecl (.node .fieldDecl s (name :: a :: rest)) = .ok f) :
    Build.ident name = .ok f.name ∧ Build.expr a = .ok f.value := by
  obtain ⟨field, named, built⟩ := bind_eq_ok_iff.mp built
  obtain ⟨value, found, built⟩ := bind_eq_ok_iff.mp built
  split at built
  · cases built
    exact ⟨named, found⟩
  · cases built
    exact ⟨named, found⟩
  · obtain ⟨type, _, done⟩ := bind_eq_ok_iff.mp built
    cases done
    exact ⟨named, found⟩
  · obtain ⟨type, _, done⟩ := bind_eq_ok_iff.mp built
    cases done
    exact ⟨named, found⟩

theorem prints_fieldDecl (grown : grammar.Grown .fieldDecl t) (built : Build.fieldDecl t = .ok f)
    (floatless : f.value.floats = []) : PrintsField f := by
  obtain ⟨c, d, still, settles⟩ := grown
  obtain ⟨s, s', a, ts, c', d', rfl, key, still', value, apart⟩ := matched_fieldDecl still settles
  obtain ⟨named, found⟩ := fieldDecl_parts built
  have name : f.name.name.toList = leading c.rest := by
    rw [← Except.ok.inj named, String.toList_ofList]
  have word : isWord f.name.name.toList = true := by rwa [name]
  have prints : Prints .chain f.value := (printable a).expr ⟨c', d', still', value⟩ found floatless
  have starts := arith_startsAt still' value found floatless
  have notEnd : f.name.name = "class" → ∀ rest, firstWord (f.value.tokens ++ rest) ≠ "end".toList := by
    intro isClass rest isEnd
    cases tokens : f.value.tokens with
    | nil => exact tokens_ne_nil f.value tokens
    | cons t ts =>
        have first : leading t.toList = "end".toList := by simpa [tokens, firstWord] using isEnd
        have here := starts t (by simp [tokens]) (by rw [first]; decide)
        exact apart (by rw [← name, isClass]) (here.trans first)
  constructor
  · have spells := spells_fieldDecl word prints.spells (f.type.map TypeName.tag) f.overwrite notEnd
    rwa [Option.map_map] at spells
  · have type : Solids (typeTokens (f.type.map TypeName.tag)) := by
      cases f.type with
      | none => exact solids_nil
      | some target => exact solids_cons.mpr ⟨solid_fixed (by decide), by simpa using solid_tag _⟩
    have overwrite : Solids (overwriteTokens f.overwrite) := by
      cases f.overwrite with
      | false => exact solids_nil
      | true => exact solids_cons.mpr ⟨solid_fixed (by decide), solids_nil⟩
    have colon : Solid ":" := solid_fixed (by decide)
    have semicolon : Solid ";" := solid_fixed (by decide)
    simpa [FieldDecl.tokens, prints.solids] using
      ⟨solid_of_isWord word, colon, type, overwrite, semicolon⟩

end Fields

end Dil.Reading
