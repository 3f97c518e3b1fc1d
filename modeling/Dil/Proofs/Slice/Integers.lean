import Dil.Proofs.Checks.Tokens
import Dil.Proofs.Relayout.Gaps
import Dil.Proofs.Slice.Alone

namespace Dil

open Numeral (IsDigit Denotes)
open Reading (IntText marks digitTest_iff base_of_mark sign_cases)

def Rule.AcceptsWhole (r : Rule) (source : String) : Prop :=
  ∃ ts d, (matchSource r source).verdict = .matched ts d ∧ d.rest = []

namespace Slice

variable {base n : Nat} {source : String} {w digits : List Char} {c d : Cursor} {ts : List Build.Node}

theorem matched_chars {starts accepts : Char → Bool}
    (settles : grammar.Settles false (.seq (.char starts) (.star (.char accepts))) c (.matched ts d)) :
    ∃ x xs, starts x = true ∧ (∀ y ∈ xs, accepts y = true) ∧ c.rest = x :: xs ++ d.rest := by
  obtain ⟨_, e, _, first, _⟩ := settles.matched_seq
  obtain ⟨x, start, next⟩ := Relayout.matched_char first
  have split : c.rest = x :: e.rest.takeWhile accepts ++ e.rest.dropWhile accepts := by
    rw [List.cons_append, List.takeWhile_append_dropWhile, next]
  have all : ∀ y ∈ e.rest.takeWhile accepts, accepts y = true := List.all_eq_true.mp List.all_takeWhile
  cases settles.unique (Grammar.settles_char_chars start all dropWhile_stops split)
  exact ⟨x, _, start, all, split⟩

theorem intText_of_marked {mark : String} (marked : mark ∈ marks base) (next : c.rest = mark.toList ++ d.rest)
    {e : Cursor} (settles : grammar.Settles false (.seq (.char (Reading.digitTest base))
      (.star (.char fun y => Reading.digitTest base y || y == '_'))) d (.matched ts e)) :
    ∃ w digits, c.rest = w ++ e.rest ∧ IntText base w digits := by
  obtain ⟨x, xs, first, others, split⟩ := matched_chars settles
  refine ⟨mark.toList ++ x :: xs, _, by rw [next, split, List.append_assoc], .intro marked ?_ ?_⟩
  · exact (digitTest_iff marked).mp first
  · simpa [digitTest_iff marked] using others

theorem intText_of_settles (settles : grammar.Settles false (Rule.body .intLiteral) c (.matched ts d)) :
    ∃ base w digits, c.rest = w ++ d.rest ∧ IntText base w digits := by
  cases settles with
  | altFirst hex =>
      obtain ⟨_, e, _, words, run, _⟩ := hex.matched_seq
      obtain ⟨mark, marked, next⟩ := Relayout.matched_words words
      exact ⟨16, intText_of_marked marked next run⟩
  | altSecond _ others =>
      cases others with
      | altFirst bin =>
          obtain ⟨_, e, _, words, run, _⟩ := bin.matched_seq
          obtain ⟨mark, marked, next⟩ := Relayout.matched_words words
          exact ⟨2, intText_of_marked marked next run⟩
      | altSecond _ run =>
          have unmarked : "" ∈ marks 10 := List.mem_singleton_self ""
          exact ⟨10, intText_of_marked unmarked (List.nil_append _).symm run⟩

theorem settles_literal (text : IntText base source.toList digits) :
    grammar.Settles true (.rule .intLiteral) (.ofSource source)
      (.matched [.leaf .intLiteral ⟨0, byteLength source.toList⟩ source.toList]
        ⟨[], byteLength source.toList⟩) := by
  have whole : (Cursor.ofSource source).rest = source.toList ++ [] := (List.append_nil _).symm
  have token : grammar.Settles true (.rule .intLiteral) (.ofSource source) _ :=
    Grammar.settles_token rfl (Reading.settles_intText text whole (by simp))
  rw [(Cursor.past_reads whole).textUpTo] at token
  simpa [Cursor.ofSource, Cursor.past, Cursor.spanTo] using token

theorem acceptsWhole_iff : Rule.intLiteral.AcceptsWhole source ↔
    ∃ base digits, IntText base source.toList digits := by
  constructor
  · rintro ⟨ts, d, found, nothing⟩
    obtain ⟨us, -, inner⟩ := (settles_of_match found nofun).matched_body
    obtain ⟨base, w, digits, split, text⟩ := intText_of_settles inner
    rw [nothing, List.append_nil] at split
    have same : w = source.toList := split.symm
    exact ⟨base, digits, same ▸ text⟩
  · rintro ⟨base, digits, text⟩
    exact ⟨_, _, match_of_settles (settles_literal text), rfl⟩

theorem digits_of_intText (text : IntText base w digits) :
    digits ≠ [] ∧ ∀ y ∈ digits, ∃ v, IsDigit base y v := by
  cases text with
  | intro marked first others =>
      refine ⟨nofun, List.forall_mem_cons.mpr ⟨first, fun y member => ?_⟩⟩
      obtain ⟨inside, other⟩ := List.mem_filter.mp member
      exact (others y inside).resolve_right (by simpa using other)

theorem filter_of_intText (text : IntText base w digits) :
    ∃ mark ∈ marks base, w.filter (· != '_') = mark.toList ++ digits := by
  cases text with
  | @intro mark x xs marked first others =>
      have word : mark.toList.filter (· != '_') = mark.toList := by
        obtain rfl | rfl | rfl := base_of_mark marked <;> revert mark <;> decide
      have digit : x ≠ '_' := by
        rintro rfl
        have accepted := (digitTest_iff marked).mpr first
        obtain rfl | rfl | rfl := base_of_mark marked <;> cases accepted
      refine ⟨mark, marked, ?_⟩
      rw [List.filter_append, word, List.filter_cons_of_pos (by simpa using digit)]

/-- The base that is found from the text without underscores is the one that the grammar found. -/
theorem literal_of_intText (text : IntText base w digits) :
    Numeral.literal? w = Numeral.natural? base digits := by
  obtain ⟨mark, marked, plain⟩ := filter_of_intText text
  obtain ⟨-, each⟩ := digits_of_intText text
  rw [Numeral.literal?, plain]
  obtain rfl | rfl | rfl := base_of_mark marked
  · obtain rfl | rfl : mark = "0b" ∨ mark = "0B" := by simpa [marks] using marked
    · rfl
    · rfl
  · obtain rfl := List.mem_singleton.mp marked
    have letter (z : Char) (member : z ∈ digits) : Reading.digitTest 10 z = true :=
      (digitTest_iff marked).mpr (each z member)
    rw [show "".toList ++ digits = digits from rfl]
    split
    · cases letter 'x' (by simp)
    · cases letter 'X' (by simp)
    · cases letter 'b' (by simp)
    · cases letter 'B' (by simp)
    · rfl
  · obtain rfl | rfl : mark = "0x" ∨ mark = "0X" := by simpa [marks] using marked
    · rfl
    · rfl

theorem small_of_intText (text : IntText base w digits) : base ≤ 16 := by
  obtain ⟨mark, marked, -⟩ := filter_of_intText text
  obtain rfl | rfl | rfl := base_of_mark marked <;> decide

theorem inRange_of_intText (text : IntText base w digits) (number : Denotes base digits n) :
    Build.inRange? w = int64? n := by
  have read : Numeral.literal? w = some n := calc
    Numeral.literal? w = Numeral.natural? base digits := literal_of_intText text
    _ = some n := (Numeral.natural_eq_some_iff (small_of_intText text)).mpr number
  rw [Build.inRange?, read, Option.bind_some]

theorem mark_shape {mark : String} (marked : mark ∈ marks base) :
    base = 10 ∧ mark = "" ∨ ∃ z ∈ ['x', 'X', 'b', 'B'], mark.toList = ['0', z] := by
  obtain rfl | rfl | rfl := base_of_mark marked
  · obtain rfl | rfl : mark = "0b" ∨ mark = "0B" := by simpa [marks] using marked
    · exact .inr ⟨'b', by simp, rfl⟩
    · exact .inr ⟨'B', by simp, rfl⟩
  · exact .inl ⟨rfl, List.mem_singleton.mp marked⟩
  · obtain rfl | rfl : mark = "0x" ∨ mark = "0X" := by simpa [marks] using marked
    · exact .inr ⟨'x', by simp, rfl⟩
    · exact .inr ⟨'X', by simp, rfl⟩

theorem start_of_intText (text : IntText base w digits) : ∃ y ys, w = y :: ys ∧ y.isDigit = true := by
  cases text with
  | @intro mark x xs marked first others =>
      obtain ⟨rfl, rfl⟩ | ⟨z, -, shape⟩ := mark_shape marked
      · exact ⟨x, xs, rfl, (digitTest_iff marked).mpr first⟩
      · exact ⟨'0', z :: x :: xs, by rw [shape]; rfl, rfl⟩

theorem stop_of_intText (text : IntText base w digits) :
    ∀ y ∈ (w.dropWhile Char.isDigit).head?, y ∈ ['_', 'x', 'X', 'b', 'B'] := by
  intro y next
  cases text with
  | @intro mark x xs marked first others =>
      obtain ⟨rfl, rfl⟩ | ⟨z, letter, shape⟩ := mark_shape marked
      · have stopped : y.isDigit = false := dropWhile_stops y next
        have digit (z : Char) (found : ∃ v, IsDigit 10 z v) : y ≠ z := by
          rintro rfl
          exact Bool.false_ne_true (stopped.symm.trans ((digitTest_iff marked).mpr found))
        have inside : y ∈ x :: xs := (List.dropWhile_sublist _).subset (List.mem_of_mem_head? next)
        rw [List.mem_cons] at inside
        have later : y ∈ xs := inside.resolve_left (digit x first)
        rw [(others y later).resolve_left fun found => digit y found rfl]
        exact List.mem_cons_self
      · have member : z ∈ ['_', 'x', 'X', 'b', 'B'] := List.mem_cons_of_mem _ letter
        rw [shape, List.cons_append, List.dropWhile_cons_of_pos rfl, List.cons_append,
          List.dropWhile_cons_of_neg (by simp [(sign_cases member).1])] at next
        cases next
        exact member

theorem refused_of_intText (text : IntText base source.toList digits) :
    ∀ q ∈ [Rule.nullLiteral, .boolLiteral, .floatLiteral],
      grammar.Settles true (.rule q) (.ofSource source) .refused := by
  obtain ⟨y, ys, start, digit⟩ := start_of_intText text
  have head : (Cursor.ofSource source).rest.head? = some y := by rw [Cursor.ofSource, start]; rfl
  have other : y ∉ ['n', 't', 'f'] := by
    intro member
    simp only [List.mem_cons, List.not_mem_nil, or_false] at member
    rcases member with rfl | rfl | rfl <;> cases digit
  obtain ⟨null, bool⟩ := words_refused head other
  have float : grammar.Settles false (Rule.body .floatLiteral) (.ofSource source) .refused := by
    refine Reading.settles_floatLiteral_refused (w := source.toList.takeWhile Char.isDigit)
      (List.all_eq_true.mp List.all_takeWhile) ?_ List.takeWhile_append_dropWhile.symm fun z next => ?_
    · rw [start, List.takeWhile_cons_of_pos digit]
      exact List.cons_ne_nil _ _
    · obtain ⟨other, -, apart⟩ := sign_cases (stop_of_intText text z next)
      exact ⟨other, apart⟩
  intro q member
  simp only [List.mem_cons, List.not_mem_nil, or_false] at member
  rcases member with rfl | rfl | rfl
  · exact null
  · exact bool
  · exact Grammar.settles_token_refused rfl float

theorem readExpression_of_intText {i : Int64} (text : IntText base source.toList digits)
    (value : Build.intLiteral source.toList = .ok i) :
    readExpression source = .ok (.int ⟨0, byteLength source.toList⟩ i) := by
  obtain ⟨y, ys, start, digit⟩ := start_of_intText text
  have solid : Reading.Solid source := Reading.solid_of_start start (Reading.isWordChar_of_digit digit)
  have order : [.nullLiteral, .boolLiteral, .floatLiteral] ++ Rule.intLiteral :: _ = Reading.primaryRules := rfl
  exact readExpression_alone solid order (refused_of_intText text) (settles_literal text) rfl
    (by rw [Build.primary, value]; rfl)

theorem intText_of_underscores {mark : String} {x : Char} {xs : List Char} (marked : mark ∈ marks base)
    (digits : x :: xs.filter (· != '_') = Numeral.ofNat base n) :
    IntText base (mark.toList ++ x :: xs) (Numeral.ofNat base n) ∧ Denotes base (Numeral.ofNat base n) n := by
  have number : Denotes base (Numeral.ofNat base n) n := by
    obtain rfl | rfl | rfl := base_of_mark marked <;> exact Numeral.denotes_ofNat (by decide) (by decide) n
  obtain ⟨-, each⟩ := Numeral.exists_denotes_iff.mp ⟨n, number⟩
  rw [← digits, List.forall_mem_cons] at each
  have others (y : Char) (member : y ∈ xs) : (∃ v, IsDigit base y v) ∨ y = '_' := by
    by_cases underscore : y = '_'
    · exact .inr underscore
    · exact .inl (each.2 y (List.mem_filter.mpr ⟨member, by simpa using underscore⟩))
  exact ⟨digits ▸ .intro marked each.1 others, number⟩

theorem value_of_intText (text : IntText base source.toList digits) (number : Denotes base digits n)
    (fits : n ≤ 0x7FFFFFFFFFFFFFFF) : ∃ i : Int64, i.toInt = n ∧ Build.intLiteral source.toList = .ok i ∧
      readExpression source = .ok (.int ⟨0, byteLength source.toList⟩ i) := by
  have inRange : (n : Int) ≤ Int64.maxValue.toInt := Int.ofNat_le.mpr fits
  obtain ⟨i, found⟩ := (Build.int64?_natCast n).mpr inRange
  have value : Build.intLiteral source.toList = .ok i := by
    rw [Build.intLiteral_eq, inRange_of_intText text number, found]
  exact ⟨i, int64?_eq_some_iff.mp found, value, readExpression_of_intText text value⟩

theorem overflow_of_intText (text : IntText base w digits) (number : Denotes base digits n)
    (large : 0x7FFFFFFFFFFFFFFF < n) :
    Build.intLiteral w = .error (.invalidNumber (String.ofList (w.filter (· != '_')))) := by
  have outside : int64? n = none := by
    refine Option.eq_none_iff_forall_ne_some.mpr fun i found => ?_
    have inRange : (n : Int) ≤ 0x7FFFFFFFFFFFFFFF := (Build.int64?_natCast n).mp ⟨i, found⟩
    omega
  rw [Build.intLiteral_eq, inRange_of_intText text number, outside]

/-- A source is an integer literal as a whole exactly if it is digits and underscores behind a mark. Its
digits denote a number, which is what is built of it, unless it is greater than an integer of 64 bits can
be: then the text without underscores is refused. So every number up to there is an expression, in each
base and with any underscores behind its first digit. -/
theorem integer_literals_exact :
    (∀ source, Rule.intLiteral.AcceptsWhole source ↔ ∃ base digits, IntText base source.toList digits)
      ∧ (∀ source base digits, IntText base source.toList digits →
        (∃ n, Denotes base digits n) ∧ ∀ n, Denotes base digits n →
          (n ≤ 0x7FFFFFFFFFFFFFFF → ∃ i : Int64, i.toInt = n ∧ Build.intLiteral source.toList = .ok i ∧
            readExpression source = .ok (.int ⟨0, byteLength source.toList⟩ i))
          ∧ (0x7FFFFFFFFFFFFFFF < n → Build.intLiteral source.toList
            = .error (.invalidNumber (String.ofList (source.toList.filter (· != '_'))))))
      ∧ ∀ n ≤ 0x7FFFFFFFFFFFFFFF, ∀ base, ∀ mark ∈ marks base, ∀ x xs source,
          x :: xs.filter (· != '_') = Numeral.ofNat base n → source.toList = mark.toList ++ x :: xs →
          ∃ i : Int64, i.toInt = n ∧ readExpression source = .ok (.int ⟨0, byteLength source.toList⟩ i) := by
  refine ⟨fun source => acceptsWhole_iff, fun source base digits text => ⟨?_, fun n number => ⟨?_, ?_⟩⟩, ?_⟩
  · exact Numeral.exists_denotes_iff.mpr (digits_of_intText text)
  · exact value_of_intText text number
  · exact overflow_of_intText text number
  · intro n fits base mark marked x xs source digits whole
    obtain ⟨text, number⟩ := intText_of_underscores marked digits
    obtain ⟨i, value, -, reads⟩ := value_of_intText (whole ▸ text) number fits
    exact ⟨i, value, reads⟩

theorem literals_at_the_limit :
    readExpression "0XfF_0_" = .ok (.int ⟨0, 7⟩ 4080)
      ∧ readExpression "9_223_372_036_854_775_807" = .ok (.int ⟨0, 25⟩ Int64.maxValue)
      ∧ Build.intLiteral "0x8000_0000_0000_0000".toList = .error (.invalidNumber "0x8000000000000000") := by
  obtain ⟨-, value, written⟩ := integer_literals_exact
  refine ⟨?_, ?_, ?_⟩
  · have others : ∀ y ∈ ['F', '_', '0', '_'], (∃ v, IsDigit 16 y v) ∨ y = '_' := by
      simp only [List.forall_mem_cons]
      exact ⟨.inl ⟨15, by decide⟩, .inr trivial, .inl ⟨0, by decide⟩, .inr trivial, nofun⟩
    have text : IntText 16 "0XfF_0_".toList ['f', 'F', '0'] :=
      @IntText.intro 16 "0X" 'f' _ (by decide) ⟨15, by decide⟩ others
    have number : Denotes 16 ['f', 'F', '0'] 4080 := ⟨by decide, [15, 15, 0], by decide, rfl⟩
    obtain ⟨i, exact, -, reads⟩ := ((value _ _ _ text).2 _ number).1 (by decide)
    obtain rfl : i = 4080 := Int64.toInt_inj.mp exact
    exact reads
  · obtain ⟨i, exact, reads⟩ := written 9223372036854775807 (by decide) 10 "" (by decide) '9'
      "_223_372_036_854_775_807".toList "9_223_372_036_854_775_807" (by decide +kernel) rfl
    obtain rfl : i = Int64.maxValue := Int64.toInt_inj.mp exact
    exact reads
  · have digits : '8' :: "000_0000_0000_0000".toList.filter (· != '_')
        = Numeral.ofNat 16 0x8000000000000000 := by decide +kernel
    have marked : "0x" ∈ marks 16 := by decide
    obtain ⟨text, number⟩ := intText_of_underscores marked digits
    exact ((value "0x8000_0000_0000_0000" _ _ text).2 _ number).2 (by decide)

end Slice

end Dil
