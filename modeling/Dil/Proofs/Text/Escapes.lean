import Dil.Proofs.Text.Positional
import Dil.Proofs.Text.Quoted

/-!
Which insides of a string literal are taken, and what they stand for. Two forms of a character code
are taken beyond those that are meant to be: one with a plus sign in front of its digits, and one
that runs to the end of the literal without a closing brace.
-/

namespace Dil

theorem split_unique_at_first {α : Type} {P : α → Prop} {xs ys s t : List α} {a b : α}
    (before : ∀ x ∈ xs, P x) (here : ¬ P a) (before' : ∀ y ∈ ys, P y) (here' : ¬ P b)
    (same : xs ++ a :: s = ys ++ b :: t) : xs = ys ∧ a = b ∧ s = t := by
  classical
  have parts {zs u : List α} {c : α} (all : ∀ z ∈ zs, P z) (first : ¬ P c) :
      (zs ++ c :: u).takeWhile (fun x => decide (P x)) = zs := by
    rw [List.takeWhile_append_of_pos fun z member => decide_eq_true (all z member),
      List.takeWhile_cons_of_neg (by simp [first]), List.append_nil]
  obtain rfl : xs = ys := by
    rw [← parts (u := s) before here, same, parts before' here']
  exact ⟨rfl, List.cons.inj (List.append_cancel_left same)⟩

namespace Quoted

def letters : List (Char × Char) :=
  [('n', '\n'), ('r', '\r'), ('t', '\t'), ('\\', '\\'), ('"', '"'), ('0', '\x00')]

def Denotes (digits : List Char) (c : Char) : Prop := Numeral.natural? 16 digits = some c.toNat

def openCode (code : List Char) : List Char := '\\' :: 'u' :: '{' :: code

/-- How a valid inside writes one character. -/
inductive Writes : Char → List Char → Prop where
  | plain {c : Char} (bare : c ≠ '\\') : Writes c [c]
  | letter {l c : Char} (named : (l, c) ∈ letters) : Writes c ['\\', l]
  | code {digits : List Char} {c : Char} (denotes : Denotes digits c) :
      Writes c (openCode digits ++ ['}'])

inductive Valid : List Char → List Char → Prop where
  | nil : Valid [] []
  | cons {c : Char} {w inside text : List Char} (writes : Writes c w) (rest : Valid inside text) :
      Valid (w ++ inside) (c :: text)

/-- An inside that is taken, what it is taken for, and how many of its codes are of no valid form:
they have a plus sign, or the last one is not closed. -/
inductive Taken : List Char → List Char → Nat → Prop where
  | nil : Taken [] [] 0
  | cons {c : Char} {w inside text : List Char} {slips : Nat} (writes : Writes c w)
      (rest : Taken inside text slips) : Taken (w ++ inside) (c :: text) slips
  | signed {digits : List Char} {c : Char} {inside text : List Char} {slips : Nat}
      (denotes : Denotes digits c) (rest : Taken inside text slips) :
      Taken (openCode ('+' :: digits) ++ '}' :: inside) (c :: text) (slips + 1)
  | unclosed {digits : List Char} {c : Char} (denotes : Denotes digits c) :
      Taken (openCode digits) [c] 1
  | signedUnclosed {digits : List Char} {c : Char} (denotes : Denotes digits c) :
      Taken (openCode ('+' :: digits)) [c] 1

theorem letterEscape_eq_some_iff {l c : Char} : letterEscape? l = some c ↔ (l, c) ∈ letters := by
  unfold letterEscape? letters
  split <;> simp_all [eq_comm]

theorem letter_ne {l c : Char} (named : (l, c) ∈ letters) : l ≠ 'u' := by
  rintro rfl
  simp [letters] at named

theorem Denotes.digit_of_mem {digits : List Char} {c d : Char} (denotes : Denotes digits c)
    (member : d ∈ digits) : ∃ v, Numeral.digitIn? 16 d = some v := by
  have number : Numeral.Denotes 16 digits c.toNat := (Numeral.natural_eq_some_iff (by decide)).mp denotes
  obtain ⟨v, digit⟩ := (Numeral.exists_denotes_iff.mp ⟨_, number⟩).2 d member
  exact ⟨v, (Numeral.digitIn_eq_some_iff (by decide)).mpr digit⟩

theorem Denotes.closed {digits : List Char} {c : Char} (denotes : Denotes digits c) : '}' ∉ digits := by
  intro member
  obtain ⟨v, digit⟩ := denotes.digit_of_mem member
  simp [Numeral.digitIn?, Numeral.digit?] at digit

theorem Denotes.unsigned {digits : List Char} {c : Char} (denotes : Denotes digits c) : '+' ∉ digits := by
  intro member
  obtain ⟨v, digit⟩ := denotes.digit_of_mem member
  simp [Numeral.digitIn?, Numeral.digit?] at digit

theorem character_eq_iff {n? : Option Nat} {c : Char} :
    (n?.bind fun n => if h : n.isValidChar then some (Char.ofNatAux n h) else none) = some c
      ↔ n? = some c.toNat := by
  cases n? with
  | none =>
      rw [Option.bind_none]
      simp only [reduceCtorEq]
  | some n =>
      rw [Option.bind_some, Option.some.injEq]
      constructor
      · intro found
        by_cases valid : n.isValidChar
        · rw [dif_pos valid] at found
          exact congrArg Char.toNat (Option.some.inj found)
        · rw [dif_neg valid] at found
          cases found
      · rintro rfl
        exact (dif_pos c.valid).trans (congrArg some (Char.toNat_inj.mp rfl))

theorem scalar_signed {digits : List Char} {c : Char} :
    scalar? ('+' :: digits) = some c ↔ Denotes digits c :=
  character_eq_iff

theorem scalar_plain {digits : List Char} {c : Char} (unsigned : ∀ ds, digits ≠ '+' :: ds) :
    scalar? digits = some c ↔ Denotes digits c := by
  have read : scalar? digits = some c ↔ Numeral.natural? 16 _ = some c.toNat := character_eq_iff
  refine read.trans ?_
  split
  · rename_i ds
    exact absurd rfl (unsigned ds)
  · exact Iff.rfl

theorem Denotes.scalar {digits : List Char} {c : Char} (denotes : Denotes digits c) :
    scalar? digits = some c := by
  refine (scalar_plain ?_).mpr denotes
  rintro ds rfl
  exact denotes.unsigned List.mem_cons_self

theorem scalar_cases {code : List Char} {c : Char} (scalar : scalar? code = some c) :
    Denotes code c ∨ ∃ digits, code = '+' :: digits ∧ Denotes digits c := by
  by_cases signed : ∃ digits, code = '+' :: digits
  · obtain ⟨digits, rfl⟩ := signed
    exact .inr ⟨digits, rfl, scalar_signed.mp scalar⟩
  · exact .inl ((scalar_plain (not_exists.mp signed)).mp scalar)

theorem decode_unclosed {code : List Char} (closed : '}' ∉ code) (digits : List Char) :
    decode (.code digits) code = (scalar? (digits.reverse ++ code)).map ([·]) := by
  induction code generalizing digits with
  | nil => simp [decode]
  | cons c cs ih =>
      rw [List.mem_cons, not_or] at closed
      have step : decode (.code digits) (c :: cs) = decode (.code (c :: digits)) cs := by
        rw [decode]
        exact fun same => closed.1 same.symm
      rw [step, ih closed.2]
      simp

theorem unescape_code {code rest : List Char} (closed : '}' ∉ code) :
    unescape (openCode code ++ '}' :: rest)
      = (scalar? code).bind fun c => (unescape rest).map (c :: ·) :=
  decode_code closed [] rest

theorem unescape_plain {c : Char} (bare : c ≠ '\\') (rest : List Char) :
    unescape (c :: rest) = (unescape rest).map (c :: ·) := by
  simp [unescape, decode]

theorem unescape_letter {l : Char} (other : l ≠ 'u') (rest : List Char) :
    unescape ('\\' :: l :: rest)
      = (letterEscape? l).bind fun c => (unescape rest).map (c :: ·) := by
  simp [unescape, decode]

theorem brace_of_unescape {rest text : List Char}
    (read : unescape ('\\' :: 'u' :: rest) = some text) : ∃ code, rest = '{' :: code := by
  have brace : decode .brace rest = some text := read
  unfold decode at brace
  split at brace <;> simp_all

theorem unescape_writes {c : Char} {w : List Char} (writes : Writes c w) (rest : List Char) :
    unescape (w ++ rest) = (unescape rest).map (c :: ·) := by
  cases writes with
  | plain bare => exact unescape_plain bare rest
  | @letter l _ named =>
      have escape : letterEscape? l = some c := letterEscape_eq_some_iff.mpr named
      refine (unescape_letter (letter_ne named) rest).trans ?_
      rw [escape, Option.bind_some]
  | code denotes =>
      rw [List.append_assoc, List.singleton_append, unescape_code denotes.closed, denotes.scalar,
        Option.bind_some]

theorem Taken.unescape {inside text : List Char} {slips : Nat} (taken : Taken inside text slips) :
    unescape inside = some text := by
  induction taken with
  | nil => rfl
  | cons writes _ ih => rw [unescape_writes writes, ih, Option.map_some]
  | signed denotes _ ih =>
      have closed : '}' ∉ '+' :: _ := List.not_mem_cons_of_ne_of_not_mem (by decide) denotes.closed
      rw [unescape_code closed, scalar_signed.mpr denotes, Option.bind_some, ih, Option.map_some]
  | unclosed denotes =>
      refine (decode_unclosed denotes.closed []).trans ?_
      rw [List.reverse_nil, List.nil_append, denotes.scalar, Option.map_some]
  | signedUnclosed denotes =>
      have closed : '}' ∉ '+' :: _ := List.not_mem_cons_of_ne_of_not_mem (by decide) denotes.closed
      refine (decode_unclosed closed []).trans ?_
      rw [List.reverse_nil, List.nil_append, scalar_signed.mpr denotes, Option.map_some]

theorem taken_of_code {code text : List Char}
    (rest : ∀ {inside w : List Char}, inside.length ≤ code.length → Quoted.unescape inside = some w →
      ∃ slips, Taken inside w slips)
    (read : Quoted.unescape (openCode code) = some text) : ∃ slips, Taken (openCode code) text slips := by
  by_cases closed : '}' ∈ code
  · obtain ⟨digits, behind, rfl, first⟩ := List.eq_append_cons_of_mem closed
    obtain ⟨c, scalar, onward⟩ := Option.bind_eq_some_iff.mp ((unescape_code first).symm.trans read)
    obtain ⟨w, tail, rfl⟩ := Option.map_eq_some_iff.mp onward
    obtain ⟨slips, taken⟩ := rest (by simp; omega) tail
    obtain denotes | ⟨ds, rfl, denotes⟩ := scalar_cases scalar
    · have whole := Taken.cons (.code denotes) taken
      rw [List.append_assoc] at whole
      exact ⟨slips, whole⟩
    · exact ⟨slips + 1, .signed denotes taken⟩
  · obtain ⟨c, scalar, rfl⟩ :=
      Option.map_eq_some_iff.mp ((decode_unclosed closed []).symm.trans read)
    obtain denotes | ⟨ds, rfl, denotes⟩ := scalar_cases scalar
    · exact ⟨1, .unclosed denotes⟩
    · exact ⟨1, .signedUnclosed denotes⟩

/-- By the first character that is written; the measure is the length, since a code is read in one
step. -/
theorem taken_of_unescape (inside : List Char) {text : List Char}
    (read : Quoted.unescape inside = some text) : ∃ slips, Taken inside text slips := by
  cases inside with
  | nil =>
      obtain rfl : [] = text := Option.some.inj read
      exact ⟨0, .nil⟩
  | cons c rest =>
      by_cases bare : c ≠ '\\'
      · rw [unescape_plain bare] at read
        obtain ⟨w, tail, rfl⟩ := Option.map_eq_some_iff.mp read
        obtain ⟨slips, taken⟩ := taken_of_unescape rest tail
        exact ⟨slips, .cons (.plain bare) taken⟩
      · obtain rfl : c = '\\' := not_not.mp bare
        cases rest with
        | nil => cases read
        | cons l rest =>
            by_cases other : l ≠ 'u'
            · rw [unescape_letter other] at read
              obtain ⟨c, escape, onward⟩ := Option.bind_eq_some_iff.mp read
              obtain ⟨w, tail, rfl⟩ := Option.map_eq_some_iff.mp onward
              obtain ⟨slips, taken⟩ := taken_of_unescape rest tail
              exact ⟨slips, .cons (.letter (letterEscape_eq_some_iff.mp escape)) taken⟩
            · obtain rfl : l = 'u' := not_not.mp other
              obtain ⟨code, rfl⟩ := brace_of_unescape read
              refine taken_of_code (fun {inside w} shorter tail => ?_) read
              have : inside.length < ('\\' :: 'u' :: '{' :: code).length := by simp; omega
              exact taken_of_unescape inside tail
termination_by inside.length

theorem taken_iff {inside text : List Char} :
    (∃ slips, Taken inside text slips) ↔ Quoted.unescape inside = some text :=
  ⟨fun ⟨_, taken⟩ => taken.unescape, taken_of_unescape inside⟩

theorem Valid.taken {inside text : List Char} (valid : Valid inside text) : Taken inside text 0 := by
  induction valid with
  | nil => exact .nil
  | cons writes _ ih => exact .cons writes ih

theorem Taken.valid {inside text : List Char} {slips : Nat} (taken : Taken inside text slips)
    (none : slips = 0) : Valid inside text := by
  induction taken with
  | nil => exact .nil
  | cons writes _ ih => exact .cons writes (ih none)
  | signed | unclosed | signedUnclosed => cases none

theorem Writes.ne_nil {c : Char} {w : List Char} (writes : Writes c w) : w ≠ [] := by
  cases writes <;> exact List.cons_ne_nil _ _

theorem Writes.code_of {c : Char} {w code s : List Char} (writes : Writes c w)
    (same : openCode code = w ++ s) : ∃ digits, Denotes digits c ∧ code = digits ++ '}' :: s := by
  cases writes with
  | plain bare => exact absurd (List.cons.inj same).1.symm bare
  | letter named => exact absurd (List.cons.inj (List.cons.inj same).2).1.symm (letter_ne named)
  | @code digits _ denotes =>
      rw [List.append_assoc] at same
      exact ⟨digits, denotes, by simpa [openCode] using same⟩

theorem brace_unique {w v s t : List Char} (closed : '}' ∉ w) (closed' : '}' ∉ v)
    (same : w ++ '}' :: s = v ++ '}' :: t) : w = v ∧ s = t := by
  have apart {u : List Char} (closed : '}' ∉ u) : ∀ x ∈ u, x ≠ '}' := fun x member same =>
    closed (same ▸ member)
  obtain ⟨front, -, back⟩ := split_unique_at_first (apart closed) (not_not.mpr rfl) (apart closed')
    (not_not.mpr rfl) same
  exact ⟨front, back⟩

/-- No way to write a character begins another way. -/
theorem Writes.rest_unique {c d : Char} {w v s t : List Char} (writes : Writes c w)
    (writes' : Writes d v) (same : w ++ s = v ++ t) : s = t := by
  cases writes with
  | plain bare =>
      cases writes' with
      | plain => exact (List.cons.inj same).2
      | letter | code => exact absurd (List.cons.inj same).1 bare
  | letter named =>
      cases writes' with
      | plain bare => exact absurd (List.cons.inj same).1.symm bare
      | letter => exact (List.cons.inj (List.cons.inj same).2).2
      | code => exact absurd (List.cons.inj (List.cons.inj same).2).1 (letter_ne named)
  | @code digits _ denotes =>
      rw [List.append_assoc] at same
      obtain ⟨digits', denotes', parts⟩ := writes'.code_of same
      exact (brace_unique denotes.closed denotes'.closed parts).2

theorem Valid.code_of {code text : List Char} (valid : Valid (openCode code) text) :
    ∃ digits c s, Denotes digits c ∧ code = digits ++ '}' :: s := by
  generalize whole : openCode code = inside at valid
  cases valid with
  | nil => cases whole
  | @cons c w s text writes =>
      obtain ⟨digits, denotes, parts⟩ := writes.code_of whole
      exact ⟨digits, c, s, denotes, parts⟩

theorem Valid.of_writes {c : Char} {w inside text : List Char} (writes : Writes c w)
    (valid : Valid (w ++ inside) text) : ∃ text', Valid inside text' := by
  generalize whole : w ++ inside = s at valid
  cases valid with
  | nil => exact absurd (List.append_eq_nil_iff.mp whole).1 writes.ne_nil
  | @cons _ _ _ text' writes' rest =>
      obtain rfl := writes.rest_unique writes' whole
      exact ⟨text', rest⟩

theorem Taken.slips_eq_zero {inside text : List Char} {slips : Nat} (taken : Taken inside text slips)
    (valid : ∃ text', Valid inside text') : slips = 0 := by
  induction taken with
  | nil => rfl
  | cons writes _ ih =>
      obtain ⟨_, valid⟩ := valid
      exact ih (valid.of_writes writes)
  | @signed digits c inside _ _ denotes =>
      obtain ⟨_, valid⟩ := valid
      obtain ⟨digits', c', s, denotes', parts⟩ := valid.code_of
      have closed : '}' ∉ '+' :: digits := List.not_mem_cons_of_ne_of_not_mem (by decide) denotes.closed
      obtain rfl : '+' :: digits = digits' := (brace_unique closed denotes'.closed parts).1
      exact absurd List.mem_cons_self denotes'.unsigned
  | @unclosed digits c denotes =>
      obtain ⟨_, valid⟩ := valid
      obtain ⟨digits', c', s, _, parts⟩ := valid.code_of
      exact absurd (parts ▸ List.mem_append_right _ List.mem_cons_self) denotes.closed
  | @signedUnclosed digits c denotes =>
      obtain ⟨_, valid⟩ := valid
      obtain ⟨digits', c', s, _, parts⟩ := valid.code_of
      have closed : '}' ∉ '+' :: digits := List.not_mem_cons_of_ne_of_not_mem (by decide) denotes.closed
      exact absurd (parts ▸ List.mem_append_right _ List.mem_cons_self) closed

/-- The inside of a literal is decoded if it is valid; one that is not is decoded as well if all
that is wrong with it are plus signs in its codes and a code that its end cuts off. Anything else is
refused as a whole. -/
theorem inside_decoded (inside : List Char) :
    (∀ text, Build.stringInside inside = .ok (String.ofList text) ↔
      ∃ slips, Taken inside text slips) ∧
    ((¬∃ text slips, Taken inside text slips) →
      Build.stringInside inside = .error (.invalidEscape (String.ofList inside))) ∧
    (∀ text, Valid inside text ↔ Taken inside text 0) ∧
    ∀ text slips, Taken inside text slips → ((∃ text', Valid inside text') ↔ slips = 0) := by
  refine ⟨fun text => ?_, fun never => ?_, fun text => ⟨Valid.taken, (Taken.valid · rfl)⟩, ?_⟩
  · rw [taken_iff, Build.stringInside]
    cases Quoted.unescape inside <;> simp [String.ofList_inj]
  · have refused : Quoted.unescape inside = none := by
      rw [Option.eq_none_iff_forall_ne_some]
      exact fun text read => never ⟨text, taken_of_unescape inside read⟩
    rw [Build.stringInside, refused]
  · rintro text slips taken
    exact ⟨taken.slips_eq_zero, fun none => ⟨text, taken.valid none⟩⟩

/-- The end of a literal stands for a closing brace. -/
example : Quoted.unescape "say \\u\x7b+41".toList = some "say A".toList := by decide

end Quoted

end Dil
