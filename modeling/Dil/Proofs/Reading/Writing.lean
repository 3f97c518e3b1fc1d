import Dil.Proofs.Reading.Lists

namespace Dil.Reading

open Rule (isWordChar)

/-- A token that is seen where it stands, since it starts like no layout. -/
def Solid (t : String) : Prop :=
  ∃ c cs, t.toList = c :: cs ∧ Layout.isBlank c = false ∧ (c = '/' → cs = [])

def isMark (c : Char) : Bool := !isWordChar c && c != '.' && !isSign c

section Tokens

variable {t : String} {ts : List String} {w rest : List Char} {c : Char}

theorem runsOn_mark (mark : isMark c = true) (a : Char) : runsOn a c = false ∧ runsOn c a = false := by
  simp only [isMark, Bool.and_eq_true, Bool.not_eq_true', bne_iff_ne] at mark
  simp [runsOn, mark]

theorem apart_nil : Apart w [] := nofun

theorem apart_mark (mark : isMark c = true) : Apart w (c :: rest) := by
  rintro a _ b ⟨⟩
  exact (runsOn_mark mark a).1

theorem apart_behind_mark (mark : isMark c = true) : Apart [c] rest := by
  rintro a ⟨⟩ b _
  exact (runsOn_mark mark b).2

theorem isSign_of_digit {x : Char} (digit : x.isDigit = true) : isSign x = false := by
  by_contra sign
  simp only [isSign, Bool.not_eq_false, List.contains_iff_mem, List.mem_cons, List.not_mem_nil,
    or_false] at sign
  rcases sign with rfl | rfl | rfl | rfl | rfl | rfl | rfl | rfl | rfl | rfl | rfl <;> cases digit

theorem solid_of_start (text : t.toList = c :: rest) (start : isWordChar c = true) : Solid t := by
  refine ⟨c, rest, text, ?_, ?_⟩
  · by_contra blank
    simp only [Layout.isBlank, Bool.not_eq_false, Bool.or_eq_true, beq_iff_eq] at blank
    rcases blank with ((rfl | rfl) | rfl) | rfl <;> cases start
  · rintro rfl
    cases start

theorem solid_of_isWord (word : isWord t.toList = true) : Solid t := by
  cases text : t.toList with
  | nil => simp [text, isWord] at word
  | cons c cs =>
      simp only [text, isWord, Bool.and_eq_true] at word
      exact solid_of_start text (isWordChar_of_start word.1)

theorem solid_quote (s : String) : Solid (Quoted.quote s) :=
  ⟨'"', _, quote_toList s, rfl, nofun⟩

theorem solid_int {n : Int64} (positive : 0 ≤ n.toInt) : Solid (int64Text n) := by
  obtain ⟨digits, nonempty⟩ := int64Text_digits positive
  cases text : (int64Text n).toList with
  | nil => exact absurd text nonempty
  | cons c cs => exact solid_of_start text (isWordChar_of_digit (digits c (by simp [text])))

theorem Solid.ne_nil (solid : Solid t) : t.toList ≠ [] := by
  obtain ⟨c, cs, text, -⟩ := solid
  simp [text]

/-- Layout ends before the token. The slash is one only if no sign follows it. -/
theorem Solid.behind (solid : Solid t) (apart : Apart t.toList rest) :
    Layout.behind (t.toList ++ rest) = t.toList ++ rest := by
  obtain ⟨c, cs, text, unblank, slash⟩ := solid
  rw [text] at apart ⊢
  by_cases same : c = '/'
  · rw [slash same, same] at apart ⊢
    refine Layout.behind_slash fun d next => ?_
    have other := apart '/' rfl d next
    constructor
    · rintro rfl
      cases other
    · rintro rfl
      cases other
  · exact Layout.behind_unblank _ unblank same

theorem Solid.laid (solid : Solid t) (apart : Apart t.toList rest) (laid : Laid rest ts) :
    Laid (t.toList ++ rest) (t :: ts) :=
  ⟨rest, solid.behind apart, solid.ne_nil, apart, laid⟩

theorem Laid.spaced (laid : Laid rest ts) : Laid (' ' :: rest) ts := by
  rw [← laid_behind] at laid ⊢
  rwa [Layout.behind_space]

theorem laid_intercalate (solid : ∀ t ∈ ts, Solid t) : Laid (" ".intercalate ts).toList ts := by
  induction ts with
  | nil => exact Layout.behind_nil
  | cons t ts ih =>
      have others := ih fun u member => solid u (List.mem_cons_of_mem _ member)
      have first := solid t List.mem_cons_self
      cases ts with
      | nil =>
          have alone := first.laid apart_nil others
          simpa using alone
      | cons u us =>
          have whole := first.laid (apart_mark rfl) others.spaced
          simpa using whole

end Tokens

/-- The text is made of the tokens, before whatever does not run on from it. -/
def Writes (text : List Char) (tokens : List String) : Prop :=
  ∀ rest more, Apart text rest → Laid rest more → Laid (text ++ rest) (tokens ++ more)

section Writes

variable {a b text : List Char} {s t tokens : List String}

theorem Writes.laid (writes : Writes text tokens) : Laid text tokens := by
  have alone := writes [] [] apart_nil Layout.behind_nil
  rwa [List.append_nil, List.append_nil] at alone

theorem writes_nil : Writes [] [] := fun _ _ _ laid => laid

theorem writes_token {t : String} (solid : Solid t) : Writes t.toList [t] :=
  fun _ _ apart laid => solid.laid apart laid

theorem Writes.spaced (writes : Writes b t) (nonempty : b ≠ []) : Writes (' ' :: b) t := by
  intro rest more apart laid
  have ends : Apart b rest := by
    rwa [Apart, List.getLast?_cons_of_ne_nil nonempty] at apart
  exact (writes rest more ends laid).spaced

theorem Writes.append (first : Writes a s) (second : Writes b t) (nonempty : b ≠ [])
    (apart : Apart a b) : Writes (a ++ b) (s ++ t) := by
  intro rest more ends laid
  have between : Apart a (b ++ rest) := by
    rwa [Apart, List.head?_append_of_ne_nil _ nonempty]
  have behind : Apart b rest := by
    rwa [Apart, List.getLast?_append_of_ne_nil _ nonempty] at ends
  rw [List.append_assoc, List.append_assoc]
  exact first _ _ between (second rest more behind laid)

theorem writes_char {m : String} {c : Char} (text : m.toList = [c])
    (unblank : Layout.isBlank c = false) : Writes [c] [m] := by
  have whole := writes_token ⟨c, [], text, unblank, fun _ => rfl⟩
  rwa [text] at whole

theorem Writes.marked {m : String} {c : Char} (writes : Writes b t) (nonempty : b ≠ [])
    (text : m.toList = [c]) (mark : isMark c = true) (unblank : Layout.isBlank c = false) :
    Writes (c :: b) (m :: t) :=
  (writes_char text unblank).append writes nonempty (apart_behind_mark mark)

theorem writes_entry {key : String} (solid : Solid key) (writes : Writes b t) (nonempty : b ≠ []) :
    Writes (key.toList ++ ':' :: ' ' :: b) (key :: ":" :: t) := by
  have behind : Writes (':' :: ' ' :: b) (":" :: t) :=
    (writes.spaced nonempty).marked (List.cons_ne_nil _ _) rfl rfl rfl
  exact (writes_token solid).append behind (List.cons_ne_nil _ _) (apart_mark rfl)

theorem writes_commaed {ι : Type} {xs : List ι} {text : ι → String} {tokens : ι → List String}
    (each : ∀ x ∈ xs, Writes (text x).toList (tokens x)) (nonempty : ∀ x ∈ xs, (text x).toList ≠ []) :
    Writes (", ".intercalate (xs.map text)).toList (commaed (xs.map tokens)) := by
  induction xs with
  | nil => exact writes_nil
  | cons x xs ih =>
      have first := each x List.mem_cons_self
      cases xs with
      | nil => simpa [commaed] using first
      | cons y ys =>
          have others := ih (fun z member => each z (List.mem_cons_of_mem _ member))
            fun z member => nonempty z (List.mem_cons_of_mem _ member)
          have some : (", ".intercalate ((y :: ys).map text)).toList ≠ [] := by
            have start := nonempty y (by simp)
            cases ys <;> simp_all
          have comma : Writes (',' :: ' ' :: (", ".intercalate ((y :: ys).map text)).toList)
              ("," :: commaed ((y :: ys).map tokens)) :=
            (others.spaced some).marked (List.cons_ne_nil _ _) rfl rfl rfl
          have whole := first.append comma (List.cons_ne_nil _ _) (apart_mark rfl)
          simpa [commaed, List.intercalate] using whole

end Writes

end Dil.Reading
