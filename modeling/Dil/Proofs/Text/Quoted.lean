import Dil.Proofs.Text.Numeral

namespace Dil.Quoted

theorem hexDigit_ne {n : Nat} {c : Char} (member : c ∈ Numeral.ofNat 16 n) : c ≠ '}' ∧ c ≠ '+'
    ∧ c ≠ '\\' ∧ c ≠ '"' := by
  obtain ⟨d, digit, rfl⟩ := Numeral.ofNat_digits (by omega) member
  interval_cases d <;> decide

theorem scalar_hex (c : Char) : scalar? (Numeral.ofNat 16 c.toNat) = some c := by
  have valid : c.toNat.isValidChar := c.valid
  have unsigned : ∀ ds, Numeral.ofNat 16 c.toNat ≠ '+' :: ds := by
    intro ds same
    have member : '+' ∈ Numeral.ofNat 16 c.toNat := by simp [same]
    exact (hexDigit_ne member).2.1 rfl
  have same : Char.ofNatAux c.toNat valid = c := by
    apply Char.toNat_inj.mp
    rfl
  refine Option.bind_eq_some_iff.mpr ⟨c.toNat, ?_, (dif_pos valid).trans (congrArg some same)⟩
  split
  · rename_i ds signed
    exact absurd signed (unsigned ds)
  · exact Numeral.natural_ofNat (by omega) (by omega) c.toNat

theorem decode_code {w : List Char} (closed : '}' ∉ w) (digits t : List Char) :
    decode (.code digits) (w ++ '}' :: t)
      = (scalar? (digits.reverse ++ w)).bind fun d => (decode .plain t).map (d :: ·) := by
  induction w generalizing digits with
  | nil => simp [decode]
  | cons c cs ih =>
      rw [List.mem_cons, not_or] at closed
      have step : decode (.code digits) (c :: (cs ++ '}' :: t))
          = decode (.code (c :: digits)) (cs ++ '}' :: t) := by
        rw [decode]
        exact fun same => closed.1 same.symm
      rw [List.cons_append, step, ih closed.2]
      simp

theorem decode_escapeChar (c : Char) (t : List Char) :
    decode .plain (escapeChar c ++ t) = (decode .plain t).map (c :: ·) := by
  unfold escapeChar
  split
  · rfl
  · rfl
  · rfl
  · rfl
  · rfl
  · rename_i backslash _
    split
    · have closed : '}' ∉ Numeral.ofNat 16 c.toNat := fun member => (hexDigit_ne member).1 rfl
      have code := decode_code closed [] t
      simp only [List.reverse_nil, List.nil_append, scalar_hex, Option.bind_some] at code
      simpa [decode] using code
    · simp [decode]

theorem unescape_escape (s : List Char) : unescape (escape s) = some s := by
  induction s with
  | nil => rfl
  | cons c cs ih =>
      rw [escape, List.flatMap_cons, unescape, decode_escapeChar]
      rw [unescape, escape] at ih
      rw [ih]
      rfl

/-- A text that can stand between quotes: no quote is bare, and no backslash stands last. -/
def isInside : List Char → Bool
  | [] => true
  | '\\' :: _ :: cs => isInside cs
  | c :: cs => c != '\\' && c != '"' && isInside cs

theorem isInside_plain {w t : List Char} (plain : ∀ c ∈ w, c ≠ '\\' ∧ c ≠ '"')
    (rest : isInside t = true) : isInside (w ++ t) = true := by
  induction w with
  | nil => exact rest
  | cons c cs ih =>
      have head := plain c List.mem_cons_self
      have tail := ih fun d member => plain d (List.mem_cons_of_mem _ member)
      simp [isInside, head, tail]

theorem isInside_escapeChar (c : Char) {t : List Char} (rest : isInside t = true) :
    isInside (escapeChar c ++ t) = true := by
  unfold escapeChar
  split
  · exact rest
  · exact rest
  · exact rest
  · exact rest
  · exact rest
  · rename_i noBackslash noQuote
    split
    · have digits : isInside (Numeral.ofNat 16 c.toNat ++ '}' :: t) = true := by
        refine isInside_plain (fun d member => (hexDigit_ne member).2.2) ?_
        simpa [isInside] using rest
      simpa [isInside] using digits
    · simp_all [isInside]

theorem isInside_escape (s : List Char) : isInside (escape s) = true := by
  induction s with
  | nil => rfl
  | cons c cs ih => exact isInside_escapeChar c ih

/-- The number of backslashes that a text ends with. -/
def slashes (t : List Char) : Nat := (t.reverse.takeWhile (· == '\\')).length

/-- A text that stays between its quotes: each quote inside is escaped, and one behind the text is not. -/
structure Sealed (t : List Char) : Prop where
  printable : ∀ c ∈ t, isControl c = false
  quotes : ∀ front back, t = front ++ '"' :: back → slashes front % 2 = 1
  ending : slashes t % 2 = 0

variable {x c : Char} {t front back : List Char}

theorem slashes_cons (other : x ≠ '\\') (t : List Char) : slashes (x :: t) = slashes t := by
  have none : [x].takeWhile (· == '\\') = [] := by simp [other]
  rw [slashes, List.reverse_cons, List.takeWhile_append, none]
  split
  · rename_i all
    rw [List.append_nil, ← all]
    rfl
  · rfl

theorem slashes_pair (x : Char) (t : List Char) : slashes ('\\' :: x :: t) % 2 = slashes t % 2 := by
  have whole : ('\\' :: x :: t).reverse = t.reverse ++ [x, '\\'] := by simp
  rw [slashes, whole, List.takeWhile_append]
  split
  · rename_i all
    have pair : ([x, '\\'].takeWhile (· == '\\')).length % 2 = 0 := by
      by_cases backslash : x = '\\' <;> simp [backslash]
    calc (t.reverse ++ [x, '\\'].takeWhile (· == '\\')).length % 2
        = (slashes t + ([x, '\\'].takeWhile (· == '\\')).length) % 2 := by
          rw [List.length_append, ← all]
          rfl
      _ = slashes t % 2 := by rw [Nat.add_mod, pair, Nat.add_zero, Nat.mod_mod]
  · rfl

theorem slashes_before_quote (inside : isInside (front ++ '"' :: back) = true) : slashes front % 2 = 1 := by
  generalize whole : front ++ '"' :: back = t at inside
  fun_induction isInside t generalizing front with
  | case1 => simp at whole
  | case2 x cs ih =>
      cases front with
      | nil => cases whole
      | cons y ys =>
          obtain ⟨rfl, rest⟩ := List.cons.inj whole
          cases ys with
          | nil => rfl
          | cons z zs =>
              obtain ⟨rfl, further⟩ := List.cons.inj rest
              rw [slashes_pair]
              exact ih further inside
  | case3 x cs _ ih =>
      simp only [Bool.and_eq_true, bne_iff_ne] at inside
      cases front with
      | nil =>
          obtain ⟨rfl, -⟩ := List.cons.inj whole
          exact absurd rfl inside.1.2
      | cons y ys =>
          obtain ⟨rfl, rest⟩ := List.cons.inj whole
          rw [slashes_cons inside.1.1]
          exact ih rest inside.2

theorem slashes_of_inside (inside : isInside t = true) : slashes t % 2 = 0 := by
  fun_induction isInside t with
  | case1 => rfl
  | case2 x cs ih =>
      rw [slashes_pair]
      exact ih inside
  | case3 x cs _ ih =>
      simp only [Bool.and_eq_true, bne_iff_ne] at inside
      rw [slashes_cons inside.1.1]
      exact ih inside.2

theorem escapeChar_printable : ∀ d ∈ escapeChar c, isControl d = false := by
  unfold escapeChar
  split
  case h_6 =>
    split
    · have digits : ∀ d ∈ Numeral.ofNat 16 c.toNat, isControl d = false := by
        intro d member
        obtain ⟨v, digit, rfl⟩ := Numeral.ofNat_digits (by decide) member
        interval_cases v <;> rfl
      simp only [List.cons_append, List.forall_mem_cons, List.forall_mem_append]
      exact ⟨rfl, rfl, rfl, digits, rfl, nofun⟩
    · rename_i visible
      simpa using visible
  all_goals
    simp only [List.forall_mem_cons]
    exact ⟨rfl, rfl, nofun⟩

theorem sealed_escape (s : List Char) : Sealed (escape s) where
  printable c member := by
    obtain ⟨d, -, escaped⟩ := List.mem_flatMap.mp member
    exact escapeChar_printable c escaped
  quotes front back whole := by
    have inside := isInside_escape s
    rw [whole] at inside
    exact slashes_before_quote inside
  ending := slashes_of_inside (isInside_escape s)

example : escape "\\\"\x7f".toList = "\\\\\\\"\\u\x7b7f\x7d".toList := by decide

end Dil.Quoted
