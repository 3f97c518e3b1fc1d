import Dil.Proofs.Text.Numeral
import Dil.Render.Json

/-!
JSON documents and what they stand for. The reader takes all of JSON, with blanks, escapes and
numbers as other writers write them; what is written of a string or of an integer is read back.
-/

namespace Dil

namespace Numeral

variable {base n : Nat}

theorem digitsFromLast_first (high : 2 ≤ base) {count : Nat} (enough : n < count) (positive : 0 < n) :
    (digitsFromLast base count n).getLast? ≠ some 0 := by
  induction count generalizing n with
  | zero => omega
  | succ count ih =>
      rw [digitsFromLast]
      split
      · simp only [List.getLast?_singleton, ne_eq, Option.some.injEq]
        omega
      · rename_i large
        have smaller : n / base < n := Nat.div_lt_self positive high
        have above : 0 < n / base := Nat.div_pos (by omega) (by omega)
        have rest := ih (n := n / base) (by omega) above
        obtain ⟨d, ds, later⟩ : ∃ d ds, digitsFromLast base count (n / base) = d :: ds := by
          obtain ⟨k, rfl⟩ := Nat.exists_eq_succ_of_ne_zero (by omega : count ≠ 0)
          rw [digitsFromLast]
          split <;> exact ⟨_, _, rfl⟩
        rw [later] at rest ⊢
        rwa [List.getLast?_cons_cons]

theorem ofNat_cons (n : Nat) : ∃ d ds, ofNat 10 n = d :: ds ∧ d.isDigit = true := by
  cases text : ofNat 10 n with
  | nil => exact absurd text (ofNat_ne_nil 10 n)
  | cons d ds => exact ⟨d, ds, rfl, isDigit_of_decimal (n := n) (text ▸ List.mem_cons_self)⟩

theorem ofNat_head (first : (ofNat 10 n).head? = some '0') : ofNat 10 n = ['0'] := by
  obtain rfl | positive := Nat.eq_zero_or_pos n
  · rfl
  · rw [ofNat, List.head?_reverse, List.getLast?_map] at first
    obtain ⟨d, last, zero⟩ := Option.map_eq_some_iff.mp first
    have digit : d < 10 := digitsFromLast_lt (by omega) _ n d (List.mem_of_getLast? last)
    have other : d ≠ 0 := by
      rintro rfl
      exact digitsFromLast_first (by omega) (Nat.lt_succ_self n) positive last
    interval_cases d <;> simp_all [digitChar]

end Numeral

/-- What a document stands for. A number is a whole number times a power of ten. -/
inductive Json where
  | null
  | bool (b : Bool)
  | number (mantissa exponent : Int)
  | string (s : String)
  | array (items : List Json)
  | object (members : List (String × Json))

inductive Json.Distinct : Json → Prop where
  | null : Distinct .null
  | bool {b : Bool} : Distinct (.bool b)
  | number {mantissa exponent : Int} : Distinct (.number mantissa exponent)
  | string {s : String} : Distinct (.string s)
  | array {items : List Json} (each : ∀ j ∈ items, j.Distinct) : Distinct (.array items)
  | object {members : List (String × Json)} (names : (members.map (·.1)).Nodup)
      (each : ∀ m ∈ members, m.2.Distinct) : Distinct (.object members)

namespace JsonText

def letter? : Char → Option Char
  | '"' => some '"'
  | '\\' => some '\\'
  | '/' => some '/'
  | 'b' => some '\x08'
  | 'f' => some '\x0c'
  | 'n' => some '\n'
  | 'r' => some '\r'
  | 't' => some '\t'
  | _ => none

/-- A piece of a string: a character, or a unit of 16 bits, by its four hexadecimal digits. -/
inductive Piece where
  | char (c : Char)
  | unit (n : Nat)

def pieces : List Char → Option (List Piece × List Char)
  | [] => none
  | '"' :: cs => some ([], cs)
  | '\\' :: 'u' :: a :: b :: c :: d :: cs =>
    (Numeral.natural? 16 [a, b, c, d]).bind fun n =>
      (pieces cs).map fun (ps, rest) => (.unit n :: ps, rest)
  | '\\' :: l :: cs =>
    (letter? l).bind fun c => (pieces cs).map fun (ps, rest) => (.char c :: ps, rest)
  | c :: cs =>
    if c.toNat < 0x20 then none else (pieces cs).map fun (ps, rest) => (.char c :: ps, rest)

def surrogates? (high low : Nat) : Option Char :=
  if 0xD800 ≤ high ∧ high < 0xDC00 ∧ 0xDC00 ≤ low ∧ low < 0xE000 then
    some (Char.ofNat (0x10000 + (high - 0xD800) * 0x400 + (low - 0xDC00)))
  else none

def joined : List Piece → Option (List Char)
  | [] => some []
  | .char c :: ps => (joined ps).map (c :: ·)
  | .unit n :: ps =>
    if n.isValidChar then (joined ps).map (Char.ofNat n :: ·)
    else
      match ps with
      | .unit m :: ps => (surrogates? n m).bind fun c => (joined ps).map (c :: ·)
      | _ => none

def string (cs : List Char) : Option (String × List Char) :=
  (pieces cs).bind fun (ps, rest) => (joined ps).map fun w => (String.ofList w, rest)

def digits (cs : List Char) : List Char × List Char :=
  (cs.takeWhile Char.isDigit, cs.dropWhile Char.isDigit)

def places : List Char → Option (List Char × List Char)
  | '.' :: cs => if (digits cs).1 = [] then none else some (digits cs)
  | cs => some ([], cs)

def sign : List Char → Int × List Char
  | '+' :: cs => (1, cs)
  | '-' :: cs => (-1, cs)
  | cs => (1, cs)

def power (cs : List Char) : Option (Int × List Char) :=
  let (s, cs) := sign cs
  (Numeral.natural? 10 (digits cs).1).map fun n => (s * n, (digits cs).2)

def exponent : List Char → Option (Int × List Char)
  | 'e' :: cs => power cs
  | 'E' :: cs => power cs
  | cs => some (0, cs)

def magnitude (cs : List Char) : Option ((Nat × Int) × List Char) :=
  let (whole, cs) := digits cs
  if whole = [] ∨ whole.head? = some '0' ∧ whole ≠ ['0'] then none
  else
    (places cs).bind fun (ds, cs) =>
      (exponent cs).bind fun (e, cs) =>
        (Numeral.natural? 10 (whole ++ ds)).map fun n => ((n, e - ds.length), cs)

def number : List Char → Option (Json × List Char)
  | '-' :: cs => (magnitude cs).map fun ((n, e), cs) => (.number (-n) e, cs)
  | cs => (magnitude cs).map fun ((n, e), cs) => (.number n e, cs)

def isBlank (c : Char) : Bool := c == ' ' || c == '\t' || c == '\n' || c == '\r'

def skip (cs : List Char) : List Char := cs.dropWhile isBlank

def named (cs : List Char) : Option (String × List Char) :=
  match skip cs with
  | '"' :: cs =>
    (string cs).bind fun (name, cs) =>
      match skip cs with
      | ':' :: cs => some (name, cs)
      | _ => none
  | _ => none

mutual

def value : Nat → List Char → Option (Json × List Char)
  | 0, _ => none
  | n + 1, cs =>
    match skip cs with
    | 'n' :: 'u' :: 'l' :: 'l' :: cs => some (.null, cs)
    | 't' :: 'r' :: 'u' :: 'e' :: cs => some (.bool true, cs)
    | 'f' :: 'a' :: 'l' :: 's' :: 'e' :: cs => some (.bool false, cs)
    | '"' :: cs => (string cs).map fun (s, cs) => (.string s, cs)
    | '[' :: cs =>
      match skip cs with
      | ']' :: cs => some (.array [], cs)
      | cs => (items n cs).map fun (js, cs) => (.array js, cs)
    | '{' :: cs =>
      match skip cs with
      | '}' :: cs => some (.object [], cs)
      | cs => (members n cs).map fun (ms, cs) => (.object ms, cs)
    | cs => number cs

def items : Nat → List Char → Option (List Json × List Char)
  | 0, _ => none
  | n + 1, cs =>
    (value n cs).bind fun (j, cs) =>
      match skip cs with
      | ']' :: cs => some ([j], cs)
      | ',' :: cs => (items n cs).map fun (js, cs) => (j :: js, cs)
      | _ => none

def members : Nat → List Char → Option (List (String × Json) × List Char)
  | 0, _ => none
  | n + 1, cs =>
    (named cs).bind fun (name, cs) =>
      (value n cs).bind fun (j, cs) =>
        match skip cs with
        | '}' :: cs => some ([(name, j)], cs)
        | ',' :: cs => (members n cs).map fun (ms, cs) => ((name, j) :: ms, cs)
        | _ => none

end

/-- What a document stands for. No value needs more than two steps for each of its characters. -/
def decode (document : String) : Option Json :=
  match value (2 * document.length + 1) document.toList with
  | some (j, rest) => if skip rest = [] then some j else none
  | none => none

def Piece.Is (p : Piece) (c : Char) : Prop := ∀ ps, joined (p :: ps) = (joined ps).map (c :: ·)

theorem char_is (c : Char) : (Piece.char c).Is c := fun _ => rfl

theorem unit_is (c : Char) : (Piece.unit c.toNat).Is c := by
  intro ps
  have valid : c.toNat.isValidChar := c.valid
  rw [joined.eq_def]
  simp only [if_pos valid, Char.ofNat_toNat]

theorem code_of_control {c : Char} (control : c.toNat < 0x20) :
    Numeral.natural? 16
      ['0', '0', Numeral.digitChar (c.toNat / 16), Numeral.digitChar (c.toNat % 16)]
      = some c.toNat := by
  have high : c.toNat / 16 < 16 := by omega
  have low : c.toNat % 16 < 16 := by omega
  have digits := Numeral.readFrom_digits (Nat.le_refl 16) [0, 0, c.toNat / 16, c.toNat % 16]
    (by simp [high, low]) 0
  refine digits.trans (congrArg some ?_)
  simp only [List.foldl_cons, List.foldl_nil]
  omega

theorem pieces_visible {c : Char} (quote : c ≠ '"') (backslash : c ≠ '\\') (visible : ¬ c.toNat < 0x20)
    (t : List Char) : pieces (c :: t) = (pieces t).map fun (ps, rest) => (.char c :: ps, rest) := by
  rw [pieces, if_neg visible]
  · exact quote
  · exact fun _ _ _ _ _ same => absurd same backslash
  · exact fun _ _ same => absurd same backslash

theorem pieces_escapeChar (c : Char) (t : List Char) :
    ∃ p : Piece, p.Is c ∧
      pieces (escapeChar c ++ t) = (pieces t).map fun (ps, rest) => (p :: ps, rest) := by
  unfold escapeChar
  split
  · exact ⟨_, char_is '"', by simp [pieces, letter?]⟩
  · exact ⟨_, char_is '\\', by simp [pieces, letter?]⟩
  · exact ⟨_, char_is '\x08', by simp [pieces, letter?]⟩
  · exact ⟨_, char_is '\x0c', by simp [pieces, letter?]⟩
  · exact ⟨_, char_is '\n', by simp [pieces, letter?]⟩
  · exact ⟨_, char_is '\r', by simp [pieces, letter?]⟩
  · exact ⟨_, char_is '\t', by simp [pieces, letter?]⟩
  · rename_i quote backslash _ _ _ _ _
    split
    · rename_i control
      exact ⟨_, unit_is c, by simp [pieces, code_of_control control]⟩
    · rename_i visible
      exact ⟨_, char_is c, pieces_visible quote backslash visible t⟩

theorem string_escaped (w rest : List Char) :
    string (w.flatMap escapeChar ++ '"' :: rest) = some (String.ofList w, rest) := by
  have read : ∃ ps, pieces (w.flatMap escapeChar ++ '"' :: rest) = some (ps, rest) ∧
      joined ps = some w := by
    induction w with
    | nil => exact ⟨[], by simp [pieces], rfl⟩
    | cons c cs ih =>
        obtain ⟨ps, read, whole⟩ := ih
        obtain ⟨p, piece, first⟩ := pieces_escapeChar c (cs.flatMap escapeChar ++ '"' :: rest)
        refine ⟨p :: ps, ?_, ?_⟩
        · rw [List.flatMap_cons, List.append_assoc, first, read, Option.map_some]
        · rw [piece, whole, Option.map_some]
  obtain ⟨ps, read, whole⟩ := read
  simp [string, read, whole]

def Ends (rest : List Char) : Prop :=
  rest = [] ∨ ∃ c cs, rest = c :: cs ∧ (c = ',' ∨ c = ']' ∨ c = '}')

theorem digits_append {ds rest : List Char} (all : ∀ c ∈ ds, c.isDigit = true) (ends : Ends rest) :
    digits (ds ++ rest) = (ds, rest) := by
  have stop : rest.takeWhile Char.isDigit = [] ∧ rest.dropWhile Char.isDigit = rest := by
    obtain rfl | ⟨c, cs, rfl, rfl | rfl | rfl⟩ := ends <;> exact ⟨rfl, rfl⟩
  rw [digits, List.takeWhile_append_of_pos all, List.dropWhile_append_of_pos all, stop.1, stop.2,
    List.append_nil]

theorem places_ends {rest : List Char} (ends : Ends rest) : places rest = some ([], rest) := by
  obtain rfl | ⟨c, cs, rfl, rfl | rfl | rfl⟩ := ends <;> rfl

theorem exponent_ends {rest : List Char} (ends : Ends rest) : exponent rest = some (0, rest) := by
  obtain rfl | ⟨c, cs, rfl, rfl | rfl | rfl⟩ := ends <;> rfl

theorem magnitude_ofNat (n : Nat) {rest : List Char} (ends : Ends rest) :
    magnitude (Numeral.ofNat 10 n ++ rest) = some ((n, 0), rest) := by
  have all : ∀ c ∈ Numeral.ofNat 10 n, c.isDigit = true := fun _ => Numeral.isDigit_of_decimal
  have first : ¬(Numeral.ofNat 10 n = [] ∨
      (Numeral.ofNat 10 n).head? = some '0' ∧ Numeral.ofNat 10 n ≠ ['0']) := by
    rintro (empty | ⟨zero, longer⟩)
    · exact Numeral.ofNat_ne_nil 10 n empty
    · exact longer (Numeral.ofNat_head zero)
  have value : Numeral.natural? 10 (Numeral.ofNat 10 n) = some n :=
    Numeral.natural_ofNat (by omega) (by omega) n
  rw [magnitude, digits_append all ends]
  simp only
  rw [if_neg first, places_ends ends]
  simp [exponent_ends ends, value]

theorem number_ofInt (n : Int) {rest : List Char} (ends : Ends rest) :
    number (Numeral.ofInt n ++ rest) = some (.number n 0, rest) := by
  have value := magnitude_ofNat n.natAbs ends
  by_cases negative : n < 0
  · have opposite : -(n.natAbs : Int) = n := by omega
    rw [Numeral.ofInt, if_pos negative, List.cons_append, number, value, Option.map_some]
    exact congrArg (fun m => some (Json.number m 0, rest)) opposite
  · have same : (n.natAbs : Int) = n := by omega
    rw [Numeral.ofInt, if_neg negative, number, value, Option.map_some]
    · exact congrArg (fun m => some (Json.number m 0, rest)) same
    · intro cs signed
      obtain ⟨d, ds, text, digit⟩ := Numeral.ofNat_cons n.natAbs
      rw [text] at signed
      rw [(List.cons.inj signed).1] at digit
      cases digit

end JsonText

end Dil
