import Dil.Number.Binary64
import Dil.Text.Numeral

/-! Decimal numbers: reading their text, and the fewest digits that identify a float. -/

namespace Dil

structure Decimal where
  digits : Nat
  exponent : Int
  deriving DecidableEq, Repr

namespace Decimal

/-- The nearest float. A number below `10 ^ -400` is nearest to zero, and one of at least
`10 ^ 400` to infinity; they need no large powers. -/
def toFloat (d : Decimal) : Float :=
  if d.digits = 0 ∨ d.exponent + d.digits.log2 + 1 < -400 then 0.0
  else if 400 < d.exponent then 1.0 / 0.0
  else Float.ofScientific d.digits (d.exponent < 0) d.exponent.natAbs

def exponentOf? : List Char → Option Int
  | [] => some 0
  | e :: cs => if e = 'e' ∨ e = 'E' then Numeral.integer? cs else none

def ofText? (s : List Char) : Option Decimal :=
  let whole := s.takeWhile Char.isDigit
  let afterWhole := s.dropWhile Char.isDigit
  let (part, rest) :=
    match afterWhole with
    | '.' :: cs => (cs.takeWhile Char.isDigit, cs.dropWhile Char.isDigit)
    | cs => ([], cs)
  (Numeral.natural? 10 (whole ++ part)).bind fun n =>
    (exponentOf? rest).map fun e => ⟨n, e - part.length⟩

inductive Tie where
  | toEven
  | away

def compareScaled (a : Nat) (i : Int) (n : Nat) (j : Int) : Ordering :=
  compare (a * Nat.pow 10 i.toNat * Nat.pow 2 (-j).toNat)
    (n * Nat.pow 2 j.toNat * Nat.pow 10 (-i).toNat)

/-- Whether `mantissa * 2 ^ exponent` is the float nearest to this decimal. The numbers that round
to a float reach half way to its neighbours, and the ends belong to a float with an even mantissa.
Below a power of two the neighbour is at half the distance. -/
def readsBack (d : Decimal) (mantissa : Nat) (exponent : Int) : Bool :=
  let narrow := mantissa = Binary64.exponentUnit && -1074 < exponent
  let low := compareScaled d.digits d.exponent (4 * mantissa - if narrow then 1 else 2) (exponent - 2)
  let high := compareScaled d.digits d.exponent (4 * mantissa + 2) (exponent - 2)
  let closed := mantissa % 2 == 0
  (low == .gt || (closed && low == .eq)) && (high == .lt || (closed && high == .eq))

def trimZeros : Nat → Decimal → Decimal
  | 0, d => d
  | count + 1, d => if d.digits % 10 = 0 then trimZeros count ⟨d.digits / 10, d.exponent + 1⟩ else d

/-- The least power of ten above `mantissa * 2 ^ exponent`, from an estimate by its binary places
that is at most three too low. -/
def powerAbove (mantissa : Nat) (exponent : Int) : Int :=
  let low := ((mantissa.log2 : Int) + exponent) * 30103 / 100000 + 1
  let below (k : Int) : Bool := compareScaled 1 k mantissa exponent == .gt
  if below low then low else if below (low + 1) then low + 1 else low + 2

/-- The better of the two multiples of `10 ^ place` next to the value, if one reads back. -/
def onGrid? (tie : Tie) (mantissa : Nat) (exponent place : Int) : Option Decimal :=
  let low : Nat :=
    mantissa * Nat.pow 2 exponent.toNat * Nat.pow 10 (-place).toNat
      / (Nat.pow 2 (-exponent).toNat * Nat.pow 10 place.toNat)
  let a : Decimal := ⟨low, place⟩
  let b : Decimal := ⟨low + 1, place⟩
  match a.readsBack mantissa exponent, b.readsBack mantissa exponent with
  | true, true =>
    match compareScaled (2 * low + 1) place (2 * mantissa) exponent, tie with
    | .gt, _ => some a
    | .lt, _ => some b
    | .eq, .away => some b
    | .eq, .toEven => some (if low % 2 = 0 then a else b)
  | true, false => some a
  | false, true => some b
  | false, false => none

/-- The shortest decimal that reads back as `mantissa * 2 ^ exponent`, and the nearest of those.
Seventeen digits are always enough. -/
def shortest (tie : Tie) (mantissa : Nat) (exponent : Int) : Decimal :=
  let top := powerAbove mantissa exponent
  match (List.range 17).findSome? fun n : Nat => onGrid? tie mantissa exponent (top - (n + 1 : Nat)) with
  | some d => trimZeros 20 d
  | none => ⟨mantissa * Nat.pow 2 exponent.toNat * Nat.pow 5 (-exponent).toNat, min exponent 0⟩

end Decimal

end Dil
