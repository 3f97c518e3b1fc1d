namespace Dil.Numeral

def digit? (c : Char) : Option Nat :=
  if '0' ≤ c ∧ c ≤ '9' then some (c.toNat - '0'.toNat)
  else if 'a' ≤ c ∧ c ≤ 'f' then some (c.toNat - 'a'.toNat + 10)
  else if 'A' ≤ c ∧ c ≤ 'F' then some (c.toNat - 'A'.toNat + 10)
  else none

def digitIn? (base : Nat) (c : Char) : Option Nat := (digit? c).filter (· < base)

def readFrom (base : Nat) : Nat → List Char → Option Nat
  | n, [] => some n
  | n, c :: cs => (digitIn? base c).bind fun d => readFrom base (n * base + d) cs

def natural? (base : Nat) : List Char → Option Nat
  | [] => none
  | c :: cs => readFrom base 0 (c :: cs)

def integer? : List Char → Option Int
  | '+' :: cs => (natural? 10 cs).map Int.ofNat
  | '-' :: cs => (natural? 10 cs).map fun n => -Int.ofNat n
  | cs => (natural? 10 cs).map Int.ofNat

def digitChar (d : Nat) : Char :=
  if d < 10 then Char.ofNat ('0'.toNat + d) else Char.ofNat ('a'.toNat + (d - 10))

def digitsFromLast (base : Nat) : Nat → Nat → List Nat
  | 0, _ => []
  | count + 1, n =>
    if n < base then [n] else n % base :: digitsFromLast base count (n / base)

/-- A number has no more digits than its own value plus one. -/
def ofNat (base n : Nat) : List Char :=
  ((digitsFromLast base (n + 1) n).map digitChar).reverse

def ofInt (n : Int) : List Char :=
  if n < 0 then '-' :: ofNat 10 n.natAbs else ofNat 10 n.natAbs

end Dil.Numeral

namespace Dil

def int64? (n : Int) : Option Int64 :=
  if Int64.minValue.toInt ≤ n ∧ n ≤ Int64.maxValue.toInt then some (Int64.ofInt n) else none

def natText (n : Nat) : String := String.ofList (Numeral.ofNat 10 n)

def int64Text (n : Int64) : String := String.ofList (Numeral.ofInt n.toInt)

end Dil
