/-!
Binary floats of 64 bits as exact numbers: their parts, their order, the rounding of integers,
and the exact remainder.
-/

namespace Dil.Binary64

def exponentUnit : Nat := 0x10000000000000

def signUnit : Nat := 0x8000000000000000

/-- A finite value: the mantissa times a power of two, with a sign. -/
structure Parts where
  negative : Bool
  mantissa : Nat
  exponent : Int
  deriving DecidableEq, Repr

def parts (x : Float) : Parts :=
  let bits := x.toBits.toNat
  let field : Nat := bits / exponentUnit % 0x800
  let fraction := bits % exponentUnit
  if field = 0 then ⟨signUnit ≤ bits, fraction, -1074⟩
  else ⟨signUnit ≤ bits, exponentUnit + fraction, (field : Int) - 1075⟩

def patternOf (mantissa : Nat) (exponent : Int) : Nat :=
  if mantissa = 0 then 0
  else
    let shift := min (52 - mantissa.log2) (exponent + 1074).toNat
    let m := mantissa * Nat.pow 2 shift
    if m < exponentUnit then m else (exponent - shift + 1074).toNat * exponentUnit + m

def ofParts (p : Parts) : Float :=
  Float.ofBits
    (UInt64.ofNat ((if p.negative then signUnit else 0) + patternOf p.mantissa p.exponent))

/-- The magnitude pattern of infinity; every greater one is not a number. -/
def infinityPattern : Nat := 0x7FF * exponentUnit

/-- Numbers are ordered as their magnitude patterns, read with the sign. What is not a number has
no place in the order. -/
def orderKey? (x : Float) : Option Int :=
  let bits := x.toBits.toNat
  let magnitude := bits % signUnit
  if infinityPattern < magnitude then none
  else some (if signUnit ≤ bits then -(magnitude : Int) else magnitude)

def isFinite (x : Float) : Bool := x.toBits.toNat % signUnit < infinityPattern

/-- A quotient by a power of two, to the nearest number and from the middle to the even one. -/
def roundedShift (n shift : Nat) : Nat :=
  let divisor := Nat.pow 2 shift
  let q := n / divisor
  let r := 2 * (n % divisor)
  if r < divisor then q else if divisor < r then q + 1 else q + q % 2

/-- The pattern of the float nearest to a number. When rounding carries into a new binary place,
the sum carries into the exponent field. -/
def patternOfNat (n : Nat) : Nat :=
  if n = 0 then 0
  else
    let place := n.log2
    let m := if place ≤ 52 then n * Nat.pow 2 (52 - place) else roundedShift n (place - 52)
    (place + 1022) * exponentUnit + m

def ofInt (n : Int) : Float :=
  Float.ofBits (UInt64.ofNat ((if n < 0 then signUnit else 0) + patternOfNat n.natAbs))

def toInt? (x : Float) : Option Int :=
  if isFinite x then
    let p := parts x
    let signed (n : Nat) : Int := if p.negative then -(n : Int) else n
    let divisor := Nat.pow 2 (-p.exponent).toNat
    if p.mantissa % divisor = 0 then
      some (signed (p.mantissa / divisor * Nat.pow 2 p.exponent.toNat))
    else none
  else none

/-- The exact remainder of a division that truncates, with the sign of the dividend. The remainder
of an infinity or by zero is not a number, and that by an infinity is the dividend. -/
def rem (x y : Float) : Float :=
  if x.isNaN || y.isNaN || x.isInf || y == 0 then 0.0 / 0.0
  else if y.isInf then x
  else
    let p := parts x
    let q := parts y
    let e := min p.exponent q.exponent
    let m := p.mantissa * Nat.pow 2 (p.exponent - e).toNat
    let n := q.mantissa * Nat.pow 2 (q.exponent - e).toNat
    ofParts ⟨p.negative, m % n, e⟩

end Dil.Binary64
