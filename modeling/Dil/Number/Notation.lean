import Dil.Number.Decimal

namespace Dil

/-- The decisions of a format. `positional` says which exponents of the leading digit are written
without an exponent mark. -/
structure FloatStyle where
  tie : Decimal.Tie
  positional : Int → Bool
  plusSign : Bool
  nan : String
  infinity : String
  negInfinity : String

namespace FloatStyle

def zeros (n : Nat) : List Char := List.replicate n '0'

def positionalText (d : Decimal) : List Char :=
  let ds := Numeral.ofNat 10 d.digits
  if 0 ≤ d.exponent then ds ++ zeros d.exponent.toNat ++ ['.', '0']
  else
    let places := (-d.exponent).toNat
    if places < ds.length then ds.take (ds.length - places) ++ '.' :: ds.drop (ds.length - places)
    else '0' :: '.' :: zeros (places - ds.length) ++ ds

def exponentText (plusSign : Bool) (d : Decimal) : List Char :=
  let ds := Numeral.ofNat 10 d.digits
  let e := d.exponent + ds.length - 1
  let sign := if e < 0 then ['-'] else if plusSign then ['+'] else []
  let point := if ds.length = 1 then ds else ds.take 1 ++ '.' :: ds.drop 1
  point ++ 'e' :: sign ++ Numeral.ofNat 10 e.natAbs

def magnitudeText (style : FloatStyle) (p : Binary64.Parts) : List Char :=
  if p.mantissa = 0 then ['0', '.', '0']
  else
    let d := Decimal.shortest style.tie p.mantissa p.exponent
    let e := d.exponent + (Numeral.ofNat 10 d.digits).length - 1
    if style.positional e then positionalText d else exponentText style.plusSign d

def text (style : FloatStyle) (x : Float) : String :=
  if x.isNaN then style.nan
  else if x.isInf then (if x < 0 then style.negInfinity else style.infinity)
  else
    let p := Binary64.parts x
    let s := style.magnitudeText p
    String.ofList (if p.negative then '-' :: s else s)

def plain : FloatStyle := ⟨.away, fun _ => true, false, "NaN", "Infinity", "-Infinity"⟩

def json : FloatStyle :=
  ⟨.toEven, fun e => -5 ≤ e && e < 16, true, "null", "null", "null"⟩

def yaml : FloatStyle :=
  ⟨.toEven, fun e => -5 ≤ e && e < 16, false, ".nan", ".inf", "-.inf"⟩

def outline : FloatStyle :=
  ⟨.away, fun e => -4 ≤ e && e < 16, false, "NaN", "inf", "-inf"⟩

end FloatStyle

end Dil
