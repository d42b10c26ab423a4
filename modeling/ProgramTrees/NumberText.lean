import ProgramTrees.BinaryArithmetic
import ProgramTrees.Decimal

namespace ProgramTrees

/-- Digits with a point after the first `point` of them, zeros filling the places that have no
digit; there is at least one digit on each side of the point. -/
def positional (digits : List Char) (point : Int) : String :=
  if point ≤ 0 then
    String.ofList ("0.".toList ++ List.replicate (-point).toNat '0' ++ digits)
  else
    let whole := digits.take point.toNat
    let zeros := List.replicate (point.toNat - digits.length) '0'
    let fraction := digits.drop point.toNat
    String.ofList (whole ++ zeros ++ '.' :: if fraction.isEmpty then ['0'] else fraction)

/-- How a format of number text writes a number that is not positional. -/
structure ScientificStyle where
  /-- The text of a mantissa with no digit after the first. -/
  lone : Char → List Char
  exponent : Int → String

/-- One digit, the point and the other digits, then the exponent. -/
def ScientificStyle.text (style : ScientificStyle) (digits : List Char) (exponent : Int) : String :=
  let mantissa := match digits with
    | [] => []
    | [digit] => style.lone digit
    | digit :: rest => digit :: '.' :: rest
  String.ofList mantissa ++ style.exponent exponent

/-- Printed values always have a digit after the point and a bare exponent after `E`. -/
def valueStyle : ScientificStyle where
  lone digit := [digit, '.', '0']
  exponent e := "E" ++ toString e

/-- Literals drop an empty fraction; the exponent after `e` has a sign and two digits or more. -/
def literalStyle : ScientificStyle where
  lone digit := [digit]
  exponent e :=
    let digits := Nat.toDigits 10 e.natAbs
    let zeros := List.replicate (2 - digits.length) '0'
    String.ofList ('e' :: (if e < 0 then '-' else '+') :: zeros ++ digits)

def withSign (negative : Bool) (text : String) : String :=
  if negative then "-" ++ text else text

/-- A magnitude that printed values write with a plain point: zero, or from the single nearest to a
thousandth up to ten million. -/
def isPlainMagnitude (m : Nat) (q : Int) : Bool :=
  let magnitude := Ratio.scale 2 m q
  m == 0 || (!magnitude.lt (.scale 2 8589935 (-33)) && magnitude.lt ⟨10000000, 1⟩)

def Binary.valueText : Single → String
  | .nan => "NaN"
  | .infinite negative => withSign negative "Infinity"
  | .finite negative m q _ =>
    let d := Decimal.shortest .single m q
    withSign negative <|
      if m = 0 then "0.0"
      else if isPlainMagnitude m q then positional d.digits d.point
      else valueStyle.text d.digits (d.point - 1)

/-- The text of a finite literal: positional when the leading digit stands at a place from
`10 ^ -4` up to `10 ^ 15`. -/
def finiteLiteral (negative : Bool) (m : Nat) (q : Int) : String :=
  let d := Decimal.shortest .double m q
  withSign negative <|
    if m = 0 then "0.0"
    else if -4 < d.point ∧ d.point ≤ 16 then positional d.digits d.point
    else literalStyle.text d.digits (d.point - 1)

def Binary.literalText : Double → String
  | .nan => "nan"
  | .infinite negative => withSign negative "inf"
  | .finite negative m q _ => finiteLiteral negative m q

end ProgramTrees
