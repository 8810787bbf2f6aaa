import ModuleRules.Decimal.Shortest

/-!
# Decimals with exponents

Positional notation gets long far away from one. Here a double from `10 ^ -5`
up to but not including `10 ^ 16` is written in it, with a point even when it
is whole, and any other as one digit before the point, the others behind it
and a signed exponent.
-/

namespace ModuleRules.Double

def isPositional (e : Int) : Bool := -5 ≤ e && e ≤ 15

def exponentText : Int → Text
  | .ofNat n => '+' :: Text.ofNat n
  | .negSucc n => '-' :: Text.ofNat (n + 1)

/-- One digit before the point, and the exponent `e` of it. -/
def scientific (digits : Text) (e : Int) : Text :=
  let mantissa := match digits with
    | [d] => [d]
    | d :: ds => d :: '.' :: ds
    | [] => []
  mantissa ++ 'e' :: exponentText e

def scaledText (d : Nat) (p : Int) : Text :=
  let digits := Text.ofNat d
  let e := p + digits.length - 1
  if !isPositional e then scientific digits e
  else if p < 0 then positional d p
  else positional d p ++ ".0"

def shortText : Double → Text
  | nan => "NaN"
  | infinite negative => if negative then "-inf" else "inf"
  | finite negative m q =>
    let digits : Text := if m = 0 then "0.0" else
      let (d, p) := shortest .even m q
      scaledText d p
    if negative then '-' :: digits else digits

end ModuleRules.Double
