/-!
# Double precision

The numbers of double precision, and the one nearest to a decimal. Everything
is exact arithmetic on natural numbers: a decimal is a quotient, the exponent
is chosen so that the significand has 53 bits (fewer below the smallest normal
number), and the quotient is rounded to the nearest significand, ties to the
even one.
-/

namespace ModuleRules

inductive Double
  | nan
  | infinite (negative : Bool)
  /-- The number `significand * 2 ^ exponent`, less than zero (or a negative zero) if so marked. -/
  | finite (negative : Bool) (significand : Nat) (exponent : Int)
  deriving DecidableEq, Repr

namespace Double

def neg : Double → Double
  | nan => nan
  | infinite negative => infinite (!negative)
  | finite negative m q => finite (!negative) m q

/-- The natural number nearest to `num / den`, ties to the even one. -/
def nearest (num den : Nat) : Nat :=
  let q := num / den
  let twice := 2 * (num % den)
  if twice > den ∨ (twice = den ∧ q % 2 = 1) then q + 1 else q

def minExponent : Int := -1074

def maxExponent : Int := 971

/-- The quotient `num / den` divided by `2 ^ q`, as a quotient. -/
def scaled (num den : Nat) (q : Int) : Nat × Nat :=
  (num * Nat.pow 2 (-q).toNat, den * Nat.pow 2 q.toNat)

/-- The exponent at which `num / den` has a significand of at most 53 bits, and of no fewer
unless that is the smallest exponent. -/
def exponentOf (num den : Nat) : Int :=
  let q : Int := max (num.log2 - den.log2 - 53) minExponent
  let (n, d) := scaled num den q
  if n / d < Nat.pow 2 53 then q else q + 1

/-- The double nearest to a positive quotient. -/
def ofQuotient (num den : Nat) : Double :=
  let q := exponentOf num den
  let (n, d) := scaled num den q
  let m := nearest n d
  let (m, q) := if m = Nat.pow 2 53 then (Nat.pow 2 52, q + 1) else (m, q)
  if q > maxExponent then infinite false else finite false m q

def zero : Double := finite false 0 minExponent

def ofRatio (num den : Nat) : Double := if num = 0 then zero else ofQuotient num den

/-- The distance of a finite number from zero as a quotient. -/
def ratio : Double → Nat × Nat
  | finite _ m q => (m * Nat.pow 2 q.toNat, Nat.pow 2 (-q).toNat)
  | _ => (0, 1)

/-- The product of finite numbers that are not negative. -/
def mul (x y : Double) : Double :=
  let (a, b) := x.ratio
  let (c, d) := y.ratio
  ofRatio (a * c) (b * d)

/-- The quotient of finite numbers that are not negative; `y` is not zero. -/
def div (x y : Double) : Double :=
  let (a, b) := x.ratio
  let (c, d) := y.ratio
  ofRatio (a * d) (b * c)

/-- Whether all 53 bits of the significand are there: not for zero and what is next to it. -/
def isNormal : Double → Bool
  | finite _ m _ => Nat.pow 2 52 ≤ m
  | _ => false

/-- The double nearest to `digits * 10 ^ exponent`. Exponents that lead out of the range of
doubles whatever the digits are not computed with. -/
def ofDecimal (digits : Nat) (exponent : Int) : Double :=
  let size : Int := digits.log2 / 3 + 1
  if digits = 0 ∨ exponent + size < -400 then zero
  else if exponent > 400 then infinite false
  else ofQuotient (digits * Nat.pow 10 exponent.toNat) (Nat.pow 10 (-exponent).toNat)

end Double

end ModuleRules
