import ModuleRules.Decimal.Double
import ModuleRules.Text.Basic

/-!
# Shortest decimals

The decimal of a double is the one with the fewest digits that reads back as
it, and of those the nearest; of two that are equally near it is the larger or
the even one, as is asked for. A decimal reads back if it lies between the
points half way to the neighbours, or on one of these points when the
significand is even.

Decimals of a given number of places are a grid. Grids are tried from the
coarsest on; if a grid has a point that reads back, then so does one of the
two next to the double.

`Double.text` writes it in positional notation whatever its size, with no point
after a whole number.
-/

namespace ModuleRules.Double

/-- What reads back as `significand * 2 ^ exponent`: four times the number and of the ends, in
units of a quarter of the last bit. -/
structure Interval where
  low : Nat
  value : Nat
  high : Nat
  closed : Bool

def interval (m : Nat) (q : Int) : Interval :=
  let low := if m = Nat.pow 2 52 ∧ q > minExponent then 4 * m - 1 else 4 * m - 2
  ⟨low, 4 * m, 4 * m + 2, m % 2 = 0⟩

/-- The unit `10 ^ p` of a grid in quarters of the last bit, as a quotient. -/
def gridUnit (q p : Int) : Nat × Nat :=
  (Nat.pow 10 p.toNat * Nat.pow 2 (2 - q).toNat, Nat.pow 10 (-p).toNat * Nat.pow 2 (q - 2).toNat)

/-- Whether `d` units of `num / den` lie in the interval. -/
def Interval.holds (i : Interval) (num den d : Nat) : Bool :=
  if i.closed then i.low * den ≤ d * num && d * num ≤ i.high * den
  else i.low * den < d * num && d * num < i.high * den

/-- Which of two decimals is taken that are equally near. -/
inductive Tie
  | larger
  | even
  deriving DecidableEq, Repr

/-- The nearer of the points `d` and `d + 1` when the double is `rest` above the one, in units of
which the grid has `unit` between its points. -/
def Tie.nearer (tie : Tie) (d rest unit : Nat) : Nat :=
  if 2 * rest < unit ∨ (2 * rest = unit ∧ tie = .even ∧ d % 2 = 0) then d else d + 1

/-- The point of a grid that reads back and is nearest to the double. -/
def onGrid? (tie : Tie) (i : Interval) (num den : Nat) : Option Nat :=
  let below := i.value * den / num
  match i.holds num den below, i.holds num den (below + 1) with
  | false, false => none
  | true, false => some below
  | false, true => some (below + 1)
  | true, true => some (tie.nearer below (i.value * den - below * num) num)

/-- The first grid from `10 ^ p` down that has such a point: the point in units and the power.
`fuel` bounds the number of grids. -/
def findGrid (tie : Tie) (i : Interval) (q : Int) : (fuel : Nat) → (p : Int) → Nat × Int
  | 0, p => (0, p)
  | fuel + 1, p =>
    let (num, den) := gridUnit q p
    match onGrid? tie i num den with
    | some d => if d = 0 then findGrid tie i q fuel (p - 1) else (d, p)
    | none => findGrid tie i q fuel (p - 1)

/-- The shortest decimal of `m * 2 ^ q`: its digits as a number and the power of ten of the last
one. -/
def shortest (tie : Tie) (m : Nat) (q : Int) : Nat × Int :=
  findGrid tie (interval m q) q 400 ((q + m.log2 + 1) * 30103 / 100000 + 2)

def positional (d : Nat) (p : Int) : Text :=
  let digits := Text.ofNat d
  match p with
  | .ofNat n => digits ++ List.replicate n '0'
  | .negSucc n =>
    let places := n + 1
    if places < digits.length then
      digits.take (digits.length - places) ++ '.' :: digits.drop (digits.length - places)
    else '0' :: '.' :: List.replicate (places - digits.length) '0' ++ digits

def text : Double → Text
  | nan => "NaN"
  | infinite negative => if negative then "-inf" else "inf"
  | finite negative m q =>
    let digits : Text := if m = 0 then ['0'] else
      let (d, p) := shortest .larger m q
      positional d p
    if negative then '-' :: digits else digits

end ModuleRules.Double
