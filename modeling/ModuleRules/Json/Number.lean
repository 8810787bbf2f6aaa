import ModuleRules.Decimal.Double
import ModuleRules.Text.Basic

/-!
# JSON numbers

A number is kept as written. It stands for an integer if neither a point nor
an exponent is written and 64 bits hold it, and for a double otherwise. The
double is not always the nearest one: digits that do not fit into a
significand of 64 bits are dropped, those before the point still raise the
exponent, and the significand and the power of ten are rounded before and
after one is multiplied with the other. What leads beyond the doubles stands
for nothing.
-/

namespace ModuleRules.Json

/-- The digits before and after the point, and the exponent if one is written. -/
structure Number where
  negative : Bool := false
  whole : Text
  fraction : Text := []
  exponent : Option Int := none
  deriving DecidableEq, Repr

namespace Number

inductive Value
  | integer (n : Int)
  | double (x : Double)
  deriving DecidableEq, Repr

def maxSignificand : Nat := Nat.pow 2 64 - 1

def push (s : Nat) (d : Char) : Nat := s * 10 + (d.toNat - '0'.toNat)

/-- The significand of the digits before the point and how many of them it lacks. -/
def wholeDigits (s : Nat) : Text → Nat × Nat
  | [] => (s, 0)
  | d :: r =>
    if push s d ≤ maxSignificand then wholeDigits (push s d) r else (s, (d :: r).length)

/-- The significand with the digits behind the point and how many of them it holds. -/
def fractionDigits (s : Nat) : Text → Nat × Nat
  | [] => (s, 0)
  | d :: r =>
    if push s d ≤ maxSignificand then
      let (s', n) := fractionDigits (push s d) r
      (s', n + 1)
    else (s, 0)

/-- The largest exponent of a power of ten that is a double. -/
def maxPower : Nat := 308

def power (e : Nat) : Double := .ofRatio (Nat.pow 10 e) 1

/-- The significand times a power of ten. One that is too small for a double is divided by in two
steps. -/
def scaled? (s : Nat) (exponent : Int) : Option Double :=
  let x := Double.ofRatio s 1
  match exponent with
  | .ofNat e =>
    if s = 0 then some .zero
    else if e > maxPower then none
    else match x.mul (power e) with
      | .infinite _ => none
      | y => some y
  | .negSucc e =>
    if e < maxPower then some (x.div (power (e + 1)))
    else if e < 2 * maxPower then
      some ((x.div (power maxPower)).div (power (e + 1 - maxPower)))
    else some .zero

/-- What a number stands for, unless it lies beyond the doubles. -/
def value? (n : Number) : Option Value :=
  let (s, raised) := wholeDigits 0 n.whole
  let (t, lowered) := fractionDigits s n.fraction
  if n.fraction = [] ∧ n.exponent = none ∧ raised = 0 ∧
      (n.negative → s ≠ 0 ∧ s ≤ Nat.pow 2 63) then
    some (.integer (if n.negative then -s else s))
  else
    (scaled? t (raised - lowered + n.exponent.getD 0)).map fun x =>
      .double (if n.negative then x.neg else x)

def overflows (n : Number) : Bool := n.value?.isNone

end Number

end ModuleRules.Json
