import ModuleRules.Toml.Word

/-!
# Moments

A moment is a date, a time of day, or both, and then an offset may follow. In
a document it stands for itself, or it is the string in a table that stands
for it.
-/

namespace ModuleRules.Toml

/-- A number of `n` digits between two bounds. -/
def fixed? (n low high : Nat) (t : Text) : Option (Nat × Text) :=
  let ds := t.take n
  let v := valueOf 10 ds
  if ds.length = n ∧ ds.all isDigit ∧ low ≤ v ∧ v ≤ high then some (v, t.drop n) else none

def isLeapYear (y : Nat) : Bool := y % 4 = 0 && (y % 100 ≠ 0 || y % 400 = 0)

def daysIn (year month : Nat) : Nat :=
  if month = 2 then (if isLeapYear year then 29 else 28)
  else if month = 4 ∨ month = 6 ∨ month = 9 ∨ month = 11 then 30
  else 31

def date? (t : Text) : Option Text := do
  let (year, r) ← fixed? 4 0 9999 t
  let (month, r) ← fixed? 2 1 12 (← mark? '-' r)
  let (_, r) ← fixed? 2 1 (daysIn year month) (← mark? '-' r)
  return r

def secondFraction? : Text → Option Text
  | '.' :: r =>
    match r.span isDigit with
    | ([], _) => none
    | (_, r) => some r
  | r => some r

def hourMinute? (t : Text) : Option Text := do
  let (_, r) ← fixed? 2 0 23 t
  let (_, r) ← fixed? 2 0 59 (← mark? ':' r)
  return r

def time? (t : Text) : Option Text := do
  let r ← hourMinute? t
  let (_, r) ← fixed? 2 0 60 (← mark? ':' r)
  secondFraction? r

def offset? : Text → Option Text
  | 'Z' :: r => some r
  | 'z' :: r => some r
  | '+' :: r => hourMinute? r
  | '-' :: r => hourMinute? r
  | r => some r

/-- Between a date and the time of it. -/
def isDelimiter (c : Char) : Bool := c = 'T' || c = 't' || c = ' '

/-- Whether an hour follows a delimiter, so that a date goes on with a time. -/
def startsTime (t : Text) : Bool :=
  match t with
  | c :: r =>
    isDelimiter c && ((fixed? 2 0 23 r).bind fun (_, r) => mark? ':' r).isSome
  | [] => false

/-- A date, a date and a time, or a time. -/
def moment? (t : Text) : Option Text :=
  match (fixed? 4 0 9999 t).bind fun (_, r) => mark? '-' r with
  | some _ => do
    let r ← date? t
    if startsTime r then offset? (← time? (r.drop 1)) else some r
  | none => time? t

def startsMoment (t : Text) : Bool :=
  ((fixed? 4 0 9999 t).bind fun (_, r) => mark? '-' r).isSome ||
    ((fixed? 2 0 23 t).bind fun (_, r) => mark? ':' r).isSome

def isMoment (t : Text) : Bool := moment? t = some []

end ModuleRules.Toml
