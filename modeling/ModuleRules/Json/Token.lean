import ModuleRules.Json.Basic

/-!
# JSON tokens

`Token.next?` reads one token from the front of a text and returns what
follows it. A string literal is first read as a list of characters and
escaped 16-bit units, and then put together: two units in a row that are a
surrogate pair are one character.
-/

namespace ModuleRules.Json

inductive Token
  | arrayStart
  | arrayEnd
  | objectStart
  | objectEnd
  | colon
  | comma
  | string (t : Option Text)
  /-- Null, a truth value or a number. -/
  | scalar (j : Json)
  deriving Repr

namespace Token

def isSpace (c : Char) : Bool := c = ' ' || c = '\n' || c = '\t' || c = '\r'

/-! ## Strings -/

inductive Piece
  | char (c : Char)
  | unit (n : Nat)
  deriving DecidableEq, Repr

def hexValue? (c : Char) : Option Nat :=
  if '0' ≤ c ∧ c ≤ '9' then some (c.toNat - '0'.toNat)
  else if 'a' ≤ c ∧ c ≤ 'f' then some (c.toNat - 'a'.toNat + 10)
  else if 'A' ≤ c ∧ c ≤ 'F' then some (c.toNat - 'A'.toNat + 10)
  else none

def unit? (a b c d : Char) : Option Nat := do
  let a ← hexValue? a
  let b ← hexValue? b
  let c ← hexValue? c
  let d ← hexValue? d
  return ((a * 16 + b) * 16 + c) * 16 + d

def escaped? : Char → Option Char
  | '"' => some '"'
  | '\\' => some '\\'
  | '/' => some '/'
  | 'b' => some '\x08'
  | 'f' => some '\x0c'
  | 'n' => some '\n'
  | 'r' => some '\r'
  | 't' => some '\t'
  | _ => none

/-- The pieces up to the closing quote, and the rest after it. -/
def pieces? : Text → Option (List Piece × Text)
  | [] => none
  | '"' :: r => some ([], r)
  | '\\' :: 'u' :: a :: b :: c :: d :: r => do
    let n ← unit? a b c d
    let (ps, rest) ← pieces? r
    return (.unit n :: ps, rest)
  | '\\' :: c :: r => do
    let e ← escaped? c
    let (ps, rest) ← pieces? r
    return (.char e :: ps, rest)
  | c :: r =>
    if c.toNat < 0x20 then none
    else do
      let (ps, rest) ← pieces? r
      return (.char c :: ps, rest)

def isHigh (n : Nat) : Bool := 0xD800 ≤ n && n < 0xDC00

def isLow (n : Nat) : Bool := 0xDC00 ≤ n && n < 0xE000

/-- The text of the pieces, if every surrogate has its partner. -/
def assemble? : List Piece → Option Text
  | [] => some []
  | .char c :: ps => (assemble? ps).map (c :: ·)
  | .unit n :: .unit m :: ps =>
    if isHigh n then
      if isLow m then
        (assemble? ps).map (Char.ofNat (0x10000 + (n - 0xD800) * 0x400 + (m - 0xDC00)) :: ·)
      else none
    else if isLow n then none
    else (assemble? (.unit m :: ps)).map (Char.ofNat n :: ·)
  | .unit n :: ps =>
    if isHigh n || isLow n then none else (assemble? ps).map (Char.ofNat n :: ·)

/-! ## Numbers -/

def isDigit (c : Char) : Bool := '0' ≤ c && c ≤ '9'

def digits? (t : Text) : Option (Text × Text) :=
  let ds := t.takeWhile isDigit
  if ds = [] then none else some (ds, t.dropWhile isDigit)

/-- A number before the point: a zero stands alone. -/
def whole? : Text → Option (Text × Text)
  | '0' :: r => some (['0'], r)
  | t => digits? t

def fraction? : Text → Option (Text × Text)
  | '.' :: r => digits? r
  | t => some ([], t)

def digitsValue (ds : Text) : Nat := ds.foldl (fun n d => n * 10 + (d.toNat - '0'.toNat)) 0

def exponentDigits? : Text → Option (Int × Text)
  | '-' :: r => (digits? r).map fun (ds, rest) => (-(digitsValue ds : Int), rest)
  | '+' :: r => (digits? r).map fun (ds, rest) => ((digitsValue ds : Int), rest)
  | r => (digits? r).map fun (ds, rest) => ((digitsValue ds : Int), rest)

def exponent? : Text → Option (Option Int × Text)
  | 'e' :: r => (exponentDigits? r).map fun (e, rest) => (some e, rest)
  | 'E' :: r => (exponentDigits? r).map fun (e, rest) => (some e, rest)
  | t => some (none, t)

def number? (negative : Bool) (t : Text) : Option (Token × Text) := do
  let (whole, r) ← whole? t
  let (fraction, r) ← fraction? r
  let (exponent, r) ← exponent? r
  return (.scalar (.number ⟨negative, whole, fraction, exponent⟩), r)

/-! ## Tokens -/

def word? (word : Text) (j : Json) (t : Text) : Option (Token × Text) :=
  (Text.after? word t).map (Token.scalar j, ·)

/-- The token at the front of a text that starts with no space. -/
def next? : Text → Option (Token × Text)
  | [] => none
  | '[' :: r => some (.arrayStart, r)
  | ']' :: r => some (.arrayEnd, r)
  | '\x7b' :: r => some (.objectStart, r)
  | '\x7d' :: r => some (.objectEnd, r)
  | ':' :: r => some (.colon, r)
  | ',' :: r => some (.comma, r)
  | '"' :: r => (pieces? r).map fun (ps, rest) => (.string (assemble? ps), rest)
  | 'n' :: r => word? "ull" .null r
  | 't' :: r => word? "rue" (.bool true) r
  | 'f' :: r => word? "alse" (.bool false) r
  | '-' :: r => number? true r
  | c :: r => number? false (c :: r)

end Token

end ModuleRules.Json
