import ModuleRules.Toml.Basic

/-!
# Words of TOML

Strings, keys and numbers. Each reader takes a text and gives what it
read and what follows, or nothing when the text does not start with it.
-/

namespace ModuleRules.Toml

abbrev Read (α : Type) := Text → Option (α × Text)

def isSpace (c : Char) : Bool := c = ' ' || c = '\t'

def skipSpace (t : Text) : Text := t.dropWhile isSpace

/-- A character that may stand in a comment, and in a string unless it means something there. -/
def isPlain (c : Char) : Bool := c = '\t' || (0x20 ≤ c.toNat && c.toNat ≠ 0x7F)

def lineEnd? : Text → Option Text
  | '\n' :: r => some r
  | '\r' :: '\n' :: r => some r
  | _ => none

def mark? (c : Char) : Text → Option Text
  | d :: r => if d = c then some r else none
  | [] => none

def isDigit (c : Char) : Bool := '0' ≤ c && c ≤ '9'

def digitValue (c : Char) : Nat :=
  if isDigit c then c.toNat - '0'.toNat
  else if 'a' ≤ c ∧ c ≤ 'f' then c.toNat - 'a'.toNat + 10
  else if 'A' ≤ c ∧ c ≤ 'F' then c.toNat - 'A'.toNat + 10
  else 16

def isHexDigit (c : Char) : Bool := digitValue c < 16

def valueOf (base : Nat) (ds : Text) : Nat := ds.foldl (fun n d => n * base + digitValue d) 0

/-! ## Strings -/

def escaped? : Char → Option Char
  | 'b' => some '\x08'
  | 't' => some '\t'
  | 'n' => some '\n'
  | 'f' => some '\x0c'
  | 'r' => some '\r'
  | '"' => some '"'
  | '\\' => some '\\'
  | _ => none

def scalar? (ds : Text) : Option Char :=
  let n := valueOf 16 ds
  if ds.all isHexDigit ∧ n.isValidChar then some (Char.ofNat n) else none

def more (c : Char) (r : Option (Text × Text)) : Option (Text × Text) :=
  r.map fun (s, rest) => (c :: s, rest)

/-- The rest of a string in double quotes. -/
def basic? : Read Text
  | [] => none
  | '"' :: r => some ([], r)
  | '\\' :: 'u' :: a :: b :: c :: d :: r => do more (← scalar? [a, b, c, d]) (basic? r)
  | '\\' :: 'U' :: a :: b :: c :: d :: e :: f :: g :: h :: r => do
    more (← scalar? [a, b, c, d, e, f, g, h]) (basic? r)
  | '\\' :: c :: r => do more (← escaped? c) (basic? r)
  | c :: r => if isPlain c then more c (basic? r) else none

/-- The rest of a string in single quotes. -/
def literal? : Read Text
  | [] => none
  | '\'' :: r => some ([], r)
  | c :: r => if isPlain c then more c (literal? r) else none

def isBlankLine (t : Text) : Bool := (lineEnd? (skipSpace t)).isSome

/-- The rest of a string in three double quotes. Up to two more quotes may precede the closing
ones. A backslash at the end of a line skips the blanks that follow; `skipping` tells that these
are being skipped. -/
def longBasic? : (skipping : Bool) → Read Text
  | _, [] => none
  | true, ' ' :: r => longBasic? true r
  | true, '\t' :: r => longBasic? true r
  | true, '\n' :: r => longBasic? true r
  | true, '\r' :: '\n' :: r => longBasic? true r
  | _, '"' :: '"' :: '"' :: '"' :: '"' :: r => some (['"', '"'], r)
  | _, '"' :: '"' :: '"' :: '"' :: r => some (['"'], r)
  | _, '"' :: '"' :: '"' :: r => some ([], r)
  | _, '\r' :: '\n' :: r => more '\n' (longBasic? false r)
  | _, '\n' :: r => more '\n' (longBasic? false r)
  | _, '\\' :: 'u' :: a :: b :: c :: d :: r => do
    more (← scalar? [a, b, c, d]) (longBasic? false r)
  | _, '\\' :: 'U' :: a :: b :: c :: d :: e :: f :: g :: h :: r => do
    more (← scalar? [a, b, c, d, e, f, g, h]) (longBasic? false r)
  | _, '\\' :: c :: r =>
    if isBlankLine (c :: r) then longBasic? true (c :: r)
    else do more (← escaped? c) (longBasic? false r)
  | _, c :: r => if isPlain c then more c (longBasic? false r) else none

/-- The rest of a string in three single quotes. -/
def longLiteral? : Read Text
  | [] => none
  | '\'' :: '\'' :: '\'' :: '\'' :: '\'' :: r => some (['\'', '\''], r)
  | '\'' :: '\'' :: '\'' :: '\'' :: r => some (['\''], r)
  | '\'' :: '\'' :: '\'' :: r => some ([], r)
  | '\r' :: '\n' :: r => more '\n' (longLiteral? r)
  | '\n' :: r => more '\n' (longLiteral? r)
  | c :: r => if isPlain c then more c (longLiteral? r) else none

/-- A line end right after the opening quotes is not part of the string. -/
def afterOpening (t : Text) : Text := (lineEnd? t).getD t

def string? : Read Text
  | '"' :: '"' :: '"' :: r => longBasic? false (afterOpening r)
  | '"' :: r => basic? r
  | '\'' :: '\'' :: '\'' :: r => longLiteral? (afterOpening r)
  | '\'' :: r => literal? r
  | _ => none

/-! ## Keys -/

def isKeyChar (c : Char) : Bool :=
  isDigit c || ('a' ≤ c && c ≤ 'z') || ('A' ≤ c && c ≤ 'Z') || c = '-' || c = '_'

def simpleKey? : Read Text
  | '"' :: r => basic? r
  | '\'' :: r => literal? r
  | t =>
    match t.span isKeyChar with
    | ([], _) => none
    | (k, r) => some (k, r)

/-- A key of one or more parts between dots, with spaces around them. `fuel` bounds the number of
parts. -/
def keyParts? : (fuel : Nat) → Read (List Text)
  | 0, _ => none
  | fuel + 1, t => do
    let (k, r) ← simpleKey? (skipSpace t)
    match skipSpace r with
    | '.' :: r =>
      let (ks, r) ← keyParts? fuel r
      return (k :: ks, r)
    | r => return ([k], r)

def depthLimit : Nat := 80

def key? (t : Text) : Option (List Text × Text) := do
  let (ks, r) ← keyParts? t.length t
  if ks.length < depthLimit then some (ks, r) else none

/-! ## Numbers -/

/-- Digits after the first, single underscores between them; the underscores are dropped. -/
def moreDigits? (isDigit : Char → Bool) : Read Text
  | '_' :: c :: r => if isDigit c then more c (moreDigits? isDigit r) else none
  | '_' :: [] => none
  | c :: r => if isDigit c then more c (moreDigits? isDigit r) else some ([], c :: r)
  | [] => some ([], [])

def digits? (isDigit : Char → Bool) : Read Text
  | c :: r => if isDigit c then more c (moreDigits? isDigit r) else none
  | [] => none

def sign : Text → Bool × Text
  | '-' :: r => (true, r)
  | '+' :: r => (false, r)
  | r => (false, r)

/-- A decimal number before the point; a zero stands alone. -/
def whole? : Read Text
  | '0' :: r => some (['0'], r)
  | r => digits? isDigit r

def isLong (n : Int) : Bool := -9223372036854775808 ≤ n && n ≤ 9223372036854775807

def based? (base : Nat) (t : Text) : Option (Toml × Text) := do
  let (ds, r) ← digits? (fun c => digitValue c < base) t
  let n : Int := valueOf base ds
  if isLong n then some (.scalar (.integer n), r) else none

def fraction? : Read Text
  | '.' :: r => digits? isDigit r
  | r => some ([], r)

def exponent? : Read Int
  | c :: r =>
    if c = 'e' ∨ c = 'E' then do
      let (negative, r) := sign r
      let (ds, r) ← digits? isDigit r
      let n : Int := valueOf 10 ds
      some (if negative then -n else n, r)
    else some (0, c :: r)
  | [] => some (0, [])

/-- A float; only a positive one may not be too large. -/
def float? (negative : Bool) (whole fraction : Text) (exponent : Int) : Option Toml :=
  match Double.ofDecimal (valueOf 10 (whole ++ fraction)) (exponent - fraction.length) with
  | .infinite _ => if negative then some (.scalar (.float (.infinite true))) else none
  | x => some (.scalar (.float (if negative then x.neg else x)))

def startsFloat : Text → Bool
  | '.' :: _ => true
  | 'e' :: _ => true
  | 'E' :: _ => true
  | _ => false

def decimal? (t : Text) : Option (Toml × Text) := do
  let (negative, r) := sign t
  match Text.after? "inf" r, Text.after? "nan" r with
  | some r, _ => return (.scalar (.float (.infinite negative)), r)
  | _, some r => return (.scalar (.float .nan), r)
  | none, none =>
    let (whole, r) ← whole? r
    if startsFloat r then
      let (fraction, r) ← fraction? r
      let (exponent, r) ← exponent? r
      return (← float? negative whole fraction exponent, r)
    else
      let n : Int := valueOf 10 whole
      let n := if negative then -n else n
      if isLong n then some (.scalar (.integer n), r) else none

def number? : Read Toml
  | '0' :: 'x' :: r => based? 16 r
  | '0' :: 'o' :: r => based? 8 r
  | '0' :: 'b' :: r => based? 2 r
  | t => decimal? t

end ModuleRules.Toml
