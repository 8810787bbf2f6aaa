import ModuleRules.Text.Basic

/-!
# UTF-8

A character is written in one to four bytes. Reading is exact: overlong
forms, surrogates and numbers past the last code point are refused, so a byte
sequence stands for at most one text.
-/

namespace ModuleRules.Text.Utf8

abbrev Bytes := List UInt8

def encode (t : Text) : Bytes := t.flatMap String.utf8EncodeChar

/-- The payload of a continuation byte. -/
def tail? (b : UInt8) : Option Nat :=
  if 0x80 ≤ b ∧ b ≤ 0xBF then some (b.toNat - 0x80) else none

/-- A number that is a code point, not a surrogate, and at least `least`. -/
def scalar? (least n : Nat) : Option Char :=
  if least ≤ n ∧ n.isValidChar then some (Char.ofNat n) else none

def two? (a b : UInt8) : Option Char := do
  scalar? 0x80 ((a.toNat - 0xC0) * 64 + (← tail? b))

def three? (a b c : UInt8) : Option Char := do
  scalar? 0x800 (((a.toNat - 0xE0) * 64 + (← tail? b)) * 64 + (← tail? c))

def four? (a b c d : UInt8) : Option Char := do
  scalar? 0x10000 ((((a.toNat - 0xF0) * 64 + (← tail? b)) * 64 + (← tail? c)) * 64 + (← tail? d))

def decode? : Bytes → Option Text
  | [] => some []
  | a :: r =>
    if a < 0x80 then (decode? r).map (Char.ofNat a.toNat :: ·)
    else if a < 0xC0 then none
    else if a < 0xE0 then
      match r with
      | b :: r => do let x ← two? a b; (decode? r).map (x :: ·)
      | [] => none
    else if a < 0xF0 then
      match r with
      | b :: c :: r => do let x ← three? a b c; (decode? r).map (x :: ·)
      | _ => none
    else
      match r with
      | b :: c :: d :: r => do let x ← four? a b c d; (decode? r).map (x :: ·)
      | _ => none

/-- The pieces between line feeds, which no other character's bytes contain. -/
def splitLines : Bytes → List Bytes
  | [] => [[]]
  | b :: r =>
    if b = 10 then [] :: splitLines r
    else match splitLines r with
      | [] => [[b]]
      | p :: ps => (b :: p) :: ps

end ModuleRules.Text.Utf8
