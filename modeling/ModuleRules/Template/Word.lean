import ModuleRules.Template.Basic
import ModuleRules.Text.Basic

/-!
# Words of templates

Each reader takes a text and gives what it read and what follows, or nothing
when the text does not start with it. The first way to read that fits the
start of the text is taken, and no gap may stand inside a reference.
-/

namespace ModuleRules.Template

abbrev Read (α : Type) := Text → Option (α × Text)

/-! ## Words -/

def isGap (c : Char) : Bool := c = ' ' || c = '\t' || c = '\n' || c = '\r'

def skipGap (t : Text) : Text := t.dropWhile isGap

def isDigit (c : Char) : Bool := '0' ≤ c && c ≤ '9'

def isNameChar (c : Char) : Bool :=
  isDigit c || ('a' ≤ c && c ≤ 'z') || ('A' ≤ c && c ≤ 'Z') || c = '_' || c = '-' || c = '$' ||
    0x80 ≤ c.toNat

def name? : Read Text := fun t =>
  match t.span isNameChar with
  | ([], _) => none
  | (n, r) => some (n, r)

def endOfName? (t : Text) : Option Text :=
  if (t.head?.map isNameChar).getD false then none else some t

/-- What follows `word`, when that ends a name. -/
def afterWord? (word t : Text) : Option Text := (Text.after? word t).bind endOfName?

/-! ## References -/

def isJoint (c : Char) : Bool := c = '.' || c = '/'

def afterJoint? : Text → Option Text
  | [] => none
  | c :: r => if isJoint c then some r else none

/-- The way out: two dots, each time followed by a joint. -/
def ups : Text → Nat × Text
  | '.' :: '.' :: c :: r =>
    if isJoint c then let (n, r) := ups r; (n + 1, r) else (0, '.' :: '.' :: c :: r)
  | r => (0, r)

def item? : Read Text
  | '[' :: r => Text.splitOnce ']' r
  | t => name? t

/-- The further names of a reference; `fuel` bounds their number. -/
def items : (fuel : Nat) → Text → List Text × Text
  | 0, t => ([], t)
  | fuel + 1, t =>
    match (afterJoint? t).bind item? with
    | some (n, r) => let (ns, r) := items fuel r; (n :: ns, r)
    | none => ([], t)

def skipStart? (start t : Text) : Option Text := (Text.after? start t).bind afterJoint?

def reference? : Read Reference := fun t =>
  let t := ((skipStart? Reference.this t).or (Text.after? "./" t)).getD t
  let (root, t) := match skipStart? "@root" t with
    | some r => (true, r)
    | none => (false, t)
  let (asks, t) := match t with
    | '@' :: r => (true, r)
    | r => (false, r)
  let (up, t) := ups t
  match item? t with
  | some (n, r) =>
    let (ns, r) := items r.length r
    some (.ofParts root asks up (n :: ns), r)
  | none => none

def nameOfReference? : Read Text := fun t =>
  (reference? t).map fun (_, r) => (t.take (t.length - r.length), r)

end ModuleRules.Template
