import ModuleRules.Template.Literal

/-!
# Tags

A tag stands between double braces. Gaps may stand between its words.
-/

namespace ModuleRules.Template

/-! ## Calls -/

/-- Whether `word` starts the text and no name follows it, gaps aside. -/
def isKeyword (word t : Text) : Bool :=
  match Text.after? word t with
  | some r => !((skipGap r).head?.map isNameChar).getD false
  | none => false

mutual

/-- An argument; `fuel` bounds the steps that reading it takes. -/
def argument? : (fuel : Nat) → Read Argument
  | 0, _ => none
  | fuel + 1, t =>
    if isKeyword "as" t || isKeyword "else" t then none
    else match literal? t with
      | some (j, r) => some (.literal j, r)
      | none =>
        match reference? t with
        | some (x, r) => some (.reference x, r)
        | none => applied? fuel t

def applied? : (fuel : Nat) → Read Argument
  | fuel + 1, '(' :: t => do
    let t := skipGap t
    let alone := (nameOfReference? t).map fun (n, r) => ({ helper := n }, r)
    let (c, r) ← (application? fuel t).or alone
    let r ← Text.after? ")" (skipGap r)
    return (.applied c.helper c.arguments c.options, r)
  | _, _ => none

def application? : (fuel : Nat) → Read Call
  | 0, _ => none
  | fuel + 1, t => do
    let (n, r) ← name? t
    let (o, r) := operands fuel {} r
    if o.isEmpty then none else some ({ o with helper := n }, r)

def option? : (fuel : Nat) → Read (Text × Argument)
  | 0, _ => none
  | fuel + 1, t => do
    let (n, r) ← name? t
    let r ← Text.after? "=" (skipGap r)
    let (a, r) ← argument? fuel (skipGap r)
    return ((n, a), r)

def operands : (fuel : Nat) → Operands → Text → Operands × Text
  | 0, o, t => (o, t)
  | fuel + 1, o, t =>
    match option? fuel (skipGap t) with
    | some (x, r) => operands fuel (o.setOption x) r
    | none =>
      match argument? fuel (skipGap t) with
      | some (a, r) => operands fuel (o.addArgument a) r
      | none => (o, t)

end

/-- More steps than reading a text takes: before each character that is read, no more than four
readers call one another. -/
def stepsFor (t : Text) : Nat := 4 * t.length + 4

def blockNames? : Read (List Text) := fun t => do
  let r ← Text.after? "as" (skipGap t)
  let r ← Text.after? "|" (skipGap r)
  let (n, r) ← name? (skipGap r)
  match name? (skipGap r) with
  | some (m, r) => return ([n, m], ← Text.after? "|" (skipGap r))
  | none => return ([n], ← Text.after? "|" (skipGap r))

def opening? : Read Call := fun t => do
  let (n, r) ← name? (skipGap t)
  let (o, r) := operands (stepsFor r) {} r
  match blockNames? r with
  | some (ns, r) => return ({ o with helper := n, names := ns }, r)
  | none => return ({ o with helper := n }, r)

/-! ## Inclusions -/

def isPartChar (c : Char) : Bool := isNameChar c || isJoint c

def quotedName? : Read Text
  | [] => none
  | '\'' :: r => some (['\''], r)
  | '\\' :: '\'' :: r => (quotedName? r).map fun (n, r) => ('\\' :: '\'' :: n, r)
  | c :: r => (quotedName? r).map fun (n, r) => (c :: n, r)

/-- The name of a part as it is written; quotes belong to it. -/
def partName? : Read Text := fun t =>
  match t.span isPartChar with
  | ([], '\'' :: r) =>
    match quotedName? r with
    | some (n, r) => if n = ['\''] then none else some ('\'' :: n, r)
    | none => none
  | ([], _) => none
  | (n, r) => some (n, r)

/-- The name of a part that is included: written out, made by a helper, or else a reference that
stands for itself. -/
def includedName? : Read Argument := fun t =>
  match partName? t with
  | some (n, r) => some (.literal (Json.text n), r)
  | none =>
    match applied? (stepsFor t) t with
    | some (a, r) => some (a, r)
    | none => (nameOfReference? t).map fun (n, r) => (.literal (Json.text n), r)

def inclusion? (hasBody : Bool) : Read Inclusion := fun t => do
  let (n, r) ← includedName? (skipGap t)
  let (o, r) := operands (stepsFor r) {} r
  return ({ o with name := n, hasBody }, r)

/-! ## Tags -/

inductive Tag
  | value (a : Argument)
  | call (c : Call)
  | decorator (c : Call)
  | inclusion (i : Inclusion)
  | opening (c : Call)
  | openingDecorator (c : Call)
  | openingInclusion (i : Inclusion)
  /-- What is shown if the block before does not show its body. -/
  | otherwise
  /-- The same, and it is a block of its own that ends with the one before. -/
  | chain (c : Call)
  | closing (name : Text)
  | comment
  deriving Repr

def Tag.isSound : Tag → Bool
  | .value a => a.isSound
  | .call c => c.isSound
  | .decorator c => c.isSound
  | .inclusion i => i.isSound
  | .opening c => c.isSound
  | .openingDecorator c => c.isSound
  | .openingInclusion i => i.isSound
  | .chain c => c.isSound
  | _ => true

/-- A tag, and whether the blanks before it and after it are dropped. -/
structure Mark where
  tag : Tag
  before : Bool := false
  after : Bool := false
  /-- Whether the gap after it belongs to the tag. -/
  takesGap : Bool := false
  deriving Repr

/-- A value; the name of a helper alone calls it. -/
def value? : Read Tag := fun t =>
  match applied? (stepsFor t) t with
  | some (a, r) => some (.value a, r)
  | none => do
    let (x, r) ← reference? t
    let (n, _) ← nameOfReference? t
    return (if helperNames.contains n then .call { helper := n } else .value (.reference x), r)

def expression? : Read Tag := fun t =>
  match application? (stepsFor t) t with
  | some (c, r) => some (.call c, r)
  | none => value? t

def tilde (t : Text) : Bool × Text :=
  match skipGap t with
  | '~' :: r => (true, r)
  | r => (false, r)

def close? (braces : Text) (tag : Tag) (before : Bool) (t : Text) : Option (Mark × Text) :=
  let (after, r) := tilde t
  (Text.after? braces (skipGap r)).map fun r => ({ tag, before, after }, r)

def two : Text := "\x7d\x7d"

def three : Text := "\x7d\x7d\x7d"

def four : Text := "\x7d\x7d\x7d\x7d"

def plainValue? (before : Bool) (t : Text) : Option (Mark × Text) := do
  let (x, r) ← expression? (skipGap t)
  let r ← Text.after? "\x7d" (skipGap r)
  close? two x before r

def otherwise? (before : Bool) (t : Text) : Option (Mark × Text) :=
  match opening? t with
  | some (c, r) => close? two (.chain c) before r
  | none => close? two .otherwise before t

def openingTag? (t : Text) : Option (Tag × Text) :=
  match skipGap t with
  | '*' :: r => (opening? r).map fun (c, r) => (.openingDecorator c, r)
  | '>' :: r => (inclusion? true r).map fun (i, r) => (.openingInclusion i, r)
  | r => (opening? r).map fun (c, r) => (.opening c, r)

def mark? : Read Mark := fun t =>
  let (before, r) := tilde t
  match skipGap r with
  | '#' :: r => do
    let (x, r) ← openingTag? r
    close? two x before r
  | '/' :: r => do
    let (n, r) ← partName? (skipGap r)
    close? two (.closing n) before r
  | '*' :: r => do
    let (c, r) ← opening? r
    close? two (.decorator c) before r
  | '&' :: r => do
    let (x, r) ← value? (skipGap r)
    close? two x before r
  | '>' :: r => do
    let (i, r) ← inclusion? false r
    close? two (.inclusion i) before r
  | '^' :: r => otherwise? before r
  | '\x7b' :: r => plainValue? before r
  | r =>
    ((Text.after? "else" r).bind (otherwise? before)).or do
      let (x, r) ← expression? r
      close? two x before r

def tag? : Read Mark
  | '!' :: r =>
    let long := (Text.after? "--" (skipGap r)).bind (Text.cut? "--\x7d\x7d")
    ((long.or (Text.cut? two r)).map (·.2)).map fun r => ({ tag := .comment }, r)
  | '\x7b' :: r =>
    let (before, s) := tilde r
    ((expression? (skipGap s)).bind fun (x, s) => close? three x before s).or
      (plainValue? false r)
  | r => mark? r

end ModuleRules.Template
