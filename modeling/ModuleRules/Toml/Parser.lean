import ModuleRules.Toml.Moment

/-!
# Reading TOML

A document is read line by line: a header, a key with its value, or nothing,
each possibly followed by a comment. Arrays may go on over several lines,
inline tables may not. In the end tables that stand for moments become such.
-/

namespace ModuleRules.Toml

/-! ## Values -/

def skipComment : Text → Text
  | '#' :: r => r.dropWhile isPlain
  | r => r

/-- Skips spaces, comments and line ends. `inComment` tells that a comment is being skipped. -/
def skipGap : (inComment : Bool) → Text → Text
  | true, c :: r => if isPlain c then skipGap true r else
    match c, r with
    | '\n', r => skipGap false r
    | '\r', '\n' :: r => skipGap false r
    | c, r => c :: r
  | false, ' ' :: r => skipGap false r
  | false, '\t' :: r => skipGap false r
  | false, '\n' :: r => skipGap false r
  | false, '\r' :: '\n' :: r => skipGap false r
  | false, '#' :: r => skipGap true r
  | _, r => r

mutual

/-- A value inside `depth` others. `fuel` bounds the number of steps. -/
def value? : (fuel : Nat) → (depth : Nat) → Read Toml
  | 0, _, _ => none
  | fuel + 1, depth, t =>
    match t with
    | '[' :: r => if depth + 1 < depthLimit then items? fuel (depth + 1) [] r else none
    | '\x7b' :: r =>
      if depth + 1 < depthLimit then
        match skipSpace r with
        | '\x7d' :: r => some (.table .inline [], r)
        | r => pairs? fuel (depth + 1) [] r
      else none
    | '"' :: _ | '\'' :: _ => (string? t).map fun (s, r) => (.scalar (.string s), r)
    | 't' :: r => (Text.after? "rue" r).map (.scalar (.boolean true), ·)
    | 'f' :: r => (Text.after? "alse" r).map (.scalar (.boolean false), ·)
    | t => if startsMoment t then (moment? t).map (.moment, ·) else number? t

/-- The rest of an array; a comma may follow the last item. -/
def items? : (fuel : Nat) → (depth : Nat) → (done : List Toml) → Read Toml
  | 0, _, _, _ => none
  | fuel + 1, depth, done, t =>
    match skipGap false t with
    | ']' :: r => some (.array done.reverse, r)
    | r => do
      let (v, r) ← value? fuel depth r
      match skipGap false r with
      | ',' :: r => items? fuel depth (v :: done) r
      | ']' :: r => some (.array (v :: done).reverse, r)
      | _ => none

/-- The rest of an inline table that is not empty. -/
def pairs? : (fuel : Nat) → (depth : Nat) → (done : Entries) → Read Toml
  | 0, _, _, _ => none
  | fuel + 1, depth, done, t => do
    let (k, r) ← key? t
    let r ← mark? '=' r
    let (v, r) ← value? fuel depth (skipSpace r)
    let done ← addDotted v true .inline k done
    match skipSpace r with
    | ',' :: r => pairs? fuel depth done r
    | '\x7d' :: r => some (.table .inline done, r)
    | _ => none

end

/-! ## Documents -/

/-- What follows the rest of a line that holds nothing more. -/
def endOfLine? (t : Text) : Option Text :=
  match skipComment (skipSpace t) with
  | [] => some []
  | r => lineEnd? r

/-- The entries so far and the name of the current header. -/
structure Document where
  entries : Entries := []
  header : List Text := []

/-- Reads one line that is not blank. -/
def line? (d : Document) (t : Text) : Option (Document × Text) :=
  match t with
  | '[' :: '[' :: r => do
    let (name, r) ← key? r
    let r ← Text.after? "]]" r
    return (⟨← openNext name d.entries, name⟩, ← endOfLine? r)
  | '[' :: r => do
    let (name, r) ← key? r
    let r ← Text.after? "]" r
    return (⟨← openTable name d.entries, name⟩, ← endOfLine? r)
  | t => do
    let (k, r) ← key? t
    let r ← mark? '=' r
    let (v, r) ← value? (2 * r.length + 2) 0 (skipSpace r)
    return ({ d with entries := ← addValue d.header k v d.entries }, ← endOfLine? r)

/-- Reads all lines; `fuel` bounds their number. -/
def document? : (fuel : Nat) → Document → Text → Option Entries
  | 0, _, _ => none
  | fuel + 1, d, t =>
    match skipSpace t with
    | [] => some d.entries
    | '#' :: r => do document? fuel d (← endOfLine? ('#' :: r))
    | '\n' :: r => document? fuel d r
    | '\r' :: '\n' :: r => document? fuel d r
    | r => do
      let (d, r) ← line? d r
      document? fuel d r

/-! ## Tables that stand for moments -/

/-- A table with this key first stands for the moment that is its value. -/
def momentKey : Text := "$__toml_private_datetime"

/-- The moment that a table stands for whose first value this is. -/
def momentOf? : Toml → Option Toml
  | .scalar (.string t) => if isMoment t then some .moment else none
  | _ => none

mutual

/-- The value with moments in place of the tables that stand for them, if all of these do. -/
def settle? : Toml → Option Toml
  | .array vs => (settleItems? vs).map .array
  | .table origin es => settleTable? origin es
  | .tables ts => (settleTables? ts).map fun vs => .array vs.reverse
  | v => some v

def settleTable? (origin : Origin) : Entries → Option Toml
  | [] => some (.table origin [])
  | (k, v) :: es =>
    if k = momentKey then momentOf? v
    else do return .table origin ((k, ← settle? v) :: (← settleEntries? es))

def settleItems? : List Toml → Option (List Toml)
  | [] => some []
  | v :: vs => do return (← settle? v) :: (← settleItems? vs)

def settleTables? : List Entries → Option (List Toml)
  | [] => some []
  | t :: ts => do return (← settleTable? .header t) :: (← settleTables? ts)

def settleEntries? : Entries → Option Entries
  | [] => some []
  | (k, v) :: es => do return (k, ← settle? v) :: (← settleEntries? es)

end

/-- A byte order mark at the start of a document means nothing. -/
def skipMark : Text → Text
  | '\uFEFF' :: r => r
  | r => r

def parse? (t : Text) : Option Entries :=
  (document? (t.length + 1) {} (skipMark t)).bind settleEntries?

end ModuleRules.Toml
