import ModuleRules.Decimal.Shortest

/-!
# TOML documents

A document is a table: values by key, in the order in which the keys were
written. Tables remember how they came about, because that decides who
may still add to them.
-/

namespace ModuleRules.Toml

/-- A value that is one word. -/
inductive Scalar
  | string (t : Text)
  | integer (n : Int)
  | float (x : Double)
  | boolean (b : Bool)
  deriving DecidableEq, Repr

inductive Origin
  /-- Written in braces. -/
  | inline
  /-- Named by a header. -/
  | header
  /-- Part of the name of a longer header only. -/
  | implied
  /-- Part of a dotted key. -/
  | dotted
  deriving DecidableEq, Repr

end Toml

inductive Toml
  | scalar (s : Toml.Scalar)
  /-- A date, a time, or both. -/
  | moment
  | array (items : List Toml)
  | table (origin : Toml.Origin) (entries : List (Text × Toml))
  /-- The tables of a header in double brackets, last first. -/
  | tables (items : List (List (Text × Toml)))
  deriving Repr, Inhabited

namespace Toml

abbrev Entries := List (Text × Toml)

/-! ## Adding to a table

Each step names what it leads to and whether that may be added to; `none` is
a key that is taken. -/

/-- Replaces the value at a key, from `none` when the key is free. -/
def alter (k : Text) (f : Option Toml → Option Toml) : Entries → Option Entries
  | [] => (f none).map fun v => [(k, v)]
  | (j, v) :: es =>
    if j = k then (f (some v)).map fun v => (j, v) :: es
    else (alter k f es).map ((j, v) :: ·)

def addNew (k : Text) (v : Toml) (es : Entries) : Option Entries :=
  alter k (fun | none => some v | some _ => none) es

/-- Adds a value under a dotted key to a table of the given origin. A table on the way may not be
one that a header names, and the last one has to come from a dotted key too, unless the key has
one part. -/
def addDotted (v : Toml) : (first : Bool) → Origin → List Text → Entries → Option Entries
  | _, _, [], _ => none
  | first, origin, [k], es => if first ∨ origin = .dotted then addNew k v es else none
  | _, _, k :: l :: ks, es =>
    alter k (fun
      | none => (addDotted v false .dotted (l :: ks) []).map (.table .dotted)
      | some (.table .implied inner) =>
        (addDotted v false .implied (l :: ks) inner).map (.table .implied)
      | some (.table .dotted inner) =>
        (addDotted v false .dotted (l :: ks) inner).map (.table .dotted)
      | some (.tables (inner :: rest)) =>
        (addDotted v false .header (l :: ks) inner).map fun inner => .tables (inner :: rest)
      | some _ => none) es

/-- Changes the table that a header's name leads to, through tables that may be added to and
through the last table of double brackets. -/
def within (f : Entries → Option Entries) : List Text → Entries → Option Entries
  | [], es => f es
  | k :: ks, es =>
    alter k (fun
      | none => (within f ks []).map (.table .implied)
      | some (.table .inline _) => none
      | some (.table origin inner) => (within f ks inner).map (.table origin)
      | some (.tables (inner :: rest)) =>
        (within f ks inner).map fun inner => .tables (inner :: rest)
      | some _ => none) es

/-- Opens the table of a header; a header names a table once. One that longer headers have named
in part moves to the end. -/
def openTable (name : List Text) (es : Entries) : Option Entries :=
  match name.getLast? with
  | none => none
  | some k =>
    within (fun es =>
      match es.find? (·.1 = k) with
      | none => some (es ++ [(k, .table .header [])])
      | some (_, .table .implied inner) =>
        some (es.filter (·.1 ≠ k) ++ [(k, .table .header inner)])
      | some _ => none) name.dropLast es

/-- Opens another table of a header in double brackets. -/
def openNext (name : List Text) (es : Entries) : Option Entries :=
  match name.getLast? with
  | none => none
  | some k =>
    within (alter k fun
      | none => some (.tables [[]])
      | some (.tables items) => some (.tables ([] :: items))
      | some _ => none) name.dropLast es

def addValue (header key : List Text) (v : Toml) (es : Entries) : Option Entries :=
  within (addDotted v true .header key) header es

end Toml

end ModuleRules
