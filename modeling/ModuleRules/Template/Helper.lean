import ModuleRules.Decimal.Scientific
import ModuleRules.Json.Equal
import ModuleRules.Template.Word
import ModuleRules.Text.Utf8

/-!
# Helpers

A helper decides from values what is shown: the body of its block or what
stands for the other case, or a value of its own instead of the block.
-/

namespace ModuleRules.Template

/-- A value, and whether it has its place in the data. -/
structure Held where
  value : Json
  placed : Bool := false

/-- A value at hand, what is said about its place, and the names a block gave. -/
structure Frame where
  this : Held
  facts : List (Text × Json) := []
  names : List (Text × Held) := []

inductive Branch
  /-- The body as it is. -/
  | body
  /-- The body once inside each frame. -/
  | inside (fs : List Frame)
  | otherwise
  | value (j : Json)

namespace Branch

def ofBool (b : Bool) : Branch := if b then .body else .otherwise

def alone : Branch → Json
  | value j => j
  | _ => .text []

end Branch

/-! ## Values -/

/-- The first of the values under a name. -/
def find? {α : Type} (name : Text) (fields : List (Text × α)) : Option α :=
  (fields.find? (·.1 = name)).map (·.2)

/-- Whether a number counts as true: zero counts only if it shall, and what is too small for a full
significand counts as zero. -/
def isTruthyNumber (zeroCounts : Bool) (n : Json.Number) : Bool :=
  match n.value? with
  | some (.integer i) => zeroCounts || i ≠ 0
  | some (.double x) => zeroCounts || x.isNormal
  | none => false

/-- Whether a value counts as true: nothing that is empty does. -/
def isTruthy (zeroCounts : Bool) : Json → Bool
  | .null => false
  | .bool b => b
  | .number n => isTruthyNumber zeroCounts n
  | .string t => t ≠ some []
  | .array js => !js.isEmpty
  | .object fields => !fields.isEmpty

def maxLong : Int := Nat.pow 2 63 - 1

/-- The integer that a value is; one that needs the 64th bit is none. -/
def long? : Json → Option Int
  | .number n =>
    match n.value? with
    | some (.integer i) => if i ≤ maxLong then some i else none
    | _ => none
  | _ => none

def lookup : Json → Json → Json
  | .array js, .number n =>
    match n.value? with
    | some (.integer (.ofNat i)) => (js[i]?).getD .null
    | _ => .null
  | .object fields, .string (some k) => ((Json.valuesOf k fields).head?).getD .null
  | _, _ => .null

/-- How many items or fields a value has; of a text, how many bytes. -/
def size : Json → Nat
  | .array js => js.length
  | .object fields => fields.length
  | .string t => (Text.Utf8.encode (t.getD [])).length
  | _ => 0

/-! ## Frames -/

/-- The items of a value with what their place is called and its name. -/
def placesOf : Json → List (Text × Json × Json)
  | .array js => js.zipIdx.map fun (j, i) => ("index".toList, .nat i, j)
  | .object fields => fields.map fun (k, j) => ("key".toList, .string k, j)
  | _ => []

def framesOf (names : List Text) (v : Held) : List Frame :=
  let places := placesOf v.value
  places.zipIdx.map fun ((kind, at_, j), i) =>
    let item : Held := ⟨j, v.placed⟩
    ⟨item, [("first", .bool (i = 0)), ("last", .bool (i + 1 = places.length)), (kind, at_)],
      match names with
      | [n] => [(n, item)]
      | [n, m] => [(m, ⟨at_, false⟩), (n, item)]
      | _ => []⟩

def frameOf (names : List Text) (v : Held) : Frame :=
  ⟨v, [], match names with
    | [n] => [(n, v)]
    | _ => []⟩

/-! ## Helpers -/

def zeroCounts (options : List (Text × Json)) : Bool :=
  match find? "includeZero" options with
  | some (.bool b) => b
  | _ => false

def levels : List Text := ["error", "warn", "info", "debug", "trace"]

/-- Whether the option `level` is one, in large or small letters; one that is no text does not
matter. -/
def hasLevel (options : List (Text × Json)) : Bool :=
  match find? "level" options with
  | some (.string (some t)) => levels.contains (t.map Char.toLower)
  | _ => true

structure Applied where
  helper : Text
  arguments : List Held := []
  options : List (Text × Json) := []
  names : List Text := []

namespace Applied

def first (a : Applied) (f : Held → Branch) : Except TemplateError Branch :=
  match a.arguments with
  | v :: _ => .ok (f v)
  | [] => .error (.missingArgument a.helper)

def both (a : Applied) (f : Json → Json → Json) : Except TemplateError Branch :=
  match a.arguments with
  | v :: w :: _ => .ok (.value (f v.value w.value))
  | _ => .error (.missingArgument a.helper)

def compare (a : Applied) (f : Int → Int → Bool) : Except TemplateError Branch :=
  match a.arguments with
  | v :: w :: _ =>
    match long? v.value, long? w.value with
    | some i, some j => .ok (.value (.bool (f i j)))
    | _, _ => .error (.unfitArgument a.helper)
  | _ => .error (.missingArgument a.helper)

def branch (a : Applied) : Except TemplateError Branch :=
  let truthy (v : Held) : Bool := isTruthy (zeroCounts a.options) v.value
  match String.ofList a.helper with
  | "if" => a.first fun v => .ofBool (truthy v)
  | "unless" => a.first fun v => .ofBool (!truthy v)
  | "with" => a.first fun v =>
    if isTruthy false v.value then .inside [frameOf a.names v] else .otherwise
  | "each" => a.first fun v =>
    match framesOf a.names v with
    | [] => .otherwise
    | fs => .inside fs
  | "lookup" => a.both lookup
  | "len" => a.first fun v => .value (.nat (size v.value))
  | "eq" => a.both fun v w => .bool (v.isEqual w)
  | "ne" => a.both fun v w => .bool (!v.isEqual w)
  | "gt" => a.compare (· > ·)
  | "gte" => a.compare (· ≥ ·)
  | "lt" => a.compare (· < ·)
  | "lte" => a.compare (· ≤ ·)
  | "and" => a.both fun v w => .bool (isTruthy false v && isTruthy false w)
  | "or" => a.both fun v w => .bool (isTruthy false v || isTruthy false w)
  | "not" => a.first fun v => .value (.bool (!isTruthy false v.value))
  | "raw" => .ok .body
  | "log" =>
    if hasLevel a.options then .ok (.value (.text [])) else .error (.unfitArgument a.helper)
  | _ => .error (.unknownHelper a.helper)

end Applied

end ModuleRules.Template
