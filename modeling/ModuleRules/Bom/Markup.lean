import ModuleRules.Text.Blank

/-!
# Marked spans

A span of a text goes from an opening mark to the nearest closing mark after
it. Spans are found from left to right and do not overlap; an opening mark
without a closing one after it opens nothing. This is how elements are found
in a text that is not parsed any further.
-/

namespace ModuleRules.Markup

structure Marks where
  opening : Text
  closing : Text
  deriving DecidableEq, Repr

/-- The marks of the element `tag`, without attributes. -/
def Marks.ofTag (tag : Text) : Marks := ⟨'<' :: tag ++ ['>'], '<' :: '/' :: tag ++ ['>']⟩

/-- The inside of a span that starts the text, and what follows the span. -/
def Marks.here? (m : Marks) (t : Text) : Option (Text × Text) :=
  (Text.after? m.opening t).bind (Text.cut? m.closing)

def Marks.next? (m : Marks) : Text → Option (Text × Text)
  | [] => m.here? []
  | c :: r =>
    match m.here? (c :: r) with
    | some found => some found
    | none => m.next? r

/-- The insides of all spans; `fuel` bounds their number. -/
def Marks.insidesUpTo (m : Marks) : (fuel : Nat) → Text → List Text
  | 0, _ => []
  | fuel + 1, t =>
    match m.next? t with
    | some (inside, rest) => inside :: m.insidesUpTo fuel rest
    | none => []

def Marks.insides (m : Marks) (t : Text) : List Text := m.insidesUpTo t.length t

/-- The text without the spans of any of the marks; `fuel` bounds the number of steps. -/
def removeUpTo (ms : List Marks) : (fuel : Nat) → Text → Text
  | 0, t => t
  | _, [] => []
  | fuel + 1, c :: r =>
    match ms.findSome? (·.here? (c :: r)) with
    | some (_, rest) => removeUpTo ms fuel rest
    | none => c :: removeUpTo ms fuel r

def remove (ms : List Marks) (t : Text) : Text := removeUpTo ms t.length t

/-- The trimmed inside of the first element `tag`, unless it is blank. -/
def element? (tag t : Text) : Option Text :=
  let m := Marks.ofTag tag
  match (Text.cut? m.opening t).bind fun (_, rest) => Text.cut? m.closing rest with
  | some (inside, _) => if Text.trim inside = [] then none else some (Text.trim inside)
  | none => none

end ModuleRules.Markup
