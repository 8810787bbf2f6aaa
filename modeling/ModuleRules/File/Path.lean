import ModuleRules.File.Fault

/-!
# Paths

A path is a text; slashes separate its components. Repeated slashes, a slash
at the end and dots inside are not components, so several texts can spell the
same components. Paths are compared by components: the root comes first, then
`.` and `..`, then names.
-/

namespace ModuleRules.Path

inductive Component
  | root
  /-- A dot that starts a relative path. -/
  | current
  | parent
  | name (t : Text)
  deriving DecidableEq, Repr

def isAbsolute (p : Text) : Bool := p.head? = some '/'

def dot : Text := "."

def dots : Text := ".."

def Component.ofPiece? (piece : Text) : Option Component :=
  if piece = [] ∨ piece = dot then none
  else if piece = dots then some .parent
  else some (.name piece)

def pieces (p : Text) : List Text := Text.split '/' p

def components (p : Text) : List Component :=
  let rest := (pieces p).filterMap Component.ofPiece?
  if isAbsolute p then .root :: rest
  else if (pieces p).head? = some dot then .current :: rest
  else rest

def Component.text : Component → Text
  | root => ['/']
  | current => dot
  | parent => dots
  | name t => t

/-! ## Order -/

/-- A text that sorts as the component does. -/
def Component.key : Component → Text
  | root => ['\x00']
  | current => ['\x01']
  | parent => ['\x02']
  | name t => '\x03' :: t

def key (p : Text) : List Text := (components p).map Component.key

/-- Component by component. -/
def precedes (p q : Text) : Bool := key p < key q

/-! ## Joining -/

/-- The path `name` as seen from `base`. -/
def join (base name : Text) : Text :=
  if isAbsolute name ∨ base = [] then name
  else if base.getLast? = some '/' then base ++ name
  else base ++ '/' :: name

/-! ## Ancestors

The parent of a path is what precedes its last component, spelled as in the
path. Working from the end of the text, slashes and lone dots are passed over;
a dot or a slash that starts the path is a component and is not. -/

/-- Passes over slashes and lone dots at the front of a reversed body. -/
def skipBack : Text → Text
  | '/' :: r => skipBack r
  | '.' :: '/' :: r => skipBack r
  | ['.'] => []
  | r => r

/-- The body with its last component removed, both reversed. -/
def dropBack (body : Text) : Text := skipBack ((skipBack body).dropWhile (· ≠ '/'))

/-- The slash or dot that starts a path as a component of its own, and the rest. -/
def cutStart (p : Text) : Text × Text :=
  match p with
  | '/' :: r => (['/'], r)
  | ['.'] => (dot, [])
  | '.' :: '/' :: r => (dot, '/' :: r)
  | r => ([], r)

def parent? (p : Text) : Option Text :=
  let (start, body) := cutStart p
  if skipBack body.reverse = [] then
    if start = dot then some [] else none
  else some (start ++ (dropBack body.reverse).reverse)

/-- The path, its parent, the parent of that and so on; `fuel` bounds their number. -/
def ancestorsUpTo : (fuel : Nat) → Text → List Text
  | 0, _ => []
  | fuel + 1, p =>
    p :: match parent? p with
      | some q => ancestorsUpTo fuel q
      | none => []

/-- The path and everything above it that its text shows. -/
def ancestors (p : Text) : List Text := ancestorsUpTo (p.length + 1) p

/-! ## Absolute paths -/

def extend (base : Text) (cs : List Component) : Text :=
  cs.foldl (fun p c => join p c.text) base

/-- The path from the root. Two dots are kept, two slashes at the start too, and a slash at the
end. -/
def absolute (workingDirectory p : Text) : Except FileFault Text :=
  if p = [] then .error .emptyPath
  else
    let cs := (components p).filter (· ≠ .current)
    let base : Text :=
      if isAbsolute p then
        if Text.after? "//" p ≠ none ∧ Text.after? "///" p = none then
          extend "//" (cs.filter (· ≠ .root))
        else extend [] cs
      else extend workingDirectory cs
    .ok (if p.getLast? = some '/' then join base [] else base)

end ModuleRules.Path
