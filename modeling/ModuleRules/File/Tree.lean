import ModuleRules.File.Path
import ModuleRules.Text.Utf8

/-!
# File trees

A file tree says what is at each location, a location being the names that
lead to it from the root, and which directory relative paths start from. The
root is a directory in every tree.

A path is followed name by name. What a name, a dot or a slash follows has to
be a directory; two dots lead to the directory above, and from the root to the
root. There are no links.
-/

namespace ModuleRules

abbrev Location := List Text

abbrev Bytes := Text.Utf8.Bytes

inductive Entry
  | file (content : Bytes)
  | directory
  deriving DecidableEq, Repr

structure FileTree where
  entries : List (Location × Entry) := []
  workingDirectory : Location := []

namespace FileTree

def entry? (t : FileTree) (l : Location) : Option Entry :=
  if l = [] then some .directory else (t.entries.find? (·.1 = l)).map (·.2)

def put (l : Location) (e : Entry) (t : FileTree) : FileTree :=
  { t with entries := (l, e) :: t.entries.filter (·.1 ≠ l) }

def workingPath (t : FileTree) : Text := '/' :: Text.join ['/'] t.workingDirectory

/-! ## Following paths -/

/-- The longest name, in bytes. -/
def maxName : Nat := 255

/-- The longest path, in bytes. -/
def maxPath : Nat := 4095

/-- Why a path cannot be followed whatever the tree holds. -/
def pathFault? (p : Text) : Option FileFault :=
  if '\x00' ∈ p then some .nulInPath
  else if p = [] then some .notFound
  else if (Text.Utf8.encode p).length > maxPath then some .nameTooLong
  else none

def enter (t : FileTree) (here : Location) (piece : Text) : Except FileFault Location :=
  match t.entry? here with
  | none => .error .notFound
  | some (.file _) => .error .notDirectory
  | some .directory =>
    if piece = [] ∨ piece = Path.dot then .ok here
    else if piece = Path.dots then .ok here.dropLast
    else if (Text.Utf8.encode piece).length > maxName then .error .nameTooLong
    else .ok (here ++ [piece])

def start (t : FileTree) (p : Text) : Location :=
  if Path.isAbsolute p then [] else t.workingDirectory

/-- The location that a path leads to; nothing need be there. -/
def resolve (t : FileTree) (p : Text) : Except FileFault Location :=
  match pathFault? p with
  | some fault => .error fault
  | none => (Path.pieces p).foldlM t.enter (t.start p)

def look (t : FileTree) (p : Text) : Except FileFault Entry := do
  match t.entry? (← t.resolve p) with
  | some e => .ok e
  | none => .error .notFound

def isFile (t : FileTree) (p : Text) : Bool :=
  match t.look p with
  | .ok (.file _) => true
  | _ => false

def isDirectory (t : FileTree) (p : Text) : Bool :=
  match t.look p with
  | .ok .directory => true
  | _ => false

def has (t : FileTree) (p : Text) : Bool :=
  match t.look p with
  | .ok _ => true
  | .error _ => false

/-! ## Reading -/

def read (t : FileTree) (p : Text) : Except FileFault Bytes := do
  match ← t.look p with
  | .file content => .ok content
  | .directory => .error .isDirectory

def decode (content : Bytes) : Except FileFault Text :=
  match Text.Utf8.decode? content with
  | some text => .ok text
  | none => .error .notUtf8

def readText (t : FileTree) (p : Text) : Except FileFault Text := do
  decode (← t.read p)

/-! ## Changing

A new entry is named by the last piece of its path; slashes at the end of the
path are no pieces here. -/

/-- The directory pieces and the last piece of a path, and whether a slash follows it. -/
structure Target where
  above : List Text
  last : Text
  slash : Bool

def target (p : Text) : Target :=
  let ps := (Path.pieces p).reverse
  match ps.dropWhile (· = []) with
  | [] => ⟨[], [], true⟩
  | last :: above => ⟨above.reverse, last, ps.head? = some []⟩

def parentOf (t : FileTree) (p : Text) : Except FileFault Location :=
  match pathFault? p with
  | some fault => .error fault
  | none => do
    let l ← (target p).above.foldlM t.enter (t.start p)
    t.enter l []

def isName (piece : Text) : Bool := piece ≠ [] && piece ≠ Path.dot && piece ≠ Path.dots

/-- Writes a file, in place of the one that is there. -/
def write (p : Text) (content : Bytes) (t : FileTree) : Except FileFault FileTree := do
  let parent ← t.parentOf p
  let x := target p
  if !isName x.last || x.slash then .error .isDirectory
  else
    let l ← t.enter parent x.last
    match t.entry? l with
    | some .directory => .error .isDirectory
    | _ => .ok (t.put l (.file content))

/-- Makes a directory in one that is there. -/
def makeDirectory (p : Text) (t : FileTree) : Except FileFault FileTree := do
  let parent ← t.parentOf p
  let x := target p
  if !isName x.last then .error .fileExists
  else
    let l ← t.enter parent x.last
    match t.entry? l with
    | some _ => .error .fileExists
    | none => .ok (t.put l .directory)

/-- Makes the directory `p` and those in `above` that are missing, the nearest first in `above`.
What was made before a fault stays. -/
def makeWithin (p : Text) (above : List Text) (t : FileTree) : FileTree × Option FileFault :=
  match t.makeDirectory p with
  | .ok t => (t, none)
  | .error .notFound =>
    match above with
    | [] => (t, some .notFound)
    | q :: above =>
      match makeWithin q above t with
      | (t, some fault) => (t, some fault)
      | (t, none) =>
        match t.makeDirectory p with
        | .ok t => (t, none)
        | .error fault => (t, if t.isDirectory p then none else some fault)
  | .error fault => (t, if t.isDirectory p then none else some fault)

def makeDirectories (p : Text) (t : FileTree) : FileTree × Option FileFault :=
  t.makeWithin p ((Path.ancestors p).tail.filter (· ≠ []))

def addDirectory (p : Text) (t : FileTree) : FileTree :=
  if p = [] then t else (t.makeDirectories p).1

/-- Adds a file and the directories above it; where that cannot be, nothing. -/
def addFile (p : Text) (content : Bytes) (t : FileTree) : FileTree :=
  let t := t.addDirectory ((Path.parent? p).getD [])
  match t.write p content with
  | .ok t => t
  | .error _ => t

/-! ## Listing -/

/-- The names that lead from `l` to `m`, if it is below. -/
def below? : (l m : Location) → Option (List Text)
  | [], m => some m
  | _ :: _, [] => none
  | a :: l, b :: m => if a = b then below? l m else none

def filesNamed (t : FileTree) (name : Text) (l : Location) : List (List Text) :=
  t.entries.filterMap fun (m, e) =>
    match e, below? l m with
    | .file _, some way => if way.getLast? = some name then some way else none
    | _, _ => none

end FileTree

end ModuleRules
