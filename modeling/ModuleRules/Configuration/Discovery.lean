import ModuleRules.Configuration.Loader
import ModuleRules.File.Tree

/-!
# Configuration files

A project is configured by the files named `module-rewrite.conf` in its
directory and in every directory above. The closest file is loaded first.
-/

namespace ModuleRules

namespace Configuration

def fileName : Text := "module-rewrite.conf"

/-- The configuration files for a directory, the closest first. -/
def discover (t : FileTree) (directory : Text) : List Text :=
  ((Path.ancestors directory).map (Path.join · fileName)).filter t.isFile

end Configuration

namespace Loaded

/-- The lines of a file, each a text or unreadable. The last piece is a line only if it is not
empty, and ends no line. -/
def linesOfBytes : List Bytes → List (Except FileFault Text)
  | [] => []
  | [b] => if b = [] then [] else [FileTree.decode b]
  | b :: c :: r => (FileTree.decode b).map Text.dropReturn :: linesOfBytes (c :: r)

def addBytes (properties : Properties) (source : Text) (content : Bytes) (l : Loaded) :
    Loaded × Option LoadError :=
  l.addLines properties source (linesOfBytes (Text.Utf8.splitLines content))

def addFile (t : FileTree) (properties : Properties) (path : Text) (l : Loaded) :
    Loaded × Option LoadError :=
  match t.read path with
  | .ok content => l.addBytes properties path content
  | .error fault => (l, some (.unreadable path fault))

/-- Reads files in order, up to the first that stops early. -/
def addFiles (t : FileTree) (properties : Properties) : List Text → Loaded → Except LoadError Loaded
  | [], l => .ok l
  | path :: paths, l =>
    match l.addFile t properties path with
    | (l, none) => addFiles t properties paths l
    | (_, some e) => .error e

end Loaded

namespace Configuration

def loadFiles (t : FileTree) (properties : Properties) (paths : List Text) :
    Except LoadError Loaded :=
  Loaded.addFiles t properties paths {}

def loadProject (t : FileTree) (properties : Properties) (directory : Text) :
    Except LoadError Loaded :=
  match Path.absolute t.workingPath directory with
  | .ok start => loadFiles t properties (discover t start)
  | .error fault => .error (.unreadable directory fault)

end Configuration

end ModuleRules
