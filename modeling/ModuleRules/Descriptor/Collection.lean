import ModuleRules.Ascending
import ModuleRules.File.Tree

/-!
# Descriptor files

The files that are meant by a list of paths: a file means itself, a directory
every `module.json` below it. They come out in the order of paths, and of
paths with the same components the first one stays.
-/

namespace ModuleRules

structure DescriptorFiles where
  files : List Text
  missing : List Text
  deriving DecidableEq, Repr

namespace DescriptorFiles

def fileName : Text := "module.json"

def under (directory : Text) (way : List Text) : Text := way.foldl Path.join directory

def meant (t : FileTree) (path : Text) : List Text :=
  match t.look path, t.resolve path with
  | .ok (.file _), _ => [path]
  | .ok .directory, .ok l => (t.filesNamed fileName l).map (under path)
  | _, _ => []

def collect (t : FileTree) (paths : List Text) : DescriptorFiles where
  files := Ascending.ofList Path.precedes (paths.flatMap (meant t))
  missing := paths.filter fun p => !t.isFile p && !t.isDirectory p

end DescriptorFiles

end ModuleRules
