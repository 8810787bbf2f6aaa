import ModuleRules.Text.Basic

/-!
# File faults

Why a file operation failed, with the wording of the operating system and its
error number where it has one.
-/

namespace ModuleRules

inductive FileFault
  | notFound
  | notDirectory
  | isDirectory
  | nameTooLong
  | fileExists
  | nulInPath
  | notUtf8
  /-- An empty path has no absolute form. -/
  | emptyPath
  deriving DecidableEq, Repr

def FileFault.message : FileFault → Text
  | notFound => "No such file or directory (os error 2)"
  | notDirectory => "Not a directory (os error 20)"
  | isDirectory => "Is a directory (os error 21)"
  | nameTooLong => "File name too long (os error 36)"
  | fileExists => "File exists (os error 17)"
  | nulInPath => "file name contained an unexpected NUL byte"
  | notUtf8 => "stream did not contain valid UTF-8"
  | emptyPath => "cannot make an empty path absolute"

/-- What stands in a message for the place and kind of a flaw in a formal language. -/
def flawDetail : Text := "<detail>"

end ModuleRules
