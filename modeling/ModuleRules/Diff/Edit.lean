import ModuleRules.Text.Basic

/-!
# Edits

An edit script goes through an old and a new list of lines at once. Each edit
keeps, deletes or inserts a run of lines; it knows where it stands in both
lists and how many lines it takes.
-/

namespace ModuleRules.Diff

abbrev Lines := Array Text

/-- The lines of a text with their ends: a line feed, a carriage return, or both. -/
def splitLines : Text → List Text
  | [] => []
  | '\n' :: r => ['\n'] :: splitLines r
  | '\r' :: '\n' :: r => ['\r', '\n'] :: splitLines r
  | '\r' :: r => ['\r'] :: splitLines r
  | c :: [] => [[c]]
  | c :: d :: r =>
    match splitLines (d :: r) with
    | l :: ls => (c :: l) :: ls
    | [] => [[c]]

inductive Kind
  | keep
  | delete
  | insert
  deriving DecidableEq, Repr

structure Edit where
  kind : Kind
  old : Nat
  new : Nat
  size : Nat
  deriving DecidableEq, Repr

namespace Edit

def oldEnd (e : Edit) : Nat := if e.kind = .insert then e.old else e.old + e.size

def newEnd (e : Edit) : Nat := if e.kind = .delete then e.new else e.new + e.size

end Edit

/-- How many lines are the same from `i` and `j` on, at most `n`. -/
def sameFrom (a b : Lines) (i j : Nat) : (n : Nat) → Nat
  | 0 => 0
  | n + 1 => if a[i]? = b[j]? then sameFrom a b (i + 1) (j + 1) n + 1 else 0

def sameBefore (a b : Lines) (i j : Nat) : (n : Nat) → Nat
  | 0 => 0
  | n + 1 => if a[i - 1]? = b[j - 1]? then sameBefore a b (i - 1) (j - 1) n + 1 else 0

end ModuleRules.Diff
