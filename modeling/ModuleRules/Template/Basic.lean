import ModuleRules.File.Fault
import ModuleRules.Json.Basic

/-!
# Templates

A template is a text with holes. A hole shows a value, which is written out,
taken from the data or made by a helper, or it is a block: a helper decides
from its arguments whether the body of the block is shown, how often and with
which values at hand, or what is shown otherwise.

A decorator keeps the body of its block as a part, and a part is shown where
it is included. The body of a block that includes is shown when there is no
such part, and where the part includes the block around it.
-/

namespace ModuleRules

inductive Reference
  /-- What `each` says about its items, `up` values further out. -/
  | variable (up : Nat) (name : Text)
  /-- What the names lead to from the value at hand, or from one further out. -/
  | value (up : Nat) (names : List Text)
  /-- What the names lead to from the whole data. -/
  | ofRoot (names : List Text)
  deriving DecidableEq, Repr

namespace Reference

/-- A name that means the value at hand. -/
def this : Text := "this"

/-- What a reference means that is written with these parts: whether it starts from the root,
whether it asks for a variable, how far out it goes, and its names. -/
def ofParts (root asks : Bool) (up : Nat) (names : List Text) : Reference :=
  let names := names.filter (· ≠ this)
  if root then .ofRoot names
  else if asks then
    match names with
    | [] => .value 0 []
    | n :: _ => .variable up n
  else .value up names

end Reference

inductive Argument
  | reference (r : Reference)
  /-- A value that is written out; none if what is written has the form of one and is none. -/
  | literal (j : Option Json)
  | applied (helper : Text) (arguments : List Argument) (options : List (Text × Argument))
  deriving Repr

namespace Argument

mutual

def isSound : Argument → Bool
  | .reference _ => true
  | .literal j => j.isSome
  | .applied _ arguments options => areSound arguments && optionsSound options

def areSound : List Argument → Bool
  | [] => true
  | a :: r => isSound a && areSound r

def optionsSound : List (Text × Argument) → Bool
  | [] => true
  | (_, a) :: r => isSound a && optionsSound r

end

end Argument

structure Operands where
  arguments : List Argument := []
  options : List (Text × Argument) := []
  deriving Repr

namespace Operands

def isSound (o : Operands) : Bool :=
  Argument.areSound o.arguments && Argument.optionsSound o.options

def isEmpty (o : Operands) : Bool := o.arguments.isEmpty && o.options.isEmpty

def addArgument (o : Operands) (a : Argument) : Operands :=
  { o with arguments := o.arguments ++ [a] }

/-- Sets an option; what it was before is forgotten. -/
def setOption (o : Operands) (x : Text × Argument) : Operands :=
  { o with options := o.options.filter (·.1 ≠ x.1) ++ [x] }

end Operands

structure Call extends Operands where
  helper : Text
  /-- Names that the block gives to the item at hand and to its place. -/
  names : List Text := []
  deriving Repr

structure Inclusion extends Operands where
  name : Argument
  /-- What is put in front of the lines of the part, other than the first. -/
  indent : Text := []
  hasBody : Bool := false
  deriving Repr

def Inclusion.isSound (i : Inclusion) : Bool := i.name.isSound && i.toOperands.isSound

def Inclusion.fixedName? (i : Inclusion) : Option Text :=
  match i.name with
  | .literal (some j) => j.text?
  | _ => none

inductive Template
  | done
  | text (t : Text) (rest : Template)
  | value (a : Argument) (rest : Template)
  | block (c : Call) (body otherwise rest : Template)
  | decorate (c : Call) (body rest : Template)
  | inclusion (i : Inclusion) (body rest : Template)
  deriving Repr

def helperNames : List Text :=
  ["if", "unless", "each", "with", "lookup", "len", "eq", "ne", "gt", "gte", "lt", "lte", "and",
    "or", "not", "raw", "log"]

inductive TemplateError
  | syntaxFlaw
  | unknownHelper (name : Text)
  | missingArgument (helper : Text)
  | unfitArgument (helper : Text)
  | unknownDecorator (name : Text)
  | unknownPart (name : Text)
  /-- Parts include one another too deep. -/
  | endlessInclusion
  /-- A name that is asked of an array and is no number. -/
  | badIndex (name : Text)
  deriving DecidableEq, Repr

def TemplateError.message : TemplateError → Text := fun _ => flawDetail

end ModuleRules
