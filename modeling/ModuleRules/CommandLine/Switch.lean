import ModuleRules.Text.Basic

/-!
# Switches

An argument that starts with a dash names switches: one by a word behind two
dashes, or several by a letter each behind one. A switch that takes a value
finds it behind an equals sign, in the rest of the letters, or in the next
argument, which must not itself name switches. Two dashes alone end the
switches; all other arguments are plain values.
-/

namespace ModuleRules.CommandLine

/-- How often a switch may be given, and whether it takes a value. -/
inductive Taking
  | nothing
  | once
  | often
  deriving DecidableEq, Repr

structure Switch where
  word : Text
  letter : Option Char := none
  taking : Taking := .nothing
  accepts : Text → Bool := fun _ => true

inductive Refusal
  | misuse
  | help
  | version
  deriving DecidableEq, Repr

structure Given where
  switches : List (Text × Text) := []
  values : List Text := []
  deriving DecidableEq, Repr

namespace Given

def has (g : Given) (word : Text) : Bool := g.switches.any (·.1 = word)

def all (g : Given) (word : Text) : List Text := (g.switches.filter (·.1 = word)).map (·.2)

def first? (g : Given) (word : Text) : Option Text := (g.all word).head?

end Given

def helpWord : Text := "help"

def versionWord : Text := "version"

/-- Notes a switch, unless it may be given once only and was before. -/
def note (g : Given) (s : Switch) (value : Text) : Except Refusal Given :=
  if s.taking = .nothing ∧ s.word = helpWord then .error .help
  else if s.taking = .nothing ∧ s.word = versionWord then .error .version
  else if s.taking ≠ .often ∧ g.has s.word then .error .misuse
  else if s.accepts value then .ok { g with switches := g.switches ++ [(s.word, value)] }
  else .error .misuse

/-- The switches of the letters, and one at the end that still needs a value. -/
def letters (ss : List Switch) : Given → Text → Except Refusal (Given × Option Switch)
  | g, [] => .ok (g, none)
  | g, c :: r =>
    match ss.find? (·.letter = some c) with
    | none => .error .misuse
    | some s =>
      if s.taking = .nothing then do letters ss (← note g s []) r
      else if r = [] then .ok (g, some s)
      else do return (← note g s ((Text.after? "=" r).getD r), none)

/-- The switch of a word, and whether it still needs a value. -/
def word (ss : List Switch) (g : Given) (t : Text) : Except Refusal (Given × Option Switch) :=
  let (name, value) := match Text.splitOnce '=' t with
    | some (name, value) => (name, some value)
    | none => (t, none)
  match ss.find? (·.word = name), value with
  | none, _ => .error .misuse
  | some s, none => if s.taking = .nothing then do return (← note g s [], none) else .ok (g, some s)
  | some s, some v => if s.taking = .nothing then .error .misuse else do return (← note g s v, none)

def isDashed (a : Text) : Bool :=
  match a with
  | '-' :: _ :: _ => true
  | _ => false

def dashed (ss : List Switch) (g : Given) (a : Text) : Except Refusal (Given × Option Switch) :=
  match Text.after? "--" a with
  | some t => word ss g t
  | none => letters ss g a.tail

def readGiven (ss : List Switch) : Given → List Text → Except Refusal Given
  | g, [] => .ok g
  | g, a :: rest =>
    if a = "--".toList then .ok { g with values := g.values ++ rest }
    else if isDashed a then
      match dashed ss g a with
      | .error e => .error e
      | .ok (g, none) => readGiven ss g rest
      | .ok (g, some s) =>
        match rest with
        | [] => .error .misuse
        | v :: rest =>
          if isDashed v then .error .misuse
          else match note g s v with
            | .error e => .error e
            | .ok g => readGiven ss g rest
    else readGiven ss { g with values := g.values ++ [a] } rest

end ModuleRules.CommandLine
