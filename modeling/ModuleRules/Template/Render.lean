import ModuleRules.Template.Helper
import ModuleRules.Template.Parser

/-!
# Rendering templates

A template is rendered with frames: each holds a value at hand, what is said
about its place and the names a block gave. A value that is missing shows as
nothing, and no character is escaped.
-/

namespace ModuleRules.Template

structure Scene where
  data : Json
  frames : List Frame := []
  /-- What is put in front of the lines of the part that is shown. -/
  indent : Text := []
  /-- The bodies of the inclusions around this place, from the inside out. -/
  bodies : List Template := []
  /-- How many of these are passed over when one is included. -/
  passed : Nat := 0

/-! ## Values -/

def placeLimit : Nat := Nat.pow 2 64

def place? (name : Text) : Option Nat :=
  let ds := (Text.after? "+" name).getD name
  if ds = [] ∨ !ds.all isDigit then none
  else
    let n := ds.foldl (fun n d => n * 10 + (d.toNat - '0'.toNat)) 0
    if n < placeLimit then some n else none

def member (v : Option Json) (name : Text) : Except TemplateError (Option Json) :=
  match v with
  | some (.array js) =>
    match place? name with
    | some i => .ok js[i]?
    | none => .error (.badIndex name)
  | some (.object fields) => .ok (Json.valuesOf name fields).head?
  | _ => .ok none

/-- What the names lead to from a value; it has its place in the data if the value has. -/
def follow (v : Held) (names : List Text) : Except TemplateError (Option Held) := do
  let j ← names.foldlM member (some v.value)
  return j.map fun j => ⟨j, v.placed⟩

namespace Scene

def outermost (s : Scene) : Frame := ⟨⟨s.data, true⟩, [], []⟩

/-- The frame `up` levels further out; where there is none, the innermost. -/
def frame (s : Scene) (up : Nat) : Frame := (s.frames[up]?.or s.frames[0]?).getD s.outermost

/-- The value that a block gave a name, the innermost first. -/
def named? (s : Scene) (name : Text) : Option Held := s.frames.findSome? fun f => find? name f.names

def look (s : Scene) : Reference → Except TemplateError (Option Held)
  | .variable up name =>
    .ok ((s.frames[up]?.bind fun f => find? name f.facts).map fun j => ⟨j, false⟩)
  | .ofRoot names => follow s.outermost.this names
  | .value up names =>
    match names.head?.bind s.named? with
    | some v => follow v (if up = 0 then names.tail else names)
    | none => follow (s.frame up).this names

def enter (s : Scene) (f : Frame) : Scene := { s with frames := f :: s.frames }

end Scene

/-! ## Showing values -/

def numberText (n : Json.Number) : Text :=
  match n.value? with
  | some (.integer i) => .ofInt i
  | some (.double x) => x.shortText
  | none => []

mutual

def shown : Json → Text
  | .null => []
  | .bool true => "true"
  | .bool false => "false"
  | .number n => numberText n
  | .string t => t.getD []
  | .array js => '[' :: shownItems js ++ "]"
  | .object _ => "[object]"

def shownItems : List Json → Text
  | [] => []
  | [j] => shown j
  | j :: k :: js => shown j ++ ", " ++ shownItems (k :: js)

end

/-- The text with the indent behind every line end that is not its end. -/
def indented (indent : Text) : Text → Text
  | '\n' :: c :: r => '\n' :: indent ++ indented indent (c :: r)
  | c :: r => c :: indented indent r
  | [] => []

/-! ## Calls -/

namespace Scene

mutual

def argument (s : Scene) : Argument → Except TemplateError Held
  | .reference r => (s.look r).map fun v => v.getD ⟨.null, false⟩
  | .literal (some j) => .ok ⟨j, false⟩
  | .literal none => .error .syntaxFlaw
  | .applied helper as os => do
    let a : Applied := { helper, arguments := ← s.arguments as, options := ← s.options os }
    return ⟨(← a.branch).alone, false⟩

def arguments (s : Scene) : List Argument → Except TemplateError (List Held)
  | [] => .ok []
  | a :: r => do return (← s.argument a) :: (← s.arguments r)

def options (s : Scene) : List (Text × Argument) → Except TemplateError (List (Text × Json))
  | [] => .ok []
  | (name, a) :: r => do return (name, (← s.argument a).value) :: (← s.options r)

end

def apply (s : Scene) (c : Call) : Except TemplateError Applied := do
  return ⟨c.helper, ← s.arguments c.arguments, ← s.options c.options, c.names⟩

/-- How an argument is shown. If a helper makes the name of a helper, that one is called. -/
def display (s : Scene) (a : Argument) : Except TemplateError Text := do
  let t := shown (← s.argument a).value
  match a with
  | .applied _ _ _ =>
    if helperNames.contains t then
      return shown (← Applied.branch { helper := t }).alone
    else return indented s.indent t
  | _ => return indented s.indent t

end Scene

/-! ## Parts -/

/-- The parts by name, the latest first. -/
abbrev Parts := List (Text × Template)

abbrev Rendering (α : Type) := StateT Parts (Except TemplateError) α

def keepingPart : Text := "inline"

def keep (a : Applied) (body : Template) : Rendering Unit :=
  if a.helper = keepingPart then
    match a.arguments with
    | ⟨.string (some name), _⟩ :: _ => modify ((name, body) :: ·)
    | _ => throw (.unfitArgument a.helper)
  else throw (.unknownDecorator a.helper)

/-- Keeps the parts that the decorators of a template name, those inside blocks aside. -/
def keepParts (s : Scene) : Template → Rendering Unit
  | done => pure ()
  | text _ rest => keepParts s rest
  | value _ rest => keepParts s rest
  | block _ _ _ rest => keepParts s rest
  | inclusion _ _ rest => keepParts s rest
  | decorate c body rest => do
    keep (← s.apply c) body
    keepParts s rest

def bodyName : Text := "@partial-block"

namespace Scene

def part? (s : Scene) (name : Text) (ps : Parts) : Option Template :=
  if name = bodyName then s.bodies[s.passed]? else find? name ps

/-- The frames of a part to which `a` is handed over. A value that has its place in the data takes
the place of all frames, and the options are put into the value at hand. -/
def framesFor (s : Scene) (a : Applied) : List Frame :=
  let frames := match a.arguments with
    | ⟨j, true⟩ :: _ => [⟨⟨j, true⟩, [], []⟩]
    | _ => s.frames
  if a.options = [] then frames
  else
    let f := frames.head?.getD s.outermost
    [{ f with this := ⟨f.this.value.withFields a.options, false⟩ }]

def inPart (s : Scene) (a : Applied) (i : Inclusion) (body : Template) : Scene :=
  { s with
    frames := s.framesFor a
    indent := i.indent
    bodies := if i.hasBody then body :: s.bodies else s.bodies
    passed := if a.helper = bodyName then s.passed + 1 else s.passed - 1 }

end Scene

/-! ## Rendering -/

/-- Renders a template where `inside` renders parts. What a part keeps is forgotten after it. -/
def renderWith (inside : Template → Scene → Parts → Except TemplateError Text) :
    Template → Scene → Rendering Text
  | done, _ => return []
  | text t rest, s => return indented s.indent t ++ (← renderWith inside rest s)
  | value a rest, s => do return (← s.display a) ++ (← renderWith inside rest s)
  | block c body otherwise rest, s => do
    let here ← match ← (← s.apply c).branch with
      | .body => renderWith inside body s
      | .inside fs =>
        let shows ← fs.mapM fun f => renderWith inside body (s.enter f)
        pure shows.flatten
      | .otherwise => renderWith inside otherwise s
      | .value j => pure (shown j)
    return here ++ (← renderWith inside rest s)
  | decorate c body rest, s => do
    keep (← s.apply c) body
    renderWith inside rest s
  | inclusion i body rest, s => do
    let name := shown (← s.argument i.name).value
    let a : Applied :=
      { helper := name, arguments := ← s.arguments i.arguments, options := ← s.options i.options }
    if i.hasBody then keepParts s body
    let ps ← get
    match (s.part? name ps).or (if i.hasBody then some body else none) with
    | none => throw (.unknownPart name)
    | some x =>
      let here ← inside x (s.inPart a i body) ps
      return here ++ (← renderWith inside rest s)

/-- Renders a template in which parts include one another up to `depth` deep. -/
def renderUpTo : (depth : Nat) → Template → Scene → Parts → Except TemplateError Text
  | 0, _, _, _ => .error .endlessInclusion
  | depth + 1, x, s, ps => (renderWith (renderUpTo depth) x s ps).map (·.1)

def maxDepthOfParts : Nat := 1000

def render (x : Template) (data : Json) : Except TemplateError Text :=
  renderUpTo maxDepthOfParts x { data, frames := [⟨⟨data, true⟩, [], []⟩] } []

end ModuleRules.Template
