import ModuleRules.Template.Piece
import ModuleRules.Text.Blank

/-!
# Layout of templates

A tag can ask that the blanks on one of its sides are dropped. A tag that
shows nothing by itself and stands alone on its line takes the line with it:
the spaces before it, those after it and the line end. The inclusion of a part
leaves the spaces before it and has them put before the other lines as well.
-/

namespace ModuleRules.Template

def isSpace (c : Char) : Bool := c = ' ' || c = '\t'

def isLineEnd (c : Char) : Bool := c = '\n' || c = '\r'

def trimSpaces (t : Text) : Text := (t.reverse.dropWhile isSpace).reverse

def endSpaces (t : Text) : Text := (t.reverse.takeWhile isSpace).reverse

/-- The text without the spaces and the line end at its start. -/
def dropLine (t : Text) : Text :=
  match t.dropWhile isSpace with
  | '\r' :: '\n' :: r => r
  | '\n' :: r => r
  | r => r

/-- Whether a line starts at the end of the text, spaces aside. -/
def endsLine (first : Bool) (t : Text) : Bool :=
  match (trimSpaces t).getLast? with
  | some c => isLineEnd c
  | none => first

/-- Whether a line ends at the start of the text, spaces aside; the end of the template ends
none. -/
def startsLine (t : Text) : Bool :=
  match (t.dropWhile isSpace).head? with
  | some c => isLineEnd c
  | none => false

def Tag.isSilent : Tag → Bool
  | .value _ => false
  | .call _ => false
  | _ => true

def Tag.keepsIndent : Tag → Bool
  | .inclusion _ => true
  | _ => false

def Tag.indented (spaces : Text) : Tag → Tag
  | .inclusion i => .inclusion { i with indent := spaces }
  | x => x

def Tag.isComment : Tag → Bool
  | .comment => true
  | _ => false

/-- What is trimmed at the start of a text. -/
structure Front where
  gap : Bool := false
  drop : Bool := false
  alone : Bool := false

def Front.trim (f : Front) (t : Text) : Text :=
  let t := if f.gap then skipGap t else t
  if f.drop then Text.trimStart t else if f.alone then dropLine t else t

/-- Trims the end of a text whose tag behind it asks for it or stands alone. -/
def trimBack (drop alone : Bool) (t : Text) : Text :=
  let t := if drop then Text.trimEnd t else t
  if alone then trimSpaces t else t

/-- What is trimmed behind a tag. `standsAlone` tells that it takes its line. A comment passes on
the wish of the tag before it to drop blanks, and a line end that is still to be dropped is looked
for behind a tag that is not silent when there is no text before that. -/
def Front.next (f : Front) (m : Mark) (standsAlone : Bool) (t : Text) : Front where
  gap := m.takesGap
  drop := if m.tag.isComment then f.drop else m.after
  alone :=
    if m.tag.isSilent then standsAlone
    else f.alone && (t.isEmpty || (f.drop && t.all isGap))

/-- Lays out the text `t` and what follows it. `first` tells that no tag precedes it. -/
def layOut (first : Bool) (f : Front) (t : Text) : List (Mark × Text) → Text × List (Mark × Text)
  | [] => (f.trim t, [])
  | (m, u) :: rest =>
    let standsAlone := m.tag.isSilent && endsLine first t && startsLine u
    let next := layOut false (f.next m standsAlone t) u rest
    let tag := if m.before then m.tag else m.tag.indented (endSpaces t)
    (trimBack m.before (standsAlone && !m.tag.keepsIndent) (f.trim t),
      ({ m with tag }, next.1) :: next.2)

def Pieces.layOut (p : Pieces) : Pieces :=
  let (start, marks) := Template.layOut true {} p.start p.marks
  ⟨start, marks⟩

end ModuleRules.Template
