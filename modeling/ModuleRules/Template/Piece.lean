import ModuleRules.Template.Tag

/-!
# Pieces of templates

A template is cut into texts and tags. A backslash before braces makes them
text. Between tags in four braces everything is text up to the next four,
other than the gap after the first.
-/

namespace ModuleRules.Template

/-! ## Texts between tags -/

def openingBraces : Text := "\x7b\x7b"

def fourBraces : Text := "\x7b\x7b\x7b\x7b"

def startsTag (t : Text) : Bool := (Text.after? openingBraces t).isSome

/-- The text up to the braces `stop`. A backslash before braces makes them text; of several
backslashes before a tag one is dropped. `inRun` tells that the others of these are being read. -/
def plain (stop : Text) : (inRun : Bool) → Text → Text × Text
  | _, [] => ([], [])
  | false, '\\' :: '\x7b' :: '\x7b' :: '\x7b' :: '\x7b' :: r =>
    let (t, r) := plain stop false r
    (fourBraces ++ t, r)
  | false, '\\' :: '\x7b' :: '\x7b' :: r =>
    let (t, r) := plain stop false r
    (openingBraces ++ t, r)
  | inRun, c :: r =>
    if (Text.after? stop (c :: r)).isSome then ([], c :: r)
    else if !inRun && c = '\\' && r.head? = some '\\' && startsTag (r.dropWhile (· = '\\')) then
      plain stop true r
    else
      let (t, r) := plain stop (inRun && c = '\\') r
      (c :: t, r)

/-! ## Blocks of text -/

/-- The opening tag of a block in four braces, what stands in it, and its closing tag. -/
def textBlock? (t : Text) : Option (Mark × Text × Mark × Text) := do
  let (before, r) := tilde (← Text.after? fourBraces t)
  let (c, r) ← opening? r
  let (start, r) ← close? four (.opening c) before r
  let (inside, r) := plain fourBraces false r
  let (before, r) := tilde (← Text.after? fourBraces r)
  let (n, r) ← name? (skipGap (← Text.after? "/" (skipGap r)))
  let (stop, r) ← close? four (.closing n) before r
  return ({ start with takesGap := true }, inside, stop, r)

/-! ## Pieces -/

structure Pieces where
  start : Text
  marks : List (Mark × Text)

/-- Cuts a template into texts and tags; `fuel` bounds the number of tags. -/
def piecesUpTo : (fuel : Nat) → Text → Option Pieces
  | 0, _ => none
  | fuel + 1, t =>
    let (start, r) := plain openingBraces false t
    if r = [] then some ⟨start, []⟩
    else match textBlock? r with
      | some (m, inside, n, r) =>
        (piecesUpTo fuel r).map fun next =>
          ⟨start, (m, inside) :: (n, next.start) :: next.marks⟩
      | none => do
        let (m, r) ← tag? (← Text.after? openingBraces r)
        let next ← piecesUpTo fuel r
        return ⟨start, (m, next.start) :: next.marks⟩

def pieces? (t : Text) : Option Pieces := piecesUpTo (t.length + 1) t

end ModuleRules.Template
