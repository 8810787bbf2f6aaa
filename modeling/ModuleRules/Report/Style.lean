import ModuleRules.Text.Basic

/-!
# Terminal styles

A styled text stands between an escape sequence that turns the style on and
one that turns all styles off. Padding is inside, and where the text itself
turns styles off the style is turned on again. Without color a text is only
padded.
-/

namespace ModuleRules

inductive Style
  | bold
  | dimmed
  | red
  | green
  | yellow
  | cyan
  deriving DecidableEq, Repr

namespace Style

def code : Style → Text
  | bold => "1"
  | dimmed => "2"
  | red => "31"
  | green => "32"
  | yellow => "33"
  | cyan => "36"

def escapeSequence (code : Text) : Text := "\x1b[" ++ code ++ "m"

def on (s : Style) : Text := escapeSequence s.code

def off : Text := escapeSequence "0"

def addBehind (mark extra : Text) : (fuel : Nat) → Text → Text
  | 0, t => t
  | fuel + 1, t =>
    match Text.cut? mark t with
    | some (a, b) => a ++ mark ++ extra ++ addBehind mark extra fuel b
    | none => t

def paint (color : Bool) (s : Style) (t : Text) (width : Nat := 0) : Text :=
  if color then s.on ++ Text.padRight width (addBehind off s.on t.length t) ++ off
  else Text.padRight width t

end Style

end ModuleRules
