import ModuleRules.Diff.Edit

/-!
# Tidy edit scripts

Insertions are moved up and down over kept lines as far as the lines allow, so
that insertions which meet become one; deletions and insertions trade places
on the way. Each insertion is left as far down as it goes. Deletions do not
move over kept lines.

An edit is moved in a list that is open at it: the edits before it, nearest
first, and those after it.
-/

namespace ModuleRules.Diff

structure Cursor where
  before : List Edit
  here : Edit
  after : List Edit

namespace Cursor

/-- How many lines the edit can move up over the kept lines before it. -/
def roomAbove (a b : Lines) (kept e : Edit) : Nat :=
  if e.kind = .insert then sameBefore a b kept.oldEnd e.newEnd (min kept.size e.size) else 0

def roomBelow (a b : Lines) (kept e : Edit) : Nat :=
  if e.kind = .insert then sameFrom a b kept.old e.new (min kept.size e.size) else 0

def movedUp (n : Nat) (e : Edit) : Edit := { e with old := e.old - n, new := e.new - n }

def movedDown (n : Nat) (e : Edit) : Edit := { e with old := e.old + n, new := e.new + n }

/-- The edit without its last lines, left out if nothing remains. -/
def withoutLast (n : Nat) (e : Edit) : List Edit :=
  if e.size ≤ n then [] else [{ e with size := e.size - n }]

def withoutFirst (n : Nat) (e : Edit) : List Edit :=
  if e.size ≤ n then [] else [{ movedDown n e with size := e.size - n }]

def up (a b : Lines) : (fuel : Nat) → Cursor → Cursor
  | 0, c => c
  | fuel + 1, c =>
    match c.before with
    | [] => c
    | e :: before =>
      if e.kind = .keep then
        let n := roomAbove a b e c.here
        if n = 0 then
          if e.size = 0 then up a b fuel { c with before := before } else c
        else
          let after := match c.after with
            | f :: after =>
              if f.kind = .keep then { movedUp n f with size := f.size + n } :: after
              else ⟨.keep, e.oldEnd - n, c.here.newEnd - n, n⟩ :: f :: after
            | [] => [⟨.keep, e.oldEnd - n, c.here.newEnd - n, n⟩]
          up a b fuel ⟨withoutLast n e ++ before, movedUp n c.here, after⟩
      else if e.kind = c.here.kind then
        up a b fuel ⟨before, { e with size := e.size + c.here.size }, c.after⟩
      else up a b fuel ⟨before, c.here, e :: c.after⟩

def down (a b : Lines) : (fuel : Nat) → Cursor → Cursor
  | 0, c => c
  | fuel + 1, c =>
    match c.after with
    | [] => c
    | e :: after =>
      if e.kind = .keep then
        let n := roomBelow a b e c.here
        if n = 0 then
          if e.size = 0 then down a b fuel { c with after := after } else c
        else
          let before := match c.before with
            | f :: before =>
              if f.kind = .keep then { f with size := f.size + n } :: before
              else ⟨.keep, e.old, c.here.new, n⟩ :: f :: before
            | [] => [⟨.keep, e.old, c.here.new, n⟩]
          down a b fuel ⟨before, movedDown n c.here, withoutFirst n e ++ after⟩
      else if e.kind = c.here.kind then
        down a b fuel ⟨c.before, { c.here with size := c.here.size + e.size }, after⟩
      else down a b fuel ⟨e :: c.before, c.here, after⟩

end Cursor

/-- Moves each edit of one kind up and then down. -/
def settle (a b : Lines) (kind : Kind) (moves : Nat) :
    (fuel : Nat) → (before after : List Edit) → List Edit
  | 0, before, after => before.reverse ++ after
  | _, before, [] => before.reverse
  | fuel + 1, before, e :: after =>
    if e.kind = kind then
      let c := Cursor.down a b moves (Cursor.up a b moves ⟨before, e, after⟩)
      settle a b kind moves fuel (c.here :: c.before) c.after
    else settle a b kind moves fuel (e :: before) after

/-- Moves deletions, then insertions. The bounds exceed what the lines and edits allow. -/
def tidy (a b : Lines) (script : List Edit) : List Edit :=
  let moves := 2 * (a.size + b.size + script.length) + 2
  let passes := moves * moves
  settle a b .insert moves passes [] (settle a b .delete moves passes [] script)

end ModuleRules.Diff
