import ModuleRules.Diff.Edit

/-!
# Shortest edit scripts

Divide and conquer on the grid of old and new lines. Common lines at either
end of a box are kept. In what is left, shortest paths are followed from both
corners at once, one more edit at a time, remembering how far each diagonal
was reached; where the two meet the box is cut in two.
-/

namespace ModuleRules.Diff

structure Box where
  old : Nat
  oldEnd : Nat
  new : Nat
  newEnd : Nat
  deriving Repr

namespace Box

def height (b : Box) : Nat := b.oldEnd - b.old

def width (b : Box) : Nat := b.newEnd - b.new

end Box

/-- How many old lines the furthest path on each diagonal has passed. -/
structure Frontier where
  offset : Nat
  reached : Array Nat

namespace Frontier

def start (steps : Nat) : Frontier := ⟨steps + 1, Array.replicate (2 * steps + 3) 0⟩

def get (f : Frontier) (k : Int) : Nat := f.reached.getD (k + f.offset).toNat 0

def set (f : Frontier) (k : Int) (x : Nat) : Frontier :=
  { f with reached := f.reached.setIfInBounds (k + f.offset).toNat x }

/-- Where the `d`th edit leads on diagonal `k`: from the neighbour that is further. -/
def next (f : Frontier) (d : Nat) (k : Int) : Nat :=
  if k = -d ∨ (k ≠ d ∧ f.get (k - 1) < f.get (k + 1)) then f.get (k + 1) else f.get (k - 1) + 1

end Frontier

/-- The diagonals that `d` edits can lead to, from the last to the first. -/
def diagonals (d : Nat) : List Int :=
  (List.range (d + 1)).map fun (i : Nat) => (d : Int) - 2 * (i : Int)

/-- One round of forward paths; ends early at the start of the run of common lines in which a
forward path meets a backward one. -/
def forward (a b : Lines) (box : Box) (back : Frontier) (d : Nat) :
    List Int → Frontier → Frontier × Option (Nat × Nat)
  | [], f => (f, none)
  | k :: ks, f =>
    let x₀ := f.next d k
    let y₀ := (x₀ - k : Int).toNat
    let x := x₀ + sameFrom a b (box.old + x₀) (box.new + y₀)
      (min (box.height - x₀) (box.width - y₀))
    let f := f.set k x
    let delta : Int := box.height - box.width
    if delta % 2 = 1 ∧ (k - delta).natAbs + 1 ≤ d ∧ box.height ≤ x + back.get (-(k - delta)) then
      (f, some (box.old + x₀, box.new + y₀))
    else forward a b box back d ks f

/-- One round of backward paths; ends early at the end of a run in which the paths meet. -/
def backward (a b : Lines) (box : Box) (ahead : Frontier) (d : Nat) :
    List Int → Frontier → Frontier × Option (Nat × Nat)
  | [], f => (f, none)
  | k :: ks, f =>
    let x₀ := f.next d k
    let y₀ := (x₀ - k : Int).toNat
    let run := sameBefore a b (box.oldEnd - x₀) (box.newEnd - y₀)
      (min (box.height - x₀) (box.width - y₀))
    let x := x₀ + run
    let f := f.set k x
    let delta : Int := box.height - box.width
    if delta % 2 = 0 ∧ (k - delta).natAbs ≤ d ∧ box.height ≤ x + ahead.get (-(k - delta)) then
      (f, some (box.oldEnd - x, box.newEnd - (y₀ + run)))
    else backward a b box ahead d ks f

/-- Rounds of both searches until the paths meet; `rounds` bounds their number. -/
def meet (a b : Lines) (box : Box) : (rounds d : Nat) → Frontier → Frontier → Option (Nat × Nat)
  | 0, _, _, _ => none
  | rounds + 1, d, f, g =>
    match forward a b box g d (diagonals d) f with
    | (_, some p) => some p
    | (f, none) =>
      match backward a b box f d (diagonals d) g with
      | (_, some p) => some p
      | (g, none) => meet a b box rounds (d + 1) f g

def middle (a b : Lines) (box : Box) : Option (Nat × Nat) :=
  let rounds := (box.height + box.width + 1) / 2 + 1
  meet a b box rounds 0 (.start rounds) (.start rounds)

/-- The edits of a box; `fuel` bounds the depth of its division. -/
def editsWithin (a b : Lines) : (fuel : Nat) → Box → List Edit
  | 0, box => [⟨.delete, box.old, box.new, box.height⟩, ⟨.insert, box.old, box.new, box.width⟩]
  | fuel + 1, box =>
    let head := sameFrom a b box.old box.new (min box.height box.width)
    let rest : Box := { box with old := box.old + head, new := box.new + head }
    let last := sameBefore a b rest.oldEnd rest.newEnd (min rest.height rest.width)
    let core : Box := { rest with oldEnd := rest.oldEnd - last, newEnd := rest.newEnd - last }
    let keep (old new size : Nat) : List Edit := if size = 0 then [] else [⟨.keep, old, new, size⟩]
    let delete : Edit := ⟨.delete, core.old, core.new, core.height⟩
    let insert : Edit := ⟨.insert, core.old, core.new, core.width⟩
    let inner :=
      if core.height = 0 ∧ core.width = 0 then []
      else if core.width = 0 then [delete]
      else if core.height = 0 then [insert]
      else match middle a b core with
        | none => [delete, insert]
        | some (x, y) =>
          editsWithin a b fuel { core with oldEnd := x, newEnd := y } ++
            editsWithin a b fuel { core with old := x, new := y }
    keep box.old box.new head ++ inner ++ keep core.oldEnd core.newEnd last

def edits (a b : Lines) : List Edit :=
  editsWithin a b (a.size + b.size + 1) ⟨0, a.size, 0, b.size⟩

end ModuleRules.Diff
