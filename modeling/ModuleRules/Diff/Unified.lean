import ModuleRules.Diff.Search
import ModuleRules.Diff.Tidy

/-!
# Unified diffs

The changed lines of a text, with up to three unchanged lines around them.
Changes with more than six unchanged lines between them stand in hunks of
their own. Each hunk starts with the ranges it covers in the old and the new
text. A last line that is not ended says so.
-/

namespace ModuleRules.Diff

structure Block where
  kept : Bool
  old : Nat
  oldSize : Nat
  new : Nat
  newSize : Nat
  deriving DecidableEq, Repr

namespace Block

def ofChanges (deletion insertion : Option Edit) : List Block :=
  match deletion, insertion with
  | none, none => []
  | some d, none => [⟨false, d.old, d.size, d.new, 0⟩]
  | none, some i => [⟨false, i.old, 0, i.new, i.size⟩]
  | some d, some i => [⟨false, d.old, d.size, i.new, i.size⟩]

def extend (first : Option Edit) (e : Edit) : Option Edit :=
  match first with
  | some f => some { f with size := f.size + e.size }
  | none => some e

def ofKept : Option Edit → List Block
  | some e => [⟨true, e.old, e.size, e.new, e.size⟩]
  | none => []

/-- Gathers edits into blocks: kept lines, or all deletions and insertions between them. -/
def gather : (kept deletion insertion : Option Edit) → List Edit → List Block
  | kept, deletion, insertion, [] => ofKept kept ++ ofChanges deletion insertion
  | kept, deletion, insertion, e :: es =>
    match e.kind with
    | .keep => ofChanges deletion insertion ++ gather (extend kept e) none none es
    | .delete => ofKept kept ++ gather none (extend deletion e) insertion es
    | .insert => ofKept kept ++ gather none deletion (extend insertion e) es

end Block

/-! ## Hunks -/

def context : Nat := 3

def Block.lastLines (n : Nat) (b : Block) : Block :=
  let skip := b.oldSize - n
  { b with old := b.old + skip, oldSize := b.oldSize - skip, new := b.new + skip,
           newSize := b.newSize - skip }

def Block.firstLines (n : Nat) (b : Block) : Block :=
  { b with oldSize := min b.oldSize n, newSize := min b.newSize n }

/-- Cuts kept lines at the start down to the context. -/
def trimFirst : List Block → List Block
  | b :: bs => (if b.kept then b.lastLines context else b) :: bs
  | [] => []

def trimLast : List Block → List Block
  | [] => []
  | [b] => [if b.kept then b.firstLines context else b]
  | b :: c :: bs => b :: trimLast (c :: bs)

/-- Divides blocks into hunks where many lines are kept; `hunk` is the one that is open. -/
def hunksFrom (hunk : List Block) : List Block → List (List Block)
  | [] => if hunk.all (·.kept) then [] else [hunk]
  | b :: bs =>
    if b.kept && b.oldSize > 2 * context then
      (hunk ++ [b.firstLines context]) :: hunksFrom [b.lastLines context] bs
    else hunksFrom (hunk ++ [b]) bs

def hunks (bs : List Block) : List (List Block) := hunksFrom [] (trimLast (trimFirst bs))

/-! ## Text -/

/-- A range by its first line and size; a size of one is left out, and an empty range is named
by the line before it. -/
def rangeText (start stop : Nat) : Text :=
  let size := stop - start
  if size = 1 then Text.ofNat (start + 1)
  else if size = 0 then Text.ofNat start ++ ",0"
  else Text.ofNat (start + 1) ++ ',' :: Text.ofNat size

def headerText (first last : Block) : Text :=
  "@@ -" ++ rangeText first.old (last.old + last.oldSize) ++ " +" ++
    rangeText first.new (last.new + last.newSize) ++ " @@\n"

def isEnded (line : Text) : Bool := line.getLast? = some '\n' || line.getLast? = some '\r'

def lineText (mark : Char) (line : Text) : Text :=
  mark :: line ++ if isEnded line then [] else "\n\\ No newline at end of file\n"

def linesText (mark : Char) (a : Lines) (start size : Nat) : Text :=
  ((List.range size).map fun i => lineText mark (a.getD (start + i) [])).flatten

def blockText (a b : Lines) (x : Block) : Text :=
  if x.kept then linesText ' ' a x.old x.oldSize
  else linesText '-' a x.old x.oldSize ++ linesText '+' b x.new x.newSize

def hunkText (a b : Lines) (hunk : List Block) : Text :=
  match hunk with
  | [] => []
  | first :: _ =>
    headerText first ((hunk.getLast?).getD first) ++ (hunk.map (blockText a b)).flatten

/-- The difference between two texts of a file, empty if there is none. -/
def unified (path old new : Text) : Text :=
  let a := (splitLines old).toArray
  let b := (splitLines new).toArray
  match hunks (Block.gather none none none (tidy a b (edits a b))) with
  | [] => []
  | hs => "--- a/" ++ path ++ "\n+++ b/" ++ path ++ "\n" ++ (hs.map (hunkText a b)).flatten

end ModuleRules.Diff
