import ModuleRules.Text.Basic

/-!
# Globs

A glob is a sequence of tokens: a character, any one character, one of a set,
any run of characters (`*`), or any run of whole path segments (`**`). A text
matches when it can be cut into one piece for each token.

Matching fills a table from the last token to the first: `matchesFrom ts t`
lists, for `t` and each of its shorter and shorter endings, whether the tokens
`ts` match that ending. Each token extends the table in one pass, so the work
is the product of the two lengths whatever the glob.
-/

namespace ModuleRules

namespace Glob

inductive Specifier
  | one (c : Char)
  | range (first last : Char)
  deriving DecidableEq, Repr

inductive Token
  | char (c : Char)
  | any
  | oneOf (set : List Specifier)
  | noneOf (set : List Specifier)
  | many
  | deep
  deriving DecidableEq, Repr

def Specifier.holds (c : Char) : Specifier → Bool
  | one d => c = d
  | range first last => first ≤ c ∧ c ≤ last

/-- Three characters with a hyphen in the middle are a range. -/
def specifiers : List Char → List Specifier
  | a :: '-' :: b :: r => .range a b :: specifiers r
  | c :: r => .one c :: specifiers r
  | [] => []

/-! ## Reading -/

/-- Where reading stands: outside brackets after some character, or inside a set. -/
inductive Place
  | after (previous : Option Char)
  | inSet (negated : Bool) (members : List Char)

/-- A double star stands for whole segments: it comes first or after a slash, and what follows
it is a slash, which it includes, or nothing. A set holds at least one character, so a bracket
that comes first in it does not close it. -/
def tokens? : Place → Text → Option (List Token)
  | .after _, [] => some []
  | .after _, '?' :: r => (tokens? (.after (some '?')) r).map (.any :: ·)
  | .after _, '*' :: '*' :: '*' :: _ => none
  | .after previous, '*' :: '*' :: r =>
    if previous = none ∨ previous = some '/' then
      match r with
      | [] => some [.deep]
      | '/' :: r => (tokens? (.after (some '/')) r).map (.deep :: ·)
      | _ => none
    else none
  | .after _, '*' :: r => (tokens? (.after (some '*')) r).map (.many :: ·)
  | .after _, '[' :: '!' :: r => tokens? (.inSet true []) r
  | .after _, '[' :: r => tokens? (.inSet false []) r
  | .after _, c :: r => (tokens? (.after (some c)) r).map (.char c :: ·)
  | .inSet _ _, [] => none
  | .inSet negated members, c :: r =>
    if c = ']' ∧ members ≠ [] then
      let set := specifiers members
      (tokens? (.after (some ']')) r).map ((if negated then .noneOf set else .oneOf set) :: ·)
    else tokens? (.inSet negated (members ++ [c])) r

def parse? (t : Text) : Option (List Token) := tokens? (.after none) t

/-! ## Matching -/

/-- The table of the text of no tokens: only the empty ending matches. -/
def atEnd : Text → List Bool
  | [] => [true]
  | _ :: r => false :: atEnd r

/-- One character that satisfies `p`, then an ending that matched. -/
def takeOne (p : Char → Bool) : Text → List Bool → List Bool
  | c :: r, _ :: row => (p c && row.headD false) :: takeOne p r row
  | _, _ => [false]

/-- Any number of characters, then an ending that matched. -/
def takeMany : List Bool → List Bool
  | [] => []
  | b :: row =>
    let later := takeMany row
    (b || later.headD false) :: later

/-- Characters up to and including a slash, or all of them, then an ending that matched. -/
def reachable : Text → List Bool → List Bool
  | c :: r, _ :: row =>
    let later := reachable r row
    ((c = '/' && row.headD false) || later.headD false) :: later
  | _, row => row

/-- Nothing, or a run of whole segments, then an ending that matched. -/
def takeDeep (t : Text) (row : List Bool) : List Bool :=
  List.zipWith (· || ·) row (reachable t row)

def step (t : Text) (row : List Bool) : Token → List Bool
  | .char c => takeOne (· = c) t row
  | .any => takeOne (fun _ => true) t row
  | .oneOf set => takeOne (fun c => set.any (·.holds c)) t row
  | .noneOf set => takeOne (fun c => !set.any (·.holds c)) t row
  | .many => takeMany row
  | .deep => takeDeep t row

/-- For the text and each of its endings, whether the tokens match it. -/
def matchesFrom (ts : List Token) (t : Text) : List Bool :=
  ts.foldr (fun token row => step t row token) (atEnd t)

def accepts (ts : List Token) (t : Text) : Bool := (matchesFrom ts t).headD false

end Glob

end ModuleRules
