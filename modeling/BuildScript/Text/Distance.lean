/-!
# Edit distance

The unrestricted Damerau–Levenshtein distance: the least number of insertions,
deletions, substitutions and transpositions of neighbours that turn one text into
another, where further edits between two transposed characters are allowed.

The table is filled one row per character of the first text. Beside the current
row the computation keeps, newest first, every earlier character with the row
that stood before it: a transposition continues from such a row.
-/

namespace BuildScript.Text

/-- An earlier character of the first text with the row before it. -/
structure DistanceRow where
  letter : Char
  before : List Nat
  deriving Repr

/-- The cost of undoing a transposition that ends at `letter`, if one can end there. -/
def transpositionCost? (history : List DistanceRow) (letter : Char)
    (matched : Option Nat) (column : Nat) : Option Nat :=
  match matched, history.findIdx? (fun row => row.letter == letter) with
  | some left, some age =>
      (history[age]?).bind fun row =>
        (row.before[left]?).map fun cost => cost + age + 1 + (column - left - 1)
  | _, _ => none

/--
The rest of a row. `above` holds the previous row from the column before the current
one, `left` the entry just computed, and `matched` the last earlier column whose
letter is `current`.
-/
def rowFrom (history : List DistanceRow) (current : Char) (matched : Option Nat)
    (column left : Nat) : List Char → List Nat → List Nat
  | letter :: letters, diagonal :: upper :: above =>
      let kept := if letter == current then diagonal else diagonal + 1
      let edited := min kept (min (upper + 1) (left + 1))
      let best :=
        match transpositionCost? history letter matched column with
        | some cost => min edited cost
        | none => edited
      let matchedNext := if letter == current then some column else matched
      best :: rowFrom history current matchedNext (column + 1) best letters (upper :: above)
  | _, _ => []

/-- The last row of the table after the remaining characters of the first text. -/
def distanceRow (target : List Char) (history : List DistanceRow) (row : List Nat) :
    List Char → List Nat
  | [] => row
  | c :: cs =>
      let first := (row.headD 0) + 1
      let next := first :: rowFrom history c none 0 first target row
      distanceRow target (⟨c, row⟩ :: history) next cs

def editDistance (source target : List Char) : Nat :=
  (distanceRow target [] (List.range (target.length + 1)) source).getLastD 0

/--
How alike two texts are: the fraction `1 - distance / length` of the longer one,
kept as numerator and denominator.
-/
structure Similarity where
  alike : Nat
  total : Nat
  deriving DecidableEq, Repr

/-- The similarity of two texts; two empty texts are fully alike. -/
def similarity (source target : List Char) : Similarity :=
  let total := max source.length target.length
  if total = 0 then ⟨1, 1⟩ else ⟨total - editDistance source target, total⟩

/-- Whether the similarity is greater than three fifths. -/
def Similarity.isHigh (s : Similarity) : Bool :=
  3 * s.total < 5 * s.alike

def Similarity.atLeast (s t : Similarity) : Bool :=
  t.alike * s.total ≤ s.alike * t.total

end BuildScript.Text
