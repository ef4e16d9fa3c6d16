/-!
The edit distance of byte strings, and suggestions for misspelt names. The distance is computed row
by row: entry `j` of the row for a prefix of the first string is the distance of that prefix to the
first `j` bytes of the second.
-/

namespace GpuCodegen.Text

/-- The entries of a new row after its first. `left` is the new row's latest entry, `above` the
entry of the row before at the same place. -/
def rowTail (c : UInt8) (left above : Nat) : List UInt8 → List Nat → List Nat
  | d :: ds, next :: rest =>
    let entry := min (min (next + 1) (left + 1)) (above + if c = d then 0 else 1)
    entry :: rowTail c entry next ds rest
  | _, _ => []

/-- The row after one more byte of the first string. -/
def nextRow (target : List UInt8) (row : List Nat) (c : UInt8) : List Nat :=
  match row with
  | [] => []
  | above :: rest => (above + 1) :: rowTail c (above + 1) above target rest

/-- The last entry of the row for all of `a`. -/
def lastEntry (a b : List UInt8) : Nat :=
  (a.foldl (nextRow b) (List.range (b.length + 1))).getLastD 0

/-- The least number of single-byte insertions, deletions and substitutions that turn `a` into
`b`. No row is computed where one of them is empty. -/
def byteDistance (a b : List UInt8) : Nat :=
  if a.isEmpty then b.length
  else if b.isEmpty then a.length
  else lastEntry a b

/-- The edit distance of two texts, counted in bytes. -/
def distance (a b : String) : Nat :=
  byteDistance a.toUTF8.toList b.toUTF8.toList

/-- The farthest name that is still suggested. -/
def suggestionLimit : Nat := 3

/-- A name that may be meant, with its distance and what it stands for. -/
structure Suggestion where
  distance : Nat
  name : String
  value : Int
  deriving DecidableEq, Repr

/-- Closer names come first, names at one distance in alphabetical order. -/
def Suggestion.before (a b : Suggestion) : Bool :=
  a.distance < b.distance || (a.distance == b.distance && a.name ≤ b.name)

/-- Keeps the first suggestion for every value. -/
def firstPerValue : List Suggestion → List Suggestion
  | [] => []
  | s :: rest => s :: (firstPerValue rest).filter fun t => t.value != s.value

/-- The names among `available` that `name` may stand for: those at a distance of one to three,
closest first, one for each value, at most `limit`. -/
def similarNames (name : String) (available : List (String × Int)) (limit : Nat) : List String :=
  let near := available.filterMap fun (candidate, value) =>
    let d := distance name candidate
    if 0 < d ∧ d ≤ suggestionLimit then some ⟨d, candidate, value⟩ else none
  ((firstPerValue (near.mergeSort Suggestion.before)).take limit).map (·.name)

end GpuCodegen.Text
