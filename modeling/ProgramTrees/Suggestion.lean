import ProgramTrees.EditDistance
import ProgramTrees.Lowercase

namespace ProgramTrees

/-- How far a suggestion may be and how many are made. A negative count leaves out that many of the
farthest. -/
structure SuggestionLimits where
  distance : Int := 2
  count : Int := 3

def nameDistance (a b : String) : Nat :=
  editDistance (lowercase a.toList) (lowercase b.toList)

/-- The distance of a candidate that comes into question. Names whose lengths differ by more than
the greatest distance do not. -/
def candidateDistance? (limits : SuggestionLimits) (name candidate : String) : Option Nat :=
  let lengthGap := ((candidate.length : Int) - name.length).natAbs
  if candidate = name ∨ limits.distance < lengthGap then none
  else
    let distance := nameDistance name candidate
    if distance ≤ limits.distance then some distance else none

/-- Nearer candidates come first, and of two equally near the one with the smaller name. -/
def isBefore (a b : Nat × String) : Bool :=
  a.1 < b.1 || (a.1 == b.1 && !decide (b.2 < a.2))

/-- The first `count` of a list; a negative count leaves out that many at the end. -/
def upTo {α : Type} (count : Int) (xs : List α) : List α :=
  if 0 ≤ count then xs.take count.toNat else xs.take (xs.length - count.natAbs)

def suggestions (limits : SuggestionLimits) (name : String) (candidates : List String) :
    List String :=
  let scored := candidates.filterMap fun candidate =>
    (candidateDistance? limits name candidate).map fun distance => (distance, candidate)
  (upTo limits.count (scored.mergeSort isBefore)).map (·.2)

end ProgramTrees
