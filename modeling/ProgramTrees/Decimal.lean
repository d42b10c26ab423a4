import ProgramTrees.Binary

namespace ProgramTrees

structure Decimal where
  coefficient : Nat
  exponent : Int
deriving DecidableEq

def Decimal.digits (d : Decimal) : List Char :=
  Nat.toDigits 10 d.coefficient

/-- The exponent of the power of ten just above the number. -/
def Decimal.point (d : Decimal) : Int :=
  d.digits.length + d.exponent

/-- The nearest number of a format. A decimal is at least `10 ^ (point - 1)` and below `10 ^ point`.
The first is above `2 ^ (point - 1)`, and where the point is negative the second is below
`8 ^ point`; so a point far to the right is beyond the greatest number, one far to the left is
below half of the least, and neither needs its power of ten. -/
def Decimal.round (f : Format) (negative : Bool) (d : Decimal) : Binary f :=
  if d.coefficient = 0 then .zero f negative
  else if f.maxExponent + f.precision < d.point - 1 then .infinite negative
  else if 3 * d.point < f.minExponent then .zero f negative
  else f.round negative (.scale 10 d.coefficient d.exponent)

def Decimal.ofParts (m : Nat) (q : Int) : Decimal :=
  if 0 ≤ q then ⟨m * Nat.pow 2 q.toNat, 0⟩ else ⟨m * Nat.pow 5 (-q).toNat, q⟩

def Decimal.trim (d : Decimal) : Decimal :=
  if d.coefficient ≠ 0 ∧ d.coefficient % 10 = 0 then
    Decimal.trim ⟨d.coefficient / 10, d.exponent + 1⟩
  else d
termination_by d.coefficient
decreasing_by omega

def Decimal.cut (d : Decimal) (drop : Nat) : Decimal :=
  ⟨d.coefficient / Nat.pow 10 drop, d.exponent + drop⟩

def Decimal.next (d : Decimal) : Decimal :=
  ⟨d.coefficient + 1, d.exponent⟩

/-- The last digit that `drop` digits leave goes down: the dropped part is below a half, or is a
half and the digit is even. -/
def Decimal.cutsDown (d : Decimal) (drop : Nat) : Bool :=
  let unit := Nat.pow 10 drop
  let twice := 2 * (d.coefficient % unit)
  twice < unit || (twice == unit && d.coefficient / unit % 2 == 0)

/-- Of the two neighbours of `d` with `drop` digits fewer, the nearer one that has the property. -/
def Decimal.neighbour? (accept : Decimal → Bool) (d : Decimal) (drop : Nat) : Option Decimal :=
  let down := d.cut drop
  let up := down.next
  match accept down, accept up with
  | true, true => some (if d.cutsDown drop then down else up)
  | true, false => some down
  | false, true => some up
  | false, false => none

/-- The first neighbour with the property when at most `drop` digits may go, most digits first;
`d` itself drops none. -/
def Decimal.shorten (accept : Decimal → Bool) (d : Decimal) : Nat → Decimal
  | 0 => d
  | drop + 1 => (d.neighbour? accept (drop + 1)).getD (d.shorten accept drop)

/-- The decimal with the fewest digits that is rounded to a finite number, without sign, and of
those the nearest to it. -/
def Decimal.shortest (f : Format) (m : Nat) (q : Int) : Decimal :=
  let exact := Decimal.ofParts m q
  let readsBack (d : Decimal) : Bool := d.round f false = .ofParts f false m q
  (exact.shorten readsBack (exact.digits.length - 1)).trim

end ProgramTrees
