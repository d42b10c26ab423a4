import ProgramTrees.Binary

namespace ProgramTrees

variable {f : Format}

def Binary.neg : Binary f → Binary f
  | .nan => .nan
  | .infinite negative => .infinite (!negative)
  | .finite negative m q fits => .finite (!negative) m q fits

def signed (negative : Bool) (m : Nat) : Int :=
  if negative then -(m : Int) else m

/-- The exact sum rounded once. A sum of zero is negative only if both terms are. -/
def Binary.add : Binary f → Binary f → Binary f
  | .nan, _ => .nan
  | _, .nan => .nan
  | .infinite a, .infinite b => if a = b then .infinite a else .nan
  | .infinite a, .finite .. => .infinite a
  | .finite .., .infinite b => .infinite b
  | .finite a m p _, .finite b n q _ =>
    let place := min p q
    let sum := signed a (m * Nat.pow 2 (p - place).toNat) +
      signed b (n * Nat.pow 2 (q - place).toNat)
    if sum = 0 then .zero f (a && b)
    else f.round (sum < 0) (.scale 2 sum.natAbs place)

def Binary.sub (x y : Binary f) : Binary f :=
  x.add y.neg

def Binary.mul : Binary f → Binary f → Binary f
  | .nan, _ => .nan
  | _, .nan => .nan
  | .infinite a, .infinite b => .infinite (a != b)
  | .infinite a, .finite b n _ _ => if n = 0 then .nan else .infinite (a != b)
  | .finite a m _ _, .infinite b => if m = 0 then .nan else .infinite (a != b)
  | .finite a m p _, .finite b n q _ => f.round (a != b) (.scale 2 (m * n) (p + q))

/-- The exact quotient rounded once; a nonzero number over zero is infinite. -/
def Binary.div : Binary f → Binary f → Binary f
  | .nan, _ => .nan
  | _, .nan => .nan
  | .infinite _, .infinite _ => .nan
  | .infinite a, .finite b _ _ _ => .infinite (a != b)
  | .finite a _ _ _, .infinite b => .zero f (a != b)
  | .finite a m p _, .finite b n q _ =>
    if n = 0 then if m = 0 then .nan else .infinite (a != b)
    else
      let r := Ratio.scale 2 m (p - q)
      f.round (a != b) ⟨r.num, r.den * n⟩

/-- At least zero; no NaN is, and both zeros are. -/
def Binary.isNonneg : Binary f → Bool
  | .nan => false
  | .infinite negative => !negative
  | .finite negative m _ _ => !negative || m == 0

inductive NoInteger where
  | infinite
  | nan
deriving DecidableEq

def Binary.truncate : Binary f → Except NoInteger Int
  | .nan => .error .nan
  | .infinite _ => .error .infinite
  | .finite negative m q _ =>
    let r := Ratio.scale 2 m q
    .ok (signed negative (r.num / r.den))

end ProgramTrees
