namespace ProgramTrees

/-- A quotient of naturals; the denominator is never zero where one is built. -/
structure Ratio where
  num : Nat
  den : Nat

def Ratio.scale (base m : Nat) (q : Int) : Ratio :=
  if 0 ≤ q then ⟨m * base.pow q.toNat, 1⟩ else ⟨m, base.pow (-q).toNat⟩

def Ratio.lt (r s : Ratio) : Bool :=
  r.num * s.den < s.num * r.den

/-- The exponent of the leading binary digit of a positive quotient. -/
def Ratio.log2 (r : Ratio) : Int :=
  let guess : Int := (r.num.log2 : Int) - (r.den.log2 : Int)
  if r.lt (.scale 2 1 guess) then guess - 1 else guess

/-- The nearest integer to a quotient; a half goes to the even neighbour. -/
def Ratio.nearest (r : Ratio) : Nat :=
  let quotient := r.num / r.den
  let twice := 2 * (r.num % r.den)
  if twice < r.den then quotient
  else if r.den < twice then quotient + 1
  else quotient + quotient % 2

def Ratio.inUnits (r : Ratio) (q : Int) : Ratio :=
  if 0 ≤ q then ⟨r.num, r.den * Nat.pow 2 q.toNat⟩ else ⟨r.num * Nat.pow 2 (-q).toNat, r.den⟩

/-- A binary floating-point format: the number of binary digits of a significand, and the least
and the greatest exponent of its last place. -/
structure Format where
  precision : Nat
  minExponent : Int
  maxExponent : Int
deriving DecidableEq

def Format.single : Format := ⟨24, -149, 104⟩

def Format.double : Format := ⟨53, -1074, 971⟩

/-- The significand `m` with last place `2 ^ q` is the canonical form of a number of the format:
it has full precision unless its last place is the least one. -/
def Format.Fits (f : Format) (m : Nat) (q : Int) : Prop :=
  m < Nat.pow 2 f.precision ∧ f.minExponent ≤ q ∧ q ≤ f.maxExponent ∧
    (q = f.minExponent ∨ Nat.pow 2 (f.precision - 1) ≤ m)

instance (f : Format) (m : Nat) (q : Int) : Decidable (f.Fits m q) :=
  inferInstanceAs (Decidable (_ ∧ _ ∧ _ ∧ _))

/-- A number of a binary format. Finite numbers are in canonical form, so equal terms are equal
numbers; all NaNs are one. -/
inductive Binary (f : Format) where
  | nan
  | infinite (negative : Bool)
  | finite (negative : Bool) (significand : Nat) (exponent : Int)
      (fits : f.Fits significand exponent)
deriving DecidableEq

abbrev Single := Binary .single
abbrev Double := Binary .double

variable {f : Format}

/-- The number `m * 2 ^ q` in canonical form. What fits no finite number is beyond the greatest
one, hence infinite. -/
def Binary.ofParts (f : Format) (negative : Bool) (m : Nat) (q : Int) : Binary f :=
  if fits : f.Fits m q then .finite negative m q fits else .infinite negative

def Binary.zero (f : Format) (negative : Bool) : Binary f :=
  .ofParts f negative 0 f.minExponent

/-- The exponent of the last place that the format has for a positive quotient. -/
def Format.lastPlace (f : Format) (r : Ratio) : Int :=
  max f.minExponent (r.log2 - ((f.precision : Int) - 1))

/-- The number of the format nearest to a quotient, a tie going to the even significand. -/
def Format.round (f : Format) (negative : Bool) (r : Ratio) : Binary f :=
  if r.num = 0 then .zero f negative
  else
    let q := f.lastPlace r
    let m := (r.inUnits q).nearest
    if m = Nat.pow 2 f.precision then
      .ofParts f negative (Nat.pow 2 (f.precision - 1)) (q + 1)
    else .ofParts f negative m q

def Format.ofInt (f : Format) (n : Int) : Binary f :=
  f.round (n < 0) ⟨n.natAbs, 1⟩

def Binary.convert (g : Format) : Binary f → Binary g
  | .nan => .nan
  | .infinite negative => .infinite negative
  | .finite negative m q _ => g.round negative (.scale 2 m q)

/-- The first of the bit patterns that have a set sign. -/
def Format.signWeight (f : Format) : Nat :=
  (f.maxExponent - f.minExponent + 3).toNat * Nat.pow 2 (f.precision - 1)

/-- The first bit pattern above the finite numbers without sign. -/
def Format.infinityBits (f : Format) : Nat :=
  (f.maxExponent - f.minExponent + 2).toNat * Nat.pow 2 (f.precision - 1)

/-- The bit pattern of the interchange form; NaNs have many, so none is chosen. -/
def Binary.bits : Binary f → Option Nat
  | .nan => none
  | .infinite negative => some ((if negative then f.signWeight else 0) + f.infinityBits)
  | .finite negative m q _ =>
    let hidden := Nat.pow 2 (f.precision - 1)
    let field := if m < hidden then 0 else (q - f.minExponent + 1).toNat
    some ((if negative then f.signWeight else 0) + field * hidden + m % hidden)

def Format.ofBits (f : Format) (n : Nat) : Binary f :=
  let hidden := Nat.pow 2 (f.precision - 1)
  let negative := decide (f.signWeight ≤ n)
  let body := n % f.signWeight
  if f.infinityBits < body then .nan
  else if body = f.infinityBits then .infinite negative
  else if body < hidden then .ofParts f negative body f.minExponent
  else .ofParts f negative (hidden + body % hidden) (f.minExponent + (body / hidden : Nat) - 1)

end ProgramTrees
