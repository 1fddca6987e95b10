import BitcoinSpend.Text.Decimal

/-!
# Modular arithmetic

Powers, inverses and square roots modulo an integer that need not be prime or positive. Read
`power` first: it is total up to the errors it names, and a negative exponent asks for an inverse.
Remainders have the sign of the modulus.
-/

namespace BitcoinSpend.Curve

/-- Why an operation modulo an integer, or on a curve over it, has no result. -/
inductive CurveError where
  | zeroDivisor
  | zeroModulus
  | notInvertible
  | rootModulus
  | nonResidue
  | notOnCurve (x : Int)
  | resultOffCurve
deriving DecidableEq, Repr

/-- The text of an error that the curve itself detects. A failure of plain arithmetic has none, and
neither has a coordinate that has no text itself. -/
def CurveError.message? : CurveError → Option String
  | .zeroDivisor | .zeroModulus | .notInvertible => none
  | .rootModulus => some "modular_sqrt only supports primes p = 3 (mod 4)"
  | .nonResidue => some "modular_sqrt called on quadratic non-residue"
  | .notOnCurve x =>
    if Text.Writable x then some s!"Given x coordinate {x} is not on the curve." else none
  | .resultOffCurve => some "Serious error. Calculated point not on curve."

/-- The remainder of a division that rounds toward minus infinity. -/
def remainder (a m : Int) : Except CurveError Int :=
  if m = 0 then .error .zeroDivisor
  else if 0 < m then .ok (a % m)
  else .ok (-(-a % -m))

/-- The power of a number modulo `m`, by repeated squaring. -/
def powNat (m b e : Nat) : Nat :=
  if e = 0 then 1 % m
  else
    let half := powNat m (b * b % m) (e / 2)
    if e % 2 = 1 then b * half % m else half
termination_by e

/-- Euclid's algorithm on two consecutive remainders. Each `sᵢ` is a multiplier that turns a fixed
number into `rᵢ` modulo a fixed modulus; the answer is the last nonzero remainder with its
multiplier. -/
def bezout (r₀ r₁ : Nat) (s₀ s₁ : Int) : Nat × Int :=
  if _h : r₁ = 0 then (r₀, s₀)
  else bezout r₁ (r₀ % r₁) s₁ (s₀ - (r₀ / r₁ : Nat) * s₁)
termination_by r₁
decreasing_by exact Nat.mod_lt _ (Nat.pos_of_ne_zero _h)

/-- The inverse of a number modulo `m`, if the two have no common factor. -/
def inverseNat? (m a : Nat) : Option Nat :=
  let (divisor, s) := bezout m (a % m) 0 1
  if divisor = 1 then some (s % m).toNat else none

/-- The power of an integer modulo `m`, between zero and `m`. A negative exponent takes powers of
the inverse. Modulo one every power is zero, even where there is no inverse. -/
def power (b e m : Int) : Except CurveError Int := do
  if m = 0 then throw .zeroModulus
  let k := m.natAbs
  if k = 1 then return 0
  let b₀ := (b % k).toNat
  let base ←
    if e < 0 then
      match inverseNat? k b₀ with
      | some inv => pure inv
      | none => throw .notInvertible
    else pure b₀
  let r := powNat k base e.natAbs
  return if m < 0 ∧ r ≠ 0 then (r : Int) - k else r

/-- The inverse of an integer modulo `m`. -/
def inverse (a m : Int) : Except CurveError Int :=
  power a (-1) m

/-- The Legendre symbol by Euler's criterion: zero for multiples of `p`, minus one where the
criterion gives `p - 1`, and one otherwise. -/
def legendre (r p : Int) : Except CurveError Int := do
  if (← remainder r p) = 0 then return 0
  let criterion ← power r (Int.fdiv (p - 1) 2) p
  return if criterion = p - 1 then -1 else 1

/-- Whether a number passes as a square modulo `p`; zero does. -/
def isResidue (n p : Int) : Except CurveError Bool := do
  return (← legendre n p) ≠ -1

/-- A square root modulo a prime that leaves remainder three on division by four. -/
def squareRoot (n p : Int) : Except CurveError Int := do
  if p % 4 ≠ 3 then throw .rootModulus
  unless ← isResidue n p do throw .nonResidue
  power n (Int.fdiv (p + 1) 4) p

end BitcoinSpend.Curve
