import BitcoinSpend.Bytes.Hex
import BitcoinSpend.Curve.Modular
import BitcoinSpend.Document

/-!
# Elliptic curves

A curve is the set of points with `y² = x³ + a x + b` modulo `p`, together with the point at
infinity, written `none`. Nothing here assumes that `p` is prime or that points are on the curve, so
every operation may fail. Read `add` and `multiply` first.
-/

namespace BitcoinSpend

/-- A point with finite coordinates. -/
structure Point where
  x : Int
  y : Int
deriving DecidableEq, Repr

/-- The coefficients and the modulus of a curve, the number of its points, and a point that
generates them, which is the point at infinity if there is no other. -/
structure Curve where
  a : Int
  b : Int
  p : Int
  order : Int
  generator : Option Point
deriving DecidableEq, Repr

namespace Curve

variable (C : Curve)

/-- The right-hand side of the curve equation. -/
def cubic (x : Int) : Except CurveError Int := do
  let cube ← power x 3 C.p
  remainder (cube + C.a * x + C.b) C.p

/-- Whether a point satisfies the curve equation. The point at infinity does. -/
def contains : Option Point → Except CurveError Bool
  | none => pure true
  | some P => do
    let right ← C.cubic P.x
    let left ← power P.y 2 C.p
    return (← remainder (right - left) C.p) = 0

/-- Whether some point has this `x` coordinate. -/
def containsX (x : Int) : Except CurveError Bool := do
  isResidue (← C.cubic x) C.p

/-- The smaller `y` coordinate of the points with this `x` coordinate. -/
def solveY (x : Int) : Except CurveError Int := do
  unless ← C.containsX x do throw (.notOnCurve x)
  let y ← squareRoot (← C.cubic x) C.p
  return min y (← remainder (-y) C.p)

/-- The third point on the line of slope `m` through two points, reflected. -/
def reflectThird (m : Int) (P Q : Point) : Except CurveError Point := do
  let x ← remainder (m * m - P.x - Q.x) C.p
  let y ← remainder (m * (P.x - x) - P.y) C.p
  return ⟨x, y⟩

/-- The sum of two points by the chord and tangent rule. -/
def add : Option Point → Option Point → Except CurveError (Option Point)
  | none, Q => pure Q
  | some P, none => pure (some P)
  | some P, some Q => do
    if P.x = Q.x then
      if (← remainder (P.y + Q.y) C.p) = 0 then return none
      let inv ← inverse (2 * P.y) C.p
      let m ← remainder ((3 * P.x * P.x + C.a) * inv) C.p
      return some (← C.reflectThird m P Q)
    else
      let inv ← inverse (Q.x - P.x) C.p
      let m ← remainder ((Q.y - P.y) * inv) C.p
      return some (← C.reflectThird m P Q)

/-- Adds to `sum` the multiples `2ⁱ · D` for the bits of `n`, lowest bit first. `D` is doubled after
every bit, the last one included. -/
def addMultiples (n : Nat) (sum D : Option Point) : Except CurveError (Option Point) :=
  if h : n = 0 then pure sum
  else do
    let next ← if n % 2 = 1 then C.add sum D else pure sum
    addMultiples (n / 2) next (← C.add D D)
termination_by n
decreasing_by exact Nat.div_lt_self (Nat.pos_of_ne_zero h) (by decide)

/-- The multiple of a point by an integer, which is first reduced by the order of the curve. The
result has to be on the curve. -/
def multiply (n : Int) (P : Option Point) : Except CurveError (Option Point) := do
  if P = none then return none
  let k ← remainder n C.order
  if k ≤ 0 then return none
  let result ← C.addMultiples k.toNat none P
  unless ← C.contains result do throw .resultOffCurve
  return result

/-- The multiple of the generator by an integer. -/
def multiplyGenerator (n : Int) : Except CurveError (Option Point) :=
  C.multiply n C.generator

/-- The number of binary digits of the order of a curve, which is taken to be nonzero. -/
def orderBits : Nat :=
  C.order.natAbs.log2 + 1

/-- The parameters of a curve in base sixteen. The point at infinity has no coordinates, so a curve
that is generated by it has no description. -/
def document? : Option Document := do
  let G ← C.generator
  return .object [
    ("a", .text (Hex.ofInt C.a)),
    ("b", .text (Hex.ofInt C.b)),
    ("p", .text (Hex.ofInt C.p)),
    ("order", .text (Hex.ofInt C.order)),
    ("generator", .list [.text (Hex.ofInt G.x), .text (Hex.ofInt G.y)])]

end Curve

/-- The curve of Bitcoin's signatures. -/
def secp256k1 : Curve where
  a := 0
  b := 7
  p := 0xfffffffffffffffffffffffffffffffffffffffffffffffffffffffefffffc2f
  order := 0xfffffffffffffffffffffffffffffffebaaedce6af48a03bbfd25e8cd0364141
  generator := some {
    x := 0x79be667ef9dcbbac55a06295ce870b07029bfcdb2dce28d959f2815b16f81798
    y := 0x483ada7726a3c4655da4fbfc0e1108a8fd17b448a68554199c47d08ffb10d4b8 }

end BitcoinSpend
