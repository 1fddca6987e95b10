import BitcoinSpend.Hash.Composite
import BitcoinSpend.Script.Opcode.Dispatch
import BitcoinSpend.Script.Stack

/-!
# Stack operations

What each opcode does to the main and the alternative stack. Binary opcodes take the top item as
their second operand. Read `StackOp.perform` first; its answer is false only when a verification
fails.
-/

namespace BitcoinSpend.Script

open Stack

/-- The main stack and the alternative stack. -/
structure Stacks where
  main : Stack := {}
  alt : Stack := {}
deriving DecidableEq, Repr

/-- Computations on both stacks. -/
abbrev StacksM := EStateM StackError Stacks

/-- A computation on the main stack. -/
def onMain {α : Type} (m : StackM α) : StacksM α := fun s ↦
  match m s.main with
  | .ok a main => .ok a { s with main }
  | .error e main => .error e { s with main }

/-- A computation on the alternative stack. -/
def onAlt {α : Type} (m : StackM α) : StacksM α := fun s ↦
  match m s.alt with
  | .ok a alt => .ok a { s with alt }
  | .error e alt => .error e { s with alt }

/-- The most bytes that an item may have to be pushed by a script. -/
def maxItemSize : Nat :=
  520

/-- Pops an operand that names a depth of the remaining stack. -/
def popDepth : StackM Int := do
  let n ← popNumber
  let height := (← get).height
  if n < 0 ∨ height ≤ n then throw (.depthRange n height)
  return n

/-- Takes the top items off and puts back what a function makes of them, both top first. -/
def rearrange (count : Int) (f : List Bytes → List Bytes) : StackM Unit := do
  restore (f (← popMany count))

/-- The effect of the opcodes that drop, copy and reorder items. -/
def Shuffle.perform : Shuffle → StackM Unit
  | .drop2 => discard <| popMany 2
  | .dup2 => rearrange 2 fun l ↦ l ++ l
  | .dup3 => rearrange 3 fun l ↦ l ++ l
  | .over2 => rearrange 4 fun l ↦ l.drop 2 ++ l
  | .rot2 => rearrange 6 fun l ↦ l.drop 4 ++ l.take 4
  | .swap2 => rearrange 4 fun l ↦ l.drop 2 ++ l.take 2
  | .ifDup => do
    let bs ← top
    if Number.truth bs then push bs
  | .drop => discard pop
  | .dup => do push (← top)
  | .nip => discard <| remove 1
  | .over => do push (← peek 1)
  | .pick => do push (← peek (← popDepth))
  | .roll => do push (← remove (← popDepth))
  | .rot => rearrange 3 fun l ↦ l.drop 2 ++ l.take 2
  | .swap => rearrange 2 fun l ↦ l.drop 1 ++ l.take 1
  | .tuck => rearrange 2 fun l ↦ l ++ l.take 1

/-- The effect of the opcodes that measure the stack or compare items. -/
def Inspect.perform : Inspect → StackM Unit
  | .depth => do pushNumber (← get).height
  | .size => do pushNumber (← top).length
  | .equal => do
    let (b, a) ← popPair
    pushBool (a = b)

/-- The digest that a hashing opcode takes. -/
def HashOp.digest : HashOp → Bytes → Bytes
  | .ripemd160 => Hash.ripemd160
  | .sha1 => Hash.sha1
  | .sha256 => Hash.sha256
  | .hash160 => Hash.hash160
  | .hash256 => Hash.hash256

/-- The result of an opcode on one number. Truth values are the numbers one and zero. -/
def Unary.apply : Unary → Int → Int
  | .addOne, n => n + 1
  | .subOne, n => n - 1
  | .negate, n => -n
  | .abs, n => n.natAbs
  | .isZero, n => Number.ofBool (n = 0)
  | .isNonzero, n => Number.ofBool (n ≠ 0)

/-- The result of an opcode on two numbers. -/
def Binary.apply : Binary → Int → Int → Int
  | .add, a, b => a + b
  | .sub, a, b => a - b
  | .boolAnd, a, b => Number.ofBool (a ≠ 0 && b ≠ 0)
  | .boolOr, a, b => Number.ofBool (a ≠ 0 || b ≠ 0)
  | .numEqual, a, b => Number.ofBool (a = b)
  | .numNotEqual, a, b => Number.ofBool (a ≠ b)
  | .lessThan, a, b => Number.ofBool (a < b)
  | .greaterThan, a, b => Number.ofBool (b < a)
  | .lessThanOrEqual, a, b => Number.ofBool (a ≤ b)
  | .greaterThanOrEqual, a, b => Number.ofBool (b ≤ a)
  | .minimum, a, b => min a b
  | .maximum, a, b => max a b

/-- Pops two operands and pushes the result of an opcode on them. -/
def Binary.perform (op : Binary) : StackM Unit := do
  let b ← popNumber
  let a ← popNumber
  pushNumber (op.apply a b)

/-- The effect of the opcodes that move an item from one stack to the other. -/
def AltMove.perform : AltMove → StacksM Unit
  | .toAlt => do onAlt (push (← onMain pop))
  | .fromAlt => do onMain (push (← onAlt pop))

/-- The effect and the outcome of the opcodes that verify. -/
def Verify.perform : Verify → StackM Bool
  | .verify => popBool
  | .equalVerify => do
    Inspect.equal.perform
    popBool
  | .numEqualVerify => do
    Binary.numEqual.perform
    popBool

/-- The effect of an opcode on the two stacks. The answer is false if a verification fails. -/
def StackOp.perform : StackOp → StacksM Bool
  | .constant c => do
    onMain (pushNumber c.value)
    return true
  | .verify v => onMain v.perform
  | .altMove m => do
    m.perform
    return true
  | .shuffle s => do
    onMain s.perform
    return true
  | .inspect i => do
    onMain i.perform
    return true
  | .hash h => onMain do
    push (h.digest (← pop))
    return true
  | .unary u => onMain do
    pushNumber (u.apply (← popNumber))
    return true
  | .binary b => do
    onMain b.perform
    return true
  | .within => onMain do
    let upper ← popNumber
    let lower ← popNumber
    let n ← popNumber
    pushBool (lower ≤ n && n < upper)
    return true

/-- Pops two items of equal length and pushes the combination of their bytes. -/
def bitwise (f : UInt8 → UInt8 → UInt8) : StackM Unit := do
  let (b, a) ← popPair
  if a.length ≠ b.length then throw .lengthMismatch
  push (List.zipWith f a b)

/-- Pops two numbers and pushes a quotient or remainder of them. -/
def division (f : Int → Int → Int) : StackM Unit := do
  let b ← popNumber
  let a ← popNumber
  if b = 0 then throw (.number .divisionByZero)
  pushNumber (f a b)

/-- Pops a number of places, at most sixty-four, and a number, and pushes a shift of it. -/
def shift (f : Int → Nat → Int) : StackM Unit := do
  let count ← popNumber
  let n ← popNumber
  unless 0 ≤ count ∧ count ≤ 64 do throw (.number (.shiftRange count))
  pushNumber (f n count.toNat)

/-- The effect that disabled opcodes have on the main stack. Quotients are truncated, and
remainders have the sign of the dividend. -/
def Disabled.perform : Disabled → StackM Unit
  | .cat => do
    let (b, a) ← popPair
    if maxItemSize < a.length + b.length then throw .catTooLong
    push (a ++ b)
  | .substr => do
    let size ← popNumber
    let start ← popNumber
    let bs ← pop
    if start < 0 ∨ size < 0 ∨ bs.length < start + size then throw .substrRange
    push ((bs.drop start.toNat).take size.toNat)
  | .left => do
    let size ← popNumber
    let bs ← pop
    if size < 0 ∨ bs.length < size then throw .leftRange
    push (bs.take size.toNat)
  | .right => do
    let size ← popNumber
    let bs ← pop
    if size < 0 ∨ bs.length < size then throw .rightRange
    push (bs.drop (bs.length - size.toNat))
  | .invert => do push ((← pop).map (~~~·))
  | .bitAnd => bitwise (· &&& ·)
  | .bitOr => bitwise (· ||| ·)
  | .bitXor => bitwise (· ^^^ ·)
  | .double => do pushNumber ((← popNumber) * 2)
  | .halve => do pushNumber (Int.tdiv (← popNumber) 2)
  | .multiply => do
    let b ← popNumber
    let a ← popNumber
    pushNumber (a * b)
  | .divide => division Int.tdiv
  | .modulo => division Int.tmod
  | .shiftLeft => shift fun n count ↦ n <<< count
  | .shiftRight => shift fun n count ↦ n >>> count

/-- What an entry of the table of effects does to the two stacks. The answer is false if a
verification fails. -/
def Effect.perform : Effect → StacksM Bool
  | .stack op => op.perform
  | .disabled d => do
    onMain d.perform
    return true

end BitcoinSpend.Script
