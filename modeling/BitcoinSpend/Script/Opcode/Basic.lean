import BitcoinSpend.Bytes.Basic

/-!
# Opcodes

The opcodes of the script language, grouped by what they do to a running script. Read `Opcode` first:
each of its constructors is a family, and the machine treats a family as one.
-/

namespace BitcoinSpend.Script

/-- Conditional keywords. An `otherwise` flips the innermost open condition. -/
inductive Branch where
  | whenTrue
  | whenFalse
  | otherwise
  | close
deriving DecidableEq, Repr

/-- Opcodes that check signatures, and the separator that limits what signatures commit to. -/
inductive SignatureOp where
  | codeSeparator
  | checkSig
  | checkSigVerify
  | checkMultiSig
  | checkMultiSigVerify
deriving DecidableEq, Repr

/-- Opcodes without an effect. -/
inductive Nop where
  | nop
  | nop1
  | checkLockTimeVerify
  | checkSequenceVerify
  | nop4
  | nop5
  | nop6
  | nop7
  | nop8
  | nop9
  | nop10
deriving DecidableEq, Repr

/-- Opcodes that fail the script when executed. -/
inductive Reserved where
  | reserved
  | version
  | reserved1
  | reserved2
  | opReturn
deriving DecidableEq, Repr

/-- Opcodes that fail the script even in a branch that is not executed. -/
inductive Forbidden where
  | verIf
  | verNotIf
deriving DecidableEq, Repr

/-- Opcodes that have a stack effect but fail every script that reaches them, executed or not. -/
inductive Disabled where
  | cat
  | substr
  | left
  | right
  | invert
  | bitAnd
  | bitOr
  | bitXor
  | double
  | halve
  | multiply
  | divide
  | modulo
  | shiftLeft
  | shiftRight
deriving DecidableEq, Repr

/-- Opcodes that stop the script unless the item they look at is true. -/
inductive Verify where
  | verify
  | equalVerify
  | numEqualVerify
deriving DecidableEq, Repr

/-- Opcodes that move an item between the main stack and the alternative stack. -/
inductive AltMove where
  | toAlt
  | fromAlt
deriving DecidableEq, Repr

/-- Opcodes that drop, copy and reorder items of the main stack. -/
inductive Shuffle where
  | drop2
  | dup2
  | dup3
  | over2
  | rot2
  | swap2
  | ifDup
  | drop
  | dup
  | nip
  | over
  | pick
  | roll
  | rot
  | swap
  | tuck
deriving DecidableEq, Repr

/-- Opcodes that push a measure of the stack or compare items as bytes. -/
inductive Inspect where
  | depth
  | size
  | equal
deriving DecidableEq, Repr

/-- Opcodes that replace the top item by a digest of it. -/
inductive HashOp where
  | ripemd160
  | sha1
  | sha256
  | hash160
  | hash256
deriving DecidableEq, Repr

/-- Opcodes on one number. -/
inductive Unary where
  | addOne
  | subOne
  | negate
  | abs
  | isZero
  | isNonzero
deriving DecidableEq, Repr

/-- Opcodes on two numbers, of which the second is on top. -/
inductive Binary where
  | add
  | sub
  | boolAnd
  | boolOr
  | numEqual
  | numNotEqual
  | lessThan
  | greaterThan
  | lessThanOrEqual
  | greaterThanOrEqual
  | minimum
  | maximum
deriving DecidableEq, Repr

/-- Opcodes that push a fixed number: zero, minus one, and one to sixteen. -/
inductive Constant where
  | zero
  | minusOne
  | small (n : Fin 16)
deriving DecidableEq, Repr

/-- The number that a constant pushes. -/
def Constant.value : Constant → Int
  | .zero => 0
  | .minusOne => -1
  | .small n => n.val + 1

/-- The width of the length that stands between a push opcode and its data. -/
inductive LengthField where
  | one
  | two
  | four
deriving DecidableEq, Repr

/-- The number of bytes of a length field. -/
def LengthField.width : LengthField → Nat
  | .one => 1
  | .two => 2
  | .four => 4

/-- Opcodes whose whole effect is on the two stacks. -/
inductive StackOp where
  | constant (c : Constant)
  | verify (v : Verify)
  | altMove (m : AltMove)
  | shuffle (s : Shuffle)
  | inspect (i : Inspect)
  | hash (h : HashOp)
  | unary (u : Unary)
  | binary (b : Binary)
  | within
deriving DecidableEq, Repr

/-- An opcode. -/
inductive Opcode where
  | pushData (field : LengthField)
  | nop (n : Nop)
  | reserved (r : Reserved)
  | forbidden (f : Forbidden)
  | branch (b : Branch)
  | signature (s : SignatureOp)
  | disabled (d : Disabled)
  | stack (op : StackOp)
deriving DecidableEq, Repr

end BitcoinSpend.Script
