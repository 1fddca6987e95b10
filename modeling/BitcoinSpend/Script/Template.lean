import BitcoinSpend.Script.Instruction

/-!
# Standard locking scripts

The forms of locking scripts that have rules of their own: payment to a script, to a witness key and
to a witness script, and payment to a key, which witness keys are reduced to. The length of a digest
is taken on the text of its literal.
-/

namespace BitcoinSpend.Script

/-- Whether a literal is written with two characters for each of `size` bytes. -/
def Literal.hasSize (l : Literal) (size : Nat) : Bool :=
  l.text.length = 2 * size

/-- The script digest of a payment to a script. -/
def scriptHash? : List Token → Option Literal
  | [.op (.stack (.hash .hash160)), .literal l, .op (.stack (.inspect .equal))] =>
    if l.hasSize 20 then some l else none
  | _ => none

/-- The program of a version-zero witness with a given size. -/
def witnessProgram? (size : Nat) : List Token → Option Literal
  | [version, .literal l] =>
    if version.opcode? = some (.stack (.constant .zero)) ∧ l.hasSize size then some l else none
  | _ => none

/-- The key digest of a payment to a witness key. -/
def witnessKeyHash? (script : List Token) : Option Literal :=
  witnessProgram? 20 script

/-- The script digest of a payment to a witness script. -/
def witnessScriptHash? (script : List Token) : Option Literal :=
  witnessProgram? 32 script

/-- The locking script of a payment to a key, with a token in the place of the key digest. -/
def payToKeyHash (keyHash : Token) : List Token :=
  [.op (.stack (.shuffle .dup)), .op (.stack (.hash .hash160)), keyHash,
    .op (.stack (.verify .equalVerify)), .op (.signature .checkSig)]

/-- Whether a token is a literal or an opcode no greater than the one that pushes sixteen. -/
def Token.isPush (t : Token) : Bool :=
  t.isLiteral || t.opcode?.any fun o ↦ o.code ≤ 0x60

/-- Whether a script does nothing but push. -/
def isPushOnly (script : List Token) : Bool :=
  script.all Token.isPush

end BitcoinSpend.Script
