import BitcoinSpend.Script.Instruction
import BitcoinSpend.Script.Policy
import BitcoinSpend.Script.StackOperation
import BitcoinSpend.Signature.Ecdsa

/-!
# The script machine

A machine holds what a running script works on: its two stacks, its open conditionals and the script
that signatures commit to. This module holds the state and the ways in which a step halts. A step
that halts either fails the script, which the machine then remembers, or raises an error, which the
caller sees; both leave the machine as the step left it. Read `Machine` and `Halt` first.
-/

namespace BitcoinSpend.Script

/-- A message that a signature was checked against: the script that it commits to, the hash type,
and the digest. -/
structure Call where
  code : Bytes
  hashType : UInt8
  digest : Bytes
deriving DecidableEq, Repr

/-- A machine. -/
structure Machine where
  /-- The two stacks. -/
  memory : Stacks := {}
  /-- The conditions of the open conditionals, the innermost first. -/
  conditions : List Bool := []
  /-- The tokens that were run, the last one first. -/
  log : List Token := []
  /-- Whether no script has failed. -/
  valid : Bool := true
  /-- The height of the main stack when the result was last taken. -/
  finalHeight : Nat := 0
  /-- The tokens that signatures commit to. -/
  code : List Token := []
  /-- The messages asked for, the last one first. -/
  calls : List Call := []
deriving DecidableEq

/-- Why a script failed. -/
inductive Failure where
  | stack (e : StackError)
  | disabled (d : Disabled)
  | forbidden (f : Forbidden)
  | executed (t : Token)
  | elseWithoutIf
  | endWithoutIf
  | pushTooLong (size : Nat)
  | unverified
  | keyCount (n : Int)
  | signatureCount (n : Int)
  | stacksTooHigh
deriving DecidableEq

/-- Why a script could not be run. -/
inductive MachineError where
  | unrecognized (text : String)
  | missingLiteral (field : LengthField)
  | noMessages
  | assembly (e : AssemblyError)
  | sighash (e : Sighash.SighashError)
  | curve (e : Curve.CurveError)
  | verify (e : Signature.VerifyError)
  | stack (e : StackError)
  | noEffect (name : String)
deriving DecidableEq, Repr

/-- The text of a machine error. A mnemonic without an effect has none. -/
def MachineError.message? : MachineError → Option String
  | .unrecognized text => some ("Unrecognized script token: " ++ text)
  | .missingLiteral field => some (field.name ++ " is not followed by a data literal")
  | .noMessages => some "Missing sighash function for signature check"
  | .assembly e => e.message?
  | .sighash e => e.message?
  | .curve e => e.message?
  | .verify e => e.message?
  | .stack e => e.message?
  | .noEffect _ => none

/-- How a step halts a run. -/
inductive Halt where
  | failed (reason : Failure)
  | raised (e : MachineError)
deriving DecidableEq

/-- Computations on a machine within a run. -/
abbrev StepM := EStateM Halt Machine

/-- Computations on a machine between runs. -/
abbrev MachineM := EStateM MachineError Machine

namespace Machine

/-- Whether every open conditional takes its current branch. -/
def executing (m : Machine) : Bool :=
  m.conditions.all id

/-- Fails the script. -/
def fail {α : Type} (reason : Failure) : StepM α :=
  throw (.failed reason)

/-- Raises an error. -/
def raise {α : Type} (e : MachineError) : StepM α :=
  throw (.raised e)

/-- Takes an outcome as a step that raises its error. -/
def orRaise {ε α : Type} (outcome : Except ε α) (wrap : ε → MachineError) : StepM α :=
  match outcome with
  | .ok a => pure a
  | .error e => raise (wrap e)

/-- A computation on the two stacks, whose errors fail the script. -/
def onStacks {α : Type} (c : StacksM α) : StepM α := fun m ↦
  match c m.memory with
  | .ok a memory => .ok a { m with memory }
  | .error e memory => .error (.failed (.stack e)) { m with memory }

/-- A computation on the main stack. -/
def onMainStack {α : Type} (c : StackM α) : StepM α :=
  onStacks (onMain c)

/-- Adds a token to the log. -/
def record (t : Token) : StepM Unit :=
  modify fun m ↦ { m with log := t :: m.log }

end Machine

end BitcoinSpend.Script
