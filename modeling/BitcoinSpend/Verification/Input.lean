import BitcoinSpend.Script.Machine.Run
import BitcoinSpend.Script.Template
import BitcoinSpend.Sighash.Message

/-!
# Verifying an input

An input may spend an output if its scripts run to a true result. Read `verifyInput` first. What is
run depends on the locking script: a version-zero witness program stands for the script that it
commits to, a payment to a script is run a second time with the script that the unlocking script
pushes last, and everything else is run as it is. A lenient policy tries once more without the
unlocking script. The scripts that were run are kept in a journal.
-/

namespace BitcoinSpend.Verification

open Script

/-- A pair of scripts that was run, the machine behind it, and the result unless it raised an
error. -/
structure Run where
  segwit : Bool
  unlocking : List Token
  locking : List Token
  machine : Machine
  result? : Option Bool

/-- What has happened so far: the runs and the notices, both with the last one first. -/
structure Journal where
  runs : List Run := []
  notices : List String := []

/-- Why there is no verdict. -/
inductive SpendError where
  | machine (e : MachineError)
  | noSuchIndex
  | write (e : Wire.WriteError)
  | tooFewPrevious (expected received : Nat)
  | missingPrevious (index : Nat)
  | missingOutput (txid : Bytes) (vout : Int) (index : Nat)
  | unwritable
deriving DecidableEq, Repr

/-- The text of an error of verification. An index that does not exist and an integer without a text
have none. -/
def SpendError.message? : SpendError → Option String
  | .machine e => e.message?
  | .noSuchIndex => none
  | .write e => e.message?
  | .tooFewPrevious expected received =>
    some s!"Expected {expected} previous transactions, received {received}"
  | .missingPrevious index => some s!"Missing previous transaction for input {index}"
  | .missingOutput txid vout index =>
    let name := Hex.encode txid
    some s!"Previous transaction {name} has no output {vout} for input {index}"
  | .unwritable => none

/-- The error for an input that spends an output that does not exist. Its message holds the position
of the output. -/
def SpendError.noOutput (txid : Bytes) (vout : Int) (index : Nat) : SpendError :=
  Text.errorAbout [vout] (.missingOutput txid vout index) .unwritable

/-- Computations that reach a verdict and keep a journal. -/
abbrev VerifyM := EStateM SpendError Journal

/-- What a spend consists of: the policy, the transaction, the signed position of the input, and the
amount that it spends. -/
structure Spend where
  policy : Policy
  tx : Transaction
  index : Int
  amount : Int

namespace Spend

/-- The messages that signatures of a spend sign. -/
def messages (s : Spend) (segwit : Bool) : Messages := fun code hashType ↦
  if segwit then Sighash.segwit s.tx s.index s.amount code hashType.toNat
  else Sighash.legacy s.tx s.index code hashType.toNat

/-- Runs a pair of scripts on a fresh machine. -/
def runPair (s : Spend) (segwit : Bool) (initial : List Bytes) (unlocking locking : List Token) :
    VerifyM Bool := fun journal ↦
  let env : Environment := {
    messages? := some (s.messages segwit)
    initial, segwit
    policy := s.policy }
  let noted (machine : Machine) (result? : Option Bool) : Journal :=
    { journal with runs := ⟨segwit, unlocking, locking, machine, result?⟩ :: journal.runs }
  match Machine.validatePair env unlocking locking {} with
  | .ok result machine => .ok result (noted machine (some result))
  | .error e machine => .error (.machine e) (noted machine none)

/-- Runs a locking script, or the script that it commits to as a witness program. A program needs an
empty unlocking script and a witness of the right shape. -/
def runResolved (s : Spend) (witness : Witness) (unlocking locking : List Token) :
    VerifyM Bool := do
  match witnessKeyHash? locking, witnessScriptHash? locking with
  | some key, _ =>
    if !unlocking.isEmpty || witness.length ≠ 2 then return false
    s.runPair true witness [] (payToKeyHash (.literal key))
  | none, some script =>
    match witness.getLast? with
    | none => return false
    | some witnessScript =>
      if !unlocking.isEmpty || Hash.sha256 witnessScript ≠ script.data then return false
      s.runPair true witness.dropLast [] (disassemble witnessScript)
  | none, none => s.runPair false [] unlocking locking

/-- The script that an unlocking script pushes last and the unlocking script without that push. Only
scripts that do nothing but push have one, and a push of a number does not count. -/
def splitRedeem? (unlocking : List Token) : Option (List Token × List Token) :=
  if isPushOnly unlocking then
    match unlocking.reverse with
    | .op (.stack (.constant .zero)) :: before => some ([], withoutField before)
    | .literal l :: before => some (disassemble l.data, withoutField before)
    | _ => none
  else none
where
  /-- The tokens in front of a push, given last first, without the opcode of its length field. -/
  withoutField : List Token → List Token
    | [] => []
    | t :: before => if t.isPushData then before.reverse else (t :: before).reverse

/-- Runs the script that the unlocking script pushes last. -/
def runRedeem (s : Spend) (witness : Witness) (unlocking : List Token) : VerifyM Bool := do
  match splitRedeem? unlocking with
  | some (redeem, before) => s.runResolved witness before redeem
  | none => return false

/-- One attempt: the scripts themselves, and, for a payment to a script, that script as well. -/
def attempt (s : Spend) (witness : Witness) (unlocking locking : List Token) : VerifyM Bool := do
  if ← s.runResolved witness unlocking locking then
    if (scriptHash? locking).isSome then s.runRedeem witness unlocking else return true
  else return false

end Spend

/-- The element at a signed position; that there is none is an error. -/
def require {α : Type} (a? : Option α) : VerifyM α :=
  match a? with
  | some a => pure a
  | none => throw .noSuchIndex

/-- Enters the position of a coinbase into the log. -/
def logCoinbase (index : Int) : VerifyM Unit :=
  if Text.Writable index then pure () else throw .unwritable

/-- Verifies the input at a signed position against the output that it spends. A coinbase runs no
scripts. A transaction may have fewer witnesses than inputs; a missing one is empty. -/
def verifyInput (policy : Policy) (tx : Transaction) (index : Int) (previous : TxOutput) :
    VerifyM Bool := do
  if tx.isCoinbase then
    logCoinbase index
    return true
  let input ← require (elementAt? tx.inputs index)
  let unlocking := input.tokens?.getD (disassemble input.unlocking)
  let witness ←
    if index < tx.witness.length then require (elementAt? tx.witness index) else pure []
  let spend : Spend := ⟨policy, tx, index, previous.amount⟩
  let result ← spend.attempt witness unlocking previous.tokens
  if !result && policy.permissiveRetry && !unlocking.isEmpty then
    spend.attempt witness [] previous.tokens
  else return result

end BitcoinSpend.Verification
