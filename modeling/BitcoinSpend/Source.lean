import BitcoinSpend.Text.LowerCase
import BitcoinSpend.Verification.Transaction

/-!
# Transaction sources

A source keeps transactions under their identifiers and blocks under their heights and hashes.
Identifiers and hashes are compared without regard to the case of letters, and what is added last
wins. Read `addTransaction`, `addBlock` and the two `fetch` functions first; `verifyTxid` verifies a
transaction with everything that it needs taken from the source.
-/

namespace BitcoinSpend

open Script Verification

/-- A store of transactions and blocks. Each part lists what was added, the last addition first. -/
structure Source where
  transactions : List (String × Bytes) := []
  blocks : List (Int × List String) := []
  blockHeights : List (String × Int) := []
deriving DecidableEq, Repr

namespace Source

/-- What a block is asked for by. -/
inductive BlockId where
  | height (h : Int)
  | hash (s : String)
deriving DecidableEq, Repr

/-- The text of a block identifier. -/
def BlockId.text : BlockId → String
  | height h => toString h
  | hash s => s

/-- The integers in the text of a block identifier. -/
def BlockId.numbers : BlockId → List Int
  | height h => [h]
  | hash _ => []

/-- Why a source has no answer. -/
inductive SourceError where
  | unknownTransaction (txid : String)
  | unknownBlock (id : BlockId)
  | read (e : Wire.ReadError)
  | write (e : Wire.WriteError)
  | spend (e : SpendError)
  | unwritable
deriving DecidableEq, Repr

/-- The text of a source error. An integer without a text leaves none. -/
def SourceError.message? : SourceError → Option String
  | .unknownTransaction txid => some ("Unknown transaction: " ++ txid)
  | .unknownBlock id => some ("Unknown block: " ++ id.text)
  | .read e => e.message?
  | .write e => e.message?
  | .spend e => e.message?
  | .unwritable => none

/-- The error for an identifier of no block. Its message holds the identifier. -/
def SourceError.noBlock (id : BlockId) : SourceError :=
  Text.errorAbout id.numbers (.unknownBlock id) .unwritable

/-- The source with a byte string under an identifier. -/
def insertRaw (s : Source) (txid : String) (raw : Bytes) : Source :=
  { s with transactions := (Text.lower txid, raw) :: s.transactions }

/-- The source that holds byte strings under identifiers. -/
def ofList (transactions : List (String × Bytes)) : Source :=
  transactions.foldl (fun s (txid, raw) ↦ s.insertRaw txid raw) {}

/-- Adds a transaction and returns the identifier that it is kept under. -/
def addTransaction (s : Source) (tx : Transaction) : Except SourceError (String × Source) := do
  let id ← tx.txid.mapError .write
  let raw ← (tx.encode true).mapError .write
  let txid := Hex.encode id
  return (txid, s.insertRaw txid raw)

/-- Adds a transaction given by its bytes. -/
def addRaw (s : Source) (raw : Bytes) : Except SourceError (String × Source) := do
  let tx ← (Transaction.decode true raw).mapError .read
  s.addTransaction tx

/-- Adds the identifiers of a block under its height and its hash. -/
def addBlock (s : Source) (height : Int) (hash : String) (txids : List String) : Source :=
  { s with
    blocks := (height, txids) :: s.blocks
    blockHeights := (Text.lower hash, height) :: s.blockHeights }

/-- The bytes of the transaction with an identifier. -/
def fetchTransaction (s : Source) (txid : String) : Except SourceError Bytes :=
  match s.transactions.lookup (Text.lower txid) with
  | some raw => .ok raw
  | none => .error (.unknownTransaction txid)

/-- The height that a block identifier stands for. -/
def height? (s : Source) : BlockId → Option Int
  | .height h => some h
  | .hash hash => s.blockHeights.lookup (Text.lower hash)

/-- The identifiers of the transactions of a block. A hash gives the block last added at its
height. -/
def fetchBlock (s : Source) (id : BlockId) : Except SourceError (List String) :=
  match (s.height? id).bind fun h ↦ s.blocks.lookup h with
  | some txids => .ok txids
  | none => .error (.noBlock id)

/-- The transaction with an identifier. -/
def transaction (s : Source) (txid : String) : Except SourceError Transaction := do
  let raw ← s.fetchTransaction txid
  (Transaction.decode true raw).mapError .read

/-- The transactions that the inputs of a transaction spend from. A coinbase spends from none. -/
def previous (s : Source) (tx : Transaction) : Except SourceError (List (Option Transaction)) :=
  tx.inputs.mapM fun input ↦
    if tx.isCoinbase then .ok none
    else return some (← s.transaction (Hex.encode input.txid))

/-- Takes an outcome as a verification that keeps the journal. -/
def lift {α : Type} (outcome : Except SourceError α) : EStateM SourceError Journal α :=
  match outcome with
  | .ok a => pure a
  | .error e => throw e

/-- Verifies the transaction with an identifier, and gives notice of the verdict. -/
def verifyTxid (s : Source) (policy : Policy) (txid : String) :
    EStateM SourceError Journal Bool := do
  let tx ← lift (s.transaction txid)
  let previous ← lift (s.previous tx)
  let valid ← fun journal ↦
    match verify policy tx previous journal with
    | .ok valid journal => .ok valid journal
    | .error e journal => .error (.spend e) journal
  let verdict := if valid then "valid" else "invalid"
  modify fun j ↦ { j with notices := s!"Transaction {txid}: {verdict}" :: j.notices }
  return valid

end Source

end BitcoinSpend
