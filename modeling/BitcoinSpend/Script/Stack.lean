import BitcoinSpend.Bytes.Hex
import BitcoinSpend.Document
import BitcoinSpend.Position
import BitcoinSpend.Script.Number

/-!
# Stacks

A stack holds byte strings, top first, and has a limit on their number. Operations are computations
on a stack; one that fails leaves behind whatever it has already done, so popping a number that is
too long has popped it. Read `push` and `pop` first.
-/

namespace BitcoinSpend.Script

/-- A stack, top first, and the most items that a push may leave on it. -/
structure Stack where
  items : List Bytes := []
  maxSize : Int := 1000
deriving DecidableEq, Repr

/-- Why a stack operation failed. -/
inductive StackError where
  | overflow
  | underflow (needed : Int) (height : Nat)
  | notAnItem
  | noSuchIndex
  | depthRange (depth : Int) (height : Nat)
  | catTooLong
  | substrRange
  | leftRange
  | rightRange
  | lengthMismatch
  | number (e : Number.NumberError)
  | unwritable
deriving DecidableEq, Repr

/-- The text of a stack error. An index below the bottom and an integer without a text have none. -/
def StackError.message? : StackError → Option String
  | .overflow => some "Stack operations would exceed maximum size"
  | .underflow needed height =>
    some s!"Stack operation needs {needed} items but stack height is {height}"
  | .notAnItem => some "Only bytes or BitNum are allowed on the BitStack"
  | .noSuchIndex => none
  | .depthRange depth height => some s!"Stack depth {depth} out of range for stack of height {height}"
  | .catTooLong => some "OP_CAT result exceeds maximum element size"
  | .substrRange => some "OP_SUBSTR range out of bounds"
  | .leftRange => some "OP_LEFT size out of bounds"
  | .rightRange => some "OP_RIGHT size out of bounds"
  | .lengthMismatch => some "Bitwise operands must have equal length"
  | .number e => e.message?
  | .unwritable => none

/-- The error for an operation that needs more items than there are. Its message holds how many it
needs. -/
def StackError.tooFew (needed : Int) (height : Nat) : StackError :=
  Text.errorAbout [needed] (.underflow needed height) .unwritable

/-- What a caller may offer to a stack. Only bytes and numbers can become items. -/
inductive Offer where
  | bytes (bs : Bytes)
  | number (n : Int)
  | other
deriving DecidableEq, Repr

/-- The item that an offer becomes. -/
def Offer.item : Offer → Except StackError Bytes
  | .bytes bs => .ok bs
  | .number n => .ok (Number.encode n)
  | .other => .error .notAnItem

/-- Computations on a stack. -/
abbrev StackM := EStateM StackError Stack

namespace Stack

/-- The number of items. -/
def height (s : Stack) : Nat :=
  s.items.length

/-- Fails unless there is room for some more items. -/
def requireRoom (count : Nat) : StackM Unit := fun s ↦
  if s.maxSize < s.height + count then .error .overflow s else .ok () s

/-- Fails unless there are at least so many items. -/
def requireHeight (needed : Int) : StackM Unit := fun s ↦
  if s.height < needed then .error (.tooFew needed s.height) s else .ok () s

/-- Puts an item on top without looking at the limit. -/
def place (bs : Bytes) : StackM Unit := fun s ↦
  .ok () { s with items := bs :: s.items }

/-- Pushes a byte string. -/
def push (bs : Bytes) : StackM Unit := do
  requireRoom 1
  place bs

/-- Pushes a number in its shortest form. -/
def pushNumber (n : Int) : StackM Unit :=
  push (Number.encode n)

/-- Pushes a truth value: the number one, or nothing. -/
def pushBool (b : Bool) : StackM Unit :=
  pushNumber (Number.ofBool b)

/-- Puts what is offered on top, one after another. The first that is no item stops it. -/
def placeAll : List Offer → StackM Unit
  | [] => pure ()
  | offer :: rest => do
    match offer.item with
    | .ok bs => place bs
    | .error e => throw e
    placeAll rest

/-- Pushes what is offered, the last one on top, if there is room for all of it. -/
def pushAll (offers : List Offer) : StackM Unit := do
  requireRoom offers.length
  placeAll offers

/-- Pushes what is offered with the first one on top. -/
def pushTopFirst (offers : List Offer) : StackM Unit :=
  pushAll offers.reverse

/-- Pushes byte strings given top first, as `popMany` returns them. -/
def restore (items : List Bytes) : StackM Unit :=
  pushTopFirst (items.map .bytes)

/-- Pushes one offer. -/
def pushOffer (offer : Offer) : StackM Unit :=
  pushAll [offer]

/-- The top item. -/
def top : StackM Bytes := fun s ↦
  match s.items with
  | [] => .error (.underflow 1 0) s
  | bs :: _ => .ok bs s

/-- Removes and returns the top item. -/
def pop : StackM Bytes := fun s ↦
  match s.items with
  | [] => .error (.underflow 1 0) s
  | bs :: rest => .ok bs { s with items := rest }

/-- Removes and returns the two top items, the top one first. -/
def popPair : StackM (Bytes × Bytes) := fun s ↦
  match s.items with
  | first :: second :: rest => .ok (first, second) { s with items := rest }
  | _ => .error (.underflow 2 s.height) s

/-- Removes and returns the top `n` items, the top one first. A negative number removes none. -/
def popMany (n : Int) : StackM (List Bytes) := do
  requireHeight n
  let s ← get
  set { s with items := s.items.drop n.toNat }
  return s.items.take n.toNat

/-- The item at a depth, where the top has depth zero and negative depths count from the bottom. -/
def peek (depth : Int) : StackM Bytes := do
  requireHeight (depth + 1)
  match elementAt? (← get).items depth with
  | some bs => return bs
  | none => throw .noSuchIndex

/-- Removes and returns the item at a depth. -/
def remove (depth : Int) : StackM Bytes := do
  requireHeight (depth + 1)
  let s ← get
  match position? s.height depth with
  | some i =>
    set { s with items := s.items.eraseIdx i }
    return s.items.getD i []
  | none => throw .noSuchIndex

/-- Removes the top item and returns whether it counts as true. -/
def popBool : StackM Bool := do
  return Number.truth (← pop)

/-- Removes the top item and returns the number that it writes, if it is not longer than the
limit. -/
def popNumberUpTo (limit : Int) : StackM Int := do
  let bs ← pop
  match Number.decode limit bs with
  | .ok n => return n
  | .error e => throw (.number e)

/-- Removes the top item and returns it as an operand. -/
def popNumber : StackM Int :=
  popNumberUpTo Number.maxSize

/-- Removes all items. -/
def clear : StackM Unit := fun s ↦
  .ok () { s with items := [] }

/-- The stack that results from pushing what is offered onto an empty one, if anything is. -/
def ofOffers (offers : List Offer) (maxSize : Int) : Except StackError Stack :=
  if offers.isEmpty then .ok { maxSize }
  else
    match pushAll offers { maxSize } with
    | .ok _ s => .ok s
    | .error e _ => .error e

/-- The items under their depths. -/
def document (s : Stack) : Document :=
  .object (s.items.mapIdx fun i bs ↦ (toString i, .text (Hex.encode bs)))

end Stack

end BitcoinSpend.Script
