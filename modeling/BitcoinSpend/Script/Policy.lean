import BitcoinSpend.Sighash.HashType

/-!
# Policies and environments

What a run of a script depends on besides the script: a `Policy`, which switches the leniencies of
old rules and limits the stacks, and an `Environment`, which adds the message that signatures sign,
the items that the stack starts with and the generation of the rules.
-/

namespace BitcoinSpend.Script

/-- The leniencies of old rules and the limit on the stacks. -/
structure Policy where
  /-- Whether a failed spend is tried once more without its unlocking script. -/
  permissiveRetry : Bool := true
  /-- Whether a signature may also sign the digest `Sighash.one`. -/
  sentinelFallback : Bool := true
  /-- Whether signatures may be written by the lax rules. -/
  laxDer : Bool := true
  /-- The most items that both stacks together may hold. -/
  maxStack : Int := 1000
deriving DecidableEq, Repr

/-- Gives the message of a signature from the script that it commits to and its hash type. -/
abbrev Messages := Bytes → UInt8 → Except Sighash.SighashError Bytes

/-- What a run depends on besides its script. -/
structure Environment where
  /-- The messages that signatures sign, if there are any. -/
  messages? : Option Messages := none
  /-- The items on the stack at the start, the bottom one first. -/
  initial : List Bytes := []
  /-- Whether signatures commit to the script without removing them from it. -/
  segwit : Bool := false
  policy : Policy := {}

end BitcoinSpend.Script
