import Mathlib.Data.Nat.Bitwise
import BitcoinSpend.Proofs.Transaction.RoundTrip
import BitcoinSpend.Sighash.Message

/-!
# What hash types select

A hash type that has a wire form is a number below `2³²`. Its five lowest bits are its base, and the
bit of value `0x80` leaves other inputs open. `AgreeOn` says on these bits which parts of two
transactions have to be the same for the same signature to stand. Read it first.
-/

namespace BitcoinSpend

open Wire

/-- What an input spends. -/
def TxInput.spends (x : TxInput) : Bytes × Int :=
  (x.txid, x.vout)

namespace Sighash

/-- Two transactions agree on what a signature of input `i` with a hash type commits to. -/
structure AgreeOn (hashType i : Nat) (tx tx' : Transaction) : Prop where
  version : tx.version = tx'.version
  lockTime : tx.lockTime = tx'.lockTime
  outpoint : tx.inputs[i]?.map TxInput.spends = tx'.inputs[i]?.map TxInput.spends
  sequence : tx.inputs[i]?.map TxInput.sequence = tx'.inputs[i]?.map TxInput.sequence
  outpoints : hashType &&& 0x80 = 0 →
    tx.inputs.map TxInput.spends = tx'.inputs.map TxInput.spends
  sequences : hashType &&& 0x80 = 0 → hashType &&& 31 ≠ 2 → hashType &&& 31 ≠ 3 →
    tx.inputs.map TxInput.sequence = tx'.inputs.map TxInput.sequence
  outputs : hashType &&& 31 ≠ 2 → hashType &&& 31 ≠ 3 → tx.outputs = tx'.outputs
  output : hashType &&& 31 = 3 → tx.outputs[i]? = tx'.outputs[i]?

/-- Lists with the same images have the same image at each place. -/
theorem getElem?_map_congr {α β : Type} {f : α → β} {as as' : List α} (h : as.map f = as'.map f)
    (n : Nat) : as[n]?.map f = as'[n]?.map f := by
  rw [← List.getElem?_map, ← List.getElem?_map, h]

/-- A segwit transaction with two inputs and two outputs. -/
def twoSpends : Transaction where
  inputs := [.ofFields (List.replicate 32 0x11) 0 [0x51] 0xfffffffe false,
    .ofFields (List.replicate 32 0x22) 1 [0x00] 0xffffffff false]
  outputs := [⟨5, [0x51]⟩, ⟨6, [0x6a]⟩]
  witness := [[[0x01]], []]
  lockTime := 7
  version := 2
  segwit := true

/-- A transaction that differs from `twoSpends` in its first input and its first output. -/
def twoChangedSpends : Transaction :=
  { twoSpends with
    inputs := twoSpends.inputs.set 0 (.ofFields (List.replicate 32 0x33) 9 [] 0 false)
    outputs := twoSpends.outputs.set 0 ⟨4, []⟩ }

/-- The transaction is read back from its bytes. -/
theorem decode_twoSpends : Transaction.decode false (twoSpends.wire true) = .ok twoSpends :=
  rfl

/-- The changed transaction is read back from its bytes. -/
theorem decode_twoChangedSpends :
    Transaction.decode false (twoChangedSpends.wire true) = .ok twoChangedSpends :=
  rfl

/-- The two agree on what a signature of the second input and the output beside it commits to, if the
other inputs are open. -/
theorem agreeOn_twoChangedSpends : AgreeOn 0x83 1 twoSpends twoChangedSpends where
  version := rfl
  lockTime := rfl
  outpoint := rfl
  sequence := rfl
  outpoints hfixed := absurd hfixed (by decide)
  sequences hfixed := absurd hfixed (by decide)
  outputs _ hsingle := absurd rfl hsingle
  output _ := rfl

/-- They do not agree if all outpoints are committed to. -/
theorem not_agreeOn_twoChangedSpends : ¬ AgreeOn 0x03 1 twoSpends twoChangedSpends :=
  fun hagree ↦ absurd (hagree.outpoints rfl) (by decide)

/-- A number below `2³²` fits. -/
theorem fits_of_lt {n : Nat} (hn : n < 2 ^ 32) : fits false typeWidth n = true := by
  have hcapacity : Bytes.capacity typeWidth = 4294967296 := rfl
  rw [fits_unsigned, hcapacity]
  omega

/-- The byte of a hash type fits. -/
theorem fits_hashType (hashType : UInt8) : fits false typeWidth hashType.toNat = true :=
  fits_of_lt (Nat.lt_trans hashType.toNat_lt (by decide))

/-- The base of a hash type is made of its five lowest bits. -/
theorem base_eq (n : Nat) : base n = (n &&& 31 : Nat) := by
  rw [base, show (31 : Nat) = 2 ^ 5 - 1 from rfl, Nat.and_two_pow_sub_one_eq_mod]
  omega

/-- A hash type commits to no outputs if its base is two. -/
theorem base_eq_baseNone {n : Nat} : base n = baseNone ↔ n &&& 31 = 2 := by
  rw [base_eq, baseNone]
  omega

/-- A hash type commits to the output beside the input if its base is three. -/
theorem base_eq_baseSingle {n : Nat} : base n = baseSingle ↔ n &&& 31 = 3 := by
  rw [base_eq, baseSingle]
  omega

/-- A hash type leaves the sequences of other inputs open if its base is two or three. -/
theorem freesSequences_iff {n : Nat} : freesSequences n = true ↔ n &&& 31 = 2 ∨ n &&& 31 = 3 := by
  rw [freesSequences, Bool.or_eq_true, decide_eq_true_iff, decide_eq_true_iff, base_eq_baseNone,
    base_eq_baseSingle]

/-- A hash type commits to one input alone if the bit of value `0x80` is set. -/
theorem anyoneCanPay_iff {n : Nat} : anyoneCanPay n = true ↔ n &&& 0x80 ≠ 0 := by
  rw [show (0x80 : Nat) = 2 ^ 7 from rfl, Nat.and_two_pow, Nat.testBit_eq_decide_div_mod_eq,
    anyoneCanPay, decide_eq_true_iff]
  by_cases hset : n / 2 ^ 7 % 2 = 1
  · rw [decide_eq_true hset]
    exact iff_of_true (by omega) (by decide)
  · rw [decide_eq_false hset]
    exact iff_of_false (by omega) (by decide)

/-- The index of an input that there is. -/
theorem inputIndex_of_lt {tx : Transaction} {index : Nat} (hindex : index < tx.inputs.length)
    (scheme : Scheme) : inputIndex tx index scheme = .ok index := by
  rw [inputIndex, if_pos (by omega), Int.toNat_natCast]

/-- A value is kept where errors are wrapped. -/
theorem mapError_ok {α ε ε' : Type} (f : ε → ε') (a : α) :
    (Except.ok a : Except ε α).mapError f = .ok a :=
  rfl

end Sighash

end BitcoinSpend
