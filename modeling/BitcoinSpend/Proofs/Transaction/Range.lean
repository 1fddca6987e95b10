import BitcoinSpend.Proofs.Transaction.Spelling

/-!
# Transactions within the ranges of the wire format

The fields of a transaction are plain integers and byte strings, so most of their values have no
wire form. `InRange` names the ranges of the wire format by their numbers. A transaction in range
with one witness to each input is always written, but not all of them are read back:
`decode_encode_iff` says which are.
-/

namespace BitcoinSpend

open Wire

/-! ## Ranges -/

/-- An input whose fields lie in the ranges of the wire format. -/
structure TxInput.InRange (i : TxInput) : Prop where
  txid : i.txid.length = 32
  vout : 0 ≤ i.vout ∧ i.vout < 0x100000000
  unlocking : i.unlocking.length < 2 ^ 63
  sequence : 0 ≤ i.sequence ∧ i.sequence < 0x100000000

/-- An output whose fields lie in the ranges of the wire format. -/
structure TxOutput.InRange (o : TxOutput) : Prop where
  amount : -0x8000000000000000 ≤ o.amount ∧ o.amount < 0x8000000000000000
  locking : o.locking.length < 2 ^ 63

/-- A transaction whose fields lie in the ranges of the wire format. Lists are shorter than `2⁶⁴`,
the least number that has no form as a count. -/
structure Transaction.InRange (tx : Transaction) : Prop where
  version : -0x80000000 ≤ tx.version ∧ tx.version < 0x80000000
  lockTime : 0 ≤ tx.lockTime ∧ tx.lockTime < 0x100000000
  inputCount : tx.inputs.length < 2 ^ 64
  inputs : ∀ i ∈ tx.inputs, i.InRange
  outputCount : tx.outputs.length < 2 ^ 64
  outputs : ∀ o ∈ tx.outputs, o.InRange
  itemCount : ∀ w ∈ tx.witness, w.length < 2 ^ 64
  items : ∀ w ∈ tx.witness, ∀ item ∈ w, item.length < 2 ^ 63

/-- Four bytes hold the numbers below `2³²`. -/
theorem fits_four {v : Int} (h : 0 ≤ v ∧ v < 0x100000000) : fits false 4 v = true :=
  fits_unsigned.mpr h

/-- In two's complement four bytes hold the integers from `-2³¹` to `2³¹ - 1`. -/
theorem fits_four_signed {v : Int} (h : -0x80000000 ≤ v ∧ v < 0x80000000) :
    fits true 4 v = true := by
  have hcapacity : Bytes.capacity 4 = 0x100000000 := rfl
  exact (fits_signed (by decide)).mpr (by omega)

/-- In two's complement eight bytes hold the integers from `-2⁶³` to `2⁶³ - 1`. -/
theorem fits_eight_signed {v : Int} (h : -0x8000000000000000 ≤ v ∧ v < 0x8000000000000000) :
    fits true 8 v = true := by
  have hcapacity : Bytes.capacity 8 = 0x10000000000000000 := rfl
  exact (fits_signed (by decide)).mpr (by omega)

/-- What is in range has a wire form. -/
theorem Transaction.InRange.encodable {tx : Transaction} (h : tx.InRange) : tx.Encodable where
  version := fits_four_signed h.version
  inputCount := h.inputCount
  inputs i hi :=
    have hinput := h.inputs i hi
    ⟨hinput.txid, fits_four hinput.vout, hinput.unlocking, fits_four hinput.sequence⟩
  outputCount := h.outputCount
  outputs o ho :=
    have houtput := h.outputs o ho
    ⟨fits_eight_signed houtput.amount, houtput.locking⟩
  witness w hw := ⟨h.itemCount w hw, h.items w hw⟩
  lockTime := fits_four h.lockTime

/-! ## What is returned -/

/-- The fields of an input that are written. -/
def TxInput.fields (i : TxInput) : Bytes × Int × Bytes × Int :=
  (i.txid, i.vout, i.unlocking, i.sequence)

namespace Transaction

/-- A transaction with the fields of another, and with empty witnesses where that one is no segwit
transaction. -/
structure HasFieldsOf (read tx : Transaction) : Prop where
  version : read.version = tx.version
  segwit : read.segwit = tx.segwit
  inputs : read.inputs.map TxInput.fields = tx.inputs.map TxInput.fields
  outputs : read.outputs = tx.outputs
  witness : read.witness = if tx.segwit then tx.witness else List.replicate tx.inputs.length []
  lockTime : read.lockTime = tx.lockTime

/-- The transaction that is read back has the fields that were written. -/
theorem hasFieldsOf_reread (disassembled : Bool) {tx : Transaction}
    (hwitness : tx.witness.length = tx.inputs.length) :
    (tx.reread disassembled).HasFieldsOf tx where
  version := rfl
  segwit := rfl
  inputs := by
    rw [reread, ofFields, List.map_map]
    rfl
  outputs := rfl
  witness := by
    rw [reread, ofFields, List.length_map]
    cases tx.segwit with
    | true =>
        rw [if_pos rfl, hwitness, Nat.sub_self, List.replicate_zero, List.append_nil]
        rfl
    | false => rfl
  lockTime := rfl

/-! ## The main result -/

/-- A transaction without inputs that is read from what a transaction with outputs only is written
as has other outputs: with those it would take two more bytes, for marker and flag. -/
theorem outputs_ne_of_decode_wire {disassembled : Bool} {tx read : Transaction} (h : tx.Encodable)
    (hsegwit : tx.segwit = false) (hinputs : tx.inputs = []) (houtputs : tx.outputs ≠ [])
    (hread : decode disassembled (tx.wire true) = .ok read) (hnone : read.inputs = []) :
    read.outputs ≠ tx.outputs := by
  intro heq
  have hmarked := segwit_of_decode_wire h hsegwit hinputs houtputs hread
  obtain ⟨s, rfl, hbytes⟩ := decode_ok_iff.mp hread
  have hle := (s.saves disassembled).length_le
  rw [← hbytes] at hle
  simp only [wire, hmarked, hsegwit, hnone, hinputs, heq, Bool.and_true, Bool.false_eq_true,
    reduceIte, List.length_append, List.length_cons, List.length_nil, length_ofIntLE] at hle
  omega

/-- A transaction in range with one witness to each input is written. What is written is read with
the same fields if it is a segwit transaction or has an input or has no output, and in the remaining
case never. Then it is a segwit transaction with other inputs or outputs, if it is read at all. -/
theorem decode_encode_iff (disassembled : Bool) {tx : Transaction} (h : tx.InRange)
    (hwitness : tx.witness.length = tx.inputs.length) :
    ∃ bs, tx.encode true = .ok bs ∧
      ((∃ read, decode disassembled bs = .ok read ∧ read.HasFieldsOf tx) ↔
        tx.segwit = true ∨ tx.inputs ≠ [] ∨ tx.outputs = []) ∧
      (¬ (tx.segwit = true ∨ tx.inputs ≠ [] ∨ tx.outputs = []) →
        ∀ read, decode disassembled bs = .ok read →
          read.segwit = true ∧ ¬ (read.inputs = [] ∧ read.outputs = tx.outputs)) := by
  have hencodable := h.encodable
  have hremaining (hform : ¬ (tx.segwit = true ∨ tx.inputs ≠ [] ∨ tx.outputs = []))
      (read : Transaction) (hread : decode disassembled (tx.wire true) = .ok read) :
      read.segwit = true ∧ ¬ (read.inputs = [] ∧ read.outputs = tx.outputs) := by
    obtain ⟨hsegwit, hinputs, houtputs⟩ :
        tx.segwit = false ∧ tx.inputs = [] ∧ tx.outputs ≠ [] := by
      simpa using hform
    refine ⟨segwit_of_decode_wire hencodable hsegwit hinputs houtputs hread, ?_⟩
    rintro ⟨hnone, heq⟩
    exact outputs_ne_of_decode_wire hencodable hsegwit hinputs houtputs hread hnone heq
  refine ⟨tx.wire true, encode_eq true hencodable, ⟨?_, ?_⟩, hremaining⟩
  · rintro ⟨read, hread, hfields⟩
    refine Classical.byContradiction fun hform ↦ ?_
    have hmarked := (hremaining hform read hread).1
    rw [hfields.segwit] at hmarked
    exact hform (.inl hmarked)
  · intro hform
    exact ⟨tx.reread disassembled, decode_wire disassembled hencodable (fun _ ↦ hwitness) hform,
      hasFieldsOf_reread disassembled hwitness⟩

/-- A transaction with an input is read back with its fields, and one with an output only is not. -/
theorem decode_encode_oneSpend_onlyPays :
    (∃ bs, oneSpend.encode true = .ok bs ∧
        ∃ read, decode true bs = .ok read ∧ read.HasFieldsOf oneSpend) ∧
      ∃ bs, onlyPays.encode true = .ok bs ∧
        ¬ ∃ read, decode true bs = .ok read ∧ read.HasFieldsOf onlyPays := by
  have hspend : oneSpend.InRange := {
    version := by decide
    lockTime := by decide
    inputCount := by decide
    inputs := List.forall_mem_singleton.mpr ⟨by decide, by decide, by decide, by decide⟩
    outputCount := by decide
    outputs := fun o ho ↦ nomatch ho
    itemCount := List.forall_mem_singleton.mpr (by decide)
    items := List.forall_mem_singleton.mpr fun item hitem ↦ nomatch hitem }
  have hpays : onlyPays.InRange := {
    version := by decide
    lockTime := by decide
    inputCount := by decide
    inputs := fun i hi ↦ nomatch hi
    outputCount := by decide
    outputs := List.forall_mem_singleton.mpr ⟨by decide, by decide⟩
    itemCount := fun w hw ↦ nomatch hw
    items := fun w hw ↦ nomatch hw }
  obtain ⟨spent, hspent, hback, -⟩ := decode_encode_iff true hspend rfl
  obtain ⟨paid, hpaid, hlost, -⟩ := decode_encode_iff true hpays rfl
  exact ⟨⟨spent, hspent, hback.mpr (.inr (.inl (by decide)))⟩,
    paid, hpaid, mt hlost.mp (by decide)⟩

end Transaction

end BitcoinSpend
