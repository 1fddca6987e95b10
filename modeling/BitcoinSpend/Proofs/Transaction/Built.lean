import BitcoinSpend.Proofs.Transaction.RoundTrip
import BitcoinSpend.Transaction.Change

/-!
# Transactions that are built

A transaction is built from fields or read from bytes, and is then changed in place or given other
lists. Nobody writes the text form of an unlocking script, so it stays in step with the script however
the transaction is built. Read `Transaction.Built` first; the main result is `Built.inStep`.
-/

namespace BitcoinSpend

/-! ## Inputs -/

/-- An input that comes from fields by changes of its fields. -/
inductive TxInput.Built : TxInput → Prop where
  | ofFields (txid : Bytes) (vout : Int) (unlocking : Bytes) (sequence : Int)
      (disassembled : Bool) : Built (.ofFields txid vout unlocking sequence disassembled)
  | change {i : TxInput} (h : Built i) (c : Change) : Built (c.apply i)

/-- A change leaves the text form of an input in step. -/
theorem TxInput.InStep.apply {i : TxInput} (h : i.InStep) (c : Change) : (c.apply i).InStep := by
  cases c with
  | unlocking script => exact inStep_withUnlocking i script
  | txid | vout | sequence => exact h

/-- The text form of an input that is built is in step. -/
theorem TxInput.Built.inStep {i : TxInput} (h : i.Built) : i.InStep := by
  induction h with
  | ofFields txid vout unlocking sequence disassembled => exact inStep_ofFields ..
  | change _ c ih => exact ih.apply c

/-! ## Transactions -/

namespace Transaction

/-- A transaction that comes from fields or from bytes by changes and by assignments of whole lists.
The inputs that are put into it are themselves built. -/
inductive Built : Transaction → Prop where
  | ofFields {inputs : List TxInput} (hinputs : ∀ i ∈ inputs, i.Built) (outputs : List TxOutput)
      (witness : List Witness) (lockTime version : Int) (segwit? : Option Bool) :
      Built (.ofFields inputs outputs witness lockTime version segwit?)
  | decode {disassembled : Bool} {bs : Bytes} {tx : Transaction}
      (h : Transaction.decode disassembled bs = .ok tx) : Built tx
  | change {tx tx' : Transaction} (h : Built tx) {c : Change}
      (hadded : ∀ i, c = .addInput i → i.Built) (hchange : c.apply? tx = some tx') : Built tx'
  | inputs {tx : Transaction} (h : Built tx) {inputs : List TxInput}
      (hinputs : ∀ i ∈ inputs, i.Built) : Built { tx with inputs := inputs }
  | outputs {tx : Transaction} (h : Built tx) (outputs : List TxOutput) :
      Built { tx with outputs := outputs }
  | witness {tx : Transaction} (h : Built tx) (witness : List Witness) :
      Built { tx with witness := witness }

/-- What a change of an element leaves in a list was there or is the changed element. -/
theorem mem_of_modifyAt? {α : Type} {l l' : List α} {index : Int} {f : α → α}
    (h : modifyAt? l index f = some l') {b : α} (hb : b ∈ l') : b ∈ l ∨ ∃ a ∈ l, f a = b := by
  obtain ⟨k, -, hmodify⟩ := Option.bind_eq_some_iff.mp h
  cases hmodify
  obtain ⟨n, hn⟩ := List.mem_iff_getElem?.mp hb
  rw [List.getElem?_modify] at hn
  obtain ⟨a, ha, hab⟩ := Option.map_eq_some_iff.mp hn
  have hmem := List.mem_of_getElem? ha
  by_cases hkn : k = n
  · rw [if_pos hkn] at hab
    exact .inr ⟨a, hmem, hab⟩
  · rw [if_neg hkn] at hab
    exact .inl (hab ▸ hmem)

/-- A change leaves the text forms of inputs in step, if that of an input that is added is. -/
theorem inStep_of_apply? {tx tx' : Transaction} (h : ∀ i ∈ tx.inputs, i.InStep) {c : Change}
    (hadded : ∀ i, c = .addInput i → i.InStep) (hchange : c.apply? tx = some tx') :
    ∀ i ∈ tx'.inputs, i.InStep := by
  cases c with
  | input index c =>
      obtain ⟨inputs, hmodify, htx'⟩ := Option.bind_eq_some_iff.mp hchange
      cases htx'
      intro i hi
      rcases mem_of_modifyAt? hmodify hi with hi | ⟨j, hj, rfl⟩
      · exact h i hi
      · exact (h j hj).apply c
  | addInput i =>
      cases hchange
      exact List.forall_mem_append.mpr ⟨h, List.forall_mem_singleton.mpr (hadded i rfl)⟩
  | output | witness =>
      obtain ⟨_, -, htx'⟩ := Option.bind_eq_some_iff.mp hchange
      cases htx'
      exact h
  | version | lockTime | segwit | addOutput | addWitness =>
      cases hchange
      exact h

/-- The text forms of the inputs of a transaction that is built are in step. -/
theorem Built.inStep {tx : Transaction} (h : tx.Built) : ∀ i ∈ tx.inputs, i.InStep := by
  induction h with
  | ofFields hinputs => exact fun i hi ↦ (hinputs i hi).inStep
  | decode h => exact (asRead_of_decode h).inStep
  | change _ hadded hchange ih => exact inStep_of_apply? ih (fun i hi ↦ (hadded i hi).inStep) hchange
  | inputs _ hinputs => exact fun i hi ↦ (hinputs i hi).inStep
  | outputs _ _ ih => exact ih
  | witness _ _ ih => exact ih

end Transaction

end BitcoinSpend
