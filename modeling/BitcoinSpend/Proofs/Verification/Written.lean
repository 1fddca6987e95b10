import BitcoinSpend.Proofs.Transaction.Built
import BitcoinSpend.Proofs.Verification.Isolation

/-!
# Verdicts and bytes

Verifying an input reads the fields of a transaction, while transactions are compared and kept by their
bytes. What the bytes leave out makes no difference to an input, with one exception: the witness of a
transaction in the older form is not written, but a witness program takes it. The main result is
`verifyInput_of_encode_eq`.
-/

namespace BitcoinSpend

/-! ## Messages -/

namespace Transaction.SameWritten

variable {tx tx' : Transaction}

/-- Transactions that are the same in all that is written have the same of all that is not an
unlocking script or a witness. -/
theorem sameUnlocked (h : SameWritten tx tx') : Sighash.SameUnlocked tx tx' := by
  have hreread {α : Type} (f : TxInput → α) (hf : ∀ i, f (i.reread false) = f i) :
      tx.inputs.map f = tx'.inputs.map f := by
    have hmap (inputs : List TxInput) : inputs.map f = (inputs.map (·.reread false)).map f := by
      rw [List.map_map]
      exact List.map_congr_left fun i _ ↦ (hf i).symm
    rw [hmap, h.inputs, ← hmap]
  exact ⟨h.version, h.lockTime, hreread _ fun _ ↦ rfl, hreread _ fun _ ↦ rfl, h.outputs⟩

/-- Older signatures sign the same in transactions that are the same in all that is written, however
many witnesses there are. -/
theorem legacy_eq (h : SameWritten tx tx') (htx : tx.Encodable) (htx' : tx'.Encodable)
    (index : Int) (code : Bytes) (hashType : Int) :
    Sighash.legacy tx index code hashType = Sighash.legacy tx' index code hashType := by
  have hcopy : tx.copy false = tx'.copy false := by
    rw [copy, copy, encode_eq true htx, encode_eq true htx', h.wire_eq]
  rw [Sighash.legacy, Sighash.legacy, Sighash.legacyPreimage, Sighash.legacyPreimage, hcopy,
    h.outputs, h.sameUnlocked.inputIndex_eq]

end Transaction.SameWritten

namespace Verification

open Script

variable {tx tx' : Transaction} {index : Int} {previous : TxOutput}

/-! ## Inputs -/

/-- A position names the image of what it names. -/
theorem elementAt?_map {α β : Type} (f : α → β) (l : List α) (i : Int) :
    elementAt? (l.map f) i = (elementAt? l i).map f := by
  rw [elementAt?, elementAt?, List.length_map]
  cases position? l.length i with
  | none => rfl
  | some k => exact List.getElem?_map

/-- Verifying an input comes to the same for transactions that are the same in all that is written,
if the witnesses are written or make no difference. -/
theorem verifyInput_of_sameWritten (hsame : tx.SameWritten tx') (h : tx.Encodable)
    (h' : tx'.Encodable) (hstep : ∀ i ∈ tx.inputs, i.InStep) (hstep' : ∀ i ∈ tx'.inputs, i.InStep)
    (hwitness : tx.segwit = true ∨ Settled index previous tx tx') (policy : Policy) :
    verifyInput policy tx index previous = verifyInput policy tx' index previous := by
  have hunlocking : (elementAt? tx.inputs index).map TxInput.unlocking =
      (elementAt? tx'.inputs index).map TxInput.unlocking := by
    have hreread (inputs : List TxInput) : (elementAt? inputs index).map TxInput.unlocking =
        (elementAt? (inputs.map (·.reread false)) index).map TxInput.unlocking := by
      rw [elementAt?_map, Option.map_map]
      rfl
    rw [hreread, hsame.inputs, ← hreread]
  have hsettled : Settled index previous tx tx' := by
    refine hwitness.elim (fun hsegwit ↦ .same ?_) id
    rw [witnessOf, witnessOf, hsame.witness hsegwit]
  exact verifyInput_congr hsame.sameUnlocked hstep hstep' hunlocking (hsame.legacy_eq h h' index)
    hsettled policy

/-- Verifying an input comes to the same, errors and runs included, for transactions that are built
and have the same bytes, if these are segwit transactions or the witnesses make no difference. In the
same way it comes to what it does for the transaction that is read back, which exists if a segwit
transaction has one witness to each input. -/
theorem verifyInput_of_encode_eq (hbuilt : tx.Built) (hbuilt' : tx'.Built) (h : tx.Encodable)
    (h' : tx'.Encodable) (hinputs : tx.inputs ≠ []) (hinputs' : tx'.inputs ≠ [])
    (heq : tx.encode true = tx'.encode true) (policy : Policy) (index : Int) (previous : TxOutput)
    (journal : Journal) :
    (tx.segwit = true ∨ Settled index previous tx tx' →
      verifyInput policy tx index previous journal =
        verifyInput policy tx' index previous journal) ∧
    ((tx.segwit = true → tx.witness.length = tx.inputs.length) → ∀ disassembled, ∃ bs read,
      tx.encode true = .ok bs ∧ Transaction.decode disassembled bs = .ok read ∧
        (tx.segwit = true ∨ Settled index previous tx read →
          verifyInput policy tx index previous journal =
            verifyInput policy read index previous journal)) := by
  rw [Transaction.encode_eq true h, Transaction.encode_eq true h', Except.ok.injEq] at heq
  have hsame := Transaction.sameWritten_of_wire_eq h h' hinputs hinputs' heq
  refine ⟨fun hsettled ↦ ?_, fun hwitness disassembled ↦ ?_⟩
  · rw [verifyInput_of_sameWritten hsame h h' hbuilt.inStep hbuilt'.inStep hsettled]
  · obtain ⟨bs, hencode, hdecode⟩ :=
      Transaction.decode_encode disassembled h hwitness (.inr (.inl hinputs))
    have hread := Transaction.asRead_of_decode hdecode
    refine ⟨bs, _, hencode, hdecode, fun hsettled ↦ ?_⟩
    rw [verifyInput_of_sameWritten (Transaction.sameWritten_reread disassembled hwitness) h
      hread.encodable hbuilt.inStep hread.inStep hsettled]

/-- A transaction in the older form whose only input has an unlocking script. The witnesses are not
written. -/
def olderForm (unlocking : Bytes) (witness : List Witness) : Transaction :=
  .ofFields [.ofFields (List.replicate 32 0x11) 0x11 unlocking 0xffffffff true] [⟨0, []⟩] witness 0 2
    (some false)

/-- The transaction is built from fields. -/
theorem built_olderForm (unlocking : Bytes) (witness : List Witness) :
    (olderForm unlocking witness).Built :=
  .ofFields (List.forall_mem_singleton.mpr (.ofFields ..)) _ _ _ _ _

/-- An output that is not asked for a witness is spent, whatever is not written. -/
theorem verifyInput_of_encode_eq_openOutput :
    ((olderForm [] [[[0x51]]]).Built ∧ (olderForm [] [[[0x51]]]).Encodable) ∧
    ((olderForm [] []).Built ∧ (olderForm [] []).Encodable) ∧
    (olderForm [] [[[0x51]]]).encode true = (olderForm [] []).encode true ∧
    ∃ bs read journal, (olderForm [] [[[0x51]]]).encode true = .ok bs ∧
      Transaction.decode true bs = .ok read ∧
      verifyInput {} (olderForm [] [[[0x51]]]) 0 openOutput {} = .ok true journal ∧
      verifyInput {} (olderForm [] []) 0 openOutput {} = .ok true journal ∧
      verifyInput {} read 0 openOutput {} = .ok true journal := by
  have hinput : TxInput.Encodable
      (.ofFields (List.replicate 32 0x11) 0x11 [] 0xffffffff true) :=
    ⟨by decide, by decide, by decide, by decide⟩
  have hitems : Witness.Encodable [[0x51]] :=
    ⟨by decide, List.forall_mem_singleton.mpr (by decide)⟩
  have h : (olderForm [] [[[0x51]]]).Encodable := encodable_single hinput hitems false
  have h' : (olderForm [] []).Encodable := encodable_single hinput .nil false
  have hbuilt := built_olderForm [] [[[0x51]]]
  have hbuilt' := built_olderForm [] []
  have hinputs (witness : List Witness) : (olderForm [] witness).inputs ≠ [] := List.cons_ne_nil _ _
  have heq : (olderForm [] [[[0x51]]]).encode true = (olderForm [] []).encode true := rfl
  obtain ⟨hsame, hread⟩ := verifyInput_of_encode_eq hbuilt hbuilt' h h' (hinputs _) (hinputs _) heq
    {} 0 openOutput {}
  obtain ⟨bs, read, hencode, hdecode, hsameRead⟩ := hread nofun true
  have hwitness : (olderForm [] [[[0x51]]]).segwit = true →
      (olderForm [] [[[0x51]]]).witness.length = (olderForm [] [[[0x51]]]).inputs.length := nofun
  obtain rfl : read = (olderForm [] [[[0x51]]]).reread true := by
    have hwire := Transaction.decode_wire true h hwitness (.inr (.inl (hinputs _)))
    rw [Transaction.encode_eq true h] at hencode
    cases hencode
    rw [hdecode] at hwire
    exact Except.ok.inj hwire
  obtain ⟨journal, htrue⟩ : ∃ journal,
      verifyInput {} (olderForm [] [[[0x51]]]) 0 openOutput {} = .ok true journal :=
    verifyInput_openOutput rfl rfl (TxInput.inStep_ofFields ..) rfl rfl
  refine ⟨⟨hbuilt, h⟩, ⟨hbuilt', h'⟩, heq, bs, _, journal, hencode, hdecode, htrue, ?_, ?_⟩
  · rw [← hsame (.inr (.unused fun input _ ↦
      ⟨unwitnessed_openOutput input.unlocking, ⟨_, rfl⟩, _, rfl⟩)), htrue]
  · rw [← hsameRead (.inr (.unused fun input _ ↦
      ⟨unwitnessed_openOutput input.unlocking, ⟨_, rfl⟩, _, rfl⟩)), htrue]

/-- Two transactions that are built and have the same bytes, and an input on which the verdicts differ.
-/
structure Differing (index : Int) (previous : TxOutput) (tx tx' : Transaction) : Prop where
  built : tx.Built
  built' : tx'.Built
  inputs : tx.inputs ≠ []
  inputs' : tx'.inputs ≠ []
  encode : ∃ bs, tx.encode true = .ok bs ∧ tx'.encode true = .ok bs
  verdicts : verdict (verifyInput {} tx index previous {}) ≠
    verdict (verifyInput {} tx' index previous {})

/-- A witness program takes a witness that is not written. -/
theorem differing_witness :
    Differing 0 witnessOutput (olderForm [] [[[0x51]]]) (olderForm [] []) := by
  have hsize := Hash.length_sha256 [0x51]
  have htokens : witnessOutput.tokens =
      [.op (.stack (.constant .zero)), .push (Hash.sha256 [0x51])] :=
    disassemble_programLocking (by omega) (by unfold Instruction.maxDirect; omega)
  have hverify {witness : Witness} {padded : List Witness}
      (hwitness : elementAt? (olderForm [] padded).witness 0 = some witness) :
      verdict (verifyInput {} (olderForm [] padded) 0 witnessOutput {}) = verdict
        ((⟨{}, olderForm [] padded, 0, 0⟩ : Spend).runResolved witness []
          [.op (.stack (.constant .zero)), .push (Hash.sha256 [0x51])] {}) := by
    rw [verifyInput_of_input rfl rfl (TxInput.inStep_ofFields ..) hwitness, htokens,
      Spend.attempts_program (.inr hsize), if_pos (.inl (disassemble_eq_nil_iff.mpr rfl))]
    rfl
  have htrue : verdict (verifyInput {} (olderForm [] [[[0x51]]]) 0 witnessOutput {}) = .ok true := by
    have hscript : disassemble [0x51] = [.op (.stack (.constant (.small 0)))] :=
      Instruction.disassemble_opcode (o := .stack (.constant (.small 0))) nofun
    have hrun := Spend.runResolved_script (s := ⟨{}, olderForm [] [[[0x51]]], 0, 0⟩) [] [0x51] hsize
    rw [if_pos rfl, hscript] at hrun
    have hwitness : elementAt? (olderForm [] [[[0x51]]]).witness 0 = some ([] ++ [[0x51]]) := rfl
    rw [hverify hwitness, hrun]
    rfl
  have hfalse : verdict (verifyInput {} (olderForm [] []) 0 witnessOutput {}) = .ok false := by
    rw [hverify rfl, Spend.runResolved_script_nil hsize]
    rfl
  refine ⟨built_olderForm _ _, built_olderForm _ _, List.cons_ne_nil _ _, List.cons_ne_nil _ _,
    ⟨_, rfl, rfl⟩, ?_⟩
  rw [htrue, hfalse]
  nofun

/-- An output that is spent by leaving something on the stack. -/
def depthOutput : TxOutput :=
  ⟨0, [0x74]⟩

/-- Whether the output is spent depends on the text form of the unlocking script. -/
theorem verdict_depthOutput {tx : Transaction} (hcoinbase : tx.isCoinbase = false)
    {input : TxInput} (hinput : elementAt? tx.inputs 0 = some input)
    (hwitness : witnessOf tx 0 = pure []) {tokens : List Token}
    (htokens : input.tokens?.getD (disassemble input.unlocking) = tokens) :
    verdict (verifyInput {} tx 0 depthOutput {}) =
      verdict ((⟨{}, tx, 0, 0⟩ : Spend).attempts [] tokens [.op (.stack (.inspect .depth))] {}) := by
  have hlocking : depthOutput.tokens = [.op (.stack (.inspect .depth))] :=
    Instruction.disassemble_opcode (o := .stack (.inspect .depth)) nofun
  rw [verifyInput_attempts hcoinbase, hinput, hwitness, hlocking, ← htokens]
  rfl

/-- The output is spent by an unlocking script that pushes an empty item. -/
theorem verdict_depthOutput_zero :
    verdict (verifyInput {} (olderForm [0x00] []) 0 depthOutput {}) = .ok true := by
  have hunlocking : disassemble [0x00] = [.op (.stack (.constant .zero))] :=
    Instruction.disassemble_opcode (o := .stack (.constant .zero)) nofun
  rw [verdict_depthOutput rfl rfl rfl (Eq.trans (TxInput.inStep_ofFields ..) hunlocking)]
  rfl

/-- A transaction whose only input has an identifier of thirty-three bytes. -/
def wideForm : Transaction :=
  .ofFields [.ofFields (List.replicate 33 0x11) 0x01000000 [] 0xffffffff true] [⟨0, []⟩] [] 0 2
    (some false)

/-- An identifier that is too long is written, and what stands behind it is read at other places. -/
theorem differing_txid : Differing 0 depthOutput wideForm (olderForm [0x00] []) := by
  have hbuilt : wideForm.Built := .ofFields (List.forall_mem_singleton.mpr (.ofFields ..)) _ _ _ _ _
  have hfalse : verdict (verifyInput {} wideForm 0 depthOutput {}) = .ok false := by
    have hunlocking : disassemble [] = [] := disassemble_eq_nil_iff.mpr rfl
    rw [verdict_depthOutput rfl rfl rfl (Eq.trans (TxInput.inStep_ofFields ..) hunlocking)]
    rfl
  refine ⟨hbuilt, built_olderForm _ _, List.cons_ne_nil _ _, List.cons_ne_nil _ _,
    ⟨_, rfl, rfl⟩, ?_⟩
  rw [verdict_depthOutput_zero, hfalse]
  nofun

/-- Counted from the end, an input without a witness is an error, but one is read to each input. -/
theorem differing_missing :
    Differing (-1) openOutput { olderForm [] [] with witness := [] } (olderForm [] []) := by
  have herror : verdict (verifyInput {} { olderForm [] [] with witness := [] } (-1) openOutput {}) =
      .error .noSuchIndex := by
    rw [verifyInput_attempts rfl]
    rfl
  obtain ⟨journal, htrue⟩ : ∃ journal,
      verifyInput {} (olderForm [] []) (-1) openOutput {} = .ok true journal :=
    verifyInput_openOutput rfl rfl (TxInput.inStep_ofFields ..) rfl rfl
  refine ⟨.witness (built_olderForm _ _) [], built_olderForm _ _, List.cons_ne_nil _ _,
    List.cons_ne_nil _ _, ⟨_, rfl, rfl⟩, ?_⟩
  rw [herror, htrue]
  nofun

/-- A transaction to which the text form of another unlocking script is assigned. -/
def staleForm : Transaction :=
  { olderForm [0x00] [] with
    inputs := (olderForm [0x00] []).inputs.map fun i ↦ { i with tokens? := some [] } }

/-- A segwit transaction to which an input is added, but no witness. -/
def unevenForm : Transaction :=
  { witnessTransaction with
    inputs := witnessTransaction.inputs ++
      [.ofFields (List.replicate 32 0x11) 0x11 [] 0xffffffff true] }

/-- A segwit transaction with too few witnesses is written, but it is not read back. -/
theorem decode_unevenForm : ∃ bs, unevenForm.encode true = .ok bs ∧
    ∀ disassembled read, Transaction.decode disassembled bs ≠ .ok read := by
  refine ⟨_, rfl, fun disassembled read hread ↦ ?_⟩
  cases disassembled with
  | true => cases hread
  | false => cases hread

/-- Bytes do not decide what verifying an input comes to. Transactions that are built and have the same
bytes differ by a witness that is not written or is missing, or by an identifier of another width. So
does one whose text form is assigned by itself. One with too few witnesses is verified, but it is not
read back. -/
theorem verifyInput_not_of_encode_eq :
    Differing 0 witnessOutput (olderForm [] [[[0x51]]]) (olderForm [] []) ∧
    Differing (-1) openOutput { olderForm [] [] with witness := [] } (olderForm [] []) ∧
    Differing 0 depthOutput wideForm (olderForm [0x00] []) ∧
    (staleForm.encode true = (olderForm [0x00] []).encode true ∧
      verdict (verifyInput {} staleForm 0 depthOutput {}) ≠
        verdict (verifyInput {} (olderForm [0x00] []) 0 depthOutput {})) ∧
    unevenForm.Built ∧ verdict (verifyInput {} unevenForm 0 openOutput {}) = .ok true ∧
      ∃ bs, unevenForm.encode true = .ok bs ∧
        ∀ disassembled read, Transaction.decode disassembled bs ≠ .ok read := by
  refine ⟨differing_witness, differing_missing, differing_txid, ⟨rfl, ?_⟩, ?_, ?_,
    decode_unevenForm⟩
  · have hfalse : verdict (verifyInput {} staleForm 0 depthOutput {}) = .ok false := by
      rw [verdict_depthOutput rfl rfl rfl rfl]
      rfl
    rw [verdict_depthOutput_zero, hfalse]
    nofun
  · have hinputs : ∀ i ∈ unevenForm.inputs, i.Built :=
      List.forall_mem_cons.mpr ⟨.ofFields .., List.forall_mem_singleton.mpr (.ofFields ..)⟩
    obtain ⟨bs, hdecode⟩ := decode_witnessTransaction
    exact .inputs (.decode hdecode) hinputs
  · obtain ⟨journal, htrue⟩ : ∃ journal,
        verifyInput {} unevenForm 0 openOutput {} = .ok true journal := by
      have hinput : elementAt? unevenForm.inputs 0 =
        some (.ofFields (List.replicate 32 0x11) 0 [] 0xffffffff true) := rfl
      exact verifyInput_openOutput rfl hinput (TxInput.inStep_ofFields ..) rfl rfl
    rw [htrue]
    rfl

end Verification

end BitcoinSpend
