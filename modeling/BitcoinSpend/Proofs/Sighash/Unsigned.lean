import BitcoinSpend.Proofs.Sighash.Legacy

/-!
# What no signature signs

Whatever the hash type, no message of a signature depends on unlocking scripts, on witnesses or on
the form of the transaction. Where there is no message, the error is the same as well. Read
`SameUnlocked` first; the main results are `SameUnlocked.legacy_eq` and `SameUnlocked.segwit_eq`.
-/

namespace BitcoinSpend.Sighash

open Wire

/-- The inputs that an older signature commits to are made from inputs without unlocking scripts. -/
theorem legacyInputs_bare (hashType : Int) (i : Nat) (code : Bytes) (inputs : List TxInput) :
    legacyInputs hashType i code (inputs.map (·.reread false)) =
      legacyInputs hashType i code (inputs.map fun x ↦ x.committed [] x.sequence) := by
  have hkept : (inputs.map (·.reread false)).mapIdx (fun n x ↦
      let x := x.withUnlocking (if n = i then code else [])
      if n ≠ i ∧ freesSequences hashType then { x with sequence := 0 } else x) =
      (inputs.map fun x ↦ x.committed [] x.sequence).mapIdx fun n x ↦
        let x := x.withUnlocking (if n = i then code else [])
        if n ≠ i ∧ freesSequences hashType then { x with sequence := 0 } else x := by
    refine List.ext_getElem? fun n ↦ ?_
    simp only [List.getElem?_mapIdx, List.getElem?_map, Option.map_map]
    rfl
  rw [legacyInputs, legacyInputs, hkept]

namespace SameUnlocked

variable {tx tx' : Transaction}

/-- The transactions have as many inputs as each other. -/
theorem inputCount (h : SameUnlocked tx tx') : tx.inputs.length = tx'.inputs.length := by
  have hlength := congrArg List.length h.outpoints
  rwa [List.length_map, List.length_map] at hlength

/-- The transactions have the same inputs without unlocking scripts. -/
theorem bareInputs (h : SameUnlocked tx tx') :
    (tx.inputs.map fun x ↦ x.committed [] x.sequence) =
      tx'.inputs.map fun x ↦ x.committed [] x.sequence := by
  have hzip (inputs : List TxInput) : (inputs.map fun x ↦ x.committed [] x.sequence) =
      List.zipWith (fun spends sequence ↦ .ofFields spends.1 spends.2 [] sequence false)
        (inputs.map TxInput.spends) (inputs.map TxInput.sequence) := by
    rw [List.zipWith_map, List.zipWith_self]
    rfl
  rw [hzip, hzip, h.outpoints, h.sequences]

/-- The transactions have the same positions of inputs. -/
theorem inputIndex_eq (h : SameUnlocked tx tx') (index : Int) (scheme : Scheme) :
    inputIndex tx index scheme = inputIndex tx' index scheme := by
  rw [inputIndex, inputIndex, h.inputCount]

/-! ## Older signatures -/

/-- The changed copies of the transactions are the same. -/
theorem legacyCopy_eq (h : SameUnlocked tx tx') (i : Nat) (code : Bytes) (hashType : Int) :
    legacyCopy tx i code hashType = legacyCopy tx' i code hashType := by
  have hinputs (tx : Transaction) : (tx.reread false).inputs = tx.inputs.map (·.reread false) := rfl
  rw [legacyCopy, legacyCopy, hinputs, hinputs, legacyInputs_bare, legacyInputs_bare, h.bareInputs]
  simp only [Transaction.reread, Transaction.ofFields, h.version, h.lockTime, h.outputs]

/-- Older signatures of the transactions sign the same. -/
theorem legacy_eq (h : SameUnlocked tx tx') (htx : tx.Encodable)
    (hwitness : tx.witness.length = tx.inputs.length) (htx' : tx'.Encodable)
    (hwitness' : tx'.witness.length = tx'.inputs.length) (index : Int) (code : Bytes)
    (hashType : Int) : legacy tx index code hashType = legacy tx' index code hashType := by
  have hpreimage : legacyPreimage tx index code hashType =
      legacyPreimage tx' index code hashType := by
    by_cases hindex : 0 ≤ index ∧ index < tx.inputs.length
    · obtain ⟨i, rfl⟩ := Int.eq_ofNat_of_zero_le hindex.1
      have hi : i < tx.inputs.length := Int.ofNat_lt.mp hindex.2
      rw [legacyPreimage_eq_encode htx hwitness hi,
        legacyPreimage_eq_encode htx' hwitness' (h.inputCount ▸ hi), h.legacyCopy_eq, h.outputs]
    · have hnone : inputIndex tx index .legacy = .error (.noInput index .legacy) :=
        if_neg hindex
      rw [legacyPreimage, legacyPreimage, ← h.inputIndex_eq, hnone]
      rfl
  rw [legacy, legacy, hpreimage]

/-! ## Segwit signatures -/

/-- The outpoints of the transactions have the same digest. -/
theorem outpointsDigest_eq (h : SameUnlocked tx tx') (hashType : Int) :
    outpointsDigest tx hashType = outpointsDigest tx' hashType := by
  have hspends (inputs : List TxInput) : inputs.mapM TxInput.outpoint =
      (inputs.map TxInput.spends).mapM fun spends ↦
        return spends.1.reverse ++ (← littleInt? false 4 spends.2) := by
    rw [List.mapM_map]
    rfl
  rw [outpointsDigest, outpointsDigest, hspends, hspends, h.outpoints]

/-- The sequences of the transactions have the same digest. -/
theorem sequencesDigest_eq (h : SameUnlocked tx tx') (hashType : Int) :
    sequencesDigest tx hashType = sequencesDigest tx' hashType := by
  have hsequences (inputs : List TxInput) :
      (inputs.mapM fun x ↦ littleInt? false 4 x.sequence) =
        (inputs.map TxInput.sequence).mapM (littleInt? false 4) := by
    rw [List.mapM_map]
    rfl
  rw [sequencesDigest, sequencesDigest, hsequences, hsequences, h.sequences]

/-- The outputs of the transactions have the same digest. -/
theorem outputsDigest_eq (h : SameUnlocked tx tx') (i : Nat) (hashType : Int) :
    outputsDigest tx i hashType = outputsDigest tx' i hashType := by
  rw [outputsDigest, outputsDigest, h.outputs]

/-- Segwit signatures of the transactions sign the same. -/
theorem segwit_eq (h : SameUnlocked tx tx') (index amount : Int) (code : Bytes) (hashType : Int) :
    segwit tx index amount code hashType = segwit tx' index amount code hashType := by
  have hpreimage : segwitPreimage tx index amount code hashType =
      segwitPreimage tx' index amount code hashType := by
    rw [segwitPreimage, segwitPreimage, h.inputIndex_eq, h.outpointsDigest_eq,
      h.sequencesDigest_eq, h.version, h.lockTime]
    refine bind_congr fun i ↦ bind_congr fun outpoints ↦ bind_congr fun sequences ↦ ?_
    rw [h.outputsDigest_eq]
    refine bind_congr fun outputs ↦ ?_
    have hspends := getElem?_map_congr h.outpoints i
    have hsequence := getElem?_map_congr h.sequences i
    cases hinput : tx.inputs[i]? with
    | none =>
        rw [hinput] at hspends
        rw [Option.map_eq_none_iff.mp hspends.symm]
    | some input =>
        rw [hinput] at hspends hsequence
        obtain ⟨input', hinput', hspends⟩ := Option.map_eq_some_iff.mp hspends.symm
        rw [hinput'] at hsequence ⊢
        obtain ⟨htxid, hvout⟩ := Prod.mk.inj hspends
        have houtpoint : input.outpoint = input'.outpoint := by
          rw [TxInput.outpoint, TxInput.outpoint, htxid, hvout]
        dsimp only
        rw [houtpoint, Option.some.inj hsequence]
  rw [segwit, segwit, hpreimage]

end SameUnlocked

/-! ## Well-formed transactions -/

/-- A transaction that is written and read back: each of its fields has a wire form, and in the segwit
form there is one witness to each input. -/
structure WellFormed (tx : Transaction) : Prop where
  encodable : tx.Encodable
  witnessCount : tx.segwit = true → tx.witness.length = tx.inputs.length

/-- The transaction with one witness to each input if none are written. -/
def padded (tx : Transaction) : Transaction :=
  { tx with witness := if tx.segwit then tx.witness else List.replicate tx.inputs.length [] }

/-- The bytes of a transaction do not show witnesses that are not written. -/
theorem padded_encode (tx : Transaction) : (padded tx).encode true = tx.encode true := by
  unfold Transaction.encode padded
  cases htx : tx.segwit with
  | true => rfl
  | false => rfl

/-- Older signatures do not depend on witnesses that are not written. -/
theorem legacy_padded (tx : Transaction) (index : Int) (code : Bytes) (hashType : Int) :
    legacy (padded tx) index code hashType = legacy tx index code hashType := by
  unfold legacy legacyPreimage Transaction.copy
  rw [padded_encode]
  rfl

namespace WellFormed

variable {tx tx' : Transaction}

/-- A well-formed transaction stays encodable with one witness to each input. -/
theorem padded_encodable (h : WellFormed tx) : (padded tx).Encodable where
  version := h.encodable.version
  inputCount := h.encodable.inputCount
  inputs := h.encodable.inputs
  outputCount := h.encodable.outputCount
  outputs := h.encodable.outputs
  witness := by
    intro w hw
    unfold padded at hw
    dsimp only at hw
    split at hw
    · exact h.encodable.witness w hw
    · rw [List.eq_of_mem_replicate hw]
      exact .nil
  lockTime := h.encodable.lockTime

/-- There is then one witness to each input. -/
theorem padded_witnessCount (h : WellFormed tx) :
    (padded tx).witness.length = (padded tx).inputs.length := by
  unfold padded
  dsimp only
  split
  · next hsegwit => exact h.witnessCount hsegwit
  · exact List.length_replicate

/-- An older signature of an input of a well-formed transaction has a message. -/
theorem exists_legacy (h : WellFormed tx) {index : Nat} (hindex : index < tx.inputs.length)
    {code : Bytes} (hcode : code.length < 2 ^ 63) {hashType : Int}
    (htype : fits false typeWidth hashType = true) :
    ∃ digest, legacy tx index code hashType = .ok digest := by
  rw [← legacy_padded]
  exact Sighash.exists_legacy h.padded_encodable h.padded_witnessCount hindex hcode htype

/-- Older signatures sign the same in well-formed transactions that differ at most in unlocking
scripts, witnesses and form. -/
theorem legacy_eq (h : WellFormed tx) (h' : WellFormed tx') (hsame : SameUnlocked tx tx')
    (index : Int) (code : Bytes) (hashType : Int) :
    legacy tx index code hashType = legacy tx' index code hashType := by
  have hpadded : SameUnlocked (padded tx) (padded tx') :=
    ⟨hsame.version, hsame.lockTime, hsame.outpoints, hsame.sequences, hsame.outputs⟩
  rw [← legacy_padded tx, ← legacy_padded tx']
  exact hpadded.legacy_eq h.padded_encodable h.padded_witnessCount h'.padded_encodable
    h'.padded_witnessCount index code hashType

end WellFormed

end BitcoinSpend.Sighash
