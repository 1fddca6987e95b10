import BitcoinSpend.Proofs.Sighash.Legacy

/-!
# What older signatures commit to

The bytes that an older signature signs the digest of are those of a transaction, so they can be read
back. What is found in them is the signed script and all that the hash type selects, and nothing
else. The main result is `legacyPreimage_inj_iff`.
-/

namespace BitcoinSpend.Sighash

open Wire

variable {tx tx' : Transaction} {code code' : Bytes} {hashType i : Nat}

/-! ## Inputs and outputs read back -/

/-- An element alone or missing is told apart by its list. -/
theorem toList_inj {α : Type} {a? b? : Option α} (h : a?.toList = b?.toList) : a? = b? := by
  have hhead := congrArg List.head? h
  rwa [Option.head?_toList, Option.head?_toList] at hhead

/-- Inputs that are the same but for a script and a sequence in place of their own spend the same. -/
theorem of_map_committed_eq {x? x'? : Option TxInput} {script script' : Bytes}
    {sequence : TxInput → Int}
    (h : (x?.map fun x ↦ x.committed script (sequence x)) =
      x'?.map fun x ↦ x.committed script' (sequence x)) :
    x?.map TxInput.spends = x'?.map TxInput.spends ∧ x?.map sequence = x'?.map sequence ∧
      (x?.isSome = true → script = script') := by
  cases x? with
  | none =>
      cases x'? with
      | none => exact ⟨rfl, rfl, nofun⟩
      | some x' => cases h
  | some x =>
      cases x'? with
      | none => cases h
      | some x' =>
          simp only [Option.map_some, Option.some.injEq, TxInput.committed, TxInput.ofFields,
            TxInput.withUnlocking, TxInput.mk.injEq] at h
          obtain ⟨htxid, hvout, hscript, hsequence, -⟩ := h
          exact ⟨congrArg some (Prod.ext htxid hvout), congrArg some hsequence, fun _ ↦ hscript⟩

/-- The inputs of the changed copy are those that are read back. -/
theorem map_reread_legacyInputs (hashType : Int) (i : Nat) (code : Bytes) (inputs : List TxInput) :
    (legacyInputs hashType i code (inputs.map (·.reread false))).map (·.reread false) =
      legacyInputs hashType i code (inputs.map (·.reread false)) := by
  rw [map_legacyInputs, legacyInputs_reread]
  rfl

/-- Where the changed copies have the same inputs, so have the transactions at each place that is
committed to, but for what is free there. -/
theorem getElem?_of_legacyInputs_eq {inputs inputs' : List TxInput}
    (h : legacyInputs hashType i code (inputs.map (·.reread false)) =
      legacyInputs hashType i code' (inputs'.map (·.reread false)))
    {n : Nat} (hn : n = i ∨ hashType &&& 0x80 = 0) :
    let sequence := fun x : TxInput ↦
      if n ≠ i ∧ (hashType &&& 31 = 2 ∨ hashType &&& 31 = 3) then 0 else x.sequence
    (inputs[n]?.map fun x ↦ x.committed (if n = i then code else []) (sequence x)) =
      inputs'[n]?.map fun x ↦ x.committed (if n = i then code' else []) (sequence x) := by
  dsimp only
  rw [legacyInputs_reread, legacyInputs_reread] at h
  simp only [anyoneCanPay_iff, freesSequences_iff] at h
  by_cases hall : hashType &&& 0x80 = 0
  · rw [if_neg (not_not_intro hall), if_neg (not_not_intro hall)] at h
    have hat := congrArg (·[n]?) h
    simp only [List.getElem?_mapIdx] at hat
    exact hat
  · obtain rfl := hn.resolve_right hall
    rw [if_pos hall, if_pos hall, ← Option.toList_map, ← Option.toList_map] at h
    simpa using toList_inj h

/-- Where the changed copies have the same outputs, the transactions agree on those that are
committed to. -/
theorem of_legacyOutputs_eq {outputs outputs' : List TxOutput}
    (h : legacyOutputs hashType i outputs = legacyOutputs hashType i outputs') :
    (hashType &&& 31 ≠ 2 → hashType &&& 31 ≠ 3 → outputs = outputs') ∧
      (hashType &&& 31 = 3 → outputs[i]? = outputs'[i]?) := by
  simp only [legacyOutputs_eq, base_eq_baseNone, base_eq_baseSingle] at h
  refine ⟨fun hnone hsingle ↦ ?_, fun hsingle ↦ ?_⟩
  · rwa [if_neg hnone, if_neg hnone, if_neg hsingle, if_neg hsingle] at h
  · have hnone : hashType &&& 31 ≠ 2 := by omega
    rw [if_neg hnone, if_neg hnone, if_pos hsingle, if_pos hsingle] at h
    exact toList_inj (List.append_cancel_left h)

/-! ## The commitment -/

/-- There is an input in the changed copy. -/
theorem legacyCopy_inputs_ne_nil (hi : i < tx.inputs.length) (code : Bytes) (hashType : Int) :
    (legacyCopy tx i code hashType).inputs ≠ [] := by
  have hinput := List.getElem?_eq_getElem hi
  change legacyInputs hashType i code (tx.inputs.map (·.reread false)) ≠ []
  rw [legacyInputs_reread, hinput]
  split
  · exact List.cons_ne_nil _ _
  · rw [Ne, List.mapIdx_eq_nil_iff]
    exact List.ne_nil_of_length_pos (Nat.zero_lt_of_lt hi)

/-- Where the changed copies are written the same, the scripts are the same and the transactions agree
on what the hash type selects. -/
theorem agreeOn_of_legacyCopy_wire_eq (h : tx.Encodable) (h' : tx'.Encodable)
    (hi : i < tx.inputs.length) (hi' : i < tx'.inputs.length) (hcode : code.length < 2 ^ 63)
    (hcode' : code'.length < 2 ^ 63)
    (heq : (legacyCopy tx i code hashType).wire true =
      (legacyCopy tx' i code' hashType).wire true) :
    code = code' ∧ AgreeOn hashType i tx tx' := by
  have hsame := Transaction.sameWritten_of_wire_eq (legacyCopy_encodable h hi hcode hashType)
    (legacyCopy_encodable h' hi' hcode' hashType) (legacyCopy_inputs_ne_nil hi code hashType)
    (legacyCopy_inputs_ne_nil hi' code' hashType) heq
  have hinputs := hsame.inputs
  change (legacyInputs hashType i code (tx.inputs.map (·.reread false))).map (·.reread false) =
    (legacyInputs hashType i code' (tx'.inputs.map (·.reread false))).map (·.reread false) at hinputs
  rw [map_reread_legacyInputs, map_reread_legacyInputs] at hinputs
  obtain ⟨hall, hsingle⟩ := of_legacyOutputs_eq hsame.outputs
  -- Place `i` is committed to in any case, the others only if they may not be added to.
  obtain ⟨houtpoint, hsequence, hscript⟩ :=
    of_map_committed_eq (getElem?_of_legacyInputs_eq hinputs (.inl rfl))
  have hother (n : Nat) (hfixed : hashType &&& 0x80 = 0) :=
    of_map_committed_eq (getElem?_of_legacyInputs_eq hinputs (n := n) (.inr hfixed))
  simp only [ne_eq, not_true_eq_false, false_and, if_false, if_true] at hsequence hscript
  refine ⟨hscript (by rw [List.getElem?_eq_getElem hi, Option.isSome_some]), {
    version := hsame.version
    lockTime := hsame.lockTime
    outpoint := houtpoint
    sequence := hsequence
    outpoints := fun hfixed ↦ List.ext_getElem? fun n ↦ ?_
    sequences := fun hfixed hnone hsingle ↦ List.ext_getElem? fun n ↦ ?_
    outputs := hall
    output := hsingle }⟩
  · rw [List.getElem?_map, List.getElem?_map]
    exact (hother n hfixed).1
  · have hkept : ¬ (n ≠ i ∧ (hashType &&& 31 = 2 ∨ hashType &&& 31 = 3)) :=
      fun hfreed ↦ hfreed.2.elim hnone hsingle
    have hsame := (hother n hfixed).2.1
    simp only [if_neg hkept] at hsame
    rw [List.getElem?_map, List.getElem?_map]
    exact hsame

/-- Two older signatures sign the digest of the same bytes if and only if the signed scripts are the
same and the transactions agree on what the hash type selects. -/
theorem legacyPreimage_inj_iff {bs bs' : Bytes} {disassembled disassembled' : Bool}
    (htx : Transaction.decode disassembled bs = .ok tx)
    (htx' : Transaction.decode disassembled' bs' = .ok tx')
    (hi : i < tx.inputs.length) (hi' : i < tx'.inputs.length) (htype : hashType < 2 ^ 32)
    (hsingle : hashType &&& 31 = 3 → i < tx.outputs.length ∧ i < tx'.outputs.length)
    (hcode : code.length < 2 ^ 63) (hcode' : code'.length < 2 ^ 63) :
    ∃ p p',
      (legacyPreimage tx i code hashType = .ok (some p) ∧
        legacy tx i code hashType = .ok (Hash.hash256 p)) ∧
      (legacyPreimage tx' i code' hashType = .ok (some p') ∧
        legacy tx' i code' hashType = .ok (Hash.hash256 p')) ∧
      (p = p' ↔ code = code' ∧ AgreeOn hashType i tx tx') := by
  obtain ⟨h, hwitness, -⟩ := Transaction.encodable_of_decode htx
  obtain ⟨h', hwitness', -⟩ := Transaction.encodable_of_decode htx'
  have hpresent : ¬ (base hashType = baseSingle ∧ tx.outputs.length ≤ i) := by
    rw [base_eq_baseSingle]
    exact fun hmissing ↦ Nat.not_le.mpr (hsingle hmissing.1).1 hmissing.2
  have hpresent' : ¬ (base hashType = baseSingle ∧ tx'.outputs.length ≤ i) := by
    rw [base_eq_baseSingle]
    exact fun hmissing ↦ Nat.not_le.mpr (hsingle hmissing.1).2 hmissing.2
  have hpreimage := legacyPreimage_eq h hwitness hi hcode (fits_of_lt htype)
  have hpreimage' := legacyPreimage_eq h' hwitness' hi' hcode' (fits_of_lt htype)
  rw [if_neg hpresent] at hpreimage
  rw [if_neg hpresent'] at hpreimage'
  refine ⟨_, _, ⟨hpreimage, by rw [legacy, hpreimage]; rfl⟩,
    ⟨hpreimage', by rw [legacy, hpreimage']; rfl⟩, fun heq ↦ ?_, fun ⟨hscript, hagree⟩ ↦ ?_⟩
  · exact agreeOn_of_legacyCopy_wire_eq h h' hi hi' hcode hcode' (List.append_cancel_right heq)
  · rw [legacyCopy_wire, legacyCopy_wire, hscript, hagree.legacyLayout_eq]

/-- A signature of the second input and the output beside it is one of both transactions if the other
inputs are open, and otherwise it is not. -/
theorem legacyPreimage_inj_iff_twoChangedSpends :
    Transaction.decode false (twoSpends.wire true) = .ok twoSpends ∧
    Transaction.decode false (twoChangedSpends.wire true) = .ok twoChangedSpends ∧
    (∃ p, legacyPreimage twoSpends 1 [0x52] (0x83 : Nat) = .ok (some p) ∧
      legacyPreimage twoChangedSpends 1 [0x52] (0x83 : Nat) = .ok (some p)) ∧
    ∃ p p', legacyPreimage twoSpends 1 [0x52] (0x03 : Nat) = .ok (some p) ∧
      legacyPreimage twoChangedSpends 1 [0x52] (0x03 : Nat) = .ok (some p') ∧ p ≠ p' := by
  have hi : 1 < twoSpends.inputs.length := by decide
  have hi' : 1 < twoChangedSpends.inputs.length := by decide
  have houtputs : 1 < twoSpends.outputs.length ∧ 1 < twoChangedSpends.outputs.length := by decide
  have hcode : ([0x52] : Bytes).length < 2 ^ 63 := by decide
  refine ⟨decode_twoSpends, decode_twoChangedSpends, ?_, ?_⟩
  · obtain ⟨p, p', ⟨hp, -⟩, ⟨hp', -⟩, hiff⟩ := legacyPreimage_inj_iff decode_twoSpends
      decode_twoChangedSpends hi hi' (show 0x83 < 2 ^ 32 by decide) (fun _ ↦ houtputs) hcode hcode
    obtain rfl := hiff.mpr ⟨rfl, agreeOn_twoChangedSpends⟩
    exact ⟨p, hp, hp'⟩
  · obtain ⟨p, p', ⟨hp, -⟩, ⟨hp', -⟩, hiff⟩ := legacyPreimage_inj_iff decode_twoSpends
      decode_twoChangedSpends hi hi' (show 0x03 < 2 ^ 32 by decide) (fun _ ↦ houtputs) hcode hcode
    exact ⟨p, p', hp, hp', fun hsame ↦ not_agreeOn_twoChangedSpends (hiff.mp hsame).2⟩

end BitcoinSpend.Sighash
