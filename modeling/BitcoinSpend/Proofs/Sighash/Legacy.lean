import BitcoinSpend.Proofs.Sighash.Selection

/-!
# Messages of older signatures

An older signature of an input signs the digest of a changed copy of the transaction, which is made
by way of the transaction's bytes. `legacyLayout` writes what is hashed directly from the fields.
Read it first; the main results are `legacyPreimage_eq` and `legacy_eq_layout`.
-/

namespace BitcoinSpend

open Wire

/-- An input with a script and a sequence in place of its own, and without a text form. -/
def TxInput.committed (x : TxInput) (script : Bytes) (sequence : Int) : TxInput :=
  .ofFields x.txid x.vout script sequence false

/-- A script and a sequence that have wire forms keep an input encodable. -/
theorem TxInput.Encodable.committed {x : TxInput} (h : x.Encodable) {script : Bytes}
    (hscript : script.length < 2 ^ 63) {sequence : Int} (hsequence : fits false 4 sequence = true) :
    (x.committed script sequence).Encodable :=
  ⟨h.txid, h.vout, hscript, hsequence⟩

/-- The outputs in place of earlier ones are encodable. -/
theorem TxOutput.Encodable.blank : TxOutput.blank.Encodable :=
  ⟨by decide, by decide⟩

namespace Sighash

variable {tx : Transaction} {code : Bytes} {i : Nat}

/-! ## The changed copy -/

/-- One element behind some others is the one at its place, if there is one. -/
theorem take_one_drop {α : Type} (as : List α) (i : Nat) : (as.drop i).take 1 = as[i]?.toList := by
  rw [List.take_one, List.head?_drop]

/-- The inputs that an older signature commits to: the input that is signed, with the signed script,
and the others without scripts and, where they are free, without sequences. -/
theorem legacyInputs_reread (hashType : Int) (i : Nat) (code : Bytes) (inputs : List TxInput) :
    legacyInputs hashType i code (inputs.map (·.reread false)) =
      if anyoneCanPay hashType then
        inputs[i]?.toList.map fun x ↦ x.committed code x.sequence
      else
        inputs.mapIdx fun n x ↦ x.committed (if n = i then code else [])
          (if n ≠ i ∧ freesSequences hashType then 0 else x.sequence) := by
  have hkept : (inputs.map (·.reread false)).mapIdx (fun n x ↦
      let x := x.withUnlocking (if n = i then code else [])
      if n ≠ i ∧ freesSequences hashType then { x with sequence := 0 } else x) =
      inputs.mapIdx fun n x ↦ x.committed (if n = i then code else [])
        (if n ≠ i ∧ freesSequences hashType then 0 else x.sequence) := by
    refine List.ext_getElem? fun n ↦ ?_
    rw [List.getElem?_mapIdx, List.getElem?_mapIdx, List.getElem?_map, Option.map_map]
    congr 1
    funext x
    dsimp only [Function.comp]
    split <;> rfl
  rw [legacyInputs, hkept, take_one_drop, List.getElem?_mapIdx]
  split
  · cases inputs[i]? with
    | none => rfl
    | some x => simp
  · rfl

/-- What is made of each of the inputs that an older signature commits to. -/
theorem map_legacyInputs {α : Type} (f : TxInput → α) (hashType : Int) (i : Nat) (code : Bytes)
    (inputs : List TxInput) :
    (legacyInputs hashType i code (inputs.map (·.reread false))).map f =
      if anyoneCanPay hashType then
        inputs[i]?.toList.map fun x ↦ f (x.committed code x.sequence)
      else
        inputs.mapIdx fun n x ↦ f (x.committed (if n = i then code else [])
          (if n ≠ i ∧ freesSequences hashType then 0 else x.sequence)) := by
  rw [legacyInputs_reread]
  split
  · rw [List.map_map]
    rfl
  · refine List.ext_getElem? fun n ↦ ?_
    rw [List.getElem?_map, List.getElem?_mapIdx, List.getElem?_mapIdx, Option.map_map]
    rfl

/-- The outputs that an older signature commits to. -/
theorem legacyOutputs_eq (hashType : Int) (i : Nat) (outputs : List TxOutput) :
    legacyOutputs hashType i outputs =
      if base hashType = baseNone then []
      else if base hashType = baseSingle then
        List.replicate i TxOutput.blank ++ outputs[i]?.toList
      else outputs := by
  rw [legacyOutputs, take_one_drop]

/-- The inputs that an older signature commits to are encodable. -/
theorem legacyInputs_encodable {inputs : List TxInput} (hinputs : ∀ x ∈ inputs, x.Encodable)
    (hcode : code.length < 2 ^ 63) (hashType : Int) (i : Nat) :
    (legacyInputs hashType i code (inputs.map (·.reread false))).length ≤ inputs.length ∧
      ∀ x ∈ legacyInputs hashType i code (inputs.map (·.reread false)), x.Encodable := by
  rw [legacyInputs_reread]
  split
  · cases hinput : inputs[i]? with
    | none => exact ⟨Nat.zero_le _, fun x hx ↦ nomatch hx⟩
    | some x =>
        have hx := List.mem_of_getElem? hinput
        refine ⟨List.length_pos_of_mem hx, fun y hy ↦ ?_⟩
        obtain rfl := List.mem_singleton.mp hy
        exact (hinputs x hx).committed hcode (hinputs x hx).sequence
  · refine ⟨Nat.le_of_eq List.length_mapIdx, fun y hy ↦ ?_⟩
    obtain ⟨n, hn, rfl⟩ := List.mem_mapIdx.mp hy
    have hx := hinputs _ (List.getElem_mem hn)
    refine hx.committed ?_ ?_
    · split
      · exact hcode
      · exact Nat.two_pow_pos 63
    · split
      · rfl
      · exact hx.sequence

/-- The outputs that an older signature commits to are encodable. -/
theorem legacyOutputs_encodable {outputs : List TxOutput} (houtputs : ∀ o ∈ outputs, o.Encodable)
    (hashType : Int) (i : Nat) :
    (legacyOutputs hashType i outputs).length ≤ max (i + 1) outputs.length ∧
      ∀ o ∈ legacyOutputs hashType i outputs, o.Encodable := by
  rw [legacyOutputs_eq]
  split
  · exact ⟨Nat.zero_le _, fun o ho ↦ nomatch ho⟩
  · split
    · refine ⟨?_, fun o ho ↦ ?_⟩
      · have hbeside := Option.length_toList_le (o := outputs[i]?)
        rw [List.length_append, List.length_replicate]
        omega
      · obtain ho | ho := List.mem_append.mp ho
        · rw [List.eq_of_mem_replicate ho]
          exact .blank
        · exact houtputs o (List.mem_of_getElem? (Option.mem_toList.mp ho))
    · exact ⟨Nat.le_max_right _ _, houtputs⟩

/-- The changed copy of a transaction whose bytes are hashed. -/
def legacyCopy (tx : Transaction) (i : Nat) (code : Bytes) (hashType : Int) : Transaction :=
  { tx.reread false with
    inputs := legacyInputs hashType i code (tx.reread false).inputs
    outputs := legacyOutputs hashType i (tx.reread false).outputs
    witness := []
    segwit := false }

/-- The changed copy of an encodable transaction is encodable. -/
theorem legacyCopy_encodable (h : tx.Encodable) (hi : i < tx.inputs.length)
    (hcode : code.length < 2 ^ 63) (hashType : Int) : (legacyCopy tx i code hashType).Encodable := by
  obtain ⟨hinputCount, hinputs⟩ := legacyInputs_encodable h.inputs hcode hashType i
  obtain ⟨houtputCount, houtputs⟩ := legacyOutputs_encodable h.outputs hashType i
  have hinputLimit := h.inputCount
  have houtputLimit := h.outputCount
  exact {
    version := h.version
    inputCount := Nat.lt_of_le_of_lt hinputCount hinputLimit
    inputs := hinputs
    outputCount := Nat.lt_of_le_of_lt houtputCount (by omega)
    outputs := houtputs
    witness := fun w hw ↦ nomatch hw
    lockTime := h.lockTime }

/-- What an older signature signs the digest of is made from the changed copy, if that and the hash
type can be written, and is missing only where the hash type asks for an output that is missing. -/
theorem legacyPreimage_eq_encode (h : tx.Encodable)
    (hwitness : tx.witness.length = tx.inputs.length) (hi : i < tx.inputs.length) (code : Bytes)
    (hashType : Int) :
    legacyPreimage tx i code hashType =
      if base hashType = baseSingle ∧ tx.outputs.length ≤ i then .ok none
      else do
        let body ← written ((legacyCopy tx i code hashType).encode true)
        let type ← written (littleInt? false typeWidth hashType)
        return some (body ++ type) := by
  have hinputs : tx.inputs ≠ [] := List.ne_nil_of_length_pos (Nat.zero_lt_of_lt hi)
  have hcopy : tx.copy false = .ok (tx.reread false) := by
    rw [Transaction.copy, Transaction.encode_eq true h]
    change (Transaction.decode false (tx.wire true)).mapError _ = _
    rw [Transaction.decode_wire false h (fun _ ↦ hwitness) (.inr (.inl hinputs))]
    rfl
  by_cases hmissing : base hashType = baseSingle ∧ tx.outputs.length ≤ i
  · rw [legacyPreimage, inputIndex_of_lt hi, if_pos hmissing]
    exact if_pos hmissing
  · have hlength : i < (tx.reread false).inputs.length := by
      rwa [show (tx.reread false).inputs.length = tx.inputs.length from List.length_map _]
    have hpresent : ¬ (base hashType = baseSingle ∧ (tx.reread false).outputs.length ≤ i) :=
      hmissing
    simp only [legacyPreimage, inputIndex_of_lt hi, hcopy, mapError_ok, bind, Except.bind,
      if_neg hmissing, if_neg hpresent, if_pos hlength]
    rfl

/-- What an older signature signs the digest of: the bytes of the changed copy and the hash type. It
is missing only where the hash type asks for an output that is missing. -/
theorem legacyPreimage_eq (h : tx.Encodable) (hwitness : tx.witness.length = tx.inputs.length)
    (hi : i < tx.inputs.length) (hcode : code.length < 2 ^ 63) {hashType : Int}
    (htype : fits false typeWidth hashType = true) :
    legacyPreimage tx i code hashType = .ok (
      if base hashType = baseSingle ∧ tx.outputs.length ≤ i then none
      else some ((legacyCopy tx i code hashType).wire true ++
        Bytes.ofIntLE typeWidth hashType)) := by
  have hbody := Transaction.encode_eq true (legacyCopy_encodable h hi hcode hashType)
  rw [legacyPreimage_eq_encode h hwitness hi, hbody, littleInt?_of_fits htype]
  split <;> rfl

/-- An older signature of an input of an encodable transaction has a message. -/
theorem exists_legacy (h : tx.Encodable) (hwitness : tx.witness.length = tx.inputs.length)
    {index : Nat} (hindex : index < tx.inputs.length) (hcode : code.length < 2 ^ 63)
    {hashType : Int} (htype : fits false typeWidth hashType = true) :
    ∃ digest, legacy tx index code hashType = .ok digest := by
  rw [legacy, legacyPreimage_eq h hwitness hindex hcode htype]
  split <;> exact ⟨_, rfl⟩

/-! ## The layout -/

/-- The bytes of the inputs that an older signature of input `i` commits to. -/
def committedInputs (tx : Transaction) (i : Nat) (code : Bytes) (hashType : Nat) : List Bytes :=
  if hashType &&& 0x80 ≠ 0 then tx.inputs[i]?.toList.map fun x ↦ x.wireWith code x.sequence
  else tx.inputs.mapIdx fun n x ↦ x.wireWith (if n = i then code else [])
    (if n ≠ i ∧ (hashType &&& 31 = 2 ∨ hashType &&& 31 = 3) then 0 else x.sequence)

/-- The outputs that an older signature of input `i` commits to. -/
def committedOutputs (tx : Transaction) (i : Nat) (hashType : Nat) : List TxOutput :=
  if hashType &&& 31 = 2 then []
  else if hashType &&& 31 = 3 then List.replicate i ⟨-1, []⟩ ++ tx.outputs[i]?.toList
  else tx.outputs

/-- What an older signature of input `i` signs the digest of: the layout without witnesses of the
parts that it commits to, and four bytes for the hash type. -/
def legacyLayout (tx : Transaction) (i : Nat) (code : Bytes) (hashType : Nat) : Bytes :=
  Bytes.ofIntLE 4 tx.version ++ counted (committedInputs tx i code hashType) ++
    counted ((committedOutputs tx i hashType).map TxOutput.wire) ++ Bytes.ofIntLE 4 tx.lockTime ++
    Bytes.ofNatLE 4 hashType

/-- The inputs of the changed copy are written as laid out. -/
theorem map_wire_legacyInputs (tx : Transaction) (i : Nat) (code : Bytes) (hashType : Nat) :
    (legacyInputs hashType i code (tx.inputs.map (·.reread false))).map TxInput.wire =
      committedInputs tx i code hashType := by
  simp only [map_legacyInputs, committedInputs, anyoneCanPay_iff, freesSequences_iff]
  rfl

/-- The changed copy and the hash type are written as laid out. -/
theorem legacyCopy_wire (tx : Transaction) (i : Nat) (code : Bytes) (hashType : Nat) :
    (legacyCopy tx i code hashType).wire true ++ Bytes.ofIntLE typeWidth hashType =
      legacyLayout tx i code hashType := by
  have hinputs := map_wire_legacyInputs tx i code hashType
  have houtputs : legacyOutputs hashType i tx.outputs = committedOutputs tx i hashType := by
    simp only [legacyOutputs_eq, committedOutputs, base_eq_baseNone, base_eq_baseSingle]
    rfl
  have htype : Bytes.ofIntLE typeWidth hashType = Bytes.ofNatLE 4 hashType := by
    rw [Bytes.ofIntLE, if_neg (by omega), Int.toNat_natCast, typeWidth]
  rw [legacyLayout, ← hinputs, ← houtputs, htype, Transaction.wire]
  simp only [legacyCopy, Transaction.reread, Transaction.ofFields, Bool.false_and, Bool.false_eq_true,
    if_false, List.append_nil]

/-- Inputs that spend the same are written the same with the same script and sequence. -/
theorem map_wireWith_congr {x? x'? : Option TxInput}
    (hspends : x?.map TxInput.spends = x'?.map TxInput.spends) (script : Bytes)
    {sequence : TxInput → Int} (hsequence : x?.map sequence = x'?.map sequence) :
    (x?.map fun x ↦ x.wireWith script (sequence x)) =
      x'?.map fun x ↦ x.wireWith script (sequence x) := by
  cases x? with
  | none =>
      cases x'? with
      | none => rfl
      | some x' => cases hspends
  | some x =>
      cases x'? with
      | none => cases hspends
      | some x' =>
          simp only [Option.map_some, Option.some.injEq, TxInput.spends, Prod.mk.injEq]
            at hspends hsequence
          simp only [Option.map_some, TxInput.wireWith, TxInput.outpointWire, hspends.1, hspends.2,
            hsequence]

namespace AgreeOn

variable {hashType : Nat} {tx' : Transaction}

/-- Where transactions agree on what a hash type selects, the same inputs are laid out. -/
theorem committedInputs_eq (h : AgreeOn hashType i tx tx') (code : Bytes) :
    committedInputs tx i code hashType = committedInputs tx' i code hashType := by
  unfold committedInputs
  split
  · rw [← Option.toList_map, ← Option.toList_map, map_wireWith_congr h.outpoint code h.sequence]
  · next hfixed =>
      have hfixed : hashType &&& 0x80 = 0 := Decidable.not_not.mp hfixed
      refine List.ext_getElem? fun n ↦ ?_
      have hspends := getElem?_map_congr (h.outpoints hfixed) n
      rw [List.getElem?_mapIdx, List.getElem?_mapIdx]
      refine map_wireWith_congr hspends _ ?_
      split
      · have hpresent := congrArg (Option.map fun _ ↦ (0 : Int)) hspends
        rw [Option.map_map, Option.map_map] at hpresent
        exact hpresent
      · next hkept =>
          -- A sequence is kept at place `i` in any case and elsewhere if the base does not free it.
          by_cases hn : n = i
          · exact hn ▸ h.sequence
          · exact getElem?_map_congr (h.sequences hfixed (fun hnone ↦ hkept ⟨hn, .inl hnone⟩)
              fun hsingle ↦ hkept ⟨hn, .inr hsingle⟩) n

/-- Where transactions agree on what a hash type selects, the same outputs are laid out. -/
theorem committedOutputs_eq (h : AgreeOn hashType i tx tx') :
    committedOutputs tx i hashType = committedOutputs tx' i hashType := by
  unfold committedOutputs
  split
  · rfl
  · next hnone =>
      split
      · next hsingle => rw [h.output hsingle]
      · next hsingle => exact h.outputs hnone hsingle

/-- Where transactions agree on what a hash type selects, the same is laid out. -/
theorem legacyLayout_eq (h : AgreeOn hashType i tx tx') (code : Bytes) :
    legacyLayout tx i code hashType = legacyLayout tx' i code hashType := by
  rw [legacyLayout, legacyLayout, h.committedInputs_eq code, h.committedOutputs_eq, h.version,
    h.lockTime]

end AgreeOn

/-- The message of an older signature is the digest of what is laid out, or the number one where
the hash type asks for an output that is missing. -/
theorem legacy_eq (h : tx.Encodable) (hwitness : tx.witness.length = tx.inputs.length)
    (hi : i < tx.inputs.length) (hcode : code.length < 2 ^ 63) {hashType : Nat}
    (htype : hashType < 2 ^ 32) :
    legacy tx i code hashType = .ok (
      if hashType &&& 31 = 3 ∧ tx.outputs.length ≤ i then 0x01 :: List.replicate 31 0x00
      else Hash.hash256 (legacyLayout tx i code hashType)) := by
  rw [legacy, legacyPreimage_eq h hwitness hi hcode (fits_of_lt htype), legacyCopy_wire]
  simp only [base_eq_baseSingle]
  split <;> rfl

/-- Two transactions that differ at most in unlocking scripts, witnesses and form. -/
structure SameUnlocked (tx tx' : Transaction) : Prop where
  version : tx.version = tx'.version
  lockTime : tx.lockTime = tx'.lockTime
  outpoints : tx.inputs.map TxInput.spends = tx'.inputs.map TxInput.spends
  sequences : tx.inputs.map TxInput.sequence = tx'.inputs.map TxInput.sequence
  outputs : tx.outputs = tx'.outputs

/-- No hash type selects unlocking scripts, witnesses or the form. -/
theorem SameUnlocked.agreeOn {tx' : Transaction} (h : SameUnlocked tx tx') (hashType i : Nat) :
    AgreeOn hashType i tx tx' where
  version := h.version
  lockTime := h.lockTime
  outpoint := getElem?_map_congr h.outpoints i
  sequence := getElem?_map_congr h.sequences i
  outpoints _ := h.outpoints
  sequences _ _ _ := h.sequences
  outputs _ _ := h.outputs
  output _ := by rw [h.outputs]

/-- The message of an older signature of an input of an encodable transaction exists. It is the
digest of what is laid out, or the number one where the hash type asks for an output that is missing,
and depends neither on unlocking scripts nor on witnesses nor on the form of the transaction. -/
theorem legacy_eq_layout (h : tx.Encodable) (hwitness : tx.witness.length = tx.inputs.length)
    (hi : i < tx.inputs.length) (hcode : code.length < 2 ^ 63) {hashType : Nat}
    (htype : hashType < 2 ^ 32) :
    legacy tx i code hashType = .ok (
      if hashType &&& 31 = 3 ∧ tx.outputs.length ≤ i then 0x01 :: List.replicate 31 0x00
      else Hash.hash256 (legacyLayout tx i code hashType)) ∧
    ∀ tx' : Transaction, tx'.Encodable → tx'.witness.length = tx'.inputs.length →
      SameUnlocked tx tx' → legacy tx' i code hashType = legacy tx i code hashType := by
  refine ⟨legacy_eq h hwitness hi hcode htype, fun tx' h' hwitness' hsame ↦ ?_⟩
  have hlength := congrArg List.length hsame.outpoints
  rw [List.length_map, List.length_map] at hlength
  rw [legacy_eq h' hwitness' (hlength ▸ hi) hcode htype, legacy_eq h hwitness hi hcode htype,
    (hsame.agreeOn hashType i).legacyLayout_eq code, hsame.outputs]

/-- The same spends without unlocking scripts and witnesses, in the older form. -/
def twoBareSpends : Transaction :=
  { twoSpends with
    inputs := twoSpends.inputs.map (·.withUnlocking [])
    witness := [[], []]
    segwit := false }

/-- The bare transaction is read back from its bytes. -/
theorem decode_twoBareSpends :
    Transaction.decode false (twoBareSpends.wire true) = .ok twoBareSpends :=
  rfl

/-- A signature of the second input and the output beside it commits to a blank first output and to
the first input without its script and its sequence. -/
theorem legacy_eq_layout_twoSpends :
    (twoSpends.Encodable ∧ twoSpends.witness.length = twoSpends.inputs.length ∧
      1 < twoSpends.inputs.length) ∧
    (twoBareSpends.Encodable ∧ twoBareSpends.witness.length = twoBareSpends.inputs.length ∧
      SameUnlocked twoSpends twoBareSpends) ∧
    legacy twoSpends 1 [0x52] (3 : Nat) = .ok (Hash.hash256 ([0x02, 0, 0, 0] ++ [2] ++
      (List.replicate 32 0x11 ++ [0, 0, 0, 0] ++ [0] ++ [0, 0, 0, 0]) ++
      (List.replicate 32 0x22 ++ [1, 0, 0, 0] ++ [1, 0x52] ++ [0xff, 0xff, 0xff, 0xff]) ++ [2] ++
      (List.replicate 8 0xff ++ [0]) ++ ([6, 0, 0, 0, 0, 0, 0, 0] ++ [1, 0x6a]) ++
      [7, 0, 0, 0] ++ [3, 0, 0, 0])) ∧
    legacy twoBareSpends 1 [0x52] (3 : Nat) = legacy twoSpends 1 [0x52] (3 : Nat) := by
  obtain ⟨hencodable, hwitness, -⟩ := Transaction.encodable_of_decode decode_twoSpends
  obtain ⟨hencodable', hwitness', -⟩ := Transaction.encodable_of_decode decode_twoBareSpends
  have hsame : SameUnlocked twoSpends twoBareSpends := ⟨rfl, rfl, rfl, rfl, rfl⟩
  obtain ⟨hlegacy, hindependent⟩ := legacy_eq_layout hencodable hwitness
    (show 1 < twoSpends.inputs.length by decide) (show [0x52].length < 2 ^ 63 by decide)
    (show 3 < 2 ^ 32 by decide)
  exact ⟨⟨hencodable, hwitness, by decide⟩, ⟨hencodable', hwitness', hsame⟩, hlegacy,
    hindependent _ hencodable' hwitness' hsame⟩

end Sighash

end BitcoinSpend
