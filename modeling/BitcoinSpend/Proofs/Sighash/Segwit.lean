import BitcoinSpend.Proofs.Sighash.Selection

/-!
# Messages of segwit signatures

A segwit signature of an input signs the digest of a row of `SegwitParts`, some of which are digests
themselves. Read that structure first; the main results are `segwitPreimage_eq`, which lays out the
row, and `SegwitParts.eq_of_wire_append_eq`, which reads it back.
-/

namespace BitcoinSpend

open Wire

namespace Sighash

variable {tx : Transaction} {code : Bytes} {i : Nat} {x : TxInput}

/-! ## Digests -/

/-- The digest of a part, or what stands in for it if the part is not committed to. -/
def digestOf (part? : Option Bytes) : Bytes :=
  part?.elim zeroDigest Hash.hash256

/-- Every digest has the same length. -/
theorem length_digestOf (part? : Option Bytes) : (digestOf part?).length = 32 := by
  cases part? with
  | none => rfl
  | some part => exact Hash.length_hash256 part

/-- The outpoints that a segwit signature commits to. -/
def outpointsPart (tx : Transaction) (hashType : Int) : Option Bytes :=
  if anyoneCanPay hashType then none else some (tx.inputs.map TxInput.outpointWire).flatten

/-- The sequences that a segwit signature commits to. -/
def sequencesPart (tx : Transaction) (hashType : Int) : Option Bytes :=
  if anyoneCanPay hashType || freesSequences hashType then none
  else some (tx.inputs.map fun x ↦ Bytes.ofIntLE 4 x.sequence).flatten

/-- The outputs that a segwit signature of input `i` commits to. -/
def outputsPart (tx : Transaction) (i : Nat) (hashType : Int) : Option Bytes :=
  if freesSequences hashType then
    if base hashType = baseSingle then tx.outputs[i]?.map TxOutput.wire else none
  else some (tx.outputs.map TxOutput.wire).flatten

/-- The outpoints of an encodable transaction have a digest. -/
theorem outpointsDigest_eq (h : tx.Encodable) (hashType : Int) :
    outpointsDigest tx hashType = .ok (digestOf (outpointsPart tx hashType)) := by
  rw [outpointsDigest, outpointsPart, mapM_eq_ok fun x hx ↦ TxInput.outpoint_eq (h.inputs x hx)]
  split <;> rfl

/-- The sequences of an encodable transaction have a digest. -/
theorem sequencesDigest_eq (h : tx.Encodable) (hashType : Int) :
    sequencesDigest tx hashType = .ok (digestOf (sequencesPart tx hashType)) := by
  rw [sequencesDigest, sequencesPart, mapM_eq_ok (f := fun x ↦ littleInt? false 4 x.sequence)
    fun x hx ↦ littleInt?_of_fits (h.inputs x hx).sequence]
  split <;> rfl

/-- The outputs of an encodable transaction have a digest. -/
theorem outputsDigest_eq (h : tx.Encodable) (i : Nat) (hashType : Int) :
    outputsDigest tx i hashType = .ok (digestOf (outputsPart tx i hashType)) := by
  rw [outputsDigest, outputsPart, mapM_eq_ok fun o ho ↦ TxOutput.encode_eq (h.outputs o ho)]
  cases freesSequences hashType with
  | false => rfl
  | true =>
      simp only [Bool.not_true, Bool.false_eq_true, if_false, if_true]
      split
      · cases houtput : tx.outputs[i]? with
        | none => rfl
        | some o =>
            dsimp only
            rw [TxOutput.encode_eq (h.outputs o (List.mem_of_getElem? houtput))]
            rfl
      · rfl

/-! ## The layout -/

/-- The parts of what a segwit signature signs the digest of, in their order. -/
structure SegwitParts where
  version : Int
  outpoints : Bytes
  sequences : Bytes
  spends : Bytes × Int
  code : Bytes
  amount : Int
  sequence : Int
  outputs : Bytes
  lockTime : Int

/-- The parts that a segwit signature of input `x` at place `i` commits to. -/
def segwitParts (tx : Transaction) (i : Nat) (x : TxInput) (amount : Int) (code : Bytes)
    (hashType : Int) : SegwitParts where
  version := tx.version
  outpoints := digestOf (outpointsPart tx hashType)
  sequences := digestOf (sequencesPart tx hashType)
  spends := x.spends
  code := code
  amount := amount
  sequence := x.sequence
  outputs := digestOf (outputsPart tx i hashType)
  lockTime := tx.lockTime

namespace SegwitParts

variable {p p' : SegwitParts}

/-- The bytes of a row of parts. -/
def wire (p : SegwitParts) : Bytes :=
  Bytes.ofIntLE 4 p.version ++ p.outpoints ++ p.sequences ++
    (p.spends.1.reverse ++ Bytes.ofIntLE 4 p.spends.2) ++ sized p.code ++
    Bytes.ofIntLE 8 p.amount ++ Bytes.ofIntLE 4 p.sequence ++ p.outputs ++
    Bytes.ofIntLE 4 p.lockTime

/-- Parts that fit into the bytes that there are for them. -/
structure Encodable (p : SegwitParts) : Prop where
  version : fits true 4 p.version = true
  outpoints : p.outpoints.length = 32
  sequences : p.sequences.length = 32
  txid : p.spends.1.length = 32
  vout : fits false 4 p.spends.2 = true
  code : p.code.length < 2 ^ 63
  amount : fits true 8 p.amount = true
  sequence : fits false 4 p.sequence = true
  outputs : p.outputs.length = 32
  lockTime : fits false 4 p.lockTime = true

/-- A row of parts is told apart by its bytes, whatever stands behind it. -/
theorem eq_of_wire_append_eq (hp : p.Encodable) (hp' : p'.Encodable) {rest rest' : Bytes}
    (heq : p.wire ++ rest = p'.wire ++ rest') : p = p' := by
  simp only [wire, List.append_assoc] at heq
  obtain ⟨hversion, heq⟩ := ofIntLE_append_inj (by decide) (by decide) hp.version hp'.version heq
  obtain ⟨houtpoints, heq⟩ := List.append_inj heq (hp.outpoints.trans hp'.outpoints.symm)
  obtain ⟨hsequences, heq⟩ := List.append_inj heq (hp.sequences.trans hp'.sequences.symm)
  obtain ⟨htxid, heq⟩ := List.append_inj heq (by
    rw [List.length_reverse, List.length_reverse, hp.txid, hp'.txid])
  obtain ⟨hvout, heq⟩ := ofIntLE_append_inj (by decide) (by decide) hp.vout hp'.vout heq
  obtain ⟨hcode, heq⟩ := sized_append_inj hp.code hp'.code heq
  obtain ⟨hamount, heq⟩ := ofIntLE_append_inj (by decide) (by decide) hp.amount hp'.amount heq
  obtain ⟨hsequence, heq⟩ :=
    ofIntLE_append_inj (by decide) (by decide) hp.sequence hp'.sequence heq
  obtain ⟨houtputs, heq⟩ := List.append_inj heq (hp.outputs.trans hp'.outputs.symm)
  obtain ⟨hlockTime, -⟩ := ofIntLE_append_inj (by decide) (by decide) hp.lockTime hp'.lockTime heq
  cases p
  cases p'
  simp only [mk.injEq]
  exact ⟨hversion, houtpoints, hsequences, Prod.ext (List.reverse_inj.mp htxid) hvout, hcode,
    hamount, hsequence, houtputs, hlockTime⟩

end SegwitParts

/-- The parts that a segwit signature of an input of an encodable transaction commits to fit. -/
theorem segwitParts_encodable (h : tx.Encodable) (hx : tx.inputs[i]? = some x) {amount : Int}
    (hamount : fits true 8 amount = true) (hcode : code.length < 2 ^ 63) (hashType : Int) :
    (segwitParts tx i x amount code hashType).Encodable :=
  have hinput := h.inputs x (List.mem_of_getElem? hx)
  { version := h.version
    outpoints := length_digestOf _
    sequences := length_digestOf _
    txid := hinput.txid
    vout := hinput.vout
    code := hcode
    amount := hamount
    sequence := hinput.sequence
    outputs := length_digestOf _
    lockTime := h.lockTime }

/-- What a segwit signature signs the digest of: the row of parts and the hash type. -/
theorem segwitPreimage_eq (h : tx.Encodable) (hx : tx.inputs[i]? = some x) {amount : Int}
    (hamount : fits true 8 amount = true) (hcode : code.length < 2 ^ 63) {hashType : Int}
    (htype : fits false typeWidth hashType = true) :
    segwitPreimage tx i amount code hashType =
      .ok ((segwitParts tx i x amount code hashType).wire ++ Bytes.ofIntLE typeWidth hashType) := by
  have hi : i < tx.inputs.length := (List.getElem?_eq_some_iff.mp hx).1
  have hinput := h.inputs x (List.mem_of_getElem? hx)
  have hlength : code.length < 2 ^ 64 := by omega
  simp only [segwitPreimage, inputIndex_of_lt hi, outpointsDigest_eq h, sequencesDigest_eq h,
    outputsDigest_eq h, hx, TxInput.outpoint_eq hinput, littleInt?_of_fits h.version,
    lengthPrefixed?_of_lt hlength, littleInt?_of_fits hamount, littleInt?_of_fits hinput.sequence,
    littleInt?_of_fits h.lockTime, littleInt?_of_fits htype, written, mapError_ok, bind,
    Except.bind]
  rfl

/-- A segwit signature of an input of an encodable transaction has a message. -/
theorem exists_segwit (h : tx.Encodable) {index : Nat} (hindex : index < tx.inputs.length)
    {amount : Int} (hamount : fits true 8 amount = true) (hcode : code.length < 2 ^ 63)
    {hashType : Int} (htype : fits false typeWidth hashType = true) :
    ∃ digest, segwit tx index amount code hashType = .ok digest := by
  rw [segwit, segwitPreimage_eq h (List.getElem?_eq_getElem hindex) hamount hcode htype]
  exact ⟨_, rfl⟩

end Sighash

end BitcoinSpend
