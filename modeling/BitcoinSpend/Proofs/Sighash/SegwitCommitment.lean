import BitcoinSpend.Proofs.Sighash.Segwit

/-!
# What segwit signatures commit to

A segwit signature signs the digest of a row of parts, of which the outpoints, the sequences and the
outputs are there as digests. If no two of the byte strings that are digested have the same digest,
and none has the one that stands in for parts that are left out, then the row tells apart the signed
script, the amount and all that the hash type selects, and nothing else. Read `CollisionFree` first;
the main result is `segwitPreimage_inj_iff`.
-/

namespace BitcoinSpend

open Wire

/-- Reads what an input spends. -/
def TxInput.outpointReader : Reader (Bytes × Int) := do
  let txid ← take 32 none
  let vout ← littleInt false 4 none
  return (txid.reverse, vout)

/-- What an encodable input spends is read back. -/
theorem TxInput.restores_outpoint {x : TxInput} (h : x.Encodable) :
    Restores outpointReader (x.spends.1.reverse ++ Bytes.ofIntLE 4 x.spends.2) x.spends := by
  have htxid : x.txid.reverse.length = 32 := by rw [List.length_reverse, h.txid]
  have hread := (restores_take_width htxid (by decide) none).bind
    (f := fun txid ↦ do
      let vout ← littleInt false 4 none
      return (txid.reverse, vout))
    (restores_littleInt (by decide) (by decide) h.vout none).map
  rwa [List.reverse_reverse] at hread

namespace Sighash

variable {tx tx' : Transaction} {code code' : Bytes} {hashType i : Nat}

/-! ## Parts that are digested -/

/-- All outpoints are told apart by their bytes. -/
theorem flatten_outpointWire_inj_iff (h : tx.Encodable) (h' : tx'.Encodable) :
    (tx.inputs.map TxInput.outpointWire).flatten = (tx'.inputs.map TxInput.outpointWire).flatten ↔
      tx.inputs.map TxInput.spends = tx'.inputs.map TxInput.spends := by
  have hwire (t : Transaction) : t.inputs.map TxInput.outpointWire =
      (t.inputs.map TxInput.spends).map fun s ↦ s.1.reverse ++ Bytes.ofIntLE 4 s.2 := by
    rw [List.map_map]
    rfl
  have hrestores {t : Transaction} (ht : t.Encodable) : ∀ s ∈ t.inputs.map TxInput.spends,
      Restores TxInput.outpointReader (s.1.reverse ++ Bytes.ofIntLE 4 s.2) s := by
    intro s hs
    obtain ⟨x, hx, rfl⟩ := List.mem_map.mp hs
    exact TxInput.restores_outpoint (ht.inputs x hx)
  rw [hwire, hwire]
  refine flatten_map_inj_iff (fun s ↦ List.append_ne_nil_of_right_ne_nil _ ?_) (hrestores h)
    (hrestores h')
  rw [← List.append_nil (Bytes.ofIntLE 4 s.2)]
  exact ofIntLE_append_ne_nil (by decide) s.2 []

/-- All sequences are told apart by their bytes. -/
theorem flatten_sequence_inj_iff (h : tx.Encodable) (h' : tx'.Encodable) :
    (tx.inputs.map fun x ↦ Bytes.ofIntLE 4 x.sequence).flatten =
        (tx'.inputs.map fun x ↦ Bytes.ofIntLE 4 x.sequence).flatten ↔
      tx.inputs.map TxInput.sequence = tx'.inputs.map TxInput.sequence := by
  have hwire (t : Transaction) : (t.inputs.map fun x ↦ Bytes.ofIntLE 4 x.sequence) =
      (t.inputs.map TxInput.sequence).map (Bytes.ofIntLE 4) := by
    rw [List.map_map]
    rfl
  have hrestores {t : Transaction} (ht : t.Encodable) : ∀ v ∈ t.inputs.map TxInput.sequence,
      Restores (littleInt false 4 none) (Bytes.ofIntLE 4 v) v := by
    intro v hv
    obtain ⟨x, hx, rfl⟩ := List.mem_map.mp hv
    exact restores_littleInt (by decide) (by decide) (ht.inputs x hx).sequence none
  rw [hwire, hwire]
  refine flatten_map_inj_iff (fun v ↦ ?_) (hrestores h) (hrestores h')
  rw [← List.append_nil (Bytes.ofIntLE 4 v)]
  exact ofIntLE_append_ne_nil (by decide) v []

/-- All outputs are told apart by their bytes. -/
theorem flatten_output_inj_iff (h : tx.Encodable) (h' : tx'.Encodable) :
    (tx.outputs.map TxOutput.wire).flatten = (tx'.outputs.map TxOutput.wire).flatten ↔
      tx.outputs = tx'.outputs := by
  have hwire (o : TxOutput) : o.wire ≠ [] := ofIntLE_append_ne_nil (by decide) o.amount _
  have hrestores {t : Transaction} (ht : t.Encodable) : ∀ o ∈ t.outputs,
      Restores TxOutput.reader o.wire o :=
    fun o ho ↦ TxOutput.restores (ht.outputs o ho)
  exact flatten_map_inj_iff hwire (hrestores h) (hrestores h')

/-- An output alone, or that there is none, is told apart by its bytes. -/
theorem map_wire_inj_iff {o? o'? : Option TxOutput} (h : ∀ o ∈ o?, o.Encodable)
    (h' : ∀ o ∈ o'?, o.Encodable) : o?.map TxOutput.wire = o'?.map TxOutput.wire ↔ o? = o'? := by
  refine ⟨fun heq ↦ ?_, fun heq ↦ by rw [heq]⟩
  cases o? with
  | none =>
      cases o'? with
      | none => rfl
      | some o' => cases heq
  | some o =>
      cases o'? with
      | none => cases heq
      | some o' => rw [TxOutput.eq_of_wire_eq (h o rfl) (h' o' rfl) (Option.some.inj heq)]

/-- The outpoints that are digested are told apart by all outpoints, if these are committed to. -/
theorem outpointsPart_inj_iff (h : tx.Encodable) (h' : tx'.Encodable) :
    outpointsPart tx hashType = outpointsPart tx' hashType ↔
      (hashType &&& 0x80 = 0 → tx.inputs.map TxInput.spends = tx'.inputs.map TxInput.spends) := by
  simp only [outpointsPart, anyoneCanPay_iff]
  by_cases hfixed : hashType &&& 0x80 = 0
  · rw [if_neg (not_not_intro hfixed), if_neg (not_not_intro hfixed), Option.some.injEq,
      flatten_outpointWire_inj_iff h h']
    exact ⟨fun heq _ ↦ heq, fun heq ↦ heq hfixed⟩
  · rw [if_pos hfixed, if_pos hfixed]
    exact iff_of_true rfl fun hopen ↦ absurd hopen hfixed

/-- The sequences that are digested are told apart by all sequences, if these are committed to. -/
theorem sequencesPart_inj_iff (h : tx.Encodable) (h' : tx'.Encodable) :
    sequencesPart tx hashType = sequencesPart tx' hashType ↔
      (hashType &&& 0x80 = 0 → hashType &&& 31 ≠ 2 → hashType &&& 31 ≠ 3 →
        tx.inputs.map TxInput.sequence = tx'.inputs.map TxInput.sequence) := by
  simp only [sequencesPart, Bool.or_eq_true, anyoneCanPay_iff, freesSequences_iff]
  by_cases hleft : hashType &&& 0x80 ≠ 0 ∨ hashType &&& 31 = 2 ∨ hashType &&& 31 = 3
  · rw [if_pos hleft, if_pos hleft]
    refine iff_of_true rfl fun hfixed hnone hsingle ↦ ?_
    obtain hopen | hfreed := hleft
    · exact absurd hfixed hopen
    · exact absurd hfreed fun hbase ↦ hbase.elim hnone hsingle
  · rw [if_neg hleft, if_neg hleft, Option.some.injEq, flatten_sequence_inj_iff h h']
    exact ⟨fun heq _ _ _ ↦ heq, fun heq ↦ heq (by omega) (by omega) (by omega)⟩

/-- The outputs that are digested are told apart by the outputs that are committed to. -/
theorem outputsPart_inj_iff (h : tx.Encodable) (h' : tx'.Encodable) :
    outputsPart tx i hashType = outputsPart tx' i hashType ↔
      (hashType &&& 31 ≠ 2 → hashType &&& 31 ≠ 3 → tx.outputs = tx'.outputs) ∧
        (hashType &&& 31 = 3 → tx.outputs[i]? = tx'.outputs[i]?) := by
  simp only [outputsPart, freesSequences_iff, base_eq_baseSingle]
  by_cases hsingle : hashType &&& 31 = 3
  · have hfreed : hashType &&& 31 = 2 ∨ hashType &&& 31 = 3 := .inr hsingle
    rw [if_pos hfreed, if_pos hfreed, if_pos hsingle, if_pos hsingle,
      map_wire_inj_iff (fun o ho ↦ h.outputs o (List.mem_of_getElem? ho))
        fun o ho ↦ h'.outputs o (List.mem_of_getElem? ho)]
    exact ⟨fun heq ↦ ⟨fun _ hother ↦ absurd hsingle hother, fun _ ↦ heq⟩,
      fun heq ↦ heq.2 hsingle⟩
  · by_cases hnone : hashType &&& 31 = 2
    · have hfreed : hashType &&& 31 = 2 ∨ hashType &&& 31 = 3 := .inl hnone
      rw [if_pos hfreed, if_pos hfreed, if_neg hsingle, if_neg hsingle]
      exact iff_of_true rfl ⟨fun hother ↦ absurd hnone hother, fun hother ↦ absurd hother hsingle⟩
    · have hall : ¬ (hashType &&& 31 = 2 ∨ hashType &&& 31 = 3) := fun hbase ↦
        hbase.elim hnone hsingle
      rw [if_neg hall, if_neg hall, Option.some.injEq, flatten_output_inj_iff h h']
      exact ⟨fun heq ↦ ⟨fun _ _ ↦ heq, fun hother ↦ absurd hother hsingle⟩,
        fun heq ↦ heq.1 hnone hsingle⟩

/-! ## The commitment -/

/-- The byte strings that are digested for a signature of input `i`. -/
def digested (tx : Transaction) (i : Nat) (hashType : Int) : List Bytes :=
  (outpointsPart tx hashType).toList ++ (sequencesPart tx hashType).toList ++
    (outputsPart tx i hashType).toList

/-- The outpoints are digested, unless they are left out. -/
theorem mem_digested_of_outpointsPart {hashType : Int} {m : Bytes}
    (hm : m ∈ outpointsPart tx hashType) : m ∈ digested tx i hashType :=
  List.mem_append_left _ (List.mem_append_left _ (Option.mem_toList.mpr hm))

/-- The sequences are digested, unless they are left out. -/
theorem mem_digested_of_sequencesPart {hashType : Int} {m : Bytes}
    (hm : m ∈ sequencesPart tx hashType) : m ∈ digested tx i hashType :=
  List.mem_append_left _ (List.mem_append_right _ (Option.mem_toList.mpr hm))

/-- The outputs are digested, unless they are left out. -/
theorem mem_digested_of_outputsPart {hashType : Int} {m : Bytes}
    (hm : m ∈ outputsPart tx i hashType) : m ∈ digested tx i hashType :=
  List.mem_append_right _ (Option.mem_toList.mpr hm)

/-- No two of the byte strings have the same digest, and none has the one that stands in for parts
that are left out. -/
structure CollisionFree (messages : List Bytes) : Prop where
  inj : ∀ m ∈ messages, ∀ m' ∈ messages, Hash.hash256 m = Hash.hash256 m' → m = m'
  nonzero : ∀ m ∈ messages, Hash.hash256 m ≠ zeroDigest

/-- Digests tell apart the parts, also those that are left out. -/
theorem CollisionFree.digestOf_inj_iff {messages messages' : List Bytes}
    (h : CollisionFree (messages ++ messages')) {part? part'? : Option Bytes}
    (hpart : ∀ m ∈ part?, m ∈ messages) (hpart' : ∀ m ∈ part'?, m ∈ messages') :
    digestOf part? = digestOf part'? ↔ part? = part'? := by
  refine ⟨fun heq ↦ ?_, congrArg digestOf⟩
  cases part? with
  | none =>
      cases part'? with
      | none => rfl
      | some m' =>
          exact absurd heq.symm (h.nonzero m' (List.mem_append_right _ (hpart' m' rfl)))
  | some m =>
      have hm := List.mem_append_left messages' (hpart m rfl)
      cases part'? with
      | none => exact absurd heq (h.nonzero m hm)
      | some m' => rw [h.inj m hm m' (List.mem_append_right _ (hpart' m' rfl)) heq]

/-- The parts that two segwit signatures commit to are the same if and only if the amounts and the
scripts are the same and the transactions agree on what the hash type selects. -/
theorem segwitParts_inj_iff (h : tx.Encodable) (h' : tx'.Encodable) {x x' : TxInput}
    (hx : tx.inputs[i]? = some x) (hx' : tx'.inputs[i]? = some x') {amount amount' : Int}
    (hfree : CollisionFree (digested tx i hashType ++ digested tx' i hashType)) :
    segwitParts tx i x amount code hashType = segwitParts tx' i x' amount' code' hashType ↔
      amount = amount' ∧ code = code' ∧ AgreeOn hashType i tx tx' := by
  simp only [segwitParts, SegwitParts.mk.injEq]
  rw [hfree.digestOf_inj_iff (fun _ ↦ mem_digested_of_outpointsPart)
      fun _ ↦ mem_digested_of_outpointsPart,
    hfree.digestOf_inj_iff (fun _ ↦ mem_digested_of_sequencesPart)
      fun _ ↦ mem_digested_of_sequencesPart,
    hfree.digestOf_inj_iff (fun _ ↦ mem_digested_of_outputsPart)
      fun _ ↦ mem_digested_of_outputsPart,
    outpointsPart_inj_iff h h', sequencesPart_inj_iff h h', outputsPart_inj_iff h h']
  constructor
  · rintro ⟨hversion, hspendsAll, hsequences, hspends, hcode, hamount, hsequence, houtputs,
      hlockTime⟩
    exact ⟨hamount, hcode, {
      version := hversion
      lockTime := hlockTime
      outpoint := by rw [hx, hx', Option.map_some, Option.map_some, hspends]
      sequence := by rw [hx, hx', Option.map_some, Option.map_some, hsequence]
      outpoints := hspendsAll
      sequences := hsequences
      outputs := houtputs.1
      output := houtputs.2 }⟩
  · rintro ⟨hamount, hcode, hagree⟩
    have hspends := hagree.outpoint
    have hsequence := hagree.sequence
    rw [hx, hx'] at hspends hsequence
    exact ⟨hagree.version, hagree.outpoints, hagree.sequences, Option.some.inj hspends, hcode,
      hamount, Option.some.inj hsequence, ⟨hagree.outputs, hagree.output⟩, hagree.lockTime⟩

/-- An amount of 64 bits fits. -/
theorem fits_amount {amount : Int} (h : -2 ^ 63 ≤ amount ∧ amount < 2 ^ 63) :
    fits true 8 amount = true := by
  have hcapacity : Bytes.capacity 8 = 18446744073709551616 := rfl
  rw [fits_signed (by decide), hcapacity]
  omega

/-- If nothing that is digested collides, two segwit signatures sign the digest of the same bytes if
and only if the amounts and the signed scripts are the same and the transactions agree on what the
hash type selects. -/
theorem segwitPreimage_inj_iff {bs bs' : Bytes} {disassembled disassembled' : Bool}
    (htx : Transaction.decode disassembled bs = .ok tx)
    (htx' : Transaction.decode disassembled' bs' = .ok tx')
    (hi : i < tx.inputs.length) (hi' : i < tx'.inputs.length) {amount amount' : Int}
    (hamount : -2 ^ 63 ≤ amount ∧ amount < 2 ^ 63) (hamount' : -2 ^ 63 ≤ amount' ∧ amount' < 2 ^ 63)
    (hcode : code.length < 2 ^ 63) (hcode' : code'.length < 2 ^ 63) (htype : hashType < 2 ^ 32)
    (hfree : CollisionFree (digested tx i hashType ++ digested tx' i hashType)) :
    ∃ p p', segwitPreimage tx i amount code hashType = .ok p ∧
      segwitPreimage tx' i amount' code' hashType = .ok p' ∧
      (p = p' ↔ amount = amount' ∧ code = code' ∧ AgreeOn hashType i tx tx') := by
  obtain ⟨h, -, -⟩ := Transaction.encodable_of_decode htx
  obtain ⟨h', -, -⟩ := Transaction.encodable_of_decode htx'
  have hx := List.getElem?_eq_getElem hi
  have hx' := List.getElem?_eq_getElem hi'
  refine ⟨_, _, segwitPreimage_eq h hx (fits_amount hamount) hcode (fits_of_lt htype),
    segwitPreimage_eq h' hx' (fits_amount hamount') hcode' (fits_of_lt htype), ?_⟩
  rw [← segwitParts_inj_iff h h' hx hx' hfree]
  refine ⟨fun heq ↦ ?_, fun heq ↦ by rw [heq]⟩
  exact SegwitParts.eq_of_wire_append_eq
    (segwitParts_encodable h hx (fits_amount hamount) hcode hashType)
    (segwitParts_encodable h' hx' (fits_amount hamount') hcode' hashType) heq

/-- The second outputs are all that is digested for a signature of the second input and the output
beside it, and their digest is not zero. -/
theorem collisionFree_twoChangedSpends : CollisionFree
    (digested twoSpends 1 (0x83 : Nat) ++ digested twoChangedSpends 1 (0x83 : Nat)) := by
  have hdigested : digested twoSpends 1 (0x83 : Nat) ++ digested twoChangedSpends 1 (0x83 : Nat) =
      List.replicate 2 (TxOutput.wire ⟨6, [0x6a]⟩) := rfl
  rw [hdigested]
  refine ⟨fun m hm m' hm' _ ↦ ?_, fun m hm ↦ ?_⟩
  · rw [List.eq_of_mem_replicate hm, List.eq_of_mem_replicate hm']
  · rw [List.eq_of_mem_replicate hm]
    decide +kernel

/-- A signature of the second input and the output beside it is one of both transactions if the other
inputs are open, but not one of another amount. -/
theorem segwitPreimage_inj_iff_twoChangedSpends :
    Transaction.decode false (twoSpends.wire true) = .ok twoSpends ∧
    Transaction.decode false (twoChangedSpends.wire true) = .ok twoChangedSpends ∧
    CollisionFree
      (digested twoSpends 1 (0x83 : Nat) ++ digested twoChangedSpends 1 (0x83 : Nat)) ∧
    (∃ p, segwitPreimage twoSpends 1 8 [0x52] (0x83 : Nat) = .ok p ∧
      segwitPreimage twoChangedSpends 1 8 [0x52] (0x83 : Nat) = .ok p) ∧
    ∃ p p', segwitPreimage twoSpends 1 8 [0x52] (0x83 : Nat) = .ok p ∧
      segwitPreimage twoChangedSpends 1 9 [0x52] (0x83 : Nat) = .ok p' ∧ p ≠ p' := by
  have hi : 1 < twoSpends.inputs.length := by decide
  have hi' : 1 < twoChangedSpends.inputs.length := by decide
  have hcode : ([0x52] : Bytes).length < 2 ^ 63 := by decide
  have height : -2 ^ 63 ≤ (8 : Int) ∧ (8 : Int) < 2 ^ 63 := by decide
  have hnine : -2 ^ 63 ≤ (9 : Int) ∧ (9 : Int) < 2 ^ 63 := by decide
  refine ⟨decode_twoSpends, decode_twoChangedSpends, collisionFree_twoChangedSpends, ?_, ?_⟩
  · obtain ⟨p, p', hp, hp', hiff⟩ := segwitPreimage_inj_iff decode_twoSpends decode_twoChangedSpends
      hi hi' height height hcode hcode (by decide) collisionFree_twoChangedSpends
    obtain rfl := hiff.mpr ⟨rfl, rfl, agreeOn_twoChangedSpends⟩
    exact ⟨p, hp, hp'⟩
  · obtain ⟨p, p', hp, hp', hiff⟩ := segwitPreimage_inj_iff decode_twoSpends decode_twoChangedSpends
      hi hi' height hnine hcode hcode (by decide) collisionFree_twoChangedSpends
    exact ⟨p, p', hp, hp', fun hsame ↦ absurd (hiff.mp hsame).1 (by decide)⟩

end Sighash

end BitcoinSpend
