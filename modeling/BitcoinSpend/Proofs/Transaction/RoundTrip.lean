import BitcoinSpend.Proofs.Wire.RoundTrip
import BitcoinSpend.Transaction.Basic

/-!
# The wire form of transactions

A transaction is `Encodable` if each of its fields has a wire form. Such a transaction is written,
and what is written is read back with the same fields, unless the reader would take an input count
of zero for the marker of the segwit form. Every transaction that is read is encodable. Read
`Encodable` and `Transaction.wire` first; the main results are `encode_eq`, `decode_wire`,
`sameWritten_of_wire_eq` and `asRead_of_decode`.
-/

namespace BitcoinSpend

open Script Wire

/-! ## Inputs -/

/-- An input all of whose fields have a wire form. -/
structure TxInput.Encodable (i : TxInput) : Prop where
  txid : i.txid.length = 32
  vout : fits false 4 i.vout = true
  unlocking : i.unlocking.length < 2 ^ 63
  sequence : fits false 4 i.sequence = true

/-- The input that is read back: its fields, and the text form of its script if it is wanted. -/
def TxInput.reread (disassembled : Bool) (i : TxInput) : TxInput :=
  .ofFields i.txid i.vout i.unlocking i.sequence disassembled

/-- The bytes of what an input spends. -/
def TxInput.outpointWire (i : TxInput) : Bytes :=
  i.txid.reverse ++ Bytes.ofIntLE 4 i.vout

/-- The bytes of an input with a script and a sequence. -/
def TxInput.wireWith (i : TxInput) (script : Bytes) (sequence : Int) : Bytes :=
  i.outpointWire ++ sized script ++ Bytes.ofIntLE 4 sequence

/-- The bytes of an input. -/
def TxInput.wire (i : TxInput) : Bytes :=
  i.wireWith i.unlocking i.sequence

/-- What an encodable input spends is written. -/
theorem TxInput.outpoint_eq {i : TxInput} (h : i.Encodable) : i.outpoint = .ok i.outpointWire := by
  rw [outpoint, littleInt?_of_fits h.vout]
  rfl

/-- An encodable input is written. -/
theorem TxInput.encode_eq {i : TxInput} (h : i.Encodable) : i.encode = .ok i.wire := by
  simp only [encode, outpoint_eq h, littleInt?_of_fits h.sequence,
    lengthPrefixed?_of_lt (show i.unlocking.length < 2 ^ 64 by have := h.unlocking; omega)]
  rfl

/-- An encodable input is read back. -/
theorem TxInput.restores (disassembled : Bool) {i : TxInput} (h : i.Encodable) :
    Restores (reader disassembled) i.wire (i.reread disassembled) := by
  have htxid : i.txid.reverse.length = 32 := by rw [List.length_reverse, h.txid]
  have hread := (restores_take_width htxid (by decide) (some "txid")).bind
    (f := fun txid ↦ do
      let vout ← littleInt false 4 (some "vout")
      let unlocking ← lengthPrefixed (some "scriptsig")
      let sequence ← littleInt false 4 (some "sequence")
      return ofFields txid.reverse vout unlocking sequence disassembled)
    ((restores_littleInt (by decide) (by decide) h.vout (some "vout")).bind
      ((restores_lengthPrefixed h.unlocking (some "scriptsig")).bind
        (restores_littleInt (by decide) (by decide) h.sequence (some "sequence")).map))
  rw [List.reverse_reverse] at hread
  rw [wire, wireWith, outpointWire, List.append_assoc, List.append_assoc]
  exact hread

/-- Whether the text form of an input is that of its unlocking script or missing. -/
def TxInput.InStep (i : TxInput) : Prop :=
  i.tokens?.getD (disassemble i.unlocking) = disassemble i.unlocking

/-- An unlocking script that is assigned brings its text form along or none. -/
theorem TxInput.inStep_withUnlocking (i : TxInput) (script : Bytes) :
    (i.withUnlocking script).InStep := by
  rw [InStep, withUnlocking]
  dsimp only
  split <;> rfl

/-- An input that is built from its fields has the text form of its unlocking script or none. -/
theorem TxInput.inStep_ofFields (txid : Bytes) (vout : Int) (unlocking : Bytes) (sequence : Int)
    (disassembled : Bool) : (ofFields txid vout unlocking sequence disassembled).InStep :=
  inStep_withUnlocking _ unlocking

/-- An input that is read is encodable, and reading it back changes nothing. -/
theorem TxInput.yields (disassembled : Bool) :
    Yields (reader disassembled) fun i ↦ i.Encodable ∧ i.reread disassembled = i :=
  (yields_take 32 _).bind fun txid htxid ↦
    (yields_littleInt (by decide) false _).bind fun vout hvout ↦
      (yields_lengthPrefixed _).bind fun unlocking hunlocking ↦
        (yields_littleInt (by decide) false _).bind fun sequence hsequence ↦ .pure ⟨{
            txid := by
              rw [ofFields, withUnlocking, List.length_reverse]
              omega
            vout := hvout
            unlocking := hunlocking
            sequence := hsequence }, rfl⟩

/-! ## Outputs and witnesses -/

/-- An output all of whose fields have a wire form. -/
structure TxOutput.Encodable (o : TxOutput) : Prop where
  amount : fits true 8 o.amount = true
  locking : o.locking.length < 2 ^ 63

/-- The bytes of an output. -/
def TxOutput.wire (o : TxOutput) : Bytes :=
  Bytes.ofIntLE 8 o.amount ++ sized o.locking

/-- An encodable output is written. -/
theorem TxOutput.encode_eq {o : TxOutput} (h : o.Encodable) : o.encode = .ok o.wire := by
  simp only [encode, littleInt?_of_fits h.amount,
    lengthPrefixed?_of_lt (show o.locking.length < 2 ^ 64 by have := h.locking; omega)]
  rfl

/-- An encodable output is read back. -/
theorem TxOutput.restores {o : TxOutput} (h : o.Encodable) : Restores reader o.wire o :=
  (restores_littleInt (by decide) (by decide) h.amount (some "amount")).bind
    (restores_lengthPrefixed h.locking (some "scriptpubkey")).map

/-- Encodable outputs are told apart by their bytes. -/
theorem TxOutput.eq_of_wire_eq {o o' : TxOutput} (h : o.Encodable) (h' : o'.Encodable)
    (heq : o.wire = o'.wire) : o = o' :=
  ((restores h).append_inj (restores h') (congrArg (· ++ []) heq)).1

/-- An output that is read is encodable. -/
theorem TxOutput.yields : Yields reader Encodable :=
  (yields_littleInt (by decide) true _).bind fun amount hamount ↦
    (yields_lengthPrefixed _).bind fun locking hlocking ↦ .pure ⟨hamount, hlocking⟩

/-- A witness all of whose items have a wire form. -/
structure Witness.Encodable (w : Witness) : Prop where
  count : w.length < 2 ^ 64
  items : ∀ item ∈ w, item.length < 2 ^ 63

/-- A witness without items is encodable. -/
theorem Witness.Encodable.nil : Witness.Encodable [] :=
  ⟨by decide, fun _ h ↦ nomatch h⟩

/-- The bytes of a witness. -/
def Witness.wire (w : Witness) : Bytes :=
  counted (w.map sized)

/-- An encodable witness is written. -/
theorem Witness.encode_eq {w : Witness} (h : w.Encodable) : w.encode = .ok w.wire := by
  have hitems : w.mapM lengthPrefixed? = .ok (w.map sized) := mapM_eq_ok fun item hitem ↦
    lengthPrefixed?_of_lt (by have := h.items item hitem; omega)
  simp only [encode, compactSize?_of_lt h.count, hitems, wire, counted, List.length_map]
  rfl

/-- An encodable witness is read back. -/
theorem Witness.restores {w : Witness} (h : w.Encodable) : Restores reader w.wire w := by
  have hread := restores_counted (g := id) h.count fun item hitem ↦
    restores_lengthPrefixed (h.items item hitem) (some "witness item")
  rwa [List.map_id] at hread

/-- The bytes of a witness are not empty. -/
theorem Witness.wire_ne_nil (w : Witness) : w.wire ≠ [] :=
  List.append_ne_nil_of_left_ne_nil (compactSizeOf_ne_nil _) _

/-- A witness that is read is encodable. -/
theorem Witness.yields : Yields reader Encodable := by
  refine yields_compactSize.bind fun count hcount ↦ ?_
  intro bs w rest hread
  obtain ⟨hlength, hitems⟩ := yields_many (yields_lengthPrefixed _) count bs w rest hread
  exact ⟨by omega, hitems⟩

/-! ## Transactions -/

namespace Transaction

/-- A transaction all of whose fields have a wire form. -/
structure Encodable (tx : Transaction) : Prop where
  version : fits true 4 tx.version = true
  inputCount : tx.inputs.length < 2 ^ 64
  inputs : ∀ i ∈ tx.inputs, i.Encodable
  outputCount : tx.outputs.length < 2 ^ 64
  outputs : ∀ o ∈ tx.outputs, o.Encodable
  witness : ∀ w ∈ tx.witness, w.Encodable
  lockTime : fits false 4 tx.lockTime = true

/-- The transaction that is read back: its fields, with the text forms of unlocking scripts if they
are wanted, and without witnesses if this is no segwit transaction. -/
def reread (disassembled : Bool) (tx : Transaction) : Transaction :=
  .ofFields (tx.inputs.map (·.reread disassembled)) tx.outputs
    (if tx.segwit then tx.witness else []) tx.lockTime tx.version (some tx.segwit)

/-- The bytes of a transaction. Marker, flag and witnesses are there if they are asked for and this is
a segwit transaction. -/
def wire (tx : Transaction) (withWitness : Bool) : Bytes :=
  Bytes.ofIntLE 4 tx.version ++ (if tx.segwit && withWitness then [0x00, 0x01] else []) ++
    counted (tx.inputs.map TxInput.wire) ++ counted (tx.outputs.map TxOutput.wire) ++
    (if tx.segwit && withWitness then (tx.witness.map Witness.wire).flatten else []) ++
    Bytes.ofIntLE 4 tx.lockTime

/-- An encodable transaction is written. -/
theorem encode_eq (withWitness : Bool) {tx : Transaction} (h : tx.Encodable) :
    tx.encode withWitness = .ok (tx.wire withWitness) := by
  have hinputs := mapM_eq_ok fun i hi ↦ TxInput.encode_eq (h.inputs i hi)
  have houtputs := mapM_eq_ok fun o ho ↦ TxOutput.encode_eq (h.outputs o ho)
  have hwitness := mapM_eq_ok fun w hw ↦ Witness.encode_eq (h.witness w hw)
  simp only [encode, littleInt?_of_fits h.version, littleInt?_of_fits h.lockTime,
    compactSize?_of_lt h.inputCount, compactSize?_of_lt h.outputCount, hinputs, houtputs, hwitness,
    wire, counted, List.length_map, List.append_assoc]
  cases tx.segwit && withWitness <;> rfl

/-- The first byte of a count that is not zero is not zero. -/
theorem compactSizeOf_ne_zero {n : Nat} (hn : n ≠ 0) :
    ∃ b bs, compactSizeOf n = b :: bs ∧ b ≠ 0x00 := by
  unfold compactSizeOf
  split
  · next hsmall =>
      refine ⟨UInt8.ofNat n, [], ?_, ?_⟩
      · rw [Bytes.ofNatLE, Nat.mod_eq_of_lt (by omega)]
        rfl
      · intro hzero
        have hbyte : (UInt8.ofNat n).toNat = 0 := by
          rw [hzero]
          rfl
        rw [UInt8.toNat_ofNat'] at hbyte
        omega
  · split
    · exact ⟨_, _, rfl, by decide⟩
    · split
      · exact ⟨_, _, rfl, by decide⟩
      · exact ⟨_, _, rfl, by decide⟩

/-- The form without witnesses is told from the segwit form if there is an input or no output. -/
theorem segwitMarker_absent {inputs outputs : List Bytes} (h : inputs ≠ [] ∨ outputs = [])
    (rest : Bytes) :
    segwitMarker (counted inputs ++ (counted outputs ++ rest)) =
      .ok false (counted inputs ++ (counted outputs ++ rest)) := by
  by_cases hnone : inputs = []
  · obtain rfl := h.resolve_left fun hne ↦ hne hnone
    rw [hnone]
    rfl
  · obtain ⟨b, bs, hbytes, hb⟩ := compactSizeOf_ne_zero (mt List.length_eq_zero_iff.mp hnone)
    rw [counted, hbytes, List.cons_append, List.cons_append, segwitMarker.eq_def]
    simp only [if_neg hb]

/-- Marker and flag, or that there are none, are read back. -/
theorem segwitMarker_eq {segwit : Bool} {inputs outputs : List Bytes}
    (h : segwit = true ∨ inputs ≠ [] ∨ outputs = []) (rest : Bytes) :
    segwitMarker ((if segwit then [0x00, 0x01] else []) ++
      (counted inputs ++ (counted outputs ++ rest))) =
        .ok segwit (counted inputs ++ (counted outputs ++ rest)) := by
  cases segwit with
  | true => rfl
  | false => exact segwitMarker_absent (h.resolve_left Bool.false_ne_true) rest

/-- The reader of a transaction behind its version and the marker. -/
def bodyReader (disassembled : Bool) (version : Int) (segwit : Bool) : Reader Transaction := do
  let inputCount ← compactSize
  let inputs ← many (TxInput.reader disassembled) inputCount
  let outputCount ← compactSize
  let outputs ← many TxOutput.reader outputCount
  let witness ← if segwit then many Witness.reader inputCount else pure []
  let lockTime ← littleInt false 4 (some "locktime")
  atEnd
  return ofFields inputs outputs witness lockTime version (some segwit)

/-- The reader of a transaction reads the version and the marker first. -/
theorem reader_eq (disassembled : Bool) :
    reader disassembled = (do
      let version ← littleInt true 4 (some "version")
      let segwit ← segwitMarker
      bodyReader disassembled version segwit) := by
  rfl

/-- The reader of the witnesses of a transaction, of which there are none in the form without them. -/
def witnessReader (segwit : Bool) (count : Nat) : Reader (List Witness) :=
  if segwit then many Witness.reader count else pure []

/-- The reader of the fields of a transaction, whatever stands behind them. -/
def fieldsReader (disassembled : Bool) : Reader Transaction := do
  let version ← littleInt true 4 (some "version")
  let segwit ← segwitMarker
  let inputCount ← compactSize
  let inputs ← many (TxInput.reader disassembled) inputCount
  let outputCount ← compactSize
  let outputs ← many TxOutput.reader outputCount
  let witness ← witnessReader segwit inputCount
  let lockTime ← littleInt false 4 (some "locktime")
  return ofFields inputs outputs witness lockTime version (some segwit)

/-- The reader of a transaction reads the fields and then looks for the end. -/
theorem reader_eq_fieldsReader (disassembled : Bool) :
    reader disassembled = (do
      let tx ← fieldsReader disassembled
      atEnd
      return tx) := by
  simp only [reader, fieldsReader, bind_assoc, pure_bind]
  refine bind_congr fun version ↦ bind_congr fun segwit ↦ bind_congr fun inputCount ↦
    bind_congr fun inputs ↦ bind_congr fun outputCount ↦ bind_congr fun outputs ↦ ?_
  cases segwit <;> rfl

/-- The fields of a transaction are the transaction if nothing stands behind them. -/
theorem decode_of_fieldsReader {disassembled : Bool} {bs rest : Bytes} {tx : Transaction}
    (h : fieldsReader disassembled bs = .ok tx rest) :
    decode disassembled bs = if rest = [] then .ok tx else .error .trailingData := by
  rw [decode, reader_eq_fieldsReader]
  cases rest with
  | nil => exact decode_of_ok (bind_ok.mpr ⟨tx, [], h, rfl⟩)
  | cons b rest => exact decode_of_error (bind_error.mpr (.inr ⟨tx, b :: rest, h, rfl⟩))

/-- What stops the reader of the fields stops the reader of the transaction. -/
theorem decode_of_fieldsReader_error {disassembled : Bool} {bs rest : Bytes} {e : ReadError}
    (h : fieldsReader disassembled bs = .error e rest) : decode disassembled bs = .error e := by
  rw [decode, reader_eq_fieldsReader]
  exact decode_of_error (bind_error.mpr (.inl h))

/-- A transaction is read if its fields are all that there is. -/
theorem decode_ok_iff_fieldsReader {disassembled : Bool} {bs : Bytes} {tx : Transaction} :
    decode disassembled bs = .ok tx ↔ fieldsReader disassembled bs = .ok tx [] := by
  cases hread : fieldsReader disassembled bs with
  | ok read rest =>
      rw [decode_of_fieldsReader hread]
      cases rest <;> simp
  | error e rest =>
      rw [decode_of_fieldsReader_error hread]
      simp

/-- What is written behind the marker is read back. -/
theorem bodyReader_eq (disassembled : Bool) {tx : Transaction} (h : tx.Encodable)
    (hwitness : tx.segwit = true → tx.witness.length = tx.inputs.length) :
    bodyReader disassembled tx.version tx.segwit (counted (tx.inputs.map TxInput.wire) ++
      (counted (tx.outputs.map TxOutput.wire) ++
        ((if tx.segwit then (tx.witness.map Witness.wire).flatten else []) ++
          Bytes.ofIntLE 4 tx.lockTime))) = .ok (tx.reread disassembled) [] := by
  have hinputs := restores_many (TxInput.reader disassembled) TxInput.wire
    (·.reread disassembled) fun i hi ↦ TxInput.restores disassembled (h.inputs i hi)
  have houtputs := restores_many TxOutput.reader TxOutput.wire id
    fun o ho ↦ TxOutput.restores (h.outputs o ho)
  have hwitnesses := restores_many Witness.reader Witness.wire id
    fun w hw ↦ Witness.restores (h.witness w hw)
  have hlockTime : Restores (littleInt false 4 (some "locktime"))
      (Bytes.ofIntLE 4 tx.lockTime) tx.lockTime :=
    restores_littleInt (by decide) (by decide) h.lockTime _
  rw [List.map_id] at houtputs hwitnesses
  simp only [counted, List.length_map, List.append_assoc]
  rw [← List.append_nil (Bytes.ofIntLE 4 tx.lockTime), bodyReader,
    (restores_compactSize h.inputCount).step, hinputs.step,
    (restores_compactSize h.outputCount).step, houtputs.step, reread]
  cases hsegwit : tx.segwit with
  | true =>
      rw [hwitness hsegwit] at hwitnesses
      rw [if_pos rfl, if_pos rfl, hwitnesses.step]
      change (littleInt false 4 (some "locktime") >>= _) _ = _
      rw [hlockTime.step]
      rfl
  | false =>
      rw [if_neg Bool.false_ne_true, if_neg Bool.false_ne_true, List.nil_append, pure_bind]
      change (littleInt false 4 (some "locktime") >>= _) _ = _
      rw [hlockTime.step]
      rfl

/-- The bytes of an encodable transaction are read back, if a segwit transaction has one witness to
each input and the reader can tell which form they have. -/
theorem decode_wire (disassembled : Bool) {tx : Transaction} (h : tx.Encodable)
    (hwitness : tx.segwit = true → tx.witness.length = tx.inputs.length)
    (hform : tx.segwit = true ∨ tx.inputs ≠ [] ∨ tx.outputs = []) :
    decode disassembled (tx.wire true) = .ok (tx.reread disassembled) := by
  have hversion : Restores (littleInt true 4 (some "version"))
      (Bytes.ofIntLE 4 tx.version) tx.version :=
    restores_littleInt (by decide) (by decide) h.version _
  have hmarked : tx.segwit = true ∨ tx.inputs.map TxInput.wire ≠ [] ∨
      tx.outputs.map TxOutput.wire = [] := by
    simpa using hform
  have hread : (segwitMarker >>= bodyReader disassembled tx.version)
      ((if tx.segwit then [0x00, 0x01] else []) ++ (counted (tx.inputs.map TxInput.wire) ++
        (counted (tx.outputs.map TxOutput.wire) ++
          ((if tx.segwit then (tx.witness.map Witness.wire).flatten else []) ++
            Bytes.ofIntLE 4 tx.lockTime)))) = .ok (tx.reread disassembled) [] := by
    change EStateM.bind segwitMarker _ _ = _
    rw [EStateM.bind, segwitMarker_eq hmarked]
    exact bodyReader_eq disassembled h hwitness
  rw [decode, Reader.decode, EStateM.run, reader_eq, wire]
  simp only [List.append_assoc, Bool.and_true]
  rw [hversion.step, hread]

/-- An encodable transaction is written and read back, if a segwit transaction has one witness to each
input and the reader can tell which form it has. -/
theorem decode_encode (disassembled : Bool) {tx : Transaction} (h : tx.Encodable)
    (hwitness : tx.segwit = true → tx.witness.length = tx.inputs.length)
    (hform : tx.segwit = true ∨ tx.inputs ≠ [] ∨ tx.outputs = []) :
    ∃ bs, tx.encode true = .ok bs ∧ decode disassembled bs = .ok (tx.reread disassembled) :=
  ⟨tx.wire true, encode_eq true h, decode_wire disassembled h hwitness hform⟩

/-! ## What is told apart -/

/-- Two transactions that are the same in all that is written. The text forms of unlocking scripts are
not written, and witnesses are written in the segwit form only. -/
structure SameWritten (tx tx' : Transaction) : Prop where
  version : tx.version = tx'.version
  segwit : tx.segwit = tx'.segwit
  inputs : tx.inputs.map (·.reread false) = tx'.inputs.map (·.reread false)
  outputs : tx.outputs = tx'.outputs
  witness : tx.segwit = true → tx.witness = tx'.witness
  lockTime : tx.lockTime = tx'.lockTime

/-- Transactions that are the same in all that is written have the same bytes. -/
theorem SameWritten.wire_eq {tx tx' : Transaction} (h : SameWritten tx tx') (withWitness : Bool) :
    tx.wire withWitness = tx'.wire withWitness := by
  have hreread (inputs : List TxInput) :
      inputs.map TxInput.wire = (inputs.map (·.reread false)).map TxInput.wire := by
    rw [List.map_map]
    rfl
  have hwitness : (if tx.segwit && withWitness then (tx.witness.map Witness.wire).flatten else []) =
      if tx.segwit && withWitness then (tx'.witness.map Witness.wire).flatten else [] := by
    split
    · next hwritten => rw [h.witness (Bool.and_eq_true_iff.mp hwritten).1]
    · rfl
  rw [wire, hwitness, hreread, h.inputs, ← hreread, h.version, h.segwit, h.outputs, h.lockTime, wire]

/-- The inputs of an encodable transaction are read back behind their number. -/
theorem Encodable.restores_inputs (disassembled : Bool) {tx : Transaction} (h : tx.Encodable) :
    Restores (compactSize >>= many (TxInput.reader disassembled))
      (counted (tx.inputs.map TxInput.wire)) (tx.inputs.map (·.reread disassembled)) :=
  restores_counted h.inputCount fun i hi ↦ TxInput.restores disassembled (h.inputs i hi)

/-- The outputs of an encodable transaction are read back behind their number. -/
theorem Encodable.restores_outputs {tx : Transaction} (h : tx.Encodable) :
    Restores (compactSize >>= many TxOutput.reader)
      (counted (tx.outputs.map TxOutput.wire)) tx.outputs := by
  have hread := restores_counted (g := id) h.outputCount
    fun o ho ↦ TxOutput.restores (h.outputs o ho)
  rwa [List.map_id] at hread

/-- The bytes of the witnesses of encodable transactions tell them apart, although it is not written
how many there are. -/
theorem Encodable.witness_eq_of_flatten_eq {tx tx' : Transaction} (h : tx.Encodable)
    (h' : tx'.Encodable) (heq : (tx.witness.map Witness.wire).flatten =
      (tx'.witness.map Witness.wire).flatten) : tx.witness = tx'.witness := by
  have hrestores {tx : Transaction} (h : tx.Encodable) : ∀ w ∈ tx.witness,
      Restores Witness.reader w.wire w :=
    fun w hw ↦ Witness.restores (h.witness w hw)
  exact (flatten_map_inj_iff Witness.wire_ne_nil (hrestores h) (hrestores h')).mp heq

/-- The bytes of transactions with inputs tell apart all that is written. -/
theorem sameWritten_of_wire_eq {tx tx' : Transaction} (h : tx.Encodable) (h' : tx'.Encodable)
    (hinputs : tx.inputs ≠ []) (hinputs' : tx'.inputs ≠ []) (heq : tx.wire true = tx'.wire true) :
    SameWritten tx tx' := by
  have hmarked {tx : Transaction} (hinputs : tx.inputs ≠ []) : tx.segwit = true ∨
      tx.inputs.map TxInput.wire ≠ [] ∨ tx.outputs.map TxOutput.wire = [] :=
    .inr (.inl (mt List.map_eq_nil_iff.mp hinputs))
  simp only [wire, Bool.and_true, List.append_assoc] at heq
  obtain ⟨hversion, heq⟩ := ofIntLE_append_inj (by decide) (by decide) h.version h'.version heq
  have hmarker := segwitMarker_eq (hmarked hinputs)
    ((if tx.segwit then (tx.witness.map Witness.wire).flatten else []) ++
      Bytes.ofIntLE 4 tx.lockTime)
  rw [heq, segwitMarker_eq (hmarked hinputs')] at hmarker
  injection hmarker with hsegwit heq
  obtain ⟨hinputs, heq⟩ := (h.restores_inputs false).append_inj (h'.restores_inputs false) heq.symm
  obtain ⟨houtputs, heq⟩ := h.restores_outputs.append_inj h'.restores_outputs heq
  -- The lock time has a fixed width, so the rest in front of it is the witnesses.
  obtain ⟨hwitness, heq⟩ := List.append_inj' heq (by rw [length_ofIntLE, length_ofIntLE])
  obtain ⟨hlockTime, -⟩ := ofIntLE_append_inj (by decide) (by decide) h.lockTime h'.lockTime
    (congrArg (· ++ []) heq)
  refine ⟨hversion, hsegwit.symm, hinputs, houtputs, fun hwritten ↦ ?_, hlockTime⟩
  rw [hsegwit, hwritten, if_pos rfl, if_pos rfl] at hwitness
  exact h.witness_eq_of_flatten_eq h' hwitness

/-- What is read back is the same in all that is written. -/
theorem sameWritten_reread (disassembled : Bool) {tx : Transaction}
    (hwitness : tx.segwit = true → tx.witness.length = tx.inputs.length) :
    SameWritten tx (tx.reread disassembled) where
  version := rfl
  segwit := rfl
  inputs := by
    rw [reread, ofFields, List.map_map]
    rfl
  outputs := rfl
  witness := by
    intro hsegwit
    rw [reread, ofFields]
    dsimp only
    rw [if_pos hsegwit, List.length_map, hwitness hsegwit, Nat.sub_self, List.replicate_zero,
      List.append_nil]
  lockTime := rfl

/-! ## What is ever read -/

/-- A transaction such as is read: it is encodable, there is one witness to each input, and reading it
back changes nothing in it. -/
structure AsRead (disassembled : Bool) (tx : Transaction) : Prop where
  encodable : tx.Encodable
  witnessCount : tx.witness.length = tx.inputs.length
  inputs : ∀ i ∈ tx.inputs, i.reread disassembled = i
  witness : tx.segwit = false → ∀ w ∈ tx.witness, w = []

/-- The text forms of the inputs of a transaction that is read are in step. -/
theorem AsRead.inStep {disassembled : Bool} {tx : Transaction} (h : tx.AsRead disassembled) :
    ∀ i ∈ tx.inputs, i.InStep := by
  intro i hi
  rw [← h.inputs i hi]
  exact TxInput.inStep_ofFields _ _ _ _ _

/-- A transaction that is read is read back as it is. -/
theorem AsRead.reread_eq {disassembled : Bool} {tx : Transaction} (h : tx.AsRead disassembled) :
    tx.reread disassembled = tx := by
  have hinputs : tx.inputs.map (·.reread disassembled) = tx.inputs := by
    rw [List.map_congr_left h.inputs, List.map_id']
  have hwitness : (if tx.segwit then tx.witness else []) ++ List.replicate (tx.inputs.length -
      (if tx.segwit then tx.witness else []).length) [] = tx.witness := by
    cases hsegwit : tx.segwit with
    | true =>
        rw [if_pos rfl, h.witnessCount, Nat.sub_self, List.replicate_zero, List.append_nil]
    | false =>
        rw [if_neg Bool.false_ne_true, List.nil_append, List.length_nil, Nat.sub_zero]
        exact (List.eq_replicate_iff.mpr ⟨h.witnessCount, h.witness hsegwit⟩).symm
  simp only [reread, ofFields, hinputs, hwitness, Option.getD_some]

/-- Every transaction that is read is such as is read. -/
theorem asRead_of_decode {disassembled : Bool} {bs : Bytes} {tx : Transaction}
    (h : decode disassembled bs = .ok tx) : tx.AsRead disassembled := by
  have hyields : Yields (reader disassembled) fun tx ↦ tx.AsRead disassembled := by
    refine (yields_littleInt (by decide) true _).bind fun version hversion ↦
      (Yields.any _).bind fun segwit _ ↦ yields_compactSize.bind fun inputCount hinputCount ↦
        (yields_many (TxInput.yields disassembled) inputCount).bind fun inputs hinputs ↦
          yields_compactSize.bind fun outputCount houtputCount ↦
            (yields_many TxOutput.yields outputCount).bind fun outputs houtputs ↦ ?_
    have hrest {witness : List Witness} (hcount : witness.length ≤ inputs.length)
        (hwitness : ∀ w ∈ witness, w.Encodable) (hnone : segwit = false → witness = []) :
        Yields (do
          let lockTime ← littleInt false 4 (some "locktime")
          atEnd
          return ofFields inputs outputs witness lockTime version (some segwit)) fun tx ↦
            tx.AsRead disassembled := by
      refine (yields_littleInt (by decide) false _).bind fun lockTime hlockTime ↦
        (Yields.any _).bind fun _ _ ↦ .pure ⟨?_, ?_, ?_, ?_⟩
      · exact {
          version := hversion
          inputCount := hinputs.1 ▸ hinputCount
          inputs := fun i hi ↦ (hinputs.2 i hi).1
          outputCount := houtputs.1 ▸ houtputCount
          outputs := houtputs.2
          witness := by
            intro w hw
            obtain hw | hw := List.mem_append.mp hw
            · exact hwitness w hw
            · rw [List.eq_of_mem_replicate hw]
              exact .nil
          lockTime := hlockTime }
      · rw [ofFields, List.length_append, List.length_replicate]
        exact Nat.add_sub_cancel' hcount
      · exact fun i hi ↦ (hinputs.2 i hi).2
      · intro hsegwit w hw
        rw [ofFields, hnone hsegwit, List.nil_append] at hw
        exact List.eq_of_mem_replicate hw
    cases segwit with
    | true =>
        refine (yields_many Witness.yields inputCount).bind fun witness hwitness ↦ ?_
        exact hrest (by omega) hwitness.2 fun h ↦ nomatch h
    | false => exact hrest (Nat.zero_le _) (fun w hw ↦ nomatch hw) fun _ ↦ rfl
  exact hyields.decode h

/-- The copy of a transaction was read. -/
theorem asRead_of_copy {disassembled : Bool} {tx copied : Transaction}
    (h : tx.copy disassembled = .ok copied) : copied.AsRead disassembled := by
  rw [copy] at h
  cases hwritten : tx.encode true with
  | error e =>
      rw [hwritten] at h
      cases h
  | ok bs =>
      rw [hwritten] at h
      change (decode disassembled bs).mapError CopyError.read = .ok copied at h
      cases hread : decode disassembled bs with
      | error e =>
          rw [hread] at h
          cases h
      | ok tx' =>
          rw [hread] at h
          cases h
          exact asRead_of_decode hread

/-- A transaction that is read is encodable, has one witness to each input, and the text forms of
its inputs are in step. -/
theorem encodable_of_decode {disassembled : Bool} {bs : Bytes} {tx : Transaction}
    (h : decode disassembled bs = .ok tx) :
    tx.Encodable ∧ tx.witness.length = tx.inputs.length ∧ ∀ i ∈ tx.inputs, i.InStep :=
  have hread := asRead_of_decode h
  ⟨hread.encodable, hread.witnessCount, hread.inStep⟩

end Transaction

end BitcoinSpend
