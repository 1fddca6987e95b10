import BitcoinSpend.Proofs.Transaction.Reencoding
import BitcoinSpend.Proofs.Wire.Spelling

/-!
# The spellings of transactions

The bytes that are read as a transaction are its spellings: its fields, with a form for each count
and each length in them. A transaction that was read is written in the shortest forms, so it gets
its own bytes back exactly if all its forms were the shortest, and fewer bytes if not. Read
`Transaction.Spelling` first; the main results are `decode_ok_iff` and `encode_decoded`.
-/

namespace BitcoinSpend

open Wire

/-! ## Inputs -/

/-- An input as it is spelled. -/
@[ext]
structure TxInput.Spelling where
  txid : Bytes
  vout : Int
  unlocking : StringSpelling
  sequence : Int
  length_txid : txid.length = 32
  vout_fits : fits false 4 vout = true
  sequence_fits : fits false 4 sequence = true

namespace TxInput.Spelling

/-- The bytes of an input as it is spelled. -/
def bytes (s : Spelling) : Bytes :=
  s.txid.reverse ++ (Bytes.ofIntLE 4 s.vout ++ (s.unlocking.bytes ++ Bytes.ofIntLE 4 s.sequence))

/-- The input that is spelled. -/
def value (disassembled : Bool) (s : Spelling) : TxInput :=
  .ofFields s.txid s.vout s.unlocking.content s.sequence disassembled

/-- An input is read exactly from its spellings. -/
theorem spells (disassembled : Bool) : Spells (reader disassembled) bytes (value disassembled) := by
  refine ⟨fun s ↦ ?_, fun {bs i rest} h ↦ ?_⟩
  · have htxid : s.txid.reverse.length = 32 := by rw [List.length_reverse, s.length_txid]
    have hread := (restores_take_width htxid (by decide) (some "txid")).bind
      (f := fun txid ↦ do
        let vout ← littleInt false 4 (some "vout")
        let unlocking ← lengthPrefixed (some "scriptsig")
        let sequence ← littleInt false 4 (some "sequence")
        return ofFields txid.reverse vout unlocking sequence disassembled)
      ((restores_littleInt (by decide) (by decide) s.vout_fits (some "vout")).bind
        (((spells_lengthPrefixed (some "scriptsig")).restores s.unlocking).bind
          (restores_littleInt (by decide) (by decide) s.sequence_fits (some "sequence")).map))
    rwa [List.reverse_reverse] at hread
  · obtain ⟨txid, more, htxid, h⟩ := bind_ok.mp h
    obtain ⟨vout, more, hvout, h⟩ := bind_ok.mp h
    obtain ⟨unlocking, more, hunlocking, h⟩ := bind_ok.mp h
    obtain ⟨sequence, more, hsequence, h⟩ := bind_ok.mp h
    cases h
    obtain ⟨hlength, -, rfl⟩ := (take_ok_iff (n := 32)).mp htxid
    obtain ⟨hvoutFits, rfl⟩ := (littleInt_ok_iff (by decide) (by decide)).mp hvout
    obtain ⟨unlocking, rfl, rfl⟩ := (spells_lengthPrefixed _).exists_of_ok hunlocking
    obtain ⟨hsequenceFits, rfl⟩ := (littleInt_ok_iff (by decide) (by decide)).mp hsequence
    refine ⟨⟨txid.reverse, vout, unlocking, sequence, ?_, hvoutFits, hsequenceFits⟩, rfl, ?_⟩
    · rw [List.length_reverse, hlength]
    · simp only [bytes, List.reverse_reverse, List.append_assoc]

/-- An input shows where it ends. -/
theorem delimits : Delimits bytes := by
  intro s s' rest rest' h
  simp only [bytes, List.append_assoc] at h
  obtain ⟨htxid, h⟩ := List.append_inj h (by
    rw [List.length_reverse, List.length_reverse, s.length_txid, s'.length_txid])
  obtain ⟨hvout, h⟩ := ofIntLE_append_inj (by decide) (by decide) s.vout_fits s'.vout_fits h
  obtain ⟨hunlocking, h⟩ := delimits_string h
  obtain ⟨hsequence, hrest⟩ :=
    ofIntLE_append_inj (by decide) (by decide) s.sequence_fits s'.sequence_fits h
  exact ⟨Spelling.ext (List.reverse_inj.mp htxid) hvout hunlocking hsequence, hrest⟩

/-- What is written of an input that is spelled differs in the length of its script only. -/
theorem saves (disassembled : Bool) (s : Spelling) :
    Saves (s.value disassembled).wire s.bytes s.unlocking.size.Shortest := by
  have hsaves := (Saves.refl (s.txid.reverse ++ Bytes.ofIntLE 4 s.vout)).append
    (s.unlocking.saves.append (.refl (Bytes.ofIntLE 4 s.sequence)))
  rw [bytes, ← List.append_assoc s.txid.reverse]
  rw [← List.append_assoc] at hsaves
  exact hsaves.congr ((and_iff_right trivial).trans (and_iff_left trivial))

end TxInput.Spelling

/-! ## Outputs and witnesses -/

/-- An output as it is spelled. -/
@[ext]
structure TxOutput.Spelling where
  amount : Int
  locking : StringSpelling
  amount_fits : fits true 8 amount = true

namespace TxOutput.Spelling

/-- The bytes of an output as it is spelled. -/
def bytes (s : Spelling) : Bytes :=
  Bytes.ofIntLE 8 s.amount ++ s.locking.bytes

/-- The output that is spelled. -/
def value (s : Spelling) : TxOutput :=
  ⟨s.amount, s.locking.content⟩

/-- An output is read exactly from its spellings. -/
theorem spells : Spells reader bytes value := by
  refine ⟨fun s ↦ ?_, fun {bs o rest} h ↦ ?_⟩
  · exact (restores_littleInt (by decide) (by decide) s.amount_fits (some "amount")).bind
      ((spells_lengthPrefixed (some "scriptpubkey")).restores s.locking).map
  · obtain ⟨amount, more, hamount, h⟩ := bind_ok.mp h
    obtain ⟨locking, more, hlocking, h⟩ := bind_ok.mp h
    cases h
    obtain ⟨hfits, rfl⟩ := (littleInt_ok_iff (by decide) (by decide)).mp hamount
    obtain ⟨locking, rfl, rfl⟩ := (spells_lengthPrefixed _).exists_of_ok hlocking
    exact ⟨⟨amount, locking, hfits⟩, rfl, (List.append_assoc _ _ _).symm⟩

/-- An output shows where it ends. -/
theorem delimits : Delimits bytes := by
  intro s s' rest rest' h
  simp only [bytes, List.append_assoc] at h
  obtain ⟨hamount, h⟩ := ofIntLE_append_inj (by decide) (by decide) s.amount_fits s'.amount_fits h
  obtain ⟨hlocking, hrest⟩ := delimits_string h
  exact ⟨Spelling.ext hamount hlocking, hrest⟩

/-- What is written of an output that is spelled differs in the length of its script only. -/
theorem saves (s : Spelling) : Saves s.value.wire s.bytes s.locking.size.Shortest :=
  ((Saves.refl (Bytes.ofIntLE 8 s.amount)).append s.locking.saves).congr (and_iff_right trivial)

end TxOutput.Spelling

/-- A witness as it is spelled. -/
abbrev Witness.Spelling := RowSpelling StringSpelling

namespace Witness.Spelling

/-- The bytes of a witness as it is spelled. -/
def bytes (s : Spelling) : Bytes :=
  RowSpelling.bytes StringSpelling.bytes s

/-- The witness that is spelled. -/
def value (s : Spelling) : Witness :=
  s.elements.map StringSpelling.content

/-- The counts and lengths in a witness, in the order in which they are written. -/
def sizes (s : Spelling) : List SizeSpelling :=
  s.count :: s.elements.map StringSpelling.size

/-- A witness is read exactly from its spellings. -/
theorem spells : Spells reader bytes value :=
  spells_counted (spells_lengthPrefixed _)

/-- A witness shows where it ends. -/
theorem delimits : Delimits bytes :=
  delimits_string.row

/-- What is written of a witness that is spelled differs in its counts and lengths only. -/
theorem saves (s : Spelling) : Saves s.value.wire s.bytes (∀ size ∈ s.sizes, size.Shortest) := by
  rw [Witness.wire, value, List.map_map]
  refine (RowSpelling.saves StringSpelling.saves s).congr ?_
  rw [sizes, List.forall_mem_cons, List.forall_mem_map]

end Witness.Spelling

/-! ## Transactions -/

namespace Transaction

/-- A transaction as it is spelled. -/
@[ext]
structure Spelling where
  version : Int
  segwit : Bool
  inputs : RowSpelling TxInput.Spelling
  outputs : RowSpelling TxOutput.Spelling
  witness : List Witness.Spelling
  lockTime : Int
  version_fits : fits true 4 version = true
  lockTime_fits : fits false 4 lockTime = true
  /-- There is one witness to each input, or none in the form without witnesses. -/
  length_witness : witness.length = if segwit then inputs.count.value else 0
  /-- In the form without witnesses, no input in a single byte would be taken for the marker, unless
  it is followed by no output in a single byte. -/
  unmarked : segwit = false → inputs.count.bytes = [0x00] → outputs.count.bytes = [0x00]

namespace Spelling

/-- The counts and lengths in a transaction, in the order in which they are written. -/
def sizes (s : Spelling) : List SizeSpelling :=
  s.inputs.count :: s.inputs.elements.map (·.unlocking.size) ++
    s.outputs.count :: s.outputs.elements.map (·.locking.size) ++
      s.witness.flatMap Witness.Spelling.sizes

/-- Whether every count and every length is in its shortest form. -/
def Shortest (s : Spelling) : Prop :=
  ∀ size ∈ s.sizes, size.Shortest

/-- The bytes of what stands behind the marker. -/
def bodyBytes (s : Spelling) : Bytes :=
  s.inputs.bytes TxInput.Spelling.bytes ++ (s.outputs.bytes TxOutput.Spelling.bytes ++
    ((s.witness.map Witness.Spelling.bytes).flatten ++ Bytes.ofIntLE 4 s.lockTime))

/-- The bytes of a transaction as it is spelled. -/
def bytes (s : Spelling) : Bytes :=
  Bytes.ofIntLE 4 s.version ++ ((if s.segwit then [0x00, 0x01] else []) ++ s.bodyBytes)

/-- The transaction that is spelled. -/
def value (disassembled : Bool) (s : Spelling) : Transaction :=
  .ofFields (s.inputs.elements.map (·.value disassembled))
    (s.outputs.elements.map TxOutput.Spelling.value) (s.witness.map Witness.Spelling.value)
    s.lockTime s.version (some s.segwit)

/-- The witnesses of a transaction are read exactly from their spellings. -/
theorem witnessReader_ok_iff {segwit : Bool} {count : Nat} {bs rest : Bytes}
    {witness : List Witness} : witnessReader segwit count bs = .ok witness rest ↔
      ∃ ss : List Witness.Spelling, ss.length = (if segwit then count else 0) ∧
        ss.map Witness.Spelling.value = witness ∧
          bs = (ss.map Witness.Spelling.bytes).flatten ++ rest := by
  cases segwit with
  | true => exact spells_many Witness.Spelling.spells
  | false =>
      rw [if_neg Bool.false_ne_true]
      exact (spells_many (n := 0) Witness.Spelling.spells)

/-- Marker and flag are what is in front if they are found. -/
theorem segwitMarker_eq_true {bs rest : Bytes} (h : segwitMarker bs = .ok true rest) :
    bs = 0x00 :: 0x01 :: rest := by
  rw [segwitMarker.eq_def] at h
  cases bs with
  | nil => cases h
  | cons marker bs =>
      dsimp only at h
      split at h
      · next hmarker =>
          cases bs with
          | nil => cases h
          | cons flag bs =>
              dsimp only at h
              split at h
              · next hflag =>
                  cases h
                  rw [hmarker, hflag]
              · split at h <;> cases h
      · cases h

/-- No marker is found where there is something else than a zero, or one that is followed by
another. -/
theorem segwitMarker_of_zeros {bs : Bytes} (hne : bs ≠ [])
    (hzeros : bs[0]? = some 0x00 → bs[1]? = some 0x00) : segwitMarker bs = .ok false bs := by
  rw [segwitMarker.eq_def]
  cases bs with
  | nil => exact absurd rfl hne
  | cons marker bs =>
      dsimp only
      split
      · next hmarker =>
          have hsecond : bs[0]? = some 0x00 := hzeros (congrArg some hmarker)
          cases bs with
          | nil => cases hsecond
          | cons flag bs =>
              obtain rfl := Option.some.inj hsecond
              rw [hmarker]
              rfl
      · rfl

/-- Marker and flag are read if they are there. They are found missing if there is something else
than a zero, or one that is followed by another. -/
theorem segwitMarker_ok_iff {segwit : Bool} {bs rest : Bytes} :
    segwitMarker bs = .ok segwit rest ↔ bs = (if segwit then [0x00, 0x01] else []) ++ rest ∧
      (segwit = false → rest ≠ [] ∧ (rest[0]? = some 0x00 → rest[1]? = some 0x00)) := by
  constructor
  · intro h
    cases segwit with
    | true =>
        exact ⟨segwitMarker_eq_true h, fun hfalse ↦ nomatch hfalse⟩
    | false =>
        obtain ⟨rfl, hzeros⟩ := segwitMarker_eq_false h
        refine ⟨rfl, fun _ ↦ ⟨?_, hzeros⟩⟩
        rintro rfl
        cases h
  · rintro ⟨rfl, hunmarked⟩
    cases segwit with
    | true => rfl
    | false =>
        obtain ⟨hne, hzeros⟩ := hunmarked rfl
        exact segwitMarker_of_zeros hne hzeros

/-- A row in front of a count begins with a zero that is followed by something else only if the
row is counted by a single zero byte and the count is not. -/
theorem zeros_iff {σ : Type} (bytes : σ → Bytes) (row : RowSpelling σ) (count : SizeSpelling)
    (tail : Bytes) :
    ((row.count.bytes ++ ((row.elements.map bytes).flatten ++ (count.bytes ++ tail)))[0]? =
        some 0x00 →
      (row.count.bytes ++ ((row.elements.map bytes).flatten ++ (count.bytes ++ tail)))[1]? =
        some 0x00) ↔ (row.count.bytes = [0x00] → count.bytes = [0x00]) := by
  have hnone (hvalue : row.count.value = 0) : row.elements = [] :=
    List.length_eq_zero_iff.mp (row.length_elements.trans hvalue)
  constructor
  · intro hzeros hcount
    have hhead : (row.count.bytes ++ ((row.elements.map bytes).flatten ++
        (count.bytes ++ tail)))[0]? = some 0x00 := by
      rw [hcount]
      rfl
    have hsecond := hzeros hhead
    rw [hcount, hnone (SizeSpelling.eq_zero_of_head hhead).2] at hsecond
    exact (SizeSpelling.eq_zero_of_head hsecond).1
  · intro hzeros hhead
    obtain ⟨hcount, hvalue⟩ := SizeSpelling.eq_zero_of_head hhead
    rw [hcount, hnone hvalue, hzeros hcount]
    rfl

/-- Marker and flag, or that there are none, are read from a spelling. -/
theorem segwitMarker_bytes (s : Spelling) (rest : Bytes) :
    segwitMarker ((if s.segwit then [0x00, 0x01] else []) ++ (s.bodyBytes ++ rest)) =
      .ok s.segwit (s.bodyBytes ++ rest) := by
  refine segwitMarker_ok_iff.mpr ⟨rfl, fun hsegwit ↦ ?_⟩
  simp only [bodyBytes, RowSpelling.bytes, List.append_assoc]
  refine ⟨List.append_ne_nil_of_left_ne_nil s.inputs.count.bytes_ne_nil _, ?_⟩
  exact (zeros_iff _ s.inputs s.outputs.count _).mpr (s.unmarked hsegwit)

/-- The fields of a transaction are read from its spellings. -/
theorem restores (disassembled : Bool) (s : Spelling) :
    Restores (fieldsReader disassembled) s.bytes (s.value disassembled) := by
  intro rest
  simp only [bytes, List.append_assoc]
  refine bind_ok.mpr ⟨_, _, restores_littleInt (by decide) (by decide) s.version_fits _ _, ?_⟩
  refine bind_ok.mpr ⟨_, _, s.segwitMarker_bytes rest, ?_⟩
  simp only [bodyBytes, RowSpelling.bytes, List.append_assoc]
  refine bind_ok.mpr ⟨_, _, s.inputs.count.restores _, ?_⟩
  refine bind_ok.mpr ⟨_, _, (spells_many (TxInput.Spelling.spells disassembled)).mpr
    ⟨s.inputs.elements, s.inputs.length_elements, rfl, rfl⟩, ?_⟩
  refine bind_ok.mpr ⟨_, _, s.outputs.count.restores _, ?_⟩
  refine bind_ok.mpr ⟨_, _, (spells_many TxOutput.Spelling.spells).mpr
    ⟨s.outputs.elements, s.outputs.length_elements, rfl, rfl⟩, ?_⟩
  refine bind_ok.mpr ⟨_, _, witnessReader_ok_iff.mpr ⟨s.witness, s.length_witness, rfl, rfl⟩, ?_⟩
  exact bind_ok.mpr ⟨_, _, restores_littleInt (by decide) (by decide) s.lockTime_fits _ _, rfl⟩

/-- The fields of a transaction are read from nothing but its spellings. -/
theorem exists_of_fieldsReader {disassembled : Bool} {bs rest : Bytes} {tx : Transaction}
    (h : fieldsReader disassembled bs = .ok tx rest) :
    ∃ s : Spelling, s.value disassembled = tx ∧ bs = s.bytes ++ rest := by
  obtain ⟨version, more, hversion, h⟩ := bind_ok.mp h
  obtain ⟨segwit, behindMarker, hmarker, h⟩ := bind_ok.mp h
  obtain ⟨inputCount, more, hinputCount, h⟩ := bind_ok.mp h
  obtain ⟨inputs, more, hinputs, h⟩ := bind_ok.mp h
  obtain ⟨outputCount, more, houtputCount, h⟩ := bind_ok.mp h
  obtain ⟨outputs, more, houtputs, h⟩ := bind_ok.mp h
  obtain ⟨witness, more, hwitness, h⟩ := bind_ok.mp h
  obtain ⟨lockTime, more, hlockTime, h⟩ := bind_ok.mp h
  cases h
  obtain ⟨hversionFits, rfl⟩ := (littleInt_ok_iff (by decide) (by decide)).mp hversion
  obtain ⟨rfl, hunmarked⟩ := segwitMarker_ok_iff.mp hmarker
  obtain ⟨inputCount, rfl, rfl⟩ := spells_compactSize.exists_of_ok hinputCount
  obtain ⟨inputs, hinputLength, rfl, rfl⟩ := (spells_many (TxInput.Spelling.spells _)).mp hinputs
  obtain ⟨outputCount, rfl, rfl⟩ := spells_compactSize.exists_of_ok houtputCount
  obtain ⟨outputs, houtputLength, rfl, rfl⟩ := (spells_many TxOutput.Spelling.spells).mp houtputs
  obtain ⟨witness, hwitnessLength, rfl, rfl⟩ := witnessReader_ok_iff.mp hwitness
  obtain ⟨hlockTimeFits, rfl⟩ := (littleInt_ok_iff (by decide) (by decide)).mp hlockTime
  refine ⟨{
    version, segwit, lockTime, witness
    inputs := ⟨inputCount, inputs, hinputLength⟩
    outputs := ⟨outputCount, outputs, houtputLength⟩
    version_fits := hversionFits
    lockTime_fits := hlockTimeFits
    length_witness := hwitnessLength
    unmarked := fun hsegwit ↦ ?_ }, rfl, ?_⟩
  · exact (zeros_iff _ ⟨inputCount, inputs, hinputLength⟩ outputCount _).mp (hunmarked hsegwit).2
  · simp only [bytes, bodyBytes, RowSpelling.bytes, List.append_assoc]

/-- The fields of a transaction are read exactly from its spellings. -/
theorem spells (disassembled : Bool) :
    Spells (fieldsReader disassembled) bytes (value disassembled) :=
  ⟨restores disassembled, exists_of_fieldsReader⟩

/-- A transaction shows where it ends. -/
theorem delimits : Delimits bytes := by
  intro s s' rest rest' h
  simp only [bytes, List.append_assoc] at h
  obtain ⟨hversion, h⟩ :=
    ofIntLE_append_inj (by decide) (by decide) s.version_fits s'.version_fits h
  have hmarker := s.segwitMarker_bytes rest
  rw [h, s'.segwitMarker_bytes rest'] at hmarker
  injection hmarker with hsegwit h
  simp only [bodyBytes, List.append_assoc] at h
  obtain ⟨hinputs, h⟩ := TxInput.Spelling.delimits.row h.symm
  obtain ⟨houtputs, h⟩ := TxOutput.Spelling.delimits.row h
  obtain ⟨hwitness, h⟩ := Witness.Spelling.delimits.flatten_map
    (by rw [s.length_witness, s'.length_witness, hsegwit, hinputs]) h
  obtain ⟨hlockTime, hrest⟩ :=
    ofIntLE_append_inj (by decide) (by decide) s.lockTime_fits s'.lockTime_fits h
  exact ⟨Spelling.ext hversion hsegwit.symm hinputs houtputs hwitness hlockTime, hrest⟩

/-- A transaction is spelled in the shortest way if each of its parts is. -/
theorem shortest_iff (s : Spelling) :
    s.Shortest ↔ (s.inputs.count.Shortest ∧ ∀ i ∈ s.inputs.elements, i.unlocking.size.Shortest) ∧
      (s.outputs.count.Shortest ∧ ∀ o ∈ s.outputs.elements, o.locking.size.Shortest) ∧
        ∀ w ∈ s.witness, ∀ size ∈ Witness.Spelling.sizes w, size.Shortest := by
  simp only [Shortest, sizes, List.forall_mem_append, List.forall_mem_cons, List.forall_mem_map,
    List.forall_mem_flatMap, and_assoc]

/-- There is one spelled witness to each input, or none in the form without witnesses. -/
theorem value_witness (disassembled : Bool) (s : Spelling) :
    (if s.segwit then ((s.value disassembled).witness.map Witness.wire).flatten else []) =
      (s.witness.map fun w ↦ w.value.wire).flatten := by
  have hlength := s.length_witness
  cases hsegwit : s.segwit with
  | true =>
      rw [hsegwit, if_pos rfl, ← s.inputs.length_elements] at hlength
      rw [if_pos rfl, value, ofFields]
      dsimp only
      rw [List.length_map, List.length_map, hlength, Nat.sub_self, List.replicate_zero,
        List.append_nil, List.map_map]
      rfl
  | false =>
      rw [hsegwit, if_neg Bool.false_ne_true] at hlength
      rw [if_neg Bool.false_ne_true, List.length_eq_zero_iff.mp hlength]
      rfl

/-- What is written of a transaction that is spelled differs in its counts and lengths only. -/
theorem saves (disassembled : Bool) (s : Spelling) :
    Saves ((s.value disassembled).wire true) s.bytes s.Shortest := by
  have hinputs := RowSpelling.saves (TxInput.Spelling.saves disassembled) s.inputs
  have houtputs := RowSpelling.saves TxOutput.Spelling.saves s.outputs
  have hwitness := Saves.flatten_map Witness.Spelling.saves s.witness
  have hsaves := (Saves.refl (Bytes.ofIntLE 4 s.version)).append
    ((Saves.refl (if s.segwit then [0x00, 0x01] else [])).append
      (hinputs.append (houtputs.append (hwitness.append (.refl (Bytes.ofIntLE 4 s.lockTime))))))
  have hwire : (s.value disassembled).wire true = Bytes.ofIntLE 4 s.version ++
      ((if s.segwit then [0x00, 0x01] else []) ++
        (counted (s.inputs.elements.map fun i ↦ (i.value disassembled).wire) ++
          (counted (s.outputs.elements.map fun o ↦ o.value.wire) ++
            ((s.witness.map fun w ↦ w.value.wire).flatten ++ Bytes.ofIntLE 4 s.lockTime)))) := by
    rw [← s.value_witness disassembled, wire]
    simp only [List.append_assoc, Bool.and_true, value, ofFields, List.map_map]
    rfl
  rw [hwire]
  refine hsaves.congr ?_
  rw [shortest_iff]
  simp only [true_and, and_true]

end Spelling

/-! ## The main results -/

/-- The bytes that are read as a transaction are its spellings. -/
theorem decode_ok_iff {disassembled : Bool} {bs : Bytes} {tx : Transaction} :
    decode disassembled bs = .ok tx ↔
      ∃ s : Spelling, s.value disassembled = tx ∧ bs = s.bytes := by
  rw [decode_ok_iff_fieldsReader, (Spelling.spells disassembled).ok_iff]
  simp only [List.append_nil]

/-- A transaction that was read from some bytes is their only spelling. It is written in the same
bytes if each count and each length in them was in its shortest form, and else in fewer bytes. -/
theorem encode_decoded {disassembled : Bool} {bs : Bytes} {tx : Transaction}
    (h : decode disassembled bs = .ok tx) :
    ∃ s : Spelling, (s.value disassembled = tx ∧ bs = s.bytes) ∧
      (∀ s' : Spelling, bs = s'.bytes → s' = s) ∧
      ∃ bs', tx.encode true = .ok bs' ∧
        (bs' = bs ↔ ∀ size ∈ s.sizes, size.Shortest) ∧
        ((∃ size ∈ s.sizes, ¬ size.Shortest) → bs'.length < bs.length) := by
  obtain ⟨s, rfl, rfl⟩ := decode_ok_iff.mp h
  have hsaves := s.saves disassembled
  refine ⟨s, ⟨rfl, rfl⟩, fun s' heq ↦ (Spelling.delimits.injective heq).symm, ?_⟩
  refine ⟨_, encode_eq true (asRead_of_decode h).encodable, hsaves.eq_iff, ?_⟩
  rintro ⟨size, hsize, hlonger⟩
  exact hsaves.length_lt fun hshortest ↦ hlonger (hshortest size hsize)

/-- A transaction whose number of inputs was read from three bytes is written in fewer bytes. -/
theorem encode_decoded_oneSpend :
    decode true longInputCount = .ok oneSpend ∧
      ∃ s : Spelling, longInputCount = s.bytes ∧ (∃ size ∈ s.sizes, ¬ size.Shortest) ∧
        ∃ bs, oneSpend.encode true = .ok bs ∧ bs.length < longInputCount.length := by
  have hread : decode true longInputCount = .ok oneSpend := rfl
  obtain ⟨s, ⟨-, hbytes⟩, -, bs, hencode, hsame, hlt⟩ := encode_decoded hread
  have hlonger : ∃ size ∈ s.sizes, ¬ size.Shortest := by
    by_contra hnone
    have heq : bs = longInputCount := hsame.mpr fun size hsize ↦
      Classical.not_not.mp fun hsize' ↦ hnone ⟨size, hsize, hsize'⟩
    rw [heq] at hencode
    cases hencode
  exact ⟨hread, s, hbytes, hlonger, bs, hencode, hlt hlonger⟩

end Transaction

end BitcoinSpend
