import BitcoinSpend.Proofs.Transaction.Spelling
import BitcoinSpend.Proofs.Wire.Failure
import BitcoinSpend.Transaction.Element

/-!
# Malformed elements

Bytes that are no element of a kind are refused, and the refusals that are documented are those of
too few bytes, of bytes behind a transaction and of an unsupported flag. There is one more: a
script or a witness item can declare a length that no read can ask for. `Element.Kind.Overlong`
says in terms of the bytes where a reader meets such a length; the main result is
`Element.decode_documented_iff`.
-/

namespace BitcoinSpend

open Wire

/-! ## Inputs, outputs and witnesses -/

/-- Whether the script of an input, behind 36 bytes, declares a length that no read can ask for. -/
def TxInput.Overlong (bs : Bytes) : Prop :=
  OverlongString (bs.drop 36)

/-- An input stops its reader at the length of its script. -/
theorem TxInput.oversized_iff (disassembled : Bool) (bs : Bytes) :
    Oversized (reader disassembled) bs ↔ Overlong bs := by
  have hscript (txid : Bytes) (vout : Int) (rest : Bytes) :
      Oversized (do
        let unlocking ← lengthPrefixed (some "scriptsig")
        let sequence ← littleInt false 4 (some "sequence")
        return ofFields txid.reverse vout unlocking sequence disassembled) rest ↔
        OverlongString rest :=
    (oversized_bind_left fun unlocking ↦
      ((fixedWidth_littleInt false 4 (by decide) _).map _).fails.ne_oversize.not_oversized).trans
        oversized_lengthPrefixed
  have hvout (txid : Bytes) (rest : Bytes) :=
    (fixedWidth_littleInt false 4 (by decide) (some "vout")).oversized_bind (hscript txid)
      not_overlongString_nil rest
  have htxid := (fixedWidth_take 32 (by decide) (some "txid")).oversized_bind hvout
    not_overlongString_nil bs
  rwa [List.drop_drop] at htxid

/-- An input is missing in part, or its script is overlong. -/
theorem TxInput.fails (disassembled : Bool) : Fails (reader disassembled) ReadError.IsSized :=
  (fails_take 32 _).bind fun _ ↦ (fails_littleInt false 4 _).bind fun _ ↦
    (fails_lengthPrefixed _).bind fun _ ↦ (fails_littleInt false 4 _).bind fun _ ↦ .pure _ _

/-- Whether the script of an output, behind eight bytes, declares a length that no read can ask
for. -/
def TxOutput.Overlong (bs : Bytes) : Prop :=
  OverlongString (bs.drop 8)

/-- An output stops its reader at the length of its script. -/
theorem TxOutput.oversized_iff (bs : Bytes) : Oversized reader bs ↔ Overlong bs := by
  have hscript (amount : Int) (rest : Bytes) :
      Oversized (do
        let locking ← lengthPrefixed (some "scriptpubkey")
        return (⟨amount, locking⟩ : TxOutput)) rest ↔ OverlongString rest :=
    (oversized_bind_left fun locking ↦ not_oversized_pure _).trans oversized_lengthPrefixed
  exact (fixedWidth_littleInt true 8 (by decide) (some "amount")).oversized_bind hscript
    not_overlongString_nil bs

/-- An output is missing in part, or its script is overlong. -/
theorem TxOutput.fails : Fails reader ReadError.IsSized :=
  (fails_littleInt true 8 _).bind fun _ ↦ (fails_lengthPrefixed _).bind fun _ ↦ .pure _ _

/-- Whether an item of a witness, behind complete ones, declares a length that no read can ask
for. -/
def Witness.Overlong (bs : Bytes) : Prop :=
  OverlongRow StringSpelling.bytes OverlongString bs

/-- A witness stops its reader at the length of an item. -/
theorem Witness.oversized_iff (bs : Bytes) : Oversized reader bs ↔ Overlong bs := by
  have hrow := (spells_lengthPrefixed (some "witness item")).oversized_row
    (fun _ ↦ oversized_lengthPrefixed) (fun _ items ↦ pure items) bs
  simp only [bind_pure] at hrow
  refine hrow.trans (or_iff_left ?_)
  rintro ⟨row, rest, -, hoversized⟩
  exact not_oversized_pure _ rest hoversized

/-- A witness is missing in part, or one of its items is overlong. -/
theorem Witness.fails : Fails reader ReadError.IsSized :=
  (fails_compactSize.mono fun _ ↦ .inl).bind fun count ↦ (fails_lengthPrefixed _).many count

/-! ## Transactions -/

namespace Transaction

/-- What stands behind the marker of a transaction if it declares a length that no read can ask
for: in an input, in an output behind all inputs, or in a witness behind all outputs. -/
inductive OverlongBody : Bool → Bytes → Prop where
  | input (segwit : Bool) (rest : Bytes) :
      OverlongRow TxInput.Spelling.bytes TxInput.Overlong rest → OverlongBody segwit rest
  | output (segwit : Bool) (inputs : RowSpelling TxInput.Spelling) (rest : Bytes) :
      OverlongRow TxOutput.Spelling.bytes TxOutput.Overlong rest →
      OverlongBody segwit (inputs.bytes TxInput.Spelling.bytes ++ rest)
  | witness (inputs : RowSpelling TxInput.Spelling) (outputs : RowSpelling TxOutput.Spelling)
      (ws : List Witness.Spelling) (rest : Bytes) :
      ws.length < inputs.count.value → Witness.Overlong rest →
      OverlongBody true (inputs.bytes TxInput.Spelling.bytes ++
        (outputs.bytes TxOutput.Spelling.bytes ++
          ((ws.map Witness.Spelling.bytes).flatten ++ rest)))

/-- The witnesses of a transaction stop their reader in one that is still expected. -/
theorem oversized_witnessReader {segwit : Bool} {count : Nat} {bs : Bytes} :
    Oversized (witnessReader segwit count) bs ↔
      segwit = true ∧ ∃ (ws : List Witness.Spelling) (rest : Bytes), ws.length < count ∧
        bs = (ws.map Witness.Spelling.bytes).flatten ++ rest ∧ Witness.Overlong rest := by
  cases segwit with
  | true =>
      refine Iff.trans ?_ (and_iff_right rfl).symm
      simp only [← Witness.oversized_iff]
      exact Witness.Spelling.spells.oversized_many
  | false =>
      exact iff_of_false (not_oversized_pure [] bs) fun h ↦ Bool.false_ne_true h.1

/-- The reader of a transaction behind its outputs. -/
def endReader (version : Int) (segwit : Bool) (inputCount : Nat) (inputs : List TxInput)
    (outputs : List TxOutput) : Reader Transaction := do
  let witness ← witnessReader segwit inputCount
  let lockTime ← littleInt false 4 (some "locktime")
  atEnd
  return ofFields inputs outputs witness lockTime version (some segwit)

/-- The reader of a transaction behind the marker reads the inputs, the outputs and the end. -/
theorem bodyReader_eq_endReader (disassembled : Bool) (version : Int) (segwit : Bool) :
    bodyReader disassembled version segwit = (do
      let inputCount ← compactSize
      let inputs ← many (TxInput.reader disassembled) inputCount
      let outputCount ← compactSize
      let outputs ← many TxOutput.reader outputCount
      endReader version segwit inputCount inputs outputs) := by
  cases segwit <;> rfl

/-- Behind its outputs a transaction stops its reader in a witness only. -/
theorem oversized_endReader {version : Int} {segwit : Bool} {inputCount : Nat}
    {inputs : List TxInput} {outputs : List TxOutput} {bs : Bytes} :
    Oversized (endReader version segwit inputCount inputs outputs) bs ↔
      Oversized (witnessReader segwit inputCount) bs := by
  refine oversized_bind_left fun witness ↦ Fails.not_oversized ?_
  have hlockTime := (fixedWidth_littleInt false 4 (by decide) (some "locktime")).fails
  exact hlockTime.ne_oversize.bind fun _ ↦ fails_atEnd.bind fun _ ↦ .pure _ _

/-- A transaction stops its reader behind the marker where it declares such a length. -/
theorem oversized_bodyReader (disassembled : Bool) (version : Int) (segwit : Bool) (bs : Bytes) :
    Oversized (bodyReader disassembled version segwit) bs ↔ OverlongBody segwit bs := by
  rw [bodyReader_eq_endReader,
    (TxInput.Spelling.spells disassembled).oversized_row (TxInput.oversized_iff disassembled)]
  simp only [TxOutput.Spelling.spells.oversized_row TxOutput.oversized_iff, oversized_endReader,
    oversized_witnessReader]
  constructor
  · rintro (hinput | ⟨inputs, rest, rfl, houtput | ⟨outputs, more, rfl, hwitness⟩⟩)
    · exact .input segwit bs hinput
    · exact .output segwit inputs rest houtput
    · obtain ⟨rfl, ws, last, hlt, rfl, hitem⟩ := hwitness
      exact .witness inputs outputs ws last hlt hitem
  · rintro (⟨_, _, hinput⟩ | ⟨_, inputs, rest, houtput⟩ | ⟨inputs, outputs, ws, last, hlt, hitem⟩)
    · exact .inl hinput
    · exact .inr ⟨inputs, rest, rfl, .inl houtput⟩
    · exact .inr ⟨inputs, _, rfl, .inr ⟨outputs, _, rfl, rfl, ws, last, hlt, rfl, hitem⟩⟩

/-- Without a marker, what stands behind its place and is overlong does not begin with a zero
byte. -/
theorem OverlongBody.head_ne_zero {bs : Bytes} (h : OverlongBody false bs)
    (hzeros : bs[0]? = some 0x00 → bs[1]? = some 0x00) : bs[0]? ≠ some 0x00 := by
  cases h with
  | input _ _ hinput => exact hinput.head_ne_zero
  | output _ inputs rest houtput =>
      intro hhead
      have hsecond := hzeros hhead
      rw [RowSpelling.bytes, List.append_assoc] at hhead hsecond
      obtain ⟨hcount, hvalue⟩ := SizeSpelling.eq_zero_of_head hhead
      rw [hcount, List.length_eq_zero_iff.mp (inputs.length_elements.trans hvalue)] at hsecond
      exact houtput.head_ne_zero hsecond

/-- What stands behind the version if it declares such a length: behind marker and flag, or where
something else than the zero byte is found in the marker's place. -/
def OverlongMarked (bs : Bytes) : Prop :=
  ∃ (segwit : Bool) (rest : Bytes), bs = (if segwit then [0x00, 0x01] else []) ++ rest ∧
    (segwit = false → rest[0]? ≠ some 0x00) ∧ OverlongBody segwit rest

/-- Whether a transaction declares a length that no read can ask for. -/
def Overlong (bs : Bytes) : Prop :=
  OverlongMarked (bs.drop 4)

/-- Looking for the marker never stops at a length. -/
theorem fails_segwitMarker : Fails segwitMarker (· ≠ .oversize) := by
  rintro bs _ rest h rfl
  rw [segwitMarker.eq_def] at h
  split at h
  · cases h
  · split at h
    · split at h
      · cases h
      · split at h
        · cases h
        · split at h <;> cases h
    · cases h

/-- A transaction stops its reader behind the version where it declares such a length. -/
theorem oversized_marked (disassembled : Bool) (version : Int) (bs : Bytes) :
    Oversized (do
      let segwit ← segwitMarker
      bodyReader disassembled version segwit) bs ↔ OverlongMarked bs := by
  rw [oversized_bind, or_iff_right (fails_segwitMarker.not_oversized bs)]
  simp only [oversized_bodyReader]
  constructor
  · rintro ⟨segwit, rest, hmarker, hbody⟩
    obtain ⟨rfl, hunmarked⟩ := Spelling.segwitMarker_ok_iff.mp hmarker
    refine ⟨segwit, rest, rfl, ?_, hbody⟩
    rintro rfl
    exact hbody.head_ne_zero (hunmarked rfl).2
  · rintro ⟨segwit, rest, rfl, hhead, hbody⟩
    have hne : rest ≠ [] := by
      rintro rfl
      obtain ⟨left, h⟩ := (oversized_bodyReader disassembled version segwit []).mpr hbody
      cases h
    exact ⟨segwit, rest, Spelling.segwitMarker_ok_iff.mpr
      ⟨rfl, fun hsegwit ↦ ⟨hne, fun hzero ↦ absurd hzero (hhead hsegwit)⟩⟩, hbody⟩

/-- A transaction stops its reader where it declares such a length. -/
theorem oversized_iff (disassembled : Bool) (bs : Bytes) :
    Oversized (reader disassembled) bs ↔ Overlong bs := by
  rw [reader_eq]
  have hnil : ¬ OverlongMarked [] := fun hmarked ↦ by
    obtain ⟨left, h⟩ := (oversized_marked disassembled 0 []).mpr hmarked
    cases h
  exact (fixedWidth_littleInt true 4 (by decide) _).oversized_bind
    (oversized_marked disassembled) hnil bs

end Transaction

/-! ## The main results -/

/-- Rows of inputs, outputs, witnesses and items are given up within the bytes, whatever number of
elements is declared. -/
theorem Transaction.rows_giveUp (disassembled : Bool) :
    GivesUp (TxInput.reader disassembled) ∧ GivesUp TxOutput.reader ∧ GivesUp Witness.reader ∧
      ∀ what, GivesUp (lengthPrefixed what) := by
  have hinput : Consumes (TxInput.reader disassembled) :=
    (TxInput.Spelling.spells disassembled).consumes fun s ↦ List.append_ne_nil_of_right_ne_nil _
      (ofIntLE_append_ne_nil (by decide) s.vout _)
  have houtput : Consumes TxOutput.reader :=
    TxOutput.Spelling.spells.consumes fun s ↦ ofIntLE_append_ne_nil (by decide) s.amount _
  have hwitness : Consumes Witness.reader :=
    Witness.Spelling.spells.consumes fun s ↦
      List.append_ne_nil_of_left_ne_nil s.count.bytes_ne_nil _
  have hitem (what : Option String) : Consumes (lengthPrefixed what) :=
    (spells_lengthPrefixed what).consumes fun s ↦
      List.append_ne_nil_of_left_ne_nil s.size.bytes_ne_nil _
  exact ⟨hinput.givesUp, houtput.givesUp, hwitness.givesUp, fun what ↦ (hitem what).givesUp⟩

namespace Element

/-- The refusals that are documented for bytes that are no element of a kind. A flag is looked for
in transactions only. -/
def Kind.Documents (kind : Kind) : ReadError → Prop
  | .insufficient _ => True
  | .trailingData => True
  | .unsupportedFlag _ => kind = .transaction
  | .oversize => False

/-- Whether bytes declare, for an element of a kind, a length that no read can ask for. -/
def Kind.Overlong : Kind → Bytes → Prop
  | .input => TxInput.Overlong
  | .output => TxOutput.Overlong
  | .witness => Witness.Overlong
  | .transaction => Transaction.Overlong

/-- The reader of a kind of elements, with or without the text forms of unlocking scripts. -/
def readerOf (disassembled : Bool) : Kind → Reader Element
  | .input => return .input (← TxInput.reader disassembled)
  | .output => return .output (← TxOutput.reader)
  | .witness => return .witness (← Witness.reader)
  | .transaction => return .transaction (← Transaction.reader disassembled)

/-- An element stops its reader where it declares a length that no read can ask for. -/
theorem oversized_iff (disassembled : Bool) (kind : Kind) (bs : Bytes) :
    Oversized (readerOf disassembled kind) bs ↔ kind.Overlong bs := by
  have hpure {α : Type} (f : α → Element) (r : Reader α) :
      Oversized (do return f (← r)) bs ↔ Oversized r bs :=
    oversized_bind_left fun a ↦ not_oversized_pure _
  cases kind with
  | input => exact (hpure .input _).trans (TxInput.oversized_iff disassembled bs)
  | output => exact (hpure .output _).trans (TxOutput.oversized_iff bs)
  | witness => exact (hpure .witness _).trans (Witness.oversized_iff bs)
  | transaction => exact (hpure .transaction _).trans (Transaction.oversized_iff disassembled bs)

/-- A reader of elements stops at a length, or with a refusal that is documented. -/
theorem fails_readerOf (disassembled : Bool) (kind : Kind) :
    Fails (readerOf disassembled kind) fun e ↦ e = .oversize ∨ kind.Documents e := by
  have hpart (part : Kind) (e : ReadError) (h : e.IsSized) : e = .oversize ∨ part.Documents e := by
    obtain ⟨what, rfl⟩ | rfl := h
    · exact .inr trivial
    · exact .inl rfl
  cases kind with
  | input => exact ((TxInput.fails disassembled).mono (hpart .input)).bind fun _ ↦ .pure _ _
  | output => exact (TxOutput.fails.mono (hpart .output)).bind fun _ ↦ .pure _ _
  | witness => exact (Witness.fails.mono (hpart .witness)).bind fun _ ↦ .pure _ _
  | transaction =>
      -- Every error but one is documented for transactions, so none has to be traced.
      rintro bs (what | _ | _ | flag) rest -
      · exact .inr trivial
      · exact .inl rfl
      · exact .inr trivial
      · exact .inr rfl

/-- Any bytes are read as an element of a kind or refused for a documented reason, unless they
declare a length that no read can ask for. Then the reader stops there, with an error that is not
documented. Numbers of elements that are declared make no difference: a row is given up within the
bytes that there are. -/
theorem decode_documented_iff (disassembled : Bool) (kind : Kind) (bs : Bytes) :
    (((∃ e, (readerOf disassembled kind).decode bs = .ok e) ∨
        ∃ e, (readerOf disassembled kind).decode bs = .error e ∧ kind.Documents e) ↔
      ¬ kind.Overlong bs) ∧
    (kind.Overlong bs → (readerOf disassembled kind).decode bs = .error .oversize) ∧
    GivesUp (TxInput.reader disassembled) ∧ GivesUp TxOutput.reader ∧ GivesUp Witness.reader ∧
      ∀ what, GivesUp (lengthPrefixed what) := by
  have hoversize (h : kind.Overlong bs) :
      (readerOf disassembled kind).decode bs = .error .oversize := by
    obtain ⟨rest, hread⟩ := (oversized_iff disassembled kind bs).mpr h
    exact decode_of_error hread
  refine ⟨⟨?_, fun hshort ↦ ?_⟩, hoversize, Transaction.rows_giveUp disassembled⟩
  · rintro (⟨e, hread⟩ | ⟨e, hread, hdocumented⟩) hoverlong
    · rw [hoversize hoverlong] at hread
      cases hread
    · rw [hoversize hoverlong] at hread
      cases hread
      exact hdocumented
  · cases hread : readerOf disassembled kind bs with
    | ok e rest => exact .inl ⟨e, decode_of_ok hread⟩
    | error e rest =>
        refine .inr ⟨e, decode_of_error hread, ?_⟩
        refine (fails_readerOf disassembled kind bs e rest hread).resolve_left ?_
        rintro rfl
        exact hshort ((oversized_iff disassembled kind bs).mp ⟨rest, hread⟩)

/-- The bytes of a transaction whose first input declares a script of `2⁶⁴ - 1` bytes. -/
def overlongScript : Bytes :=
  [0x01, 0x00, 0x00, 0x00, 0x01] ++ List.replicate 36 0x00 ++ List.replicate 9 0xff

/-- A script whose declared length cannot be asked for is not refused as documented. -/
theorem overlongScript_undocumented :
    (readerOf true .transaction).decode overlongScript = .error .oversize ∧
      ¬ ∀ bs, (∃ e, (readerOf true .transaction).decode bs = .ok e) ∨
        ∃ e, (readerOf true .transaction).decode bs = .error e ∧ Kind.transaction.Documents e := by
  have hread : (readerOf true .transaction).decode overlongScript = .error .oversize := rfl
  refine ⟨hread, fun hall ↦ ?_⟩
  obtain ⟨e, h⟩ | ⟨e, h, hdocumented⟩ := hall overlongScript
  · rw [hread] at h
    cases h
  · rw [hread] at h
    cases h
    exact hdocumented

end Element

end BitcoinSpend
