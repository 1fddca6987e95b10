import BitcoinSpend.Proofs.Transaction.RoundTrip

/-!
# Writing a transaction that was read

A transaction that was read is written in the shortest form and read again. It comes back as it was,
with one exception: where an input count of zero stands in a longer form before outputs, the shortest
form is the marker of the segwit form. Read `segwitMarker_zero` first; the main result is
`decode_reencoded_iff`.
-/

namespace BitcoinSpend.Transaction

open Wire

/-! ## The marker -/

/-- A zero before a byte that is not zero is never taken for an input count. -/
theorem segwitMarker_zero {flag : UInt8} (hflag : flag ≠ 0x00) (rest : Bytes) :
    segwitMarker (0x00 :: flag :: rest) =
      if flag = 0x01 then .ok true rest else .error (.unsupportedFlag flag) rest := by
  rw [segwitMarker.eq_def]
  simp only [if_true, if_neg hflag]

/-- Where no marker is found nothing is consumed, and a zero in front is followed by another. -/
theorem segwitMarker_eq_false {bs rest : Bytes} (h : segwitMarker bs = .ok false rest) :
    rest = bs ∧ (bs[0]? = some 0x00 → bs[1]? = some 0x00) := by
  rw [segwitMarker.eq_def] at h
  cases bs with
  | nil => cases h
  | cons marker bs =>
      dsimp only at h
      split at h
      · cases bs with
        | nil => cases h
        | cons flag bs =>
            dsimp only at h
            split at h
            · cases h
            · split at h
              · next hflag =>
                  cases h
                  exact ⟨rfl, fun _ ↦ congrArg some hflag⟩
              · cases h
      · next hmarker =>
          cases h
          exact ⟨rfl, fun hzero ↦ absurd (Option.some.inj hzero) hmarker⟩

/-- The counts that are read behind the marker are those of the inputs and of the outputs, and the
form is the one that the marker says. -/
theorem counts_of_bodyReader {disassembled : Bool} {version : Int} {segwit : Bool}
    {bs rest : Bytes} {tx : Transaction}
    (h : bodyReader disassembled version segwit bs = .ok tx rest) :
    tx.segwit = segwit ∧ ∃ behindCount behindInputs behindOutputCount,
      compactSize bs = .ok tx.inputs.length behindCount ∧
      many (TxInput.reader disassembled) tx.inputs.length behindCount =
        .ok tx.inputs behindInputs ∧
      compactSize behindInputs = .ok tx.outputs.length behindOutputCount := by
  obtain ⟨inputCount, behindCount, hinputCount, h⟩ := bind_ok.mp h
  obtain ⟨inputs, behindInputs, hinputs, h⟩ := bind_ok.mp h
  obtain ⟨outputCount, behindOutputCount, houtputCount, h⟩ := bind_ok.mp h
  obtain ⟨outputs, behindOutputs, houtputs, h⟩ := bind_ok.mp h
  have hinputLength := (yields_many (Yields.any _) inputCount _ _ _ hinputs).1
  have houtputLength := (yields_many (Yields.any _) outputCount _ _ _ houtputs).1
  have hlast {witness : List Witness} {bs : Bytes}
      (h : (do
        let lockTime ← littleInt false 4 (some "locktime")
        atEnd
        return ofFields inputs outputs witness lockTime version (some segwit) : Reader _) bs =
          .ok tx rest) :
      tx.segwit = segwit ∧ tx.inputs = inputs ∧ tx.outputs = outputs := by
    obtain ⟨lockTime, _, -, h⟩ := bind_ok.mp h
    obtain ⟨_, _, -, h⟩ := bind_ok.mp h
    cases h
    exact ⟨rfl, rfl, rfl⟩
  obtain ⟨hsegwit, rfl, rfl⟩ : tx.segwit = segwit ∧ tx.inputs = inputs ∧ tx.outputs = outputs := by
    cases segwit with
    | true =>
        obtain ⟨witness, _, -, h⟩ := bind_ok.mp h
        exact hlast h
    | false => exact hlast h
  subst hinputLength houtputLength
  exact ⟨hsegwit, behindCount, behindInputs, behindOutputCount, hinputCount, hinputs, houtputCount⟩

/-! ## Reading again -/

/-- The bytes of a transaction without inputs and with outputs, in the form without witnesses, are
read as nothing but a segwit transaction. -/
theorem segwit_of_decode_wire {disassembled : Bool} {tx read : Transaction} (h : tx.Encodable)
    (hsegwit : tx.segwit = false) (hinputs : tx.inputs = []) (houtputs : tx.outputs ≠ [])
    (hread : decode disassembled (tx.wire true) = .ok read) : read.segwit = true := by
  have hversion : Restores (littleInt true 4 (some "version"))
      (Bytes.ofIntLE 4 tx.version) tx.version :=
    restores_littleInt (by decide) (by decide) h.version _
  have hcount : (tx.outputs.map TxOutput.wire).length ≠ 0 := by
    rw [List.length_map]
    exact mt List.length_eq_zero_iff.mp houtputs
  obtain ⟨flag, bs, hbytes, hflag⟩ := compactSizeOf_ne_zero hcount
  have hwire : tx.wire true = Bytes.ofIntLE 4 tx.version ++ 0x00 :: flag ::
      (bs ++ (tx.outputs.map TxOutput.wire).flatten ++ Bytes.ofIntLE 4 tx.lockTime) := by
    rw [wire, hsegwit, hinputs, counted, counted, hbytes]
    simp [compactSizeOf, Bytes.ofNatLE]
  obtain ⟨rest, hread⟩ := exists_of_decode hread
  rw [hwire, reader_eq, hversion.step] at hread
  obtain ⟨segwit, more, hmarker, hbody⟩ := bind_ok.mp hread
  rw [segwitMarker_zero hflag] at hmarker
  split at hmarker
  · cases hmarker
    exact (counts_of_bodyReader hbody).1
  · cases hmarker

/-- If a transaction without inputs and with outputs is read from the form without witnesses, then the
input count of zero stands there in more than one byte. -/
theorem longForm_of_decode {disassembled : Bool} {bs : Bytes} {tx : Transaction}
    (h : decode disassembled bs = .ok tx) (hsegwit : tx.segwit = false) (hinputs : tx.inputs = [])
    (houtputs : tx.outputs ≠ []) : ∃ count, bs[4]? = some count ∧ 0xfd ≤ count := by
  obtain ⟨rest, h⟩ := exists_of_decode h
  rw [reader_eq] at h
  obtain ⟨version, behindVersion, hversion, h⟩ := bind_ok.mp h
  obtain ⟨segwit, behindMarker, hmarker, h⟩ := bind_ok.mp h
  obtain ⟨hform, behindCount, _, _, hinputCount, hmany, houtputCount⟩ :=
    counts_of_bodyReader h
  rw [← hform, hsegwit] at hmarker
  obtain ⟨rfl, hzeros⟩ := segwitMarker_eq_false hmarker
  rw [hinputs] at hinputCount hmany
  cases hmany
  obtain ⟨front, _, hfront, hpure⟩ := bind_ok.mp hversion
  cases hpure
  have hlength : front.length = 4 := by
    have := (yields_take _ _ _ _ _ hfront).1
    omega
  have hplace (k : Nat) : bs[4 + k]? = behindMarker[k]? := by
    rw [← append_eq_of_take hfront, ← hlength, List.getElem?_append_right (by omega),
      Nat.add_sub_cancel_left]
  obtain hcount | ⟨count, hcount, hlong⟩ := compactSize_ok hinputCount
  · -- A zero in one byte is followed by another, and that one counts no outputs.
    rw [hcount] at hzeros
    have hzero : behindCount[0]? = some 0x00 := hzeros rfl
    cases behindCount with
    | nil => cases hzero
    | cons first rest =>
        obtain rfl := Option.some.inj hzero
        injection houtputCount with hnone
        exact absurd (List.length_eq_zero_iff.mp hnone.symm) houtputs
  · exact ⟨count, (hplace 0).trans hcount, hlong⟩

/-! ## The main result -/

/-- A transaction that was read is written, and it comes back as it was unless it has outputs but no
inputs in the form without witnesses. Such a transaction was read from a longer form of its input
count, and its bytes are read as nothing but a segwit transaction. -/
theorem decode_reencoded_iff {disassembled : Bool} {bs : Bytes} {tx : Transaction}
    (h : decode disassembled bs = .ok tx) :
    ∃ bs', tx.encode true = .ok bs' ∧
      (decode disassembled bs' = .ok tx ↔
        tx.segwit = true ∨ tx.inputs ≠ [] ∨ tx.outputs = []) ∧
      (decode disassembled bs' ≠ .ok tx →
        (∃ count, bs[4]? = some count ∧ 0xfd ≤ count) ∧
        ∀ read, decode disassembled bs' = .ok read → read.segwit = true) := by
  have hread := asRead_of_decode h
  have hback (hform : tx.segwit = true ∨ tx.inputs ≠ [] ∨ tx.outputs = []) :
      decode disassembled (tx.wire true) = .ok tx := by
    rw [decode_wire disassembled hread.encodable (fun _ ↦ hread.witnessCount) hform, hread.reread_eq]
  refine ⟨tx.wire true, encode_eq true hread.encodable, ?_⟩
  by_cases hform : tx.segwit = true ∨ tx.inputs ≠ [] ∨ tx.outputs = []
  · exact ⟨iff_of_true (hback hform) hform, fun hother ↦ absurd (hback hform) hother⟩
  · obtain ⟨hsegwit, hinputs, houtputs⟩ :
        tx.segwit = false ∧ tx.inputs = [] ∧ tx.outputs ≠ [] := by
      simpa using hform
    have hagain (read : Transaction) :
        decode disassembled (tx.wire true) = .ok read → read.segwit = true :=
      segwit_of_decode_wire hread.encodable hsegwit hinputs houtputs
    exact ⟨iff_of_false (fun hsame ↦ hform (.inl (hagain tx hsame))) hform,
      fun _ ↦ ⟨longForm_of_decode h hsegwit hinputs houtputs, hagain⟩⟩

/-- The bytes of a transaction with one input, whose number is written in three bytes. -/
def longInputCount : Bytes :=
  [0x02, 0x00, 0x00, 0x00, 0xfd, 0x01, 0x00] ++ List.replicate 36 0x00 ++
    [0x00, 0xff, 0xff, 0xff, 0xff, 0x00, 0x00, 0x00, 0x00, 0x00]

/-- The transaction that `longInputCount` writes. -/
def oneSpend : Transaction :=
  .ofFields [.ofFields (List.replicate 32 0x00) 0 [] TxInput.defaultSequence true] [] [] 0 2
    (some false)

/-- A transaction with one input is written in other bytes than it was read from, and comes back. -/
theorem decode_reencoded_oneSpend :
    decode true longInputCount = .ok oneSpend ∧
      ∃ bs, oneSpend.encode true = .ok bs ∧ decode true bs = .ok oneSpend ∧ bs ≠ longInputCount := by
  have hread : decode true longInputCount = .ok oneSpend := rfl
  obtain ⟨bs, hencode, hback, -⟩ := decode_reencoded_iff hread
  refine ⟨hread, bs, hencode, hback.mpr (.inr (.inl (by decide))), ?_⟩
  rintro rfl
  cases hencode

/-- The bytes of a transaction without inputs and with one output, whose input count is written in
three bytes. -/
def longZeroCount : Bytes :=
  [0x02, 0x00, 0x00, 0x00, 0xfd, 0x00, 0x00, 0x01] ++ List.replicate 13 0x00

/-- The transaction that `longZeroCount` writes. -/
def onlyPays : Transaction :=
  .ofFields [] [⟨0, []⟩] [] 0 2 (some false)

/-- A transaction without inputs and with one output is read, and what it is written as is not. -/
theorem onlyPays_not_reread :
    decode true longZeroCount = .ok onlyPays ∧
      onlyPays.encode true = .ok ([0x02, 0x00, 0x00, 0x00, 0x00, 0x01] ++ List.replicate 13 0x00) ∧
      decode true ([0x02, 0x00, 0x00, 0x00, 0x00, 0x01] ++ List.replicate 13 0x00) =
        .error .trailingData :=
  ⟨rfl, rfl, rfl⟩

end BitcoinSpend.Transaction
