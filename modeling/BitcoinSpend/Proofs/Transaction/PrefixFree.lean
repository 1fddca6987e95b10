import BitcoinSpend.Proofs.Transaction.Reencoding
import BitcoinSpend.Proofs.Wire.Incremental

/-!
# No transaction begins another

The reader of a transaction looks at its bytes from front to back, also where it looks for the
marker, so it notices where they end. Bytes that are read as a transaction are refused with
anything behind them, and each of their beginnings is refused as too short. The main result is
`prefixFree_of_decode`.
-/

namespace BitcoinSpend

open Wire

/-- An input is read from the front. -/
theorem TxInput.incremental (disassembled : Bool) : Incremental (reader disassembled) :=
  (incremental_take 32 _).bind fun _ ↦ (incremental_littleInt false 4 _).bind fun _ ↦
    (incremental_lengthPrefixed _).bind fun _ ↦ (incremental_littleInt false 4 _).bind fun _ ↦
      .pure _

/-- An output is read from the front. -/
theorem TxOutput.incremental : Incremental reader :=
  (incremental_littleInt true 8 _).bind fun _ ↦ (incremental_lengthPrefixed _).bind fun _ ↦ .pure _

/-- A witness is read from the front. -/
theorem Witness.incremental : Incremental reader :=
  incremental_compactSize.bind fun count ↦ (incremental_lengthPrefixed _).many count

namespace Transaction

/-- Marker and flag are looked for at the front, and looking ahead gives up no byte that is not
there. -/
theorem incremental_segwitMarker : Incremental segwitMarker := by
  intro bs more
  rw [segwitMarker.eq_def, segwitMarker.eq_def]
  cases bs with
  | nil => exact .short _ _ _
  | cons marker bs =>
      by_cases hmarker : marker = 0x00
      · cases bs with
        | nil =>
            dsimp only
            rw [if_pos hmarker]
            exact .short _ _ _
        | cons flag bs =>
            dsimp only [List.cons_append]
            rw [if_pos hmarker, if_pos hmarker]
            split
            · exact .ok true bs
            · split
              · exact .ok false (marker :: flag :: bs)
              · exact .error (.unsupportedFlag flag) bs
      · dsimp only [List.cons_append]
        rw [if_neg hmarker, if_neg hmarker]
        exact .ok false (marker :: bs)

/-- The fields of a transaction are read from the front. -/
theorem incremental_fieldsReader (disassembled : Bool) : Incremental (fieldsReader disassembled) :=
  (incremental_littleInt true 4 _).bind fun _ ↦ incremental_segwitMarker.bind fun _ ↦
    incremental_compactSize.bind fun inputCount ↦
      ((TxInput.incremental disassembled).many inputCount).bind fun _ ↦
        incremental_compactSize.bind fun outputCount ↦
          (TxOutput.incremental.many outputCount).bind fun _ ↦
            ((Witness.incremental.many inputCount).ite (.pure _)).bind fun _ ↦
              (incremental_littleInt false 4 _).bind fun _ ↦ .pure _

/-- Bytes that are read as a transaction are no beginning of others that are, and no other bytes
that are read begin them: with anything behind them they are refused for that, and a part in front
of them is refused as too short. -/
theorem prefixFree_of_decode {disassembled : Bool} {bs : Bytes} {tx : Transaction}
    (h : decode disassembled bs = .ok tx) :
    (∀ more, more ≠ [] → decode disassembled (bs ++ more) = .error .trailingData ∧
      ReadError.trailingData.message? = some "trailing data") ∧
    ∀ front, front <+: bs → front ≠ bs →
      ∃ what, decode disassembled front = .error (.insufficient what) := by
  have hfields := decode_ok_iff_fieldsReader.mp h
  constructor
  · intro more hmore
    have hread := (incremental_fieldsReader disassembled).ok_append hfields more
    exact ⟨(decode_of_fieldsReader hread).trans (if_neg hmore), rfl⟩
  · rintro front ⟨more, rfl⟩ hfront
    obtain ⟨left, -, hleft⟩ | ⟨what, left, hread⟩ :=
      (incremental_fieldsReader disassembled).of_ok_append hfields
    · -- The fields are complete in front, so what stands behind them is empty.
      have hmore : more = [] := (List.append_eq_nil_iff.mp hleft.symm).2
      exact absurd (by rw [hmore, List.append_nil]) hfront
    · exact ⟨what, decode_of_fieldsReader_error hread⟩

/-- A transaction with one input is refused with a byte behind it and without its last byte. -/
theorem prefixFree_longInputCount :
    decode true longInputCount = .ok oneSpend ∧
      decode true (longInputCount ++ [0x00]) = .error .trailingData ∧
      ∃ what, decode true longInputCount.dropLast = .error (.insufficient what) := by
  have hread : decode true longInputCount = .ok oneSpend := rfl
  obtain ⟨hbehind, hfront⟩ := prefixFree_of_decode hread
  exact ⟨hread, (hbehind [0x00] (List.cons_ne_nil _ _)).1,
    hfront _ (List.dropLast_prefix _) (by decide)⟩

end Transaction

end BitcoinSpend
