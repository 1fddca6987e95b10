import BitcoinSpend.Proofs.Transaction.Built

/-!
# The text form of an unlocking script

An input keeps its unlocking script in text form too, unless that is not wanted or the input names no
output. The text form is made when the script is assigned, so what counts is the output number at
that time and not the one that the input has now: an input that is moved between an output and none
keeps a text form that should be missing, or has none where there should be one. Read `HasTextForm`
and `Reached` first; the main result is `hasTextForm_vout_iff`.
-/

namespace BitcoinSpend.TxInput

open Script Wire

/-! ## Inputs with a text form -/

/-- The text form of an input is missing if and only if it is not wanted or `vout` names no output,
and otherwise it is that of the unlocking script. -/
structure HasTextForm (wanted : Bool) (vout : Int) (i : TxInput) : Prop where
  missing_iff : i.tokens? = none ↔ wanted = false ∨ vout = nullVout
  inStep : i.InStep

variable {wanted : Bool} {named : Int} {i : TxInput}

/-- An unlocking script that is assigned has the text form that goes with the output number. -/
theorem hasTextForm_withUnlocking (i : TxInput) (script : Bytes) :
    (i.withUnlocking script).HasTextForm i.disassembled i.vout where
  missing_iff := by
    rw [withUnlocking, isNull]
    cases i.disassembled <;> simp
  inStep := inStep_withUnlocking i script

/-- An input that is built from its fields has the text form that goes with its output number. -/
theorem hasTextForm_ofFields (txid : Bytes) (vout : Int) (unlocking : Bytes) (sequence : Int)
    (wanted : Bool) : (ofFields txid vout unlocking sequence wanted).HasTextForm wanted vout :=
  hasTextForm_withUnlocking ⟨txid, vout, [], sequence, wanted, none⟩ unlocking

/-- A text form goes with another output number too if and only if it is not wanted or the two agree
on whether there is an output. -/
theorem HasTextForm.congr_iff (h : i.HasTextForm wanted named) {vout : Int} :
    i.HasTextForm wanted vout ↔ wanted = false ∨ (named = nullVout ↔ vout = nullVout) := by
  -- The output number counts only where the text form is wanted.
  cases wanted with
  | false =>
      have hmissing : i.tokens? = none := h.missing_iff.mpr (.inl rfl)
      exact iff_of_true ⟨iff_of_true hmissing (.inl rfl), h.inStep⟩ (.inl rfl)
  | true =>
      have hnamed : i.tokens? = none ↔ named = nullVout := by simpa using h.missing_iff
      constructor
      · intro hvout
        have hmoved : i.tokens? = none ↔ vout = nullVout := by simpa using hvout.missing_iff
        exact .inr (hnamed.symm.trans hmoved)
      · intro hsame
        have hsame : named = nullVout ↔ vout = nullVout := by simpa using hsame
        exact ⟨by simpa using hnamed.trans hsame, h.inStep⟩

/-! ## The states of an input -/

/-- The output number that an input named when its unlocking script was last assigned, behind a
change of the input `i`, where it was `named` in front of the change. -/
def Change.namedAfter (i : TxInput) (named : Int) : Change → Int
  | unlocking _ => i.vout
  | txid _ | vout _ | sequence _ => named

/-- The states of an input that is built from fields, read from bytes, or read as part of the copy of
a transaction, and is then changed. With the state goes whether the text form was wanted when the
input was built, and the output number that the input named when its unlocking script was last
assigned. -/
inductive Reached : Bool → Int → TxInput → Prop where
  | ofFields (txid : Bytes) (vout : Int) (unlocking : Bytes) (sequence : Int) (wanted : Bool) :
      Reached wanted vout (.ofFields txid vout unlocking sequence wanted)
  | read {wanted : Bool} {bs rest : Bytes} {i : TxInput} (h : reader wanted bs = .ok i rest) :
      Reached wanted i.vout i
  | copied {wanted : Bool} {tx copied : Transaction} (h : tx.copy wanted = .ok copied) {i : TxInput}
      (hi : i ∈ copied.inputs) : Reached wanted i.vout i
  | change {wanted : Bool} {named : Int} {i : TxInput} (h : Reached wanted named i) (c : Change) :
      Reached wanted (c.namedAfter i named) (c.apply i)

/-- What holds of an input in all its states: whether the text form is wanted is kept, and the text
form goes with the output number at the last assignment of the script. -/
structure Kept (wanted : Bool) (named : Int) (i : TxInput) : Prop where
  disassembled : i.disassembled = wanted
  textForm : i.HasTextForm wanted named

/-- An input that reading back does not change was built from fields. -/
theorem kept_of_reread (h : i.reread wanted = i) : i.Kept wanted i.vout := by
  have hfields : (i.reread wanted).Kept wanted i.vout := ⟨rfl, hasTextForm_ofFields ..⟩
  rwa [h] at hfields

/-- A change of another field than the unlocking script leaves the text form alone, and an assignment
of the script makes it anew. -/
theorem Kept.apply (h : i.Kept wanted named) (c : Change) :
    (c.apply i).Kept wanted (c.namedAfter i named) := by
  cases c with
  | unlocking script =>
      have hwanted : i.disassembled = wanted := h.disassembled
      subst hwanted
      exact ⟨rfl, hasTextForm_withUnlocking i script⟩
  | txid | vout | sequence => exact ⟨h.disassembled, h.textForm.missing_iff, h.textForm.inStep⟩

/-- The text form of an input goes with the output number at the last assignment of its script. -/
theorem Reached.kept (h : i.Reached wanted named) : i.Kept wanted named := by
  induction h with
  | ofFields txid vout unlocking sequence wanted => exact ⟨rfl, hasTextForm_ofFields ..⟩
  -- What is read, in a copy too, is built from the fields that are read.
  | read h => exact kept_of_reread (yields _ _ _ _ h).2
  | copied h hi => exact kept_of_reread ((Transaction.asRead_of_copy h).inputs _ hi)
  | change _ c ih => exact ih.apply c

/-- In every state of an input, the text form is missing if and only if it was not wanted when the
input was built or the input named no output when its unlocking script was last assigned, and
otherwise it is that of the script. So it goes with the output number that the input has now if and
only if it is not wanted or the two numbers agree on whether there is an output. -/
theorem hasTextForm_vout_iff (h : i.Reached wanted named) :
    i.HasTextForm wanted named ∧
      (i.HasTextForm wanted i.vout ↔ wanted = false ∨ (named = nullVout ↔ i.vout = nullVout)) :=
  ⟨h.kept.textForm, h.kept.textForm.congr_iff⟩

/-- An input with a script of one constant that is built with one output number and then moved to
another. -/
def movedInput (vout vout' : Int) : TxInput :=
  (Change.vout vout').apply (.ofFields (List.replicate 32 0) vout [0x51] defaultSequence true)

/-- A state that an input is moved to. -/
theorem reached_movedInput (vout vout' : Int) : (movedInput vout vout').Reached true vout :=
  .change (.ofFields ..) (.vout vout')

/-- An input that is moved from an output to none. -/
theorem hasTextForm_vout_iff_movedInput :
    (movedInput 0 nullVout).Reached true 0 ∧
      (movedInput 0 nullVout).HasTextForm true 0 ∧
      ((movedInput 0 nullVout).HasTextForm true (movedInput 0 nullVout).vout ↔
        true = false ∨ (0 = nullVout ↔ (movedInput 0 nullVout).vout = nullVout)) :=
  ⟨reached_movedInput 0 nullVout, hasTextForm_vout_iff (reached_movedInput 0 nullVout)⟩

/-- An input that is moved from an output to none keeps its text form, and one that is moved from none
to an output gets none, so the text form does not go with the output number in every state. -/
theorem not_hasTextForm_vout :
    ((movedInput 0 nullVout).vout = nullVout ∧ (movedInput 0 nullVout).tokens? ≠ none) ∧
      ((movedInput nullVout 0).vout = 0 ∧ (movedInput nullVout 0).tokens? = none) ∧
      ¬ ∀ (wanted : Bool) (named : Int) (i : TxInput),
        i.Reached wanted named → i.HasTextForm wanted i.vout := by
  have hkept : (movedInput 0 nullVout).tokens? ≠ none := by
    rw [Ne, (reached_movedInput 0 nullVout).kept.textForm.missing_iff]
    decide
  have hmissing : (movedInput nullVout 0).tokens? = none :=
    (reached_movedInput nullVout 0).kept.textForm.missing_iff.mpr (.inr rfl)
  refine ⟨⟨rfl, hkept⟩, ⟨rfl, hmissing⟩, fun h ↦ ?_⟩
  exact hkept ((h _ _ _ (reached_movedInput 0 nullVout)).missing_iff.mpr (.inr rfl))

end BitcoinSpend.TxInput
