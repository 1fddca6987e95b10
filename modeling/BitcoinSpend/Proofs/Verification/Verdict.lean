import BitcoinSpend.Proofs.Verification.Attempt

/-!
# Verdicts on inputs

Verifying an input of a transaction that was read ends in a verdict, with two exceptions: a witness
program whose items have no room on the stack is an error, and so is the check of an overlong
signature in a witness. Read `Overfull` first, which says when there is no room without running a
script. The main result is `verifyInput_verdict`.
-/

namespace BitcoinSpend.Verification

open Script

/-- A spend of a crowded witness program that is attempted without an unlocking script, or of a
payment to a script that wraps one. Coinbases spend nothing. -/
inductive Overfull (policy : Policy) (tx : Transaction) (index : Nat) (previous : TxOutput) :
    Prop where
  | native (input : TxInput) (witness : Witness) : tx.isCoinbase = false →
      tx.inputs[index]? = some input → tx.witness[index]? = some witness →
      (input.unlocking = [] ∨ policy.permissiveRetry = true) →
      Crowded policy.maxStack witness previous.tokens → Overfull policy tx index previous
  | wrapped (input : TxInput) (witness : Witness) : tx.isCoinbase = false →
      tx.inputs[index]? = some input → tx.witness[index]? = some witness →
      Wrapped policy.maxStack witness (disassemble input.unlocking) previous.tokens →
      Overfull policy tx index previous

/-! ## Inputs -/

/-- An ordinary position in front of the end is its own index. -/
theorem position?_natCast {length i : Nat} (hi : i < length) : position? length i = some i := by
  rw [position?, if_pos (Int.natCast_nonneg i), if_pos (by omega), Int.toNat_natCast]

/-- An ordinary position names the element there. -/
theorem elementAt?_natCast {α : Type} (l : List α) {i : Nat} (hi : i < l.length) :
    elementAt? l i = l[i]? := by
  rw [elementAt?, position?_natCast hi]
  rfl

variable {policy : Policy} {tx : Transaction} {index : Nat} {previous : TxOutput}

/-- Verifying an input that is no coinbase attempts the spend, and, where the policy allows it, once
more without the unlocking script. -/
theorem verifyInput_eq (hcoinbase : tx.isCoinbase = false) {input : TxInput}
    (hinput : tx.inputs[index]? = some input) (hstep : input.InStep) {witness : Witness}
    (hwitness : tx.witness[index]? = some witness) :
    verifyInput policy tx index previous = (do
      let result ← (⟨policy, tx, index, previous.amount⟩ : Spend).attempt witness
        (disassemble input.unlocking) previous.tokens
      if !result && policy.permissiveRetry && !(disassemble input.unlocking).isEmpty then
        (⟨policy, tx, index, previous.amount⟩ : Spend).attempt witness [] previous.tokens
      else return result) := by
  obtain ⟨hinputs, -⟩ := List.getElem?_eq_some_iff.mp hinput
  obtain ⟨hwitnesses, -⟩ := List.getElem?_eq_some_iff.mp hwitness
  have hlt : (index : Int) < tx.witness.length := by omega
  unfold TxInput.InStep at hstep
  rw [← hstep]
  simp only [verifyInput, hcoinbase, elementAt?_natCast _ hinputs, elementAt?_natCast _ hwitnesses,
    hinput, hwitness, if_pos hlt]
  rfl

/-- What is known of an input of a transaction that was read. -/
theorem exists_input {disassembled : Bool} {bs : Bytes}
    (htx : Transaction.decode disassembled bs = .ok tx) (hindex : index < tx.inputs.length) :
    ∃ input witness, tx.inputs[index]? = some input ∧ tx.witness[index]? = some witness ∧
      input.InStep ∧ input.Encodable ∧ witness.Encodable := by
  obtain ⟨hencodable, hlength, hinStep⟩ := Transaction.encodable_of_decode htx
  have hwitness : index < tx.witness.length := by omega
  have hinput := List.getElem_mem hindex
  exact ⟨_, _, List.getElem?_eq_getElem hindex, List.getElem?_eq_getElem hwitness,
    hinStep _ hinput, hencodable.inputs _ hinput, hencodable.witness _ (List.getElem_mem hwitness)⟩

/-- Verifying an input that is overfull is an error. -/
theorem verifyInput_overflows {disassembled : Bool} {bs : Bytes}
    (htx : Transaction.decode disassembled bs = .ok tx) (h : Overfull policy tx index previous) :
    Spend.Overflows (verifyInput policy tx index previous) := by
  intro journal
  obtain ⟨-, -, hinStep⟩ := Transaction.encodable_of_decode htx
  cases h with
  | native input witness hcoinbase hinput hwitness hretry hcrowded =>
      rw [verifyInput_eq hcoinbase hinput (hinStep _ (List.mem_of_getElem? hinput)) hwitness]
      by_cases hempty : input.unlocking = []
      · obtain ⟨journal', hattempt⟩ := Spend.attempt_overflows_of_crowded
          (s := ⟨policy, tx, index, previous.amount⟩) hcrowded journal
        rw [disassemble_eq_nil_iff.mpr hempty, Machine.bind_apply, hattempt]
        exact ⟨journal', rfl⟩
      · -- The first attempt is refused, and the one without the unlocking script overflows.
        have htokens : disassemble input.unlocking ≠ [] := disassemble_eq_nil_iff.not.mpr hempty
        have hisEmpty : (disassemble input.unlocking).isEmpty = false := by simpa using htokens
        have hpermissive := hretry.resolve_left hempty
        rw [Spend.attempt_refused (s := ⟨policy, tx, index, previous.amount⟩) hcrowded htokens]
        simp only [pure_bind, hpermissive, hisEmpty]
        exact Spend.attempt_overflows_of_crowded hcrowded journal
  | wrapped input witness hcoinbase hinput hwitness hwrapped =>
      obtain ⟨journal', hattempt⟩ := Spend.attempt_overflows_of_wrapped
        (s := ⟨policy, tx, index, previous.amount⟩) hwrapped journal
      rw [verifyInput_eq hcoinbase hinput (hinStep _ (List.mem_of_getElem? hinput)) hwitness,
        Machine.bind_apply, hattempt]
      exact ⟨journal', rfl⟩

/-- Some item of the witness of an input is overlong. -/
def HoldsOverlong (tx : Transaction) (index : Nat) : Prop :=
  ∃ witness, tx.witness[index]? = some witness ∧ ∃ item ∈ witness, Signature.OverlongItem item

/-- The attempts of an input that is no coinbase and not overfull are decided, each one for itself. -/
theorem decided_verifyInput {disassembled : Bool} {bs out : Bytes}
    (htx : Transaction.decode disassembled bs = .ok tx) (hcoinbase : tx.isCoinbase = false)
    (hprevious : TxOutput.reader.decode out = .ok previous) (hmax : 0 ≤ policy.maxStack)
    (h : ¬Overfull policy tx index previous) {input : TxInput}
    (hinput : tx.inputs[index]? = some input) (hinStep : input.InStep) (hencodable : input.Encodable)
    {witness : Witness} (hwitness : tx.witness[index]? = some witness)
    (hitems : witness.Encodable) (journal : Journal) :
    Spend.Decided witness (verifyInput policy tx index previous journal) := by
  obtain ⟨hindex, -⟩ := List.getElem?_eq_some_iff.mp hinput
  obtain ⟨htxEncodable, hlength, -⟩ := Transaction.encodable_of_decode htx
  obtain ⟨hamount, hlocking⟩ := TxOutput.yields.decode hprevious
  have hregular : Spend.Regular ⟨policy, tx, index, previous.amount⟩ :=
    ⟨hmax, htxEncodable, hlength, ⟨index, rfl, hindex⟩, hamount⟩
  have hnative (hor : input.unlocking = [] ∨ policy.permissiveRetry = true) :
      ¬Crowded policy.maxStack witness previous.tokens :=
    fun hcrowded ↦ h (.native input witness hcoinbase hinput hwitness hor hcrowded)
  have hwrapped : ¬Wrapped policy.maxStack witness (disassemble input.unlocking) previous.tokens :=
    fun hwrapped ↦ h (.wrapped input witness hcoinbase hinput hwitness hwrapped)
  have hexecutable : Executable previous.locking.length previous.tokens :=
    executable_disassemble previous.locking
  have hunlocking := hencodable.unlocking
  have hunlockingTokens := length_disassemble_le input.unlocking
  have hlockingTokens : previous.tokens.length ≤ previous.locking.length :=
    length_disassemble_le previous.locking
  rw [verifyInput_eq hcoinbase hinput hinStep hwitness]
  refine .bind (hregular.attempt_decides hitems (executable_disassemble input.unlocking)
    hunlocking (by omega) hexecutable hlocking (by omega)
    (fun hempty ↦ hnative (.inl (disassemble_eq_nil_iff.mp hempty))) hwrapped journal) ?_
  intro b journal' _
  split
  · next hretry =>
      have hpermissive : policy.permissiveRetry = true := by
        simp only [Bool.and_eq_true] at hretry
        exact hretry.1.2
      -- Without an unlocking script no script is pushed, so nothing is wrapped.
      refine hregular.attempt_decides hitems (.nil 0) (by decide) (by decide)
        hexecutable hlocking (by omega) (fun _ ↦ hnative (.inr hpermissive)) ?_ journal'
      rintro ⟨_, _, _, hpush, -⟩
      cases hpush
  · exact .verdict b journal'

/-- Verifying an input that is not overfull reaches a verdict, unless it lacks a text because an item
of the witness is overlong. -/
theorem verifyInput_decides {disassembled : Bool} {bs out : Bytes}
    (htx : Transaction.decode disassembled bs = .ok tx) (hindex : index < tx.inputs.length)
    (hprevious : TxOutput.reader.decode out = .ok previous) (hmax : 0 ≤ policy.maxStack)
    (h : ¬Overfull policy tx index previous) (journal : Journal) :
    (∃ verdict journal', verifyInput policy tx index previous journal = .ok verdict journal') ∨
      (∃ journal', verifyInput policy tx index previous journal =
        .error (.machine (.verify .unwritable)) journal') ∧ HoldsOverlong tx index := by
  cases hcoinbase : tx.isCoinbase with
  | true =>
      obtain ⟨hencodable, -, -⟩ := Transaction.encodable_of_decode htx
      have hcount := hencodable.inputCount
      have htext : Text.Writable (index : Int) := Text.writable_of_lt 64 (by decide) (by omega)
      rw [verifyInput_coinbase hcoinbase, if_pos htext]
      exact .inl ⟨true, journal, rfl⟩
  | false =>
      obtain ⟨input, witness, hinput, hwitness, hinStep, hencodable, hitems⟩ :=
        exists_input htx hindex
      have hdecided := decided_verifyInput htx hcoinbase hprevious hmax h hinput hinStep hencodable
        hwitness hitems journal
      generalize verifyInput policy tx index previous journal = outcome at hdecided
      cases hdecided with
      | verdict b journal' => exact .inl ⟨b, journal', rfl⟩
      | unwritable item journal' hmem hlong =>
          exact .inr ⟨⟨journal', rfl⟩, witness, hwitness, item, hmem, hlong⟩

/-! ## Payments to a witness key -/

/-- An output whose locking script pushes zero and twenty bytes pays to a witness key. -/
theorem witnessKeyHash?_of_locking {o : TxOutput} {keyHash : Bytes} (hsize : keyHash.length = 20)
    (hlocking : o.locking = [0x00, 0x14] ++ keyHash) :
    witnessKeyHash? o.tokens = some (.ofBytes keyHash) := by
  have hwell : Instruction.WellFormed [.op (.stack (.constant .zero)), .direct keyHash] :=
    .cons _ _ (.op _ nofun) (.cons _ _ (.direct _ (by omega) (by rw [hsize]; decide)) .nil)
  have htokens : o.tokens = [.op (.stack (.constant .zero)), .literal (.ofBytes keyHash)] := by
    have hencode : [.op (.stack (.constant .zero)), .direct keyHash].flatMap Instruction.encode =
        o.locking := by
      simp [hlocking, Instruction.encode, hsize]
      rfl
    rw [TxOutput.tokens, ← hencode, Instruction.disassemble_flatMap_encode hwell]
    rfl
  rw [htokens, witnessKeyHash?, witnessProgram?]
  exact if_pos ⟨rfl, hsize ▸ Literal.hasSize_ofBytes keyHash⟩

/-- A payment to a witness key lacks a text for an overlong signature and a key with the right digest
that is read. -/
theorem verifyInput_unwritable {disassembled : Bool} {bs out : Bytes}
    (htx : Transaction.decode disassembled bs = .ok tx) (hcoinbase : tx.isCoinbase = false)
    {input : TxInput} (hinput : tx.inputs[index]? = some input) (hunlocking : input.unlocking = [])
    {signature key : Bytes} (hwitness : tx.witness[index]? = some [signature, key])
    (hprevious : TxOutput.reader.decode out = .ok previous)
    (hlocking : previous.locking = [0x00, 0x14] ++ Hash.hash160 key)
    (hmax : 4 ≤ policy.maxStack) (hlong : Signature.OverlongItem signature)
    {publicKey : PublicKey} (hkey : PublicKey.decode key = .ok publicKey) (journal : Journal) :
    ∃ journal', verifyInput policy tx index previous journal =
      .error (.machine (.verify .unwritable)) journal' := by
  obtain ⟨hencodable, hlength, hinStep⟩ := Transaction.encodable_of_decode htx
  obtain ⟨hamount, -⟩ := TxOutput.yields.decode hprevious
  obtain ⟨hindex, -⟩ := List.getElem?_eq_some_iff.mp hinput
  let s : Spend := ⟨policy, tx, index, previous.amount⟩
  have hregular : s.Regular :=
    ⟨by change 0 ≤ policy.maxStack; omega, hencodable, hlength, ⟨index, rfl, hindex⟩, hamount⟩
  have hprogram := witnessKeyHash?_of_locking (Hash.length_hash160 key) hlocking
  have hanswers : Machine.Answers (s.environment true [signature, key]) 26 :=
    ⟨_, rfl, fun code hashType hcode ↦ hregular.exists_message true (by omega) hashType⟩
  obtain ⟨n, hresult⟩ := Machine.validatePair_payToKeyHash_overlong hanswers
    (Spend.executable_payToKeyHash hprogram) rfl hmax hlong hkey {}
  have hresolved : s.runResolved [signature, key] [] previous.tokens =
      s.runPair true [signature, key] [] (payToKeyHash (.literal (.ofBytes (Hash.hash160 key)))) := by
    simp [Spend.runResolved, hprogram]
  have herror : ∃ journal', s.runResolved [signature, key] [] previous.tokens journal =
      .error (.machine (.verify .unwritable)) journal' :=
    ⟨_, (congrFun hresolved journal).trans (Spend.runPair_error journal hresult)⟩
  obtain ⟨journal', herror⟩ := herror
  rw [verifyInput_eq hcoinbase hinput (hinStep _ (List.mem_of_getElem? hinput)) hwitness,
    disassemble_eq_nil_iff.mpr hunlocking]
  exact ⟨journal', Machine.bind_of_error (Machine.bind_of_error herror _) _⟩

/-! ## A crowded spend -/

/-- A transaction with one input, whose only output is worth nothing, is encodable if its input and
the witness of that are. -/
theorem encodable_single {input : TxInput} {witness : Witness} (hinput : input.Encodable)
    (hwitness : witness.Encodable) (segwit : Bool) :
    (⟨[input], [⟨0, []⟩], [witness], 0, 2, segwit⟩ : Transaction).Encodable where
  version := show Wire.fits true 4 2 = true by decide
  inputCount := show 1 < 2 ^ 64 by decide
  inputs := by
    intro i hi
    obtain rfl := List.mem_singleton.mp hi
    exact hinput
  outputCount := show 1 < 2 ^ 64 by decide
  outputs := by
    intro o ho
    obtain rfl := List.mem_singleton.mp ho
    exact ⟨by decide, by decide⟩
  witness := by
    intro w hw
    obtain rfl := List.mem_singleton.mp hw
    exact hwitness
  lockTime := show Wire.fits false 4 0 = true by decide

/-- A spend with two witness items and no unlocking script. -/
def crowdedTransaction : Transaction where
  inputs := [.ofFields (List.replicate 32 0x11) 0 [] 0xffffffff true]
  outputs := [⟨0, []⟩]
  witness := [[[], []]]
  lockTime := 0
  version := 2
  segwit := true

/-- The wire form of the spend. -/
def crowdedBytes : Bytes :=
  [0x02, 0x00, 0x00, 0x00, 0x00, 0x01, 0x01] ++ List.replicate 32 0x11 ++
    [0x00, 0x00, 0x00, 0x00, 0x00, 0xff, 0xff, 0xff, 0xff, 0x01] ++ List.replicate 8 0x00 ++
    [0x00, 0x02, 0x00, 0x00, 0x00, 0x00, 0x00, 0x00]

/-- A payment to a witness key. -/
def crowdedOutput : TxOutput :=
  ⟨0, [0x00, 0x14] ++ List.replicate 20 0x00⟩

/-- The spend is what its wire form reads as. -/
theorem decode_crowdedBytes : Transaction.decode true crowdedBytes = .ok crowdedTransaction := by
  have hencodable : crowdedTransaction.Encodable :=
    encodable_single ⟨by decide, by decide, by decide, by decide⟩ ⟨by decide, by decide⟩ true
  obtain ⟨bs, hencode, hdecode⟩ :=
    Transaction.decode_encode true hencodable (fun _ ↦ rfl) (.inl rfl)
  have hbytes : crowdedTransaction.encode true = .ok crowdedBytes := rfl
  rw [hbytes] at hencode
  cases hencode
  exact hdecode

/-- The output pays to a witness key. -/
theorem witnessKeyHash?_crowdedOutput :
    witnessKeyHash? crowdedOutput.tokens = some (.ofBytes (List.replicate 20 0x00)) :=
  witnessKeyHash?_of_locking (o := crowdedOutput) rfl rfl

/-! ## Verdicts -/

/-- Verifying an input of a transaction that was read ends with the error that there is no room for
items if and only if some witness program that is run has more of them than the stacks may hold. The
only other error is the lack of a text, for which the witness has to hold an overlong signature. If
it holds none, there is a verdict if and only if no witness program is too full. -/
theorem verifyInput_verdict {disassembled : Bool} {bs out : Bytes} {tx : Transaction}
    {previous : TxOutput} (htx : Transaction.decode disassembled bs = .ok tx)
    (hprevious : TxOutput.reader.decode out = .ok previous) {index : Nat}
    (hindex : index < tx.inputs.length) {policy : Policy} (hmax : 0 ≤ policy.maxStack)
    (journal : Journal) :
    ((∃ journal', verifyInput policy tx index previous journal =
        .error (.machine (.stack .overflow)) journal') ↔ Overfull policy tx index previous) ∧
    (∀ e journal', verifyInput policy tx index previous journal = .error e journal' →
      e = .machine (.stack .overflow) ∨
        e = .machine (.verify .unwritable) ∧ HoldsOverlong tx index) ∧
    (¬HoldsOverlong tx index →
      ((∃ verdict journal', verifyInput policy tx index previous journal = .ok verdict journal') ↔
        ¬Overfull policy tx index previous)) := by
  by_cases hfull : Overfull policy tx index previous
  · obtain ⟨journal', herror⟩ := verifyInput_overflows htx hfull journal
    rw [herror]
    refine ⟨⟨fun _ ↦ hfull, fun _ ↦ ⟨journal', rfl⟩⟩, ?_, fun _ ↦ ⟨?_, fun h ↦ absurd hfull h⟩⟩
    · rintro e _ ⟨⟩
      exact .inl rfl
    · rintro ⟨_, _, ⟨⟩⟩
  · rcases verifyInput_decides htx hindex hprevious hmax hfull journal with
      ⟨verdict, journal', hverdict⟩ | ⟨⟨journal', herror⟩, hlong⟩
    · rw [hverdict]
      refine ⟨⟨?_, fun h ↦ absurd h hfull⟩, fun _ _ ↦ nofun,
        fun _ ↦ ⟨fun _ ↦ hfull, fun _ ↦ ⟨verdict, journal', rfl⟩⟩⟩
      rintro ⟨_, ⟨⟩⟩
    · rw [herror]
      refine ⟨⟨?_, fun h ↦ absurd h hfull⟩, ?_, fun hshort ↦ absurd hlong hshort⟩
      · rintro ⟨_, ⟨⟩⟩
      · rintro e _ ⟨⟩
        exact .inr ⟨rfl, hlong⟩

/-- With room for two items the spend has a verdict. -/
theorem verifyInput_verdict_of_room :
    ∃ verdict journal',
      verifyInput {} crowdedTransaction 0 crowdedOutput {} = .ok verdict journal' := by
  have hkey := witnessKeyHash?_crowdedOutput
  have houtput : TxOutput.reader.decode
      (List.replicate 8 0x00 ++ [0x16, 0x00, 0x14] ++ List.replicate 20 0x00) =
        .ok crowdedOutput := rfl
  have hindex : 0 < crowdedTransaction.inputs.length := by decide
  have hshort : ¬HoldsOverlong crowdedTransaction 0 := by
    rintro ⟨witness, hwitness, item, hitem, hlong⟩
    cases hwitness
    refine Signature.not_overlongItem_of_length_le ?_ hlong
    simp only [List.mem_cons, List.not_mem_nil, or_false, or_self] at hitem
    subst hitem
    decide
  refine ((verifyInput_verdict decode_crowdedBytes houtput hindex (by decide) {}).2.2 hshort).mpr ?_
  intro hfull
  cases hfull with
  | native input witness _ _ _ _ hcrowded =>
      cases hcrowded with
      | key l _ _ hroom => exact absurd hroom (by decide)
      | script l items witnessScript hscript =>
          rw [not_witnessKeyHash hscript] at hkey
          cases hkey
  | wrapped input witness _ _ _ hwrapped =>
      obtain ⟨l, redeem, hlock, -⟩ := hwrapped
      rw [(not_program_of_scriptHash hlock).1] at hkey
      cases hkey

/-! ## An overlong signature -/

/-- A spend whose witness is an overlong signature and the generator. -/
def overlongTransaction : Transaction where
  inputs := [.ofFields (List.replicate 32 0x11) 0 [] 0xffffffff true]
  outputs := [⟨0, []⟩]
  witness := [[Signature.longEncoded ++ [0x01], Script.Machine.generatorKey.uncompressed]]
  lockTime := 0
  version := 2
  segwit := true

/-- A payment to the generator as a witness key. -/
def generatorOutput : TxOutput :=
  ⟨0, [0x00, 0x14] ++ Hash.hash160 Script.Machine.generatorKey.uncompressed⟩

/-- Not every input has a verdict. With room for one item the spend of two items has none, and the
spend with the overlong signature has none under the policy that is taken by default. -/
theorem not_always_verdict :
    (Transaction.decode true crowdedBytes = .ok crowdedTransaction ∧
      TxOutput.reader.decode crowdedOutput.wire = .ok crowdedOutput ∧
      0 < crowdedTransaction.inputs.length ∧
      ∃ journal', verifyInput { maxStack := 1 } crowdedTransaction 0 crowdedOutput {} =
        .error (.machine (.stack .overflow)) journal') ∧
    (∃ bs, Transaction.decode true bs = .ok overlongTransaction) ∧
      TxOutput.reader.decode generatorOutput.wire = .ok generatorOutput ∧
      0 < overlongTransaction.inputs.length ∧
      ∃ journal', verifyInput {} overlongTransaction 0 generatorOutput {} =
        .error (.machine (.verify .unwritable)) journal' := by
  constructor
  · have houtput : TxOutput.reader.decode crowdedOutput.wire = .ok crowdedOutput :=
      (TxOutput.restores ⟨by decide, by decide⟩).decode
    have hcrowded : Crowded 1 [[], []] crowdedOutput.tokens :=
      .key _ witnessKeyHash?_crowdedOutput rfl (by decide)
    have hfull : Overfull { maxStack := 1 } crowdedTransaction 0 crowdedOutput :=
      .native _ _ rfl rfl rfl (.inl rfl) hcrowded
    exact ⟨decode_crowdedBytes, houtput, by decide,
      verifyInput_overflows decode_crowdedBytes hfull {}⟩
  · have hencodable : overlongTransaction.Encodable :=
      encodable_single ⟨by decide, by decide, by decide, by decide⟩
        ⟨by decide, by decide +kernel⟩ true
    obtain ⟨bs, -, hdecode⟩ := Transaction.decode_encode true hencodable (fun _ ↦ rfl) (.inl rfl)
    have houtput : TxOutput.reader.decode generatorOutput.wire = .ok generatorOutput :=
      (TxOutput.restores ⟨by decide, by decide⟩).decode
    exact ⟨⟨bs, hdecode⟩, houtput, by decide, verifyInput_unwritable hdecode rfl rfl rfl rfl
      houtput rfl (by decide) Signature.overlongItem_longEncoded
      Script.Machine.decode_generatorKey {}⟩

end BitcoinSpend.Verification
