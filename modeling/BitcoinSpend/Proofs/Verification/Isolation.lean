import BitcoinSpend.Proofs.Script.Template
import BitcoinSpend.Proofs.Sighash.Unsigned
import BitcoinSpend.Proofs.Verification.WitnessProgram
import BitcoinSpend.Transaction.Change

/-!
# Inputs in isolation

What verifying an input comes to does not depend on the unlocking scripts and the witnesses of other
inputs, and where no witness program is spent it does not depend on the witness of the input either.
Read `SameSpend` and `Unwitnessed` first; the main result is `verifyInput_isolated`.
-/

namespace BitcoinSpend

/-! ## Standard scripts in bytes -/

namespace Script

/-- The scripts that are version-zero witness programs. -/
def IsWitnessProgram (script : Bytes) : Prop :=
  ∃ program : Bytes, (program.length = 20 ∨ program.length = 32) ∧ script = programLocking program

/-- What is found to be a witness program is one. -/
theorem isWitnessProgram_of_eq_some {script : Bytes} {l : Literal} {size : Nat}
    (hsize : size = 20 ∨ size = 32) (h : witnessProgram? size (disassemble script) = some l) :
    IsWitnessProgram script := by
  have hmax : 1 ≤ size ∧ size ≤ Instruction.maxDirect := by
    unfold Instruction.maxDirect
    omega
  obtain ⟨program, -, rfl, hscript⟩ := (witnessProgram?_disassemble_iff hmax.1 hmax.2).mp h
  exact ⟨program, hsize, hscript⟩

/-- What is found to be a payment to a script is one. -/
theorem tokens_of_scriptHash {script : Bytes} {l : Literal}
    (h : scriptHash? (disassemble script) = some l) :
    ∃ digest : Bytes, digest.length = 20 ∧
      disassemble script = payToScriptHash (.ofBytes digest) := by
  obtain ⟨digest, rfl, hlength, -⟩ := scriptHash?_disassemble_iff.mp h
  exact ⟨digest, hlength, (scriptHash?_eq_some_iff.mp h).1⟩

end Script

namespace Verification

open Script

/-- Two transactions that differ at most in their form and in the unlocking scripts and the witnesses
of other inputs than the one at a signed position. -/
structure SameSpend (index : Int) (tx tx' : Transaction) : Prop
    extends Sighash.SameUnlocked tx tx' where
  unlocking : (elementAt? tx.inputs index).map TxInput.unlocking =
    (elementAt? tx'.inputs index).map TxInput.unlocking
  witness : elementAt? tx.witness index = elementAt? tx'.witness index

/-- No witness program is spent: the locking script is none, and if it is a payment to a script, the
script that is pushed last is none either. -/
structure Unwitnessed (unlocking : Bytes) (previous : TxOutput) : Prop where
  locking : ¬IsWitnessProgram previous.locking
  pushed : ∀ (digest : Bytes) (before push : List Token) (script : Bytes), digest.length = 20 →
    previous.tokens = payToScriptHash (.ofBytes digest) →
    disassemble unlocking = before ++ push → SinglePush push script → ¬IsWitnessProgram script

/-! ## Attempts -/

namespace Spend

variable {s s' : Spend} {unlocking : List Token}

/-- Attempts depend on a spend by its policy and its messages. -/
theorem attempts_congr (hpolicy : s.policy = s'.policy) (hmessages : s.messages = s'.messages) :
    s.attempts = s'.attempts := by
  have hpair : s.runPair = s'.runPair := by
    funext segwit initial unlocking locking journal
    rw [runPair, runPair, hpolicy, hmessages]
  have hresolved : s.runResolved = s'.runResolved := by
    funext witness unlocking locking
    rw [runResolved, runResolved, hpair]
  have hredeem : s.runRedeem = s'.runRedeem := by
    funext witness unlocking
    rw [runRedeem, runRedeem, hresolved]
  have hattempt : s.attempt = s'.attempt := by
    funext witness unlocking locking
    rw [attempt, attempt, hresolved, hredeem]
  funext witness unlocking locking
  rw [attempts, attempts, hattempt, hpolicy]

/-- A script that is split off is empty or pushed last. -/
theorem splitRedeem?_pushed {redeem before : List Token}
    (h : splitRedeem? unlocking = some (redeem, before)) :
    redeem = [] ∨ ∃ (front push : List Token) (script : Bytes), unlocking = front ++ push ∧
      SinglePush push script ∧ redeem = disassemble script := by
  unfold splitRedeem? at h
  split at h
  · split at h
    · cases h
      exact .inl rfl
    · next l front hreverse =>
        cases h
        refine .inr ⟨front.reverse, _, l.data, ?_, .direct l, rfl⟩
        exact List.reverse_eq_cons_iff.mp hreverse
    · cases h
  · cases h

/-- A script that is no witness program is run as it is. -/
theorem runResolved_of_not_program {script : Bytes} (h : ¬IsWitnessProgram script)
    (witness : Witness) (unlocking : List Token) :
    s.runResolved witness unlocking (disassemble script) =
      s.runPair false [] unlocking (disassemble script) := by
  have hkey : witnessKeyHash? (disassemble script) = none :=
    Option.eq_none_iff_forall_ne_some.mpr fun _ hl ↦ h (isWitnessProgram_of_eq_some (.inl rfl) hl)
  have hscript : witnessScriptHash? (disassemble script) = none :=
    Option.eq_none_iff_forall_ne_some.mpr fun _ hl ↦ h (isWitnessProgram_of_eq_some (.inr rfl) hl)
  simp only [runResolved, hkey, hscript]

/-- An attempt at a spend of no witness program does not depend on the witness. -/
theorem attempt_unwitnessed {script : Bytes} {previous : TxOutput}
    (h : Unwitnessed script previous) (witness witness' : Witness) :
    s.attempt witness (disassemble script) previous.tokens =
      s.attempt witness' (disassemble script) previous.tokens := by
  have hlocking (witness : Witness) :
      s.runResolved witness (disassemble script) previous.tokens =
        s.runPair false [] (disassemble script) previous.tokens :=
    runResolved_of_not_program h.locking witness _
  have hredeem (hlock : (scriptHash? previous.tokens).isSome = true) (witness : Witness) :
      s.runRedeem witness (disassemble script) = s.runRedeem witness' (disassemble script) := by
    obtain ⟨l, hl⟩ := Option.isSome_iff_exists.mp hlock
    obtain ⟨digest, hdigest, htokens⟩ := tokens_of_scriptHash hl
    unfold runRedeem
    cases hsplit : splitRedeem? (disassemble script) with
    | none => rfl
    | some parts =>
        obtain ⟨redeem, before⟩ := parts
        dsimp only
        rcases splitRedeem?_pushed hsplit with rfl | ⟨front, push, pushed, hends, hpush, rfl⟩
        · rfl
        · have hpushed := h.pushed digest front push pushed hdigest htokens hends hpush
          rw [runResolved_of_not_program hpushed, runResolved_of_not_program hpushed]
  unfold attempt
  rw [hlocking, hlocking]
  refine bind_congr fun b ↦ ?_
  cases b with
  | false => rfl
  | true =>
      cases hlock : (scriptHash? previous.tokens).isSome with
      | false => rfl
      | true => simp only [if_true, hredeem hlock witness]

/-- Attempts at a spend of no witness program do not depend on the witness. -/
theorem attempts_unwitnessed {script : Bytes} {previous : TxOutput}
    (h : Unwitnessed script previous) (witness witness' : Witness) :
    s.attempts witness (disassemble script) previous.tokens =
      s.attempts witness' (disassemble script) previous.tokens := by
  have hempty : disassemble [] = [] := disassemble_eq_nil_iff.mpr rfl
  have hnone : Unwitnessed [] previous := by
    refine ⟨h.locking, fun digest before push pushed _ _ hends hpush ↦ ?_⟩
    rw [hempty] at hends
    exact absurd (List.append_eq_nil_iff.mp hends.symm).2 (Push.data hpush).ne_nil
  have hretry := attempt_unwitnessed (s := s) hnone witness witness'
  rw [hempty] at hretry
  rw [attempts, attempts, attempt_unwitnessed h witness witness', hretry]

end Spend

/-! ## Inputs -/

variable {tx tx' : Transaction} {index : Int}

/-- A coinbase has one input, which spends nothing. -/
theorem isCoinbase_iff : tx.isCoinbase = true ↔
    tx.inputs.map TxInput.spends = [(List.replicate 32 0, TxInput.nullVout)] := by
  unfold Transaction.isCoinbase
  rcases tx.inputs with _ | ⟨i, _ | ⟨j, rest⟩⟩
  · simp
  · simp [TxInput.isNull, TxInput.spends, and_comm]
  · simp

/-- Whether a transaction is a coinbase depends on what its inputs spend. -/
theorem isCoinbase_congr (h : tx.inputs.map TxInput.spends = tx'.inputs.map TxInput.spends) :
    tx.isCoinbase = tx'.isCoinbase := by
  rw [Bool.eq_iff_iff, isCoinbase_iff, isCoinbase_iff, h]

/-- Verifying an input asks for its unlocking script and for its witness and attempts the spend. -/
theorem verifyInput_unlocking (hstep : ∀ i ∈ tx.inputs, i.InStep) (policy : Policy)
    (previous : TxOutput) :
    verifyInput policy tx index previous = (if tx.isCoinbase then do
      logCoinbase index
      return true
    else do
      let unlocking ← require ((elementAt? tx.inputs index).map TxInput.unlocking)
      let witness ← witnessOf tx index
      (⟨policy, tx, index, previous.amount⟩ : Spend).attempts witness (disassemble unlocking)
        previous.tokens) := by
  cases hcoinbase : tx.isCoinbase with
  | true =>
      rw [verifyInput, hcoinbase]
      rfl
  | false =>
      rw [verifyInput_attempts hcoinbase, if_neg Bool.false_ne_true]
      cases hinput : elementAt? tx.inputs index with
      | none => rfl
      | some input =>
          have htokens := hstep input (mem_of_elementAt? hinput)
          unfold TxInput.InStep at htokens
          simp only [Option.map_some, require, pure_bind, htokens]

/-- The witness of an input makes no difference between two transactions: nothing is spent, or the
witness is the same, or there is one and nobody takes it. -/
inductive Settled (index : Int) (previous : TxOutput) (tx tx' : Transaction) : Prop where
  | coinbase (h : tx.isCoinbase = true)
  | same (h : witnessOf tx index = witnessOf tx' index)
  | unused (h : ∀ input, elementAt? tx.inputs index = some input →
      Unwitnessed input.unlocking previous ∧ (∃ witness, witnessOf tx index = pure witness) ∧
        ∃ witness, witnessOf tx' index = pure witness)

/-- Verifying an input comes to the same for transactions that differ at most in unlocking scripts,
witnesses and form, if they agree on the script of the input, older signatures sign the same and the
witness makes no difference. -/
theorem verifyInput_congr (hsame : Sighash.SameUnlocked tx tx') (hstep : ∀ i ∈ tx.inputs, i.InStep)
    (hstep' : ∀ i ∈ tx'.inputs, i.InStep)
    (hunlocking : (elementAt? tx.inputs index).map TxInput.unlocking =
      (elementAt? tx'.inputs index).map TxInput.unlocking)
    (hlegacy : ∀ code hashType,
      Sighash.legacy tx index code hashType = Sighash.legacy tx' index code hashType)
    {previous : TxOutput} (hsettled : Settled index previous tx tx') (policy : Policy) :
    verifyInput policy tx index previous = verifyInput policy tx' index previous := by
  have hmessages : (⟨policy, tx, index, previous.amount⟩ : Spend).messages =
      (⟨policy, tx', index, previous.amount⟩ : Spend).messages := by
    funext segwit code hashType
    unfold Spend.messages
    dsimp only
    rw [hsame.segwit_eq, hlegacy]
  have hattempts : (⟨policy, tx, index, previous.amount⟩ : Spend).attempts =
      (⟨policy, tx', index, previous.amount⟩ : Spend).attempts :=
    Spend.attempts_congr rfl hmessages
  rw [verifyInput_unlocking hstep, verifyInput_unlocking hstep', ← hunlocking,
    ← isCoinbase_congr hsame.outpoints, ← hattempts]
  cases hsettled with
  | coinbase hcoinbase => rw [if_pos hcoinbase, if_pos hcoinbase]
  | same hwitness => rw [hwitness]
  | unused hnone =>
      cases hinput : elementAt? tx.inputs index with
      | none => rfl
      | some input =>
          obtain ⟨hunwitnessed, ⟨witness, hwitness⟩, witness', hwitness'⟩ := hnone input hinput
          simp only [Option.map_some, require, pure_bind, hwitness, hwitness',
            Spend.attempts_unwitnessed hunwitnessed witness witness']

/-- A transaction with one witness to each input, all of whose fields have a wire form and whose
inputs have text forms in step. -/
structure Whole (tx : Transaction) : Prop where
  encodable : tx.Encodable
  witnessCount : tx.witness.length = tx.inputs.length
  inStep : ∀ i ∈ tx.inputs, i.InStep

/-- A transaction that was read is whole. -/
theorem whole_of_decode {disassembled : Bool} {bs : Bytes}
    (h : Transaction.decode disassembled bs = .ok tx) : Whole tx :=
  have hread := Transaction.asRead_of_decode h
  ⟨hread.encodable, hread.witnessCount, hread.inStep⟩

/-- Older signatures sign the same in whole transactions that differ at most in unlocking scripts,
witnesses and form. -/
theorem Whole.legacy_eq (h : Whole tx) (h' : Whole tx') (hsame : Sighash.SameUnlocked tx tx')
    (code : Bytes) (hashType : Int) :
    Sighash.legacy tx index code hashType = Sighash.legacy tx' index code hashType :=
  hsame.legacy_eq h.encodable h.witnessCount h'.encodable h'.witnessCount index code hashType

/-- Verifying an input comes to the same for transactions that are the same in what the input
involves. -/
theorem SameSpend.verifyInput_eq (hsame : SameSpend index tx tx') (h : Whole tx) (h' : Whole tx')
    (policy : Policy) (previous : TxOutput) :
    verifyInput policy tx index previous = verifyInput policy tx' index previous := by
  have hwitness : witnessOf tx index = witnessOf tx' index := by
    rw [witnessOf, witnessOf, hsame.witness, h.witnessCount, h'.witnessCount, hsame.inputCount]
  exact verifyInput_congr hsame.toSameUnlocked h.inStep h'.inStep hsame.unlocking
    (h.legacy_eq h' hsame.toSameUnlocked) (.same hwitness) policy

/-! ## The witness of the input -/

/-- A position that names something names a witness. -/
theorem exists_witnessOf {k : Nat} (h : position? tx.witness.length index = some k) :
    ∃ witness, witnessOf tx index = pure witness := by
  have hk : k < tx.witness.length := lt_of_position? h
  have helement : elementAt? tx.witness index = some tx.witness[k] := by
    rw [elementAt?, h]
    exact List.getElem?_eq_getElem hk
  refine ⟨tx.witness[k], ?_⟩
  rw [witnessOf, if_pos (lt_of_elementAt? helement), helement]
  rfl

/-- A whole transaction stays whole if a witness is changed. -/
theorem Whole.modify_witness (h : Whole tx) {w : Witness} (hw : w.Encodable) (k : Nat) :
    Whole { tx with witness := tx.witness.modify k fun _ ↦ w } where
  encodable := { h.encodable with
    witness := by
      intro v hv
      rw [← List.set_eq_modify] at hv
      rcases List.mem_or_eq_of_mem_set hv with hv | rfl
      · exact h.encodable.witness v hv
      · exact hw }
  witnessCount := (List.length_modify _ _ _).trans h.witnessCount
  inStep := h.inStep

/-- Where no witness program is spent the witness of the input makes no difference. -/
theorem Whole.verifyInput_unwitnessed (h : Whole tx) {w : Witness} (hw : w.Encodable)
    {changed : Transaction} (hchange : Transaction.Change.apply? tx (.witness index w) = some changed)
    {previous : TxOutput} (hnone : ∀ input, elementAt? tx.inputs index = some input →
      Unwitnessed input.unlocking previous) (policy : Policy) :
    verifyInput policy changed index previous = verifyInput policy tx index previous := by
  obtain ⟨witness, hmodified, hchanged⟩ := Option.bind_eq_some_iff.mp hchange
  obtain ⟨k, hk, hmodify⟩ := Option.bind_eq_some_iff.mp hmodified
  cases Option.some.inj hmodify
  cases Option.some.inj hchanged
  have h' := h.modify_witness hw k
  obtain ⟨old, hold⟩ := exists_witnessOf hk
  obtain ⟨new, hnew⟩ : ∃ new,
      witnessOf { tx with witness := tx.witness.modify k fun _ ↦ w } index = pure new := by
    refine exists_witnessOf (k := k) ?_
    rw [← hk]
    exact congrArg (position? · index) (List.length_modify _ _ _)
  have hsame : Sighash.SameUnlocked { tx with witness := tx.witness.modify k fun _ ↦ w } tx :=
    ⟨rfl, rfl, rfl, rfl, rfl⟩
  have hsettled : Settled index previous
      { tx with witness := tx.witness.modify k fun _ ↦ w } tx :=
    .unused fun input hinput ↦ ⟨hnone input hinput, ⟨new, hnew⟩, old, hold⟩
  exact verifyInput_congr hsame h'.inStep h.inStep rfl (h'.legacy_eq h hsame) hsettled policy

/-- Verifying an input of a transaction that was read comes to the same, errors and runs included,
whatever the unlocking scripts and the witnesses of other inputs are. If no witness program is spent,
it comes to the same as well when the witness of the input is replaced. -/
theorem verifyInput_isolated {disassembled disassembled' : Bool} {bs bs' : Bytes}
    (htx : Transaction.decode disassembled bs = .ok tx)
    (htx' : Transaction.decode disassembled' bs' = .ok tx') (hsame : SameSpend index tx tx')
    (policy : Policy) (previous : TxOutput) (journal : Journal) :
    verifyInput policy tx' index previous journal = verifyInput policy tx index previous journal ∧
      ∀ (w : Witness) (changed : Transaction), w.Encodable →
        Transaction.Change.apply? tx' (.witness index w) = some changed →
        (∀ input, elementAt? tx.inputs index = some input → Unwitnessed input.unlocking previous) →
        verifyInput policy changed index previous journal =
          verifyInput policy tx index previous journal := by
  have h := whole_of_decode htx
  have h' := whole_of_decode htx'
  have hother := hsame.verifyInput_eq h h' policy previous
  refine ⟨by rw [hother], fun w changed hw hchange hnone ↦ ?_⟩
  have hnone' : ∀ input, elementAt? tx'.inputs index = some input →
      Unwitnessed input.unlocking previous := by
    intro input' hinput'
    have hunlocking := hsame.unlocking
    rw [hinput'] at hunlocking
    obtain ⟨input, hinput, hscript⟩ := Option.map_eq_some_iff.mp hunlocking
    exact hscript ▸ hnone input hinput
  rw [h'.verifyInput_unwitnessed hw hchange hnone', hother]

/-- A transaction whose first input has neither an unlocking script nor a witness. -/
def besideSpend (script : Bytes) (items : Witness) : Transaction where
  inputs := [.ofFields (List.replicate 32 0x11) 0 [] 0xffffffff true,
    .ofFields (List.replicate 32 0x22) 1 script 0xffffffff true]
  outputs := [⟨0, []⟩]
  witness := [[], items]
  lockTime := 0
  version := 2
  segwit := true

/-- The transaction is read from its wire form. -/
theorem decode_besideSpend {script : Bytes} {items : Witness} (hscript : script.length < 2 ^ 63)
    (hitems : items.Encodable) :
    ∃ bs, Transaction.decode true bs = .ok (besideSpend script items) := by
  have hencodable : (besideSpend script items).Encodable := {
    version := rfl
    inputCount := show 2 < 2 ^ 64 by decide
    inputs := List.forall_mem_cons.mpr ⟨⟨rfl, rfl, show 0 < 2 ^ 63 by decide, rfl⟩,
      List.forall_mem_singleton.mpr ⟨rfl, rfl, hscript, rfl⟩⟩
    outputCount := show 1 < 2 ^ 64 by decide
    outputs := List.forall_mem_singleton.mpr ⟨rfl, by decide⟩
    witness := List.forall_mem_cons.mpr ⟨.nil, List.forall_mem_singleton.mpr hitems⟩
    lockTime := rfl }
  obtain ⟨bs, -, hdecode⟩ := Transaction.decode_encode true hencodable (fun _ ↦ rfl) (.inl rfl)
  exact ⟨bs, hdecode⟩

/-- An output that anyone can spend asks for no witness. -/
theorem unwitnessed_openOutput (unlocking : Bytes) : Unwitnessed unlocking openOutput := by
  refine ⟨?_, fun digest before push script _ htokens ↦ ?_⟩
  · rintro ⟨program, hsize, hscript⟩
    have hlength := congrArg List.length hscript
    simp only [openOutput, programLocking, List.length_cons, List.length_nil] at hlength
    omega
  · rw [tokens_openOutput] at htokens
    cases htokens

/-- An output that anyone can spend is spent, whatever the other input and the witness are. -/
theorem verifyInput_isolated_openOutput :
    SameSpend 0 (besideSpend [] []) (besideSpend [0x6a] [[0x01]]) ∧
      ∃ changed journal,
        Transaction.Change.apply? (besideSpend [0x6a] [[0x01]]) (.witness 0 [[0x02]]) =
          some changed ∧
        verifyInput {} (besideSpend [] []) 0 openOutput {} = .ok true journal ∧
        verifyInput {} (besideSpend [0x6a] [[0x01]]) 0 openOutput {} = .ok true journal ∧
        verifyInput {} changed 0 openOutput {} = .ok true journal := by
  have hitem (b : UInt8) : Witness.Encodable [[b]] :=
    ⟨by simp, List.forall_mem_singleton.mpr (by simp)⟩
  have hshort (script : Bytes) (h : script.length ≤ 1) : script.length < 2 ^ 63 := by omega
  obtain ⟨bs, htx⟩ := decode_besideSpend (hshort [] (by decide)) .nil
  obtain ⟨bs', htx'⟩ := decode_besideSpend (hshort [0x6a] (by decide)) (hitem 0x01)
  have hsame : SameSpend 0 (besideSpend [] []) (besideSpend [0x6a] [[0x01]]) :=
    ⟨⟨rfl, rfl, rfl, rfl, rfl⟩, rfl, rfl⟩
  obtain ⟨hother, hwitness⟩ := verifyInput_isolated htx htx' hsame {} openOutput {}
  obtain ⟨journal, htrue⟩ : ∃ journal,
      verifyInput {} (besideSpend [] []) 0 openOutput {} = .ok true journal :=
    verifyInput_openOutput rfl rfl (TxInput.inStep_ofFields ..) rfl rfl
  exact ⟨hsame, _, journal, rfl, htrue, hother.trans htrue,
    (hwitness [[0x02]] _ (hitem 0x02) rfl fun input _ ↦
      unwitnessed_openOutput input.unlocking).trans htrue⟩

end Verification

end BitcoinSpend
