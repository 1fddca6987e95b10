import BitcoinSpend.Proofs.Curve.Order
import BitcoinSpend.Proofs.PublicKey
import BitcoinSpend.Proofs.Signature.Signing
import BitcoinSpend.Proofs.Transaction.Built
import BitcoinSpend.Proofs.Verification.Isolation

/-!
# Signed spends

A spend of a payment to a key is valid if it is signed with the private key: the signature is made for
the transaction before it is put into it, and no signature depends on unlocking scripts. Read
`withScript` first; the main result is `verifyInput_signed`.
-/

namespace BitcoinSpend.Verification

open Script Curve Signature

/-! ## Putting an unlocking script into a transaction -/

/-- A transaction with another unlocking script in one of its inputs. -/
def withScript (tx : Transaction) (index : Nat) (script : Bytes) : Transaction :=
  { tx with inputs := tx.inputs.modify index (·.withUnlocking script) }

/-- What a change does not affect is the same throughout the list. -/
theorem map_modify {α β : Type} {f : α → α} {g : α → β} (h : ∀ a, g (f a) = g a) (l : List α)
    (k : Nat) : (l.modify k f).map g = l.map g := by
  refine List.ext_getElem? fun n ↦ ?_
  rw [List.getElem?_map, List.getElem?_map, List.getElem?_modify]
  cases l[n]? with
  | none => rfl
  | some a =>
      by_cases hkn : k = n
      · simp [hkn, h]
      · simp [hkn]

section

variable {tx : Transaction} {index : Nat} {script : Bytes}

/-- An unlocking script is assigned to an input that there is. -/
theorem change_withScript (hindex : index < tx.inputs.length) (script : Bytes) :
    Transaction.Change.apply? tx (.input index (.unlocking script)) =
      some (withScript tx index script) := by
  unfold Transaction.Change.apply?
  simp only [modifyAt?, position?_natCast hindex]
  rfl

/-- The transaction differs in unlocking scripts at most. -/
theorem sameUnlocked_withScript (tx : Transaction) (index : Nat) (script : Bytes) :
    Sighash.SameUnlocked tx (withScript tx index script) where
  version := rfl
  lockTime := rfl
  outpoints := by
    have hspends (i : TxInput) : (i.withUnlocking script).spends = i.spends := rfl
    exact (map_modify hspends tx.inputs index).symm
  sequences := by
    have hsequence (i : TxInput) : (i.withUnlocking script).sequence = i.sequence := rfl
    exact (map_modify hsequence tx.inputs index).symm
  outputs := rfl

/-- A well-formed transaction stays well-formed with a script that has a wire form. -/
theorem wellFormed_withScript (h : Sighash.WellFormed tx) (hindex : index < tx.inputs.length)
    (hscript : script.length < 2 ^ 63) : Sighash.WellFormed (withScript tx index script) where
  encodable := { h.encodable with
    inputCount := by
      rw [withScript, List.length_modify]
      exact h.encodable.inputCount
    inputs := by
      intro i hi
      have hmodify : modifyAt? tx.inputs index (·.withUnlocking script) =
          some (withScript tx index script).inputs := by
        rw [modifyAt?, position?_natCast hindex]
        rfl
      rcases Transaction.mem_of_modifyAt? hmodify hi with hi | ⟨j, hj, rfl⟩
      · exact h.encodable.inputs i hi
      · have hj := h.encodable.inputs j hj
        exact ⟨hj.txid, hj.vout, hscript, hj.sequence⟩ }
  witnessCount hsegwit := by
    rw [withScript, List.length_modify]
    exact h.witnessCount hsegwit

/-- The input has the script and its text form. -/
theorem exists_input_withScript (hindex : index < tx.inputs.length) (script : Bytes) :
    ∃ input, elementAt? (withScript tx index script).inputs index = some input ∧
      input.unlocking = script ∧ input.InStep := by
  have hlength : index < (withScript tx index script).inputs.length := by
    rwa [withScript, List.length_modify]
  refine ⟨_, ?_, rfl, TxInput.inStep_withUnlocking tx.inputs[index] script⟩
  rw [elementAt?_natCast _ hlength, withScript, List.getElem?_modify, List.getElem?_eq_getElem hindex]
  simp

end

/-! ## The scripts of a payment to a key -/

/-- The tokens of a payment to a key. -/
theorem disassemble_keyHashLocking {keyHash : Bytes} (hsize : keyHash.length = 20) :
    disassemble (keyHashLocking keyHash) = payToKeyHash (.push keyHash) := by
  rw [keyHashLocking, ← Machine.encode_keyHashInstructions hsize]
  exact Instruction.disassemble_flatMap_encode (Machine.wellFormed_keyHashInstructions hsize)

/-- A payment to a key is no witness program. -/
theorem not_isWitnessProgram_keyHashLocking {keyHash : Bytes} (hsize : keyHash.length = 20) :
    ¬ IsWitnessProgram (keyHashLocking keyHash) := by
  rintro ⟨program, hprogram, heq⟩
  have hlength := congrArg List.length heq
  simp only [keyHashLocking, programLocking, List.length_append, List.length_cons,
    List.length_nil, hsize] at hlength
  omega

/-- The bytes that push a signature and a key, both short. -/
theorem exists_assembleTexts {signature key : Bytes}
    (hsignature : 1 ≤ signature.length ∧ signature.length ≤ Instruction.maxDirect)
    (hkey : 1 ≤ key.length ∧ key.length ≤ Instruction.maxDirect) :
    ∃ script, assembleTexts [Hex.encode signature, Hex.encode key] = .ok script ∧
      script.length < 2 ^ 63 ∧ disassemble script = [.push signature] ++ [.push key] := by
  have hwell : Instruction.WellFormed [.direct signature, .direct key] :=
    .cons _ _ (.direct signature hsignature.1 hsignature.2)
      (.cons _ _ (.direct key hkey.1 hkey.2) .nil)
  refine ⟨_, ?_, ?_, Instruction.disassemble_flatMap_encode hwell⟩
  · rw [assembleTexts, List.map_cons, List.map_singleton, Token.ofText_encode, Token.ofText_encode]
    exact Instruction.assemble_flatMap_tokens hwell
  · unfold Instruction.maxDirect at hsignature hkey
    simp only [List.flatMap_cons, List.flatMap_nil, Instruction.encode, List.length_append,
      List.length_cons, List.length_nil]
    omega

/-- A written signature with a hash type is pushed with its length as the opcode. -/
theorem length_signature {encoded : Bytes} (hlength : encoded.length ≤ 72) (hashType : UInt8) :
    1 ≤ (encoded ++ [hashType]).length ∧
      (encoded ++ [hashType]).length ≤ Instruction.maxDirect := by
  rw [List.length_append, List.length_singleton, Instruction.maxDirect]
  omega

/-- A compressed key is pushed with its length as the opcode. -/
theorem length_key (key : PublicKey) :
    1 ≤ key.compressed.length ∧ key.compressed.length ≤ Instruction.maxDirect := by
  rw [PublicKey.length_compressed]
  decide

/-! ## Verification -/

/-- The spend of a payment to a key by pushes of a signature and the key is attempted with success, if
the signature is accepted for the digest that it commits to. -/
theorem attempt_signed {s : Spend} (hmax : 4 ≤ s.policy.maxStack) {publicKey : PublicKey}
    (hpoint : secp256k1.Finite publicKey.point) {signature : Signature} {encoded : Bytes}
    {hashType : UInt8} (hlength : encoded.length ≤ 72)
    (hdecode : Strict.decode encoded = .ok signature) {digest : Bytes}
    (hdigest : s.messages false (keyHashCode publicKey.hash (encoded ++ [hashType])) hashType =
      .ok digest)
    (haccepted : signature.verify secp256k1 digest (some publicKey.point) = .ok .accepted)
    (witness : Witness) (journal : Journal) :
    ∃ journal', s.attempt witness
        ([.push (encoded ++ [hashType])] ++ [.push publicKey.compressed])
        (disassemble (keyHashLocking publicKey.hash)) journal = .ok true journal' := by
  have hsize : publicKey.hash.length = 20 := Hash.length_hash160 publicKey.compressed
  have hdirect : Instruction.maxDirect ≤ maxItemSize := by decide
  have hsignature := Nat.le_trans (length_signature hlength hashType).2 hdirect
  have hkey := Nat.le_trans (length_key publicKey).2 hdirect
  have hmessages : (s.environment false []).messages? = some (s.messages false) := rfl
  have hcheck := Machine.checkSignature_of_accepted hmessages hdigest (decode_of_strict hdecode _)
    (PublicKey.decode_compressed hpoint) haccepted
  obtain ⟨n, hvalid⟩ := Machine.validatePair_of_check rfl rfl hmax hsize (.direct (.ofBytes _))
    (.direct (.ofBytes _)) hsignature hkey rfl hcheck {}
  have hnone : scriptHash? (disassemble (keyHashLocking publicKey.hash)) = none := by
    rw [disassemble_keyHashLocking hsize]
    rfl
  rw [Spend.attempt_of_not_scriptHash hnone,
    Spend.runResolved_of_not_program (not_isWitnessProgram_keyHashLocking hsize),
    disassemble_keyHashLocking hsize]
  exact ⟨_, Spend.runPair_ok journal hvalid⟩

/-- An input whose spend is attempted with success is verified, whatever its witness is. -/
theorem verifyInput_of_attempt (policy : Policy) {tx : Transaction} {index : Nat}
    (previous : TxOutput) (hcoinbase : tx.isCoinbase = false) {input : TxInput}
    (hinput : elementAt? tx.inputs index = some input) (hstep : input.InStep) (journal : Journal)
    (h : ∀ witness, ∃ journal', (⟨policy, tx, index, previous.amount⟩ : Spend).attempt witness
      (disassemble input.unlocking) previous.tokens journal = .ok true journal') :
    ∃ journal', verifyInput policy tx index previous journal = .ok true journal' := by
  obtain ⟨witness, hwitness⟩ : ∃ witness, witnessOf tx index = pure witness := by
    unfold witnessOf
    split
    · next hlt =>
        have hlt : index < tx.witness.length := by omega
        rw [elementAt?_natCast _ hlt, List.getElem?_eq_getElem hlt]
        exact ⟨_, rfl⟩
    · exact ⟨[], rfl⟩
  obtain ⟨journal', hattempt⟩ := h witness
  unfold TxInput.InStep at hstep
  rw [verifyInput_attempts hcoinbase, hinput, hwitness]
  change ∃ journal', (⟨policy, tx, index, previous.amount⟩ : Spend).attempts witness
    (input.tokens?.getD (disassemble input.unlocking)) previous.tokens journal = _
  rw [hstep, Spend.attempts, Machine.bind_apply, hattempt]
  exact ⟨journal', rfl⟩

/-- A signature that is no push of the locking script commits to all of that, in whatever unlocking
script it stands. -/
theorem messages_withScript {tx : Transaction} (htx : Sighash.WellFormed tx) {index : Nat}
    (hindex : index < tx.inputs.length) {script : Bytes} (hscript : script.length < 2 ^ 63)
    {keyHash signature : Bytes} (hne : signature ≠ keyHash) {hashType : Nat}
    (htype : hashType < 256) (policy : Policy) (amount : Int) :
    (⟨policy, withScript tx index script, index, amount⟩ : Spend).messages false
        (keyHashCode keyHash signature) (UInt8.ofNat hashType) =
      Sighash.legacy tx index (keyHashLocking keyHash) hashType := by
  have hbyte : (UInt8.ofNat hashType).toNat = hashType := by
    rw [UInt8.toNat_ofNat']
    omega
  rw [keyHashCode, if_neg hne, Spend.messages, hbyte]
  exact (htx.legacy_eq (wellFormed_withScript htx hindex hscript)
    (sameUnlocked_withScript tx index script) _ _ _).symm

/-- A spend that is signed with a private key is valid. For each private key, each input of a
well-formed transaction that is no coinbase, and each hash type, there are a public key and a digest
of the payment to it. Signing that with nonces, one of which gives a signature, succeeds; and once
the signature and the public key are assembled into the unlocking script, the input is verified under
every policy that leaves room for four items, unless the signature is itself the digest of the key. -/
theorem verifyInput_signed {tx : Transaction} (htx : Sighash.WellFormed tx)
    (hcoinbase : tx.isCoinbase = false) {index : Nat} (hindex : index < tx.inputs.length) {d : Int}
    (hd : 1 ≤ d ∧ d < secp256k1.order) {hashType : Nat} (htype : hashType < 256) (amount : Int)
    {policy : Policy} (hmax : 4 ≤ policy.maxStack) (journal : Journal) :
    ∃ key digest, PublicKey.ofPrivate d = .ok key ∧
      Sighash.legacy tx index (keyHashLocking key.hash) hashType = .ok digest ∧
      ∀ nonces : List Int, (∀ k ∈ nonces, 1 ≤ k ∧ k < secp256k1.order) →
        (∃ k ∈ nonces, withNonce? secp256k1 d (messageNumber secp256k1 digest) k ≠ .ok none) →
        ∃ signature, signTyped secp256k1 d digest nonces hashType = .ok signature ∧
          (signature ≠ key.hash → ∃ script changed journal',
            assembleTexts [Hex.encode signature, Hex.encode key.compressed] = .ok script ∧
            Transaction.Change.apply? tx (.input index (.unlocking script)) = some changed ∧
            verifyInput policy changed index ⟨amount, keyHashLocking key.hash⟩ journal =
              .ok true journal') := by
  obtain ⟨g, hg⟩ := exists_generated
  obtain ⟨key, hkey, hpublic⟩ := PublicKey.exists_ofPrivate hg hd
  have hcode : (keyHashLocking key.hash).length < 2 ^ 63 := by
    simp only [keyHashLocking, List.length_append, List.length_cons, List.length_nil,
      PublicKey.hash, Hash.length_hash160]
    omega
  obtain ⟨digest, hdigest⟩ := htx.exists_legacy hindex hcode
    (Sighash.fits_of_lt (show hashType < 2 ^ 32 by omega))
  refine ⟨key, digest, hkey, hdigest, fun nonces hnonces hsome ↦ ?_⟩
  obtain ⟨signature, encoded, hsign, hlength, hdecode, haccepted⟩ :=
    exists_signTyped hg (by decide +kernel) (isScalar_iff.mpr hd)
      (fun k hk ↦ isScalar_iff.mpr (hnonces k hk)) hsome htype
  refine ⟨_, hsign, fun hne ↦ ?_⟩
  obtain ⟨script, hassemble, hscript, htokens⟩ := exists_assembleTexts
    (length_signature hlength (UInt8.ofNat hashType)) (length_key key)
  have hmessage := messages_withScript htx hindex hscript hne htype policy amount
  rw [hdigest] at hmessage
  obtain ⟨input, hinput, hunlocking, hstep⟩ := exists_input_withScript hindex script
  have hspends : (withScript tx index script).isCoinbase = false := by
    rw [← isCoinbase_congr (sameUnlocked_withScript tx index script).outpoints]
    exact hcoinbase
  obtain ⟨journal', hverified⟩ := verifyInput_of_attempt policy
    ⟨amount, keyHashLocking key.hash⟩ hspends hinput hstep journal fun witness ↦ by
      rw [hunlocking, htokens]
      exact attempt_signed hmax hpublic.onCurve hlength hdecode hmessage (haccepted _ hpublic)
        witness journal
  exact ⟨script, _, journal', hassemble, change_withScript hindex script, hverified⟩

/-- A transaction with an output for its first input only. -/
def unsignedTransaction : Transaction where
  inputs := [.ofFields (List.replicate 32 0x11) 0 [] 0xffffffff true,
    .ofFields (List.replicate 32 0x22) 1 [] 0xffffffff true]
  outputs := [⟨0, []⟩]
  witness := []
  lockTime := 0
  version := 2
  segwit := false

/-- The transaction is well-formed. -/
theorem wellFormed_unsignedTransaction : Sighash.WellFormed unsignedTransaction where
  encodable := {
    version := rfl
    inputCount := show 2 < 2 ^ 64 by decide
    inputs := List.forall_mem_cons.mpr ⟨⟨rfl, rfl, show 0 < 2 ^ 63 by decide, rfl⟩,
      List.forall_mem_singleton.mpr ⟨rfl, rfl, show 0 < 2 ^ 63 by decide, rfl⟩⟩
    outputCount := show 1 < 2 ^ 64 by decide
    outputs := List.forall_mem_singleton.mpr ⟨rfl, by decide⟩
    witness := fun w hw ↦ nomatch hw
    lockTime := rfl }
  witnessCount := fun hsegwit ↦ nomatch hsegwit

/-- The policy without leniencies and with room for four items. -/
def strictPolicy : Policy where
  permissiveRetry := false
  sentinelFallback := false
  laxDer := false
  maxStack := 4

/-- The second input is signed with the first private key, together with an output that is missing. -/
theorem verifyInput_signed_single :
    Sighash.WellFormed unsignedTransaction ∧ unsignedTransaction.isCoinbase = false ∧
      1 < unsignedTransaction.inputs.length ∧ 4 ≤ strictPolicy.maxStack ∧
      ∃ signature script changed journal',
        signTyped secp256k1 1 Sighash.one [1] (3 : Nat) = .ok signature ∧
        assembleTexts [Hex.encode signature, Hex.encode Machine.generatorKey.compressed] =
          .ok script ∧
        Transaction.Change.apply? unsignedTransaction (.input (1 : Nat) (.unlocking script)) =
          some changed ∧
        verifyInput strictPolicy changed (1 : Nat) ⟨0, keyHashLocking Machine.generatorKey.hash⟩ {} =
          .ok true journal' := by
  have hindex : 1 < unsignedTransaction.inputs.length := by decide
  have hmax : 4 ≤ strictPolicy.maxStack := by decide
  obtain ⟨key, digest, hkey, hdigest, hsigned⟩ := verifyInput_signed wellFormed_unsignedTransaction
    rfl hindex (d := 1) (by decide +kernel) (show 3 < 256 by decide) 0 hmax {}
  have hgenerator : PublicKey.ofPrivate 1 = .ok Machine.generatorKey := by decide +kernel
  rw [hgenerator] at hkey
  cases hkey
  have hone (code : Bytes) : Sighash.legacy unsignedTransaction (1 : Nat) code (3 : Nat) =
      .ok Sighash.one := rfl
  rw [hone] at hdigest
  cases hdigest
  obtain ⟨signature, hsign, hverified⟩ := hsigned [1]
    (List.forall_mem_singleton.mpr (by decide +kernel)) ⟨1, by simp, by decide +kernel⟩
  -- A written signature is longer than a digest of a key.
  have hlonger : ¬ (signTyped secp256k1 1 Sighash.one [1] (3 : Nat)).toOption.map List.length =
      some 20 := by
    decide +kernel
  have hne : signature ≠ Machine.generatorKey.hash := by
    rintro rfl
    rw [hsign] at hlonger
    exact hlonger (congrArg some (Hash.length_hash160 Machine.generatorKey.compressed))
  obtain ⟨script, changed, journal', hspend⟩ := hverified hne
  exact ⟨wellFormed_unsignedTransaction, rfl, hindex, hmax, signature, script, changed, journal',
    hsign, hspend⟩

end BitcoinSpend.Verification
