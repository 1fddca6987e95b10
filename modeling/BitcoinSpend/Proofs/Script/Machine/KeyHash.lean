import BitcoinSpend.Proofs.Script.Machine.Inversion
import BitcoinSpend.Proofs.Script.Machine.Separator
import BitcoinSpend.Proofs.Script.Machine.Standard
import BitcoinSpend.Proofs.Script.Machine.Total

/-!
# Payments to a key

A payment to a key asks for a key with a given digest and a signature under it. Read `Authorizes`
first, which says what a signature and a key have to be without running a script. The main result is
`validatePair_payToKeyHash`: an unlocking script is valid only if it leaves such a signature and key
on top of the stack, and pushing them is enough.
-/

namespace BitcoinSpend.Script

/-- The script that a signature of a payment to a key commits to: the locking script without the
push of the digest if that is a push of the signature. -/
def keyHashCode (keyHash signature : Bytes) : Bytes :=
  [0x76, 0xa9] ++ (if signature = keyHash then [] else 0x14 :: keyHash) ++ [0x88, 0xac]

/-- The signatures and keys that satisfy a payment to a key. The last byte of a signature is its hash
type; what is in front of it has to be a signature, under the key, of the digest of the script that
is committed to, or, where the policy allows it, of `Sighash.one`. -/
inductive Authorizes (policy : Policy) (digest : Bytes → UInt8 → Bytes) (keyHash : Bytes) :
    Bytes → Bytes → Prop where
  | intro (encoded : Bytes) (hashType : UInt8) (key : Bytes) (decoded : Signature)
      (publicKey : PublicKey) :
      Hash.hash160 key = keyHash → Signature.decode policy.laxDer encoded = .ok decoded →
      PublicKey.decode key = .ok publicKey →
      (decoded.verify secp256k1 (digest (keyHashCode keyHash (encoded ++ [hashType])) hashType)
          (some publicKey.point) = .ok .accepted ∨
        policy.sentinelFallback = true ∧
          decoded.verify secp256k1 Sighash.one (some publicKey.point) = .ok .accepted) →
      Authorizes policy digest keyHash (encoded ++ [hashType]) key

/-! ## The script that is committed to -/

namespace Machine

variable {env : Environment} {m n : Machine} {left : Nat} {rest : List Token}

/-- Of the tokens of a payment to a key, only the digest can be a push of a signature. -/
theorem committedTokens_payToKeyHash (hsegwit : env.segwit = false) {keyHash : Bytes}
    (hne : keyHash ≠ []) (signature : Bytes) :
    committedTokens env [signature] (payToKeyHash (.push keyHash)) =
      if signature = keyHash then
        [.op (.stack (.shuffle .dup)), .op (.stack (.hash .hash160)),
          .op (.stack (.verify .equalVerify)), .op (.signature .checkSig)]
      else payToKeyHash (.push keyHash) := by
  have hop (o : Opcode) : pushesSignature [signature] (.op o) = false := by
    simp [pushesSignature, Token.push]
  have hpush : pushesSignature [signature] (.push keyHash) = decide (signature = keyHash) := by
    by_cases h : signature = keyHash
    · subst h
      simp [pushesSignature, hne]
    · simp [pushesSignature, Token.push_inj, h, Ne.symm h]
  have hfilter : (payToKeyHash (.push keyHash)).filter (· ≠ .op (.signature .codeSeparator)) =
      payToKeyHash (.push keyHash) := rfl
  rw [committedTokens, hfilter, hsegwit, if_neg Bool.false_ne_true]
  simp only [payToKeyHash, dropSignatures, hop, hpush, Bool.and_false, Bool.false_eq_true, if_false]
  by_cases h : signature = keyHash
  · rw [if_pos h, decide_eq_true h]
    rfl
  · rw [if_neg h, decide_eq_false h]
    rfl

/-- The instructions of a payment to a key. -/
def keyHashInstructions (keyHash : Bytes) : List Instruction :=
  [.op (.stack (.shuffle .dup)), .op (.stack (.hash .hash160)), .direct keyHash,
    .op (.stack (.verify .equalVerify)), .op (.signature .checkSig)]

/-- The instructions of a payment to a key are well-formed. -/
theorem wellFormed_keyHashInstructions {keyHash : Bytes} (hsize : keyHash.length = 20) :
    Instruction.WellFormed (keyHashInstructions keyHash) := by
  have hdirect : (Instruction.direct keyHash).Complete :=
    .direct keyHash (by omega) (by rw [hsize]; decide)
  exact .cons _ _ (.op _ nofun) (.cons _ _ (.op _ nofun) (.cons _ _ hdirect
    (.cons _ _ (.op _ nofun) (.cons _ _ (.op _ nofun) .nil))))

/-- A payment to a key is written as the bytes that it is known by. -/
theorem encode_keyHashInstructions {keyHash : Bytes} (hsize : keyHash.length = 20) :
    (keyHashInstructions keyHash).flatMap Instruction.encode =
      [0x76, 0xa9] ++ (0x14 :: keyHash) ++ [0x88, 0xac] := by
  simp only [keyHashInstructions, List.flatMap_cons, List.flatMap_nil, Instruction.encode, hsize]
  rfl

/-- A payment to a key is assembled to the bytes that it is known by. -/
theorem assemble_payToKeyHash_push {keyHash : Bytes} (hsize : keyHash.length = 20) :
    assemble (payToKeyHash (.push keyHash)) =
      .ok ([0x76, 0xa9] ++ (0x14 :: keyHash) ++ [0x88, 0xac]) := by
  rw [← encode_keyHashInstructions hsize]
  exact Instruction.assemble_flatMap_tokens (wellFormed_keyHashInstructions hsize)

/-- The script that a signature of a payment to a key commits to is assembled. -/
theorem assemble_payToKeyHash (hsegwit : env.segwit = false) {keyHash : Bytes}
    (hsize : keyHash.length = 20) (signature : Bytes) :
    assemble (committedTokens env [signature] (payToKeyHash (.push keyHash))) =
      .ok (keyHashCode keyHash signature) := by
  have hne : keyHash ≠ [] := List.ne_nil_of_length_pos (by omega)
  rw [committedTokens_payToKeyHash hsegwit hne, keyHashCode]
  by_cases h : signature = keyHash
  · have hwell : Instruction.WellFormed [.op (.stack (.shuffle .dup)), .op (.stack (.hash .hash160)),
        .op (.stack (.verify .equalVerify)), .op (.signature .checkSig)] :=
      .cons _ _ (.op _ nofun) (.cons _ _ (.op _ nofun) (.cons _ _ (.op _ nofun)
        (.cons _ _ (.op _ nofun) .nil)))
    rw [if_pos h, if_pos h]
    exact Instruction.assemble_flatMap_tokens hwell
  · rw [if_neg h, if_neg h]
    exact assemble_payToKeyHash_push hsize

/-! ## Checks that succeed -/

/-- A signature verifies if it is accepted. -/
theorem verifies_iff {signature : Signature} {message : Bytes} {key : PublicKey} :
    verifies signature message key = .ok true ↔
      signature.verify secp256k1 message (some key.point) = .ok .accepted := by
  rw [verifies]
  cases signature.verify secp256k1 message (some key.point) with
  | error e =>
      constructor <;> intro h <;> cases h
  | ok verdict => cases verdict <;> decide

/-- A signature verifies for a digest if it is accepted for that or, where the policy allows it, for
`Sighash.one`. -/
theorem verifiesDigest_iff {policy : Policy} {signature : Signature} {digest : Bytes}
    {key : PublicKey} (hkey : secp256k1.Finite key.point) :
    verifiesDigest policy signature digest key = .ok true ↔
      signature.verify secp256k1 digest (some key.point) = .ok .accepted ∨
        policy.sentinelFallback = true ∧
          signature.verify secp256k1 Sighash.one (some key.point) = .ok .accepted := by
  rw [← verifies_iff, ← verifies_iff]
  rw [verifiesDigest]
  -- If the first verification is an error, so is the second one, which no other message changes.
  rcases verifies_cases signature digest hkey with ⟨b, hb⟩ | herror
  swap
  · have hlong := overlong_of_verifies herror
    have hsentinel : verifies signature Sighash.one key = .error (.verify .unwritable) := by
      rw [verifies, Signature.verify_eq_unwritable_iff.mpr hlong]
      rfl
    rw [herror, hsentinel]
    constructor
    · intro h
      cases h
    · rintro (h | ⟨-, h⟩)
      · cases h
      · cases h
  rw [hb]
  cases b with
  | true => exact ⟨fun _ ↦ .inl rfl, fun _ ↦ rfl⟩
  | false =>
      cases hfallback : policy.sentinelFallback with
      | true =>
          refine ⟨fun h ↦ .inr ⟨rfl, h⟩, ?_⟩
          rintro (h | ⟨-, h⟩)
          · cases h
          · exact h
      | false =>
          constructor
          · intro h
            cases h
          · rintro (h | ⟨h, -⟩)
            · cases h
            · cases h

/-- A check succeeds if signature and key can be decoded and the signature verifies for the digest of
the script that it commits to. -/
theorem checkSignature_iff {digest : Bytes → UInt8 → Bytes}
    (hmessages : env.messages? = some fun code hashType ↦ .ok (digest code hashType))
    {signature key code : Bytes} :
    (checkSignature env signature key code).outcome = .ok true ↔
      ∃ encoded hashType decoded publicKey, signature = encoded ++ [hashType] ∧
        Signature.decode env.policy.laxDer encoded = .ok decoded ∧
        PublicKey.decode key = .ok publicKey ∧
        verifiesDigest env.policy decoded (digest code hashType) publicKey = .ok true := by
  rcases List.eq_nil_or_concat' signature with rfl | ⟨encoded, hashType, rfl⟩
  · constructor
    · intro h
      cases h
    · rintro ⟨encoded, hashType, -, -, hempty, -⟩
      exact absurd hempty.symm (List.concat_ne_nil hashType encoded)
  · have hparts {encoded' : Bytes} {hashType' : UInt8}
        (h : encoded ++ [hashType] = encoded' ++ [hashType']) :
        encoded = encoded' ∧ hashType = hashType' := List.append_singleton_inj.mp h
    simp only [checkSignature, List.getLast?_concat, hmessages, List.dropLast_concat]
    cases hdecoded : Signature.decode env.policy.laxDer encoded with
    | error e =>
        constructor
        · intro h
          cases h
        · rintro ⟨encoded', hashType', decoded, publicKey, hsignature, hdecode, -⟩
          obtain ⟨rfl, rfl⟩ := hparts hsignature
          rw [hdecoded] at hdecode
          cases hdecode
    | ok decoded =>
        cases hkey : PublicKey.decode key with
        | error e =>
            refine ⟨fun h ↦ ?_, ?_⟩
            · cases e <;> cases h
            · rintro ⟨encoded', hashType', decoded', publicKey, -, -, hpublic, -⟩
              cases hpublic
        | ok publicKey =>
            refine ⟨fun h ↦ ⟨encoded, hashType, decoded, publicKey, rfl, hdecoded, rfl, h⟩, ?_⟩
            rintro ⟨encoded', hashType', decoded', publicKey', hsignature, hdecode, hpublic, h⟩
            obtain ⟨rfl, rfl⟩ := hparts hsignature
            rw [hdecoded] at hdecode
            cases hdecode
            cases hpublic
            exact h

/-- A check succeeds if the signature that is decoded is accepted for the digest of the script under
the key that is decoded. -/
theorem checkSignature_of_accepted {messages : Messages} (hmessages : env.messages? = some messages)
    {encoded key code digest : Bytes} {hashType : UInt8}
    (hmessage : messages code hashType = .ok digest) {decoded : Signature}
    (hdecoded : Signature.decode env.policy.laxDer encoded = .ok decoded) {publicKey : PublicKey}
    (hkey : PublicKey.decode key = .ok publicKey)
    (haccepted : decoded.verify secp256k1 digest (some publicKey.point) = .ok .accepted) :
    (checkSignature env (encoded ++ [hashType]) key code).outcome = .ok true := by
  simp only [checkSignature, List.getLast?_concat, List.dropLast_concat, hmessages, hmessage,
    hdecoded, hkey, verifiesDigest, verifies_iff.mpr haccepted, bind, Except.bind, if_true]
  rfl

/-- A key with the right digest and a signature satisfy a payment to a key if the check of the two
succeeds. -/
theorem authorizes_iff {digest : Bytes → UInt8 → Bytes}
    (hmessages : env.messages? = some fun code hashType ↦ .ok (digest code hashType))
    {keyHash signature key : Bytes} :
    Authorizes env.policy digest keyHash signature key ↔ Hash.hash160 key = keyHash ∧
      (checkSignature env signature key (keyHashCode keyHash signature)).outcome = .ok true := by
  have hfinite {publicKey : PublicKey} (h : PublicKey.decode key = .ok publicKey) :
      secp256k1.Finite publicKey.point := by
    have hsound := PublicKey.decode_sound key
    rw [h] at hsound
    cases hsound with
    | decoded hpoint => exact hpoint
  rw [checkSignature_iff hmessages]
  constructor
  · rintro ⟨encoded, hashType, _, decoded, publicKey, hdigest, hdecoded, hkey, hverifies⟩
    refine ⟨hdigest, encoded, hashType, decoded, publicKey, rfl, hdecoded, hkey, ?_⟩
    exact (verifiesDigest_iff (hfinite hkey)).mpr hverifies
  · rintro ⟨hdigest, encoded, hashType, decoded, publicKey, rfl, hdecoded, hkey, hverifies⟩
    refine .intro encoded hashType key decoded publicKey hdigest hdecoded hkey ?_
    exact (verifiesDigest_iff (hfinite hkey)).mp hverifies

/-! ## Runs that get to their end -/

/-- A run of a payment to a key that leaves a true item on top has begun with a signature and a key
that satisfy it. -/
theorem authorizes_of_run {digest : Bytes → UInt8 → Bytes} (hsegwit : env.segwit = false)
    (hmessages : env.messages? = some fun code hashType ↦ .ok (digest code hashType))
    {keyHash : Bytes} (hsize : keyHash.length = 20) (hm : m.executing = true)
    (hcode : m.code = payToKeyHash (.push keyHash))
    (h : run env left (payToKeyHash (.push keyHash)) m = .ok () n) {top : Bytes}
    {items : List Bytes} (htop : n.memory.main.items = top :: items)
    (htruth : Number.truth top = true) :
    ∃ key signature below, m.memory.main.items = key :: signature :: below ∧
      Authorizes env.policy digest keyHash signature key := by
  obtain ⟨copied, _, hdup, h⟩ := ok_of_run_stackOp h hm
  obtain ⟨hashed, _, hhash, h⟩ := ok_of_run_stackOp h hm
  obtain ⟨pushed, _, hpush, h⟩ := ok_of_run_literal h hm
  obtain ⟨verified, _, hverify, h⟩ := ok_of_run_stackOp h hm
  obtain ⟨key, signature, below, code, ok, hitems, hassemble, hcheck, hlast⟩ :=
    ok_of_run_checkSig h hm
  obtain ⟨first, rest, hbefore, hcopied⟩ := items_of_dup hdup
  obtain ⟨second, _, hsecond, hhashed⟩ := items_of_hash hhash
  obtain ⟨equal, hequal⟩ := items_of_equalVerify hverify
  -- The item that is copied is hashed, its digest is compared, and it is the key of the check.
  rw [hcopied] at hsecond
  cases hsecond
  rw [hhashed] at hpush
  rw [hpush, List.cons.injEq, List.cons.injEq] at hequal
  obtain ⟨rfl, hdigest, hrest⟩ := hequal
  have hchecked : first :: rest = key :: signature :: below := hrest.trans hitems
  cases hchecked
  -- The item on top in the end is the outcome of the check.
  rw [hlast, List.cons.injEq] at htop
  obtain ⟨rfl, -⟩ := htop
  rw [truth_encode_ofBool] at htruth
  subst htruth
  change assemble (committedTokens env [signature] m.code) = _ at hassemble
  rw [hcode, assemble_payToKeyHash hsegwit hsize] at hassemble
  cases hassemble
  exact ⟨key, signature, below, hbefore, (authorizes_iff hmessages).mpr ⟨hdigest, hcheck⟩⟩

/-! ## Runs that succeed -/

variable {items : List Bytes} {log code : List Token}

/-- A copy is pushed by a step if there is room. -/
theorem step_dup {top : Bytes} (hroom : (items.length : Int) + 2 ≤ env.policy.maxStack) :
    step env left rest (.op (.stack (.shuffle .dup)))
        (holding env.policy.maxStack (top :: items) log code) =
      .ok false (holding env.policy.maxStack (top :: top :: items) log code) := by
  have hheight : ¬env.policy.maxStack < (items.length : Int) + 1 + 1 := by omega
  rw [step_op]
  refine whenExecuting_ok rfl ?_ ?_
  · simp [StackOp.perform, Shuffle.perform, onStacks, onMain, Stack.top, Stack.push, bind_apply,
      Stack.requireRoom, holding, start, Stack.height, hheight, Stack.place, require, pure,
      EStateM.pure]
  · simp only [holding, start, Stack.height, List.length_cons, List.length_nil]
    omega

/-- Two equal items are taken off by a step if there is room for the outcome. -/
theorem step_equalVerify {a : Bytes} (hroom : (items.length : Int) + 1 ≤ env.policy.maxStack) :
    step env left rest (.op (.stack (.verify .equalVerify)))
        (holding env.policy.maxStack (a :: a :: items) log code) =
      .ok false (holding env.policy.maxStack items log code) := by
  have hheight : ¬env.policy.maxStack < (items.length : Int) + 1 := Int.not_lt.mpr hroom
  rw [step_op]
  refine whenExecuting_ok rfl ?_ ?_
  · simp [StackOp.perform, Verify.perform, Inspect.perform, onStacks, onMain, Stack.popPair,
      Stack.pushBool, Stack.pushNumber, Stack.push, bind_apply, Stack.requireRoom, holding, start,
      Stack.height, hheight, Stack.place, Stack.popBool, Stack.pop, truth_encode_ofBool, require,
      pure, EStateM.pure]
  · simp only [holding, start, Stack.height, List.length_nil]
    omega

/-- Two different items fail the script. -/
theorem step_equalVerify_of_ne {a b : Bytes} (hne : a ≠ b)
    (hroom : (items.length : Int) + 1 ≤ env.policy.maxStack) :
    step env left rest (.op (.stack (.verify .equalVerify)))
        (holding env.policy.maxStack (b :: a :: items) log code) =
      .error (.failed .unverified) (holding env.policy.maxStack items log code) := by
  have hheight : ¬env.policy.maxStack < (items.length : Int) + 1 := Int.not_lt.mpr hroom
  rw [step_op]
  refine whenExecuting_error rfl ?_
  simp [StackOp.perform, Verify.perform, Inspect.perform, onStacks, onMain, Stack.popPair,
    Stack.pushBool, Stack.pushNumber, Stack.push, bind_apply, Stack.requireRoom, holding, start,
    Stack.height, hheight, Stack.place, Stack.popBool, Stack.pop, truth_encode_ofBool, require,
    pure, EStateM.pure, hne]
  rfl

/-- A check of a signature pops key and signature and is performed on what is below them. -/
theorem checkSig_holding {maxStack : Int} {key signature bytes : Bytes}
    (hassemble : assemble (committedTokens env [signature] code) = .ok bytes) :
    checkSig env (holding maxStack (key :: signature :: items) log code) =
      (checkSignature env signature key bytes).perform (holding maxStack items log code) := by
  have hpair : onMainStack Stack.popPair (holding maxStack (key :: signature :: items) log code) =
      .ok (key, signature) (holding maxStack items log code) := rfl
  have hcode : scriptCode env [signature] (holding maxStack items log code) =
      .ok bytes (holding maxStack items log code) := scriptCode_of_assemble hassemble
  exact (bind_of_ok hpair _).trans (bind_of_ok hcode _)

/-- The outcome of a check of a signature is pushed by a step if there is room. -/
theorem step_checkSig {key signature bytes : Bytes} {ok : Bool}
    (hassemble : assemble (committedTokens env [signature] code) = .ok bytes)
    (hcheck : (checkSignature env signature key bytes).outcome = .ok ok)
    (hroom : (items.length : Int) + 1 ≤ env.policy.maxStack) :
    step env left rest (.op (.signature .checkSig))
        (holding env.policy.maxStack (key :: signature :: items) log code) =
      .ok false { holding env.policy.maxStack (Number.encode (Number.ofBool ok) :: items) log code
        with calls := (checkSignature env signature key bytes).call?.toList } := by
  have hheight : ¬env.policy.maxStack < (items.length : Int) + 1 := Int.not_lt.mpr hroom
  have hperform : (checkSignature env signature key bytes).perform
      (holding env.policy.maxStack items log code) =
        .ok ok { holding env.policy.maxStack items log code with
          calls := (checkSignature env signature key bytes).call?.toList } := by
    rw [perform_apply, hcheck]
    change EStateM.Result.ok ok { holding env.policy.maxStack items log code with
      calls := (checkSignature env signature key bytes).call?.toList ++ [] } = _
    rw [List.append_nil]
  rw [step_op]
  refine whenExecuting_ok rfl ?_ ?_
  · rw [signatureOp, bind_apply, bind_apply, checkSig_holding hassemble, hperform]
    simp [onMainStack, onStacks, onMain, Stack.pushBool, Stack.pushNumber, Stack.push, bind_apply,
      Stack.requireRoom, holding, start, Stack.height, hheight, Stack.place, pure, EStateM.pure]
  · simpa [holding, start, Stack.height] using hroom

/-- The error of a check of a signature is raised by a step. -/
theorem step_checkSig_raised {maxStack : Int} {key signature bytes : Bytes} {e : MachineError}
    (hassemble : assemble (committedTokens env [signature] code) = .ok bytes)
    (hcheck : (checkSignature env signature key bytes).outcome = .error e) :
    ∃ n, step env left rest (.op (.signature .checkSig))
        (holding maxStack (key :: signature :: items) log code) = .error (.raised e) n := by
  obtain ⟨n, hraised⟩ : ∃ n, checkSig env (holding maxStack (key :: signature :: items) log code) =
      .error (.raised e) n := by
    rw [checkSig_holding hassemble, perform_apply, hcheck]
    exact ⟨_, rfl⟩
  rw [step_op]
  exact ⟨n, whenExecuting_error rfl (bind_of_error (bind_of_error hraised _) _)⟩

/-- A run of a payment to a key comes to compare the digest of the key on top. -/
theorem run_payToKeyHash_compare {keyHash : Bytes} (hsize : keyHash.length = 20)
    (hmax : 4 ≤ env.policy.maxStack) (signature key : Bytes) (log code : List Token) :
    ∃ log', run env 0 (payToKeyHash (.push keyHash))
        (holding env.policy.maxStack [key, signature] log code) =
      run env 0 [.op (.stack (.verify .equalVerify)), .op (.signature .checkSig)]
        (holding env.policy.maxStack [keyHash, Hash.hash160 key, key, signature] log' code) := by
  have hpushed : (Literal.ofBytes keyHash).data.length ≤ maxItemSize := by
    change keyHash.length ≤ maxItemSize
    rw [hsize]
    decide
  refine ⟨_, (run_cons_ok (step_dup ?_)).trans ((run_cons_ok (step_hash .hash160 ?_)).trans
    (run_cons_ok (step_literal hpushed ?_)))⟩
  all_goals
    simp only [List.length_cons, List.length_nil]
    omega

/-- A signature and a key with the right digest, the key on top, end the run of a payment to a key
with a true item if the check of the two succeeds. -/
theorem run_payToKeyHash (hsegwit : env.segwit = false) {keyHash : Bytes}
    (hsize : keyHash.length = 20) (hmax : 4 ≤ env.policy.maxStack) {signature key : Bytes}
    (hdigest : Hash.hash160 key = keyHash)
    (hcheck : (checkSignature env signature key (keyHashCode keyHash signature)).outcome = .ok true)
    (log : List Token) :
    ∃ n, run env 0 (payToKeyHash (.push keyHash))
        (holding env.policy.maxStack [key, signature] log (payToKeyHash (.push keyHash))) =
      .ok () n ∧ n.valid = true ∧ n.conditions = [] ∧
        n.memory.main.items = [Number.encode (Number.ofBool true)] := by
  have hassemble := assemble_payToKeyHash hsegwit hsize signature
  obtain ⟨log', hcompare⟩ := run_payToKeyHash_compare hsize hmax signature key log
    (payToKeyHash (.push keyHash))
  subst hdigest
  refine ⟨_, hcompare.trans ((run_cons_ok (step_equalVerify ?_)).trans
    (run_cons_ok (step_checkSig hassemble hcheck ?_))), rfl, rfl, rfl⟩
  all_goals
    simp only [List.length_cons, List.length_nil]
    omega

/-! ## Pairs of scripts -/

/-- Pushing a signature and then a key with the right digest is valid for a payment to a key, in
whatever way each of them is pushed, if the check of the two succeeds. -/
theorem validatePair_of_check (hinitial : env.initial = []) (hsegwit : env.segwit = false)
    (hmax : 4 ≤ env.policy.maxStack) {keyHash : Bytes} (hsize : keyHash.length = 20)
    {first second : List Token} {signature key : Bytes} (hfirst : SinglePush first signature)
    (hsecond : SinglePush second key) (hsignature : signature.length ≤ maxItemSize)
    (hkey : key.length ≤ maxItemSize) (hdigest : Hash.hash160 key = keyHash)
    (hcheck : (checkSignature env signature key (keyHashCode keyHash signature)).outcome = .ok true)
    (m : Machine) :
    ∃ n, validatePair env (first ++ second) (payToKeyHash (.push keyHash)) m = .ok true n := by
  have hroom : 0 ≤ env.policy.maxStack := by omega
  have hpushes : Pushes (first ++ second) [signature, key] :=
    hfirst.pushes.concat (.data hsecond)
  have hsizes : ∀ item ∈ [signature, key], item.length ≤ maxItemSize :=
    List.forall_mem_cons.mpr ⟨hsignature, List.forall_mem_singleton.mpr hkey⟩
  have htwo : (([] : List Bytes).length : Int) + [signature, key].length ≤
      env.policy.maxStack := by
    simp only [List.length_cons, List.length_nil]
    omega
  obtain ⟨log, hunlock⟩ := run_pushes hpushes hsizes htwo (first ++ second).length
    (payToKeyHash (.push keyHash)) [] (payToKeyHash (.push keyHash))
  obtain ⟨n, hlock, hvalid, hclosed, hitems⟩ :=
    run_payToKeyHash hsegwit hsize hmax hdigest hcheck log
  rw [Nat.sub_self] at hunlock
  have hresult := validatePair_of_run (m := m) hinitial hroom (hunlock.trans hlock) hvalid
    hclosed hitems
  rwa [truth_encode_ofBool] at hresult

/-- An unlocking script is valid for a payment to a key only if it leaves a key with the right digest
on top of the stack and a signature below it that verifies. Conversely, pushing such a signature and
then such a key is valid, in whatever way each of them is pushed. -/
theorem validatePair_payToKeyHash (hinitial : env.initial = []) (hsegwit : env.segwit = false)
    {digest : Bytes → UInt8 → Bytes}
    (hmessages : env.messages? = some fun code hashType ↦ .ok (digest code hashType))
    (hmax : 4 ≤ env.policy.maxStack) {keyHash : Bytes} (hsize : keyHash.length = 20) :
    (∀ (unlocking : List Token) (m n : Machine),
      validatePair env unlocking (payToKeyHash (.push keyHash)) m = .ok true n →
      ∃ b key signature below,
        runPart env (payToKeyHash (.push keyHash)) false unlocking.length unlocking
          { start env.policy.maxStack with code := payToKeyHash (.push keyHash) } = .ok false b ∧
        b.memory.main.items = key :: signature :: below ∧
        Authorizes env.policy digest keyHash signature key) ∧
    ∀ (first second : List Token) (signature key : Bytes) (m : Machine),
      SinglePush first signature → SinglePush second key → signature.length ≤ maxItemSize →
      key.length ≤ maxItemSize → Authorizes env.policy digest keyHash signature key →
      ∃ n, validatePair env (first ++ second) (payToKeyHash (.push keyHash)) m = .ok true n := by
  have hroom : 0 ≤ env.policy.maxStack := by omega
  constructor
  · intro unlocking m n hvalid
    obtain ⟨a, c, hpush, hrun, hclosed, top, items, htop, htruth⟩ := validatePair_true hvalid
    rw [pushInitial_of_le (by rw [hinitial]; exact hroom), hinitial] at hpush
    cases hpush
    obtain ⟨b, hpart, hlock⟩ := run_append (fun _ _ h ↦ by cases h) hrun
    -- The locking script neither opens nor closes conditionals, so none is open at its start.
    have hbalance := run_balance hlock
    rw [hclosed] at hbalance
    have hnone : b.conditions = [] := List.eq_nil_of_length_eq_zero hbalance.symm
    have hexecuting := executing_of_conditions hnone
    have hcode : b.code = payToKeyHash (.push keyHash) :=
      code_of_runPart (Nat.le_refl _) hpart
    obtain ⟨key, signature, below, hitems, hauthorizes⟩ :=
      authorizes_of_run hsegwit hmessages hsize hexecuting hcode hlock htop htruth
    exact ⟨b, key, signature, below, hpart, hitems, hauthorizes⟩
  · intro first second signature key m hfirst hsecond hsignature hkey hauthorizes
    obtain ⟨hdigest, hcheck⟩ := (authorizes_iff hmessages).mp hauthorizes
    exact validatePair_of_check hinitial hsegwit hmax hsize hfirst hsecond hsignature hkey hdigest
      hcheck m

/-- The generator as a public key. -/
def generatorKey : PublicKey where
  point := {
    x := 0x79be667ef9dcbbac55a06295ce870b07029bfcdb2dce28d959f2815b16f81798
    y := 0x483ada7726a3c4655da4fbfc0e1108a8fd17b448a68554199c47d08ffb10d4b8 }

/-- A signature of zero under the generator: both of its integers are the `x` coordinate. -/
def zeroSignature : Signature where
  r := generatorKey.point.x
  s := generatorKey.point.x

/-- The written form of the signature. -/
def zeroEncoded : Bytes :=
  (Signature.Strict.encode? zeroSignature).getD []

/-- An environment in which every signature signs zero. -/
def zeroEnvironment : Environment where
  messages? := some fun _ _ ↦ .ok (List.replicate 32 0)

/-- A payment to the generator. -/
def generatorLocking : List Token :=
  payToKeyHash (.push (Hash.hash160 generatorKey.uncompressed))

/-- Pushes of the signature, with a hash type behind it, and of the generator. -/
def generatorUnlocking : List Token :=
  [.push (zeroEncoded ++ [0x01]), .push generatorKey.uncompressed]

/-- The generator is the key that it is written as. -/
theorem decode_generatorKey : PublicKey.decode generatorKey.uncompressed = .ok generatorKey := by
  decide +kernel

/-- The signature is one of zero under the generator. -/
theorem verify_zeroSignature :
    zeroSignature.verify secp256k1 (List.replicate 32 0) (some generatorKey.point) =
      .ok .accepted := by
  decide +kernel

/-- The signature is read back from its written form. -/
theorem decode_zeroEncoded : Signature.decode true zeroEncoded = .ok zeroSignature := by
  decide +kernel

/-- Where every message is zero, the signature is one of every script under the generator, in
whatever form it is written. -/
theorem checkSignature_generatorKey (hmessages : env.messages? = zeroEnvironment.messages?)
    (hpolicy : env.policy = {}) {encoded : Bytes}
    (hdecoded : Signature.decode true encoded = .ok zeroSignature) (hashType : UInt8)
    (code : Bytes) :
    checkSignature env (encoded ++ [hashType]) generatorKey.uncompressed code =
      ⟨some ⟨code, hashType, List.replicate 32 0⟩, .ok true⟩ := by
  have hlax : Signature.decode env.policy.laxDer encoded = .ok zeroSignature := by
    rw [hpolicy]
    exact hdecoded
  have hverifies : verifiesDigest env.policy zeroSignature (List.replicate 32 0) generatorKey =
      .ok true := by
    rw [verifiesDigest, verifies_iff.mpr verify_zeroSignature]
    rfl
  simp only [checkSignature, List.getLast?_concat, List.dropLast_concat, hmessages, zeroEnvironment,
    hlax, decode_generatorKey, hverifies]

/-- The generator and the signature satisfy a payment to the generator. -/
theorem authorizes_generatorKey :
    Authorizes zeroEnvironment.policy (fun _ _ ↦ List.replicate 32 0)
      (Hash.hash160 generatorKey.uncompressed) (zeroEncoded ++ [0x01])
      generatorKey.uncompressed :=
  .intro zeroEncoded 0x01 _ zeroSignature generatorKey rfl decode_zeroEncoded decode_generatorKey
    (.inl verify_zeroSignature)

/-- The payment is spent by pushes of the signature and the key, so the unlocking script leaves a
signature and a key that satisfy it. -/
theorem validatePair_payToKeyHash_generatorKey :
    zeroEnvironment.initial = [] ∧ zeroEnvironment.segwit = false ∧
      4 ≤ zeroEnvironment.policy.maxStack ∧
      (Hash.hash160 generatorKey.uncompressed).length = 20 ∧
      (∃ n, validatePair zeroEnvironment generatorUnlocking generatorLocking {} = .ok true n) ∧
      ∃ b key signature below, runPart zeroEnvironment generatorLocking false 2 generatorUnlocking
          { start 1000 with code := generatorLocking } = .ok false b ∧
        b.memory.main.items = key :: signature :: below ∧
        Authorizes zeroEnvironment.policy (fun _ _ ↦ List.replicate 32 0)
          (Hash.hash160 generatorKey.uncompressed) signature key := by
  have hinitial : zeroEnvironment.initial = [] := rfl
  have hmax : 4 ≤ zeroEnvironment.policy.maxStack := by decide
  have hsize := Hash.length_hash160 generatorKey.uncompressed
  obtain ⟨hsound, hcomplete⟩ := validatePair_payToKeyHash hinitial rfl rfl hmax hsize
  have hsignature : (zeroEncoded ++ [0x01]).length ≤ maxItemSize := by decide +kernel
  have hkey : generatorKey.uncompressed.length ≤ maxItemSize := by decide +kernel
  obtain ⟨n, hvalid⟩ := hcomplete [.push (zeroEncoded ++ [0x01])]
    [.push generatorKey.uncompressed] _ _ {} (.direct (.ofBytes _)) (.direct (.ofBytes _))
    hsignature hkey authorizes_generatorKey
  exact ⟨rfl, rfl, hmax, hsize, ⟨n, hvalid⟩, hsound generatorUnlocking {} n hvalid⟩

end Machine

end BitcoinSpend.Script
