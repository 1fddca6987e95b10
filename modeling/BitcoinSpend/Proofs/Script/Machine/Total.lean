import BitcoinSpend.Proofs.Curve.Primality
import BitcoinSpend.Proofs.PublicKey
import BitcoinSpend.Proofs.Script.Executable
import BitcoinSpend.Proofs.Script.Machine.Boundary
import BitcoinSpend.Proofs.Signature.Overlong

/-!
# Runs without errors

Where every signature has a message, the scripts that transactions carry run to a result. What can
go wrong in a step fails the script, with one exception: verification may have to write an integer
that has no text. The only other error is that there is no room for the initial items. `Quiet` says
of a computation that it raises nothing else; read `step_quiet` first, then `run_quiet`. The main
results are `validatePair_cases` and `validatePair_overflow`.
-/

namespace BitcoinSpend.Script.Machine

variable {α β : Type} {size : Nat}

/-! ## Quiet computations -/

/-- An outcome that is no error but that of a missing text: the script fails, or what signatures
commit to is still executable. -/
inductive Settled (size : Nat) : EStateM.Result Halt Machine α → Prop where
  | ok {a : α} {m : Machine} (h : Executable size m.code) : Settled size (.ok a m)
  | failed (reason : Failure) (m : Machine) : Settled size (.error (.failed reason) m)
  | unwritable (m : Machine) : Settled size (.error (.raised (.verify .unwritable)) m)

/-- A computation that raises no other error if what signatures commit to is executable. -/
def Quiet (size : Nat) (c : StepM α) : Prop :=
  ∀ m : Machine, Executable size m.code → Settled size (c m)

namespace Quiet

/-- Returning a value is quiet. -/
theorem pure (a : α) : Quiet size (Pure.pure a : StepM α) :=
  fun _ h ↦ .ok h

/-- Failing the script is quiet. -/
theorem fail (reason : Failure) : Quiet size (Machine.fail reason : StepM α) :=
  fun m _ ↦ .failed reason m

/-- Quiet computations one after another are quiet. -/
theorem bind {c : StepM α} {f : α → StepM β} (hc : Quiet size c) (hf : ∀ a, Quiet size (f a)) :
    Quiet size (c >>= f) := by
  intro m h
  have hsettled := hc m h
  rw [bind_apply]
  generalize c m = outcome at hsettled
  cases hsettled with
  | ok hcode => exact hf _ _ hcode
  | failed reason n => exact .failed reason n
  | unwritable n => exact .unwritable n

/-- Changing anything but what signatures commit to is quiet. -/
theorem modify {f : Machine → Machine} (hf : ∀ m, (f m).code = m.code) :
    Quiet size (modify f : StepM Unit) := by
  intro m h
  refine .ok ?_
  rw [hf]
  exact h

/-- A computation that begins with a look at the machine is quiet if it is quiet for each machine.
-/
theorem get {f : Machine → StepM α} (hf : ∀ m, Quiet size (f m)) : Quiet size (get >>= f) :=
  fun m h ↦ hf m m h

/-- A computation on the stacks is quiet. -/
theorem onStacks (c : StacksM α) : Quiet size (Machine.onStacks c) := by
  intro m h
  unfold Machine.onStacks
  cases c m.memory with
  | ok a memory => exact .ok h
  | error e memory => exact .failed _ _

/-- Failures and computations on the stacks are quiet, and so is what is made of them. -/
theorem compositional : Compositional fun _ c ↦ Quiet size c where
  pure := .pure
  fail := .fail
  bind := .bind
  onStacks := .onStacks

/-- So are looks at the machine and changes of anything but what signatures commit to. -/
theorem compositionalSteps : CompositionalSteps fun _ c ↦ Quiet size c where
  toCompositional := compositional
  get := .get
  modify hf := .modify fun m ↦ (hf m).1

/-- Performing a check that reaches an outcome, or lacks a text, is quiet. -/
theorem perform {check : SignatureCheck}
    (h : (∃ b, check.outcome = .ok b) ∨ check.outcome = .error (.verify .unwritable)) :
    Quiet size check.perform := by
  unfold SignatureCheck.perform
  refine .bind (.modify fun _ ↦ rfl) fun _ ↦ ?_
  rcases h with ⟨b, hb⟩ | herror
  · rw [hb]
    exact .pure b
  · rw [herror]
    exact fun m _ ↦ .unwritable m

/-- Taking the script that signatures commit to is quiet, and it is no longer than its tokens may
be. -/
theorem scriptCode (env : Environment) (signatures : List Bytes) {f : Bytes → StepM α}
    (hf : ∀ code : Bytes, code.length ≤ size → Quiet size (f code)) :
    Quiet size (Machine.scriptCode env signatures >>= f) := by
  intro m h
  obtain ⟨code, hcode, hlength⟩ := (h.committedTokens env signatures).exists_assemble
  rw [bind_of_ok (scriptCode_of_assemble hcode)]
  exact hf code hlength m h

end Quiet

/-! ## Signature checks -/

/-- Whether a signature verifies under a decoded key is decided, unless it is overlong. -/
theorem verifies_cases (signature : Signature) (message : Bytes) {key : PublicKey}
    (hkey : secp256k1.Finite key.point) :
    (∃ b, verifies signature message key = .ok b) ∨
      verifies signature message key = .error (.verify .unwritable) := by
  by_cases hlong : Signature.Overlong secp256k1 signature
  · refine .inr ?_
    rw [verifies, Signature.verify_eq_unwritable_iff.mpr hlong]
    rfl
  · have hpoint : secp256k1.OnCurve (some key.point) := hkey
    obtain ⟨verdict, hverdict⟩ := Signature.verify_verdict Curve.secp256k1_order_prime
      Curve.generator_onCurve hlong message hpoint
    refine .inl ⟨verdict = .accepted, ?_⟩
    rw [verifies, hverdict]
    rfl

/-- Only an overlong signature leaves it undecided whether it verifies. -/
theorem overlong_of_verifies {signature : Signature} {message : Bytes} {key : PublicKey}
    (h : verifies signature message key = .error (.verify .unwritable)) :
    Signature.Overlong secp256k1 signature := by
  rw [verifies] at h
  cases hverdict : signature.verify secp256k1 message (some key.point) with
  | ok verdict =>
      rw [hverdict] at h
      cases h
  | error e =>
      rw [hverdict] at h
      cases h
      exact Signature.verify_eq_unwritable_iff.mp hverdict

/-- Whether a signature verifies for a digest under a decoded key is decided, unless it is
overlong. -/
theorem verifiesDigest_cases (policy : Policy) (signature : Signature) (digest : Bytes)
    {key : PublicKey} (hkey : secp256k1.Finite key.point) :
    (∃ b, verifiesDigest policy signature digest key = .ok b) ∨
      verifiesDigest policy signature digest key = .error (.verify .unwritable) := by
  rw [verifiesDigest]
  rcases verifies_cases signature digest hkey with ⟨b, hb⟩ | herror
  · rw [hb]
    cases b with
    | true => exact .inl ⟨true, rfl⟩
    | false =>
        cases policy.sentinelFallback with
        | true => exact verifies_cases signature Sighash.one hkey
        | false => exact .inl ⟨false, rfl⟩
  · rw [herror]
    exact .inr rfl

/-- Only an overlong signature leaves it undecided whether it verifies for a digest. -/
theorem overlong_of_verifiesDigest {policy : Policy} {signature : Signature} {digest : Bytes}
    {key : PublicKey}
    (h : verifiesDigest policy signature digest key = .error (.verify .unwritable)) :
    Signature.Overlong secp256k1 signature := by
  rw [verifiesDigest] at h
  cases hfirst : verifies signature digest key with
  | error e =>
      rw [hfirst] at h
      cases h
      exact overlong_of_verifies hfirst
  | ok b =>
      rw [hfirst] at h
      cases b with
      | true => cases h
      | false =>
          cases hfallback : policy.sentinelFallback with
          | true =>
              rw [hfallback] at h
              exact overlong_of_verifies h
          | false =>
              rw [hfallback] at h
              cases h

/-- Every signature of a script up to a size has a message. -/
def Answers (env : Environment) (size : Nat) : Prop :=
  ∃ messages, env.messages? = some messages ∧
    ∀ (code : Bytes) (hashType : UInt8), code.length ≤ size →
      ∃ digest, messages code hashType = .ok digest

variable {env : Environment}

/-- A callback that gives every message answers for scripts of any size. -/
theorem Answers.of_total {messages : Messages} (hmessages : env.messages? = some messages)
    (htotal : ∀ code hashType, ∃ digest, messages code hashType = .ok digest) (size : Nat) :
    Answers env size :=
  ⟨messages, hmessages, fun code hashType _ ↦ htotal code hashType⟩

/-- Checking a signature reaches an outcome, unless verification has to write an integer that has no
text. -/
theorem checkSignature_cases (hanswers : Answers env size) (signature key : Bytes) {code : Bytes}
    (hcode : code.length ≤ size) :
    (∃ b, (checkSignature env signature key code).outcome = .ok b) ∨
      (checkSignature env signature key code).outcome = .error (.verify .unwritable) := by
  obtain ⟨messages, hmessages, hdigests⟩ := hanswers
  unfold checkSignature
  cases signature.getLast? with
  | none => exact .inl ⟨false, rfl⟩
  | some hashType =>
      rw [hmessages]
      obtain ⟨digest, hdigest⟩ := hdigests code hashType hcode
      have hsound := PublicKey.decode_sound key
      dsimp only
      cases Signature.decode env.policy.laxDer signature.dropLast with
      | error e => exact .inl ⟨false, rfl⟩
      | ok decoded =>
          generalize PublicKey.decode key = publicKey at hsound
          cases hsound with
          | decoded hpoint =>
              dsimp only
              rw [hdigest]
              exact verifiesDigest_cases env.policy decoded digest hpoint
          | @refused e hcurve =>
              -- Decoding a key computes on the curve, but never divides by zero.
              cases e with
              | curve c => exact absurd rfl (hcurve c)
              | _ => exact .inl ⟨false, rfl⟩

/-- The check of a signature lacks a text only for an overlong item. -/
theorem overlongItem_of_checkSignature {signature key code : Bytes}
    (h : (checkSignature env signature key code).outcome = .error (.verify .unwritable)) :
    Signature.OverlongItem signature := by
  unfold checkSignature at h
  split at h
  · cases h
  · split at h
    · cases h
    · split at h
      · cases h
      · cases h
      · cases h
      · next hdecode _ =>
          split at h
          · cases h
          · have hlong := overlong_of_verifiesDigest h
            exact ⟨_, Signature.strict_of_overlong hdecode hlong, hlong⟩

/-- The check of an overlong item under a key that is read lacks a text. -/
theorem checkSignature_of_overlongItem (hanswers : Answers env size) {signature key code : Bytes}
    (hcode : code.length ≤ size) (hlong : Signature.OverlongItem signature) {publicKey : PublicKey}
    (hkey : PublicKey.decode key = .ok publicKey) :
    (checkSignature env signature key code).outcome = .error (.verify .unwritable) := by
  obtain ⟨messages, hmessages, hdigests⟩ := hanswers
  obtain ⟨decoded, hstrict, hlong⟩ := hlong
  rcases List.eq_nil_or_concat' signature with rfl | ⟨encoded, hashType, rfl⟩
  · cases hstrict
  · rw [List.dropLast_concat] at hstrict
    have hdecoded : Signature.decode env.policy.laxDer encoded = .ok decoded := by
      rw [Signature.decode, hstrict]
    obtain ⟨digest, hdigest⟩ := hdigests code hashType hcode
    simp only [checkSignature, List.getLast?_concat, List.dropLast_concat, hmessages, hdecoded, hkey,
      hdigest, verifiesDigest, verifies, Signature.verify_eq_unwritable_iff.mpr hlong]
    rfl

namespace Quiet

/-- Checks of signatures are quiet where every signature has a message. -/
theorem compositionalChecks (hanswers : Answers env size) :
    CompositionalChecks env (·.length ≤ size) fun _ c ↦ Quiet size c where
  toCompositional := compositional
  scriptCode := .scriptCode env
  perform signature key _ hcode := .perform (checkSignature_cases hanswers signature key hcode)

/-- A signature opcode is quiet. A separator needs that what follows it in the locking script is
executable. -/
theorem signatureOp (hanswers : Answers env size) {left : Nat} {rest : List Token}
    (hrest : left = 0 → Executable size rest) (s : SignatureOp) :
    Quiet size (Machine.signatureOp env left rest s) := by
  exact (compositionalChecks hanswers).signatureOp fun _ hleft m _ ↦ .ok (hrest hleft)

end Quiet

/-! ## Steps and runs -/

/-- A step at executable tokens is quiet. A separator needs that what follows it in the locking
script is executable. -/
theorem step_quiet (hanswers : Answers env size) {whole left : Nat} {t : Token} {rest : List Token}
    (htokens : Executable whole (t :: rest)) (hrest : left = 0 → Executable size rest) :
    Quiet size (step env left rest t) := by
  refine Quiet.compositionalSteps.step ?_ ?_ fun s _ ↦ .signatureOp hanswers hrest s
  · rintro text rfl
    exact absurd rfl (htokens.ne_unknown text)
  · rintro f rfl hmissing
    obtain ⟨l, tail, rfl⟩ := htokens.exists_literal
    exact absurd rfl (hmissing l tail)

/-- Going on at executable tokens is quiet, if those of them that belong to the locking script are
within the size for which there are messages. -/
theorem resume_quiet (hanswers : Answers env size) {whole : Nat} {tokens : List Token}
    (tookFirst : TookNext) (left : Nat) (htokens : Executable whole tokens)
    (hlocking : Executable size (tokens.drop left)) :
    Quiet size (resume env tookFirst left tokens) := by
  induction tokens generalizing tookFirst left with
  | nil => cases tookFirst <;> exact .pure ()
  | cons t rest ih =>
      -- The tokens that separators can make signatures commit to are those behind the unlocking
      -- script, and going on leaves fewer of them.
      have hdrop : Executable size (rest.drop (left - 1)) := by
        cases left with
        | zero => exact hlocking.tail
        | succ left => exact hlocking
      cases tookFirst with
      | true => exact ih false (left - 1) htokens.tail hdrop
      | false =>
          have hrest : left = 0 → Executable size rest := by
            rintro rfl
            exact hdrop
          intro m h
          rw [resume_false, run_cons_apply]
          exact Quiet.bind (step_quiet hanswers htokens hrest)
            (fun took ↦ ih took (left - 1) htokens.tail hdrop) _ h

/-- A run of executable tokens is quiet, if those of them that belong to the locking script are
within the size for which there are messages. -/
theorem run_quiet (hanswers : Answers env size) {whole : Nat} (left : Nat) {tokens : List Token}
    (htokens : Executable whole tokens) (hlocking : Executable size (tokens.drop left)) :
    Quiet size (run env left tokens) := by
  rw [← resume_false]
  exact resume_quiet hanswers false left htokens hlocking

/-! ## Pairs of scripts -/

/-- A pair of scripts whose initial items have no room is an error, whatever the scripts are. -/
theorem validatePair_overflow (h : env.policy.maxStack < env.initial.length)
    (unlocking locking : List Token) (m : Machine) :
    validatePair env unlocking locking m =
      .error (.stack .overflow) (start env.policy.maxStack) := by
  rw [validatePair, bind_apply]
  change (pushInitial env >>= _) (start env.policy.maxStack) = _
  rw [bind_apply, pushInitial_of_lt h]

/-- Taking the result has no error. -/
theorem exists_validateStack (m : Machine) : ∃ b n, validateStack m = .ok b n := by
  rw [validateStack, modify_bind_apply, get_bind_apply]
  split
  · exact ⟨_, _, rfl⟩
  · cases hitems : m.memory.main.items with
    | nil =>
        simp only
        exact ⟨_, _, rfl⟩
    | cons top below =>
        simp only
        exact ⟨_, _, rfl⟩

/-- A pair of executable scripts whose initial items have room runs to a result, unless verification
has to write an integer that has no text. -/
theorem validatePair_cases (hanswers : Answers env size)
    (hroom : (env.initial.length : Int) ≤ env.policy.maxStack) {whole : Nat}
    {unlocking locking : List Token} (hunlocking : Executable whole unlocking)
    (hlocking : Executable size locking) (m : Machine) :
    (∃ b n, validatePair env unlocking locking m = .ok b n) ∨
      ∃ n, validatePair env unlocking locking m = .error (.verify .unwritable) n := by
  have ha := pushInitial_of_le hroom
  generalize { start env.policy.maxStack with memory.main.items := env.initial.reverse } = a at ha
  have hexecute : (∃ n, execute env (unlocking ++ locking) unlocking.length a = .ok () n) ∨
      ∃ n, execute env (unlocking ++ locking) unlocking.length a =
        .error (.verify .unwritable) n := by
    have hquiet := run_quiet hanswers unlocking.length (hunlocking.append hlocking)
      (by rw [List.drop_left]; exact hlocking)
    have hsettled := hquiet { a with code := locking } hlocking
    rw [execute, suffixFrom_length, Int.toNat_natCast]
    generalize run env unlocking.length (unlocking ++ locking) { a with code := locking } = outcome
      at hsettled
    cases hsettled with
    | ok => exact .inl ⟨_, rfl⟩
    | failed reason n => exact .inl ⟨_, rfl⟩
    | unwritable n => exact .inr ⟨n, rfl⟩
  have hpair : validatePair env unlocking locking m =
      (execute env (unlocking ++ locking) unlocking.length >>= fun _ ↦ validateStack) a := by
    rw [validatePair, bind_apply]
    change (pushInitial env >>= _) (start env.policy.maxStack) = _
    rw [bind_apply, ha]
  rw [hpair, bind_apply]
  rcases hexecute with ⟨c, hc⟩ | ⟨c, hc⟩
  · rw [hc]
    exact .inl (exists_validateStack c)
  · rw [hc]
    exact .inr ⟨c, rfl⟩

end BitcoinSpend.Script.Machine
