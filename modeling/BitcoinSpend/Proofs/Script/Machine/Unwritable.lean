import BitcoinSpend.Proofs.Script.Machine.Heights

/-!
# Runs that lack a text

Verification writes an integer that is out of range into the log, and may find that it has no text.
Only a check of a signature can halt a step in this way, and the signature is then overlong, so it is
too long for a script to push: the run was given it as an initial item. Read `Blames` first; the main
results are `exists_overlongItem_of_run` and `exists_overlongItem_of_validatePair`.
-/

namespace BitcoinSpend.Script.Machine

variable {α β : Type} {P : Prop} {m n : Machine}

/-! ## Blame -/

/-- An outcome that lacks a text only for a reason. -/
def Blames (P : Prop) (outcome : EStateM.Result Halt Machine α) : Prop :=
  ∀ n, outcome = .error (.raised (.verify .unwritable)) n → P

/-- Computations one after another lack a text only for a reason if each of them does, where it comes
to it. -/
theorem Blames.bind {c : StepM α} {f : α → StepM β} (hc : Blames P (c m))
    (hf : ∀ a n, Blames P (f a n)) : Blames P ((c >>= f) m) := by
  intro last h
  rw [bind_apply] at h
  cases hfirst : c m with
  | ok a n =>
      rw [hfirst] at h
      exact hf a n last h
  | error e n =>
      rw [hfirst] at h
      cases h
      exact hc _ hfirst

/-- A computation that never lacks a text. -/
def Writes (c : StepM α) : Prop :=
  ∀ m, Blames False (c m)

namespace Writes

/-- What never lacks a text needs no reason. -/
theorem blames {c : StepM α} (h : Writes c) (m : Machine) : Blames P (c m) :=
  fun n hc ↦ (h m n hc).elim

/-- Any other error is no lack of a text. -/
theorem throw {e : Halt} (he : e ≠ .raised (.verify .unwritable)) :
    Writes (MonadExcept.throw e : StepM α) := by
  intro m n h
  cases h
  exact he rfl

/-- Failures and computations on the stacks write nothing, and so does what is made of them. -/
theorem compositional : Compositional fun _ c ↦ Writes c where
  pure _ _ _ := nofun
  fail _ := .throw nofun
  bind hc hf m := Blames.bind (hc m) hf
  onStacks c m n h := by
    unfold Machine.onStacks at h
    split at h <;> cases h

/-- Nor do looks at the machine and changes of it. -/
theorem compositionalSteps : CompositionalSteps fun _ c ↦ Writes c where
  toCompositional := compositional
  get hf m := hf m m
  modify _ _ _ := nofun

/-- Taking the script that signatures commit to writes nothing. -/
theorem scriptCode (env : Environment) (signatures : List Bytes) :
    Writes (Machine.scriptCode env signatures) := by
  refine compositionalSteps.get fun m ↦ ?_
  cases assemble (committedTokens env signatures m.code) with
  | ok code => exact compositional.pure code
  | error e => exact .throw nofun

end Writes

/-- A refusal is no lack of a text. -/
theorem Refuses.blames {c : StepM α} (h : Refuses c m) : Blames P (c m) := by
  obtain ⟨reason, n, hc, -⟩ := h
  intro n hraised
  cases hc.symm.trans hraised

/-! ## Steps -/

/-- Some item on the main stack is overlong. -/
def HoldsOverlong (m : Machine) : Prop :=
  ∃ item ∈ m.memory.main.items, Signature.OverlongItem item

/-- The signatures of a ballot are on the stack. -/
theorem Ballot.mem {signatures keys below items : List Bytes} (h : Ballot signatures keys below items)
    {signature : Bytes} (hmem : signature ∈ signatures) : signature ∈ items := by
  cases h with
  | intro keyCount signatureCount extra => simp [hmem]

/-- A check of one signature lacks a text only if it is overlong. -/
theorem blames_checkSig (env : Environment) (m : Machine) :
    Blames (HoldsOverlong m) (checkSig env m) := by
  rcases onMainStack_popPair_cases m with ⟨key, signature, below, hitems, hpop⟩ | hrefuses
  · rw [checkSig, bind_of_ok hpop]
    refine .bind ((Writes.scriptCode env [signature]).blames _) fun code b n hraised ↦ ?_
    rw [perform_apply] at hraised
    split at hraised
    · cases hraised
    · next houtcome =>
        cases hraised
        exact ⟨signature, by simp [hitems], overlongItem_of_checkSignature houtcome⟩
  · exact hrefuses.bind.blames

/-- A check of several signatures lacks a text only if one of them is overlong. -/
theorem blames_checkMultiSig (env : Environment) (m : Machine) :
    Blames (HoldsOverlong m) (checkMultiSig env m) := by
  by_cases hballot : ∃ signatures keys below, Ballot signatures keys below m.memory.main.items
  · obtain ⟨signatures, keys, below, hballot⟩ := hballot
    rw [checkMultiSig_of_ballot env hballot]
    refine .bind ((Writes.scriptCode env signatures).blames _) fun code b n hraised ↦ ?_
    obtain ⟨signature, hmem, key, -, e, houtcome, he⟩ := exists_of_matchSignatures_error hraised
    cases he
    exact ⟨signature, hballot.mem hmem, overlongItem_of_checkSignature houtcome⟩
  · simp only [not_exists] at hballot
    exact (refuses_checkMultiSig env hballot).blames

/-- A signature opcode lacks a text only if an item on the main stack is overlong. -/
theorem blames_signatureOp (env : Environment) (left : Nat) (rest : List Token) (s : SignatureOp)
    (m : Machine) : Blames (HoldsOverlong m) (signatureOp env left rest s m) := by
  cases s with
  | codeSeparator =>
      rw [signatureOp]
      split
      all_goals
        intro _ h
        cases h
  | checkSig =>
      exact .bind (blames_checkSig env m) fun _ n ↦ (Writes.compositional.onStacks _).blames n
  | checkSigVerify =>
      exact .bind (blames_checkSig env m) fun ok n ↦ (Writes.compositional.require ok).blames n
  | checkMultiSig =>
      exact .bind (blames_checkMultiSig env m) fun _ n ↦ (Writes.compositional.onStacks _).blames n
  | checkMultiSigVerify =>
      exact .bind (blames_checkMultiSig env m) fun ok n ↦ (Writes.compositional.require ok).blames n

/-- A step lacks a text only if an item on the main stack is overlong. -/
theorem blames_step (env : Environment) (left : Nat) (rest : List Token) (t : Token) (m : Machine) :
    Blames (HoldsOverlong m) (step env left rest t m) := by
  by_cases ht : ∃ s, t = .op (.signature s)
  · obtain ⟨s, rfl⟩ := ht
    have hstep : step env left rest (.op (.signature s)) =
        whenExecuting env (do signatureOp env left rest s; return false) := step_op ..
    cases hm : m.executing with
    | true =>
        rw [hstep, whenExecuting_taken env _ hm]
        refine .bind (.bind (blames_signatureOp env left rest s m) fun _ _ _ ↦ nofun) fun took n ↦ ?_
        exact .bind (Writes.compositionalSteps.checkHeights.blames n) fun _ _ _ ↦ nofun
    | false =>
        rw [step_skipped env left rest rfl hm]
        exact fun _ ↦ nofun
  · exact (Writes.compositionalSteps.step (fun _ _ ↦ .throw nofun) (fun _ _ _ ↦ .throw nofun)
      fun s hs ↦ absurd ⟨s, hs⟩ ht).blames m

/-! ## Runs -/

variable {env : Environment} {unlocking locking : List Token}

/-- A run of addressable scripts lacks a text only if one of its initial items is overlong. -/
theorem exists_overlongItem_of_run (haddressable : Addressable env.initial (unlocking ++ locking))
    (h : run env unlocking.length (unlocking ++ locking) (pairStart env locking) =
      .error (.raised (.verify .unwritable)) n) :
    ∃ item ∈ env.initial, Signature.OverlongItem item := by
  obtain ⟨place, t, b, -, hplace, hstep⟩ := exists_place_of_run_error h
  obtain ⟨item, hmem, hlong⟩ := blames_step env _ _ t _ n hstep
  refine ⟨item, ?_, hlong⟩
  refine (permitted_of_addressable haddressable hplace item ?_).resolve_left fun hshort ↦ ?_
  · exact List.mem_append_left _ hmem
  · unfold maxItemSize at hshort
    exact Signature.not_overlongItem_of_length_le (by omega) hlong

/-- The error of a pair of scripts whose initial items have room is raised by its run. -/
theorem run_of_validatePair_error (hroom : (env.initial.length : Int) ≤ env.policy.maxStack)
    {e : MachineError} (h : validatePair env unlocking locking m = .error e n) :
    run env unlocking.length (unlocking ++ locking) (pairStart env locking) =
      .error (.raised e) n := by
  cases hrun : run env unlocking.length (unlocking ++ locking) (pairStart env locking) with
  | ok a b =>
      rw [validatePair_apply rfl hroom, bind_of_ok (execute_of_run hrun)] at h
      obtain ⟨verdict, last, hverdict⟩ := exists_validateStack b
      cases hverdict.symm.trans h
  | error halt b =>
      cases halt with
      | failed reason =>
          obtain ⟨last, hverdict⟩ := validatePair_of_run_failed (m := m) rfl hroom hrun
          cases hverdict.symm.trans h
      | raised e' =>
          cases (validatePair_of_run_raised rfl hroom hrun).symm.trans h
          rfl

/-- A pair of addressable scripts lacks a text only if one of its initial items is overlong. -/
theorem exists_overlongItem_of_validatePair
    (haddressable : Addressable env.initial (unlocking ++ locking))
    (hroom : (env.initial.length : Int) ≤ env.policy.maxStack)
    (h : validatePair env unlocking locking m = .error (.verify .unwritable) n) :
    ∃ item ∈ env.initial, Signature.OverlongItem item :=
  exists_overlongItem_of_run haddressable (run_of_validatePair_error hroom h)

/-! ## Overlong signatures that are checked -/

variable {size : Nat} {signature key : Bytes} {publicKey : PublicKey}

/-- A check of an overlong signature under a key that is read lacks a text. -/
theorem run_checkSig_overlong (hanswers : Answers env size) {code : List Token}
    (hcode : Executable size code) (hlong : Signature.OverlongItem signature)
    (hkey : PublicKey.decode key = .ok publicKey) (maxStack : Int) (items : List Bytes) (left : Nat)
    (log : List Token) :
    ∃ n, run env left [.op (.signature .checkSig)]
        (holding maxStack (key :: signature :: items) log code) =
      .error (.raised (.verify .unwritable)) n := by
  obtain ⟨bytes, hassemble, hlength⟩ := (hcode.committedTokens env [signature]).exists_assemble
  obtain ⟨n, hstep⟩ := step_checkSig_raised hassemble
    (checkSignature_of_overlongItem hanswers hlength hlong hkey)
  exact ⟨n, run_cons_error hstep⟩

/-- A script that only checks a signature lacks a text for an overlong one and a key that is read. -/
theorem validatePair_checkSig_overlong (hanswers : Answers env 1)
    (hinitial : env.initial = [signature, key]) (hmax : 2 ≤ env.policy.maxStack)
    (hlong : Signature.OverlongItem signature) (hkey : PublicKey.decode key = .ok publicKey)
    (m : Machine) :
    ∃ n, validatePair env [] (disassemble [0xac]) m = .error (.verify .unwritable) n := by
  have htokens : disassemble [0xac] = [.op (.signature .checkSig)] :=
    Instruction.disassemble_opcode (o := .signature .checkSig) nofun
  have hexecutable := executable_disassemble [0xac]
  rw [htokens] at hexecutable ⊢
  obtain ⟨n, hrun⟩ := run_checkSig_overlong hanswers hexecutable hlong hkey env.policy.maxStack [] 0 []
  exact ⟨n, validatePair_of_run_raised hinitial hmax hrun⟩

/-- A payment to a key lacks a text for an overlong signature and a key with the right digest that is
read. -/
theorem validatePair_payToKeyHash_overlong (hanswers : Answers env size)
    (hlocking : Executable size (payToKeyHash (.push (Hash.hash160 key))))
    (hinitial : env.initial = [signature, key]) (hmax : 4 ≤ env.policy.maxStack)
    (hlong : Signature.OverlongItem signature) (hkey : PublicKey.decode key = .ok publicKey)
    (m : Machine) :
    ∃ n, validatePair env [] (payToKeyHash (.push (Hash.hash160 key))) m =
      .error (.verify .unwritable) n := by
  obtain ⟨log, hcompare⟩ := run_payToKeyHash_compare (Hash.length_hash160 key) hmax signature key []
    (payToKeyHash (.push (Hash.hash160 key)))
  obtain ⟨n, hrun⟩ := run_checkSig_overlong hanswers hlocking hlong hkey env.policy.maxStack [] _ _
  have htwo : ([signature, key].length : Int) ≤ env.policy.maxStack := by
    simp only [List.length_cons, List.length_nil]
    omega
  refine ⟨n, validatePair_of_run_raised hinitial htwo (hcompare.trans ?_)⟩
  refine (run_cons_ok (step_equalVerify ?_)).trans hrun
  simp only [List.length_cons, List.length_nil]
  omega

end BitcoinSpend.Script.Machine
