import BitcoinSpend.Proofs.Script.Machine.MultiSignature
import BitcoinSpend.Proofs.Script.Machine.Place

/-!
# Messages that a run asks for

A run asks its environment for messages only where it executes a signature opcode, and only for the
script that the signatures commit to which the opcode takes off the stack. `AsksFor` says of an
outcome which scripts messages were asked for, the one that was refused included; read `Takes` and
`AsksFor` first. The main results are `asksFor_step`, about one step, and `asksFor_runTo` and
`asksFor_run`, about runs.
-/

namespace BitcoinSpend.Script

/-- Whether an environment answers in a given way when it is asked for the message of a script and a
hash type. -/
def Environment.Replies (env : Environment) (code : Bytes) (hashType : UInt8)
    (reply : Except Sighash.SighashError Bytes) : Prop :=
  ∃ messages, env.messages? = some messages ∧ messages code hashType = reply

/-- The error with which a message was refused, if that is what the error is. -/
def MachineError.refusal? : MachineError → Option Sighash.SighashError
  | .sighash e => some e
  | _ => none

/-- The error with which a message was refused, if that has halted a run. -/
def Halt.refusal? : Halt → Option Sighash.SighashError
  | .failed _ => none
  | .raised e => e.refusal?

namespace Machine

variable {env : Environment} {codes others : Bytes → Prop} {α β ε : Type}

/-! ## Scripts that messages are asked for -/

/-- The messages that were asked for behind earlier ones are the answers of the environment for some
scripts. -/
def AskedSince (env : Environment) (codes : Bytes → Prop) (earlier later : List Call) : Prop :=
  ∃ asked, later = asked ++ earlier ∧
    ∀ c ∈ asked, codes c.code ∧ env.Replies c.code c.hashType (.ok c.digest)

/-- Outcomes of computations from a machine that have asked for messages of some scripts only. -/
inductive AsksFor (env : Environment) (codes : Bytes → Prop)
    (refusal? : ε → Option Sighash.SighashError) (m : Machine) :
    EStateM.Result ε Machine α → Prop where
  | ok (a : α) (n : Machine) :
      AskedSince env codes m.calls n.calls → AsksFor env codes refusal? m (.ok a n)
  | error (e : ε) (n : Machine) :
      AskedSince env codes m.calls n.calls →
      (∀ s, refusal? e = some s →
        ∃ code hashType, codes code ∧ env.Replies code hashType (.error s)) →
      AsksFor env codes refusal? m (.error e n)

/-- Nothing has been asked for if the messages are the same. -/
theorem AskedSince.of_eq {earlier later : List Call} (h : later = earlier) :
    AskedSince env codes earlier later :=
  ⟨[], h, nofun⟩

/-- Messages that were asked for in two parts. -/
theorem AskedSince.trans {earlier between later : List Call}
    (hfirst : AskedSince env codes earlier between)
    (hsecond : AskedSince env codes between later) : AskedSince env codes earlier later := by
  obtain ⟨first, rfl, hfirst⟩ := hfirst
  obtain ⟨second, rfl, hsecond⟩ := hsecond
  refine ⟨second ++ first, (List.append_assoc _ _ _).symm, fun c hc ↦ ?_⟩
  rcases List.mem_append.mp hc with hc | hc
  · exact hsecond c hc
  · exact hfirst c hc

/-- A message that is remembered was remembered before, or its script is one of those that were asked
for. -/
theorem AskedSince.of_mem {earlier later : List Call} (h : AskedSince env codes earlier later)
    {c : Call} (hc : c ∈ later) :
    c ∈ earlier ∨ codes c.code ∧ env.Replies c.code c.hashType (.ok c.digest) := by
  obtain ⟨asked, rfl, hasked⟩ := h
  rcases List.mem_append.mp hc with hc | hc
  · exact .inr (hasked c hc)
  · exact .inl hc

/-- More scripts may be named than messages were asked for. -/
theorem AskedSince.mono {earlier later : List Call} (h : AskedSince env codes earlier later)
    (hcodes : ∀ code, codes code → others code) : AskedSince env others earlier later := by
  obtain ⟨asked, hlater, hasked⟩ := h
  exact ⟨asked, hlater, fun c hc ↦ ⟨hcodes _ (hasked c hc).1, (hasked c hc).2⟩⟩

namespace AsksFor

variable {refusal? : ε → Option Sighash.SighashError} {m n : Machine}

/-- More scripts may be named than messages were asked for. -/
theorem mono {outcome : EStateM.Result ε Machine α} (h : AsksFor env codes refusal? m outcome)
    (hcodes : ∀ code, codes code → others code) : AsksFor env others refusal? m outcome := by
  cases h with
  | ok a n hasked => exact .ok a n (hasked.mono hcodes)
  | error e n hasked hrefused =>
      refine .error e n (hasked.mono hcodes) fun s hs ↦ ?_
      obtain ⟨code, hashType, hcode, hreply⟩ := hrefused s hs
      exact ⟨code, hashType, hcodes code hcode, hreply⟩

/-- An error that is not the refusal of a message has asked for nothing more. -/
theorem of_not_refused {e : ε} (hcalls : n.calls = m.calls) (he : refusal? e = none) :
    AsksFor env codes refusal? m (.error e n : EStateM.Result ε Machine α) := by
  refine .error e n (.of_eq hcalls) fun s hs ↦ ?_
  rw [he] at hs
  cases hs

/-- A message that is remembered in the end was remembered before, or its script is one of those that
were asked for. -/
theorem of_mem {a : α} (h : AsksFor env codes refusal? m (.ok a n)) {c : Call}
    (hc : c ∈ n.calls) :
    c ∈ m.calls ∨ codes c.code ∧ env.Replies c.code c.hashType (.ok c.digest) := by
  cases h with
  | ok _ _ hasked => exact hasked.of_mem hc

/-- What is asked for behind a machine at which the messages were the same. -/
theorem of_calls {outcome : EStateM.Result ε Machine α} (hcalls : n.calls = m.calls)
    (h : AsksFor env codes refusal? n outcome) : AsksFor env codes refusal? m outcome := by
  cases h with
  | ok a n hasked => exact .ok a n (hcalls ▸ hasked)
  | error e n hasked hrefused => exact .error e n (hcalls ▸ hasked) hrefused

/-- What is asked for by two computations one after another. -/
theorem bind {c : EStateM ε Machine α} {f : α → EStateM ε Machine β}
    (hc : AsksFor env codes refusal? m (c m))
    (hf : ∀ a n, c m = .ok a n → AsksFor env codes refusal? n (f a n)) :
    AsksFor env codes refusal? m ((c >>= f) m) := by
  rw [bind_apply]
  generalize hfirst : c m = first at hc
  cases hc with
  | ok a n hasked =>
      have hrest := hf a n hfirst
      dsimp only
      generalize f a n = outcome at hrest
      cases hrest with
      | ok b last hlater => exact .ok b last (hasked.trans hlater)
      | error e last hlater hrefused => exact .error e last (hasked.trans hlater) hrefused
  | error e n hasked hrefused => exact .error e n hasked hrefused

end AsksFor

/-- A computation that asks for messages of some scripts only, wherever it begins. -/
def Asks (env : Environment) (codes : Bytes → Prop) (c : StepM α) : Prop :=
  ∀ m, AsksFor env codes Halt.refusal? m (c m)

namespace Asks

/-- Raising an error that is not the refusal of a message asks for nothing. -/
theorem raise {e : MachineError} (h : e.refusal? = none) :
    Asks env codes (Machine.raise e : StepM α) :=
  fun _ ↦ .of_not_refused rfl h

/-- A change of something else than the messages asks for nothing. -/
theorem modify {f : Machine → Machine} (hf : ∀ m, (f m).calls = m.calls) :
    Asks env codes (modify f : StepM Unit) :=
  fun m ↦ .ok () _ (.of_eq (hf m))

/-- What is asked for is named for each of the parts of a computation. -/
theorem compositional : Compositional fun _ c ↦ Asks env codes c where
  pure a _ := .ok a _ (.of_eq rfl)
  fail _ _ := .of_not_refused rfl rfl
  bind hc hf m := .bind (hc m) fun a n _ ↦ hf a n
  onStacks c m := by
    unfold onStacks
    split
    · exact .ok _ _ (.of_eq rfl)
    · exact .of_not_refused rfl rfl

/-- So it is for computations that look at the machine. -/
theorem compositionalSteps : CompositionalSteps fun _ c ↦ Asks env codes c where
  toCompositional := compositional
  get hf m := hf m m
  modify hf := modify fun m ↦ (hf m).2

/-- Performing a check asks for its message. -/
theorem perform {check : SignatureCheck}
    (hcall : ∀ c, check.call? = some c → codes c.code ∧ env.Replies c.code c.hashType (.ok c.digest))
    (hrefused : ∀ s, check.outcome = .error (.sighash s) →
      ∃ code hashType, codes code ∧ env.Replies code hashType (.error s)) :
    Asks env codes check.perform := by
  intro m
  have hasked : AskedSince env codes m.calls (check.call?.toList ++ m.calls) :=
    ⟨_, rfl, fun c hc ↦ hcall c (Option.mem_toList.mp hc)⟩
  rw [SignatureCheck.perform, modify_bind_apply]
  cases houtcome : check.outcome with
  | ok b => exact .ok b _ hasked
  | error e =>
      refine .error _ _ hasked fun s hs ↦ hrefused s ?_
      cases e with
      | sighash => cases hs; exact houtcome
      | unrecognized | missingLiteral | noMessages | assembly | curve | verify | noEffect | stack =>
          cases hs

/-- Verifying a signature asks for nothing. -/
theorem not_refused_of_verifies {signature : Signature} {message : Bytes} {key : PublicKey}
    {e : MachineError} (h : verifies signature message key = .error e) : e.refusal? = none := by
  rw [verifies] at h
  cases hverify : signature.verify secp256k1 message (some key.point) with
  | ok verdict =>
      rw [hverify] at h
      cases h
  | error c =>
      rw [hverify] at h
      cases h
      rfl

/-- Verifying a signature for a digest asks for nothing. -/
theorem not_refused_of_verifiesDigest {policy : Policy} {signature : Signature} {digest : Bytes}
    {key : PublicKey} {e : MachineError}
    (h : verifiesDigest policy signature digest key = .error e) : e.refusal? = none := by
  rw [verifiesDigest] at h
  cases hverifies : verifies signature digest key with
  | error c =>
      rw [hverifies] at h
      cases h
      exact not_refused_of_verifies hverifies
  | ok b =>
      rw [hverifies] at h
      cases b with
      | true => cases h
      | false =>
          cases hfallback : policy.sentinelFallback with
          | true =>
              rw [hfallback] at h
              exact not_refused_of_verifies h
          | false =>
              rw [hfallback] at h
              cases h

/-- Checking a signature asks for the message of the script. -/
theorem perform_checkSignature (env : Environment) (signature key code : Bytes) :
    Asks env (· = code) (checkSignature env signature key code).perform := by
  unfold checkSignature
  split
  · exact perform nofun nofun
  · next hashType _ =>
    split
    · exact perform nofun nofun
    · next messages hmessages =>
      split
      · exact perform nofun nofun
      · exact perform nofun nofun
      · exact perform nofun nofun
      · split
        · next e hreply =>
          refine perform nofun fun s hs ↦ ?_
          cases hs
          exact ⟨code, hashType, rfl, messages, hmessages, hreply⟩
        · next digest hreply =>
          refine perform (fun c hc ↦ ?_) fun s hs ↦ ?_
          · cases hc
            exact ⟨rfl, messages, hmessages, hreply⟩
          · cases not_refused_of_verifiesDigest hs

end Asks

/-! ## Signature opcodes -/

/-- The signatures that an opcode checks which finds some items on the stack. -/
inductive Takes : SignatureOp → List Bytes → List Bytes → Prop where
  | one (s : SignatureOp) (signature key : Bytes) (below : List Bytes) :
      s = .checkSig ∨ s = .checkSigVerify → Takes s [signature] (key :: signature :: below)
  | several {s : SignatureOp} {conclude : Bool → StepM Unit}
      {signatures keys below items : List Bytes} :
      Tallies s conclude → Ballot signatures keys below items → Takes s signatures items

variable {m : Machine} {left : Nat} {rest : List Token}

/-- A refusal asks for nothing. -/
theorem Refuses.asksFor {c : StepM α} (h : Refuses c m) :
    AsksFor env codes Halt.refusal? m (c m) := by
  obtain ⟨reason, n, hc, hcalls⟩ := h
  rw [hc]
  exact .of_not_refused hcalls rfl

/-- What is done with the script that signatures commit to asks for messages of that script. -/
theorem asksFor_scriptCode {signatures : List Bytes} {f : Bytes → StepM α}
    (hf : ∀ code, Asks env (· = code) (f code)) :
    AsksFor env (fun code ↦ assemble (committedTokens env signatures m.code) = .ok code)
      Halt.refusal? m ((scriptCode env signatures >>= f) m) := by
  cases hassemble : assemble (committedTokens env signatures m.code) with
  | ok code =>
      rw [bind_of_ok (scriptCode_of_assemble hassemble)]
      exact (hf code m).mono fun other hother ↦ congrArg Except.ok hother.symm
  | error e =>
      have hraise : scriptCode env signatures m = .error (.raised (.assembly e)) m := by
        rw [scriptCode, get_bind_apply, hassemble]
        rfl
      rw [bind_of_error hraise]
      exact .of_not_refused rfl rfl

/-- Popping two items fails the script if there are fewer. -/
theorem onMainStack_popPair_cases (m : Machine) :
    (∃ first second below, m.memory.main.items = first :: second :: below ∧
        onMainStack Stack.popPair m =
          .ok (first, second) { m with memory.main.items := below }) ∨
      Refuses (onMainStack Stack.popPair) m := by
  rcases hitems : m.memory.main.items with _ | ⟨first, _ | ⟨second, below⟩⟩
  · refine .inr ⟨.stack (.underflow 2 m.memory.main.height), m, ?_, rfl⟩
    simp [onMainStack, onStacks, onMain, Stack.popPair, hitems]
  · refine .inr ⟨.stack (.underflow 2 m.memory.main.height), m, ?_, rfl⟩
    simp [onMainStack, onStacks, onMain, Stack.popPair, hitems]
  · refine .inl ⟨first, second, below, rfl, ?_⟩
    simp [onMainStack, onStacks, onMain, Stack.popPair, hitems]

/-- A check of one signature asks for messages of the script that the signature commits to. -/
theorem asksFor_checkSig (env : Environment) (m : Machine) {s : SignatureOp}
    (hs : s = .checkSig ∨ s = .checkSigVerify) :
    AsksFor env (fun code ↦ ∃ signatures, Takes s signatures m.memory.main.items ∧
        assemble (committedTokens env signatures m.code) = .ok code)
      Halt.refusal? m (checkSig env m) := by
  rcases onMainStack_popPair_cases m with ⟨key, signature, below, hitems, hpop⟩ | hrefuses
  · rw [hitems, checkSig, bind_of_ok hpop]
    refine .of_calls (n := { m with memory.main.items := below }) rfl ?_
    refine (asksFor_scriptCode fun code ↦ .perform_checkSignature env signature key code).mono ?_
    exact fun code hcode ↦ ⟨[signature], .one s signature key below hs, hcode⟩
  · exact hrefuses.bind.asksFor

/-- A check of several signatures asks for messages of the script that the signatures commit to. -/
theorem asksFor_checkMultiSig (env : Environment) (m : Machine) {s : SignatureOp}
    {conclude : Bool → StepM Unit} (hs : Tallies s conclude) :
    AsksFor env (fun code ↦ ∃ signatures, Takes s signatures m.memory.main.items ∧
        assemble (committedTokens env signatures m.code) = .ok code)
      Halt.refusal? m (checkMultiSig env m) := by
  by_cases hballot : ∃ signatures keys below, Ballot signatures keys below m.memory.main.items
  · obtain ⟨signatures, keys, below, hballot⟩ := hballot
    rw [checkMultiSig_of_ballot env hballot]
    refine .of_calls (n := { m with memory.main.items := below }) rfl ?_
    refine (asksFor_scriptCode fun code ↦ Asks.compositional.matchSignatures
      (fun s k ↦ .perform_checkSignature env s k code) signatures keys).mono ?_
    exact fun code hcode ↦ ⟨signatures, .several hs hballot, hcode⟩
  · simp only [not_exists] at hballot
    exact (refuses_checkMultiSig env hballot).asksFor

/-- A signature opcode asks for messages of the script that the signatures commit to which it takes
off the stack. -/
theorem asksFor_signatureOp (env : Environment) (left : Nat) (rest : List Token) (s : SignatureOp)
    (m : Machine) :
    AsksFor env (fun code ↦ ∃ signatures, Takes s signatures m.memory.main.items ∧
        assemble (committedTokens env signatures m.code) = .ok code)
      Halt.refusal? m (signatureOp env left rest s m) := by
  cases s with
  | codeSeparator =>
      rw [signatureOp]
      split
      · exact .ok () _ (.of_eq rfl)
      · exact .ok () m (.of_eq rfl)
  | checkSig =>
      exact .bind (asksFor_checkSig env m (.inl rfl)) fun ok n _ ↦
        Asks.compositional.onStacks _ n
  | checkSigVerify =>
      exact .bind (asksFor_checkSig env m (.inr rfl)) fun ok n _ ↦
        Asks.compositional.require ok n
  | checkMultiSig =>
      exact .bind (asksFor_checkMultiSig env m .push) fun ok n _ ↦
        Asks.compositional.onStacks _ n
  | checkMultiSigVerify =>
      exact .bind (asksFor_checkMultiSig env m .verify) fun ok n _ ↦
        Asks.compositional.require ok n

/-! ## Steps and runs -/

/-- The script that the signatures commit to which a token checks that a machine executes. -/
inductive Commits (env : Environment) (m : Machine) : Token → Bytes → Prop where
  | intro (s : SignatureOp) (signatures : List Bytes) (code : Bytes) :
      m.executing = true → Takes s signatures m.memory.main.items →
      assemble (committedTokens env signatures m.code) = .ok code →
      Commits env m (.op (.signature s)) code

/-- A step asks only for messages of the script that the signatures commit to which it checks. -/
theorem asksFor_step (env : Environment) (left : Nat) (rest : List Token) (t : Token)
    (m : Machine) :
    AsksFor env (Commits env m t) Halt.refusal? m (step env left rest t m) := by
  by_cases ht : ∃ s, t = .op (.signature s)
  · obtain ⟨s, rfl⟩ := ht
    by_cases hm : m.executing = true
    · have heffect : AsksFor env (Commits env m (.op (.signature s))) Halt.refusal? m
          (signatureOp env left rest s m) := by
        refine (asksFor_signatureOp env left rest s m).mono ?_
        rintro code ⟨signatures, htakes, hassemble⟩
        exact .intro s signatures code hm htakes hassemble
      have hstep : step env left rest (.op (.signature s)) =
          whenExecuting env (do signatureOp env left rest s; return false) := step_op ..
      rw [hstep, whenExecuting_taken env _ hm]
      refine .bind (.bind heffect fun _ n _ ↦ .ok false n (.of_eq rfl)) fun took n _ ↦ ?_
      exact .bind (Asks.compositionalSteps.checkHeights n) fun _ n _ ↦ .ok took n (.of_eq rfl)
    · rw [step_skipped env left rest rfl (Bool.eq_false_of_not_eq_true hm)]
      exact .ok _ _ (.of_eq rfl)
  · exact Asks.compositionalSteps.step (fun _ _ ↦ .raise rfl) (fun _ _ _ ↦ .raise rfl)
      (fun s hs ↦ absurd ⟨s, hs⟩ ht) m

variable {script : List Token} {place : Nat} {t : Token} {n : Machine}

/-- A token at which a run arrives asks only for messages of the script that the signatures commit to
which it checks. -/
theorem asksFor_singleton (env : Environment) (behind : List Token) (left : Nat) (t : Token)
    (n : Machine) :
    AsksFor env (Commits env n t) Halt.refusal? n (runPart env behind false left [t] n) := by
  rw [runPart_singleton]
  refine .of_calls (n := { n with log := t :: n.log }) rfl ?_
  refine (asksFor_step env left behind t _).mono ?_
  rintro code ⟨s, signatures, _, hexecuting, htakes, hassemble⟩
  exact .intro s signatures code hexecuting htakes hassemble

/-- Between a place at which a run executes a token and the place behind it, the run asks only for
messages of the script that the signatures commit to which the token checks. -/
theorem asksFor_succ (h : Executes env left script m place t n) :
    AsksFor env (Commits env n t) Halt.refusal? n (runTo env left script (place + 1) m) := by
  rw [runTo_succ env left h.token, bind_of_ok h.arrives]
  exact asksFor_singleton env _ _ t n

/-- The scripts that the signatures commit to which a run checks at some place. -/
def CommitsWithin (env : Environment) (left : Nat) (script : List Token) (m : Machine)
    (code : Bytes) : Prop :=
  ∃ place t n, script[place]? = some t ∧ runTo env left script place m = .ok false n ∧
    Commits env n t code

/-- A run up to a place asks only for messages of the scripts that the signatures commit to which it
checks. -/
theorem asksFor_runTo (env : Environment) (left : Nat) (script : List Token) (place : Nat)
    (m : Machine) :
    AsksFor env (CommitsWithin env left script m) Halt.refusal? m
      (runTo env left script place m) := by
  induction place with
  | zero => exact .ok false m (.of_eq rfl)
  | succ place ih =>
      cases htoken : script[place]? with
      | none =>
          rw [runTo_of_length_le env left (List.getElem?_eq_none_iff.mp htoken)]
          exact ih
      | some t =>
          rw [runTo_succ env left htoken]
          refine .bind ih fun took n hplace ↦ ?_
          cases took with
          | true => exact .ok false n (.of_eq rfl)
          | false =>
              exact (asksFor_singleton env _ _ t n).mono fun code hcode ↦
                ⟨place, t, n, htoken, hplace, hcode⟩

/-- A run asks only for messages of the scripts that the signatures commit to which it checks. -/
theorem asksFor_run (env : Environment) (left : Nat) (script : List Token) (m : Machine) :
    AsksFor env (CommitsWithin env left script m) Halt.refusal? m (run env left script m) := by
  have hwhole := asksFor_runTo env left script script.length m
  rw [← resume_false, ← List.append_nil script, resume_append, List.append_nil]
  rw [runTo, List.drop_length, List.take_length] at hwhole
  refine .bind hwhole fun took n _ ↦ ?_
  cases took <;> exact .ok () n (.of_eq rfl)

/-! ## Scripts -/

/-- Running a script asks only for messages of the scripts that the signatures commit to which it
checks. -/
theorem asksFor_execute (env : Environment) (script : List Token) (lockingStart : Int)
    (m : Machine) :
    AsksFor env (CommitsWithin env lockingStart.toNat script
        { m with code := suffixFrom script lockingStart })
      MachineError.refusal? m (execute env script lockingStart m) := by
  have hrun := asksFor_run env lockingStart.toNat script
    { m with code := suffixFrom script lockingStart }
  rw [execute]
  generalize run env lockingStart.toNat script { m with code := suffixFrom script lockingStart } =
    outcome at hrun
  cases hrun with
  | ok a n hasked => exact .ok () n hasked
  | error e n hasked hrefused =>
      cases e with
      | failed reason => exact .ok () _ hasked
      | raised e => exact .error e n hasked hrefused

/-- Taking the result asks for nothing. -/
theorem asksFor_validateStack (m : Machine) :
    AsksFor env codes MachineError.refusal? m (validateStack m) := by
  rw [validateStack, modify_bind_apply, get_bind_apply]
  split
  · exact .ok false _ (.of_eq rfl)
  · cases hitems : m.memory.main.items with
    | nil =>
        simp only
        exact .ok false _ (.of_eq rfl)
    | cons top below =>
        simp only
        exact .ok (Number.truth top) _ (.of_eq rfl)

/-- A pair of scripts asks only for messages of the scripts that the signatures commit to which it
checks. -/
theorem asksFor_validatePair (env : Environment) (unlocking locking : List Token) (m : Machine) :
    AsksFor env (CommitsWithin env unlocking.length (unlocking ++ locking)
        (holding env.policy.maxStack env.initial.reverse [] locking))
      MachineError.refusal? (start env.policy.maxStack) (validatePair env unlocking locking m) := by
  by_cases hroom : (env.initial.length : Int) ≤ env.policy.maxStack
  · have hexecute := asksFor_execute env (unlocking ++ locking) unlocking.length
      { start env.policy.maxStack with memory.main.items := env.initial.reverse }
    rw [suffixFrom_length, Int.toNat_natCast] at hexecute
    rw [validatePair, bind_apply]
    change AsksFor env _ _ _ ((pushInitial env >>= _) (start env.policy.maxStack))
    rw [bind_of_ok (pushInitial_of_le hroom)]
    refine .of_calls (n := { start env.policy.maxStack with
      memory.main.items := env.initial.reverse }) rfl ?_
    exact .bind hexecute fun _ n _ ↦ asksFor_validateStack n
  · rw [validatePair_overflow (Int.not_le.mp hroom)]
    exact .of_not_refused rfl rfl

end Machine

end BitcoinSpend.Script
