import BitcoinSpend.Proofs.Script.Machine.Dispatch

/-!
# What one step looks at

A token other than a conditional keyword is run without regard to the conditionals that are open,
once it is clear whether it is run at all, and it leaves them as they are. `Oblivious` says this of
a computation; `step_sameOutcome` says it of a step in a branch that is taken, and `step_skipped`
says all that a step does in a branch that is not. Nothing that is run looks at whether the policy
tries a failed spend once more; `resume_withRetry` says this of runs.
-/

namespace BitcoinSpend.Script

/-- Whether a token is a conditional keyword. -/
def Token.isBranch : Token → Bool
  | .op (.branch _) => true
  | _ => false

/-- Whether a token fails every script that executes it. -/
def Token.failsExecuted : Token → Bool
  | .op (.reserved _) => true
  | .invalid _ => true
  | _ => false

/-- A token that is no conditional keyword names no opcode that is one. -/
theorem Token.not_branch_of_opcode {t : Token} (ht : t.isBranch = false) {o : Opcode}
    (ho : t.opcode? = some o) (b : Branch) : o ≠ .branch b := by
  rintro rfl
  cases t with
  | op o =>
      cases ho
      cases ht
  | synonym a => cases a <;> cases ho
  | literal | invalid | unknown => cases ho

/-- The environment under a policy that tries a failed spend once more, or not. -/
def Environment.withRetry (env : Environment) (retry : Bool) : Environment :=
  { env with policy := { env.policy with permissiveRetry := retry } }

namespace Machine

variable {α β : Type}

/-- A step fails if both stacks together are higher than allowed. -/
theorem checkHeights_apply (env : Environment) (m : Machine) :
    checkHeights env m =
      if env.policy.maxStack < m.memory.main.height + m.memory.alt.height then
        .error (.failed .stacksTooHigh) m
      else .ok () m := by
  rw [checkHeights, get_bind_apply]
  split <;> rfl

/-- In a branch that is taken a computation is run and the stacks are checked behind it. -/
theorem whenExecuting_taken (env : Environment) (c : StepM TookNext) {m : Machine}
    (h : m.executing = true) :
    whenExecuting env c m = (do
      let tookNext ← c
      checkHeights env
      return tookNext : StepM TookNext) m := by
  rw [whenExecuting, get_bind_apply, if_pos h]

/-- In a branch that is not taken a computation is left out. -/
theorem whenExecuting_skipped (env : Environment) (c : StepM TookNext) {m : Machine}
    (h : m.executing = false) : whenExecuting env c m = .ok false m := by
  rw [whenExecuting, get_bind_apply, if_neg (by rw [h]; exact Bool.false_ne_true)]
  rfl

/-- The script that signatures commit to is taken without a change if it is assembled. -/
theorem scriptCode_of_assemble {env : Environment} {signatures : List Bytes} {m : Machine}
    {code : Bytes} (h : assemble (committedTokens env signatures m.code) = .ok code) :
    scriptCode env signatures m = .ok code m := by
  rw [scriptCode, get_bind_apply, h]
  rfl

/-- Performing a check remembers its message and takes its outcome. -/
theorem perform_apply (check : SignatureCheck) (m : Machine) :
    check.perform m = match check.outcome with
      | .ok b => .ok b { m with calls := check.call?.toList ++ m.calls }
      | .error e => .error (.raised e) { m with calls := check.call?.toList ++ m.calls } := by
  rw [SignatureCheck.perform, modify_bind_apply]
  cases check.outcome <;> rfl

/-- Takes keys and signatures off the stack, each behind their number, and one further item. Both are
given in the order in which they were pushed, the signatures first. -/
def takeBallot : StepM (List Bytes × List Bytes) := do
  let keyCount ← onMainStack Stack.popNumber
  unless 0 ≤ keyCount ∧ keyCount ≤ maxKeys do fail (.keyCount keyCount)
  let keys ← onMainStack (Stack.popMany keyCount)
  let signatureCount ← onMainStack Stack.popNumber
  unless 0 ≤ signatureCount ∧ signatureCount ≤ keyCount do fail (.signatureCount signatureCount)
  let signatures ← onMainStack (Stack.popMany signatureCount)
  discard <| onMainStack Stack.pop
  return (signatures.reverse, keys.reverse)

/-- A check of several signatures first takes them and the keys off the stack. -/
theorem checkMultiSig_eq (env : Environment) :
    checkMultiSig env = (do
      let (signatures, keys) ← takeBallot
      let code ← scriptCode env signatures
      matchSignatures (fun s k ↦ checkSignature env s k code) signatures keys) := by
  have hguard {α β : Type} (p : Prop) [Decidable p] (c d : StepM α) (f : α → StepM β) :
      (if p then c else d) >>= f = if p then c >>= f else d >>= f := by
    split <;> rfl
  simp only [checkMultiSig, takeBallot, bind_assoc, pure_bind, hguard]

/-! ## Properties that computations have from their parts -/

/-- A property that failing and computations on the stacks have, and computations one after another
have from each of them. -/
structure Compositional (P : (α : Type) → StepM α → Prop) : Prop where
  pure {α : Type} (a : α) : P α (pure a)
  fail {α : Type} (reason : Failure) : P α (fail reason)
  bind {α β : Type} {c : StepM α} {f : α → StepM β} :
    P α c → (∀ a, P β (f a)) → P β (c >>= f)
  onStacks {α : Type} (c : StacksM α) : P α (onStacks c)

/-- A compositional property that checks of signatures have, if the script that the signatures
commit to is usable. -/
structure CompositionalChecks (env : Environment) (usable : Bytes → Prop)
    (P : (α : Type) → StepM α → Prop) : Prop extends Compositional P where
  scriptCode {α : Type} (signatures : List Bytes) {f : Bytes → StepM α} :
    (∀ code, usable code → P α (f code)) → P α (scriptCode env signatures >>= f)
  perform (signature key : Bytes) {code : Bytes} :
    usable code → P Bool (checkSignature env signature key code).perform

/-- A compositional property that computations have which look at the machine, or change neither what
signatures commit to nor the messages that were asked for. -/
structure CompositionalSteps (P : (α : Type) → StepM α → Prop) : Prop extends Compositional P where
  get {α : Type} {f : Machine → StepM α} : (∀ m, P α (f m)) → P α (get >>= f)
  modify {f : Machine → Machine} :
    (∀ m, (f m).code = m.code ∧ (f m).calls = m.calls) → P Unit (modify f)

namespace Compositional

variable {P : (α : Type) → StepM α → Prop}

/-- A choice has what both of its sides have. -/
theorem ite (_ : Compositional P) {p : Prop} [Decidable p] {c d : StepM α} (hc : P α c)
    (hd : P α d) : P α (if p then c else d) := by
  split
  · exact hc
  · exact hd

/-- Requiring a success has every compositional property. -/
theorem require (hP : Compositional P) (ok : Bool) : P Unit (require ok) := by
  unfold Machine.require
  exact hP.ite (hP.pure _) (hP.fail _)

/-- Pushing a literal has every compositional property. -/
theorem pushLiteral (hP : Compositional P) (l : Literal) : P Unit (pushLiteral l) := by
  unfold Machine.pushLiteral
  exact hP.ite (hP.bind (hP.fail _) fun _ ↦ hP.onStacks _) (hP.onStacks _)

/-- Taking keys and signatures off the stack has every compositional property. -/
theorem takeBallot (hP : Compositional P) : P (List Bytes × List Bytes) takeBallot := by
  -- Each guard doubles what follows it: once behind its failure and once without.
  refine hP.bind (hP.onStacks _) fun keyCount ↦ hP.ite ?_ (hP.bind (hP.fail _) fun _ ↦ ?_)
  all_goals
    refine hP.bind (hP.onStacks _) fun keys ↦ hP.bind (hP.onStacks _) fun signatureCount ↦ ?_
    refine hP.ite ?_ (hP.bind (hP.fail _) fun _ ↦ ?_)
  all_goals
    refine hP.bind (hP.onStacks _) fun signatures ↦ ?_
    exact hP.bind (hP.bind (hP.onStacks _) fun _ ↦ hP.pure _) fun _ ↦ hP.pure _

/-- Matching signatures with keys has the compositional properties of the checks. -/
theorem matchSignatures (hP : Compositional P) {check : Bytes → Bytes → SignatureCheck}
    (hcheck : ∀ s k, P Bool (check s k).perform) (signatures keys : List Bytes) :
    P Bool (matchSignatures check signatures keys) := by
  induction keys generalizing signatures with
  | nil => cases signatures <;> exact hP.pure _
  | cons k keys ih =>
      cases signatures with
      | nil => exact hP.pure _
      | cons s signatures =>
          rw [Machine.matchSignatures]
          refine hP.ite (hP.pure _) (hP.bind (hcheck s k) fun _ ↦ ?_)
          exact hP.ite (ih _) (ih _)

end Compositional

namespace CompositionalChecks

variable {env : Environment} {usable : Bytes → Prop} {P : (α : Type) → StepM α → Prop}

/-- Checking one signature. -/
theorem checkSig (hP : CompositionalChecks env usable P) : P Bool (checkSig env) :=
  hP.bind (hP.onStacks _) fun _ ↦ hP.scriptCode _ fun _ hcode ↦ hP.perform _ _ hcode

/-- Matching signatures with keys. -/
theorem matchSignatures (hP : CompositionalChecks env usable P) {code : Bytes}
    (hcode : usable code) (signatures keys : List Bytes) :
    P Bool (matchSignatures (fun s k ↦ checkSignature env s k code) signatures keys) :=
  hP.toCompositional.matchSignatures (fun s k ↦ hP.perform s k hcode) signatures keys

/-- Checking several signatures. -/
theorem checkMultiSig (hP : CompositionalChecks env usable P) : P Bool (checkMultiSig env) := by
  rw [checkMultiSig_eq]
  exact hP.bind hP.takeBallot fun _ ↦ hP.scriptCode _ fun _ hcode ↦ hP.matchSignatures hcode _ _

/-- A signature opcode has a property if changing what signatures commit to has it, where the opcode
does so. -/
theorem signatureOp (hP : CompositionalChecks env usable P) {left : Nat} {rest : List Token}
    {s : SignatureOp}
    (hseparator : s = .codeSeparator → left = 0 → P Unit (modify fun m ↦ { m with code := rest })) :
    P Unit (signatureOp env left rest s) := by
  cases s with
  | codeSeparator =>
      rw [Machine.signatureOp]
      split
      · next hleft => exact hseparator rfl hleft
      · exact hP.pure _
  | checkSig => exact hP.bind hP.checkSig fun _ ↦ hP.onStacks _
  | checkSigVerify => exact hP.bind hP.checkSig fun _ ↦ hP.require _
  | checkMultiSig => exact hP.bind hP.checkMultiSig fun _ ↦ hP.onStacks _
  | checkMultiSigVerify => exact hP.bind hP.checkMultiSig fun _ ↦ hP.require _

end CompositionalChecks

namespace CompositionalSteps

variable {P : (α : Type) → StepM α → Prop} {env : Environment} {left : Nat} {rest : List Token}
  {t : Token}

/-- The check of the stacks. -/
theorem checkHeights (hP : CompositionalSteps P) : P Unit (checkHeights env) := by
  unfold Machine.checkHeights
  exact hP.get fun _ ↦ hP.ite (hP.fail _) (hP.pure _)

/-- What is run in a branch that is taken, with the check of the stacks behind it. -/
theorem whenExecuting (hP : CompositionalSteps P) {c : StepM TookNext} (hc : P TookNext c) :
    P TookNext (whenExecuting env c) := by
  unfold Machine.whenExecuting
  refine hP.get fun _ ↦ hP.ite (hP.bind hc fun _ ↦ ?_) (hP.pure _)
  exact hP.bind hP.checkHeights fun _ ↦ hP.pure _

/-- A conditional keyword. -/
theorem branch (hP : CompositionalSteps P) (b : Branch) : P Unit (branch b) := by
  have hopen (wanted : Bool) : P Unit (openConditional wanted) := by
    refine hP.get fun _ ↦ hP.ite (hP.bind (hP.onStacks _) fun _ ↦ ?_) ?_
    all_goals exact hP.modify fun _ ↦ ⟨rfl, rfl⟩
  cases b with
  | whenTrue => exact hopen true
  | whenFalse => exact hopen false
  | otherwise | close =>
      refine hP.get fun _ ↦ ?_
      split
      · exact hP.fail _
      · exact hP.modify fun _ ↦ ⟨rfl, rfl⟩

/-- An opcode has a property if signature opcodes and the error of a missing literal have it, where
it comes to them. -/
theorem opcode (hP : CompositionalSteps P) {o : Opcode}
    (hmissing : ∀ f, o = .pushData f → (∀ l tail, rest ≠ .literal l :: tail) →
      P TookNext (raise (.missingLiteral f)))
    (hsignature : ∀ s, o = .signature s → P Unit (signatureOp env left rest s)) :
    P TookNext (opcode env left t rest o) := by
  cases o with
  | disabled d =>
      exact hP.get fun _ ↦ hP.ite (hP.bind (hP.onStacks _) fun _ ↦ hP.fail _) (hP.fail _)
  | forbidden f => exact hP.fail _
  | branch b => exact hP.bind (hP.branch b) fun _ ↦ hP.pure _
  | pushData f =>
      refine hP.whenExecuting ?_
      split
      · refine hP.bind (hP.pushLiteral _) fun _ ↦ hP.bind ?_ fun _ ↦ hP.pure _
        exact hP.modify fun _ ↦ ⟨rfl, rfl⟩
      · next hrest => exact hmissing f rfl hrest
  | reserved r => exact hP.whenExecuting (hP.fail _)
  | nop k => exact hP.whenExecuting (hP.pure _)
  | signature s => exact hP.whenExecuting (hP.bind (hsignature s rfl) fun _ ↦ hP.pure _)
  | stack op =>
      refine hP.whenExecuting (hP.bind (hP.onStacks _) fun _ ↦ ?_)
      exact hP.bind (hP.require _) fun _ ↦ hP.pure _

/-- A step has a property if signature opcodes and the errors of unusable tokens have it, where it
comes to them. -/
theorem step (hP : CompositionalSteps P)
    (hunknown : ∀ text, t = .unknown text → P TookNext (raise (.unrecognized text)))
    (hmissing : ∀ f, t = .op (.pushData f) → (∀ l tail, rest ≠ .literal l :: tail) →
      P TookNext (raise (.missingLiteral f)))
    (hsignature : ∀ s, t = .op (.signature s) → P Unit (signatureOp env left rest s)) :
    P TookNext (step env left rest t) := by
  cases t with
  | unknown text => exact hunknown text rfl
  | literal l => exact hP.whenExecuting (hP.bind (hP.pushLiteral l) fun _ ↦ hP.pure _)
  | invalid payload => exact hP.whenExecuting (hP.fail _)
  | op o =>
      rw [step_op]
      exact hP.opcode (fun f hf ↦ hmissing f (congrArg _ hf)) fun s hs ↦
        hsignature s (congrArg _ hs)
  | synonym a =>
      rw [step_synonym]
      -- No synonym names a push with a length field or a signature opcode.
      refine hP.opcode (fun f hf ↦ ?_) fun s hs ↦ ?_
      · cases a <;> cases hf
      · cases a <;> cases hs

end CompositionalSteps

/-! ## Oblivious computations -/

/-- Two machines that differ at most in their open conditionals and in their logs. -/
structure Agree (m n : Machine) : Prop where
  memory : m.memory = n.memory
  valid : m.valid = n.valid
  finalHeight : m.finalHeight = n.finalHeight
  code : m.code = n.code
  calls : m.calls = n.calls

/-- A machine agrees with itself. -/
theorem Agree.refl (m : Machine) : Agree m m :=
  ⟨rfl, rfl, rfl, rfl, rfl⟩

/-- Outcomes on two machines: both the same, on machines that agree and have kept their
conditionals. -/
def SameOutcome (m n : Machine) :
    EStateM.Result Halt Machine α → EStateM.Result Halt Machine α → Prop
  | .ok a m', .ok b n' =>
    a = b ∧ Agree m' n' ∧ m'.conditions = m.conditions ∧ n'.conditions = n.conditions
  | .error e m', .error f n' =>
    e = f ∧ Agree m' n' ∧ m'.conditions = m.conditions ∧ n'.conditions = n.conditions
  | _, _ => False

/-- A computation that neither looks at open conditionals and the log nor changes the former. -/
def Oblivious (c : StepM α) : Prop :=
  ∀ m n : Machine, Agree m n → SameOutcome m n (c m) (c n)

namespace Oblivious

/-- Returning a value is oblivious. -/
theorem pure (a : α) : Oblivious (Pure.pure a : StepM α) :=
  fun _ _ h ↦ ⟨rfl, h, rfl, rfl⟩

/-- Halting is oblivious. -/
theorem throw (e : Halt) : Oblivious (MonadExcept.throw e : StepM α) :=
  fun _ _ h ↦ ⟨rfl, h, rfl, rfl⟩

/-- Oblivious computations one after another are oblivious. -/
theorem bind {c : StepM α} {f : α → StepM β} (hc : Oblivious c) (hf : ∀ a, Oblivious (f a)) :
    Oblivious (c >>= f) := by
  intro m n h
  have hsame := hc m n h
  rw [bind_apply, bind_apply]
  cases hm : c m with
  | ok a m' =>
      cases hn : c n with
      | ok b n' =>
          rw [hm, hn] at hsame
          obtain ⟨rfl, hagree, hm', hn'⟩ := hsame
          have hnext := hf a m' n' hagree
          simp only [SameOutcome, ← hm', ← hn']
          exact hnext
      | error e n' =>
          rw [hm, hn] at hsame
          exact hsame.elim
  | error e m' =>
      cases hn : c n with
      | ok b n' =>
          rw [hm, hn] at hsame
          exact hsame.elim
      | error f n' =>
          rw [hm, hn] at hsame
          exact hsame

/-- An oblivious computation keeps the conditionals that are open. -/
theorem conditions {c : StepM α} (hc : Oblivious c) {m n : Machine} {a : α}
    (h : c m = .ok a n) : n.conditions = m.conditions := by
  have hsame := hc m m (.refl m)
  rw [h] at hsame
  exact hsame.2.2.1

/-- A computation on the stacks is oblivious. -/
theorem onStacks (c : StacksM α) : Oblivious (Machine.onStacks c) := by
  intro m n h
  unfold Machine.onStacks
  rw [h.memory]
  cases c n.memory with
  | ok a memory => exact ⟨rfl, ⟨rfl, h.valid, h.finalHeight, h.code, h.calls⟩, rfl, rfl⟩
  | error e memory => exact ⟨rfl, ⟨rfl, h.valid, h.finalHeight, h.code, h.calls⟩, rfl, rfl⟩

/-- Adding to the log is oblivious. -/
theorem record (t : Token) : Oblivious (Machine.record t) :=
  fun _ _ h ↦ ⟨rfl, ⟨h.memory, h.valid, h.finalHeight, h.code, h.calls⟩, rfl, rfl⟩

/-- Raising the error of an outcome is oblivious. -/
theorem orRaise {ε : Type} (outcome : Except ε α) (wrap : ε → MachineError) :
    Oblivious (Machine.orRaise outcome wrap) := by
  cases outcome with
  | ok a => exact .pure a
  | error e => exact .throw _

/-- Checking the heights of the stacks is oblivious. -/
theorem checkHeights (env : Environment) : Oblivious (Machine.checkHeights env) := by
  intro m n h
  rw [checkHeights_apply, checkHeights_apply, h.memory]
  split
  · exact ⟨rfl, h, rfl, rfl⟩
  · exact ⟨rfl, h, rfl, rfl⟩

/-- Performing a check of a signature is oblivious. -/
theorem perform (check : SignatureCheck) : Oblivious check.perform := by
  refine .bind (fun m n h ↦ ⟨rfl, ⟨h.memory, h.valid, h.finalHeight, h.code, ?_⟩, rfl, rfl⟩)
    fun _ ↦ .orRaise _ _
  exact congrArg (check.call?.toList ++ ·) h.calls

/-- Taking the script that signatures commit to is oblivious. -/
theorem scriptCode (env : Environment) (signatures : List Bytes) :
    Oblivious (Machine.scriptCode env signatures) := by
  intro m n h
  rw [Machine.scriptCode, get_bind_apply, get_bind_apply, h.code]
  exact Oblivious.orRaise _ _ m n h

/-- Failures and computations on the stacks are oblivious, and so is what is made of them. -/
theorem compositional : Compositional fun _ c ↦ Oblivious c where
  pure := .pure
  fail _ := .throw _
  bind := .bind
  onStacks := .onStacks

/-- Checks of signatures are oblivious. -/
theorem compositionalChecks (env : Environment) :
    CompositionalChecks env (fun _ ↦ True) fun _ c ↦ Oblivious c where
  toCompositional := compositional
  scriptCode signatures _ hf := .bind (.scriptCode env signatures) fun code ↦ hf code trivial
  perform _ _ _ _ := .perform _

/-- A signature opcode is oblivious. -/
theorem signatureOp (env : Environment) (left : Nat) (rest : List Token) (s : SignatureOp) :
    Oblivious (Machine.signatureOp env left rest s) := by
  refine (compositionalChecks env).signatureOp fun _ _ m n h ↦ ?_
  exact ⟨rfl, ⟨h.memory, h.valid, h.finalHeight, rfl, h.calls⟩, rfl, rfl⟩

end Oblivious

/-! ## Steps -/

/-- A computation in a branch that is taken has the same outcome on machines that agree. -/
theorem whenExecuting_sameOutcome (env : Environment) {c : StepM TookNext} (hc : Oblivious c)
    {m n : Machine} (h : Agree m n) (hm : m.executing = true) (hn : n.executing = true) :
    SameOutcome m n (whenExecuting env c m) (whenExecuting env c n) := by
  rw [whenExecuting_taken env c hm, whenExecuting_taken env c hn]
  exact Oblivious.bind hc (fun _ ↦ .bind (.checkHeights env) fun _ ↦ .pure _) m n h

/-- An opcode that is no conditional keyword has the same outcome on machines that agree and take
their branches. -/
theorem opcode_sameOutcome (env : Environment) (left : Nat) (t : Token) (rest : List Token)
    {o : Opcode} (ho : ∀ b, o ≠ .branch b) {m n : Machine} (h : Agree m n)
    (hm : m.executing = true) (hn : n.executing = true) :
    SameOutcome m n (opcode env left t rest o m) (opcode env left t rest o n) := by
  cases o with
  | disabled d =>
      rw [opcode, get_bind_apply, get_bind_apply, if_pos hm, if_pos hn]
      exact Oblivious.bind (.onStacks _) (fun _ ↦ .throw _) m n h
  | forbidden f => exact Oblivious.throw _ m n h
  | branch b => exact absurd rfl (ho b)
  | pushData field =>
      refine whenExecuting_sameOutcome env ?_ h hm hn
      split
      · refine .bind (Oblivious.compositional.pushLiteral _) fun _ ↦ ?_
        exact .bind (.record _) fun _ ↦ .pure _
      · exact .throw _
  | reserved r => exact whenExecuting_sameOutcome env (.throw _) h hm hn
  | nop k => exact whenExecuting_sameOutcome env (.pure _) h hm hn
  | signature s =>
      exact whenExecuting_sameOutcome env (.bind (.signatureOp _ _ _ _) fun _ ↦ .pure _) h hm hn
  | stack op =>
      refine whenExecuting_sameOutcome env ?_ h hm hn
      exact .bind (.onStacks _) fun _ ↦ .bind (Oblivious.compositional.require _) fun _ ↦ .pure _

/-- A token that is no conditional keyword has the same outcome on machines that agree and take
their branches. -/
theorem step_sameOutcome (env : Environment) (left : Nat) (rest : List Token) {t : Token}
    (ht : t.isBranch = false) {m n : Machine} (h : Agree m n) (hm : m.executing = true)
    (hn : n.executing = true) :
    SameOutcome m n (step env left rest t m) (step env left rest t n) := by
  cases t with
  | unknown text => exact Oblivious.throw _ m n h
  | literal l =>
      have hpush := Oblivious.compositional.pushLiteral l
      exact whenExecuting_sameOutcome env (.bind hpush fun _ ↦ .pure _) h hm hn
  | invalid payload => exact whenExecuting_sameOutcome env (.throw _) h hm hn
  | op o =>
      rw [step_op]
      exact opcode_sameOutcome env left _ rest (Token.not_branch_of_opcode ht rfl) h hm hn
  | synonym a =>
      rw [step_synonym]
      exact opcode_sameOutcome env left _ rest (Token.not_branch_of_opcode ht rfl) h hm hn

/-- What an opcode does in a branch that is not taken. -/
def scanOpcode : Opcode → StepM Unit
  | .disabled d => fail (.disabled d)
  | .forbidden f => fail (.forbidden f)
  | _ => return ()

/-- What a token does in a branch that is not taken: unknown text is an error, disabled and
forbidden opcodes fail the script, and nothing else has an effect. -/
def scan : Token → StepM Unit
  | .unknown text => raise (.unrecognized text)
  | .op o => scanOpcode o
  | .synonym a => scanOpcode a.opcode
  | .literal _ => return ()
  | .invalid _ => return ()

/-- Scanning a token is oblivious. -/
theorem Oblivious.scan (t : Token) : Oblivious (scan t) := by
  have hopcode (o : Opcode) : Oblivious (scanOpcode o) := by
    cases o with
    | disabled | forbidden => exact .throw _
    | branch | pushData | reserved | nop | signature | stack => exact .pure _
  cases t with
  | unknown => exact .throw _
  | literal | invalid => exact .pure _
  | op o => exact hopcode o
  | synonym a => exact hopcode a.opcode

/-- In a branch that is not taken an opcode is only scanned. -/
theorem opcode_skipped (env : Environment) (left : Nat) (t : Token) (rest : List Token)
    {o : Opcode} (ho : ∀ b, o ≠ .branch b) {m : Machine} (hm : m.executing = false) :
    opcode env left t rest o m = (do scanOpcode o; return false : StepM TookNext) m := by
  cases o with
  | disabled d =>
      rw [opcode, get_bind_apply, if_neg (by rw [hm]; exact Bool.false_ne_true)]
      rfl
  | forbidden f => rfl
  | branch b => exact absurd rfl (ho b)
  | pushData | reserved | nop | signature | stack => exact whenExecuting_skipped env _ hm

/-- In a branch that is not taken a token is only scanned, unless it is a conditional keyword. -/
theorem step_skipped (env : Environment) (left : Nat) (rest : List Token) {t : Token}
    (ht : t.isBranch = false) {m : Machine} (hm : m.executing = false) :
    step env left rest t m = (do scan t; return false : StepM TookNext) m := by
  cases t with
  | unknown text => rfl
  | literal | invalid => exact whenExecuting_skipped env _ hm
  | op o =>
      rw [step_op]
      exact opcode_skipped env left _ rest (Token.not_branch_of_opcode ht rfl) hm
  | synonym a =>
      rw [step_synonym]
      exact opcode_skipped env left _ rest (Token.not_branch_of_opcode ht rfl) hm

/-- A token that fails where it is executed has that as its only effect. -/
theorem step_eq_of_failsExecuted {env : Environment} {left : Nat} {rest : List Token} {t : Token}
    (ht : t.failsExecuted = true) :
    step env left rest t = whenExecuting env (fail (.executed t)) := by
  unfold Token.failsExecuted at ht
  split at ht
  · rw [step_op]
    rfl
  · rfl
  · cases ht

/-- A step over a token that fails where it is executed gets past it only in a branch that is not
taken, and changes nothing there. -/
theorem skipped_of_failsExecuted {env : Environment} {left : Nat} {rest : List Token} {t : Token}
    (ht : t.failsExecuted = true) {m n : Machine} {took : TookNext}
    (h : step env left rest t m = .ok took n) :
    m.executing = false ∧ took = false ∧ n = m := by
  rw [step_eq_of_failsExecuted ht] at h
  cases hm : m.executing with
  | false =>
      rw [whenExecuting_skipped env _ hm] at h
      cases h
      exact ⟨rfl, rfl, rfl⟩
  | true =>
      rw [whenExecuting_taken env _ hm] at h
      obtain ⟨_, _, hfail, -⟩ := ok_of_bind h
      cases hfail

/-- What uses up the next token in a branch that may be taken is run in it. -/
theorem ok_of_whenExecuting {env : Environment} {c : StepM TookNext} {m n : Machine}
    (h : whenExecuting env c m = .ok true n) : ∃ n', c m = .ok true n' := by
  -- The machines differ, since the stacks are checked behind the computation.
  cases hm : m.executing with
  | false =>
      rw [whenExecuting_skipped env c hm] at h
      cases h
  | true =>
      rw [whenExecuting_taken env c hm] at h
      obtain ⟨tookNext, n', hc, h⟩ := ok_of_bind h
      obtain ⟨_, _, _, h⟩ := ok_of_bind h
      cases h
      exact ⟨n', hc⟩

/-- An opcode uses up the token behind its own only if it is a push with a length field and that
token is a literal. -/
theorem push_of_opcode_tookNext {env : Environment} {left : Nat} {rest : List Token} {t : Token}
    {o : Opcode} {m n : Machine} (h : opcode env left t rest o m = .ok true n) :
    ∃ f l tail, o = .pushData f ∧ rest = .literal l :: tail := by
  cases o with
  | disabled d =>
      rw [opcode, get_bind_apply] at h
      split at h
      · obtain ⟨_, _, _, h⟩ := ok_of_bind h
        cases h
      · cases h
  | forbidden f => cases h
  | branch b =>
      obtain ⟨_, _, _, h⟩ := ok_of_bind h
      cases h
  | pushData field =>
      obtain ⟨n', h⟩ := ok_of_whenExecuting h
      split at h
      · exact ⟨_, _, _, rfl, rfl⟩
      · cases h
  | reserved r =>
      obtain ⟨n', h⟩ := ok_of_whenExecuting h
      cases h
  | nop k =>
      obtain ⟨n', h⟩ := ok_of_whenExecuting h
      cases h
  | signature s =>
      obtain ⟨n', h⟩ := ok_of_whenExecuting h
      obtain ⟨_, _, _, h⟩ := ok_of_bind h
      cases h
  | stack op =>
      obtain ⟨n', h⟩ := ok_of_whenExecuting h
      obtain ⟨_, _, _, h⟩ := ok_of_bind h
      obtain ⟨_, _, _, h⟩ := ok_of_bind h
      cases h

/-- A step uses up the token behind its own only if it is a step over a push with a length field and
that token is a literal. -/
theorem push_of_tookNext {env : Environment} {left : Nat} {rest : List Token} {t : Token}
    {m n : Machine} (h : step env left rest t m = .ok true n) :
    ∃ f l tail, t = .op (.pushData f) ∧ rest = .literal l :: tail := by
  cases t with
  | unknown text => cases h
  | literal l =>
      obtain ⟨n', h⟩ := ok_of_whenExecuting h
      obtain ⟨_, _, _, h⟩ := ok_of_bind h
      cases h
  | invalid payload =>
      obtain ⟨n', h⟩ := ok_of_whenExecuting h
      cases h
  | op o =>
      rw [step_op] at h
      obtain ⟨f, l, tail, rfl, hrest⟩ := push_of_opcode_tookNext h
      exact ⟨f, l, tail, rfl, hrest⟩
  | synonym a =>
      rw [step_synonym] at h
      obtain ⟨f, l, tail, ho, -⟩ := push_of_opcode_tookNext h
      cases a <;> cases ho

/-- A step uses up the token behind its own only if that is a literal. -/
theorem literal_of_tookNext {env : Environment} {left : Nat} {rest : List Token} {t : Token}
    {m n : Machine} (h : step env left rest t m = .ok true n) :
    ∃ l tail, rest = .literal l :: tail := by
  obtain ⟨_, l, tail, -, hrest⟩ := push_of_tookNext h
  exact ⟨l, tail, hrest⟩

/-! ## Conditionals -/

/-- The condition of a conditional, which is popped only if the conditional is reached. -/
def condition (taken wanted : Bool) : StepM Bool :=
  if taken then do
    let b ← onMainStack Stack.popBool
    pure (b == wanted)
  else pure false

/-- Popping a condition is oblivious. -/
theorem Oblivious.condition (taken wanted : Bool) : Oblivious (condition taken wanted) :=
  Oblivious.compositional.ite (.bind (.onStacks _) fun _ ↦ .pure _) (.pure _)

/-- Opening a conditional pops its condition if it is reached. -/
theorem openConditional_apply (wanted : Bool) (m : Machine) :
    openConditional wanted m = (do
      let selector ← condition m.executing wanted
      modify fun m ↦ { m with conditions := selector :: m.conditions } : StepM Unit) m := by
  rw [openConditional, get_bind_apply]
  cases m.executing with
  | false => rfl
  | true =>
      rw [condition, if_pos rfl, if_pos rfl, bind_assoc]

/-! ## Runs -/

/-- Goes on behind a step, which may have used up the next token. -/
def resume (env : Environment) (tookNext : TookNext) (left : Nat) (rest : List Token) :
    StepM Unit :=
  if tookNext then
    match rest with
    | [] => return ()
    | _ :: rest => run env (left - 1) rest
  else run env left rest

/-- Behind a step that has used up its own token only, the run goes on at the next one. -/
theorem resume_false (env : Environment) (left : Nat) (rest : List Token) :
    resume env false left rest = run env left rest := by
  rfl

/-- A run adds its first token to the log, takes a step and goes on. -/
theorem run_cons_apply (env : Environment) (left : Nat) (t : Token) (rest : List Token)
    (m : Machine) :
    run env left (t :: rest) m = (do
      let tookNext ← step env left rest t
      resume env tookNext (left - 1) rest : StepM Unit) { m with log := t :: m.log } := by
  cases rest with
  | nil =>
      rw [run]
      rfl
  | cons u rest =>
      rw [run]
      rfl

/-- What a token does in a branch that is taken is done, and the stacks are checked behind it, before
the run goes on at the next token. -/
theorem run_cons_taken {env : Environment} {left : Nat} {t : Token} {rest : List Token}
    {c : StepM Unit} {m : Machine} (hm : m.executing = true)
    (hstep : step env left rest t = whenExecuting env (do c; return false)) :
    run env left (t :: rest) m = (do
      c
      checkHeights env
      run env (left - 1) rest : StepM Unit) { m with log := t :: m.log } := by
  have hexecuting : executing { m with log := t :: m.log } = true := hm
  rw [run_cons_apply, bind_apply, hstep, whenExecuting_taken env _ hexecuting, ← bind_apply]
  simp only [bind_assoc, pure_bind, resume_false]

/-! ## Policies that try once more -/

variable {env : Environment} {retry : Bool}

/-- Whether a failed spend is tried once more makes no difference to an opcode. -/
theorem opcode_withRetry (left : Nat) (t : Token) (rest : List Token) (o : Opcode) :
    opcode (env.withRetry retry) left t rest o = opcode env left t rest o := by
  cases o with
  | signature s => cases s <;> rfl
  | disabled | forbidden | branch | pushData | reserved | nop | stack => rfl

/-- Whether a failed spend is tried once more makes no difference to a step. -/
theorem step_withRetry (left : Nat) (rest : List Token) (t : Token) :
    step (env.withRetry retry) left rest t = step env left rest t := by
  cases t with
  | op o => rw [step_op, step_op, opcode_withRetry]
  | synonym a => rw [step_synonym, step_synonym, opcode_withRetry]
  | literal | invalid | unknown => rfl

/-- Whether a failed spend is tried once more makes no difference to a run. -/
theorem resume_withRetry (tookFirst : TookNext) (left : Nat) (tokens : List Token) :
    resume (env.withRetry retry) tookFirst left tokens = resume env tookFirst left tokens := by
  induction tokens generalizing tookFirst left with
  | nil => cases tookFirst <;> rfl
  | cons t rest ih =>
      cases tookFirst with
      | true => exact ih false (left - 1)
      | false =>
          funext m
          rw [resume_false, resume_false, run_cons_apply, run_cons_apply, step_withRetry]
          simp only [ih]

end Machine

end BitcoinSpend.Script
