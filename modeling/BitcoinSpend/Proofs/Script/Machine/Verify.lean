import BitcoinSpend.Proofs.Script.Machine.Respelling
import BitcoinSpend.Proofs.Script.Machine.Room

/-!
# Opcodes that verify their answer

Four opcodes answer a question about the top items, and for each of them there is one that verifies
the answer instead of pushing it. Two of these push the answer and pop it again, and the other two
never push it. Either way they do what the plain opcode followed by `OP_VERIFY` does, in failing as
well, because an answer takes more items off the main stack than it puts back (`Lowers`). Read
`Answering` and `Answering.answer` first. The step is `step_verifying`; the main result is
`run_verifying`, for runs in which either form is followed by anything.
-/

namespace BitcoinSpend.Script.Machine

variable {α β : Type} {R : Machine → Machine → Prop} {env : Environment} {m n : Machine}
  {count left : Nat} {rest : List Token}

/-! ## Answers -/

/-- The opcodes that answer a question about the top items. -/
inductive Answering where
  | equal
  | numEqual
  | checkSig
  | checkMultiSig
deriving DecidableEq, Repr

/-- Pushes a truth value and pops it again. -/
def pushAndPop (ok : Bool) : StepM Bool := do
  onMainStack (Stack.pushBool ok)
  onMainStack Stack.popBool

namespace Answering

/-- The opcode that pushes the answer. -/
def plain : Answering → Opcode
  | equal => .stack (.inspect .equal)
  | numEqual => .stack (.binary .numEqual)
  | checkSig => .signature .checkSig
  | checkMultiSig => .signature .checkMultiSig

/-- The opcode that verifies the answer. -/
def verifying : Answering → Opcode
  | equal => .stack (.verify .equalVerify)
  | numEqual => .stack (.verify .numEqualVerify)
  | checkSig => .signature .checkSigVerify
  | checkMultiSig => .signature .checkMultiSigVerify

/-- Takes off the items that are asked about and gives the answer. -/
def answer (env : Environment) : Answering → StepM Bool
  | equal => onMainStack do
    let (b, a) ← Stack.popPair
    return a = b
  | numEqual => onMainStack do
    let b ← Stack.popNumber
    let a ← Stack.popNumber
    return a = b
  | checkSig => Machine.checkSig env
  | checkMultiSig => Machine.checkMultiSig env

/-- How the opcode that verifies an answer takes it: as it is, or from the stack, where it has pushed
it. -/
def confirm : Answering → Bool → StepM Bool
  | equal | numEqual => pushAndPop
  | checkSig | checkMultiSig => pure

end Answering

/-- The opcode that verifies the top item. -/
def verifyToken : Token :=
  .op (.stack (.verify .verify))

/-- A computation on the main stack changes nothing else, and its errors fail the script. -/
theorem onMainStack_apply (c : StackM α) (m : Machine) :
    onMainStack c m = match c m.memory.main with
      | .ok a main => .ok a { m with memory.main := main }
      | .error e main => .error (.failed (.stack e)) { m with memory.main := main } := by
  unfold onMainStack onStacks onMain
  cases c m.memory.main <;> rfl

/-- Computations on the main stack one after another are one computation on it. -/
theorem onMainStack_bind (c : StackM α) (f : α → StackM β) :
    onMainStack (c >>= f) = onMainStack c >>= fun a ↦ onMainStack (f a) := by
  funext m
  rw [onMainStack_apply, bind_apply, bind_apply, onMainStack_apply]
  cases c m.memory.main with
  | ok a main => exact (onMainStack_apply (f a) { m with memory.main := main }).symm
  | error e main => rfl

/-- An opcode that looks at the main stack has its effect there and fails no script. -/
theorem step_onMain {op : StackOp} {c : StackM Unit}
    (hop : op.perform = (do onMain c; return true)) (left : Nat) (rest : List Token) :
    step env left rest (.op (.stack op)) = whenExecuting env (do
      onMainStack c
      return false) := by
  have hperform : (do require (← onStacks op.perform); return false : StepM TookNext) =
      (do onMainStack c; return false) := by
    funext m
    rw [hop, bind_apply, bind_apply, onMainStack_apply]
    unfold onStacks
    rw [bind_apply]
    unfold onMain
    cases c m.memory.main with
    | ok a main => rfl
    | error e main => rfl
  exact (step_op ..).trans (congrArg (whenExecuting env) hperform)

/-- The plain opcode pushes the answer. -/
theorem step_plain (a : Answering) (left : Nat) (rest : List Token) :
    step env left rest (.op a.plain) = whenExecuting env (do
      let ok ← a.answer env
      onMainStack (Stack.pushBool ok)
      return false) := by
  have hstack {op : StackOp} {c : StackM Bool}
      (hop : op.perform = (do onMain (c >>= Stack.pushBool); return true)) :
      step env left rest (.op (.stack op)) = whenExecuting env (do
        let ok ← onMainStack c
        onMainStack (Stack.pushBool ok)
        return false) := by
    rw [step_onMain hop, onMainStack_bind, bind_assoc]
  cases a with
  | equal => exact hstack (by simp only [StackOp.perform, Inspect.perform, bind_assoc, pure_bind])
  | numEqual =>
      refine hstack ?_
      simp only [StackOp.perform, Binary.perform, bind_assoc, pure_bind]
      rfl
  | checkSig =>
      refine (step_op ..).trans (congrArg (whenExecuting env) ?_)
      simp only [signatureOp, Answering.answer, bind_assoc]
  | checkMultiSig =>
      refine (step_op ..).trans (congrArg (whenExecuting env) ?_)
      simp only [signatureOp, Answering.answer, bind_assoc]

/-- The opcode for an item alone pops it and requires that it counts as true. -/
theorem step_verifyToken (left : Nat) (rest : List Token) :
    step env left rest verifyToken = whenExecuting env (do
      require (← onMainStack Stack.popBool)
      return false) :=
  rfl

/-- The verifying opcode requires the answer. -/
theorem step_verifying_eq (a : Answering) (left : Nat) (rest : List Token) :
    step env left rest (.op a.verifying) = whenExecuting env (do
      let ok ← a.answer env
      require (← a.confirm ok)
      return false) := by
  have hstack {op : StackOp} {c : StackM Bool}
      (hop : op.perform = onMain ((c >>= Stack.pushBool) >>= fun _ ↦ Stack.popBool)) :
      step env left rest (.op (.stack op)) = whenExecuting env (do
        let ok ← onMainStack c
        require (← pushAndPop ok)
        return false) := by
    refine (step_op ..).trans (congrArg (whenExecuting env) ?_)
    have hmain : onStacks op.perform = onMainStack c >>= pushAndPop := by
      rw [hop]
      show onMainStack _ = _
      simp only [onMainStack_bind, bind_assoc]
      rfl
    simp only [hmain, bind_assoc]
  cases a with
  | equal =>
      refine hstack ?_
      simp only [StackOp.perform, Verify.perform, Inspect.perform, bind_assoc, pure_bind]
  | numEqual =>
      refine hstack ?_
      simp only [StackOp.perform, Verify.perform, Binary.perform, bind_assoc, pure_bind]
      rfl
  | checkSig =>
      refine congrArg (whenExecuting env) ?_
      simp only [signatureOp, Answering.answer, Answering.confirm, bind_assoc, pure_bind]
  | checkMultiSig =>
      refine congrArg (whenExecuting env) ?_
      simp only [signatureOp, Answering.answer, Answering.confirm, bind_assoc, pure_bind]

/-! ## What an answer takes -/

/-- Some items fewer on the main stack, and otherwise the same stacks and conditionals. -/
structure Lowered (count : Nat) (m n : Machine) : Prop where
  height : n.memory.main.height + count ≤ m.memory.main.height
  maxSize : n.memory.main.maxSize = m.memory.main.maxSize
  alt : n.memory.alt = m.memory.alt
  conditions : n.conditions = m.conditions

/-- Computations that take so many items off the main stack if they succeed. -/
def Lowers (count : Nat) (c : StepM α) : Prop :=
  ∀ ⦃m n : Machine⦄ ⦃a : α⦄, c m = .ok a n → Lowered count m n

namespace Lowers

/-- Returning a value takes nothing. -/
theorem pure (a : α) : Lowers 0 (Pure.pure a : StepM α) := by
  intro m n b h
  cases h
  exact ⟨Nat.le_refl _, rfl, rfl, rfl⟩

/-- Computations one after another take what both of them take. -/
theorem bind {more : Nat} {c : StepM α} {f : α → StepM β} (hc : Lowers count c)
    (hf : ∀ a, Lowers more (f a)) : Lowers (count + more) (c >>= f) := by
  intro m n b h
  obtain ⟨a, m', hm, hn⟩ := ok_of_bind h
  have hfirst := hc hm
  have hsecond := hf a hn
  refine ⟨?_, hsecond.maxSize.trans hfirst.maxSize, hsecond.alt.trans hfirst.alt,
    hsecond.conditions.trans hfirst.conditions⟩
  have hheight := hfirst.height
  have hheight' := hsecond.height
  omega

/-- The two top items. -/
theorem popPair : Lowers 2 (onMainStack Stack.popPair) := by
  intro m n a h
  rcases onMainStack_popPair_cases m with ⟨first, second, below, hitems, hpop⟩ | ⟨_, _, hfail, -⟩
  · rw [hpop] at h
    cases h
    refine ⟨?_, rfl, rfl, rfl⟩
    simp [Stack.height, hitems]
  · cases hfail.symm.trans h

/-- A number on top. -/
theorem popNumber : Lowers 1 (onMainStack Stack.popNumber) := by
  intro m n a h
  rcases onMainStack_popNumber_cases m with ⟨bytes, v, below, hitems, hv⟩ | ⟨_, _, hfail, -⟩
  · rw [onMainStack_popNumber hitems hv] at h
    cases h
    refine ⟨?_, rfl, rfl, rfl⟩
    simp [Stack.height, hitems]
  · cases hfail.symm.trans h

/-- The items of a ballot, of which there are at least three. -/
theorem takeBallot : Lowers 3 takeBallot := by
  intro m n (signatures, keys) h
  obtain ⟨below, hballot, rfl⟩ := ballot_of_takeBallot h
  refine ⟨?_, rfl, rfl, rfl⟩
  unfold Stack.height
  generalize m.memory.main.items = items at hballot
  cases hballot
  simp only [List.length_cons, List.length_append]
  omega

/-- The script that signatures commit to is no item. -/
theorem scriptCode (signatures : List Bytes) : Lowers 0 (Machine.scriptCode env signatures) := by
  intro m n code h
  rw [Machine.scriptCode, get_bind_apply] at h
  obtain ⟨-, rfl⟩ := ok_of_orRaise h
  exact ⟨Nat.le_refl _, rfl, rfl, rfl⟩

/-- A check of a signature takes nothing. -/
theorem perform (check : SignatureCheck) : Lowers 0 check.perform := by
  intro m n ok h
  rw [SignatureCheck.perform, modify_bind_apply] at h
  obtain ⟨-, rfl⟩ := ok_of_orRaise h
  exact ⟨Nat.le_refl _, rfl, rfl, rfl⟩

/-- Matching signatures with keys takes nothing. -/
theorem matchSignatures (check : Bytes → Bytes → SignatureCheck) (signatures keys : List Bytes) :
    Lowers 0 (Machine.matchSignatures check signatures keys) := by
  induction keys generalizing signatures with
  | nil => cases signatures <;> exact .pure _
  | cons k keys ih =>
      cases signatures with
      | nil => exact .pure _
      | cons s signatures =>
          rw [Machine.matchSignatures]
          split
          · exact .pure _
          · show Lowers (0 + 0) _
            refine (perform (check s k)).bind fun ok ↦ ?_
            cases ok with
            | true => exact ih signatures
            | false => exact ih (s :: signatures)

/-- Every answer takes at least two items. -/
theorem answer (a : Answering) : Lowers 2 (a.answer env) := by
  cases a with
  | equal =>
      show Lowers 2 (onMainStack _)
      rw [onMainStack_bind]
      exact popPair.bind fun _ ↦ .pure _
  | numEqual =>
      show Lowers 2 (onMainStack _)
      simp only [onMainStack_bind]
      exact popNumber.bind fun _ ↦ popNumber.bind fun _ ↦ .pure _
  | checkSig => exact popPair.bind fun _ ↦ (scriptCode _).bind fun _ ↦ perform _
  | checkMultiSig =>
      have htakes : Lowers 3 (checkMultiSig env) := by
        rw [checkMultiSig_eq]
        exact takeBallot.bind fun _ ↦ (scriptCode _).bind fun _ ↦ matchSignatures _ _ _
      intro m n ok h
      have hlowered := htakes h
      exact ⟨by have := hlowered.height; omega, hlowered.maxSize, hlowered.alt,
        hlowered.conditions⟩

end Lowers

/-! ## Steps -/

/-- A machine within the limits of its main stack and of both stacks together. -/
structure WithinLimits (env : Environment) (m : Machine) : Prop where
  main : (m.memory.main.height : Int) ≤ m.memory.main.maxSize
  both : (m.memory.main.height + m.memory.alt.height : Int) ≤ env.policy.maxStack

/-- The machine with an answer on top of its main stack. -/
def withAnswer (ok : Bool) (m : Machine) : Machine :=
  { m with memory.main.items := Number.encode (Number.ofBool ok) :: m.memory.main.items }

/-- An answer is pushed if there is room. -/
theorem onMainStack_pushBool (hroom : (m.memory.main.height + 1 : Int) ≤ m.memory.main.maxSize)
    (ok : Bool) : onMainStack (Stack.pushBool ok) m = .ok () (m.withAnswer ok) := by
  have hpush : Stack.pushBool ok m.memory.main = .ok () (m.withAnswer ok).memory.main :=
    (Stack.push_apply _ _).trans (if_neg (Int.not_lt.mpr hroom))
  rw [onMainStack_apply, hpush]
  rfl

/-- An answer is popped as it was pushed. -/
theorem onMainStack_popBool (ok : Bool) (m : Machine) :
    onMainStack Stack.popBool (m.withAnswer ok) = .ok ok m := by
  have hpop : Stack.popBool (m.withAnswer ok).memory.main =
      .ok (Number.truth (Number.encode (Number.ofBool ok))) m.memory.main := rfl
  rw [onMainStack_apply, hpop, truth_encode_ofBool]
  rfl

/-- With room for it, an answer is confirmed as it is. -/
theorem confirm_apply (hroom : (m.memory.main.height + 1 : Int) ≤ m.memory.main.maxSize)
    (a : Answering) (ok : Bool) : a.confirm ok m = .ok ok m := by
  have hstack : pushAndPop ok m = .ok ok m := by
    rw [pushAndPop, bind_of_ok (onMainStack_pushBool hroom ok), onMainStack_popBool]
  cases a with
  | equal | numEqual => exact hstack
  | checkSig | checkMultiSig => rfl

/-- From within its limits, a step over the verifying opcode is one over the plain opcode followed
by one that verifies, on the failing paths as well. -/
theorem step_verifying (a : Answering) (h : WithinLimits env m) (left left' left'' : Nat)
    (rest rest' rest'' : List Token) :
    step env left rest (.op a.verifying) m = (do
      let _ ← step env left' rest' (.op a.plain)
      step env left'' rest'' verifyToken : StepM TookNext) m := by
  rw [step_verifying_eq, step_plain]
  cases hm : m.executing with
  | false =>
      rw [whenExecuting_skipped env _ hm, bind_of_ok (whenExecuting_skipped env _ hm),
        step_verifyToken, whenExecuting_skipped env _ hm]
  | true =>
      rw [bind_apply, whenExecuting_taken env _ hm, whenExecuting_taken env _ hm, ← bind_apply]
      simp only [bind_assoc, pure_bind]
      cases hanswer : a.answer env m with
      | error e n => rw [bind_of_error hanswer, bind_of_error hanswer]
      | ok ok n =>
          have hlowered := Lowers.answer a hanswer
          have hheight := hlowered.height
          have hroom : (n.memory.main.height + 1 : Int) ≤ n.memory.main.maxSize := by
            rw [hlowered.maxSize]
            have := h.main
            omega
          have hheights : checkHeights env (n.withAnswer ok) = .ok () (n.withAnswer ok) := by
            rw [checkHeights_apply, if_neg]
            have hpushed : (n.withAnswer ok).memory.main.height = n.memory.main.height + 1 := rfl
            have halt : (n.withAnswer ok).memory.alt = m.memory.alt := hlowered.alt
            rw [hpushed, halt]
            have := h.both
            omega
          have hexecuting : (n.withAnswer ok).executing = true := by
            show n.conditions.all id = true
            rw [hlowered.conditions]
            exact hm
          rw [bind_of_ok hanswer, bind_of_ok hanswer, bind_of_ok (confirm_apply hroom a ok),
            bind_of_ok (onMainStack_pushBool hroom ok), bind_of_ok hheights, step_verifyToken,
            whenExecuting_taken env _ hexecuting]
          simp only [bind_assoc, pure_bind]
          rw [bind_of_ok (onMainStack_popBool ok n)]

/-! ## Logs -/

namespace SameButLog

/-- Checks of signatures do not look at the log. -/
theorem compositionalChecks (env : Environment) :
    CompositionalChecks env (fun _ ↦ True) fun _ c ↦ Related SameButLog c c where
  toCompositional := Related.compositional lasting
  scriptCode signatures _ hf := by
    refine .bind ?_ fun code ↦ hf code trivial
    rintro m _ ⟨log⟩
    exact Related.orRaise _ _ m _ (.intro log)
  perform _ _ _ _ := .perform lasting _

/-- Signature opcodes do not look at the log. -/
theorem signatureOp (env : Environment) (left : Nat) (rest : List Token) (s : SignatureOp) :
    Related SameButLog (Machine.signatureOp env left rest s)
      (Machine.signatureOp env left rest s) := by
  refine (compositionalChecks env).signatureOp fun _ _ ↦ ?_
  rintro m _ ⟨log⟩
  exact .ok () (.intro log)

end SameButLog

/-! ## Runs -/

/-- From within its limits, a run that begins with a verifying opcode comes to the same as one that
begins with the plain opcode and one that verifies in its place: the same end, the same failure or
the same error, on the same stacks, with the same messages asked for. Only the logs show the
difference. -/
theorem run_verifying (a : Answering) (h : WithinLimits env m) {left left' : Nat}
    (hleft : left' - 2 = left - 1) (rest : List Token) :
    RelatedOutcomes SameButLog (run env left (.op a.verifying :: rest) m)
      (run env left' (.op a.plain :: verifyToken :: rest) m) := by
  have hsignature := SameButLog.signatureOp env
  have hsteps (left : Nat) (rest : List Token) (t : Token) :
      Related SameButLog (step env left rest t) (step env left rest t) :=
    fun _ _ h ↦ .step SameButLog.lasting (fun _ _ ↦ rfl) h fun s _ ↦ hsignature left rest s _ _ h
  have hlogged : WithinLimits env { m with log := .op a.verifying :: m.log } := ⟨h.main, h.both⟩
  have hlogs : SameButLog { m with log := .op a.verifying :: m.log }
      { m with log := .op a.plain :: m.log } := .intro _
  have hstep := step_verifying a hlogged left left' (left' - 1) rest (verifyToken :: rest) rest
  rw [run_cons_apply, run_cons_apply, bind_apply, hstep, ← bind_apply, bind_assoc]
  refine (hsteps _ _ _ _ _ hlogs).bind fun took m' n' hplain hsame ↦ ?_
  -- Behind the plain opcode stands no literal that it could have used up.
  have htook : took = false := by
    cases took with
    | false => rfl
    | true =>
        obtain ⟨l, tail, hrest⟩ := literal_of_tookNext hplain
        cases hrest
  subst htook
  obtain ⟨log⟩ := hsame
  rw [resume_false, run_cons_apply, Nat.sub_sub, hleft]
  refine Related.bind (hsteps _ _ _) (fun took ↦ ?_) _ _ (.intro _)
  exact .resume SameButLog.lasting hsignature took (left - 1) rest

/-- An environment in which both stacks together hold no more than three items. -/
def threeItems : Environment where
  policy := { maxStack := 3 }

/-- A machine whose main stack is full, and holds a ballot without signatures and keys. -/
def fullMachine : Machine where
  memory.main := { items := [[], [], []], maxSize := 3 }

/-- A machine whose main stack is full, and whose second operand is too long for a number. -/
def overlongMachine : Machine where
  memory.main := { items := [[], [0x00, 0x00, 0x00, 0x00, 0x01], []], maxSize := 3 }

/-- A check of no signatures succeeds on a full stack in either form. In front of an operand that is
too long the comparison fails in either form, with both operands gone. -/
theorem run_verifying_atLimit :
    (WithinLimits threeItems fullMachine ∧ WithinLimits threeItems overlongMachine) ∧
      (run threeItems 0 [.op (.signature .checkMultiSigVerify)] fullMachine = .ok ()
          { fullMachine with
            memory.main.items := []
            log := [.op (.signature .checkMultiSigVerify)] } ∧
        RelatedOutcomes SameButLog
          (run threeItems 0 [.op (.signature .checkMultiSigVerify)] fullMachine)
          (run threeItems 0 [.op (.signature .checkMultiSig), verifyToken] fullMachine)) ∧
      run threeItems 1 [.op (.stack (.verify .numEqualVerify))] overlongMachine =
          .error (.failed (.stack (.number (.tooLong 5 4))))
            { overlongMachine with
              memory.main.items := [[]]
              log := [.op (.stack (.verify .numEqualVerify))] } ∧
        RelatedOutcomes SameButLog
          (run threeItems 1 [.op (.stack (.verify .numEqualVerify))] overlongMachine)
          (run threeItems 2 [.op (.stack (.binary .numEqual)), verifyToken] overlongMachine) := by
  have hfull : WithinLimits threeItems fullMachine := ⟨by decide, by decide⟩
  have hoverlong : WithinLimits threeItems overlongMachine := ⟨by decide, by decide⟩
  refine ⟨⟨hfull, hoverlong⟩, ⟨rfl, ?_⟩, ?_, ?_⟩
  · exact run_verifying .checkMultiSig hfull rfl []
  · rw [← Number.oversize_maxSize]
    rfl
  · exact run_verifying .numEqual hoverlong rfl []

end BitcoinSpend.Script.Machine
