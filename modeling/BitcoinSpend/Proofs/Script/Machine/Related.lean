import BitcoinSpend.Proofs.Script.Machine.Step

/-!
# Related machines

Two scripts that are run side by side do the same as long as their machines stay related in a way
that the steps cannot tell apart. `Lasting` says which relations between machines these are, and
`Related` says that two computations keep one of them and come to the same. Read these two first; the
main results are `RelatedOutcomes.step` for one token, which leaves open only what signature opcodes
do, and `Related.resume` for runs.
-/

namespace BitcoinSpend.Script.Machine

variable {α β : Type} {R : Machine → Machine → Prop} {env : Environment}

/-- A relation between machines with the same stacks and the same open conditionals that lasts where
both machines are changed in the same way. -/
structure Lasting (R : Machine → Machine → Prop) : Prop where
  memory {m n : Machine} : R m n → m.memory = n.memory
  conditions {m n : Machine} : R m n → m.conditions = n.conditions
  setMemory {m n : Machine} (memory : Stacks) : R m n → R { m with memory } { n with memory }
  setConditions {m n : Machine} (conditions : List Bool) :
    R m n → R { m with conditions } { n with conditions }
  addToken {m n : Machine} (t : Token) :
    R m n → R { m with log := t :: m.log } { n with log := t :: n.log }
  addCalls {m n : Machine} (asked : List Call) :
    R m n → R { m with calls := asked ++ m.calls } { n with calls := asked ++ n.calls }

/-- Outcomes that are the same on related machines. -/
inductive RelatedOutcomes (R : Machine → Machine → Prop) :
    EStateM.Result Halt Machine α → EStateM.Result Halt Machine α → Prop where
  | ok (a : α) {m n : Machine} : R m n → RelatedOutcomes R (.ok a m) (.ok a n)
  | error (e : Halt) {m n : Machine} : R m n → RelatedOutcomes R (.error e m) (.error e n)

/-- Two computations that have the same outcome on related machines. -/
def Related (R : Machine → Machine → Prop) (c d : StepM α) : Prop :=
  ∀ m n, R m n → RelatedOutcomes R (c m) (d n)

/-- Related machines that are related by their conditionals take the same branches. -/
theorem Lasting.executing (hR : Lasting R) {m n : Machine} (h : R m n) :
    m.executing = n.executing := by
  rw [Machine.executing, Machine.executing, hR.conditions h]

namespace RelatedOutcomes

variable {m n : Machine}

/-- Computations one after another, of which the second ones need to agree only where the first ones
end. -/
theorem bind {c d : StepM α} {f g : α → StepM β} (hcd : RelatedOutcomes R (c m) (d n))
    (hfg : ∀ a m' n', c m = .ok a m' → R m' n' → RelatedOutcomes R (f a m') (g a n')) :
    RelatedOutcomes R ((c >>= f) m) ((d >>= g) n) := by
  rw [bind_apply, bind_apply]
  generalize c m = left at hcd hfg ⊢
  generalize d n = right at hcd ⊢
  cases hcd with
  | ok a h => exact hfg a _ _ rfl h
  | error e h => exact .error e h

/-- The check of the stacks. -/
theorem checkHeights (hR : Lasting R) (env : Environment) (h : R m n) :
    RelatedOutcomes R (Machine.checkHeights env m) (Machine.checkHeights env n) := by
  rw [checkHeights_apply, checkHeights_apply, hR.memory h]
  split
  · exact .error _ h
  · exact .ok () h

/-- What is run in a branch that is taken needs to agree only there. -/
theorem whenExecuting (hR : Lasting R) (h : R m n) {c d : StepM TookNext}
    (hcd : m.executing = true → RelatedOutcomes R (c m) (d n)) :
    RelatedOutcomes R (Machine.whenExecuting env c m) (Machine.whenExecuting env d n) := by
  cases hm : m.executing with
  | true =>
      rw [whenExecuting_taken env c hm, whenExecuting_taken env d (hR.executing h ▸ hm)]
      refine (hcd hm).bind fun took m' n' _ h' ↦ ?_
      exact (RelatedOutcomes.checkHeights hR env h').bind fun _ _ _ _ h ↦ .ok took h
  | false =>
      rw [whenExecuting_skipped env c hm, whenExecuting_skipped env d (hR.executing h ▸ hm)]
      exact .ok false h

end RelatedOutcomes

namespace Related

/-- Returning a value. -/
theorem pure (a : α) : Related R (Pure.pure a : StepM α) (Pure.pure a) :=
  fun _ _ h ↦ .ok a h

/-- Halting. -/
theorem throw (e : Halt) : Related R (MonadExcept.throw e : StepM α) (MonadExcept.throw e) :=
  fun _ _ h ↦ .error e h

/-- Computations one after another. -/
theorem bind {c d : StepM α} {f g : α → StepM β} (hcd : Related R c d)
    (hfg : ∀ a, Related R (f a) (g a)) : Related R (c >>= f) (d >>= g) :=
  fun m n h ↦ (hcd m n h).bind fun a m' n' _ h' ↦ hfg a m' n' h'

/-- A computation on the stacks. -/
theorem onStacks (hR : Lasting R) (c : StacksM α) :
    Related R (Machine.onStacks c) (Machine.onStacks c) := by
  intro m n h
  unfold Machine.onStacks
  rw [hR.memory h]
  cases c n.memory with
  | ok a memory => exact .ok a (hR.setMemory memory h)
  | error e memory => exact .error _ (hR.setMemory memory h)

/-- Failures and computations on the stacks, and what is made of them. -/
theorem compositional (hR : Lasting R) : Compositional fun _ c ↦ Related R c c where
  pure := .pure
  fail _ := .throw _
  bind := .bind
  onStacks := .onStacks hR

/-- Adding to the log. -/
theorem record (hR : Lasting R) (t : Token) :
    Related R (Machine.record t) (Machine.record t) :=
  fun _ _ h ↦ .ok () (hR.addToken t h)

/-- Raising the error of an outcome. -/
theorem orRaise {ε : Type} (outcome : Except ε α) (wrap : ε → MachineError) :
    Related R (Machine.orRaise outcome wrap) (Machine.orRaise outcome wrap) := by
  cases outcome with
  | ok a => exact .pure a
  | error e => exact .throw _

/-- Performing a check of a signature. -/
theorem perform (hR : Lasting R) (check : SignatureCheck) :
    Related R check.perform check.perform := by
  refine .bind (fun _ _ h ↦ ?_) fun _ ↦ .orRaise _ _
  exact .ok () (hR.addCalls check.call?.toList h)

/-- A conditional keyword. -/
theorem branch (hR : Lasting R) (b : Branch) : Related R (Machine.branch b) (Machine.branch b) := by
  have hmodify (f : List Bool → List Bool) :
      Related R (modify fun m ↦ { m with conditions := f m.conditions } : StepM Unit)
        (modify fun m ↦ { m with conditions := f m.conditions }) := by
    intro m n h
    have hsame := hR.setConditions (f m.conditions) h
    rw [hR.conditions h] at hsame
    refine .ok () ?_
    change R { m with conditions := f m.conditions } _
    rwa [hR.conditions h]
  have hopen (wanted : Bool) :
      Related R (openConditional wanted) (openConditional wanted) := by
    intro m n h
    have hcondition : Related R (condition n.executing wanted) (condition n.executing wanted) :=
      (compositional hR).ite (.bind (.onStacks hR _) fun _ ↦ .pure _) (.pure _)
    rw [openConditional_apply, openConditional_apply, hR.executing h]
    exact Related.bind hcondition (fun b ↦ hmodify (b :: ·)) m n h
  cases b with
  | whenTrue => exact hopen true
  | whenFalse => exact hopen false
  | otherwise =>
      intro m n h
      rw [Machine.branch, get_bind_apply, get_bind_apply, hR.conditions h]
      cases n.conditions with
      | nil => exact .error _ h
      | cons c outer => exact hmodify (fun _ ↦ (!c) :: outer) m n h
  | close =>
      intro m n h
      rw [Machine.branch, get_bind_apply, get_bind_apply, hR.conditions h]
      cases n.conditions with
      | nil => exact .error _ h
      | cons c outer => exact hmodify (fun _ ↦ outer) m n h

end Related

/-- An opcode, if signature opcodes come to the same and both scripts go on with the same token behind
a push with a length field. The token matters only for opcodes that fail scripts by their name. -/
theorem RelatedOutcomes.opcode (hR : Lasting R) {left left' : Nat} {t t' : Token}
    {rest rest' : List Token} {o : Opcode} (hreserved : ∀ r, o = .reserved r → t = t')
    (hdata : ∀ f, o = .pushData f → rest.head? = rest'.head?) {m n : Machine} (h : R m n)
    (hsignature : ∀ s, o = .signature s → m.executing = true →
      RelatedOutcomes R (signatureOp env left rest s m) (signatureOp env left' rest' s n)) :
    RelatedOutcomes R (Machine.opcode env left t rest o m)
      (Machine.opcode env left' t' rest' o n) := by
  have htaken {c d : StepM TookNext} (hcd : Related R c d) :
      RelatedOutcomes R (Machine.whenExecuting env c m) (Machine.whenExecuting env d n) :=
    .whenExecuting hR h fun _ ↦ hcd m n h
  cases o with
  | disabled d =>
      rw [Machine.opcode, Machine.opcode, get_bind_apply, get_bind_apply, hR.executing h]
      exact (Related.compositional hR).ite (.bind (.onStacks hR _) fun _ ↦ .throw _) (.throw _) m n h
  | forbidden f => exact .error _ h
  | branch b => exact (Related.branch hR b).bind (fun _ ↦ .pure _) m n h
  | pushData f =>
      have hhead := hdata f rfl
      refine htaken ?_
      cases rest with
      | nil =>
          rw [List.head?_eq_none_iff.mp hhead.symm]
          exact .throw _
      | cons u tail =>
          obtain ⟨tail', rfl⟩ := List.head?_eq_some_iff.mp hhead.symm
          cases u with
          | literal l =>
              refine .bind ((Related.compositional hR).pushLiteral l) fun _ ↦ ?_
              exact .bind (.record hR _) fun _ ↦ .pure _
          | op | synonym | invalid | unknown => exact .throw _
  | reserved r =>
      obtain rfl := hreserved r rfl
      exact htaken (.throw _)
  | nop k => exact htaken (.pure _)
  | signature s =>
      exact .whenExecuting hR h fun hm ↦ (hsignature s rfl hm).bind fun _ _ _ _ h ↦ .ok false h
  | stack op =>
      refine htaken (.bind (.onStacks hR _) fun _ ↦ ?_)
      exact .bind ((Related.compositional hR).require _) fun _ ↦ .pure _

/-- A step, if signature opcodes come to the same and both scripts go on with the same token behind a
push with a length field. -/
theorem RelatedOutcomes.step (hR : Lasting R) {left left' : Nat} {t : Token}
    {rest rest' : List Token} (hdata : ∀ f, t = .op (.pushData f) → rest.head? = rest'.head?)
    {m n : Machine} (h : R m n)
    (hsignature : ∀ s, t = .op (.signature s) →
      RelatedOutcomes R (signatureOp env left rest s m) (signatureOp env left' rest' s n)) :
    RelatedOutcomes R (Machine.step env left rest t m) (Machine.step env left' rest' t n) := by
  cases t with
  | unknown text => exact .error _ h
  | literal l =>
      have hpush := (Related.compositional hR).pushLiteral l
      exact .whenExecuting hR h fun _ ↦ hpush.bind (fun _ ↦ .pure _) m n h
  | invalid payload => exact .whenExecuting hR h fun _ ↦ .error _ h
  | op o =>
      rw [step_op, step_op]
      exact .opcode hR (fun _ _ ↦ rfl) (fun f hf ↦ hdata f (congrArg _ hf)) h
        fun s hs _ ↦ hsignature s (congrArg _ hs)
  | synonym a =>
      rw [step_synonym, step_synonym]
      refine .opcode hR (fun _ _ ↦ rfl) (fun f hf ↦ ?_) h fun s hs _ ↦ ?_
      · cases a <;> cases hf
      · cases a <;> cases hs

/-- A run, if signature opcodes come to the same. -/
theorem Related.resume (hR : Lasting R) (hsignature : ∀ left rest s,
      Related R (signatureOp env left rest s) (signatureOp env left rest s))
    (tookFirst : TookNext) (left : Nat) (tokens : List Token) :
    Related R (Machine.resume env tookFirst left tokens)
      (Machine.resume env tookFirst left tokens) := by
  induction tokens generalizing tookFirst left with
  | nil => cases tookFirst <;> exact .pure _
  | cons t rest ih =>
      cases tookFirst with
      | true => exact ih false (left - 1)
      | false =>
          intro m n h
          rw [resume_false, run_cons_apply, run_cons_apply]
          refine (RelatedOutcomes.step hR (fun _ _ ↦ rfl) (hR.addToken t h) fun s _ ↦ ?_).bind
            fun took m' n' _ h' ↦ ih took (left - 1) m' n' h'
          exact hsignature left rest s _ _ (hR.addToken t h)

end BitcoinSpend.Script.Machine
