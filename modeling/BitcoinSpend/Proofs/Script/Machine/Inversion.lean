import BitcoinSpend.Proofs.Script.Machine.Boundary

/-!
# Runs read backwards

What a run that gets to its end, and takes its branches, says about the machine that it began with:
the items that each token has found on the stack and those that it has left there. Read
`ok_of_run_cons` first; there is one `ok_of_run_…` lemma for each kind of token, and one `items_of_…`
lemma for each operation on the stacks.
-/

namespace BitcoinSpend.Script.Machine

variable {env : Environment} {m n : Machine} {left : Nat} {rest : List Token}

/-! ## Stacks -/

/-- A stack that was pushed to has the item on top. -/
theorem items_of_push {bs : Bytes} {s s' : Stack} (h : Stack.push bs s = .ok () s') :
    s'.items = bs :: s.items := by
  rw [Stack.push, bind_apply, Stack.requireRoom] at h
  split at h
  · next hroom =>
      split at hroom
      · cases hroom
      · cases hroom
        cases h
        rfl
  · cases h

/-- A computation on the main stack ends where it ends on that stack. -/
theorem main_of_onMain {α : Type} {c : StackM α} {a : α} {s s' : Stacks}
    (h : onMain c s = .ok a s') : c s.main = .ok a s'.main := by
  rw [onMain] at h
  split at h
  · next hc =>
      cases h
      exact hc
  · cases h

/-- A copy of the top item is put on top. -/
theorem items_of_dup {ok : Bool} {s s' : Stacks}
    (h : StackOp.perform (.shuffle .dup) s = .ok ok s') :
    ∃ top below, s.main.items = top :: below ∧ s'.main.items = top :: top :: below := by
  obtain ⟨_, after, hmain, h⟩ := ok_of_bind h
  cases h
  obtain ⟨top, same, htop, hpush⟩ := ok_of_bind (main_of_onMain hmain)
  rw [Stack.top] at htop
  split at htop
  · cases htop
  · next hitems =>
      cases htop
      exact ⟨_, _, hitems, by rw [items_of_push hpush, hitems]⟩

/-- The top item is replaced by its digest. -/
theorem items_of_hash {op : HashOp} {ok : Bool} {s s' : Stacks}
    (h : StackOp.perform (.hash op) s = .ok ok s') :
    ∃ top below, s.main.items = top :: below ∧ s'.main.items = op.digest top :: below := by
  obtain ⟨top, after, hpop, hrest⟩ := ok_of_bind (main_of_onMain h)
  obtain ⟨_, last, hpush, hend⟩ := ok_of_bind hrest
  injection hend with _ hlast
  rw [Stack.pop] at hpop
  split at hpop
  · cases hpop
  · next hitems =>
      cases hpop
      rw [← hlast]
      exact ⟨_, _, hitems, items_of_push hpush⟩

/-- Two equal items are taken off. -/
theorem items_of_equalVerify {s s' : Stacks}
    (h : StackOp.perform (.verify .equalVerify) s = .ok true s') :
    ∃ top, s.main.items = top :: top :: s'.main.items := by
  obtain ⟨_, after, hequal, hpop⟩ := ok_of_bind (main_of_onMain h)
  obtain ⟨⟨b, a⟩, between, hpair, hpush⟩ := ok_of_bind hequal
  have hafter := items_of_push hpush
  obtain ⟨popped, last, htop, htruth⟩ := ok_of_bind hpop
  injection htruth with htrue hlast
  rw [Stack.pop, hafter] at htop
  cases htop
  rw [truth_encode_ofBool, decide_eq_true_eq] at htrue
  subst htrue
  rw [Stack.popPair] at hpair
  split at hpair
  · next hitems =>
      cases hpair
      rw [← hlast]
      exact ⟨_, hitems⟩
  · cases hpair

/-! ## Machines -/

/-- A computation on the main stack changes nothing but the stacks. -/
theorem memory_of_onMainStack {α : Type} {c : StackM α} {a : α}
    (h : onMainStack c m = .ok a n) :
    ∃ memory : Stacks, c m.memory.main = .ok a memory.main ∧ n = { m with memory } := by
  unfold onMainStack onStacks at h
  split at h
  · next memory hmemory =>
      cases h
      exact ⟨memory, main_of_onMain hmemory, rfl⟩
  · cases h

/-- An outcome that raises no error is taken as it is. -/
theorem ok_of_orRaise {ε α : Type} {outcome : Except ε α} {wrap : ε → MachineError} {a : α}
    (h : orRaise outcome wrap m = .ok a n) : outcome = .ok a ∧ n = m := by
  cases outcome with
  | ok b =>
      cases h
      exact ⟨rfl, rfl⟩
  | error e => cases h

/-- What is run in a branch that is taken ends where the step ends. -/
theorem ok_of_whenExecuting_taken {c : StepM TookNext} {took : TookNext}
    (hm : m.executing = true) (h : whenExecuting env c m = .ok took n) : c m = .ok took n := by
  rw [whenExecuting_taken env c hm] at h
  obtain ⟨tookNext, between, hc, h⟩ := ok_of_bind h
  obtain ⟨_, last, hheights, h⟩ := ok_of_bind h
  rw [checkHeights_apply] at hheights
  split at hheights
  · cases hheights
  · cases hheights
    cases h
    exact hc

/-! ## Runs -/

/-- A run in a branch that is taken ends where it goes on behind its first token. -/
theorem ok_of_run_cons {c : StepM TookNext} {t : Token}
    (h : run env left (t :: rest) m = .ok () n) (hm : m.executing = true)
    (hstep : step env left rest t = whenExecuting env c) :
    ∃ took between, c { m with log := t :: m.log } = .ok took between ∧
      resume env took (left - 1) rest between = .ok () n := by
  rw [run_cons_apply, hstep] at h
  obtain ⟨took, between, hfirst, h⟩ := ok_of_bind h
  have hexecuting : executing { m with log := t :: m.log } = true := hm
  exact ⟨took, between, ok_of_whenExecuting_taken hexecuting hfirst, h⟩

/-- A run that gets past a stack opcode has had its effect on the stacks. -/
theorem ok_of_run_stackOp {op : StackOp} (h : run env left (.op (.stack op) :: rest) m = .ok () n)
    (hm : m.executing = true) :
    ∃ memory log, op.perform m.memory = .ok true memory ∧
      run env (left - 1) rest { m with memory, log } = .ok () n := by
  obtain ⟨took, between, hc, h⟩ := ok_of_run_cons h hm (step_op ..)
  obtain ⟨ok, after, hstacks, hc⟩ := ok_of_bind hc
  obtain ⟨_, last, hrequire, hc⟩ := ok_of_bind hc
  cases hc
  rw [onStacks] at hstacks
  split at hstacks
  · next memory hperform =>
      cases hstacks
      cases ok with
      | true =>
          cases hrequire
          exact ⟨memory, _, hperform, h⟩
      | false => cases hrequire
  · cases hstacks

/-- A run that gets past a literal has pushed its data. -/
theorem ok_of_run_literal {l : Literal} (h : run env left (.literal l :: rest) m = .ok () n)
    (hm : m.executing = true) :
    ∃ memory log, memory.main.items = l.data :: m.memory.main.items ∧
      run env (left - 1) rest { m with memory, log } = .ok () n := by
  obtain ⟨took, between, hc, h⟩ := ok_of_run_cons h hm rfl
  obtain ⟨_, after, hpush, hc⟩ := ok_of_bind hc
  cases hc
  rw [pushLiteral] at hpush
  split at hpush
  · cases hpush
  · obtain ⟨memory, hitems, rfl⟩ := memory_of_onMainStack hpush
    exact ⟨memory, _, items_of_push hitems, h⟩

/-- A run that ends with a check of a signature leaves its outcome on top. -/
theorem ok_of_run_checkSig (h : run env left [.op (.signature .checkSig)] m = .ok () n)
    (hm : m.executing = true) :
    ∃ key signature below code ok, m.memory.main.items = key :: signature :: below ∧
      assemble (committedTokens env [signature] m.code) = .ok code ∧
      (checkSignature env signature key code).outcome = .ok ok ∧
      n.memory.main.items = Number.encode (Number.ofBool ok) :: below := by
  obtain ⟨took, between, hc, h⟩ := ok_of_run_cons h hm (step_op ..)
  obtain ⟨_, after, hop, hc⟩ := ok_of_bind hc
  cases hc
  cases h
  obtain ⟨ok, checked, hcheck, hpush⟩ := ok_of_bind hop
  obtain ⟨⟨key, signature⟩, popped, hpair, hcheck⟩ := ok_of_bind hcheck
  obtain ⟨code, same, hcode, hperform⟩ := ok_of_bind hcheck
  obtain ⟨memory, hitems, rfl⟩ := memory_of_onMainStack hpair
  rw [scriptCode, get_bind_apply] at hcode
  obtain ⟨hassemble, rfl⟩ := ok_of_orRaise hcode
  rw [SignatureCheck.perform, modify_bind_apply] at hperform
  obtain ⟨houtcome, rfl⟩ := ok_of_orRaise hperform
  obtain ⟨last, hlast, rfl⟩ := memory_of_onMainStack hpush
  rw [Stack.popPair] at hitems
  split at hitems
  · next hpopped =>
      injection hitems with hpair hrest
      cases hpair
      refine ⟨key, signature, _, code, ok, hpopped, hassemble, houtcome, ?_⟩
      exact (items_of_push hlast).trans (congrArg _ (congrArg Stack.items hrest.symm))
  · cases hitems

end BitcoinSpend.Script.Machine
