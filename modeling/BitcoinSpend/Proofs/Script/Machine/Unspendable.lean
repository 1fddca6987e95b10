import BitcoinSpend.Proofs.Script.Machine.Boundary

/-!
# Locking scripts that are never satisfied

A locking script that begins with `OP_RETURN` fails where it is reached. An unlocking script can
still have it skipped, since both scripts run as one list of tokens: it leaves a conditional open
whose branch is not taken. `return_skipped_of_valid` says that there is no other way.
-/

namespace BitcoinSpend.Script.Machine

/-- The token that fails every script that executes it. -/
def returnToken : Token :=
  .op (.reserved .opReturn)

/-- A step over `OP_RETURN` gets past it only in a branch that is not taken. -/
theorem step_returnToken {env : Environment} {left : Nat} {rest : List Token} {m n : Machine}
    {took : TookNext} (h : step env left rest returnToken m = .ok took n) :
    m.executing = false ∧ took = false := by
  obtain ⟨hskipped, htook, -⟩ := skipped_of_failsExecuted rfl h
  exact ⟨hskipped, htook⟩

/-- A locking script that begins with `OP_RETURN` is satisfied only by an unlocking script that
leaves conditionals open, the branch of one of which is not taken, and only if what stands behind
`OP_RETURN` closes just as many. -/
theorem return_skipped_of_valid {env : Environment} {unlocking tail : List Token} {m n : Machine}
    (h : validatePair env unlocking (returnToken :: tail) m = .ok true n) :
    ∃ a b, pushInitial env (start env.policy.maxStack) = .ok () a ∧
      runPart env (returnToken :: tail) false unlocking.length unlocking
        { a with code := returnToken :: tail } = .ok false b ∧
      b.executing = false ∧
      unlocking.countP Token.opens = unlocking.countP Token.closes + b.conditions.length ∧
      tail.countP Token.closes = tail.countP Token.opens + b.conditions.length := by
  obtain ⟨a, c, hpush, hrun, hclosed, -⟩ := validatePair_true h
  obtain ⟨b, hpart, hlocking⟩ := run_append (fun _ _ h ↦ by cases h) hrun
  rw [run_cons_apply] at hlocking
  obtain ⟨took, b', hstep, htail⟩ := ok_of_bind hlocking
  obtain ⟨hskipped, rfl⟩ := step_returnToken hstep
  -- The number of open conditionals is counted from both ends of the locking script.
  have hkept : b'.conditions = b.conditions := (step_conditions rfl hstep).trans rfl
  have hunlocking := runPart_balance hpart fun h ↦ absurd h Bool.false_ne_true
  have hlocking := run_balance htail
  have hstart : a.conditions = [] := pushInitial_conditions hpush
  rw [hstart, List.length_nil] at hunlocking
  rw [hclosed, hkept, List.length_nil] at hlocking
  refine ⟨a, b, hpush, hpart, hskipped, ?_, ?_⟩
  · omega
  · omega

/-- An unlocking script that pushes a one and leaves open a conditional whose branch is not taken.
-/
def leavesOpen : List Token :=
  [.op (.stack (.constant (.small ⟨0, by decide⟩))), .op (.stack (.constant .zero)),
    .op (.branch .whenTrue)]

/-- The case of `OP_RETURN` in front of the end of a conditional. -/
theorem return_skipped_leavesOpen :
    ∃ n, validatePair {} leavesOpen [returnToken, .op (.branch .close)] {} = .ok true n ∧
      ∃ a b, pushInitial {} (start 1000) = .ok () a ∧
        runPart {} [returnToken, .op (.branch .close)] false leavesOpen.length leavesOpen
          { a with code := [returnToken, .op (.branch .close)] } = .ok false b ∧
        b.executing = false ∧
        leavesOpen.countP Token.opens = leavesOpen.countP Token.closes + b.conditions.length ∧
        [Token.op (.branch .close)].countP Token.closes =
          [Token.op (.branch .close)].countP Token.opens + b.conditions.length :=
  ⟨_, rfl, @return_skipped_of_valid {} leavesOpen [.op (.branch .close)] {} _ rfl⟩

/-- Locking scripts that begin with `OP_RETURN` are not all unspendable. -/
theorem not_return_unspendable :
    ¬ ∀ (env : Environment) (unlocking tail : List Token) (m n : Machine),
      validatePair env unlocking (returnToken :: tail) m ≠ .ok true n :=
  fun h ↦ h {} leavesOpen [.op (.branch .close)] {} _ rfl

end BitcoinSpend.Script.Machine
