import BitcoinSpend.Proofs.Script.Machine.Boundary

/-!
# Barred locking scripts

A disabled or forbidden opcode fails a script even in a branch that is not taken, so no unlocking
script satisfies a locking script that contains one. A marker for bytes that are no instruction can
be skipped, but at the end of a script it is skipped only by a conditional that stays open. Read
`Barred` first; the main result is `not_validatePair_of_barred`.
-/

namespace BitcoinSpend.Script

/-- Whether a token fails every script that reaches it, executed or not. -/
def Token.isBarred : Token → Bool
  | .op (.disabled _) => true
  | .op (.forbidden _) => true
  | _ => false

/-- Locking scripts that contain a disabled or forbidden opcode, in whatever branch, or end with a
marker for bytes that are no instruction. -/
inductive Barred (locking : List Token) : Prop where
  | contains (t : Token) : t ∈ locking → t.isBarred = true → Barred locking
  | endsInvalid (front : List Token) (payload : String) :
      locking = front ++ [.invalid payload] → Barred locking

/-- A script that ends in a truncated push is barred. -/
theorem barred_of_truncated {script bytes : Bytes} {front : List Instruction}
    (h : Instruction.parse script = front ++ [.truncated bytes]) : Barred (disassemble script) := by
  refine .endsInvalid (front.flatMap Instruction.tokens) (Hex.encode bytes) ?_
  rw [disassemble, h, List.flatMap_append, List.flatMap_singleton]
  rfl

namespace Machine

variable {env : Environment} {left : Nat} {m n : Machine}

/-- A disabled or forbidden opcode fails the script, whatever it does to the stack before. -/
theorem step_isBarred {t : Token} (ht : t.isBarred = true) (env : Environment) (left : Nat)
    (rest : List Token) (m : Machine) :
    ∃ reason n, step env left rest t m = .error (.failed reason) n := by
  unfold Token.isBarred at ht
  split at ht
  · next d =>
      rw [step_op, opcode, get_bind_apply]
      split
      · rw [bind_apply, onMainStack, onStacks]
        cases onMain d.perform m.memory with
        | ok _ memory => exact ⟨.disabled d, { m with memory }, rfl⟩
        | error e memory => exact ⟨.stack e, { m with memory }, rfl⟩
      · exact ⟨.disabled d, m, rfl⟩
  · next f =>
      rw [step_op]
      exact ⟨.forbidden f, m, rfl⟩
  · cases ht

/-- A step gets past no disabled or forbidden opcode. -/
theorem not_isBarred_of_step {rest : List Token} {t : Token} {took : TookNext}
    (h : step env left rest t m = .ok took n) : t.isBarred = false := by
  cases ht : t.isBarred with
  | false => rfl
  | true =>
      obtain ⟨reason, n', hfails⟩ := step_isBarred ht env left rest m
      rw [hfails] at h
      cases h

/-- A run gets past no disabled or forbidden opcode: it takes a step at every token but the data of
pushes, which are literals. -/
theorem not_isBarred_of_resume {tokens : List Token} {tookFirst : TookNext}
    (h : resume env tookFirst left tokens m = .ok () n)
    (hfirst : tookFirst = true → ∃ l tail, tokens = .literal l :: tail) :
    ∀ t ∈ tokens, t.isBarred = false := by
  induction tokens generalizing tookFirst left m with
  | nil => exact fun _ ht ↦ absurd ht List.not_mem_nil
  | cons t rest ih =>
      cases tookFirst with
      | true =>
          obtain ⟨l, tail, hl⟩ := hfirst rfl
          cases hl
          have hskip : resume env false (left - 1) rest m = .ok () n := h
          rintro u (_ | ⟨_, hu⟩)
          · rfl
          · refine ih hskip ?_ u hu
            exact fun h ↦ nomatch h
      | false =>
          rw [resume_false, run_cons_apply] at h
          obtain ⟨took, m', hstep, hrest⟩ := ok_of_bind h
          rintro u (_ | ⟨_, hu⟩)
          · exact not_isBarred_of_step hstep
          · exact ih hrest (fun htook ↦ literal_of_tookNext (htook ▸ hstep)) u hu

/-- A run gets past a marker at its end only in a branch that is not taken, which stays open. -/
theorem conditions_of_run_invalid {payload : String}
    (h : run env left [.invalid payload] m = .ok () n) : n.conditions ≠ [] := by
  rw [run_cons_apply] at h
  obtain ⟨took, m', hstep, hend⟩ := ok_of_bind h
  obtain ⟨hskipped, rfl, rfl⟩ := skipped_of_failsExecuted rfl hstep
  cases hend
  intro hnone
  rw [executing_of_conditions hnone] at hskipped
  cases hskipped

/-- No unlocking script satisfies a barred locking script. -/
theorem not_validatePair_of_barred {unlocking locking : List Token} (hbarred : Barred locking) :
    validatePair env unlocking locking m ≠ .ok true n := by
  intro h
  obtain ⟨a, c, -, hrun, hclosed, -⟩ := validatePair_true h
  cases hbarred with
  | contains t ht hbarred =>
      rw [← resume_false] at hrun
      have hnone := not_isBarred_of_resume hrun (fun h ↦ nomatch h) t (List.mem_append_right _ ht)
      rw [hbarred] at hnone
      cases hnone
  | endsInvalid front payload hlocking =>
      -- The marker is no data of a push, so the run is at the marker before its end.
      rw [hlocking, ← List.append_assoc] at hrun
      obtain ⟨b, -, hlast⟩ := run_append (fun _ _ h ↦ by cases h) hrun
      exact conditions_of_run_invalid hlast hclosed

end Machine

end BitcoinSpend.Script
