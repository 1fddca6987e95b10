import BitcoinSpend.Proofs.Script.Machine.Step

/-!
# Runs in parts

A script is run as one list of tokens, so what the first part of a list leaves open the second part
goes on with. `runPart` runs the first part alone, and `run_append` splits a run at any place.
`runPart_balance` counts the conditionals that a part leaves open. `ok_true_of_validatePair` takes
apart what it means that a pair of scripts is valid.
-/

namespace BitcoinSpend.Script

/-- Whether a token opens a conditional. -/
def Token.opens : Token → Bool
  | .op (.branch .whenTrue) => true
  | .op (.branch .whenFalse) => true
  | _ => false

/-- Whether a token closes a conditional. -/
def Token.closes : Token → Bool
  | .op (.branch .close) => true
  | _ => false

/-- Only conditional keywords open or close conditionals. -/
theorem Token.opens_of_not_branch {t : Token} (ht : t.isBranch = false) :
    t.opens = false ∧ t.closes = false := by
  cases t with
  | op o =>
      cases o with
      | branch b => cases ht
      | pushData | nop | reserved | forbidden | signature | disabled | stack => exact ⟨rfl, rfl⟩
  | synonym | literal | invalid | unknown => exact ⟨rfl, rfl⟩

namespace Machine

/-! ## The conditionals that are left open -/

/-- A machine without open conditionals takes its branches. -/
theorem executing_of_conditions {m : Machine} (h : m.conditions = []) : m.executing = true := by
  rw [executing, h]
  rfl

/-- A token that is no conditional keyword leaves the open conditionals as they are. -/
theorem step_conditions {env : Environment} {left : Nat} {rest : List Token} {t : Token}
    (ht : t.isBranch = false) {m n : Machine} {took : TookNext}
    (h : step env left rest t m = .ok took n) : n.conditions = m.conditions := by
  cases hm : m.executing with
  | true =>
      have hsame := step_sameOutcome env left rest ht (Agree.refl m) hm hm
      rw [h] at hsame
      exact hsame.2.2.1
  | false =>
      rw [step_skipped env left rest ht hm] at h
      exact Oblivious.conditions (.bind (.scan t) fun _ ↦ .pure _) h

/-- Opening a conditional adds one to those that are open. -/
theorem openConditional_length {wanted : Bool} {m n : Machine}
    (h : openConditional wanted m = .ok () n) : n.conditions.length = m.conditions.length + 1 := by
  rw [openConditional_apply] at h
  obtain ⟨selector, m', hcondition, h⟩ := ok_of_bind h
  cases h
  rw [← Oblivious.conditions (.condition _ _) hcondition]
  rfl

/-- A step changes the number of open conditionals by what its token opens and closes. -/
theorem step_balance {env : Environment} {left : Nat} {rest : List Token} {t : Token}
    {m n : Machine} {took : TookNext} (h : step env left rest t m = .ok took n) :
    n.conditions.length + t.closes.toNat = m.conditions.length + t.opens.toNat := by
  cases ht : t.isBranch with
  | false =>
      obtain ⟨hopens, hcloses⟩ := Token.opens_of_not_branch ht
      rw [step_conditions ht h, hopens, hcloses]
  | true =>
      obtain ⟨b, rfl⟩ : ∃ b, t = .op (.branch b) := by
        unfold Token.isBranch at ht
        split at ht
        · exact ⟨_, rfl⟩
        · cases ht
      rw [step_op] at h
      obtain ⟨_, m', hbranch, h⟩ := ok_of_bind h
      cases h
      cases b with
      | whenTrue | whenFalse => exact openConditional_length hbranch
      | otherwise =>
          rw [branch, get_bind_apply] at hbranch
          cases hm : m.conditions with
          | nil =>
              rw [hm] at hbranch
              cases hbranch
          | cons c outer =>
              rw [hm] at hbranch
              cases hbranch
              rfl
      | close =>
          rw [branch, get_bind_apply] at hbranch
          cases hm : m.conditions with
          | nil =>
              rw [hm] at hbranch
              cases hbranch
          | cons c outer =>
              rw [hm] at hbranch
              cases hbranch
              rfl

/-! ## Parts of a run -/

/-- Runs the first part of a list of tokens, given the tokens behind it. It is told whether its
first token has been used up as the data of a push, and tells whether that is so for the first token
behind it. -/
def runPart (env : Environment) (behind : List Token) :
    (tookFirst : TookNext) → (left : Nat) → List Token → StepM TookNext
  | tookFirst, _, [] => return tookFirst
  | true, left, _ :: rest => runPart env behind false (left - 1) rest
  | false, left, t :: rest => do
    record t
    let tookNext ← step env left (rest ++ behind) t
    runPart env behind tookNext (left - 1) rest

/-- A part of a run adds its first token to the log, takes a step and goes on. -/
theorem runPart_cons_apply (env : Environment) (behind : List Token) (left : Nat) (t : Token)
    (rest : List Token) (m : Machine) :
    runPart env behind false left (t :: rest) m = (do
      let tookNext ← step env left (rest ++ behind) t
      runPart env behind tookNext (left - 1) rest : StepM TookNext)
        { m with log := t :: m.log } := by
  rfl

/-- A run of a list is a run of its first part that goes on with the second. -/
theorem resume_append (env : Environment) (tookFirst : TookNext) (left : Nat)
    (front back : List Token) (m : Machine) :
    resume env tookFirst left (front ++ back) m = (do
      let tookNext ← runPart env back tookFirst left front
      resume env tookNext (left - front.length) back : StepM Unit) m := by
  -- A step sees the whole list behind it, so both sides take the same one.
  induction front generalizing tookFirst left m with
  | nil => rfl
  | cons t rest ih =>
      have hlength : left - (t :: rest).length = left - 1 - rest.length := by
        rw [List.length_cons, Nat.sub_sub, Nat.add_comm]
      rw [hlength]
      cases tookFirst with
      | true => exact ih false (left - 1) m
      | false =>
          rw [resume_false, List.cons_append, run_cons_apply, bind_apply, bind_apply,
            runPart_cons_apply, bind_apply]
          cases step env left (rest ++ back) t { m with log := t :: m.log } with
          | ok took n => exact (ih took (left - 1) n).trans (bind_apply _ _ _)
          | error e n => rfl

/-- A part of a run leaves open what it opens and does not close. -/
theorem runPart_balance {env : Environment} {behind front : List Token} {tookFirst : TookNext}
    {left : Nat} {m n : Machine} {took : TookNext}
    (h : runPart env behind tookFirst left front m = .ok took n)
    (hfirst : tookFirst = true → ∃ l tail, front ++ behind = .literal l :: tail) :
    n.conditions.length + front.countP Token.closes =
      m.conditions.length + front.countP Token.opens := by
  induction front generalizing tookFirst left m with
  | nil =>
      cases h
      rfl
  | cons t rest ih =>
      cases tookFirst with
      | true =>
          -- What is used up as data is a literal, which opens and closes nothing.
          obtain ⟨l, tail, hl⟩ := hfirst rfl
          cases hl
          have hskip : runPart env behind false (left - 1) rest m = .ok took n := h
          exact ih hskip fun h ↦ nomatch h
      | false =>
          rw [runPart_cons_apply] at h
          obtain ⟨tookNext, m', hstep, h⟩ := ok_of_bind h
          have hrest := ih h fun htook ↦ literal_of_tookNext (htook ▸ hstep)
          have hbalance := step_balance hstep
          have htoNat (b : Bool) : (if b = true then 1 else 0) = b.toNat := by cases b <;> rfl
          rw [List.countP_cons, List.countP_cons, htoNat, htoNat]
          change m'.conditions.length + _ = m.conditions.length + _ at hbalance
          omega

/-- A run to the end leaves open what it opens and does not close. -/
theorem run_balance {env : Environment} {left : Nat} {tokens : List Token} {m n : Machine}
    (h : run env left tokens m = .ok () n) :
    n.conditions.length + tokens.countP Token.closes =
      m.conditions.length + tokens.countP Token.opens := by
  rw [← resume_false, ← List.append_nil tokens, resume_append] at h
  obtain ⟨took, n', hpart, h⟩ := ok_of_bind h
  have hend : resume env took (left - tokens.length) [] = pure () := by cases took <;> rfl
  rw [hend] at h
  cases h
  exact runPart_balance hpart fun h ↦ nomatch h

/-- A part of a run uses up the token behind it only if that is a literal. -/
theorem literal_of_runPart {env : Environment} {behind front : List Token} {tookFirst : TookNext}
    {left : Nat} {m n : Machine} (h : runPart env behind tookFirst left front m = .ok true n)
    (hfirst : tookFirst = true → ∃ l tail, front ++ behind = .literal l :: tail) :
    ∃ l tail, behind = .literal l :: tail := by
  induction front generalizing tookFirst left m with
  | nil =>
      cases h
      exact hfirst rfl
  | cons t rest ih =>
      cases tookFirst with
      | true =>
          have hskip : runPart env behind false (left - 1) rest m = .ok true n := h
          exact ih hskip fun h ↦ nomatch h
      | false =>
          rw [runPart_cons_apply] at h
          obtain ⟨tookNext, m', hstep, h⟩ := ok_of_bind h
          exact ih h fun htook ↦ literal_of_tookNext (htook ▸ hstep)

/-- A run that does not use up data across a boundary is at the boundary before it goes on. -/
theorem run_append {env : Environment} {left : Nat} {front back : List Token} {m n : Machine}
    (hback : ∀ l tail, back ≠ .literal l :: tail) (h : run env left (front ++ back) m = .ok () n) :
    ∃ b, runPart env back false left front m = .ok false b ∧
      run env (left - front.length) back b = .ok () n := by
  rw [← resume_false, resume_append] at h
  obtain ⟨took, b, hpart, h⟩ := ok_of_bind h
  cases took with
  | true =>
      obtain ⟨l, tail, hl⟩ := literal_of_runPart hpart fun h ↦ nomatch h
      exact absurd hl (hback l tail)
  | false => exact ⟨b, hpart, h⟩

/-! ## Pairs of scripts -/

/-- The part of a list behind a prefix. -/
theorem suffixFrom_length {α : Type} (front back : List α) :
    suffixFrom (front ++ back) front.length = back := by
  rw [suffixFrom, if_pos (Int.natCast_nonneg _), Int.toNat_natCast, List.drop_left]

/-- Placing byte strings puts the last one on top. -/
theorem placeAll_bytes (items : List Bytes) (s : Stack) :
    Stack.placeAll (items.map .bytes) s = .ok () { s with items := items.reverse ++ s.items } := by
  induction items generalizing s with
  | nil => rfl
  | cons bs items ih =>
      have hplace : Stack.placeAll ((bs :: items).map .bytes) s =
          Stack.placeAll (items.map .bytes) { s with items := bs :: s.items } := rfl
      rw [hplace, ih, List.reverse_cons, List.append_assoc]
      rfl

/-- Initial items for which there is room are pushed. -/
theorem pushInitial_of_le {env : Environment}
    (h : (env.initial.length : Int) ≤ env.policy.maxStack) :
    pushInitial env (start env.policy.maxStack) =
      .ok () { start env.policy.maxStack with memory.main.items := env.initial.reverse } := by
  have hroom : Stack.requireRoom (env.initial.map Offer.bytes).length
      { maxSize := env.policy.maxStack } = .ok () { maxSize := env.policy.maxStack } := by
    rw [Stack.requireRoom, List.length_map, if_neg]
    change ¬env.policy.maxStack < ((0 + env.initial.length : Nat) : Int)
    omega
  have hpush : Stack.pushAll (env.initial.map .bytes) { maxSize := env.policy.maxStack } =
      .ok () { items := env.initial.reverse, maxSize := env.policy.maxStack } := by
    rw [Stack.pushAll, bind_apply, hroom]
    simp only [placeAll_bytes, List.append_nil]
  rw [pushInitial]
  simp only [start, hpush]

/-- Initial items for which there is no room are an error. -/
theorem pushInitial_of_lt {env : Environment}
    (h : env.policy.maxStack < env.initial.length) :
    pushInitial env (start env.policy.maxStack) =
      .error (.stack .overflow) (start env.policy.maxStack) := by
  have hroom : Stack.requireRoom (env.initial.map Offer.bytes).length
      { maxSize := env.policy.maxStack } = .error .overflow { maxSize := env.policy.maxStack } := by
    rw [Stack.requireRoom, List.length_map, if_pos]
    change env.policy.maxStack < ((0 + env.initial.length : Nat) : Int)
    omega
  rw [pushInitial, Stack.pushAll, bind_apply]
  simp only [start, hroom]

/-- Pushing the initial items opens no conditional. -/
theorem pushInitial_conditions {env : Environment} {m n : Machine}
    (h : pushInitial env m = .ok () n) : n.conditions = m.conditions := by
  rw [pushInitial] at h
  split at h
  · cases h
    rfl
  · cases h

/-- Running a script ends without an error, and without a failure, if its run gets to the end. -/
theorem execute_ok {env : Environment} {unlocking locking : List Token} {m n : Machine}
    (h : execute env (unlocking ++ locking) unlocking.length m = .ok () n)
    (hvalid : n.valid = true) :
    run env unlocking.length (unlocking ++ locking) { m with code := locking } = .ok () n := by
  rw [execute, suffixFrom_length, Int.toNat_natCast] at h
  split at h
  · next hrun =>
      cases h
      exact hrun
  · cases h
    cases hvalid
  · cases h

/-- A number that stands for a truth value counts as it. -/
theorem truth_encode_ofBool (b : Bool) : Number.truth (Number.encode (Number.ofBool b)) = b := by
  cases b <;> decide

/-- A result is true only of a machine without open conditionals whose top item counts as true. -/
theorem validateStack_true {m n : Machine} (h : validateStack m = .ok true n) :
    m.valid = true ∧ m.conditions = [] ∧
      ∃ top below, m.memory.main.items = top :: below ∧ Number.truth top = true := by
  rw [validateStack, modify_bind_apply, get_bind_apply] at h
  split at h
  · cases h
  · next hok =>
      rw [Bool.or_eq_true, not_or] at hok
      have hvalid : m.valid = true := by simpa using hok.1
      have hconditions : m.conditions = [] := by simpa using hok.2
      cases hitems : m.memory.main.items with
      | nil =>
          simp only [hitems] at h
          cases h
      | cons top below =>
          simp only [hitems] at h
          obtain ⟨_, _, _, h⟩ := ok_of_bind h
          injection h with htruth
          exact ⟨hvalid, hconditions, top, below, rfl, htruth⟩

/-- A pair of scripts is valid only if there is room for the initial items, the run gets to the end
of both scripts and closes all conditionals, and the top item counts as true. -/
theorem validatePair_true {env : Environment} {unlocking locking : List Token} {m n : Machine}
    (h : validatePair env unlocking locking m = .ok true n) :
    ∃ a b, pushInitial env (start env.policy.maxStack) = .ok () a ∧
      run env unlocking.length (unlocking ++ locking) { a with code := locking } = .ok () b ∧
      b.conditions = [] ∧
      ∃ top below, b.memory.main.items = top :: below ∧ Number.truth top = true := by
  obtain ⟨_, _, hset, h⟩ := ok_of_bind h
  cases hset
  obtain ⟨_, a, hpush, h⟩ := ok_of_bind h
  obtain ⟨_, b, hexecute, h⟩ := ok_of_bind h
  obtain ⟨hvalid, hconditions, htop⟩ := validateStack_true h
  exact ⟨a, b, hpush, execute_ok hexecute hvalid, hconditions, htop⟩

/-- Whether a failed spend is tried once more makes no difference to a pair of scripts. -/
theorem validatePair_withRetry {env : Environment} {retry : Bool} (unlocking locking : List Token) :
    validatePair (env.withRetry retry) unlocking locking = validatePair env unlocking locking := by
  have hrun (left : Nat) (tokens : List Token) :
      run (env.withRetry retry) left tokens = run env left tokens :=
    resume_withRetry false left tokens
  have hexecute (script : List Token) (start : Int) :
      execute (env.withRetry retry) script start = execute env script start := by
    funext m
    rw [execute, execute, hrun]
  rw [validatePair, validatePair, hexecute]
  rfl

end Machine

end BitcoinSpend.Script
